/-!
Colours on a terminal.
-/

namespace CommentBlocks.CommandLine

inductive Paint where
  | red
  | green
  | yellow
  | bold
deriving DecidableEq, Repr

namespace Paint

def opening : Paint → String
  | red => "\x1b[31m"
  | green => "\x1b[32m"
  | yellow => "\x1b[33m"
  | bold => "\x1b[1m"

def closing : Paint → String
  | bold => "\x1b[0m"
  | _ => "\x1b[39m"

/-- Paint a text, if colours are wanted. -/
def apply (colored : Bool) (p : Paint) (text : String) : String :=
  if colored then p.opening ++ text ++ p.closing else text

@[simp] theorem apply_false (p : Paint) (text : String) : p.apply false text = text := rfl

end Paint

end CommentBlocks.CommandLine
