import CommentBlocks.Value.Basic

/-!
Blocks: an open tag, the content, and the matching close tag.

All places are byte offsets into the text that was scanned.
-/

namespace CommentBlocks

/-- A tag with the white space and the line break that belong to it. -/
structure TagSpan where
  value : String
  start : Nat
  stop : Nat
deriving DecidableEq, Repr

structure ContentSpan where
  value : String
  start : Nat
  stop : Nat
  /-- The width of the indentation of the open tag, in characters. -/
  indentation : Nat
deriving DecidableEq, Repr

structure BlockSpan where
  indentation : String
  /-- The line of the open tag, counted from one. -/
  firstLine : Nat
  /-- The line on which the close tag ends. -/
  lastLine : Nat
  start : Nat
  stop : Nat
  value : String
deriving DecidableEq, Repr

structure BlockContext where
  isMultiline : Bool
  isLegacy : Bool
  /-- The block names a transform that nobody has registered. -/
  isMissing : Bool
deriving DecidableEq, Repr

structure Block where
  /-- The place among the blocks of the file, counted from zero. -/
  index : Nat
  transform : Option String
  rawArgs : String
  options : Options
  openTag : TagSpan
  closeTag : TagSpan
  content : ContentSpan
  span : BlockSpan
  context : BlockContext
deriving DecidableEq, Repr

namespace Block

def line (b : Block) : Nat := b.span.firstLine

/-- The file that the block refers to. -/
def src? (b : Block) : Option String :=
  match Fields.get? "src" b.options with
  | some (.string s) => some s
  | _ => none

/-- An option is set: it is true, the word "true", or a number other than zero. -/
def flag (b : Block) (key : String) : Bool :=
  match Fields.get? key b.options with
  | some (.bool value) => value
  | some (.string value) => value == "true"
  | some (.int i) => i != 0
  | some (.float x) => !x.isZero
  | _ => false

end Block

end CommentBlocks
