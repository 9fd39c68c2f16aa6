import CommentBlocks.Text.Basic

/-!
Lines: splitting a text into lines, and the line number of a byte offset.
-/

namespace CommentBlocks.Text

/-- A carriage return at the end belongs to the line break. -/
def dropReturn (cs : List Char) : List Char := (before? ['\r'] cs).getD cs

/-- The lines of a text, without their breaks. A final break ends the last line and opens no
other; a carriage return counts as part of a break only before a line feed. -/
def lines (cs : List Char) : List (List Char) :=
  let pieces := splitAt '\n' cs
  pieces.dropLast.map dropReturn ++ (pieces.getLast?.filter (· ≠ [])).toList

/-- The lines of a text with their breaks: a carriage return, a line feed, or both in that order. -/
def linesWithBreaks : List Char → List (List Char)
  | [] => []
  | '\r' :: '\n' :: cs => ['\r', '\n'] :: linesWithBreaks cs
  | c :: cs =>
    if c = '\n' ∨ c = '\r' then [c] :: linesWithBreaks cs
    else
      match linesWithBreaks cs with
      | [] => [[c]]
      | l :: ls => (c :: l) :: ls

/-- The byte offsets at which the lines after the first start, the text standing at `place`. -/
def lineStartsFrom (place : Nat) : List Char → List Nat
  | [] => []
  | c :: cs =>
    let next := place + c.utf8Size
    if c = '\n' then next :: lineStartsFrom next cs else lineStartsFrom next cs

def lineStarts (cs : List Char) : List Nat := 0 :: lineStartsFrom 0 cs

/-- The line of an offset, counted from one: the number of lines that start at or before it. -/
def lineOf (starts : List Nat) (offset : Nat) : Nat := starts.countP (· ≤ offset)

/-- No character is lost. -/
theorem flatten_linesWithBreaks (cs : List Char) : (linesWithBreaks cs).flatten = cs := by
  fun_induction linesWithBreaks cs <;> simp_all

end CommentBlocks.Text
