import CommentBlocks.Block.Basic
import CommentBlocks.Tag.Pattern

/-!
Fitting text between the tags of a block: its indentation and its line breaks.
-/

namespace CommentBlocks

namespace Layout

open Text (after? splitAt joinWith trim)

def dedent (indentation content : List Char) : List Char :=
  if indentation.isEmpty then content
  else
    joinWith ['\n'] ((splitAt '\n' content).map fun line => (after? indentation line).getD line)

/-- Put the indentation before a line, unless the line is blank. -/
def indentLine (indentation line : List Char) : List Char :=
  if (trim line).isEmpty then line else indentation ++ line

/-- Put the indentation before every line that is not blank. The first line counts only where it
starts at a line start. -/
def indent (indentation content : List Char) (atLineStart : Bool) : List Char :=
  if indentation.isEmpty then content
  else
    match splitAt '\n' content with
    | [] => content
    | first :: others =>
      let first := if atLineStart then indentLine indentation first else first
      joinWith ['\n'] (first :: others.map (indentLine indentation))

def endsLine (cs : List Char) : Bool := cs.getLast? == some '\n'

def startsWithBreak (cs : List Char) : Bool :=
  match cs with
  | '\n' :: _ => true
  | '\r' :: '\n' :: _ => true
  | _ => false

/-- The text to put between the tags of a block for what a transform gave. Tags in it are left out,
and white space around it unless the block says otherwise. In a block over several lines the text
starts and ends its lines. -/
def insertion (v : Vocabulary) (block : Block) (rendered : List Char) : List Char :=
  let stripped := v.stripTags rendered
  let body := if block.flag "noTrim" then stripped else trim stripped
  let opened := endsLine block.openTag.value.toList
  let leading := block.context.isMultiline && !opened
  let trailing := block.context.isMultiline && !startsWithBreak block.closeTag.value.toList
  let text := (if leading then ['\n'] else []) ++
    indent block.span.indentation.toList body (leading || opened)
  if trailing && !text.isEmpty && !endsLine text then text ++ ['\n'] else text

end Layout

end CommentBlocks
