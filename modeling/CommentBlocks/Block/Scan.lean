import CommentBlocks.Block.Basic
import CommentBlocks.Tag.Header
import CommentBlocks.Tag.Pattern
import CommentBlocks.Text.Lines

/-!
Finding the blocks of a text, in the order in which they stand there.

Text behind the reader is kept back to front, so that the line before a tag can be looked at from
its end.
-/

namespace CommentBlocks

namespace Scan

open TagPattern (isSpace)
open Text (bytes trim)

/-- The white space that opens a line, when nothing else stands before the tag on that line. -/
def indentation (behind : List Char) : List Char :=
  let line := behind.takeWhile (· != '\n')
  if line.all isSpace then line.reverse else []

/-- The blanks and the line break at the start of a text, when the break follows the blanks
directly. -/
def lineEnd (cs : List Char) : List Char :=
  let blanks := cs.takeWhile isSpace
  match cs.dropWhile isSpace with
  | '\r' :: '\n' :: _ => blanks ++ ['\r', '\n']
  | '\n' :: _ => blanks ++ ['\n']
  | _ => []

/-- Drop one line break from the end of a text that is given back to front. -/
def dropBreak : List Char → List Char
  | '\n' :: '\r' :: cs => cs
  | '\n' :: cs => cs
  | cs => cs

/-- Split the text between two tags into the content and the lead of the close tag. A close tag on a
line of its own owns its indentation and the line break before it. `behind` is the text up to the end
of the open tag, back to front. -/
def splitLead (behind between : List Char) : List Char × List Char :=
  let line := (between.reverse ++ behind).takeWhile (· != '\n')
  if line.all isSpace then
    let content := (dropBreak (between.reverse.drop line.length)).reverse
    (content, between.drop content.length)
  else (between, [])

/-- The pieces of one block, with the text in front of it given back to front. -/
structure Pieces where
  behind : List Char
  /-- The part of `behind` that the open tag owns. -/
  indentation : List Char
  openTag : List Char
  openEnd : List Char
  content : List Char
  lead : List Char
  closeTag : List Char

namespace Pieces

def openText (p : Pieces) : List Char := p.indentation ++ p.openTag ++ p.openEnd

def closeText (p : Pieces) : List Char := p.lead ++ p.closeTag

def tagStart (p : Pieces) : Nat := bytes p.behind

def openStart (p : Pieces) : Nat := p.tagStart - bytes p.indentation

def openStop (p : Pieces) : Nat := p.tagStart + bytes p.openTag + bytes p.openEnd

def closeStart (p : Pieces) : Nat := p.openStop + bytes p.content

def closeStop (p : Pieces) : Nat := p.closeStart + bytes p.closeText

def toBlock (p : Pieces) (lineStarts : List Nat) (index : Nat) (header : Header)
    (options : Options) : Block :=
  let openLine := Text.lineOf lineStarts p.tagStart
  let closeLine := Text.lineOf lineStarts (Nat.max (p.closeStop - 1) p.closeStart)
  { index
    transform := header.transform.map String.ofList
    rawArgs := String.ofList header.rawArgs
    options
    openTag := ⟨String.ofList p.openText, p.openStart, p.openStop⟩
    closeTag := ⟨String.ofList p.closeText, p.closeStart, p.closeStop⟩
    content := ⟨String.ofList p.content, p.openStop, p.closeStart, p.indentation.length⟩
    span :=
      { indentation := String.ofList p.indentation
        firstLine := openLine
        lastLine := closeLine
        start := p.openStart
        stop := p.closeStop
        value := String.ofList (p.openText ++ p.content ++ p.closeText) }
    context := ⟨openLine != closeLine, header.isLegacy, false⟩ }

end Pieces

def argumentFault (line : Nat) (fault : TokenFault) : Fault :=
  .invalidArguments Fault.unknownFile line fault.message

/-- The blocks of the text `ahead`, which follows `behind`. A tag without text ends the scan. -/
def blocksFrom (v : Vocabulary) (lineStarts : List Nat) (index : Nat) (behind ahead : List Char) :
    Except Fault (List Block) :=
  match (TagPattern.opensBlock v).find? ahead with
  | none => .ok []
  | some (gap, tag) =>
    let openTag := (TagPattern.opensBlock v).text tag
    let behind := gap.reverse ++ behind
    let line := Text.lineOf lineStarts (bytes behind)
    let openEnd := lineEnd tag.after
    let inside := tag.after.drop openEnd.length
    match (TagPattern.closesBlock v).find? inside with
    | none => .error (.unclosedBlock Fault.unknownFile line (String.ofList (trim openTag)))
    | some (between, close) =>
      let beforeContent := (openTag ++ openEnd).reverse ++ behind
      let (content, lead) := splitLead beforeContent between
      let closeTag := (TagPattern.closesBlock v).text close
      let header := Header.ofText (Header.dropDebris v.commentClose.toList tag.inner)
      match header.options with
      | .error fault => .error (argumentFault line fault)
      | .ok options =>
        let pieces : Pieces :=
          ⟨behind, indentation behind, openTag, openEnd, content, lead, closeTag⟩
        let block := pieces.toBlock lineStarts index header options
        if close.after.length < ahead.length then
          match blocksFrom v lineStarts (index + 1)
              ((between ++ closeTag).reverse ++ beforeContent) close.after with
          | .error fault => .error fault
          | .ok blocks => .ok (block :: blocks)
        else .ok [block]
termination_by ahead.length

def blocks (v : Vocabulary) (text : List Char) : Except Fault (List Block) :=
  blocksFrom v (Text.lineStarts text) 0 [] text

end Scan

/-- The blocks of a text, in the order in which they stand there. -/
def Block.scan (v : Vocabulary) (text : String) : Except Fault (List Block) :=
  Scan.blocks v text.toList

end CommentBlocks
