import CommentBlocks.Glob.Match
import CommentBlocks.Unicode.Blank

/-!
Lists of paths to leave out, one pattern a line, where later lines count more and an exclamation mark
takes a path in again.
-/

namespace CommentBlocks

structure IgnoreRule where
  glob : Glob
  /-- The paths that match are not to be ignored. -/
  isException : Bool
  directoriesOnly : Bool

namespace IgnoreRule

open Text (before? hasPiece)

/-- Stars do not reach over slashes, and a set without end is plain text. -/
def style : GlobStyle := ⟨true, true⟩

/-- The line without white space at its end, unless that is escaped. -/
def trimLine (line : List Char) : List Char :=
  if (before? ['\\', ' '] line).isSome then line else Text.trimEnd line

/-- The pattern of a line: a name that may stand in any directory when there is no slash in front or
in between. Everything below a directory does not include the directory. -/
def patternOf (isAbsolute : Bool) (line : List Char) : List Char :=
  let anywhere := !isAbsolute && !line.contains '/'
  let isOpen := line = ['*', '*']
  let pattern := if anywhere && !isOpen then '*' :: '*' :: '/' :: line else line
  if (before? ['/', '*', '*'] pattern).isSome then pattern ++ ['/', '*'] else pattern

/-- The rule of a line, nothing for an empty line or a comment. -/
def parse? (line : String) : Except GlobFault (Option IgnoreRule) :=
  let cs := line.toList
  if cs.head? = some '#' then .ok none
  else
    let cs := trimLine cs
    if cs.isEmpty then .ok none
    else
      let (isException, isAbsolute, cs) := match cs with
        | '\\' :: '!' :: rest => (false, false, '!' :: rest)
        | '\\' :: '#' :: rest => (false, false, '#' :: rest)
        | '!' :: '/' :: rest => (true, true, rest)
        | '!' :: rest => (true, false, rest)
        | '/' :: rest => (false, true, rest)
        | cs => (false, false, cs)
      let (directoriesOnly, cs) := match before? ['/'] cs with
        | some front => (true, (before? ['\\'] front).getD front)
        | none => (false, cs)
      match Glob.parse style (String.ofList (patternOf isAbsolute cs)) with
      | .error e => .error e
      | .ok glob => .ok (some ⟨glob, isException, directoriesOnly⟩)

/-- The last rule that matches a path decides whether the path is ignored. -/
def ignores (rules : List IgnoreRule) (path : PathBytes) (isDirectory : Bool) : Bool :=
  match rules.reverse.find? fun r =>
      (!r.directoriesOnly || isDirectory) && r.glob.isMatch path with
  | some r => !r.isException
  | none => false

end IgnoreRule

end CommentBlocks
