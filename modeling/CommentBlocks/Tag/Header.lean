import CommentBlocks.Argument.Options
import CommentBlocks.Tag.Vocabulary
import CommentBlocks.Unicode.Alphabetic
import CommentBlocks.Unicode.Numeric

/-!
What an open tag says after its word: the name of a transform, bare or wrapped, and arguments.
-/

namespace CommentBlocks

structure Header where
  transform : Option (List Char)
  rawArgs : List Char
  /-- Arguments that follow a name wrapped with arguments of its own. -/
  trailing : List Char
  /-- The arguments are written after a colon, with ampersands. -/
  isLegacy : Bool
deriving DecidableEq, Repr

namespace Header

open Unicode (isBlank isAlphabetic isNumeric)
open Text (trim trimStart trimEnd trimEndBy after? cut?)

def startsName (c : Char) : Bool := isAlphabetic c || c == '_' || c == '$'

def continuesName (c : Char) : Bool :=
  isAlphabetic c || isNumeric c || c == '_' || c == '-' || c == '.' || c == '$'

/-- Cut off the name that the text starts with; it is empty where there is none. -/
def splitName : List Char → List Char × List Char
  | [] => ([], [])
  | c :: cs =>
    if startsName c then (c :: cs.takeWhile continuesName, cs.dropWhile continuesName)
    else ([], c :: cs)

@[simp] theorem append_splitName (cs : List Char) : (splitName cs).1 ++ (splitName cs).2 = cs := by
  cases cs with
  | nil => rfl
  | cons c cs => simp only [splitName]; split <;> simp

/-- The arguments after a colon, with at most one space before it. -/
def legacyArgs? (afterName : List Char) : Option (List Char) :=
  let cs := (after? [' '] afterName).getD afterName
  (after? [':'] cs).map trim

/-- The pairs of brackets that may stand around a name, longer ones first. -/
def wrappers : List (List Char × List Char) :=
  [(['(', '('], [')', ')']), (['\x7b', '\x7b'], ['\x7d', '\x7d']), (['('], [')']), (['['], [']']),
   (['\x7b'], ['\x7d'])]

/-- Read a name inside the given brackets, alone or with arguments after a colon. -/
def wrapped? (text : List Char) (wrapper : List Char × List Char) : Option Header :=
  match after? wrapper.1 text with
  | none => none
  | some inside =>
    match cut? wrapper.2 inside with
    | none => none
    | some (body, tail) =>
      let (name, afterName) := splitName (trim body)
      let trailing := trim tail
      if name.isEmpty then none
      else
        match legacyArgs? afterName with
        | some args => some ⟨some name, args, trailing, true⟩
        | none => if (trim afterName).isEmpty then some ⟨some name, trailing, [], false⟩ else none

/-- Read a bare name; a word before an equals sign is an argument. -/
def bare? (text : List Char) : Option Header :=
  let (name, afterName) := splitName text
  if name.isEmpty then none
  else
    match legacyArgs? afterName with
    | some args => some ⟨some name, args, [], true⟩
    | none =>
      let isArgument := (trimStart afterName).head? == some '='
      let isSeparated := match afterName with
        | [] => true
        | c :: _ => isBlank c
      if !isArgument && isSeparated then some ⟨some name, trim afterName, [], false⟩ else none

def ofText (rest : List Char) : Header :=
  let text := trimStart rest
  match wrappers.findSome? (wrapped? text) with
  | some h => h
  | none => (bare? text).getD ⟨none, trim text, [], false⟩

/-- Drop the run of the first character of the closing delimiter that touches the delimiter, and
white space before it. -/
def dropDebris (commentClose rest : List Char) : List Char :=
  match commentClose with
  | [] => trimEnd rest
  | d :: _ => trimEnd (trimEndBy (· == d) rest)

def options (h : Header) : Except TokenFault Options := do
  if h.isLegacy then
    let own := Options.ofPairs h.rawArgs
    if h.trailing.isEmpty then return own
    let more ← Options.ofText h.trailing
    return Fields.insertAll own more
  else Options.ofText h.rawArgs

end Header

end CommentBlocks
