import CommentBlocks.Text.Basic

/-!
Glob patterns: their parts and how they are read.

A pattern may hold question marks, stars, sets of characters between square brackets, alternatives
between curly brackets, two stars between slashes for any number of directories, and a backslash
before a character that stands for itself.
-/

namespace CommentBlocks

inductive GlobPart where
  | literal (c : Char)
  /-- Any one byte. -/
  | any
  /-- Any bytes. -/
  | star
  /-- Any directories in front, or none. -/
  | directoriesFirst
  /-- A slash and whatever follows it. -/
  | everythingBelow
  /-- A slash, or directories between two slashes. -/
  | directoriesBetween
  /-- A character in one of the ranges, or in none of them. -/
  | set (negated : Bool) (ranges : List (Char × Char))
  /-- One of several patterns. -/
  | alternatives (branches : List (List GlobPart))
deriving Repr

inductive GlobFault where
  | unclosedSet
  | invalidRange (first last : Char)
  | unopenedAlternatives
  | unclosedAlternatives
  | danglingEscape
deriving DecidableEq, Repr

def GlobFault.message : GlobFault → String
  | unclosedSet => "unclosed character class; missing ']'"
  | invalidRange first last =>
    "invalid range; '" ++ String.ofList [first] ++ "' > '" ++ String.ofList [last] ++ "'"
  | unopenedAlternatives => "unopened alternate group; missing '\x7b'"
  | unclosedAlternatives => "unclosed alternate group; missing '\x7d'"
  | danglingEscape => "dangling '\\'"

structure GlobStyle where
  /-- Stars, question marks and sets of two stars do not reach over a slash. -/
  slashSeparates : Bool
  /-- A bracket that opens a set without end stands for itself. -/
  allowsOpenSet : Bool

namespace Glob

structure Reading where
  /-- The alternatives that are being read, the last one first and each back to front. -/
  branches : List (List GlobPart)
  /-- How many branches there were when each open group started, the innermost first. -/
  groups : List Nat
  /-- The character read last. -/
  previous : Option Char
  /-- A set without end was found, so that brackets stand for themselves from there on. -/
  hasOpenSet : Bool

namespace Reading

def start : Reading := ⟨[[]], [], none, false⟩

def push (r : Reading) (part : GlobPart) : Reading :=
  match r.branches with
  | [] => { r with branches := [[part]] }
  | b :: bs => { r with branches := (part :: b) :: bs }

/-- Put `part` in the place of the part read last, unless that already stands for directories at an
end. -/
def replaceLast (r : Reading) (part : GlobPart) : Reading :=
  match r.branches with
  | (.directoriesFirst :: _) :: _ => r
  | (.everythingBelow :: _) :: _ => r
  | (_ :: b) :: bs => { r with branches := (part :: b) :: bs }
  | _ => r.push part

def atBranchStart (r : Reading) : Bool :=
  match r.branches with
  | [] :: _ => true
  | _ => false

def inGroup (r : Reading) : Bool := 2 ≤ r.branches.length

def openGroup (r : Reading) : Reading :=
  { r with branches := [] :: r.branches, groups := r.branches.length :: r.groups }

def closeGroup (r : Reading) : Except GlobFault Reading :=
  match r.groups with
  | [] => .error .unopenedAlternatives
  | before :: groups =>
    let count := r.branches.length - before
    let branches := ((r.branches.take count).map List.reverse).reverse
    .ok ({ r with branches := r.branches.drop count, groups }.push (.alternatives branches))

/-- A comma parts alternatives inside a group and stands for itself elsewhere. -/
def comma (r : Reading) : Reading :=
  if r.groups.isEmpty then r.push (.literal ',') else { r with branches := [] :: r.branches }

/-- Read stars, the first of them being passed already. Two stars alone between slashes stand for
directories. -/
def stars (r : Reading) (cs : List Char) : Reading × List Char :=
  match cs with
  | '*' :: rest =>
    let two := ({ (r.push .star).push .star with previous := some '*' }, rest)
    let afterSlash (r : Reading) : Reading × List Char :=
      match rest with
      | '/' :: rest => ({ r with previous := some '/' }, rest)
      | rest => ({ r with previous := some '*' }, rest)
    let parted : Bool := r.previous == some '/' ||
      (r.inGroup && (r.previous == some ',' || r.previous == some '\x7b'))
    let next := rest.head?
    if r.atBranchStart then
      if next == none || next == some '/' then afterSlash (r.push .directoriesFirst) else two
    else if !parted then two
    else if next == some '/' then afterSlash (r.replaceLast .directoriesBetween)
    else if next == none || (r.inGroup && (next == some ',' || next == some '\x7d')) then
      ({ r.replaceLast .everythingBelow with previous := some '*' }, rest)
    else two
  | cs => ({ r.push .star with previous := some '*' }, cs)

end Reading

/-- A set of characters while it is read: the ranges so far, the last one first, and whether a hyphen
has just been read that may join two characters. -/
structure SetReading where
  ranges : List (Char × Char)
  afterHyphen : Bool

namespace SetReading

def extend (s : SetReading) (c : Char) : Except GlobFault SetReading :=
  match s.ranges with
  | [] => .ok ⟨[(c, c)], false⟩
  | (low, _) :: rest =>
    if c < low then .error (.invalidRange low c) else .ok ⟨(low, c) :: rest, false⟩

/-- Read the characters of a set up to its closing bracket; one that comes first belongs to the set.
Gives the ranges and what follows the bracket. -/
def read (s : SetReading) (isFirst : Bool) :
    List Char → Except GlobFault (List (Char × Char) × List Char)
  | [] => .error .unclosedSet
  | c :: cs =>
    if c = ']' ∧ !isFirst then
      .ok ((if s.afterHyphen then ('-', '-') :: s.ranges else s.ranges).reverse, cs)
    else if c = '-' ∧ !isFirst ∧ !s.afterHyphen then ({ s with afterHyphen := true }).read false cs
    else if s.afterHyphen then
      match s.extend c with
      | .error e => .error e
      | .ok s => s.read false cs
    else SetReading.read ⟨(c, c) :: s.ranges, false⟩ false cs

end SetReading

/-- Read a set after its opening bracket. -/
def readSet (cs : List Char) : Except GlobFault (GlobPart × List Char) :=
  let (negated, cs) := match cs with
    | '!' :: rest => (true, rest)
    | '^' :: rest => (true, rest)
    | cs => (false, cs)
  match SetReading.read ⟨[], false⟩ true cs with
  | .error e => .error e
  | .ok (ranges, rest) => .ok (.set negated ranges, rest)

/-- Read one part after another. `fuel` above the length of the text is enough. -/
def readFrom (style : GlobStyle) : (fuel : Nat) → Reading → List Char →
    Except GlobFault (List GlobPart)
  | 0, _, _ => .ok []
  | _ + 1, r, [] =>
    match r.branches with
    | [parts] => .ok parts.reverse
    | _ => .error .unclosedAlternatives
  | fuel + 1, r, c :: cs =>
    if c = '?' then readFrom style fuel { r.push .any with previous := some c } cs
    else if c = '*' then
      let (r, cs) := r.stars cs
      readFrom style fuel r cs
    else if c = '[' ∧ !r.hasOpenSet then
      match readSet cs with
      | .ok (part, rest) => readFrom style fuel { r.push part with previous := some ']' } rest
      | .error e =>
        if style.allowsOpenSet && e == .unclosedSet then
          readFrom style fuel
            { r.push (.literal '[') with previous := some '[', hasOpenSet := true } cs
        else .error e
    else if c = '\x7b' then readFrom style fuel { r.openGroup with previous := some c } cs
    else if c = '\x7d' then
      match r.closeGroup with
      | .error e => .error e
      | .ok r => readFrom style fuel { r with previous := some c } cs
    else if c = ',' then readFrom style fuel { r.comma with previous := some c } cs
    else if c = '\\' then
      match cs with
      | [] => .error .danglingEscape
      | d :: cs => readFrom style fuel { r.push (.literal d) with previous := some d } cs
    else readFrom style fuel { r.push (.literal c) with previous := some c } cs

end Glob

/-- A pattern with the style in which it is matched. -/
structure Glob where
  style : GlobStyle
  parts : List GlobPart

def Glob.parse (style : GlobStyle) (text : String) : Except GlobFault Glob :=
  match Glob.readFrom style (text.length + 1) Glob.Reading.start text.toList with
  | .ok parts => .ok ⟨style, parts⟩
  | .error e => .error e

end CommentBlocks
