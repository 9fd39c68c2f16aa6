import CommentBlocks.Disk.Basic
import CommentBlocks.Render.Transform
import CommentBlocks.Text.Lines
import CommentBlocks.Value.Numeral
import CommentBlocks.Value.Printer

/-!
The built-in transform: a block gets the text of another file, or some of its lines.
-/

namespace CommentBlocks

/-- Lines from a first one on, counted from one, up to a last one or to the end. -/
structure LineRange where
  first : Nat
  last : Option Nat
deriving DecidableEq, Repr

namespace LineRange

open Text (trim)

def maxLine : Nat := Nat.pow 2 64 - 1

/-- A line number: digits that may follow a plus sign. -/
def number? (cs : List Char) : Option Nat :=
  let digits := match cs with
    | '+' :: rest => rest
    | cs => cs
  if digits.isEmpty || !digits.all Numeral.isDigit then none
  else
    let n := Numeral.ofDigits digits
    if n ≤ maxLine then some n else none

/-- A range starts at line one or later and does not end before it starts. -/
def isValid (r : LineRange) : Bool :=
  r.first != 0 && r.last.all (r.first ≤ ·)

/-- One line number, two with a hyphen in between, or one with a hyphen after it. -/
def ofText? (text : List Char) : Option LineRange :=
  let cs := trim text
  match Text.splitOnce? '-' cs with
  | some (first, last) =>
    let last := trim last
    if last.isEmpty then (number? (trim first)).map fun f => ⟨f, none⟩
    else
      match number? last, number? (trim first) with
      | some l, some f => some ⟨f, some l⟩
      | _, _ => none
  | none => (number? cs).map fun n => ⟨n, some n⟩

def ofValue? (v : Value) : Option LineRange :=
  let range : Option LineRange := match v with
    | .int i => if 0 ≤ i ∧ i ≤ maxLine then some ⟨i.toNat, some i.toNat⟩ else none
    | .string s => ofText? s.toList
    | _ => none
  range.filter isValid

def select (r : LineRange) (lines : List (List Char)) : List (List Char) :=
  let rest := lines.drop (r.first - 1)
  match r.last with
  | none => rest
  | some last => rest.take (last - r.first + 1)

end LineRange

namespace Inline

def name : String := "FILE"

def invalid (ctx : Context) (reason : String) : Fault :=
  .invalidArguments ctx.srcPath.text ctx.block.line reason

/-- The file that a block refers to, seen from the directory of the file it stands in. -/
def source (ctx : Context) (src : String) : Path :=
  ((ctx.srcPath.parent?.getD ctx.srcPath).join ⟨src⟩).normalize

/-- The text of a file: the final one if the file was rendered earlier, else the one on disk. -/
def contents (disk : Disk) (ctx : Context) (path : Path) : Except Fault String :=
  match ctx.processed.get? path with
  | some text => .ok text
  | none =>
    match disk.read path with
    | .ok text => .ok text
    | .error cause => .error (.io cause)

/-- Give the text of the file that the block refers to, or those lines of it that it asks for. -/
def transform (disk : Disk) : Transform := fun ctx =>
  match ctx.block.src? with
  | none => .error (invalid ctx "the \x60src\x60 option is required")
  | some src =>
    match contents disk ctx (source ctx src) with
    | .error fault => .error fault
    | .ok text =>
      match Fields.get? "lines" ctx.options with
      | none => .ok (some text)
      | some v =>
        match LineRange.ofValue? v with
        | none => .error (invalid ctx ("invalid \x60lines\x60 range: " ++ v.compact))
        | some range =>
          let lines := range.select (Text.lines text.toList)
          .ok (some (String.ofList (Text.joinWith ['\n'] lines)))

end Inline

def builtinRegistry (disk : Disk) : Registry Transform :=
  Registry.empty.register Inline.name (Inline.transform disk)

end CommentBlocks
