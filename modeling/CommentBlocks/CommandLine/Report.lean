import CommentBlocks.CommandLine.Paint
import CommentBlocks.Diff.Slide
import CommentBlocks.Project.Basic
import CommentBlocks.Text.Lines
import CommentBlocks.Value.Printer

/-!
What the commands print. Every text is a whole number of lines.
-/

namespace CommentBlocks.CommandLine

/-- The path of a file as it is shown: seen from the root, if it lies below it. -/
def shown (root path : Path) : String := ((path.relativeTo? root).getD path).text

def endLine (line : List Char) : String :=
  match line.getLast? with
  | some '\n' => String.ofList line
  | some '\r' => String.ofList line
  | _ => String.ofList (line ++ ['\n'])

namespace Report

def edit (colored : Bool) (e : Edit (List Char)) : String :=
  let each (mark : String → String) : String := String.join (e.items.map (mark ∘ endLine))
  match e with
  | .keep _ => each fun line => "   " ++ line
  | .drop _ => each fun line => "  " ++ Paint.red.apply colored ("-" ++ line)
  | .add _ => each fun line => "  " ++ Paint.green.apply colored ("+" ++ line)

/-- All lines of two texts, those that differ with a mark. -/
def diff (colored : Bool) (old new : String) : String :=
  let edits := EditScript.between (Text.linesWithBreaks old.toList) (Text.linesWithBreaks new.toList)
  String.join (edits.map (edit colored))

/-- A line with a file that is new or would be. -/
def entry (name : String) : String := "  " ++ name ++ "\n"

def problem (colored : Bool) (message : String) : String :=
  Paint.red.apply colored "error:" ++ " " ++ message ++ "\n"

def missing (colored : Bool) (root : Path) (m : MissingTransform) : String :=
  Paint.yellow.apply colored "warning:" ++ " no transform named \x60" ++ m.transform ++ "\x60 (" ++
    shown root m.file ++ ":" ++ toString m.line ++ ")\n"

/-- The files that were left out and the transforms that are not registered. -/
def problems (colored : Bool) (root : Path) (r : RunResult) : String :=
  String.join (r.errors.map fun e => problem colored e.message) ++
    String.join (r.missing.map (missing colored root))

def stale (colored : Bool) (root : Path) (f : FileResult) : String :=
  Paint.yellow.apply colored "stale:" ++ " " ++ shown root f.path ++ " is out of date\n"

def checkFailed (colored : Bool) (r : RunResult) : String :=
  "\n" ++ Paint.red.apply colored "Check failed:" ++ " " ++ toString r.changed.length ++
    " stale file(s), " ++ toString r.missing.length ++ " missing transform(s), " ++
    toString r.errors.length ++
    " file(s) that failed to parse. Run \x60docgen run\x60 to update.\n"

def noBlocks : String := "No blocks found.\n"

def scanning (count : Nat) (root : Path) : String :=
  "Scanning " ++ toString count ++ " file(s) in " ++ root.text ++ "\n"

def updated (colored : Bool) (count : Nat) : String :=
  Paint.green.apply colored "✓" ++ " Updated " ++ toString count ++ " file(s).\n"

/-! ### Listings -/

structure ListedBlock where
  block : Block
  /-- No transform of its name is registered. -/
  isMissing : Bool

structure ListedFile where
  name : String
  dependencies : List String
  blocks : List ListedBlock

def listing (root : Path) (registry : Registry Transform) (items : List FileItem) :
    List ListedFile :=
  (items.filter fun i => !i.blocks.isEmpty).map fun i =>
    { name := shown root i.id
      dependencies := i.dependencies.map (shown root)
      blocks := i.blocks.map fun b => ⟨b, b.transform.any fun t => (registry.get? t).isNone⟩ }

def blockValue (b : ListedBlock) : Value :=
  let line (n : Nat) : Value := .int n
  .object [("transform", (b.block.transform.map Value.string).getD .null),
    ("line", line b.block.line),
    ("lines", .array [line b.block.span.firstLine, line b.block.span.lastLine]),
    ("options", .object b.block.options), ("isLegacy", .bool b.block.context.isLegacy),
    ("isMissing", .bool b.isMissing)]

def fileValue (f : ListedFile) : Value :=
  .object [("file", .string f.name), ("dependencies", .array (f.dependencies.map .string)),
    ("blocks", .array (f.blocks.map blockValue))]

/-- The listing as a value, indented. -/
def listingValue (files : List ListedFile) : String :=
  (Value.array (files.map fileValue)).pretty ++ "\n"

def padEnd (width : Nat) (text : String) : String :=
  text ++ String.ofList (List.replicate (width - text.length) ' ')

def blockLine (colored : Bool) (b : ListedBlock) : String :=
  let options := Options.print b.block.options
  "  line " ++ padEnd 4 (toString b.block.line) ++ " " ++ b.block.transform.getD "(none)" ++
    (if options = "" then "" else " " ++ options) ++
    (if b.isMissing then " " ++ Paint.yellow.apply colored "[missing]" else "") ++ "\n"

def fileLines (colored : Bool) (f : ListedFile) : String :=
  Paint.bold.apply colored f.name ++ "\n" ++ String.join (f.blocks.map (blockLine colored)) ++
    (if f.dependencies.isEmpty then ""
      else "  depends on: " ++ String.intercalate ", " f.dependencies ++ "\n")

def listingText (colored : Bool) (files : List ListedFile) : String :=
  if files.isEmpty then noBlocks
  else
    String.join (files.map (fileLines colored)) ++ "\n" ++
      toString (files.flatMap (·.blocks)).length ++ " block(s) in " ++ toString files.length ++
      " file(s)\n"

end Report

end CommentBlocks.CommandLine
