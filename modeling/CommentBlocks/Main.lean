import CommentBlocks.CommandLine.Program

/-!
The command line. Standard input names the entries of the tree that the program works on, one path a
line, as `find` prints them; they are read before the program runs, and what it has changed is
written afterwards.
-/

open CommentBlocks

namespace CommentBlocks.CommandLine

/-- The lines of standard input, without their breaks. -/
partial def inputLines (input : IO.FS.Stream) (lines : List String) : IO (List String) := do
  let line ← input.getLine
  if line.isEmpty then return lines.reverse
  inputLines input (String.ofList (Text.dropReturn (line.toList.filter (· ≠ '\n'))) :: lines)

/-- The path without links on the way, nothing if it leads nowhere. -/
def realPath? (path : String) : IO (Option Path) := do
  try
    let real ← IO.FS.realPath path
    return some ⟨toString real⟩
  catch _ => return none

def placeOf (path : Path) : Place := (RawText.pieces path).filter (· ≠ "")

/-- The place of an entry and what stands there; links lead straight to their end. -/
def entryAt? (path : Path) : IO (Option (Place × Entry)) := do
  let some name := path.fileName? | return none
  let parent := path.parent?.getD ⟨"."⟩
  let some parent ← realPath? (if parent.text = "" then "." else parent.text) | return none
  let place : Place := placeOf parent ++ [.ofText name]
  let some real ← realPath? path.text | return some (place, .link "")
  if placeOf real ≠ place then return some (place, .link real.text)
  try
    let bytes ← IO.FS.readBinFile path.text
    return some (place, .file bytes)
  catch _ => return some (place, .directory)

/-- The tree that standard input names. -/
def readTree : IO Disk := do
  let here := (← realPath? ".").getD ⟨"/"⟩
  let start := Disk.empty.plant (placeOf here) .directory
  let names ← inputLines (← IO.getStdin) []
  let disk ← names.foldlM (fun (d : Disk) name => do
    match ← entryAt? ⟨name⟩ with
    | some (place, e) => return d.plant place e
    | none => return d) start
  return { disk with here := placeOf here }

def writeTree (old new : Disk) : IO Unit := do
  for (names, e) in (old.changes new).reverse do
    let path := Disk.pathOf (names.map .ofText)
    match e with
    | .directory => IO.FS.createDirAll path.text
    | .file bytes => IO.FS.writeBinFile path.text bytes
    | .link _ => pure ()

/-- Colours are possible unless they are switched off; they can be forced where there is no
terminal. -/
def canColor : IO Bool := do
  if (← IO.getEnv "NO_COLOR").isSome then return false
  if (← IO.getEnv "FORCE_COLOR").isSome then return true
  (← IO.getStdout).isTty

end CommentBlocks.CommandLine

open CommentBlocks.CommandLine in
def main (words : List String) : IO UInt32 := do
  let disk ← if needsTree words then readTree else pure Disk.empty
  let o := program disk (← canColor) words
  writeTree disk o.disk
  IO.print o.stdout
  IO.eprint o.stderr
  return o.ending.exitCode.toUInt32
