import CommentBlocks.Config.Basic
import CommentBlocks.Disk.Basic
import CommentBlocks.Glob.Ignore
import CommentBlocks.Text.Lines

/-!
Finding the files of a project: a walk over the directories below its root, which follows links and
leaves out hidden, generated and ignored directories.

The walk goes by names from the top of the tree on. There may be links among them, as the walk stays on
the way that it came.
-/

namespace CommentBlocks

namespace Discovery

structure Choice where
  /-- Patterns of the files, seen from the root. -/
  files : List String
  /-- Lines that are added to the project's ignore file. -/
  exclude : List String
  /-- Leave the project's ignore file out of account. -/
  disableGitignore : Bool

namespace Choice

def standard : Choice := ⟨Config.defaultFiles, [], false⟩

def ofConfig (c : Config) : Choice := ⟨c.files, c.exclude, c.disableGitignore⟩

end Choice

/-- Which entries a walk goes for. Paths are seen from the root. -/
structure Filter where
  wanted : (path : RawText) → Bool
  ignored : (path : RawText) → (isDirectory : Bool) → Bool

/-- Stars reach over slashes in the patterns of files. -/
def globStyle : GlobStyle := ⟨false, false⟩

def invalidPattern (pattern : String) (e : GlobFault) : Fault := .invalidPattern pattern e.message

def globs : List String → Except Fault (List Glob)
  | [] => .ok []
  | pattern :: rest =>
    match Glob.parse globStyle pattern with
    | .error e => .error (invalidPattern pattern e)
    | .ok g =>
      match globs rest with
      | .error e => .error e
      | .ok gs => .ok (g :: gs)

/-- Read ignore lines, none of which may have a fault. -/
def rules : List String → Except Fault (List IgnoreRule)
  | [] => .ok []
  | line :: rest =>
    match IgnoreRule.parse? line with
    | .error e => .error (invalidPattern line e)
    | .ok rule =>
      match rules rest with
      | .error e => .error e
      | .ok rs => .ok (rule.toList ++ rs)

/-- The lines of an ignore file up to the first one that is no text. A byte order mark in front does
not count. -/
def ignoreLines (bytes : ByteArray) : List String :=
  let lineFeed : UInt8 := 10
  let texts := (Text.splitAt lineFeed bytes.toList).map fun line => (RawText.mk line).text?.map String.toList
  let ended := texts.dropLast.map fun t => t.map Text.dropReturn
  let last := texts.getLast?.filter fun t => t != some []
  match ((ended ++ last.toList).takeWhile Option.isSome).filterMap id with
  | [] => []
  | l :: ls => (l.dropWhile (· == '\ufeff') :: ls).map String.ofList

/-- The rules of an ignore file; lines with faults do not count. -/
def rulesOfFile (bytes : ByteArray) : List IgnoreRule :=
  (ignoreLines bytes).filterMap fun line => (IgnoreRule.parse? line).toOption.join

def ignoreFile : RawText := ".gitignore"

def projectRules (d : Disk) (root : Place) : List IgnoreRule :=
  let file := Disk.pathTo (root ++ [ignoreFile])
  if d.isFile file then ((d.readBytes file).toOption.map rulesOfFile).getD [] else []

def filter (d : Disk) (root : Place) (choice : Choice) : Except Fault Filter :=
  match globs choice.files with
  | .error e => .error e
  | .ok gs =>
    match rules choice.exclude with
    | .error e => .error e
    | .ok more =>
      let own := if choice.disableGitignore then [] else projectRules d root
      .ok
        { wanted := fun path => gs.any (·.isMatch path.bytes)
          ignored := fun path isDirectory =>
            IgnoreRule.ignores (own ++ more) path.bytes isDirectory }

/-- Hidden directories and those for generated files are never entered. -/
def isSkippedName (name : String) : Bool :=
  name.toList.head? == some '.' || name == "node_modules" || name == "target"

structure Found where
  files : List (List RawText)
  /-- The directories that were entered, without the links that led there. -/
  visited : List Place

/-- The path to the names as it is seen from the root. -/
def seenFrom (root : Place) (names : List RawText) : RawText :=
  .ofPieces ((root.isPrefixOf? names).getD names)

/-- Look at one entry of the directory `dir`; `enter` walks through a directory. A name that is no text
does not make a directory hidden. -/
def visit (d : Disk) (f : Filter) (root : Place) (dir : List RawText)
    (enter : List RawText → Found → Except Fault Found) (found : Found) (name : RawText) :
    Except Fault Found :=
  let names := dir ++ [name]
  let isDirectory := d.isDirectory (Disk.pathTo names)
  let below := seenFrom root names
  if isDirectory && name.text?.any isSkippedName then .ok found
  else if f.ignored below isDirectory then .ok found
  else if isDirectory then enter names found
  else if f.wanted below then .ok { found with files := found.files ++ [names] }
  else .ok found

/-- Walk through the directory `dir`. Every directory may be entered once, so `fuel` above the number
of directories is enough. -/
def walk (d : Disk) (f : Filter) (root : Place) :
    (fuel : Nat) → List RawText → Found → Except Fault Found
  | 0, _, found => .ok found
  | fuel + 1, dir, found =>
    match d.resolve (Disk.pathTo dir) with
    | .error e => .error (.io e)
    | .ok place =>
      if found.visited.contains place then .error (.symlinkCycle (Disk.pathOf dir).text)
      else
        match d.list (Disk.pathTo dir) with
        | .error e => .error (.io e)
        | .ok names =>
          names.foldlM (visit d f root dir (walk d f root fuel))
            { found with visited := place :: found.visited }

def dropRepeated : List (List RawText) → List (List RawText)
  | [] => []
  | [p] => [p]
  | p :: q :: ps => if p = q then dropRepeated (p :: ps) else p :: dropRepeated (q :: ps)

/-- The files below `root` that are wanted and not ignored, in ascending order, by their names. -/
def find (d : Disk) (root : Path) (choice : Choice) : Except Fault (List (List RawText)) :=
  match d.resolve root with
  | .error e => .error (.io e)
  | .ok root =>
    match filter d root choice with
    | .error e => .error e
    | .ok f =>
      match walk d f root (d.entries.length + 2) root ⟨[], []⟩ with
      | .error e => .error e
      | .ok found => .ok (dropRepeated (found.files.mergeSort fun a b => !decide (b < a)))

/-- The paths of the files below `root` that are wanted and not ignored, in ascending order. -/
def collect (d : Disk) (root : Path) (choice : Choice) : Except Fault (List Path) :=
  (find d root choice).map (List.map Disk.pathOf)

end Discovery

end CommentBlocks
