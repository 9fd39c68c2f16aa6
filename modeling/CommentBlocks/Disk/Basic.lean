import CommentBlocks.Fault
import CommentBlocks.Text.Raw

/-!
A directory tree with symbolic links, and the operations on it: following a path, reading, listing
and writing.

A place is the list of names that lead to it from the root, with no links on the way. Names, link
targets and paths are raw texts here.
-/

namespace CommentBlocks

/-- Names from the root on, outermost first. -/
abbrev Place := List RawText

instance : Coe (List String) Place := ⟨List.map RawText.ofText⟩

instance : Coe Path RawText := ⟨fun path => .ofText path.text⟩

inductive Entry where
  | file (bytes : ByteArray)
  | directory
  | link (target : RawText)

def Entry.same : Entry → Entry → Bool
  | file a, file b => a == b
  | directory, directory => true
  | link a, link b => a == b
  | _, _ => false

structure Disk where
  /-- What stands at which place. The root needs no entry. -/
  entries : List (Place × Entry)
  /-- Where relative paths start. -/
  here : Place

namespace Disk

def empty : Disk := ⟨[], []⟩

def entry? (d : Disk) (place : Place) : Option Entry :=
  if place = [] then some .directory else d.entries.lookup place

def isDirectoryAt (d : Disk) (place : Place) : Bool :=
  match d.entry? place with
  | some .directory => true
  | _ => false

/-- The path that names the entries from the root on. -/
def pathTo (names : List RawText) : RawText := ⟨RawText.slash :: (RawText.ofPieces names).bytes⟩

def pathOf (place : Place) : Path := ⟨(pathTo place).shown⟩

/-- Where a path leads: to an entry that is no link, or to a free place in a directory. -/
inductive Target where
  | entry (place : Place)
  | free (place : Place)

/-- The most links that are followed on one way. -/
def maxLinks : Nat := 40

/-- The longest name of an entry in bytes. -/
def maxName : Nat := 255

/-- The longest path in bytes. -/
def maxPath : Nat := 4095

/-- Follow names from a place. `enter` goes on from a link: it gets the place the link stands in, its
target, and the names behind it. -/
def followNames (d : Disk) (enter : Place → RawText → List RawText → Except DiskFault Target)
    (place : Place) : List RawText → Except DiskFault Target
  | [] => .ok (.entry place)
  | name :: rest =>
    if !d.isDirectoryAt place then .error .notDirectory
    else if name = "" ∨ name = "." then d.followNames enter place rest
    else if name = ".." then d.followNames enter place.dropLast rest
    else if maxName < name.bytes.length then .error .nameTooLong
    else
      match d.entry? (place ++ [name]) with
      | none => if rest = [] then .ok (.free (place ++ [name])) else .error .notFound
      | some (.link target) => enter place target rest
      | some _ => d.followNames enter (place ++ [name]) rest

/-- Follow names from a place. Links count against `links`. -/
def follow (d : Disk) : (links : Nat) → Place → List RawText → Except DiskFault Target
  | 0 => d.followNames fun _ _ _ => .error .linkLoop
  | links + 1 => d.followNames fun place target rest =>
    if target = "" then .error .notFound
    else d.follow links (if target.isAbsolute then [] else place) (target.pieces ++ rest)

def locate (d : Disk) (path : RawText) : Except DiskFault Target :=
  if path = "" then .error .notFound
  else if path.bytes.contains 0 then .error .nulInName
  else if maxPath < path.bytes.length then .error .nameTooLong
  else d.follow maxLinks (if path.isAbsolute then [] else d.here) path.pieces

/-- The place of an entry. -/
def resolve (d : Disk) (path : RawText) : Except DiskFault Place :=
  match d.locate path with
  | .error e => .error e
  | .ok (.entry place) => .ok place
  | .ok (.free _) => .error .notFound

/-- The path of an entry without links, dots and double dots. -/
def canonicalize (d : Disk) (path : RawText) : Except DiskFault Path := (d.resolve path).map pathOf

def isDirectory (d : Disk) (path : RawText) : Bool :=
  match d.resolve path with
  | .ok place => d.isDirectoryAt place
  | .error _ => false

def isFile (d : Disk) (path : RawText) : Bool :=
  match d.resolve path with
  | .ok place =>
    match d.entry? place with
    | some (.file _) => true
    | _ => false
  | .error _ => false

/-- The size that is shown for directories. -/
def directorySize : Nat := 4096

def size (d : Disk) (path : RawText) : Except DiskFault Nat :=
  match d.resolve path with
  | .error e => .error e
  | .ok place =>
    match d.entry? place with
    | some (.file bytes) => .ok bytes.size
    | _ => .ok directorySize

def readBytes (d : Disk) (path : RawText) : Except DiskFault ByteArray :=
  match d.resolve path with
  | .error e => .error e
  | .ok place =>
    match d.entry? place with
    | some (.file bytes) => .ok bytes
    | _ => .error .isDirectory

def read (d : Disk) (path : RawText) : Except DiskFault String :=
  match d.readBytes path with
  | .error e => .error e
  | .ok bytes =>
    match String.fromUTF8? bytes with
    | some text => .ok text
    | none => .error .notUtf8

def insertName (name : RawText) : List RawText → List RawText
  | [] => [name]
  | n :: ns => if name < n then name :: n :: ns else if name = n then n :: ns
    else n :: insertName name ns

def namesAt (d : Disk) (place : Place) : List RawText :=
  d.entries.foldl (fun names (p, _) =>
    match p.getLast? with
    | some name => if p.dropLast = place then insertName name names else names
    | none => names) []

def list (d : Disk) (path : RawText) : Except DiskFault (List RawText) :=
  match d.resolve path with
  | .error e => .error e
  | .ok place => if d.isDirectoryAt place then .ok (d.namesAt place) else .error .notDirectory

def set (d : Disk) (place : Place) (e : Entry) : Disk :=
  { d with entries := (place, e) :: d.entries.filter (·.1 ≠ place) }

/-- Write a file, following links; a dangling link makes the file it leads to. -/
def write (d : Disk) (path : RawText) (text : String) : Except DiskFault Disk :=
  match d.locate path with
  | .error e => .error e
  | .ok (.free place) => .ok (d.set place (.file text.toUTF8))
  | .ok (.entry place) =>
    match d.entry? place with
    | some (.file _) => .ok (d.set place (.file text.toUTF8))
    | _ => .error .isDirectory

/-- Make one directory. A link at the end of the path is not followed. -/
def makeDirectory (d : Disk) (path : Path) : Except DiskFault Disk :=
  match path.fileName?, path.parent? with
  | some name, some parent =>
    match if parent.text = "" then .ok d.here else d.resolve parent with
    | .error e => .error e
    | .ok place =>
      if !d.isDirectoryAt place then .error .notDirectory
      else if maxName < name.utf8ByteSize then .error .nameTooLong
      else if (d.entry? (place ++ [↑name])).isSome then .error .alreadyExists
      else .ok (d.set (place ++ [↑name]) .directory)
  | _, _ =>
    match d.resolve path with
    | .error e => .error e
    | .ok _ => .error .alreadyExists

/-- Make a directory and those it stands in, where they are missing; `depth` bounds how many. -/
def makeDirectories (d : Disk) : (depth : Nat) → Path → Except DiskFault Disk
  | 0, _ => .error .notFound
  | depth + 1, path =>
    if path.text = "" then .ok d
    else
      let settle (d : Disk) (e : DiskFault) : Except DiskFault Disk :=
        if d.isDirectory path then .ok d else .error e
      match d.makeDirectory path with
      | .ok d => .ok d
      | .error .notFound =>
        match path.parent? with
        | none => .error .notFound
        | some parent =>
          match d.makeDirectories depth parent with
          | .error e => .error e
          | .ok d =>
            match d.makeDirectory path with
            | .ok d => .ok d
            | .error e => settle d e
      | .error e => settle d e

/-- Write a file and make the directories that it needs. -/
def writeInto (d : Disk) (path : Path) (text : String) : Except DiskFault Disk :=
  match path.parent? with
  | none => d.write path text
  | some parent =>
    match d.makeDirectories (parent.components.length + 1) parent with
    | .error e => .error e
    | .ok d => d.write path text

/-- The entries that are new or differ, where the names that lead to them are texts. -/
def changes (old new : Disk) : List (List String × Entry) :=
  new.entries.filterMap fun (place, e) =>
    if (old.entry? place).all fun before => !before.same e then
      (place.mapM RawText.text?).map fun names => (names, e)
    else none

/-- Put an entry at a place, with the directories that lead there. -/
def plant (d : Disk) (place : Place) (e : Entry) : Disk :=
  let parents := (List.range (place.length - 1)).map fun i => place.take (i + 1)
  let d := parents.foldl (fun d p => if (d.entry? p).isSome then d else d.set p .directory) d
  if place = [] then d else d.set place e

end Disk

end CommentBlocks
