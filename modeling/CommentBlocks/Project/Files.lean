import CommentBlocks.Config.Decode
import CommentBlocks.Disk.Basic
import CommentBlocks.Project.Basic

/-!
A project on disk: its configuration, its sources, and the rendered files.
-/

namespace CommentBlocks

namespace Config

/-- The file that holds the configuration of the project at `root`. -/
def locate? (d : Disk) (root : Path) : Option Path :=
  (candidates.map fun c => root.join ⟨c⟩).find? fun path => d.isFile path

def load? (d : Disk) (root : Path) : Except Fault (Option Config) :=
  match locate? d root with
  | none => .ok none
  | some file =>
    match d.read file with
    | .error e => .error (.io e)
    | .ok text => (parse text).map some

/-- The configuration of the project at `root`, or the standard one. -/
def load (d : Disk) (root : Path) : Except Fault Config :=
  (load? d root).map fun c => c.getD standard

end Config

namespace Source

/-- Read a file, unless it has more than `limit` bytes. -/
def load (d : Disk) (limit : Nat) (path : Path) : Except Fault Source :=
  match d.size path with
  | .error e => .error (.io e)
  | .ok size =>
    if limit < size then .error (.fileTooLarge path.text size limit)
    else
      match d.read path with
      | .error e => .error (.io e)
      | .ok text => .ok ⟨path, text⟩

def loadAll (d : Disk) (limit : Nat) (paths : List Path) : Except Fault (List Source) :=
  paths.mapM (load d limit)

end Source

/-- Write files to where they go, up to the first fault. Gives the disk as it is then, and how many
files were written. -/
def FileResult.writeAll (d : Disk) (written : Nat) : List FileResult → Disk × Except Fault Nat
  | [] => (d, .ok written)
  | f :: fs =>
    match d.writeInto f.outputPath f.updated with
    | .error e => (d, .error (.io e))
    | .ok d => FileResult.writeAll d (written + 1) fs

def RunResult.write (d : Disk) (r : RunResult) : Disk × Except Fault Nat :=
  FileResult.writeAll d 0 r.changed

end CommentBlocks
