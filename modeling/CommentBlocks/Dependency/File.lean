import CommentBlocks.Block.Basic
import CommentBlocks.Dependency.Order
import CommentBlocks.Fault

/-!
Files with their blocks and the files that these refer to.
-/

namespace CommentBlocks

structure FileItem where
  id : Path
  blocks : List Block
  /-- The files that blocks refer to, in the order of the blocks and each once. -/
  dependencies : List Path
deriving DecidableEq, Repr

namespace Dependency

/-- The file that a reference in a file at `base` stands for; an address with a scheme is none. -/
def target? (base : Path) (src : String) : Option Path :=
  if Text.hasPiece [':', '/', '/'] src.toList then none else some (base.join ⟨src⟩).normalize

/-- Add a file that `id` refers to, unless it is `id` itself or already there. -/
def add (id : Path) (found : List Path) (file : Path) : List Path :=
  if file.same id || found.any (·.same file) then found else found ++ [file]

def ofBlocks (id : Path) (blocks : List Block) : List Path :=
  let base := id.parent?.getD ⟨""⟩
  ((blocks.filterMap Block.src?).filterMap (target? base)).foldl (add id) []

end Dependency

namespace FileItem

def ofBlocks (id : Path) (blocks : List Block) : FileItem :=
  ⟨id, blocks, Dependency.ofBlocks id blocks⟩

def retainKnown (known : List Path) (item : FileItem) : FileItem :=
  { item with dependencies := item.dependencies.filter fun d => known.any (·.same d) }

def edges (items : List FileItem) : List Edge :=
  let known := items.map FileItem.id
  items.flatMap fun item =>
    (item.dependencies.filter fun d => known.any (·.same d)).map fun d => (item.id, d)

end FileItem

namespace Dependency

/-- The order of files, a cycle being a fault. -/
def executionOrder (nodes : List Path) (edges : List Edge) : Except Fault (List Path) :=
  match order nodes edges with
  | .ok files => .ok files
  | .error files => .error (.dependencyCycle (files.map Path.text))

def sort (edges : List Edge) : Except Fault (List Path) := executionOrder [] edges

end Dependency

end CommentBlocks
