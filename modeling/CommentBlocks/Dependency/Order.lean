import CommentBlocks.Path.Basic

/-!
An order of files in which every file comes after the files it depends on.

Paths count as equal when their components agree. The order is that of a depth-first walk, so files
keep their places unless a dependency moves them.
-/

namespace CommentBlocks

/-- The first file depends on the second one. -/
abbrev Edge := Path × Path

namespace Dependency

/-- The list without what has occurred before in it. -/
def distinct : List Path → List Path
  | [] => []
  | p :: ps => p :: (distinct ps).filter (!p.same ·)

def mentioned (nodes : List Path) (edges : List Edge) : List Path :=
  distinct (nodes ++ edges.flatMap fun (a, b) => [a, b])

def successors (edges : List Edge) (node : Path) : List Path :=
  edges.filterMap fun (a, b) => if a.same node then some b else none

/-- The cycle that closes when `node` is met again below `trail`, which has the last file first. -/
def cycle (trail : List Path) (node : Path) : List Path :=
  let later := trail.takeWhile (!Path.same · node)
  let first := (trail.drop later.length).take 1
  (later ++ first).reverse ++ [node]

/-- Place `node` and all it depends on after the files that are `placed`. `trail` holds the files
whose dependencies are being placed, the last one first; a file of the trail met again closes a
cycle. The trail never holds a file twice, so `fuel` above the number of files is enough. -/
def visit (edges : List Edge) :
    (fuel : Nat) → (trail placed : List Path) → Path → Except (List Path) (List Path)
  | 0, _, placed, _ => .ok placed
  | fuel + 1, trail, placed, node =>
    if placed.any (·.same node) then .ok placed
    else if trail.any (·.same node) then .error (cycle trail node)
    else
      match (successors edges node).foldlM (visit edges fuel (node :: trail)) placed with
      | .ok placed => .ok (placed ++ [node])
      | .error c => .error c

/-- All files of `nodes` and `edges`, each after those it depends on, or the files of a cycle. -/
def order (nodes : List Path) (edges : List Edge) : Except (List Path) (List Path) :=
  let files := mentioned nodes edges
  files.foldlM (visit edges (files.length + 1) []) []

end Dependency

end CommentBlocks
