import CommentBlocks.Proofs.Path.Relative
import CommentBlocks.Proofs.Project.Rendering

/-!
Where the rendered files of a project go.

Below the output directory a file in the root keeps the components that it has there, and a file outside
the root keeps its name alone. So two files can meet only when both go by the same name.
-/

namespace CommentBlocks

namespace Path

/-- An absolute path that ends in the name of a file. -/
structure NamesFile (path : Path) : Prop where
  absolute : path.isAbsolute = true
  named : path.fileName? ≠ none

variable {path path' : Path} {name : String}

lemma NamesFile.congr (h : path.NamesFile) (hsame : path.same path' = true) : path'.NamesFile where
  absolute := by rw [isAbsolute_iff, ← same_iff.1 hsame, ← isAbsolute_iff, h.absolute]
  named := by
    have := h.named
    rwa [fileName?, same_iff.1 hsame] at this

end Path

namespace Project

variable {p : Project} {a b path : Path} {name : String}

def placed (p : Project) (path : Path) : List Component :=
  if p.root.components <+: path.components then path.components.drop p.root.components.length
  else (path.fileName?.map .normal).toList

variable {sources : List Source} {r : RunResult} {calls : List Context}

end Project

end CommentBlocks
