import CommentBlocks.Block.Basic
import CommentBlocks.Fault
import CommentBlocks.Render.Registry

/-!
Transforms, which give blocks their content, and the middleware around them.
-/

namespace CommentBlocks

/-- The final texts of files that were rendered earlier in a run, the last one first. -/
abbrev Processed := List (Path × String)

def Processed.get? (processed : Processed) (path : Path) : Option String :=
  (processed.find? (·.1.same path)).map (·.2)

structure Context where
  /-- The name of the transform as the tag has it. -/
  transform : String
  /-- The content of the block without its indentation. -/
  content : String
  options : Options
  block : Block
  /-- The file that is being rendered. -/
  srcPath : Path
  /-- Where the rendered file will be written. -/
  outputPath : Path
  settings : Value
  /-- The text of the file with every earlier block rendered. -/
  currentContents : String
  initialContents : String
  processed : Processed

/-- The new content of a block, nothing where the content is to stay. -/
abbrev Transform := Context → Except Fault (Option String)

/-- Changes to the content before a transform sees it and to what the transform gives. -/
structure Middleware where
  before : Block → List Char → List Char
  after : Block → List Char → List Char

namespace Middleware

def id : Middleware := ⟨fun _ content => content, fun _ rendered => rendered⟩

/-- Puts one piece of text for another in the content, and text around what a transform gives. -/
def replacing (change : Option (List Char × List Char)) (front back : List Char) : Middleware where
  before _ content := match change with
    | some (piece, sub) => Text.replaceAll piece sub content
    | none => content
  after _ rendered := front ++ rendered ++ back

/-- All of `ms` before a transform, in their order. -/
def applyBefore (ms : List Middleware) (b : Block) (content : List Char) : List Char :=
  ms.foldl (fun content m => m.before b content) content

/-- All of `ms` after a transform, in their order. -/
def applyAfter (ms : List Middleware) (b : Block) (rendered : List Char) : List Char :=
  ms.foldl (fun rendered m => m.after b rendered) rendered

end Middleware

/-- A block that names a transform nobody has registered. -/
structure MissingTransform where
  transform : String
  file : Path
  line : Nat
  /-- The place of the block in its file. -/
  index : Nat
deriving DecidableEq, Repr

def MissingTransform.describe (m : MissingTransform) : String :=
  "\x60" ++ m.transform ++ "\x60 at " ++ m.file.text ++ ":" ++ toString m.line

end CommentBlocks
