import CommentBlocks.Render.Layout
import CommentBlocks.Render.Transform

/-!
Rendering the blocks of a file one after the other.

The new text is put together from the text between the blocks and the new contents, by position, so
that equal blocks do not get in each other's way.
-/

namespace CommentBlocks

/-- What all files of a run have in common. -/
structure Engine where
  registry : Registry Transform
  middleware : List Middleware
  settings : Value

structure Job where
  srcPath : Path
  outputPath : Path
  contents : String
  blocks : List Block
  vocabulary : Vocabulary
  processed : Processed

structure Outcome where
  updated : String
  /-- The names of the transforms that ran, in the order of the blocks. -/
  transformsRun : List String
  missing : List MissingTransform
  isChanged : Bool

/-- How far the rendering of a file has come. -/
structure Progress where
  /-- The place in the old text up to which the new text is done. -/
  cursor : Nat
  output : List Char
  transformsRun : List String
  missing : List MissingTransform
  /-- What the transforms have been shown. -/
  calls : List Context

/-- A fault, and what the transforms had been shown until then. -/
structure Halt where
  fault : Fault
  calls : List Context

namespace Engine

open Text (slice dropBytes)

def start : Progress := ⟨0, [], [], [], []⟩

/-- A fault of a transform names the transform and the block. -/
def nameFault (job : Job) (block : Block) (name : String) (fault : Fault) : Fault :=
  match fault with
  | .transformFailed .. => fault
  | other => .transformFailed name job.srcPath.text block.line other.message

/-- What a transform sees of a block, with `output` as the new text up to its content. -/
def context (e : Engine) (job : Job) (block : Block) (name : String) (output : List Char) :
    Context :=
  let content := Middleware.applyBefore e.middleware block
    (Layout.dedent block.span.indentation.toList block.content.value.toList)
  { transform := name
    content := String.ofList content
    options := block.options
    block
    srcPath := job.srcPath
    outputPath := job.outputPath
    settings := e.settings
    currentContents :=
      String.ofList (output ++ dropBytes block.content.start job.contents.toList)
    initialContents := job.contents
    processed := job.processed }

def step (e : Engine) (job : Job) (p : Progress) (block : Block) : Except Halt Progress :=
  let p := { p with
    output := p.output ++ slice job.contents.toList p.cursor block.content.start
    cursor := block.content.start }
  match block.transform with
  | none => .ok p
  | some name =>
    match e.registry.get? name with
    | none =>
      .ok { p with missing := p.missing ++ [⟨name, job.srcPath, block.line, block.index⟩] }
    | some transform =>
      let ctx := e.context job block name p.output
      let calls := p.calls ++ [ctx]
      match transform ctx with
      | .error fault => .error ⟨nameFault job block name fault, calls⟩
      | .ok rendered =>
        let p := { p with transformsRun := p.transformsRun ++ [name], calls }
        match rendered with
        | none => .ok p
        | some text =>
          let text := Middleware.applyAfter e.middleware block text.toList
          .ok { p with
            output := p.output ++ Layout.insertion job.vocabulary block text
            cursor := block.content.stop }

def run (e : Engine) (job : Job) : Except Halt (Outcome × List Context) :=
  match job.blocks.foldlM (e.step job) start with
  | .error halt => .error halt
  | .ok p =>
    let updated := String.ofList (p.output ++ dropBytes p.cursor job.contents.toList)
    .ok (⟨updated, p.transformsRun, p.missing, updated != job.contents⟩, p.calls)

end Engine

end CommentBlocks
