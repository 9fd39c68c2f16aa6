import CommentBlocks.Block.Scan
import CommentBlocks.Config.Basic
import CommentBlocks.Dependency.File
import CommentBlocks.Render.Execute

/-!
A project: scanning its sources for blocks, ordering the files by their dependencies, and rendering
them one after the other.
-/

namespace CommentBlocks

structure Source where
  path : Path
  contents : String
deriving DecidableEq, Repr

/-- The files of a project that could be scanned, and the faults of those that could not. -/
structure ScanOutcome where
  items : List FileItem
  errors : List Fault

structure FileResult where
  path : Path
  outputPath : Path
  initial : String
  updated : String
  /-- The blocks; those without a registered transform are marked. -/
  blocks : List Block
  dependencies : List Path
  transformsRun : List String
  isChanged : Bool

inductive RunStatus where
  /-- No file has blocks. -/
  | nothingToDo
  | complete
  /-- Some file has a fault, or some transform is not registered. -/
  | incomplete
deriving DecidableEq, Repr

/-- What a run has brought about so far. Nothing is written. -/
structure RunResult where
  /-- The rendered files, in the order in which they were rendered. -/
  files : List FileResult
  errors : List Fault
  missing : List MissingTransform
  order : List Path

namespace RunResult

def status (r : RunResult) : RunStatus :=
  if !r.errors.isEmpty || !r.missing.isEmpty then .incomplete
  else if r.files.isEmpty then .nothingToDo
  else .complete

def changed (r : RunResult) : List FileResult := r.files.filter (·.isChanged)

/-- The final texts of the rendered files, the last one first. -/
def processed (r : RunResult) : Processed :=
  (r.files.map fun f => (f.path, f.updated)).reverse

end RunResult

structure Project where
  root : Path
  config : Config
  registry : Registry Transform
  middleware : List Middleware

namespace Project

/-- Where the rendered text of a file goes: in place, or below the output directory in the place that
the file has below the root. A file outside the root keeps its name only. -/
def outputPath (p : Project) (path : Path) : Path :=
  match p.config.outputDir with
  | none => path
  | some dir =>
    let place := (path.relativeTo? p.root).getD ⟨path.fileName?.getD ""⟩
    (p.root.join dir).join place

def scanNext (p : Project) (o : ScanOutcome) (s : Source) : Except Fault ScanOutcome :=
  match Block.scan (p.config.vocabularyFor s.path) s.contents with
  | .ok blocks => .ok { o with items := o.items ++ [FileItem.ofBlocks s.path blocks] }
  | .error fault =>
    if fault.isParseError && !p.config.failFast then
      .ok { o with errors := o.errors ++ [fault.inFile s.path] }
    else .error (fault.inFile s.path)

/-- Scan the sources. A source with a fault is left out, unless the first fault is to stop all.
Dependencies on files that are not among the scanned ones are left out too. -/
def scan (p : Project) (sources : List Source) : Except Fault ScanOutcome :=
  match sources.foldlM p.scanNext ⟨[], []⟩ with
  | .error fault => .error fault
  | .ok o =>
    let known := o.items.map FileItem.id
    .ok { o with items := o.items.map (FileItem.retainKnown known) }

def markMissing (blocks : List Block) (index : Nat) : List Block :=
  blocks.modify index fun b => { b with context := { b.context with isMissing := true } }

/-- The last source of a path. -/
def contents? (sources : List Source) (path : Path) : Option String :=
  (sources.reverse.find? (·.path.same path)).map Source.contents

/-- The last item of a path. -/
def item? (items : List FileItem) (path : Path) : Option FileItem :=
  items.reverse.find? (·.id.same path)

/-- Render the file at `path` after those in `r`, if it has blocks. -/
def renderNext (p : Project) (settings : Value) (sources : List Source) (items : List FileItem)
    (st : RunResult × List Context) (path : Path) : Except Halt (RunResult × List Context) :=
  let (r, calls) := st
  match item? items path, contents? sources path with
  | some item, some contents =>
    if item.blocks.isEmpty then .ok st
    else
      let engine : Engine := ⟨p.registry, p.middleware, settings⟩
      let job : Job :=
        { srcPath := path
          outputPath := p.outputPath path
          contents
          blocks := item.blocks
          vocabulary := p.config.vocabularyFor path
          processed := r.processed }
      match engine.run job with
      | .error halt => .error { halt with calls := calls ++ halt.calls }
      | .ok (o, more) =>
        let file : FileResult :=
          { path
            outputPath := job.outputPath
            initial := contents
            updated := o.updated
            blocks := (o.missing.map MissingTransform.index).foldl markMissing item.blocks
            dependencies := item.dependencies
            transformsRun := o.transformsRun
            isChanged := o.isChanged }
        .ok ({ r with
          files := r.files ++ [file]
          missing := r.missing ++ o.missing
          order := r.order ++ [path] }, calls ++ more)
  | _, _ => .ok st

def missingFault (missing : List MissingTransform) : Fault :=
  .missingTransforms missing.length
    (String.intercalate "\n" (missing.map fun m => "  - " ++ m.describe))

/-- Scan the sources, put the files in order and render them, each after those it depends on. Gives
the result and what the transforms were shown. -/
def run (p : Project) (sources : List Source) : Except Halt (RunResult × List Context) :=
  let early : Except Fault (Value × ScanOutcome × List Path) := do
    let settings ← p.config.settingsValue
    let outcome ← p.scan sources
    let order ← Dependency.executionOrder (outcome.items.map FileItem.id)
      (FileItem.edges outcome.items)
    return (settings, outcome, order)
  match early with
  | .error fault => .error ⟨fault, []⟩
  | .ok (settings, outcome, order) =>
    match order.foldlM (p.renderNext settings sources outcome.items)
        (⟨[], outcome.errors, [], []⟩, []) with
    | .error halt => .error halt
    | .ok (r, calls) =>
      if p.config.failOnMissingTransforms && !r.missing.isEmpty then
        .error ⟨missingFault r.missing, calls⟩
      else .ok (r, calls)

end Project

end CommentBlocks
