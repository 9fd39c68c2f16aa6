import CommentBlocks.CommandLine.Invocation
import CommentBlocks.CommandLine.Report
import CommentBlocks.Project.Discovery
import CommentBlocks.Project.Files
import CommentBlocks.Render.Inline

/-!
The program: from the words of a command line and the disk to what is printed, how it ends and the
disk as it is then.
-/

namespace CommentBlocks.CommandLine

inductive Ending where
  | done
  /-- Some file is not up to date. -/
  | stale
  /-- There is no root, or no file of a given name. -/
  | denied (cause : DiskFault)
  | failed (fault : Fault)
  | noCommand
  | stopped (stop : Stop)

namespace Ending

def exitCode : Ending → UInt8
  | done => 0
  | stale => 1
  | stopped .help => 0
  | stopped .version => 0
  | _ => 2

end Ending

structure Outcome where
  ending : Ending
  stdout : String
  stderr : String
  disk : Disk

namespace Stop

def usage : String :=
  "Usage: docgen [OPTIONS] [COMMAND]\n\n" ++
  "Commands:\n" ++
  "  run [--dry-run] [FILES]...    Regenerate the content of every block\n" ++
  "  check                         Check that every block is up to date\n" ++
  "  list [--format text|json]     List every block in the project\n" ++
  "  help                          Print this message\n\n" ++
  "Options:\n" ++
  "  -p, --path <PATH>             Path to the project root directory\n" ++
  "  -v, --verbose                 Enable verbose output\n" ++
  "      --no-color                Disable colored output\n" ++
  "      --open-word <OPEN_WORD>   Override the word that opens a block\n" ++
  "      --close-word <CLOSE_WORD> Override the word that closes a block\n" ++
  "      --fail-on-missing         Fail when a block names a transform that is not registered\n" ++
  "      --output-dir <OUTPUT_DIR> Write transformed files below this directory\n" ++
  "  -h, --help                    Print help\n" ++
  "  -V, --version                 Print version\n"

def versionLine : String := "docgen 0.3.0\n"

def complaint : Stop → String
  | help => ""
  | version => ""
  | unknownArgument word => "unexpected argument '" ++ word ++ "' found"
  | unknownCommand word => "unrecognized subcommand '" ++ word ++ "'"
  | invalidValue name => "invalid or missing value for '" ++ name ++ "'"
  | repeatedOption name => "the argument '--" ++ name ++ "' cannot be used multiple times"
  | unwantedValue name => "unexpected value for '--" ++ name ++ "' found"

def outcome (d : Disk) (stop : Stop) : Outcome :=
  match stop with
  | help => ⟨.stopped stop, usage, "", d⟩
  | version => ⟨.stopped stop, versionLine, "", d⟩
  | stop => ⟨.stopped stop, "", "error: " ++ stop.complaint ++ "\n\n" ++ usage, d⟩

end Stop

def faultReport (fault : Fault) : String :=
  let help := match fault.help? with
    | some text => "  help: " ++ text ++ "\n"
    | none => ""
  fault.code ++ "\n\n  x " ++ fault.message ++ "\n" ++ help

namespace Outcome

def after (o : Outcome) (stdout stderr : String) : Outcome :=
  { o with stdout := stdout ++ o.stdout, stderr := stderr ++ o.stderr }

def failed (d : Disk) (fault : Fault) : Outcome := ⟨.failed fault, "", faultReport fault, d⟩

def denied (colored : Bool) (d : Disk) (cause : DiskFault) : Outcome :=
  ⟨.denied cause, "", Report.problem colored cause.message, d⟩

def done (d : Disk) (stdout : String) : Outcome := ⟨.done, stdout, "", d⟩

end Outcome

namespace Invocation

/-- The configuration with what the command line overrides. -/
def configure (i : Invocation) (c : Config) : Config :=
  { c with
    openWord := i.openWord.getD c.openWord
    closeWord := i.closeWord.getD c.closeWord
    failOnMissingTransforms := i.failOnMissing || c.failOnMissingTransforms
    outputDir := i.outputDir.or c.outputDir }

/-- The root of the project: the given one or the place where the program runs. -/
def root (i : Invocation) (d : Disk) : Except DiskFault Path :=
  d.canonicalize (i.path.getD (Disk.pathOf d.here))

/-- Load the project and give it to `use`, with the sources. The sources are the given files, or
those that are found. -/
def withProject (i : Invocation) (colored : Bool) (d : Disk) (files : List Path)
    (use : Project → List Source → Outcome) : Outcome :=
  match i.root d with
  | .error cause => .denied colored d cause
  | .ok root =>
    match Config.load d root with
    | .error fault => .failed d fault
    | .ok c =>
      let c := i.configure c
      let load (paths : List Path) : Outcome :=
        match Source.loadAll d c.maxFileSize paths with
        | .error fault => .failed d fault
        | .ok sources =>
          let heading := if i.verbose then Report.scanning sources.length root else ""
          (use ⟨root, c, builtinRegistry d, []⟩ sources).after heading ""
      if files.isEmpty then
        match Discovery.collect d root (.ofConfig c) with
        | .error fault => .failed d fault
        | .ok paths => load paths
      else
        match files.mapM fun f => d.canonicalize (root.join f) with
        | .error cause => .denied colored d cause
        | .ok paths => load paths

/-- Render the project and give the result to `use`, which prints after the problems. -/
def withResult (i : Invocation) (colored : Bool) (d : Disk) (files : List Path)
    (use : (root : Path) → RunResult → Outcome) : Outcome :=
  i.withProject colored d files fun p sources =>
    match p.run sources with
    | .error halt => .failed d halt.fault
    | .ok (r, _) => (use p.root r).after "" (Report.problems colored p.root r)

def run (i : Invocation) (colored : Bool) (d : Disk) (dryRun : Bool) (files : List Path) :
    Outcome :=
  i.withResult colored d files fun root r =>
    if r.status = .nothingToDo then .done d Report.noBlocks
    else if r.changed.isEmpty then .done d "All blocks are already up to date.\n"
    else
      let name (f : FileResult) : String := Report.entry (shown root f.outputPath)
      if dryRun then
        .done d ("Dry run: would update " ++ toString r.changed.length ++ " file(s):\n" ++
          String.join (r.changed.map fun f => name f ++ Report.diff colored f.initial f.updated))
      else
        match r.write d with
        | (d, .error fault) => .failed d fault
        | (d, .ok written) =>
          .done d (String.join (r.changed.map name) ++ Report.updated colored written)

def check (i : Invocation) (colored : Bool) (d : Disk) : Outcome :=
  i.withResult colored d [] fun root r =>
    if r.status = .nothingToDo then .done d Report.noBlocks
    else if r.changed.isEmpty && r.status = .complete then .done d "All blocks are up to date.\n"
    else
      let diffs := if i.verbose
        then String.join (r.changed.map fun f => Report.diff colored f.initial f.updated)
        else ""
      ⟨.stale, diffs, String.join (r.changed.map (Report.stale colored root)) ++
        Report.checkFailed colored r, d⟩

def list (i : Invocation) (colored : Bool) (d : Disk) (format : Format) : Outcome :=
  i.withProject colored d [] fun p sources =>
    match p.scan sources with
    | .error fault => .failed d fault
    | .ok o =>
      let files := Report.listing p.root p.registry o.items
      let text := match format with
        | .json => Report.listingValue files
        | .text => Report.listingText colored files
      (Outcome.done d text).after "" (String.join (o.errors.map fun e =>
        Report.problem colored e.message))

def execute (i : Invocation) (colored : Bool) (d : Disk) : Outcome :=
  match i.command with
  | some (.run dryRun files) => i.run colored d dryRun files
  | some .check => i.check colored d
  | some (.list format) => i.list colored d format
  | none =>
    ⟨.noCommand, "", "No subcommand specified. Run \x60docgen --help\x60 for usage.\n", d⟩

end Invocation

def needsTree (words : List String) : Bool :=
  match Invocation.parse words with
  | .error _ => false
  | .ok i => i.command.isSome

/-- Run the program on a disk. Colours have to be possible and not refused by the command line. -/
def program (d : Disk) (canColor : Bool) (words : List String) : Outcome :=
  match Invocation.parse words with
  | .error stop => stop.outcome d
  | .ok i => i.execute (canColor && !i.noColor) d

end CommentBlocks.CommandLine
