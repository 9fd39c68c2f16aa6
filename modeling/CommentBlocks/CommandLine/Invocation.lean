import CommentBlocks.Path.Basic

/-!
What a command line asks for. Options of the program may stand before the command or after it; where
both give a value, the one after the command counts.
-/

namespace CommentBlocks.CommandLine

inductive Key where
  | path
  | verbose
  | noColor
  | openWord
  | closeWord
  | failOnMissing
  | outputDir
  | dryRun
  | format
  | help
  | version
deriving DecidableEq, Repr

namespace Key

def long : Key → String
  | path => "path"
  | verbose => "verbose"
  | noColor => "no-color"
  | openWord => "open-word"
  | closeWord => "close-word"
  | failOnMissing => "fail-on-missing"
  | outputDir => "output-dir"
  | dryRun => "dry-run"
  | format => "format"
  | help => "help"
  | version => "version"

def short? : Key → Option Char
  | path => some 'p'
  | verbose => some 'v'
  | help => some 'h'
  | version => some 'V'
  | _ => none

def takesValue : Key → Bool
  | path => true
  | openWord => true
  | closeWord => true
  | outputDir => true
  | format => true
  | _ => false

end Key

inductive Format where
  | text
  | json
deriving DecidableEq, Repr

def Format.ofName? (name : String) : Option Format :=
  if name = "text" then some .text else if name = "json" then some .json else none

def Key.accepts (key : Key) (value : String) : Bool :=
  match key with
  | .path => value ≠ ""
  | .outputDir => value ≠ ""
  | .format => (Format.ofName? value).isSome
  | _ => true

/-- What the words after a point of the command line belong to. -/
inductive Level where
  | program
  | run
  | check
  | list
deriving DecidableEq, Repr

namespace Level

def ofCommand? (word : String) : Option Level :=
  if word = "run" then some run
  else if word = "check" then some check
  else if word = "list" then some list
  else none

def sharedKeys : List Key :=
  [.path, .verbose, .noColor, .openWord, .closeWord, .failOnMissing, .outputDir, .help]

def keys : Level → List Key
  | program => .version :: sharedKeys
  | run => .dryRun :: sharedKeys
  | check => sharedKeys
  | list => .format :: sharedKeys

end Level

def helpCommand : String := "help"

def isCommand (word : String) : Bool := word == helpCommand || (Level.ofCommand? word).isSome

/-- Why a command line asks for no work. -/
inductive Stop where
  | help
  | version
  | unknownArgument (word : String)
  | unknownCommand (word : String)
  /-- The value is missing or not one that the option takes. -/
  | invalidValue (name : String)
  | repeatedOption (name : String)
  | unwantedValue (name : String)
deriving DecidableEq, Repr

/-- What was read last and still has to be checked. -/
inductive Pending where
  | nothing
  | option (key : Key) (value : Option String)
  | files (names : List String)
deriving DecidableEq, Repr

/-- What was read at one level. -/
structure Reading where
  /-- The options in the order in which they were given; flags have an empty value. -/
  given : List (Key × String)
  files : List String
  pending : Pending
  /-- A double hyphen was read, so that no more options follow. -/
  isPlain : Bool
deriving DecidableEq, Repr

namespace Reading

def start : Reading := ⟨[], [], .nothing, false⟩

def give (r : Reading) (key : Key) (value : String) : Except Stop Reading :=
  if r.given.any (·.1 = key) then .error (.repeatedOption key.long)
  else if key.accepts value then
    .ok { r with given := r.given ++ [(key, value)], pending := .nothing }
  else .error (.invalidValue key.long)

def settle (r : Reading) : Except Stop Reading :=
  match r.pending with
  | .nothing => .ok r
  | .option key none => .error (.invalidValue key.long)
  | .option key (some value) => r.give key value
  | .files names =>
    if names.contains "" then .error (.invalidValue "FILES")
    else .ok { r with files := r.files ++ names, pending := .nothing }

def flag (r : Reading) (key : Key) : Except Stop Reading :=
  match r.settle with
  | .error stop => .error stop
  | .ok r =>
    match key with
    | .help => .error .help
    | .version => .error .version
    | key => r.give key ""

/-- An option with a value, which may be the next word. -/
def option (r : Reading) (key : Key) (value : Option String) : Except Stop Reading :=
  match r.settle, value with
  | .error stop, _ => .error stop
  | .ok r, some value => r.give key value
  | .ok r, none => .ok { r with pending := .option key none }

def long (level : Level) (r : Reading) (word : List Char) : Except Stop Reading :=
  let name := String.ofList (word.takeWhile (· ≠ '='))
  let value : Option String :=
    match word.dropWhile (· ≠ '=') with
    | [] => none
    | _ :: cs => some (String.ofList cs)
  match level.keys.find? (·.long = name) with
  | none => .error (.unknownArgument ("--" ++ name))
  | some key =>
    if key.takesValue then r.option key value
    else if value.isSome then .error (.unwantedValue key.long)
    else r.flag key

/-- The value that stands in one word with its option. -/
def attached? : List Char → Option String
  | [] => none
  | '=' :: cs => some (String.ofList cs)
  | cs => some (String.ofList cs)

def short (level : Level) : List Char → Reading → Except Stop Reading
  | [], r => .ok r
  | c :: cs, r =>
    match level.keys.find? (·.short? = some c) with
    | none => .error (.unknownArgument ("-" ++ String.singleton c))
    | some key =>
      if key.takesValue then r.option key (attached? cs)
      else
        match r.flag key with
        | .error stop => .error stop
        | .ok r => short level cs r

def plain (level : Level) (r : Reading) (word : String) : Except Stop Reading :=
  match level with
  | .run =>
    match r.pending with
    | .files names => .ok { r with pending := .files (names ++ [word]) }
    | _ =>
      match r.settle with
      | .error stop => .error stop
      | .ok r => .ok { r with pending := .files [word] }
  | .program =>
    if r.isPlain && isCommand word then .error (.unknownArgument word)
    else .error (.unknownCommand word)
  | _ => .error (.unknownArgument word)

def awaiting? (r : Reading) : Option Key :=
  match r.pending with
  | .option key none => if r.isPlain then none else some key
  | _ => none

def read (level : Level) (r : Reading) (word : String) : Except Stop Reading :=
  if r.isPlain then r.plain level word
  else
    match word.toList with
    | ['-', '-'] => .ok { r with isPlain := true }
    | '-' :: '-' :: cs => r.long level cs
    | '-' :: c :: cs => short level (c :: cs) r
    | _ =>
      match r.awaiting? with
      | some key => .ok { r with pending := .option key (some word) }
      | none => r.plain level word

def readAll (level : Level) (words : List String) : Except Stop Reading :=
  match words.foldlM (read level) start with
  | .error stop => .error stop
  | .ok r => r.settle

end Reading

/-- What is shown when help is asked for. There is no help on what is no command. -/
def helpOn : (words : List String) → Stop
  | [] => .help
  | [word] => if isCommand word then .help else .unknownCommand word
  | word :: next :: _ => .unknownCommand (if isCommand word then next else word)

/-- Read the words up to a command. Gives what was read, and the command with the words after it. -/
def readProgram : (words : List String) → Reading →
    Except Stop (Reading × Option (Level × List String))
  | [], r => .ok (r, none)
  | word :: words, r =>
    let mayBeCommand := !r.isPlain && r.awaiting?.isNone
    match if mayBeCommand then Level.ofCommand? word else none with
    | some level => .ok (r, some (level, words))
    | none =>
      if mayBeCommand && word == helpCommand then .error (helpOn words)
      else
        match r.read .program word with
        | .error stop => .error stop
        | .ok r => readProgram words r

inductive Command where
  | run (dryRun : Bool) (files : List Path)
  | check
  | list (format : Format)
deriving DecidableEq, Repr

structure Invocation where
  command : Option Command
  path : Option Path
  verbose : Bool
  noColor : Bool
  openWord : Option String
  closeWord : Option String
  failOnMissing : Bool
  outputDir : Option Path
deriving DecidableEq, Repr

namespace Invocation

/-- The invocation with the given options, those that count first. -/
def ofGiven (given : List (Key × String)) (command : Option Command) : Invocation :=
  let value (key : Key) : Option String := given.lookup key
  { command
    path := (value .path).map Path.mk
    verbose := (value .verbose).isSome
    noColor := (value .noColor).isSome
    openWord := value .openWord
    closeWord := value .closeWord
    failOnMissing := (value .failOnMissing).isSome
    outputDir := (value .outputDir).map Path.mk }

def commandOf (level : Level) (r : Reading) : Option Command :=
  match level with
  | .program => none
  | .run => some (.run (r.given.lookup .dryRun).isSome (r.files.map Path.mk))
  | .check => some .check
  | .list => some (.list (((r.given.lookup .format).bind Format.ofName?).getD .text))

/-- Read a command line. Faults after the command come before what is still pending before it. -/
def parse (words : List String) : Except Stop Invocation :=
  match readProgram words .start with
  | .error stop => .error stop
  | .ok (outer, none) =>
    match outer.settle with
    | .error stop => .error stop
    | .ok outer => .ok (ofGiven outer.given none)
  | .ok (outer, some (level, words)) =>
    match Reading.readAll level words, outer.settle with
    | .error stop, _ => .error stop
    | .ok _, .error stop => .error stop
    | .ok inner, .ok outer => .ok (ofGiven (inner.given ++ outer.given) (commandOf level inner))

end Invocation

end CommentBlocks.CommandLine
