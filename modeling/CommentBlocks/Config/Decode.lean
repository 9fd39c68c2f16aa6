import CommentBlocks.Config.Basic
import CommentBlocks.Fault
import CommentBlocks.Toml.Document
import CommentBlocks.Value.Numeral

/-!
Reading a configuration from a TOML document. Unknown keys do not count, and fields that are left
out have their standard values.
-/

namespace CommentBlocks

namespace Config

/-- The key under which a date shows as a table. -/
def datetimeKey : String := "$__toml_private_datetime"

def string? : Toml → Option String
  | .string s => some s
  | _ => none

def bool? : Toml → Option Bool
  | .boolean b => some b
  | _ => none

/-- A size in bytes, of 64 bits. -/
def size? : Toml → Option Nat
  | .integer i => if 0 ≤ i ∧ i < (Nat.pow 2 64 : Int) then some i.toNat else none
  | _ => none

def strings? : Toml → Option (List String)
  | .array _ items => items.mapM string?
  | _ => none

/-- The fields of a table; a date counts as a table with one field. -/
def fields? : Toml → Option Toml.Fields
  | .table _ fields => some fields
  | .datetime text => some [(datetimeKey, .string text)]
  | _ => none

/-- Fields other than the known ones do not count, but it must be possible to read them. -/
def othersReadable (known : List String) (fields : Toml.Fields) : Bool :=
  fields.all fun (k, v) => known.contains k || v.isReadable

def datetime? (t : Toml) : Option Setting :=
  ((string? t).bind fun s => Toml.datetime? s.toList).map fun text => .datetime (String.ofList text)

/-- Read a field, or take the standard value where it is left out. -/
def field? {α : Type} (fields : Toml.Fields) (key : String) (standard : α)
    (read : Toml → Option α) : Option α :=
  match Toml.get? key fields with
  | none => some standard
  | some v => read v

/-- The patterns to leave out, from a table or from an array with the patterns in front; what follows
there is not read. -/
def exclude? : Toml → Option (List String)
  | .array _ [] => some []
  | .array _ (patterns :: _) => strings? patterns
  | t =>
    ((fields? t).filter (othersReadable ["patterns"])).bind fun fs =>
      field? fs "patterns" [] strings?

/-- Delimiters, from a table or from the front of an array. The closing one may be left out. -/
def delimiters? : Toml → Option Delimiters
  | .array _ [] => none
  | .array _ [opening] => (string? opening).map fun o => ⟨o, ""⟩
  | .array _ (opening :: closing :: _) =>
    match string? opening, string? closing with
    | some o, some c => some ⟨o, c⟩
    | _, _ => none
  | t =>
    ((fields? t).filter (othersReadable ["open", "close"])).bind fun fs =>
      match (Toml.get? "open" fs).bind string?, field? fs "close" "" string? with
      | some o, some c => some ⟨o, c⟩
      | _, _ => none

def delimitersByExtension? (t : Toml) : Option (List (String × Delimiters)) :=
  (fields? t).bind fun fs => fs.mapM fun (k, v) => (delimiters? v).map fun d => (k, d)

mutual

/-- A value as a setting. Integers have 64 bits. A table whose first key is the one of dates is a date,
and its other fields are not read. -/
def setting? : Toml → Option Setting
  | .string s => some (.string s)
  | .integer i => if Numeral.inRange i then some (.integer i) else none
  | .float x => some (.float x)
  | .unreadable => none
  | .boolean b => some (.boolean b)
  | .datetime text => some (.datetime text)
  | .array _ items => (settingItems? items).map .array
  | .table _ fields =>
    match fields.head? with
    | some (key, v) => if key = datetimeKey then datetime? v else (settings? fields).map .table
    | none => some (.table [])

def settingItems? : List Toml → Option (List Setting)
  | [] => some []
  | t :: ts =>
    match setting? t, settingItems? ts with
    | some s, some ss => some (s :: ss)
    | _, _ => none

def settings? : List (String × Toml) → Option (List (String × Setting))
  | [] => some []
  | (k, t) :: fs =>
    match setting? t, settings? fs with
    | some s, some ss => some ((k, s) :: ss)
    | _, _ => none

end

def keys : List String :=
  ["open_word", "close_word", "files", "exclude", "disable_gitignore", "max_file_size",
   "fail_on_missing_transforms", "fail_fast", "output_dir", "syntax", "settings"]

def ofFields? (fs : Toml.Fields) : Option Config := do
  guard (othersReadable keys fs)
  let openWord ← field? fs "open_word" standard.openWord string?
  let closeWord ← field? fs "close_word" standard.closeWord string?
  let files ← field? fs "files" standard.files strings?
  let exclude ← field? fs "exclude" standard.exclude exclude?
  let disableGitignore ← field? fs "disable_gitignore" false bool?
  let maxFileSize ← field? fs "max_file_size" standard.maxFileSize size?
  let failOnMissingTransforms ← field? fs "fail_on_missing_transforms" false bool?
  let failFast ← field? fs "fail_fast" false bool?
  let outputDir ← field? fs "output_dir" none fun t => (string? t).map fun s => some ⟨s⟩
  let delimiters ← field? fs "syntax" [] delimitersByExtension?
  let settings ← field? fs "settings" [] fun t => (fields? t).bind settings?
  return { openWord, closeWord, files, exclude, disableGitignore, maxFileSize,
           failOnMissingTransforms, failFast, outputDir, delimiters, settings }

def parse (text : String) : Except Fault Config :=
  match Toml.parse? text with
  | none => .error (.configParse "the document is not valid TOML")
  | some fs =>
    match ofFields? fs with
    | none => .error (.configParse "a field has a value of the wrong kind")
    | some c => .ok c

end Config

end CommentBlocks
