import CommentBlocks.Path.Basic

/-!
What can go wrong, with the wording of each message, its diagnostic code and its advice.
-/

namespace CommentBlocks

inductive DiskFault where
  | notFound
  | accessDenied
  | alreadyExists
  | notDirectory
  | isDirectory
  | linkLoop
  | nameTooLong
  | notUtf8
  | nulInName
deriving DecidableEq, Repr

def DiskFault.message : DiskFault → String
  | notFound => "No such file or directory (os error 2)"
  | accessDenied => "Permission denied (os error 13)"
  | alreadyExists => "File exists (os error 17)"
  | notDirectory => "Not a directory (os error 20)"
  | isDirectory => "Is a directory (os error 21)"
  | linkLoop => "Too many levels of symbolic links (os error 40)"
  | nameTooLong => "File name too long (os error 36)"
  | nulInName => "file name contained an unexpected NUL byte"
  | notUtf8 => "stream did not contain valid UTF-8"

inductive Fault where
  | io (cause : DiskFault)
  | unclosedBlock (file : String) (line : Nat) (tag : String)
  | invalidArguments (file : String) (line : Nat) (reason : String)
  | argumentSyntax (reason : String)
  | dependencyCycle (files : List String)
  | missingTransforms (count : Nat) (details : String)
  | transformFailed (transform file : String) (line : Nat) (reason : String)
  | configParse (reason : String)
  | invalidPattern (pattern reason : String)
  | fileTooLarge (path : String) (size limit : Nat)
  | symlinkCycle (path : String)
  | unconvertibleFloat (path value : String)
deriving DecidableEq, Repr

namespace Fault

/-- Names the file of a fault that was found before the file was known. -/
def unknownFile : String := "<input>"

def message : Fault → String
  | io cause => cause.message
  | unclosedBlock file line tag =>
    "missing closing tag for block opened at " ++ file ++ ":" ++ toString line ++ ": \x60" ++ tag ++
      "\x60"
  | invalidArguments file line reason =>
    "invalid block arguments at " ++ file ++ ":" ++ toString line ++ ": " ++ reason
  | argumentSyntax reason => "invalid argument literal: " ++ reason
  | dependencyCycle files =>
    "dependency cycle detected between files: " ++ String.intercalate " -> " files
  | missingTransforms count details =>
    toString count ++ " block(s) reference transforms that are not registered:\n" ++ details
  | transformFailed transform file line reason =>
    "transform \x60" ++ transform ++ "\x60 failed at " ++ file ++ ":" ++ toString line ++ ": " ++
      reason
  | configParse reason => "failed to parse config file: " ++ reason
  | invalidPattern pattern reason => "invalid pattern \x60" ++ pattern ++ "\x60: " ++ reason
  | fileTooLarge path size limit =>
    "file too large: \x60" ++ path ++ "\x60 is " ++ toString size ++ " bytes (limit: " ++
      toString limit ++ " bytes)"
  | symlinkCycle path => "symlink cycle detected at: \x60" ++ path ++ "\x60"
  | unconvertibleFloat path value =>
    "unconvertible float value in \x60" ++ path ++ "\x60: " ++ value

def code : Fault → String
  | io _ => "docgen::io_error"
  | unclosedBlock .. => "docgen::unclosed_block"
  | invalidArguments .. => "docgen::invalid_arguments"
  | argumentSyntax _ => "docgen::argument_syntax"
  | dependencyCycle _ => "docgen::dependency_cycle"
  | missingTransforms .. => "docgen::missing_transforms"
  | transformFailed .. => "docgen::transform_failed"
  | configParse _ => "docgen::config_parse"
  | invalidPattern .. => "docgen::invalid_pattern"
  | fileTooLarge .. => "docgen::file_too_large"
  | symlinkCycle _ => "docgen::symlink_cycle"
  | unconvertibleFloat .. => "docgen::unconvertible_float"

def help? : Fault → Option String
  | io _ => none
  | unclosedBlock .. => some "add the matching close tag after the block content"
  | invalidArguments .. =>
    some "check that every quote is closed and every \x60\x7b\x60, \x60[\x60 and \x60(\x60 is balanced"
  | argumentSyntax _ => none
  | dependencyCycle _ =>
    some "remove one of the \x60src\x60 references so the files no longer depend on each other"
  | missingTransforms .. =>
    some "register the transforms or disable \x60fail_on_missing_transforms\x60"
  | transformFailed .. => none
  | configParse _ => some "check that docgen.toml is valid TOML"
  | invalidPattern .. => none
  | fileTooLarge .. => some "increase \x60max_file_size\x60 in docgen.toml or exclude this file"
  | symlinkCycle _ => some "remove the circular symlink or exclude this path"
  | unconvertibleFloat .. => some "NaN and Infinity are not valid JSON numbers"

/-- Name the file of a fault in a block or its arguments; other faults stay as they are. -/
def inFile (path : Path) : Fault → Fault
  | unclosedBlock _ line tag => unclosedBlock path.text line tag
  | invalidArguments _ line reason => invalidArguments path.text line reason
  | fault => fault

/-- Whether the fault lies in the text of one file and leaves the other files alone. -/
def isParseError : Fault → Bool
  | unclosedBlock .. => true
  | invalidArguments .. => true
  | argumentSyntax _ => true
  | _ => false

@[simp] theorem isParseError_inFile (path : Path) (fault : Fault) :
    (fault.inFile path).isParseError = fault.isParseError := by
  cases fault <;> rfl

end Fault

end CommentBlocks
