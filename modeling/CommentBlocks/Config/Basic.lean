import CommentBlocks.Config.Settings
import CommentBlocks.Tag.Vocabulary

/-!
The configuration of a project.
-/

namespace CommentBlocks

structure Config where
  openWord : String
  closeWord : String
  /-- Patterns of the files to scan. -/
  files : List String
  /-- Patterns of files and directories to leave out. -/
  exclude : List String
  /-- Do not leave out what the project's ignore file names. -/
  disableGitignore : Bool
  /-- Larger files are refused; in bytes. -/
  maxFileSize : Nat
  failOnMissingTransforms : Bool
  /-- Stop at the first file that has a fault. -/
  failFast : Bool
  /-- Where rendered files go, in place if nowhere else. -/
  outputDir : Option Path
  /-- Delimiters by extension, before the known ones. -/
  delimiters : List (String × Delimiters)
  /-- Values for the transforms. -/
  settings : List (String × Setting)

namespace Config

def defaultFiles : List String := ["**/*.md"]

def defaultMaxFileSize : Nat := 10 * 1024 * 1024

/-- The configuration of a project that has none. -/
def standard : Config where
  openWord := Vocabulary.defaultOpenWord
  closeWord := Vocabulary.defaultCloseWord
  files := defaultFiles
  exclude := []
  disableGitignore := false
  maxFileSize := defaultMaxFileSize
  failOnMissingTransforms := false
  failFast := false
  outputDir := none
  delimiters := []
  settings := []

/-- Where a configuration may stand, best place first. -/
def candidates : List String := ["docgen.toml", ".docgen.toml", ".config/docgen.toml"]

/-- The words and delimiters of the tags of a file. -/
def vocabularyFor (c : Config) (path : Path) : Vocabulary :=
  .forPath c.openWord c.closeWord c.delimiters path

def settingsValue (c : Config) : Except Fault Value := Setting.value "settings" (.table c.settings)

end Config

end CommentBlocks
