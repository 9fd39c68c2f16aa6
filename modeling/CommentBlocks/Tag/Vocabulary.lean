import CommentBlocks.Path.Basic

/-!
What tags are made of: the delimiters of a comment, which depend on the kind of file, and the words
that open and close a block.
-/

namespace CommentBlocks

/-- The marks around a comment. An empty closing mark stands for the end of the line. -/
structure Delimiters where
  opening : String
  closing : String
deriving DecidableEq, Repr

namespace Delimiters

open Text (asciiLower)

def markdown : Delimiters := ⟨"<!--", "-->"⟩

def cStyle : Delimiters := ⟨"/*", "*/"⟩

def hash : Delimiters := ⟨"#", ""⟩

def cStyleExtensions : List String :=
  ["js", "jsx", "ts", "tsx", "mjs", "cjs", "rs", "c", "h", "cpp", "hpp", "cs", "java", "kt", "go",
   "swift", "css", "scss", "less", "php"]

def hashExtensions : List String :=
  ["yml", "yaml", "toml", "sh", "bash", "zsh", "py", "rb", "pl", "r", "dockerfile", "mk"]

/-- The delimiters of files with an extension, in capitals or not; markdown comments where the
extension is not known. -/
def forExtension (extension : String) : Delimiters :=
  let ext := asciiLower extension
  if ext ∈ cStyleExtensions then cStyle
  else if ext ∈ hashExtensions then hash
  else markdown

/-- What the delimiters of a file hang on: its extension, or its name where it has none. -/
def keyOf (path : Path) : String :=
  match path.extension? with
  | some ext => asciiLower ext
  | none => (path.fileName?.map asciiLower).getD ""

/-- The delimiters of a file, where `overrides` come before the known extensions. -/
def forPath (overrides : List (String × Delimiters)) (path : Path) : Delimiters :=
  let key := keyOf path
  match overrides.lookup key with
  | some d => d
  | none => if key = "makefile" then hash else forExtension key

end Delimiters

structure Vocabulary where
  openWord : String
  closeWord : String
  commentOpen : String
  commentClose : String
deriving DecidableEq, Repr

namespace Vocabulary

def defaultOpenWord : String := "doc-gen"

def defaultCloseWord : String := "end-doc-gen"

def ofDelimiters (openWord closeWord : String) (d : Delimiters) : Vocabulary :=
  ⟨openWord, closeWord, d.opening, d.closing⟩

def standard : Vocabulary := ofDelimiters defaultOpenWord defaultCloseWord .markdown

def forPath (openWord closeWord : String) (overrides : List (String × Delimiters)) (path : Path) :
    Vocabulary :=
  ofDelimiters openWord closeWord (Delimiters.forPath overrides path)

end Vocabulary

end CommentBlocks
