import CommentBlocks.Toml.Scalar

/-!
TOML documents, version 1.1. Functions give back the text that follows what they have read.
-/

namespace CommentBlocks

namespace Toml

def skipSpace (cs : List Char) : List Char := cs.dropWhile isSpace

def afterBreak? : List Char → Option (List Char)
  | '\n' :: cs => some cs
  | '\r' :: '\n' :: cs => some cs
  | _ => none

def skipComment? (cs : List Char) : Option (List Char) :=
  match cs with
  | '#' :: cs =>
    let rest := cs.dropWhile isTextChar
    if rest.isEmpty || (afterBreak? rest).isSome then some rest else none
  | cs => some cs

/-- Pass over the end of a line, which may hold a comment; nothing else may follow. -/
def endLine? (cs : List Char) : Option (List Char) :=
  match skipComment? (skipSpace cs) with
  | none => none
  | some [] => some []
  | some rest => afterBreak? rest

def skipLines? : (fuel : Nat) → List Char → Option (List Char)
  | 0, cs => some cs
  | fuel + 1, cs =>
    match skipComment? (skipSpace cs) with
    | none => none
    | some rest =>
      match afterBreak? rest with
      | some rest => skipLines? fuel rest
      | none => some rest

def isKeyChar (c : Char) : Bool := c.isAlphanum || c == '-' || c == '_'

def keyPart? (cs : List Char) : Option (String × List Char) :=
  match cs with
  | [] => none
  | c :: _ =>
    if c == '"' || c == '\'' then
      (shortString? cs).map fun (s, rest) => (String.ofList s, rest)
    else
      let name := cs.takeWhile isKeyChar
      if name.isEmpty then none else some (String.ofList name, cs.dropWhile isKeyChar)

/-- How many parts a key may have. -/
def maxParts : Nat := 80

/-- A key: parts with dots in between, `parts` at most, as the parts before the last one and the last
one. -/
def keyOf? : (parts : Nat) → List Char → Option (List String × String × List Char)
  | 0, _ => none
  | parts + 1, cs =>
    match keyPart? (skipSpace cs) with
    | none => none
    | some (part, rest) =>
      match skipSpace rest with
      | '.' :: rest => (keyOf? parts rest).map fun (path, last, rest) => (part :: path, last, rest)
      | rest => some ([], part, rest)

def key? (cs : List Char) : Option (List String × String × List Char) := keyOf? maxParts cs

/-- How deep arrays and tables between brackets may nest. -/
def maxDepth : Nat := 80

mutual

def value? (fuel depth : Nat) (cs : List Char) : Option (Toml × List Char) :=
  match fuel with
  | 0 => none
  | fuel + 1 =>
    match cs with
    | [] => none
    | c :: rest =>
      if c == '"' || c == '\'' then
        (anyString? cs).map fun (s, rest) => (.string (String.ofList s), rest)
      else if c == '[' then
        if depth = 0 then none
        else (items? fuel (depth - 1) rest).map fun (vs, rest) => (.array false vs, rest)
      else if c == '\x7b' then
        if depth = 0 then none
        else (pairs? fuel (depth - 1) [] rest).map fun (fs, rest) => (.table .closed fs, rest)
      else
        let (atom, rest) := splitAtom cs
        (atom? atom).map fun v => (v, rest)

def items? (fuel depth : Nat) (cs : List Char) : Option (List Toml × List Char) :=
  match fuel with
  | 0 => none
  | fuel + 1 =>
    match skipLines? (cs.length + 1) cs with
    | none => none
    | some (']' :: rest) => some ([], rest)
    | some cs =>
      match value? fuel depth cs with
      | none => none
      | some (v, rest) =>
        match skipLines? (rest.length + 1) rest with
        | some (',' :: rest) => (items? fuel depth rest).map fun (vs, rest) => (v :: vs, rest)
        | some (']' :: rest) => some ([v], rest)
        | _ => none

/-- The pairs of a table between curly brackets, added to those in `found`. -/
def pairs? (fuel depth : Nat) (found : Fields) (cs : List Char) : Option (Fields × List Char) :=
  match fuel with
  | 0 => none
  | fuel + 1 =>
    match skipLines? (cs.length + 1) cs with
    | none => none
    | some ('\x7d' :: rest) => some (found, rest)
    | some cs =>
      match key? cs with
      | some (path, last, '=' :: rest) =>
        match value? fuel depth (skipSpace rest) with
        | none => none
        | some (v, rest) =>
          match define path last v .explicit found, skipLines? (rest.length + 1) rest with
          | some found, some (',' :: rest) => pairs? fuel depth found rest
          | some found, some ('\x7d' :: rest) => some (found, rest)
          | _, _ => none
      | _ => none

end

def pair? (cs : List Char) : Option (List String × String × Toml × List Char) :=
  match key? cs with
  | some (path, last, '=' :: rest) =>
    (value? (2 * rest.length + 2) maxDepth (skipSpace rest)).map fun (v, rest) =>
      (path, last, v, rest)
  | _ => none

/-- The document at hand and the table that the last header opened. -/
structure Draft where
  fields : Fields
  header : List String

/-- One line that is neither empty nor a comment. -/
def statement? (d : Draft) (cs : List Char) : Option (Draft × List Char) :=
  match cs with
  | '[' :: '[' :: rest =>
    match key? rest with
    | some (path, last, ']' :: ']' :: rest) =>
      (openItem path last d.fields).map fun fields => (⟨fields, path ++ [last]⟩, rest)
    | _ => none
  | '[' :: rest =>
    match key? rest with
    | some (path, last, ']' :: rest) =>
      (openTable path last d.fields).map fun fields => (⟨fields, path ++ [last]⟩, rest)
    | _ => none
  | cs =>
    match pair? cs with
    | none => none
    | some (path, last, v, rest) =>
      (alter false (define path last v) d.header .explicit d.fields).map fun fields =>
        ({ d with fields }, rest)

def statements? : (fuel : Nat) → Draft → List Char → Option Fields
  | 0, _, _ => none
  | fuel + 1, d, cs =>
    match skipLines? (cs.length + 1) cs with
    | none => none
    | some [] => some d.fields
    | some cs =>
      match statement? d cs with
      | none => none
      | some (d, rest) => (endLine? rest).bind fun rest => statements? fuel d rest

/-- The table of a document. A byte order mark in front does not count. -/
def parse? (text : String) : Option Fields :=
  let cs := match text.toList with
    | '\ufeff' :: cs => cs
    | cs => cs
  statements? (cs.length + 1) ⟨[], []⟩ cs

end Toml

end CommentBlocks
