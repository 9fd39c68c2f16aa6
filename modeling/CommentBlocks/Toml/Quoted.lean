import CommentBlocks.Value.Relaxed

/-!
Strings of TOML documents: with escapes or without, on one line or on several.
-/

namespace CommentBlocks

namespace Toml

open Relaxed (hexValue? charOf?)

/-- A character that may stand in a string or comment: no control character but the tab. -/
def isTextChar (c : Char) : Bool := c == '\t' || (32 ≤ c.toNat && c.toNat != 127)

def isSpace (c : Char) : Bool := c == ' ' || c == '\t'

def hexNumber? : List Char → Option Nat
  | [] => some 0
  | cs => cs.foldlM (fun n c => (hexValue? c).map (16 * n + ·)) 0

/-- How many digits the escapes with a number have. -/
def escapeDigits? (c : Char) : Option Nat :=
  if c = 'x' then some 2 else if c = 'u' then some 4 else if c = 'U' then some 8 else none

/-- What the other escapes stand for. -/
def escape? (c : Char) : Option Char :=
  if c = 'b' then some '\x08' else if c = 't' then some '\t' else if c = 'n' then some '\n'
  else if c = 'f' then some '\x0c' else if c = 'r' then some '\r' else if c = 'e' then some '\x1b'
  else if c = '"' then some '"' else if c = '\\' then some '\\' else none

def readEscape? : List Char → Option (Char × List Char)
  | [] => none
  | c :: cs =>
    match escapeDigits? c with
    | some n =>
      if cs.length < n then none
      else ((hexNumber? (cs.take n)).bind charOf?).map fun x => (x, cs.drop n)
    | none => (escape? c).map fun x => (x, cs)

/-- Pass over the line breaks and blanks after a backslash at the end of a line. -/
def skipFold : List Char → List Char
  | '\r' :: '\n' :: cs => skipFold cs
  | c :: cs => if isSpace c || c == '\n' then skipFold cs else c :: cs
  | [] => []

/-- What follows a backslash is blank up to the end of the line. -/
def foldsLine (cs : List Char) : Bool :=
  match cs.dropWhile isSpace with
  | '\n' :: _ => true
  | '\r' :: '\n' :: _ => true
  | _ => false

/-- The rest of a string on one line, up to its closing quote. `fuel` above the length of the text is
enough. -/
def line? (escapes : Bool) (quote : Char) : (fuel : Nat) → List Char →
    Option (List Char × List Char)
  | 0, _ => none
  | _ + 1, [] => none
  | fuel + 1, c :: cs =>
    if c = quote then some ([], cs)
    else if escapes && c == '\\' then
      match readEscape? cs with
      | none => none
      | some (x, cs) => (line? escapes quote fuel cs).map fun (s, rest) => (x :: s, rest)
    else if isTextChar c then (line? escapes quote fuel cs).map fun (s, rest) => (c :: s, rest)
    else none

/-- The rest of a string on several lines, up to its three closing quotes; one or two quotes right
before these belong to the string. -/
def lines? (escapes : Bool) (quote : Char) : (fuel : Nat) → List Char →
    Option (List Char × List Char)
  | 0, _ => none
  | _ + 1, [] => none
  | fuel + 1, c :: cs =>
    let quotes := ((c :: cs).takeWhile (· == quote)).length
    if 3 ≤ quotes then
      let own := Nat.min quotes 5 - 3
      some (List.replicate own quote, (c :: cs).drop (own + 3))
    else if escapes && c == '\\' then
      if foldsLine cs then lines? escapes quote fuel (skipFold cs)
      else
        match readEscape? cs with
        | none => none
        | some (x, cs) => (lines? escapes quote fuel cs).map fun (s, rest) => (x :: s, rest)
    else
      match c, cs with
      | '\r', '\n' :: cs =>
        (lines? escapes quote fuel cs).map fun (s, rest) => ('\r' :: '\n' :: s, rest)
      | c, cs =>
        if c == '\n' || isTextChar c then
          (lines? escapes quote fuel cs).map fun (s, rest) => (c :: s, rest)
        else none

/-- A line break right after the opening quotes does not count. -/
def dropFirstBreak : List Char → List Char
  | '\n' :: cs => cs
  | '\r' :: '\n' :: cs => cs
  | cs => cs

def shortString? : List Char → Option (List Char × List Char)
  | '"' :: cs => line? true '"' (cs.length + 1) cs
  | '\'' :: cs => line? false '\'' (cs.length + 1) cs
  | _ => none

/-- A string of any kind, from its opening quote on. -/
def anyString? (cs : List Char) : Option (List Char × List Char) :=
  match cs with
  | '"' :: '"' :: '"' :: rest => lines? true '"' (rest.length + 1) (dropFirstBreak rest)
  | '\'' :: '\'' :: '\'' :: rest => lines? false '\'' (rest.length + 1) (dropFirstBreak rest)
  | cs => shortString? cs

end Toml

end CommentBlocks
