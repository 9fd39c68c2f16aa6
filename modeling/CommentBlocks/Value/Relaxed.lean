import CommentBlocks.Value.Numeral

/-!
Relaxed literals: objects, arrays and strings with three kinds of quotes, bare keys, bare words and
a comma that may follow the last element.

Every function takes the text that is left and gives back what follows the part it has read. `fuel`
bounds the depth of the calls; of two calls inside each other one reads a character, so twice the
length of the text is enough.
-/

namespace CommentBlocks

namespace Relaxed

open Unicode (isBlank)
open Text (isQuote)

def skipBlank (cs : List Char) : List Char := cs.dropWhile isBlank

def hexValue? (c : Char) : Option Nat :=
  if '0' ≤ c ∧ c ≤ '9' then some (c.toNat - '0'.toNat)
  else if 'a' ≤ c ∧ c ≤ 'f' then some (c.toNat - 'a'.toNat + 10)
  else if 'A' ≤ c ∧ c ≤ 'F' then some (c.toNat - 'A'.toNat + 10)
  else none

/-- The character with the given code, unless the code is a surrogate or too large. -/
def charOf? (code : Nat) : Option Char :=
  if h : code.isValidChar then some (Char.ofNatAux code h) else none

/-- The character that four hexadecimal digits stand for. -/
def unicodeEscape? : List Char → Option Char
  | [a, b, c, d] =>
    match hexValue? a, hexValue? b, hexValue? c, hexValue? d with
    | some a, some b, some c, some d => charOf? (((a * 16 + b) * 16 + c) * 16 + d)
    | _, _, _, _ => none
  | _ => none

/-- What a character after a backslash stands for; any other than these stands for itself. -/
def escape (c : Char) : Char :=
  if c = 'n' then '\n' else if c = 't' then '\t' else if c = 'r' then '\r'
  else if c = 'b' then '\x08' else if c = 'f' then '\x0c' else if c = '0' then '\x00' else c

def stringBody? (quote : Char) : List Char → Option (List Char × List Char)
  | [] => none
  | c :: cs =>
    if c = quote then some ([], cs)
    else if c = '\\' then
      match cs with
      | [] => none
      | 'u' :: a :: b :: d :: e :: cs =>
        match unicodeEscape? [a, b, d, e] with
        | none => none
        | some x => (stringBody? quote cs).map fun (s, rest) => (x :: s, rest)
      | 'u' :: _ => none
      | e :: cs => (stringBody? quote cs).map fun (s, rest) => (escape e :: s, rest)
    else (stringBody? quote cs).map fun (s, rest) => (c :: s, rest)

def quoted? : List Char → Option (String × List Char)
  | [] => none
  | q :: cs => (stringBody? q cs).map fun (s, rest) => (String.ofList s, rest)

/-- What a bare key ends before. -/
def endsKey (c : Char) : Bool :=
  c == ':' || isBlank c || c == '\x7b' || c == '\x7d' || c == '[' || c == ']' || c == ',' ||
    isQuote c

def key? : List Char → Option (String × List Char)
  | [] => none
  | c :: cs =>
    if isQuote c then quoted? (c :: cs)
    else
      let name := (c :: cs).takeWhile (!endsKey ·)
      if name.isEmpty then none
      else some (String.ofList name, (c :: cs).dropWhile (!endsKey ·))

/-- What an element is written in. -/
inductive Holder where
  | array
  | object
deriving DecidableEq, Repr

/-- What a bare word ends before. -/
def Holder.endsWord (h : Holder) (c : Char) : Bool :=
  c == ',' || c == '\x7b' || c == '[' || match h with
    | .array => c == ']'
    | .object => c == '\x7d'

/-- The value of a bare word: a keyword, a number, or the word itself. -/
def wordValue (cs : List Char) : Value :=
  if cs = "true".toList then .bool true
  else if cs = "false".toList then .bool false
  else if cs = "null".toList ∨ cs = "undefined".toList then .null
  else (Numeral.value? cs).getD (.string (String.ofList cs))

def word? (holder : Holder) (cs : List Char) : Option (Value × List Char) :=
  let name := Text.trim (cs.takeWhile (!holder.endsWord ·))
  if name.isEmpty then none
  else some (wordValue name, cs.dropWhile (!holder.endsWord ·))

mutual

def element? (fuel : Nat) (holder : Holder) (cs : List Char) : Option (Value × List Char) :=
  match fuel with
  | 0 => none
  | fuel + 1 =>
    match skipBlank cs with
    | [] => none
    | c :: cs =>
      if c = '\x7b' then (fields? fuel [] cs).map fun (fs, rest) => (.object fs, rest)
      else if c = '[' then (items? fuel cs).map fun (vs, rest) => (.array vs, rest)
      else if isQuote c then (quoted? (c :: cs)).map fun (s, rest) => (.string s, rest)
      else word? holder (c :: cs)

def items? (fuel : Nat) (cs : List Char) : Option (List Value × List Char) :=
  match fuel with
  | 0 => none
  | fuel + 1 =>
    match skipBlank cs with
    | [] => none
    | ']' :: cs => some ([], cs)
    | cs =>
      match element? fuel .array cs with
      | none => none
      | some (v, cs) =>
        match skipBlank cs with
        | ',' :: cs => (items? fuel cs).map fun (vs, rest) => (v :: vs, rest)
        | ']' :: cs => some ([v], cs)
        | _ => none

/-- The fields of an object up to its closing bracket, set after those in `found`. -/
def fields? (fuel : Nat) (found : Fields) (cs : List Char) : Option (Fields × List Char) :=
  match fuel with
  | 0 => none
  | fuel + 1 =>
    match skipBlank cs with
    | [] => none
    | '\x7d' :: cs => some (found, cs)
    | cs =>
      match key? cs with
      | none => none
      | some (k, cs) =>
        match skipBlank cs with
        | ':' :: cs =>
          match element? fuel .object cs with
          | none => none
          | some (v, cs) =>
            match skipBlank cs with
            | ',' :: cs => fields? fuel (found.insert k v) cs
            | '\x7d' :: cs => some (found.insert k v, cs)
            | _ => none
        | _ => none

end

/-- The value of a text that is one object, array or string with white space around it. -/
def literal? (text : List Char) : Option Value :=
  let read := match skipBlank text with
    | [] => none
    | c :: cs =>
      if c = '\x7b' ∨ c = '[' ∨ isQuote c then element? (2 * text.length + 2) .array (c :: cs)
      else none
  match read with
  | some (v, rest) => if (skipBlank rest).isEmpty then some v else none
  | none => none

end Relaxed

end CommentBlocks
