import CommentBlocks.Decimal.Shortest
import CommentBlocks.Value.Basic

/-!
The text of a value as JSON, on one line or indented.
-/

namespace CommentBlocks

namespace Value

/-- Numbers have no exponent while the first digit stands between the fifth place after the point
and the sixteenth before it, and always show that they are no integers. -/
def numberLayout : NumberLayout where
  lowest := -5
  highest := 15
  whole := ".0"
  exponentMark := "e"
  positiveExponent := "+"

def escaped (c : Char) : List Char :=
  if c = '"' then ['\\', '"']
  else if c = '\\' then ['\\', '\\']
  else if c = '\n' then ['\\', 'n']
  else if c = '\r' then ['\\', 'r']
  else if c = '\t' then ['\\', 't']
  else if c = '\x08' then ['\\', 'b']
  else if c = '\x0c' then ['\\', 'f']
  else if c.toNat < 32 then
    ['\\', 'u', '0', '0', Nat.digitChar (c.toNat / 16), Nat.digitChar (c.toNat % 16)]
  else [c]

def quoted (s : String) : List Char := '"' :: s.toList.flatMap escaped ++ ['"']

def scalarText : Value → List Char
  | null => ['n', 'u', 'l', 'l']
  | bool true => ['t', 'r', 'u', 'e']
  | bool false => ['f', 'a', 'l', 's', 'e']
  | int i => (toString i).toList
  | float x => (numberLayout.text x).toList
  | string s => quoted s
  | array _ => []
  | object _ => []

mutual

/-- The value on one line, without spaces. -/
def print : Value → List Char
  | array items => '[' :: printItems items ++ [']']
  | object fields => '\x7b' :: printFields fields ++ ['\x7d']
  | v => scalarText v

def printItems : List Value → List Char
  | [] => []
  | [v] => print v
  | v :: w :: vs => print v ++ ',' :: printItems (w :: vs)

def printFields : List (String × Value) → List Char
  | [] => []
  | [(k, v)] => quoted k ++ ':' :: print v
  | (k, v) :: f :: fs => quoted k ++ ':' :: print v ++ ',' :: printFields (f :: fs)

end

def compact (v : Value) : String := String.ofList v.print

/-- A new line with `level` steps of two spaces. -/
def newLine (level : Nat) : List Char := '\n' :: List.replicate (2 * level) ' '

mutual

/-- The value with every item and field on a line of its own. -/
def layOut (level : Nat) : Value → List Char
  | array [] => ['[', ']']
  | array items => '[' :: layOutItems (level + 1) items ++ newLine level ++ [']']
  | object [] => ['\x7b', '\x7d']
  | object fields => '\x7b' :: layOutFields (level + 1) fields ++ newLine level ++ ['\x7d']
  | v => scalarText v

def layOutItems (level : Nat) : List Value → List Char
  | [] => []
  | [v] => newLine level ++ layOut level v
  | v :: w :: vs => newLine level ++ layOut level v ++ ',' :: layOutItems level (w :: vs)

def layOutFields (level : Nat) : List (String × Value) → List Char
  | [] => []
  | [(k, v)] => newLine level ++ quoted k ++ ':' :: ' ' :: layOut level v
  | (k, v) :: f :: fs =>
    newLine level ++ quoted k ++ ':' :: ' ' :: layOut level v ++ ',' :: layOutFields level (f :: fs)

end

def pretty (v : Value) : String := String.ofList (v.layOut 0)

end Value

end CommentBlocks
