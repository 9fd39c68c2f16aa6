import CommentBlocks.Text.Basic
import CommentBlocks.Value.Basic

/-!
Decimal numerals: an optional sign, digits with at most one point, and an optional exponent.
-/

namespace CommentBlocks

namespace Numeral

def isDigit (c : Char) : Bool := '0' ≤ c && c ≤ '9'

def digitValue (c : Char) : Nat := c.toNat - '0'.toNat

def ofDigits (cs : List Char) : Nat := cs.foldl (fun n c => 10 * n + digitValue c) 0

/-- Take a sign off the front; `true` stands for minus. -/
def sign : List Char → Bool × List Char
  | '-' :: cs => (true, cs)
  | '+' :: cs => (false, cs)
  | cs => (false, cs)

def isExponentMark (c : Char) : Bool := c == 'e' || c == 'E'

/-- Cut at the first exponent mark. -/
def cutExponent (cs : List Char) : List Char × Option (List Char) :=
  match cs.dropWhile (!isExponentMark ·) with
  | [] => (cs, none)
  | _ :: exponent => (cs.takeWhile (!isExponentMark ·), some exponent)

/-- Digits with at most one point among them, and at least one digit. -/
def isMantissa (cs : List Char) : Bool :=
  cs.all (fun c => isDigit c || c == '.') && cs.any isDigit && decide (cs.count '.' ≤ 1)

/-- An optional sign and at least one digit. -/
def isExponent (cs : List Char) : Bool :=
  let digits := (sign cs).2
  !digits.isEmpty && digits.all isDigit

def isNumeral (cs : List Char) : Bool :=
  let (mantissa, exponent) := cutExponent (sign cs).2
  isMantissa mantissa && exponent.all isExponent

def lowest : Int := -(Nat.pow 2 63 : Int)

def highest : Int := (Nat.pow 2 63 : Int) - 1

def inRange (i : Int) : Bool := lowest ≤ i && i ≤ highest

def withSign (negative : Bool) (n : Nat) : Int := if negative then -(n : Int) else n

/-- An optional sign and digits, as an integer of 64 bits. -/
def integer? (cs : List Char) : Option Int :=
  let (negative, digits) := sign cs
  if digits.isEmpty || !digits.all isDigit then none
  else
    let i := withSign negative (ofDigits digits)
    if inRange i then some i else none

def float (cs : List Char) : Binary64 :=
  let (negative, unsigned) := sign cs
  let (mantissa, exponent) := cutExponent unsigned
  let whole := mantissa.takeWhile (· != '.')
  let places := (mantissa.dropWhile (· != '.')).drop 1
  let power := match exponent with
    | none => 0
    | some e => withSign (sign e).1 (ofDigits (sign e).2)
  Binary64.ofDecimal negative (ofDigits (whole ++ places)) (power - places.length)

/-- The value of a finite numeral, an integer where it is written as one and fits 64 bits. -/
def value? (text : List Char) : Option Value :=
  let cs := Text.trim text
  if !isNumeral cs then none
  else
    match integer? cs with
    | some i => some (.int i)
    | none =>
      let x := float cs
      if x.isFinite then some (.float x) else none

end Numeral

end CommentBlocks
