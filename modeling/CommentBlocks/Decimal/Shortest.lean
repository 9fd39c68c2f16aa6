import CommentBlocks.Decimal.Binary64

/-!
The text of a floating point number: the fewest decimal digits that read back as the same number, and
of those the digits nearest to it.
-/

namespace CommentBlocks

namespace Binary64

def fraction (x : Binary64) : Nat × Nat :=
  let (m, q) := x.parts
  if 1074 ≤ q then (m * Nat.pow 2 (q - 1074), 1) else (m, Nat.pow 2 (1074 - q))

/-- The decimal exponent of the first digit of `n / d`: the greatest `e` with `10 ^ e ≤ n / d`. -/
def firstPlace (n d : Nat) : Int :=
  if d ≤ n then ((Nat.toDigits 10 (n / d)).length : Int) - 1
  else
    -- the least `k` with `d ≤ n * 10 ^ k` differs by at most one from the difference in length
    let k := (Nat.toDigits 10 d).length - (Nat.toDigits 10 n).length
    if d ≤ n * Nat.pow 10 (k - 1) ∧ 0 < k then -(k - 1 : Nat)
    else if d ≤ n * Nat.pow 10 k then -k
    else -(k + 1 : Nat)

/-- Of the two neighbours of the number on the grid of `count` digits, the one that reads back; the
nearer one if both do, and the even one of two equally near. `first` is the place of the first
digit. -/
def onGrid? (x : Binary64) (n d : Nat) (first : Int) (count : Nat) : Option (Nat × Int) :=
  let scale := first - (count - 1 : Nat)
  let (n, d) :=
    if 0 ≤ scale then (n, d * Nat.pow 10 scale.toNat) else (n * Nat.pow 10 (-scale).toNat, d)
  let low := n / d
  let rest := n % d
  let readsBack (k : Nat) : Bool := magnitudeOf k scale == x.magnitude
  match readsBack low, readsBack (low + 1) with
  | true, true =>
    let near := if 2 * rest < d then low else if d < 2 * rest then low + 1 else low + low % 2
    some (near, scale)
  | true, false => some (low, scale)
  | false, true => some (low + 1, scale)
  | false, false => none

/-- The shortest digits and the place of the last one, for a finite number other than zero. Seventeen
digits always read back. -/
def shortest (x : Binary64) : Nat × Int :=
  let (n, d) := x.fraction
  let first := firstPlace n d
  ((List.range 17).findSome? fun k => onGrid? x n d first (k + 1)).getD (0, 0)

end Binary64

/-- How a number is laid out from its digits. -/
structure NumberLayout where
  /-- The least place of the first digit that is written without an exponent. -/
  lowest : Int
  /-- The greatest such place. -/
  highest : Int
  /-- Written after whole numbers without an exponent. -/
  whole : String
  exponentMark : String
  positiveExponent : String

namespace NumberLayout

/-- Digits with the first one at place `first`, without an exponent. -/
def plain (layout : NumberLayout) (digits : List Char) (first : Int) : String :=
  if first < 0 then
    "0." ++ String.ofList (List.replicate (-first - 1).toNat '0' ++ digits)
  else
    let before := first.toNat + 1
    if digits.length ≤ before then
      String.ofList (digits ++ List.replicate (before - digits.length) '0') ++ layout.whole
    else String.ofList (digits.take before) ++ "." ++ String.ofList (digits.drop before)

/-- One digit, the others after a point, and the exponent. -/
def scientific (layout : NumberLayout) (digits : List Char) (first : Int) : String :=
  let mantissa := match digits with
    | [] => ""
    | [c] => String.ofList [c]
    | c :: cs => String.ofList (c :: '.' :: cs)
  let sign := if first < 0 then "-" else layout.positiveExponent
  mantissa ++ layout.exponentMark ++ sign ++ toString first.natAbs

def text (layout : NumberLayout) (x : Binary64) : String :=
  let sign := if x.negative then "-" else ""
  if x.isZero then sign ++ "0" ++ layout.whole
  else
    let (k, scale) := x.shortest
    let all := Nat.toDigits 10 k
    let first := scale + (all.length - 1 : Nat)
    let digits := (all.reverse.dropWhile (· == '0')).reverse
    if layout.lowest ≤ first ∧ first ≤ layout.highest then sign ++ layout.plain digits first
    else sign ++ layout.scientific digits first

end NumberLayout

end CommentBlocks
