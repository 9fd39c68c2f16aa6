/-!
Binary floating point numbers of 64 bits, and the reading of decimal numerals into them.

A number is a sign and a magnitude; magnitudes are the low 63 bits of the usual layout, so they are
in the order of the absolute values they stand for. Reading rounds to the nearest number, a tie going
to the even neighbour, in exact arithmetic.
-/

namespace CommentBlocks

structure Binary64 where
  negative : Bool
  magnitude : Nat
deriving DecidableEq, Repr

namespace Binary64

/-- The magnitude of infinity; what lies above is no number. -/
def infinite : Nat := 2047 * Nat.pow 2 52

def isFinite (x : Binary64) : Bool := x.magnitude < infinite

def isZero (x : Binary64) : Bool := x.magnitude == 0

def infinity (negative : Bool) : Binary64 := ⟨negative, infinite⟩

def nan (negative : Bool) : Binary64 := ⟨negative, infinite + Nat.pow 2 51⟩

/-- A finite number is `m` times `2 ^ (q - 1074)`; this is `(m, q)`. -/
def parts (x : Binary64) : Nat × Nat :=
  let e := x.magnitude / Nat.pow 2 52
  let f := x.magnitude % Nat.pow 2 52
  if e = 0 then (f, 0) else (f + Nat.pow 2 52, e - 1)

/-- The quotient `n / d` rounded to the nearest whole number, a half to the even one. -/
def roundHalfEven (n d : Nat) : Nat :=
  let k := n / d
  let r := n % d
  if 2 * r < d then k else if d < 2 * r then k + 1 else k + k % 2

/-- The magnitude nearest to `n / d`, for `n` and `d` above zero.

With `2 ^ (k - 53) < n / d / 2 ^ q < 2 ^ (k - 51)` for the `k` at hand, the step `q` is chosen such
that 53 binary digits are left, and not below the least step. A carry into a further digit ends up
in the exponent. -/
def nearest (n d : Nat) : Nat :=
  -- the steps count from `2 ^ (-1074)`, so the fraction is scaled by `2 ^ 1074` first
  let scaled := n * Nat.pow 2 1074
  let guess := scaled.log2 - d.log2 - 53
  let q := if Nat.pow 2 53 ≤ scaled / (d * Nat.pow 2 guess) then guess + 1 else guess
  let m := roundHalfEven scaled (d * Nat.pow 2 q)
  Nat.min infinite (q * Nat.pow 2 52 + m)

/-- The magnitude nearest to `digits * 10 ^ scale`. Beyond 310 places before or 330 after the point
the result is infinity or zero whatever the digits are. -/
def magnitudeOf (digits : Nat) (scale : Int) : Nat :=
  if digits = 0 then 0
  else
    let places := (Nat.toDigits 10 digits).length + scale
    if places > 310 then infinite
    else if places < -330 then 0
    else if 0 ≤ scale then nearest (digits * Nat.pow 10 scale.toNat) 1
    else nearest digits (Nat.pow 10 (-scale).toNat)

def ofDecimal (negative : Bool) (digits : Nat) (scale : Int) : Binary64 :=
  ⟨negative, magnitudeOf digits scale⟩

end Binary64

end CommentBlocks
