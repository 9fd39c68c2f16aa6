import CommentBlocks.Decimal.Binary64
import Mathlib.Algebra.Order.Field.Basic
import Mathlib.Tactic.FieldSimp
import Mathlib.Tactic.Linarith
import Mathlib.Tactic.NormNum
import Mathlib.Tactic.Ring

/-!
Rounding to the nearest number depends on the fraction alone, not on how it is written, and whatever
lies close to a finite number rounds to it.
-/

namespace CommentBlocks.Binary64

/-! ### Rounding a quotient -/

lemma roundHalfEven_mul_right (n d : Nat) {c : Nat} (hc : 0 < c) :
    roundHalfEven (n * c) (d * c) = roundHalfEven n d := by
  have hdouble : 2 * (n % d * c) = 2 * (n % d) * c := by rw [Nat.mul_assoc]
  simp only [roundHalfEven, Nat.mul_div_mul_right _ _ hc, Nat.mul_mod_mul_right, hdouble,
    Nat.mul_lt_mul_right hc]

lemma roundHalfEven_congr {n d n' d' : Nat} (hd : 0 < d) (hd' : 0 < d') (h : n * d' = n' * d) :
    roundHalfEven n d = roundHalfEven n' d' := by
  rw [← roundHalfEven_mul_right n d hd', h, Nat.mul_comm d d', roundHalfEven_mul_right n' d' hd]

lemma roundHalfEven_eq {n d m : Nat} (hlow : 2 * m * d < 2 * n + d)
    (hhigh : 2 * n < 2 * m * d + d) : roundHalfEven n d = m := by
  have hd : 0 < d := by omega
  have hn : n / d * d + n % d = n := by rw [Nat.mul_comm]; exact Nat.div_add_mod n d
  have hmod : n % d < d := Nat.mod_lt n hd
  have hle : m ≤ n / d + 1 := by
    have : m * d < (n / d + 1 + 1) * d := by simp only [Nat.add_mul, Nat.mul_assoc] at *; omega
    exact Nat.le_of_lt_succ (Nat.lt_of_mul_lt_mul_right this)
  have hge : n / d ≤ m := by
    have : n / d * d < (m + 1) * d := by simp only [Nat.add_mul, Nat.mul_assoc] at *; omega
    exact Nat.le_of_lt_succ (Nat.lt_of_mul_lt_mul_right this)
  rcases Nat.lt_or_ge (n / d) m with hlt | hle'
  · obtain rfl : m = n / d + 1 := by omega
    have : d < 2 * (n % d) := by simp only [Nat.add_mul, Nat.mul_assoc] at *; omega
    simp only [roundHalfEven]
    rw [if_neg (by omega), if_pos this]
  · obtain rfl : m = n / d := by omega
    have : 2 * (n % d) < d := by simp only [Nat.mul_assoc] at *; omega
    simp only [roundHalfEven]
    rw [if_pos this]

/-! ### The distance between neighbouring numbers -/

/-- Around `n / d` the numbers are `2 ^ q` apart: 53 binary digits are left, or fewer at the least
distance. -/
structure Spaced (n d q : Nat) : Prop where
  lt : n < d * 2 ^ (q + 53)
  le : q = 0 ∨ d * 2 ^ (q + 52) ≤ n

namespace Spaced

variable {n d n' d' q p : Nat}

lemma step_le (hp : Spaced n d p) (hq : q = 0 ∨ d * 2 ^ (q + 52) ≤ n) : q ≤ p := by
  rcases hq with rfl | hq
  · exact Nat.zero_le p
  · have : 2 ^ (q + 52) < 2 ^ (p + 53) :=
      Nat.lt_of_mul_lt_mul_left (Nat.lt_of_le_of_lt hq hp.lt)
    have := (Nat.pow_lt_pow_iff_right (by decide)).1 this
    omega

lemma unique (hp : Spaced n d p) (hq : Spaced n d q) : p = q :=
  Nat.le_antisymm (hq.step_le hp.le) (hp.step_le hq.le)

lemma congr (hd : 0 < d) (hd' : 0 < d') (h : n * d' = n' * d) (hq : Spaced n d q) :
    Spaced n' d' q := by
  have swap : ∀ k : Nat, d' * k * d = d * k * d' := fun k => by
    rw [Nat.mul_right_comm, Nat.mul_comm d' d, Nat.mul_right_comm]
  constructor
  · refine Nat.lt_of_mul_lt_mul_right (a := d) ?_
    rw [← h, swap]
    exact Nat.mul_lt_mul_of_pos_right hq.lt hd'
  · refine hq.le.imp_right fun hle => Nat.le_of_mul_le_mul_right ?_ hd
    rw [← h, swap]
    exact Nat.mul_le_mul_right d' hle

/-- The step that rounding takes from the lengths of numerator and denominator. -/
lemma of_log2 (hn : 0 < n) (hd : 0 < d) :
    let guess := n.log2 - d.log2 - 53
    Spaced n d (if 2 ^ 53 ≤ n / (d * 2 ^ guess) then guess + 1 else guess) := by
  have hn1 := Nat.log2_self_le (Nat.ne_of_gt hn)
  have hn2 := Nat.lt_log2_self (n := n)
  have hd1 := Nat.log2_self_le (Nat.ne_of_gt hd)
  have hd2 := Nat.lt_log2_self (n := d)
  intro guess
  have hpos : 0 < d * 2 ^ guess := Nat.mul_pos hd (Nat.two_pow_pos _)
  -- the quotient of the powers of two below `n` and above `d`, or the other way round
  have habove : n < d * 2 ^ (guess + 54) := calc
    n < 2 ^ (n.log2 + 1) := hn2
    _ ≤ 2 ^ (d.log2 + (guess + 54)) := Nat.pow_le_pow_right (by decide) (by omega)
    _ = 2 ^ d.log2 * 2 ^ (guess + 54) := Nat.pow_add ..
    _ ≤ d * 2 ^ (guess + 54) := Nat.mul_le_mul_right _ hd1
  have hbelow : guess = 0 ∨ d * 2 ^ (guess + 52) ≤ n := by
    refine (Nat.eq_zero_or_pos guess).imp_right fun hguess => Nat.le_of_lt ?_
    calc
      d * 2 ^ (guess + 52) < 2 ^ (d.log2 + 1) * 2 ^ (guess + 52) :=
        Nat.mul_lt_mul_of_pos_right hd2 (Nat.two_pow_pos _)
      _ = 2 ^ (d.log2 + 1 + (guess + 52)) := (Nat.pow_add ..).symm
      _ ≤ 2 ^ n.log2 := Nat.pow_le_pow_right (by decide) (by omega)
      _ ≤ n := hn1
  have hquot : 2 ^ 53 ≤ n / (d * 2 ^ guess) ↔ d * 2 ^ (guess + 53) ≤ n := by
    rw [Nat.le_div_iff_mul_le hpos, Nat.pow_add, Nat.mul_left_comm, Nat.mul_comm (2 ^ 53)]
  split
  · next hlarge => exact ⟨habove, .inr (hquot.1 hlarge)⟩
  · next hsmall => exact ⟨Nat.lt_of_not_ge fun hge => hsmall (hquot.2 hge), hbelow⟩

lemma exists_of_pos (hn : 0 < n) (hd : 0 < d) : ∃ q, Spaced n d q := ⟨_, of_log2 hn hd⟩

end Spaced

/-! ### The nearest number -/

theorem nearest_eq {n d q : Nat} (hn : 0 < n) (hd : 0 < d) (hq : Spaced (n * 2 ^ 1074) d q) :
    nearest n d = Nat.min infinite (q * 2 ^ 52 + roundHalfEven (n * 2 ^ 1074) (d * 2 ^ q)) := by
  have hscaled : 0 < n * 2 ^ 1074 := Nat.mul_pos hn (pow_pos two_pos 1074)
  have hpow (k : Nat) : Nat.pow 2 k = 2 ^ k := rfl
  simp only [nearest, hpow, -Nat.reducePow]
  rw [(Spaced.of_log2 hscaled hd).unique hq]

theorem nearest_congr {n d n' d' : Nat} (hn : 0 < n) (hd : 0 < d) (hn' : 0 < n') (hd' : 0 < d')
    (h : (n : ℚ) / d = n' / d') : nearest n d = nearest n' d' := by
  have hcross : n * d' = n' * d := by
    rw [div_eq_div_iff (by positivity) (by positivity)] at h
    exact_mod_cast h
  have hscaled : n * 2 ^ 1074 * d' = n' * 2 ^ 1074 * d := by
    rw [Nat.mul_right_comm, hcross, Nat.mul_right_comm]
  obtain ⟨q, hq⟩ := Spaced.exists_of_pos (n := n * 2 ^ 1074) (Nat.mul_pos hn (pow_pos two_pos 1074)) hd
  have hpow := Nat.two_pow_pos q
  rw [nearest_eq hn hd hq, nearest_eq hn' hd' (hq.congr hd hd' hscaled),
    roundHalfEven_congr (Nat.mul_pos hd hpow) (Nat.mul_pos hd' hpow)]
  rw [← Nat.mul_assoc, hscaled, Nat.mul_assoc]

/-! ### Finite numbers -/

/-- The distance of a finite number to the next one. -/
def spacing (x : Binary64) : ℚ := 2 ^ x.parts.2 / 2 ^ 1074

def absolute (x : Binary64) : ℚ := x.parts.1 * x.spacing

lemma spacing_pos (x : Binary64) : 0 < x.spacing := by
  rw [spacing]
  positivity

lemma parts_lt (x : Binary64) : x.parts.1 < 2 ^ 53 := by
  have := Nat.mod_lt x.magnitude (y := 2 ^ 52) (by decide)
  simp only [parts, Nat.pow_eq]
  split <;> dsimp only <;> omega

lemma parts_normal (x : Binary64) : x.parts.2 = 0 ∨ 2 ^ 52 ≤ x.parts.1 := by
  simp only [parts, Nat.pow_eq]
  split <;> dsimp only <;> omega

lemma magnitude_eq_parts (x : Binary64) : x.magnitude = x.parts.2 * 2 ^ 52 + x.parts.1 := by
  simp only [parts, Nat.pow_eq]
  split <;> dsimp only <;> omega

/-- A fraction less than half a spacing away from a finite number rounds to it, unless it lies among
the closer numbers below a power of two. -/
theorem nearest_of_close {x : Binary64} (hx : x.isFinite) {n d : Nat} (hn : 0 < n) (hd : 0 < d)
    (hlow : x.absolute - x.spacing / 2 < n / d) (hhigh : (n / d : ℚ) < x.absolute + x.spacing / 2)
    (hnormal : x.parts.2 = 0 ∨ 2 ^ 52 * x.spacing ≤ n / d) : nearest n d = x.magnitude := by
  have hmagnitude := x.magnitude_eq_parts
  have hm := x.parts_lt
  simp only [absolute, spacing] at hlow hhigh hnormal
  generalize x.parts.1 = m at *
  generalize x.parts.2 = q at *
  obtain ⟨unit, hpos, hunit⟩ : ∃ unit : Nat, 0 < unit ∧ unit = 2 ^ 1074 := ⟨_, pow_pos two_pos 1074, rfl⟩
  have hcast : (2 : ℚ) ^ 1074 = unit := by rw [hunit, Nat.cast_pow]; rfl
  rw [hcast] at hlow hhigh hnormal
  -- the same with all denominators multiplied out
  have hlow' : 2 * m * (d * 2 ^ q) < 2 * (n * unit) + d * 2 ^ q := by
    field_simp at hlow
    have : (2 * m * (d * 2 ^ q) : ℚ) < 2 * (n * unit) + d * 2 ^ q := by linarith
    exact_mod_cast this
  have hhigh' : 2 * (n * unit) < 2 * m * (d * 2 ^ q) + d * 2 ^ q := by
    field_simp at hhigh
    have : (2 * (n * unit) : ℚ) < 2 * m * (d * 2 ^ q) + d * 2 ^ q := by linarith
    exact_mod_cast this
  have hspaced : Spaced (n * unit) d q := by
    refine ⟨?_, hnormal.imp_right fun hle => ?_⟩
    · have hpow : d * 2 ^ (q + 53) = 2 ^ 53 * (d * 2 ^ q) := by rw [Nat.pow_add]; ring
      have : (2 * m + 1) * (d * 2 ^ q) ≤ 2 * 2 ^ 53 * (d * 2 ^ q) :=
        Nat.mul_le_mul_right _ (by omega)
      rw [Nat.add_mul, Nat.one_mul, Nat.mul_assoc 2 (2 ^ 53), ← hpow] at this
      omega
    · have hpow : d * 2 ^ (q + 52) = 2 ^ 52 * 2 ^ q * d := by rw [Nat.pow_add]; ring
      rw [hpow, Nat.mul_comm n]
      field_simp at hle
      exact_mod_cast hle
  rw [hunit] at hlow' hhigh' hspaced
  rw [nearest_eq hn hd hspaced, roundHalfEven_eq hlow' hhigh', ← hmagnitude]
  have : x.magnitude < infinite := by simpa [isFinite] using hx
  exact Nat.min_eq_right (Nat.le_of_lt this)

-- the least number above zero
example : nearest 5 (10 ^ 324) = 1 := by decide +kernel

end CommentBlocks.Binary64
