import CommentBlocks.Decimal.Shortest
import CommentBlocks.Proofs.Decimal.Nearest
import Mathlib.Algebra.Order.Field.Power
import Mathlib.Data.Nat.Cast.Order.Field

/-!
The shortest digits of a finite number read back as that number; with seventeen digits at least one
of its two neighbours on the decimal grid does.
-/

namespace CommentBlocks.Binary64

/-! ### Powers of ten -/

lemma ten_zpow_of_nonneg {e : Int} (he : 0 ≤ e) : (10 : ℚ) ^ e = 10 ^ e.toNat := by
  rw [← zpow_natCast, Int.toNat_of_nonneg he]

lemma ten_zpow_of_neg {e : Int} (he : e < 0) : (10 : ℚ) ^ e = (10 ^ (-e).toNat)⁻¹ := by
  rw [← zpow_natCast, Int.toNat_of_nonneg (by omega), zpow_neg, inv_inv]

lemma ten_zpow_pos (e : Int) : 0 < (10 : ℚ) ^ e := zpow_pos (by norm_num) e

lemma ten_zpow_lt_iff {a b : Int} : (10 : ℚ) ^ a < 10 ^ b ↔ a < b :=
  zpow_lt_zpow_iff_right₀ (by norm_num)

lemma place_unique {v : ℚ} {a b : Int} (ha : 10 ^ a ≤ v) (ha' : v < 10 ^ (a + 1))
    (hb : 10 ^ b ≤ v) (hb' : v < 10 ^ (b + 1)) : a = b := by
  have h1 := ten_zpow_lt_iff.1 (lt_of_le_of_lt ha hb')
  have h2 := ten_zpow_lt_iff.1 (lt_of_le_of_lt hb ha')
  omega

lemma lt_pow_length_toDigits (k : Nat) : k < 10 ^ (Nat.toDigits 10 k).length :=
  (Nat.length_toDigits_le_iff (by decide) Nat.length_toDigits_pos).1 (Nat.le_refl _)

lemma pow_length_toDigits_le {k : Nat} (hk : 0 < k) :
    10 ^ ((Nat.toDigits 10 k).length - 1) ≤ k := by
  rcases Nat.eq_zero_or_pos ((Nat.toDigits 10 k).length - 1) with h | h
  · rw [h]; exact hk
  · refine Nat.le_of_not_lt fun hlt => ?_
    have := (Nat.length_toDigits_le_iff (by decide) h).2 hlt
    omega

lemma length_toDigits_eq {k j : Nat} (hlow : 10 ^ j ≤ k) (hhigh : k < 10 ^ (j + 1)) :
    (Nat.toDigits 10 k).length = j + 1 := by
  have hle := (Nat.length_toDigits_le_iff (by decide) (Nat.succ_pos j)).2 hhigh
  have hlt := lt_of_le_of_lt hlow (lt_pow_length_toDigits k)
  have := (Nat.pow_lt_pow_iff_right (by decide)).1 hlt
  omega

/-! ### Reading decimals -/

/-- The value of `digits` with the last one at place `scale`. -/
def decimal (digits : Nat) (scale : Int) : ℚ := digits * 10 ^ scale

lemma decimal_bounds {k : Nat} (hk : 0 < k) (scale : Int) :
    10 ^ ((Nat.toDigits 10 k).length + scale - 1) ≤ decimal k scale ∧
      decimal k scale < 10 ^ ((Nat.toDigits 10 k).length + scale - 1 + 1) := by
  have hpos := ten_zpow_pos scale
  have hlen : ((Nat.toDigits 10 k).length : Int) - 1 = ((Nat.toDigits 10 k).length - 1 : Nat) := by
    have := Nat.length_toDigits_pos (b := 10) (n := k)
    omega
  constructor
  · rw [show (Nat.toDigits 10 k).length + scale - 1 = ((Nat.toDigits 10 k).length : Int) - 1 + scale
      by omega, zpow_add₀ (by norm_num), hlen, zpow_natCast]
    exact mul_le_mul_of_nonneg_right (by exact_mod_cast pow_length_toDigits_le hk) hpos.le
  · rw [Int.sub_add_cancel, zpow_add₀ (by norm_num), zpow_natCast]
    exact mul_lt_mul_of_pos_right (by exact_mod_cast lt_pow_length_toDigits k) hpos

lemma magnitudeOf_eq {k : Nat} (hk : 0 < k) {scale : Int} {n d : Nat} (hn : 0 < n) (hd : 0 < d)
    (h : (n : ℚ) / d = decimal k scale) :
    magnitudeOf k scale =
      if (Nat.toDigits 10 k).length + scale > 310 then infinite
      else if (Nat.toDigits 10 k).length + scale < -330 then 0
      else nearest n d := by
  have hread : (if 0 ≤ scale then nearest (k * Nat.pow 10 scale.toNat) 1
      else nearest k (Nat.pow 10 (-scale).toNat)) = nearest n d := by
    split
    · next hscale =>
      refine nearest_congr (Nat.mul_pos hk (Nat.pow_pos (by decide))) one_pos hn hd ?_
      rw [h, decimal, ten_zpow_of_nonneg hscale]
      simp
    · next hscale =>
      refine nearest_congr hk (Nat.pow_pos (by decide)) hn hd ?_
      rw [h, decimal, ten_zpow_of_neg (Int.not_le.1 hscale), div_eq_mul_inv]
      simp
  simp only [magnitudeOf, if_neg (Nat.ne_of_gt hk), hread]

lemma exists_fraction {k : Nat} (hk : 0 < k) (scale : Int) :
    ∃ n d : Nat, 0 < n ∧ 0 < d ∧ (n : ℚ) / d = decimal k scale := by
  rcases le_or_gt 0 scale with hscale | hscale
  · exact ⟨k * 10 ^ scale.toNat, 1, by positivity, one_pos, by
      rw [decimal, ten_zpow_of_nonneg hscale]; simp⟩
  · exact ⟨k, 10 ^ (-scale).toNat, hk, by positivity, by
      rw [decimal, ten_zpow_of_neg hscale, div_eq_mul_inv]; simp⟩

lemma decimal_pos_iff {k : Nat} {scale : Int} : 0 < decimal k scale ↔ 0 < k := by
  rw [decimal, mul_pos_iff_of_pos_right (ten_zpow_pos scale)]
  exact_mod_cast Iff.rfl

/-- Reading depends on the value alone: zeros at either end do not count. -/
theorem magnitudeOf_congr {k k' : Nat} {scale scale' : Int}
    (h : decimal k scale = decimal k' scale') : magnitudeOf k scale = magnitudeOf k' scale' := by
  rcases Nat.eq_zero_or_pos k with hk | hk
  · have hk' : k' = 0 := by
      have : ¬ 0 < decimal k' scale' := by rw [← h, decimal_pos_iff]; omega
      rw [decimal_pos_iff] at this
      omega
    simp [magnitudeOf, hk, hk']
  · have hpos : 0 < decimal k' scale' := h ▸ decimal_pos_iff.2 hk
    have hk' : 0 < k' := decimal_pos_iff.1 hpos
    obtain ⟨n, d, hn, hd, hfraction⟩ := exists_fraction hk scale
    obtain ⟨hlow, hhigh⟩ := decimal_bounds hk scale
    obtain ⟨hlow', hhigh'⟩ := decimal_bounds hk' scale'
    rw [h] at hlow hhigh
    have hplaces := place_unique hlow hhigh hlow' hhigh'
    rw [magnitudeOf_eq hk hn hd hfraction, magnitudeOf_eq hk' hn hd (hfraction.trans h),
      show (Nat.toDigits 10 k).length + scale = (Nat.toDigits 10 k').length + scale' by omega]

example : magnitudeOf 10 (-2) = magnitudeOf 1 (-1) := by decide +kernel

/-! ### The number as a fraction -/

lemma fraction_den_pos (x : Binary64) : 0 < x.fraction.2 := by
  simp only [fraction, Nat.pow_eq]
  split
  · exact Nat.one_pos
  · exact Nat.two_pow_pos _

lemma fraction_eq_absolute (x : Binary64) : (x.fraction.1 : ℚ) / x.fraction.2 = x.absolute := by
  simp only [fraction, absolute, spacing, Nat.pow_eq]
  split
  · next h =>
    rw [Nat.cast_mul, Nat.cast_pow, Nat.cast_ofNat, pow_sub₀ (2 : ℚ) (by norm_num) h, Nat.cast_one,
      div_one, div_eq_mul_inv]
  · next h =>
    have := pow_sub₀ (2 : ℚ) (by norm_num) (Nat.le_of_not_le h)
    simp [this, div_eq_mul_inv]

lemma absolute_pos {x : Binary64} (hx : x.isZero = false) : 0 < x.absolute := by
  have hm : 0 < x.parts.1 := by
    have hzero : x.magnitude ≠ 0 := by simpa [isZero] using hx
    have := x.magnitude_eq_parts
    have := x.parts_normal
    omega
  exact mul_pos (by exact_mod_cast hm) x.spacing_pos

lemma firstPlace_of_le {n d : Nat} (hd : 0 < d) (hle : d ≤ n) :
    10 ^ firstPlace n d ≤ (n / d : ℚ) ∧ (n / d : ℚ) < 10 ^ (firstPlace n d + 1) := by
  have hd' : (0 : ℚ) < d := by exact_mod_cast hd
  have hq : 0 < n / d := Nat.div_pos hle hd
  have hlen := Nat.length_toDigits_pos (b := 10) (n := n / d)
  have hlow := Nat.mul_le_of_le_div _ _ _ (pow_length_toDigits_le hq)
  have hhigh := (Nat.div_lt_iff_lt_mul hd).1 (lt_pow_length_toDigits (n / d))
  rw [firstPlace, if_pos hle]
  generalize (Nat.toDigits 10 (n / d)).length = len at *
  obtain ⟨len, rfl⟩ : ∃ l, len = l + 1 := ⟨len - 1, by omega⟩
  simp only [Nat.add_sub_cancel, Nat.cast_add, Nat.cast_one, Int.add_sub_cancel] at hlow ⊢
  rw [le_div_iff₀ hd', div_lt_iff₀ hd', zpow_natCast, ← Nat.cast_succ, zpow_natCast]
  exact ⟨by exact_mod_cast hlow, by exact_mod_cast hhigh⟩

lemma zpow_neg_le_div {n d k : Nat} (hd : 0 < d) :
    (10 : ℚ) ^ (-k : Int) ≤ n / d ↔ d ≤ n * 10 ^ k := by
  have hd' : (0 : ℚ) < d := by exact_mod_cast hd
  rw [le_div_iff₀ hd', zpow_neg, zpow_natCast, inv_mul_le_iff₀ (by positivity), mul_comm]
  exact_mod_cast Iff.rfl

/-- The difference in length tells the first digit of a fraction below one but for one place. -/
lemma firstPlace_of_lt {n d : Nat} (hn : 0 < n) (hd : 0 < d) (hlt : n < d) :
    10 ^ firstPlace n d ≤ (n / d : ℚ) ∧ (n / d : ℚ) < 10 ^ (firstPlace n d + 1) := by
  have hn1 := lt_pow_length_toDigits n
  have hn2 := pow_length_toDigits_le hn
  have hd1 := lt_pow_length_toDigits d
  have hd2 := pow_length_toDigits_le hd
  have hnl := Nat.length_toDigits_pos (b := 10) (n := n)
  simp only [firstPlace, Nat.pow_eq, if_neg (Nat.not_le.2 hlt)]
  generalize (Nat.toDigits 10 n).length = a at *
  generalize (Nat.toDigits 10 d).length = b at *
  have hab : a ≤ b := by
    refine Nat.le_of_not_lt fun hba => Nat.not_le.2 hlt (Nat.le_of_lt (Nat.lt_of_lt_of_le hd1 ?_))
    exact Nat.le_trans (Nat.pow_le_pow_right (by decide) (by omega)) hn2
  have habove : d < n * 10 ^ (b - a + 1) := calc
    d < 10 ^ b := hd1
    _ = 10 ^ (a - 1) * 10 ^ (b - a + 1) := by rw [← Nat.pow_add]; congr 1; omega
    _ ≤ n * 10 ^ (b - a + 1) := Nat.mul_le_mul_right _ hn2
  have hbelow : 0 < b - a → n * 10 ^ (b - a - 1) < d := fun hpos => calc
    n * 10 ^ (b - a - 1) < 10 ^ a * 10 ^ (b - a - 1) :=
      Nat.mul_lt_mul_of_pos_right hn1 (by positivity)
    _ = 10 ^ (b - 1) := by rw [← Nat.pow_add]; congr 1; omega
    _ ≤ d := hd2
  generalize b - a = k at *
  rw [if_neg fun h => absurd (hbelow h.2) (Nat.not_lt.2 h.1)]
  split
  · next hle =>
    have hk : 0 < k := Nat.pos_of_ne_zero fun h => Nat.not_le.2 hlt (by simpa [h] using hle)
    rw [show (-(k : Int)) + 1 = -((k - 1 : Nat) : Int) by omega]
    refine ⟨(zpow_neg_le_div hd).2 hle, lt_of_not_ge fun hge => ?_⟩
    exact Nat.not_le.2 (hbelow hk) ((zpow_neg_le_div hd).1 hge)
  · next hgt =>
    rw [show (-((k + 1 : Nat) : Int)) + 1 = -(k : Int) by omega]
    refine ⟨(zpow_neg_le_div hd).2 (Nat.le_of_lt habove), lt_of_not_ge fun hge => ?_⟩
    exact hgt ((zpow_neg_le_div hd).1 hge)

theorem firstPlace_spec {n d : Nat} (hn : 0 < n) (hd : 0 < d) :
    10 ^ firstPlace n d ≤ (n / d : ℚ) ∧ (n / d : ℚ) < 10 ^ (firstPlace n d + 1) :=
  (Nat.lt_or_ge n d).elim (firstPlace_of_lt hn hd) (firstPlace_of_le hd)

/-! ### Neighbours on the decimal grid -/

lemma magnitudeOf_of_close {x : Binary64} (hx : x.isFinite) {k : Nat} {scale : Int} (hk : 0 < k)
    (hplaces : -330 ≤ (Nat.toDigits 10 k).length + scale ∧
      (Nat.toDigits 10 k).length + scale ≤ 310)
    (hlow : x.absolute - x.spacing / 2 < decimal k scale)
    (hhigh : decimal k scale < x.absolute + x.spacing / 2)
    (hnormal : x.parts.2 = 0 ∨ 2 ^ 52 * x.spacing ≤ decimal k scale) :
    magnitudeOf k scale = x.magnitude := by
  obtain ⟨n, d, hn, hd, hfraction⟩ := exists_fraction hk scale
  rw [magnitudeOf_eq hk hn hd hfraction, if_neg (by omega), if_neg (by omega)]
  rw [← hfraction] at hlow hhigh hnormal
  exact nearest_of_close hx hn hd hlow hhigh hnormal

lemma magnitudeOf_of_onGrid? {x : Binary64} {n d : Nat} {first : Int} {count : Nat}
    {r : Nat × Int} (h : onGrid? x n d first count = some r) : magnitudeOf r.1 r.2 = x.magnitude := by
  simp only [onGrid?] at h
  generalize (if 0 ≤ first - (count - 1 : Nat) then
    (n, d * Nat.pow 10 (first - (count - 1 : Nat)).toNat)
    else (n * Nat.pow 10 (-(first - (count - 1 : Nat))).toNat, d)) = p at h
  split at h
  · next hlow hhigh =>
    cases h
    rw [beq_iff_eq] at hlow hhigh
    dsimp only
    split
    · exact hlow
    · split
      · exact hhigh
      · rcases Nat.mod_two_eq_zero_or_one (p.1 / p.2) with h2 | h2 <;> rw [h2]
        · exact hlow
        · exact hhigh
  · next hlow _ => cases h; exact beq_iff_eq.1 hlow
  · next _ hhigh => cases h; exact beq_iff_eq.1 hhigh
  · simp at h

/-- The grid has two neighbours of the fraction, and gives nothing only if neither reads back. -/
lemma exists_neighbours (x : Binary64) {n d : Nat} (hd : 0 < d) (first : Int) (count : Nat) :
    ∃ low : Nat, decimal low (first - (count - 1 : Nat)) ≤ (n / d : ℚ) ∧
      (n / d : ℚ) < decimal (low + 1) (first - (count - 1 : Nat)) ∧
      (onGrid? x n d first count = none →
        magnitudeOf low (first - (count - 1 : Nat)) ≠ x.magnitude ∧
        magnitudeOf (low + 1) (first - (count - 1 : Nat)) ≠ x.magnitude) := by
  simp only [onGrid?]
  generalize first - (count - 1 : Nat) = scale
  have hd' : (0 : ℚ) < d := by exact_mod_cast hd
  obtain ⟨n', d', hpair, hpos, hratio⟩ : ∃ n' d', (if 0 ≤ scale then (n, d * Nat.pow 10 scale.toNat)
      else (n * Nat.pow 10 (-scale).toNat, d)) = (n', d') ∧ 0 < d' ∧
      (n' / d' : ℚ) * 10 ^ scale = n / d := by
    split
    · next hscale =>
      refine ⟨_, _, rfl, Nat.mul_pos hd (Nat.pow_pos (by decide)), ?_⟩
      rw [ten_zpow_of_nonneg hscale, Nat.pow_eq, Nat.cast_mul, Nat.cast_pow]
      field_simp
      norm_num
    · next hscale =>
      refine ⟨_, _, rfl, hd, ?_⟩
      rw [ten_zpow_of_neg (Int.not_le.1 hscale), Nat.pow_eq, Nat.cast_mul, Nat.cast_pow]
      field_simp
      norm_num
  have hpos' : (0 : ℚ) < d' := by exact_mod_cast hpos
  refine ⟨n' / d', ?_, ?_, fun h => ?_⟩
  · rw [decimal, ← hratio]
    refine mul_le_mul_of_nonneg_right ?_ (ten_zpow_pos scale).le
    exact Nat.cast_div_le
  · rw [decimal, ← hratio]
    refine mul_lt_mul_of_pos_right ?_ (ten_zpow_pos scale)
    rw [div_lt_iff₀ hpos']
    rw [mul_comm]
    exact_mod_cast Nat.lt_mul_div_succ n' hpos
  · rw [hpair] at h
    dsimp only at h
    split at h
    · simp at h
    · simp at h
    · simp at h
    · next hlow hhigh => exact ⟨by simpa using hlow, by simpa using hhigh⟩

/-! ### Seventeen digits -/

lemma parts_snd_le {x : Binary64} (hx : x.isFinite) : x.parts.2 ≤ 2045 := by
  have hmagnitude := x.magnitude_eq_parts
  have hnormal := x.parts_normal
  have hfinite : x.magnitude < infinite := of_decide_eq_true hx
  simp only [infinite, Nat.pow_eq] at hfinite
  omega

lemma absolute_lt {x : Binary64} (hx : x.isFinite) : x.absolute < 10 ^ (309 : Int) := by
  have hm : (x.parts.1 : ℚ) < 2 ^ 53 := by exact_mod_cast x.parts_lt
  have hq : (2 : ℚ) ^ x.parts.2 ≤ 2 ^ 2045 := pow_le_pow_right₀ (by norm_num) (parts_snd_le hx)
  have hpow : (2 : ℚ) ^ 1024 ≤ 10 ^ 309 := by
    have : 2 ^ 1024 ≤ 10 ^ 309 := by decide +kernel
    exact_mod_cast this
  calc
    x.absolute < 2 ^ 53 * x.spacing := mul_lt_mul_of_pos_right hm x.spacing_pos
    _ ≤ 2 ^ 53 * (2 ^ 2045 / 2 ^ 1074) := by rw [spacing]; gcongr
    _ = 2 ^ 1024 := by rw [← mul_div_assoc, ← pow_add, div_eq_iff (by positivity), ← pow_add]
    _ ≤ 10 ^ (309 : Int) := by exact_mod_cast hpow

lemma lt_absolute {x : Binary64} (hx : x.isZero = false) : 10 ^ (-324 : Int) < x.absolute := by
  have hm : (1 : ℚ) ≤ x.parts.1 := by
    have hpos : 0 < (x.parts.1 : ℚ) := pos_of_mul_pos_left (absolute_pos hx) x.spacing_pos.le
    exact_mod_cast hpos
  have hq : (1 : ℚ) ≤ 2 ^ x.parts.2 := one_le_pow₀ (by norm_num)
  have hpow : (2 : ℚ) ^ 1074 < 10 ^ 324 := by
    have : 2 ^ 1074 < 10 ^ 324 := by decide +kernel
    exact_mod_cast this
  calc
    (10 : ℚ) ^ (-324 : Int) = 1 / 10 ^ 324 := by rw [zpow_neg, one_div]; rfl
    _ < 1 / 2 ^ 1074 := one_div_lt_one_div_of_lt (by positivity) hpow
    _ ≤ x.spacing := by rw [spacing]; gcongr
    _ ≤ x.absolute := le_mul_of_one_le_left x.spacing_pos.le hm

lemma low_bounds {v : ℚ} {scale : Int} {low : Nat} (hplace : 10 ^ (scale + 16) ≤ v)
    (hplace' : v < 10 ^ (scale + 17)) (hlow : decimal low scale ≤ v)
    (hhigh : v < decimal (low + 1) scale) : 10 ^ 16 ≤ low ∧ low < 10 ^ 17 := by
  have hten := ten_zpow_pos scale
  rw [zpow_add₀ (by norm_num), mul_comm] at hplace hplace'
  constructor
  · have : (10 : ℚ) ^ (16 : Int) * 10 ^ scale < (low + 1 : Nat) * 10 ^ scale :=
      lt_of_le_of_lt hplace hhigh
    have := lt_of_mul_lt_mul_right this hten.le
    exact Nat.le_of_lt_succ (by exact_mod_cast this)
  · have : (low : ℚ) * 10 ^ scale < 10 ^ (17 : Int) * 10 ^ scale := lt_of_le_of_lt hlow hplace'
    exact_mod_cast lt_of_mul_lt_mul_right this hten.le

/-- The numbers are further apart than the grid of seventeen digits, and twice as far above a power of
two. -/
lemma grid_lt_spacing {x : Binary64} {scale : Int} (hplace : 10 ^ (scale + 16) ≤ x.absolute) :
    10 ^ scale < x.spacing ∧ (x.parts.1 ≤ 2 ^ 52 → 10 ^ scale < x.spacing / 2) := by
  have hplace16 : 10 ^ 16 * 10 ^ scale ≤ x.parts.1 * x.spacing := by
    rw [zpow_add₀ (by norm_num), mul_comm] at hplace
    exact_mod_cast hplace
  have hu := x.spacing_pos
  have hten := ten_zpow_pos scale
  constructor
  · have hm : (x.parts.1 : ℚ) ≤ 2 ^ 53 := by exact_mod_cast x.parts_lt.le
    nlinarith
  · intro hpower
    have hm : (x.parts.1 : ℚ) ≤ 2 ^ 52 := by exact_mod_cast hpower
    nlinarith

/-- Of the two neighbours of a finite number on the grid of seventeen digits one reads back: the grid
is closer than the numbers are. -/
theorem onGrid?_seventeen {x : Binary64} (hx : x.isFinite) (hzero : x.isZero = false) :
    onGrid? x x.fraction.1 x.fraction.2 (firstPlace x.fraction.1 x.fraction.2) 17 ≠ none := by
  intro hnone
  have hd := x.fraction_den_pos
  have hn : 0 < x.fraction.1 := by
    refine Nat.pos_of_ne_zero fun h => ?_
    have := x.fraction_eq_absolute
    rw [h, Nat.cast_zero, zero_div] at this
    exact absurd this (absolute_pos hzero).ne
  obtain ⟨hplace, hplace'⟩ := firstPlace_spec hn hd
  obtain ⟨low, hlow, hhigh, hreads⟩ := exists_neighbours x (n := x.fraction.1) hd
    (firstPlace x.fraction.1 x.fraction.2) 17
  obtain ⟨hnot, hnot'⟩ := hreads hnone
  rw [x.fraction_eq_absolute] at *
  generalize firstPlace x.fraction.1 x.fraction.2 = first at *
  generalize hscale : first - ((17 - 1 : Nat) : Int) = scale at *
  obtain rfl : first = scale + 16 := by omega
  have hfirst : -325 < scale + 16 ∧ scale + 16 < 309 := by
    have h1 := ten_zpow_lt_iff.1 (lt_of_le_of_lt hplace (absolute_lt hx))
    have h2 := ten_zpow_lt_iff.1 (lt_trans (lt_absolute hzero) hplace')
    omega
  rw [show scale + 16 + 1 = scale + 17 by omega] at hplace'
  have hnext : decimal (low + 1) scale = decimal low scale + 10 ^ scale := by
    simp only [decimal, Nat.cast_add, Nat.cast_one]
    ring
  obtain ⟨hlow16, hlow17⟩ := low_bounds hplace hplace' hlow hhigh
  obtain ⟨hgrid, hgrid'⟩ := grid_lt_spacing hplace
  have hlength := length_toDigits_eq hlow16 hlow17
  have hlength' : (Nat.toDigits 10 (low + 1)).length = 17 ∨
      (Nat.toDigits 10 (low + 1)).length = 18 := by
    rcases Nat.lt_or_ge (low + 1) (10 ^ 17) with hlt | hge
    · exact .inl (length_toDigits_eq (by omega) hlt)
    · exact .inr (length_toDigits_eq hge (by omega))
  -- neither neighbour reads back, so neither is closer than half a spacing
  have hreads : ∀ hnormal : x.parts.2 = 0 ∨ 2 ^ 52 * x.spacing ≤ decimal low scale,
      x.absolute - x.spacing / 2 < decimal low scale → False := fun hnormal hnear =>
    hnot (magnitudeOf_of_close hx (by omega) (by omega) hnear (by linarith) hnormal)
  have hreads' : ∀ hnormal : x.parts.2 = 0 ∨ 2 ^ 52 * x.spacing ≤ decimal (low + 1) scale,
      decimal (low + 1) scale < x.absolute + x.spacing / 2 → False := fun hnormal hnear =>
    hnot' (magnitudeOf_of_close hx (by omega) (by omega) (by linarith) hnear hnormal)
  have hnormal : x.parts.2 = 0 ∨ 2 ^ 52 * x.spacing ≤ x.absolute :=
    x.parts_normal.imp_right fun hle => by
      have : (2 : ℚ) ^ 52 ≤ x.parts.1 := by exact_mod_cast hle
      exact mul_le_mul_of_nonneg_right this x.spacing_pos.le
  by_cases hpower : x.parts.1 ≤ 2 ^ 52
  · -- the lower neighbour may be too far away
    have := hgrid' hpower
    exact hreads' (hnormal.imp_right fun h => by linarith) (by linarith)
  · have hm' : (2 : ℚ) ^ 52 + 1 ≤ x.parts.1 := by exact_mod_cast Nat.lt_of_not_le hpower
    have habsolute : 2 ^ 52 * x.spacing + x.spacing ≤ x.absolute := by
      have := mul_le_mul_of_nonneg_right hm' x.spacing_pos.le
      rw [absolute]
      linarith
    rcases le_or_gt (x.absolute - decimal low scale) (10 ^ scale / 2) with hnear | hfar
    · exact hreads (.inr (by linarith)) (by linarith)
    · exact hreads' (hnormal.imp_right fun h => by linarith) (by linarith)

lemma exists_mem_digits {x : Binary64} (hx : x.isFinite) (hzero : x.isZero = false) :
    ∃ count first, onGrid? x x.fraction.1 x.fraction.2 first count = some x.shortest := by
  simp only [shortest]
  cases hfound : (List.range 17).findSome? fun k => onGrid? x x.fraction.1 x.fraction.2
      (firstPlace x.fraction.1 x.fraction.2) (k + 1) with
  | none =>
    rw [List.findSome?_eq_none_iff] at hfound
    exact absurd (hfound 16 (by simp)) (onGrid?_seventeen hx hzero)
  | some r =>
    obtain ⟨k, -, hk⟩ := List.exists_of_findSome?_eq_some hfound
    exact ⟨k + 1, _, hk⟩

theorem magnitudeOf_shortest {x : Binary64} (hx : x.isFinite) (hzero : x.isZero = false) :
    magnitudeOf x.shortest.1 x.shortest.2 = x.magnitude := by
  obtain ⟨count, first, h⟩ := exists_mem_digits hx hzero
  exact magnitudeOf_of_onGrid? h

theorem shortest_pos {x : Binary64} (hx : x.isFinite) (hzero : x.isZero = false) :
    0 < x.shortest.1 := by
  refine Nat.pos_of_ne_zero fun h => ?_
  have hread := magnitudeOf_shortest hx hzero
  rw [h, magnitudeOf, if_pos rfl] at hread
  simp [isZero, ← hread] at hzero

end CommentBlocks.Binary64
