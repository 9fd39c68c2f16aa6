import CommentBlocks.Proofs.Decimal.Digits
import CommentBlocks.Proofs.Text.Trimming
import CommentBlocks.Value.Numeral
import CommentBlocks.Value.Printer
import Mathlib.Data.List.TakeWhile
import Mathlib.Tactic.Ring

/-!
Numbers are read back from their text: integers of 64 bits from their digits, and finite floating
point numbers from any layout of their shortest digits.
-/

namespace CommentBlocks.Numeral

open Text (trim_eq_self not_isBlank_of_ascii)
open Unicode (isBlank)

/-! ### Digits -/

lemma isDigit_iff {c : Char} : isDigit c = true ↔ 48 ≤ c.toNat ∧ c.toNat ≤ 57 := by
  simp only [isDigit, Bool.and_eq_true, decide_eq_true_eq, Char.le_def, UInt32.le_iff_toNat_le]
  exact Iff.rfl

lemma isDigit_eq (c : Char) : isDigit c = c.isDigit := by
  rw [Bool.eq_iff_iff, isDigit_iff, Char.isDigit_iff_toNat]
  rfl

lemma not_isBlank_of_isDigit {c : Char} (h : isDigit c = true) : isBlank c = false := by
  rw [isDigit_iff] at h
  exact not_isBlank_of_ascii (by omega) (by omega)

lemma isDigit_of_mem_toDigits {c : Char} {n : Nat} (h : c ∈ Nat.toDigits 10 n) :
    isDigit c = true := by
  rw [isDigit_eq]
  exact Nat.isDigit_of_mem_toDigits (by decide) (by decide) h

lemma ofDigits_eq (cs : List Char) : ofDigits cs = Nat.ofDigitChars 10 cs 0 := rfl

@[simp] lemma ofDigits_toDigits (n : Nat) : ofDigits (Nat.toDigits 10 n) = n := by
  rw [ofDigits_eq, Nat.ofDigitChars_ten_toDigits]

lemma ofDigits_append_zeros (cs : List Char) (n : Nat) :
    ofDigits (cs ++ List.replicate n '0') = 10 ^ n * ofDigits cs := by
  rw [ofDigits_eq, Nat.ofDigitChars_append, Nat.ofDigitChars_replicate_zero, ← ofDigits_eq]

lemma ofDigits_zeros_append (n : Nat) (cs : List Char) :
    ofDigits (List.replicate n '0' ++ cs) = ofDigits cs := by
  rw [ofDigits_eq, Nat.ofDigitChars_append, Nat.ofDigitChars_replicate_zero, Nat.mul_zero,
    ← ofDigits_eq]

/-! ### Reading a numeral by its parts -/

/-- The text of a numeral: a minus sign if it is negative, the mantissa and the exponent. -/
def written (negative : Bool) (mantissa : List Char) (exponent : Option (List Char)) : List Char :=
  (if negative then ['-'] else []) ++ mantissa ++ (exponent.map ('e' :: ·)).getD []

def power : Option (List Char) → Int
  | none => 0
  | some e => withSign (sign e).1 (ofDigits (sign e).2)

section Written

variable {negative : Bool} {mantissa : List Char} {exponent : Option (List Char)}

lemma mem_mantissa {c : Char} (h : isMantissa mantissa = true) (hc : c ∈ mantissa) :
    isDigit c = true ∨ c = '.' := by
  simp only [isMantissa, Bool.and_eq_true, List.all_eq_true, Bool.or_eq_true, beq_iff_eq] at h
  exact h.1.1 c hc

lemma mantissa_ne_nil (h : isMantissa mantissa = true) : mantissa ≠ [] := by
  rintro rfl
  simp [isMantissa] at h

lemma not_isExponentMark {c : Char} (h : isDigit c = true ∨ c = '.') :
    isExponentMark c = false := by
  rcases h with h | rfl
  · rw [isDigit_iff] at h
    rw [Bool.eq_false_iff]
    intro hmark
    simp only [isExponentMark, Bool.or_eq_true, beq_iff_eq] at hmark
    rcases hmark with rfl | rfl <;> simp at h
  · rfl

lemma sign_of_ne {cs : List Char} (h : ∀ c ∈ cs.head?, c ≠ '-' ∧ c ≠ '+') : sign cs = (false, cs) := by
  cases cs with
  | nil => rfl
  | cons c cs =>
    obtain ⟨hminus, hplus⟩ := h c (by simp)
    simp only [sign]
    split
    · next heq => cases heq; exact absurd rfl hminus
    · next heq => cases heq; exact absurd rfl hplus
    · rfl

lemma ne_sign {c : Char} (h : isDigit c = true ∨ c = '.') : c ≠ '-' ∧ c ≠ '+' := by
  rcases h with h | rfl
  · rw [isDigit_iff] at h
    constructor <;> (rintro rfl; simp at h)
  · decide

lemma ne_sign_head (h : isMantissa mantissa = true) (tail : List Char) :
    ∀ c ∈ (mantissa ++ tail).head?, c ≠ '-' ∧ c ≠ '+' := by
  intro c hc
  obtain ⟨d, ds, rfl⟩ := List.exists_cons_of_ne_nil (mantissa_ne_nil h)
  obtain rfl : d = c := by simpa using hc
  exact ne_sign (mem_mantissa h List.mem_cons_self)

lemma sign_written (h : isMantissa mantissa = true) :
    sign (written negative mantissa exponent) =
      (negative, mantissa ++ (exponent.map ('e' :: ·)).getD []) := by
  cases negative with
  | true => simp [written, sign]
  | false =>
    simp only [written, Bool.false_eq_true, if_false, List.nil_append]
    exact sign_of_ne (ne_sign_head h _)

/-- The first exponent mark is the one behind the mantissa. -/
lemma cutExponent_mantissa (h : isMantissa mantissa = true) (tail : List Char)
    (htail : ∀ c ∈ tail.head?, isExponentMark c = true) :
    cutExponent (mantissa ++ tail) = (mantissa, tail.tail?) := by
  have hall : ∀ c ∈ mantissa, (!isExponentMark c) = true := fun c hc => by
    rw [not_isExponentMark (mem_mantissa h hc)]
    rfl
  cases tail with
  | nil =>
    have hdrop : mantissa.dropWhile (!isExponentMark ·) = [] := List.dropWhile_eq_nil_iff.2 hall
    simp [cutExponent, hdrop]
  | cons mark e =>
    have hmark : isExponentMark mark = true := htail mark rfl
    simp [cutExponent, List.dropWhile_append_of_pos hall, List.takeWhile_append_of_pos hall, hmark]

lemma cutExponent_written (h : isMantissa mantissa = true) :
    cutExponent (mantissa ++ (exponent.map ('e' :: ·)).getD []) = (mantissa, exponent) := by
  cases exponent with
  | none => exact cutExponent_mantissa h [] (by simp)
  | some e => exact cutExponent_mantissa h ('e' :: e) (by rintro c ⟨⟩; rfl)

lemma trim_written (h : isMantissa mantissa = true) (he : exponent.all isExponent = true) :
    Text.trim (written negative mantissa exponent) = written negative mantissa exponent := by
  have hblank : ∀ c ∈ mantissa, isBlank c = false := fun c hc => by
    rcases mem_mantissa h hc with hd | rfl
    · exact not_isBlank_of_isDigit hd
    · decide
  obtain ⟨d, ds, hmantissa⟩ := List.exists_cons_of_ne_nil (mantissa_ne_nil h)
  apply trim_eq_self
  · intro c hc
    cases negative with
    | true =>
      obtain rfl : '-' = c := by simpa [written] using hc
      decide
    | false =>
      obtain rfl : d = c := by simpa [written, hmantissa] using hc
      exact hblank d (by simp [hmantissa])
  · intro c hc
    cases exponent with
    | none =>
      refine hblank c (List.mem_of_getLast? ?_)
      simpa [written, List.getLast?_append, hmantissa] using hc
    | some e =>
      simp only [Option.all_some, isExponent, Bool.and_eq_true, Bool.not_eq_true',
        List.isEmpty_eq_false_iff, List.all_eq_true] at he
      have hsuffix : (sign e).2 <:+ e := by
        simp only [sign]
        split <;> simp
      have hlast : c ∈ (sign e).2.getLast? := by
        obtain ⟨front, hfront⟩ := hsuffix
        obtain ⟨x, xs, hx⟩ := List.exists_cons_of_ne_nil he.1
        have : c ∈ (front ++ (sign e).2).getLast? := by
          rw [hfront]
          have hne : e ≠ [] := by rintro rfl; simp [sign] at hx
          obtain ⟨y, ys, rfl⟩ := List.exists_cons_of_ne_nil hne
          simpa [written, List.getLast?_append] using hc
        rw [hx, List.getLast?_append] at this
        rw [hx]
        simpa using this
      exact not_isBlank_of_isDigit (he.2 c (List.mem_of_getLast? hlast))

lemma isNumeral_written (h : isMantissa mantissa = true) (he : exponent.all isExponent = true) :
    isNumeral (written negative mantissa exponent) = true := by
  simp only [isNumeral, sign_written h, cutExponent_written h, h, he, Bool.and_self]

lemma value?_written (h : isMantissa mantissa = true) (he : exponent.all isExponent = true)
    (hkind : '.' ∈ mantissa ∨ exponent ≠ none) {x : Binary64}
    (hx : Binary64.ofDecimal negative
      (ofDigits (mantissa.takeWhile (· != '.') ++ (mantissa.dropWhile (· != '.')).drop 1))
      (power exponent - ((mantissa.dropWhile (· != '.')).drop 1).length) = x)
    (hfinite : x.isFinite = true) :
    value? (written negative mantissa exponent) = some (.float x) := by
  have hinteger : integer? (written negative mantissa exponent) = none := by
    have hmark : ∃ c ∈ mantissa ++ (exponent.map ('e' :: ·)).getD [], isDigit c = false := by
      rcases hkind with hpoint | hexponent
      · exact ⟨'.', by simp [hpoint], by decide⟩
      · obtain ⟨e, rfl⟩ := Option.ne_none_iff_exists'.1 hexponent
        exact ⟨'e', by simp, by decide⟩
    simp only [integer?, sign_written h]
    rw [if_pos]
    simpa only [Bool.or_eq_true, Bool.not_eq_true', List.all_eq_false, Bool.not_eq_true] using
      .inr hmark
  have hfloat : float (written negative mantissa exponent) = x := by
    rw [← hx]
    simp only [float, sign_written h, cutExponent_written h]
    cases exponent <;> rfl
  simp only [value?, trim_written h he, isNumeral_written h he, hinteger, hfloat, hfinite,
    Bool.not_true, Bool.false_eq_true, if_false, if_true]

end Written

/-! ### Integers -/

lemma isMantissa_digits {cs : List Char} (h : ∀ c ∈ cs, isDigit c = true) (hne : cs ≠ []) :
    isMantissa cs = true := by
  obtain ⟨c, rest, rfl⟩ := List.exists_cons_of_ne_nil hne
  have hcount : (c :: rest).count '.' = 0 :=
    List.count_eq_zero.2 fun hmem => absurd (h '.' hmem) (by decide)
  simp only [isMantissa, Bool.and_eq_true, List.all_eq_true, Bool.or_eq_true, decide_eq_true_eq]
  exact ⟨⟨fun d hd => .inl (h d hd), List.any_eq_true.2 ⟨c, List.mem_cons_self, h c (by simp)⟩⟩,
    by omega⟩

lemma isMantissa_point {whole places : List Char} (hw : ∀ c ∈ whole, isDigit c = true)
    (hne : whole ≠ []) (hp : ∀ c ∈ places, isDigit c = true) :
    isMantissa (whole ++ '.' :: places) = true := by
  obtain ⟨c, rest, rfl⟩ := List.exists_cons_of_ne_nil hne
  have hcount : ∀ cs : List Char, (∀ c ∈ cs, isDigit c = true) → cs.count '.' = 0 := fun cs h =>
    List.count_eq_zero.2 fun hmem => absurd (h '.' hmem) (by decide)
  simp only [isMantissa, Bool.and_eq_true, List.all_eq_true, Bool.or_eq_true, decide_eq_true_eq,
    List.count_append, List.count_cons_self, hcount _ hw, hcount _ hp, beq_iff_eq]
  refine ⟨⟨fun d hd => ?_, List.any_eq_true.2 ⟨c, by simp, hw c (by simp)⟩⟩, by decide⟩
  rcases List.mem_append.1 hd with hd | hd
  · exact .inl (hw d hd)
  · rcases List.mem_cons.1 hd with rfl | hd
    · exact .inr rfl
    · exact .inl (hp d hd)

lemma toList_toString (i : Int) :
    (toString i).toList = written (decide (i < 0)) (Nat.toDigits 10 i.natAbs) none := by
  rw [Int.toString_eq_repr, Int.repr_eq_if]
  split
  · next h =>
    simp [written, Nat.toList_repr, Int.not_lt.2 h]
    congr 1
    omega
  · next h =>
    simp [written, Nat.toList_repr, Int.not_le.1 h]
    congr 1
    omega

lemma withSign_natAbs (i : Int) : withSign (decide (i < 0)) i.natAbs = i := by
  by_cases h : i < 0
  · simp only [withSign, h, decide_true, if_true]
    omega
  · simp only [withSign, h, decide_false, Bool.false_eq_true, if_false]
    omega

/-- An integer of 64 bits is read back from its digits. -/
theorem value?_toString {i : Int} (h : inRange i = true) :
    value? (toString i).toList = some (.int i) := by
  have hdigits : ∀ c ∈ Nat.toDigits 10 i.natAbs, isDigit c = true := fun c hc =>
    isDigit_of_mem_toDigits hc
  have hmantissa := isMantissa_digits hdigits Nat.toDigits_ne_nil
  have hinteger : integer? (toString i).toList = some i := by
    rw [toList_toString]
    simp only [integer?, sign_written hmantissa, Option.map_none, Option.getD_none, List.append_nil,
      ofDigits_toDigits, withSign_natAbs, h, if_true]
    rw [if_neg]
    simpa [Nat.toDigits_ne_nil] using hdigits
  have htrim : Text.trim (toString i).toList = (toString i).toList := by
    rw [toList_toString, trim_written hmantissa rfl]
  have hnumeral : isNumeral (toString i).toList = true := by
    rw [toList_toString, isNumeral_written hmantissa rfl]
  simp only [value?, htrim, hnumeral, hinteger, Bool.not_true, Bool.false_eq_true, if_false]

/-! ### Floating point numbers -/

lemma ne_point {c : Char} (h : isDigit c = true) : (c != '.') = true := by
  rw [bne_iff_ne]
  rintro rfl
  exact absurd h (by decide)

lemma value?_point {negative : Bool} (whole places : List Char) (exponent : Option (List Char))
    (hw : ∀ c ∈ whole, isDigit c = true) (hne : whole ≠ []) (hp : ∀ c ∈ places, isDigit c = true)
    (he : exponent.all isExponent = true) {x : Binary64} (hfinite : x.isFinite = true)
    (hsign : x.negative = negative) {k : Nat} {scale : Int}
    (hx : Binary64.magnitudeOf k scale = x.magnitude)
    (hvalue : Binary64.decimal (ofDigits (whole ++ places)) (power exponent - places.length) =
      Binary64.decimal k scale) :
    value? (written negative (whole ++ '.' :: places) exponent) = some (.float x) := by
  have hall : ∀ c ∈ whole, (c != '.') = true := fun c hc => ne_point (hw c hc)
  have htake : (whole ++ '.' :: places).takeWhile (· != '.') = whole := by
    simp [List.takeWhile_append_of_pos hall]
  have hdrop : ((whole ++ '.' :: places).dropWhile (· != '.')).drop 1 = places := by
    simp [List.dropWhile_append_of_pos hall]
  refine value?_written (isMantissa_point hw hne hp) he (.inl (by simp)) ?_ hfinite
  rw [htake, hdrop, Binary64.ofDecimal, Binary64.magnitudeOf_congr hvalue, hx, ← hsign]

lemma value?_exponent {negative : Bool} {whole exponent : List Char}
    (hw : ∀ c ∈ whole, isDigit c = true) (hne : whole ≠ []) (he : isExponent exponent = true)
    {x : Binary64} (hfinite : x.isFinite = true) (hsign : x.negative = negative) {k : Nat}
    {scale : Int} (hx : Binary64.magnitudeOf k scale = x.magnitude)
    (hvalue : Binary64.decimal (ofDigits whole) (power (some exponent)) = Binary64.decimal k scale) :
    value? (written negative whole (some exponent)) = some (.float x) := by
  have hall : ∀ c ∈ whole, (c != '.') = true := fun c hc => ne_point (hw c hc)
  have htake : whole.takeWhile (· != '.') = whole := List.takeWhile_eq_self_iff.2 hall
  have hdrop : whole.dropWhile (· != '.') = [] := List.dropWhile_eq_nil_iff.2 hall
  refine value?_written (isMantissa_digits hw hne) (by simpa using he) (.inr (by simp)) ?_ hfinite
  rw [htake, hdrop, List.drop_nil,
    List.append_nil, List.length_nil, Nat.cast_zero, Int.sub_zero, Binary64.ofDecimal,
    Binary64.magnitudeOf_congr hvalue, hx, ← hsign]

/-- The exponent of a layout stands for the place of the first digit. -/
lemma isExponent_place (first : Int) :
    isExponent ((if first < 0 then ['-'] else ['+']) ++ Nat.toDigits 10 first.natAbs) = true ∧
    power (some ((if first < 0 then ['-'] else ['+']) ++ Nat.toDigits 10 first.natAbs)) = first := by
  have hsign : sign ((if first < 0 then ['-'] else ['+']) ++ Nat.toDigits 10 first.natAbs) =
      (decide (first < 0), Nat.toDigits 10 first.natAbs) := by
    split <;> simp [sign, *]
  constructor
  · simp only [isExponent, hsign, Bool.and_eq_true, Bool.not_eq_true', List.isEmpty_eq_false_iff,
      List.all_eq_true]
    exact ⟨Nat.toDigits_ne_nil, fun c hc => isDigit_of_mem_toDigits hc⟩
  · rw [power, hsign, ofDigits_toDigits, withSign_natAbs]

lemma exists_significant (k : Nat) (hk : 0 < k) :
    ∃ zeros, Nat.toDigits 10 k =
        ((Nat.toDigits 10 k).reverse.dropWhile (· == '0')).reverse ++ List.replicate zeros '0' ∧
      ((Nat.toDigits 10 k).reverse.dropWhile (· == '0')).reverse ≠ [] := by
  have hsplit := List.takeWhile_append_dropWhile (p := (· == '0')) (l := (Nat.toDigits 10 k).reverse)
  have hzeros : (Nat.toDigits 10 k).reverse.takeWhile (· == '0') =
      List.replicate ((Nat.toDigits 10 k).reverse.takeWhile (· == '0')).length '0' :=
    List.eq_replicate_of_mem fun c hc => by
      simpa using List.all_eq_true.1 (List.all_takeWhile (p := (· == '0'))) c hc
  generalize ((Nat.toDigits 10 k).reverse.takeWhile (· == '0')).length = zeros at hzeros
  rw [hzeros] at hsplit
  have hdigits := congrArg List.reverse hsplit
  rw [List.reverse_append, List.reverse_replicate, List.reverse_reverse] at hdigits
  refine ⟨zeros, hdigits.symm, fun hnil => ?_⟩
  rw [hnil, List.nil_append] at hdigits
  have := ofDigits_toDigits k
  rw [← hdigits, ← List.append_nil (List.replicate zeros '0'), ofDigits_zeros_append] at this
  simp [ofDigits] at this
  omega

lemma isDigit_of_mem_zeros {n : Nat} {c : Char} (hc : c ∈ List.replicate n '0') :
    isDigit c = true := by
  rw [List.eq_of_mem_replicate hc]
  rfl

section Plain

variable {x : Binary64} (hfinite : x.isFinite = true) {digits : List Char} {first : Int}
variable (hd : ∀ c ∈ digits, isDigit c = true) (hne : digits ≠ [])
variable (hx : Binary64.magnitudeOf (ofDigits digits) (first + 1 - digits.length) = x.magnitude)

include hfinite hd hx

lemma value?_plain_of_neg (hneg : first < 0) :
    value? ((if x.negative then ['-'] else []) ++
      (Value.numberLayout.plain digits first).toList) = some (.float x) := by
  rw [NumberLayout.plain, if_pos hneg]
  have hread := value?_point ['0'] (List.replicate (-first - 1).toNat '0' ++ digits) none
    (by simp [isDigit]) (by simp)
    (fun c hc => (List.mem_append.1 hc).elim isDigit_of_mem_zeros (hd c)) rfl hfinite rfl hx
  have hvalue : ofDigits (['0'] ++ (List.replicate (-first - 1).toNat '0' ++ digits)) =
      ofDigits digits := by
    rw [show ['0'] = List.replicate 1 '0' from rfl, ofDigits_zeros_append, ofDigits_zeros_append]
  have hscale : power none - ((List.replicate (-first - 1).toNat '0' ++ digits).length : Int) =
      first + 1 - digits.length := by
    simp only [power, List.length_append, List.length_replicate]
    omega
  simpa [written] using hread (by rw [hvalue, hscale])

include hne

lemma value?_plain_of_le (hneg : ¬ first < 0) (hlength : digits.length ≤ first.toNat + 1) :
    value? ((if x.negative then ['-'] else []) ++
      (Value.numberLayout.plain digits first).toList) = some (.float x) := by
  rw [NumberLayout.plain, if_neg hneg, if_pos hlength]
  have hread := value?_point
    (digits ++ List.replicate (first.toNat + 1 - digits.length) '0') ['0'] none
    (fun c hc => (List.mem_append.1 hc).elim (hd c) isDigit_of_mem_zeros) (by simp [hne])
    (by simp [isDigit]) rfl hfinite rfl hx
  have hvalue : ofDigits (digits ++ List.replicate (first.toNat + 1 - digits.length) '0' ++ ['0']) =
      10 ^ (first.toNat + 1 - digits.length + 1) * ofDigits digits := by
    rw [List.append_assoc, ← List.replicate_succ', ofDigits_append_zeros]
  have hscale : first + 1 - digits.length =
      ((first.toNat + 1 - digits.length + 1 : Nat) : Int) - 1 := by
    omega
  have hdecimal : Binary64.decimal (ofDigits (digits ++
      List.replicate (first.toNat + 1 - digits.length) '0' ++ ['0'])) (power none - ['0'].length) =
      Binary64.decimal (ofDigits digits) (first + 1 - digits.length) := by
    rw [hvalue, hscale, Binary64.decimal, Binary64.decimal, zpow_sub_one₀ (by norm_num), zpow_natCast]
    push_cast
    simp [power]
    ring
  simpa [written, Value.numberLayout] using hread hdecimal

lemma value?_plain_of_lt (hneg : ¬ first < 0) (hlength : ¬ digits.length ≤ first.toNat + 1) :
    value? ((if x.negative then ['-'] else []) ++
      (Value.numberLayout.plain digits first).toList) = some (.float x) := by
  rw [NumberLayout.plain, if_neg hneg, if_neg hlength]
  have hread := value?_point (digits.take (first.toNat + 1)) (digits.drop (first.toNat + 1)) none
    (fun c hc => hd c (List.mem_of_mem_take hc)) (by simp [hne])
    (fun c hc => hd c (List.mem_of_mem_drop hc)) rfl hfinite rfl hx
  have hscale : power none - ((digits.drop (first.toNat + 1)).length : Int) =
      first + 1 - digits.length := by
    simp only [power, List.length_drop]
    omega
  simpa [written] using hread (by rw [List.take_append_drop, hscale])

lemma value?_plain :
    value? ((if x.negative then ['-'] else []) ++
      (Value.numberLayout.plain digits first).toList) = some (.float x) := by
  by_cases hneg : first < 0
  · exact value?_plain_of_neg hfinite hd hx hneg
  · by_cases hlength : digits.length ≤ first.toNat + 1
    · exact value?_plain_of_le hfinite hd hne hx hneg hlength
    · exact value?_plain_of_lt hfinite hd hne hx hneg hlength

end Plain

lemma value?_scientific {x : Binary64} (hfinite : x.isFinite = true) {digits : List Char}
    {first : Int} (hd : ∀ c ∈ digits, isDigit c = true) (hne : digits ≠ [])
    (hx : Binary64.magnitudeOf (ofDigits digits) (first + 1 - digits.length) = x.magnitude) :
    value? ((if x.negative then ['-'] else []) ++
      (Value.numberLayout.scientific digits first).toList) = some (.float x) := by
  obtain ⟨he, hpower⟩ := isExponent_place first
  have hsign : (if first < 0 then "-" else "+").toList = if first < 0 then ['-'] else ['+'] := by
    split <;> rfl
  have hplace : (toString first.natAbs).toList = Nat.toDigits 10 first.natAbs := Nat.toList_repr
  obtain ⟨c, cs, rfl⟩ := List.exists_cons_of_ne_nil hne
  cases cs with
  | nil =>
    have hread := value?_exponent hd hne he hfinite rfl hx
    simpa [written, NumberLayout.scientific, Value.numberLayout, hsign, hplace] using
      hread (by rw [hpower]; simp)
  | cons d ds =>
    have hread := value?_point [c] (d :: ds) (some _) (by simpa using hd c (by simp)) (by simp)
      (fun c hc => hd c (List.mem_cons_of_mem _ hc)) (by simpa using he) hfinite rfl hx
    simpa [written, NumberLayout.scientific, Value.numberLayout, hsign, hplace] using
      hread (by rw [hpower]; simp)

theorem value?_text {x : Binary64} (h : x.isFinite = true) :
    value? (Value.numberLayout.text x).toList = some (.float x) := by
  have hsign : (if x.negative then "-" else "").toList = if x.negative then ['-'] else [] := by
    split <;> rfl
  simp only [NumberLayout.text]
  split
  · next hzero =>
    have hmagnitude : Binary64.magnitudeOf 0 0 = x.magnitude := by
      simpa [Binary64.magnitudeOf, eq_comm] using beq_iff_eq.1 hzero
    have hread := value?_point ['0'] ['0'] none (by simp [isDigit]) (by simp) (by simp [isDigit]) rfl h
      rfl hmagnitude
    simpa [written, hsign, Value.numberLayout] using
      hread (by simp [Binary64.decimal, ofDigits, digitValue])
  · next hzero =>
    have hzero := Bool.eq_false_iff.2 hzero
    have hread := Binary64.magnitudeOf_shortest h hzero
    obtain ⟨zeros, hall, hne⟩ := exists_significant x.shortest.1 (Binary64.shortest_pos h hzero)
    have hdigits : ∀ c ∈ ((Nat.toDigits 10 x.shortest.1).reverse.dropWhile (· == '0')).reverse,
        isDigit c = true := fun c hc =>
      isDigit_of_mem_toDigits (n := x.shortest.1) (by rw [hall]; exact List.mem_append_left _ hc)
    generalize ((Nat.toDigits 10 x.shortest.1).reverse.dropWhile (· == '0')).reverse = digits at *
    have hlength := congrArg List.length hall
    rw [List.length_append, List.length_replicate] at hlength
    have hpos := List.length_pos_iff.2 hne
    -- the zeros at the end only move the last place
    have hvalue : Binary64.magnitudeOf (ofDigits digits)
        (x.shortest.2 + ((Nat.toDigits 10 x.shortest.1).length - 1 : Nat) + 1 - digits.length) =
        x.magnitude := by
      rw [← hread]
      apply Binary64.magnitudeOf_congr
      have hk : x.shortest.1 = 10 ^ zeros * ofDigits digits := by
        rw [← ofDigits_append_zeros, ← hall, ofDigits_toDigits]
      rw [show x.shortest.2 + ((Nat.toDigits 10 x.shortest.1).length - 1 : Nat) + 1 - digits.length =
        x.shortest.2 + (zeros : Int) by omega, hk, Binary64.decimal, Binary64.decimal,
        zpow_add₀ (by norm_num), zpow_natCast]
      push_cast
      ring
    split
    · have := value?_plain h hdigits hne hvalue
      simpa [hsign] using this
    · have := value?_scientific h hdigits hne hvalue
      simpa [hsign] using this

end CommentBlocks.Numeral
