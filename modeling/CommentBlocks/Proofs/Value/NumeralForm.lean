import CommentBlocks.Proofs.Value.Documented

/-!
Which texts are numerals. The recogniser cuts a text at its first exponent mark and counts digits and
points on the left of it. It takes exactly the texts that are written like a number, and of those the ones
without point and exponent that fit 64 bits are read as integers.
-/

namespace CommentBlocks.Numeral

variable {cs whole places : List Char} {i : Int}

lemma isMantissa_append (hwhole : ∀ c ∈ whole, c.isDigit = true)
    (hplaces : places = [] ∨ ∃ ds, places = '.' :: ds ∧ ∀ c ∈ ds, c.isDigit = true)
    (hdigit : ∃ c ∈ whole ++ places, c.isDigit = true) : isMantissa (whole ++ places) = true := by
  have hnone : ∀ {ds : List Char}, (∀ c ∈ ds, c.isDigit = true) → ds.count '.' = 0 := fun hds =>
    List.count_eq_zero.2 fun hmem => absurd (hds '.' hmem) (by decide)
  have hchars : ∀ c ∈ places, c.isDigit = true ∨ c = '.' := by
    rcases hplaces with rfl | ⟨ds, rfl, hds⟩
    · simp
    · exact List.forall_mem_cons.2 ⟨.inr rfl, fun c hc => .inl (hds c hc)⟩
  have hpoints : places.count '.' ≤ 1 := by
    rcases hplaces with rfl | ⟨ds, rfl, hds⟩
    · simp
    · rw [List.count_cons_self, hnone hds]
  simp only [isMantissa, isDigit_eq, Bool.and_eq_true, List.all_eq_true, Bool.or_eq_true, beq_iff_eq,
    List.any_eq_true, decide_eq_true_eq, List.count_append, hnone hwhole]
  refine ⟨⟨fun c hc => ?_, hdigit⟩, by omega⟩
  rcases List.mem_append.1 hc with hc | hc
  · exact .inl (hwhole c hc)
  · exact hchars c hc

lemma IsInteger.isExponent (h : IsInteger cs i) : isExponent cs = true := by
  obtain ⟨negative, ds, hsign, hne, hds, -⟩ := h.exists_digits
  simpa [Numeral.isExponent, hsign, hne] using hds

/-- An exponent starts with its mark, and the rest of it is a row of digits with a sign. -/
lemma IsExponent.mark (h : IsExponent cs) :
    (∀ c ∈ cs.head?, isExponentMark c = true) ∧ cs.tail?.all isExponent = true := by
  obtain ⟨mark, e, i, rfl, hmark, he⟩ := h
  refine ⟨?_, by simpa using he.isExponent⟩
  rintro c ⟨⟩
  rcases hmark with rfl | rfl <;> rfl

lemma isNumeral_of_isNumber (h : IsNumber cs) : isNumeral cs = true := by
  obtain ⟨negative, sg, whole, places, exponent, rfl, hsign, hwhole, hplaces, hdigit, hexponent⟩ := h
  have hmantissa := isMantissa_append hwhole hplaces hdigit
  have htail : (∀ c ∈ exponent.head?, isExponentMark c = true) ∧
      exponent.tail?.all isExponent = true := by
    rcases hexponent with rfl | hexponent
    · simp
    · exact hexponent.mark
  have hcut := cutExponent_mantissa hmantissa exponent htail.1
  simp only [isNumeral, sign_append hsign (ne_sign_head hmantissa exponent), hcut, hmantissa, htail.2,
    Bool.and_self]

lemma inRange_of_value? (h : value? cs = some (.int i)) : inRange i = true := by
  simp only [value?] at h
  split at h
  · simp at h
  · split at h
    · next j hj =>
      obtain rfl : j = i := by simpa using h
      simp only [integer?] at hj
      split at hj
      · simp at hj
      · split at hj
        · next hrange => cases hj; exact hrange
        · simp at hj
    · split at h <;> simp at h

/-- The numerals are the texts that are written like a number: an optional sign, digits with at most one
point, and an optional exponent. A row of digits with an optional sign is read as the integer that it
stands for exactly if this fits 64 bits. -/
theorem isNumeral_iff_isNumber : (∀ cs, isNumeral cs = true ↔ IsNumber cs) ∧
    ∀ cs i, IsInteger cs i → (value? cs = some (.int i) ↔ -2 ^ 63 ≤ i ∧ i < 2 ^ 63) :=
  ⟨fun _ => ⟨isNumber_of_isNumeral, isNumeral_of_isNumber⟩, fun _ _ h =>
    ⟨fun hvalue => inRange_iff.1 (inRange_of_value? hvalue), fun ⟨hlow, hhigh⟩ =>
      value?_of_isInteger h hlow hhigh⟩⟩

/-- The lowest integer with zeros in front, the one below it, and a number with its only digits behind the
point. -/
theorem isNumeral_iff_isNumber_lowest :
    IsInteger "-009223372036854775808".toList (-2 ^ 63) ∧
      value? "-009223372036854775808".toList = some (.int (-2 ^ 63)) ∧
      IsInteger "-9223372036854775809".toList (-2 ^ 63 - 1) ∧
      value? "-9223372036854775809".toList ≠ some (.int (-2 ^ 63 - 1)) ∧
      IsNumber "+.5E-07".toList ∧ ¬ IsNumber "1e5e5".toList := by
  have hdigits : "009223372036854775808".toList.all Char.isDigit = true := by decide
  have hdigits' : "9223372036854775809".toList.all Char.isDigit = true := by decide
  have hlowest : IsInteger "-009223372036854775808".toList (-2 ^ 63) :=
    .digits .minus (show "009223372036854775808".toList ≠ [] by simp) (List.all_eq_true.1 hdigits)
  have hbelow : IsInteger "-9223372036854775809".toList (-2 ^ 63 - 1) :=
    .digits .minus (show "9223372036854775809".toList ≠ [] by simp) (List.all_eq_true.1 hdigits')
  refine ⟨hlowest, (isNumeral_iff_isNumber.2 _ _ hlowest).2 (by decide), hbelow, fun hvalue => ?_,
    (isNumeral_iff_isNumber.1 _).1 (by decide), fun h => ?_⟩
  · exact absurd ((isNumeral_iff_isNumber.2 _ _ hbelow).1 hvalue).1 (by decide)
  · exact absurd ((isNumeral_iff_isNumber.1 _).2 h) (by decide)

end CommentBlocks.Numeral
