import CommentBlocks.Tag.Pattern
import Mathlib.Data.List.Infix
import Mathlib.Data.List.TakeWhile

/-!
When a tag can be read at a place, and what of the text behind the tag the reader looks at.

A tag found in a text is found again, at the same place, when other text is put behind it. The two
texts must agree on what the tag can see of them: the first character where tags run to the end of
the line, otherwise that some closing delimiter is still to come.
-/

namespace CommentBlocks.Text

lemma isSome_after?_iff {piece cs : List Char} : (after? piece cs).isSome ↔ piece <+: cs := by
  rw [Option.isSome_iff_exists]
  exact ⟨fun ⟨r, h⟩ => ⟨r, (after?_eq_some_iff.1 h).symm⟩,
    fun ⟨r, h⟩ => ⟨r, after?_eq_some_iff.2 h.symm⟩⟩

lemma isSome_cut?_iff {piece cs : List Char} : (cut? piece cs).isSome ↔ piece <:+: cs := by
  constructor
  · intro h
    obtain ⟨⟨pre, rest⟩, h⟩ := Option.isSome_iff_exists.1 h
    exact ⟨pre, rest, (eq_of_cut? h).symm⟩
  · intro h
    induction cs with
    | nil => simp [cut?, List.infix_nil.1 h]
    | cons c cs ih =>
      simp only [cut?]
      split
      · rfl
      · next hn =>
        rcases List.infix_cons_iff.1 h with h | h
        · rw [← isSome_after?_iff, hn] at h
          exact absurd h (by decide)
        · rw [Option.isSome_map]
          exact ih h

/-- The first occurrence of a piece stays the first one when the text behind it changes. -/
lemma cut?_append {piece pre rest : List Char} (h : cut? piece (pre ++ piece ++ rest) = some (pre, rest))
    (rest' : List Char) : cut? piece (pre ++ piece ++ rest') = some (pre, rest') := by
  induction pre with
  | nil =>
    have hp : after? piece (piece ++ rest') = some rest' := after?_eq_some_iff.2 rfl
    cases hc : piece ++ rest' with
    | nil =>
      obtain ⟨rfl, rfl⟩ := List.append_eq_nil_iff.1 hc
      rfl
    | cons c cs =>
      rw [hc] at hp
      simp only [List.nil_append, cut?, hc, hp]
  | cons c pre ih =>
    simp only [List.cons_append, cut?] at h ⊢
    split at h
    · simp at h
    · next hn =>
      obtain ⟨⟨p, r⟩, hp, he⟩ := Option.map_eq_some_iff.1 h
      simp only [Prod.mk.injEq, List.cons.injEq, true_and] at he
      rw [he.1, he.2] at hp
      have hn' : after? piece (c :: (pre ++ piece ++ rest')) = none := by
        rw [← Option.not_isSome_iff_eq_none, isSome_after?_iff] at hn ⊢
        intro hpre
        -- the piece would end within `pre ++ piece`, where both texts agree
        have hshort : piece <+: c :: (pre ++ piece) :=
          List.prefix_of_prefix_length_le hpre ⟨rest', rfl⟩ (by simp; omega)
        exact hn (hshort.trans ⟨rest, rfl⟩)
      rw [hn', ih hp]
      rfl

end CommentBlocks.Text

namespace CommentBlocks.TagPattern

open Text (after? cut?)

variable {p : TagPattern}

/-- A tag can end in `rest`, which follows its word. -/
def Ends (p : TagPattern) (rest : List Char) : Prop :=
  p.closing = [] ∨ p.closing <+: rest ∨
    ∃ c cs, rest = c :: cs ∧ endsWord c = true ∧ p.closing <:+: cs

lemma isSome_readInner?_iff {closing rest : List Char} :
    (readInner? closing rest).isSome ↔ closing <+: rest ∨
      ∃ c cs, rest = c :: cs ∧ endsWord c = true ∧ closing <:+: cs := by
  have direct : ((after? closing rest).map fun r => (([] : List Char), r)).isSome ↔
      closing <+: rest := by rw [Option.isSome_map, Text.isSome_after?_iff]
  simp only [readInner?]
  cases rest with
  | nil => simpa using direct
  | cons c cs =>
    by_cases hc : endsWord c = true
    · simp only [hc, if_true]
      split
      · next inner tail h =>
        have : closing <:+: cs := Text.isSome_cut?_iff.1 (by rw [h]; rfl)
        simp [hc, this]
      · next h =>
        have : ¬ closing <:+: cs := by rw [← Text.isSome_cut?_iff, h]; decide
        rw [direct]
        simp [this]
    · simp only [hc]
      rw [if_neg (by decide), direct]
      simp [hc]

lemma isSome_readEnd?_iff {rest : List Char} : (p.readEnd? rest).isSome ↔ p.Ends rest := by
  unfold readEnd? Ends
  split
  · next h => simp [h]
  · next h => simp [h, isSome_readInner?_iff]

lemma isSome_readWord?_iff {cs : List Char} :
    (p.readWord? cs).isSome ↔ ∃ w ∈ p.words, ∃ rest, cs = w ++ rest ∧ p.Ends rest := by
  simp only [readWord?, List.isSome_findSome?, List.any_eq_true]
  refine exists_congr fun w => and_congr_right fun _ => ?_
  cases h : after? w cs with
  | none =>
    simp only [Option.isSome_none, Bool.false_eq_true, false_iff, not_exists, not_and]
    rintro rest rfl
    rw [Text.after?_eq_some_iff.2 rfl] at h
    exact absurd h (by simp)
  | some rest =>
    rw [Option.isSome_map, isSome_readEnd?_iff]
    obtain rfl := Text.after?_eq_some_iff.1 h
    exact ⟨fun he => ⟨rest, rfl, he⟩, fun ⟨r, hr, he⟩ => by rwa [List.append_cancel_left hr]⟩

lemma isSome_readBlanks?_iff {cs : List Char} :
    (p.readBlanks? cs).isSome ↔ ∃ blanks, (∀ c ∈ blanks, isSpace c = true) ∧
      ∃ w ∈ p.words, ∃ rest, cs = blanks ++ (w ++ rest) ∧ p.Ends rest := by
  have plain {cs : List Char} (h : (p.readWord? cs).isSome) :
      ∃ blanks, (∀ c ∈ blanks, isSpace c = true) ∧
        ∃ w ∈ p.words, ∃ rest, cs = blanks ++ (w ++ rest) ∧ p.Ends rest :=
    ⟨[], by simp, isSome_readWord?_iff.1 h⟩
  induction cs with
  | nil =>
    refine ⟨plain, ?_⟩
    rintro ⟨blanks, -, w, hw, rest, h, he⟩
    obtain ⟨-, h⟩ := List.append_eq_nil_iff.1 h.symm
    exact isSome_readWord?_iff.2 ⟨w, hw, rest, h.symm, he⟩
  | cons c cs ih =>
    simp only [readBlanks?]
    by_cases hc : isSpace c = true
    · simp only [hc, if_true]
      constructor
      · intro h
        split at h
        · next t ht =>
          obtain ⟨blanks, hb, w, hw, rest, rfl, he⟩ := ih.1 (by rw [ht]; rfl)
          exact ⟨c :: blanks, by simpa [hc] using hb, w, hw, rest, rfl, he⟩
        · exact plain h
      · rintro ⟨blanks, hb, w, hw, rest, h, he⟩
        split
        · rfl
        · next hn =>
          cases blanks with
          | nil => exact isSome_readWord?_iff.2 ⟨w, hw, rest, h, he⟩
          | cons b blanks =>
            obtain ⟨-, rfl⟩ := List.cons.inj h
            have := ih.2 ⟨blanks, fun d hd => hb d (List.mem_cons_of_mem _ hd), w, hw, rest, rfl, he⟩
            rw [hn] at this
            exact absurd this (by decide)
    · rw [if_neg hc]
      refine ⟨plain, ?_⟩
      rintro ⟨blanks, hb, w, hw, rest, h, he⟩
      cases blanks with
      | nil => exact isSome_readWord?_iff.2 ⟨w, hw, rest, h, he⟩
      | cons b blanks =>
        obtain ⟨rfl, -⟩ := List.cons.inj h
        exact absurd (hb c List.mem_cons_self) hc

/-- A tag can be read at the start of a text exactly if the opening delimiter, blanks and a spelling
of the word stand there, and the tag can end in the rest. -/
lemma isSome_read?_iff {cs : List Char} :
    (p.read? cs).isSome ↔ ∃ blanks, (∀ c ∈ blanks, isSpace c = true) ∧
      ∃ w ∈ p.words, ∃ rest, cs = p.opening ++ (blanks ++ (w ++ rest)) ∧ p.Ends rest := by
  simp only [read?]
  cases h : after? p.opening cs with
  | none =>
    simp only [Option.isSome_none, Bool.false_eq_true, false_iff, not_exists, not_and]
    rintro blanks - w - rest rfl
    rw [Text.after?_eq_some_iff.2 rfl] at h
    exact absurd h (by simp)
  | some rest =>
    obtain rfl := Text.after?_eq_some_iff.1 h
    simp only [isSome_readBlanks?_iff, List.append_cancel_left_eq]

end CommentBlocks.TagPattern
