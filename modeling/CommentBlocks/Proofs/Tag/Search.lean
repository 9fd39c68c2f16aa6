import CommentBlocks.Proofs.Tag.Locality
import CommentBlocks.Proofs.Unicode.SmallLetters

/-!
The first tag of a text.

Text put in front of a text leaves its first tag in place unless a tag starts in the new part, and
text put behind the tag leaves it in place for a regular pattern. The patterns of a vocabulary are
regular for every word.
-/

namespace CommentBlocks.TagPattern

variable {p : TagPattern}

/-- A tag starts in `new` when `tail` follows. It may end in `tail`. -/
def StartsIn (p : TagPattern) (new tail : List Char) : Prop :=
  ∃ s, s ≠ [] ∧ s <:+ new ∧ (p.read? (s ++ tail)).isSome

instance (p : TagPattern) (new tail : List Char) : Decidable (p.StartsIn new tail) :=
  decidable_of_iff (∃ s ∈ new.tails, s ≠ [] ∧ (p.read? (s ++ tail)).isSome) (by
    simp only [StartsIn, List.mem_tails]
    exact exists_congr fun s => and_left_comm)

lemma eq_cons_of_read? {d : Char} {opening s tail : List Char} (hp : p.opening = d :: opening)
    (hs : s ≠ []) (h : (p.read? (s ++ tail)).isSome) : ∃ s', s = d :: s' := by
  obtain ⟨blanks, -, w, -, rest, htext, -⟩ := isSome_read?_iff.1 h
  cases s with
  | nil => exact absurd rfl hs
  | cons e s' =>
    rw [hp, List.cons_append, List.cons_append] at htext
    exact ⟨s', by rw [(List.cons.inj htext).1]⟩

lemma not_startsIn_nil (tail : List Char) : ¬ p.StartsIn [] tail := by
  rintro ⟨s, hs, hsuf, -⟩
  exact hs (List.suffix_nil.1 hsuf)

/-- The delimiter of a tag that starts in a text lies in the text, or it reaches over the end of it. -/
lemma StartsIn.opening_cases {new tail : List Char} (h : p.StartsIn new tail) :
    p.opening <:+: new ∨
      ∃ s z, s ≠ [] ∧ z ≠ [] ∧ p.opening = s ++ z ∧ s <:+ new ∧ z <+: tail := by
  obtain ⟨s, hs, hsuf, hread⟩ := h
  obtain ⟨blanks, -, w, -, after, htext, -⟩ := isSome_read?_iff.1 hread
  rcases List.append_eq_append_iff.1 htext with ⟨z, hz, htail⟩ | ⟨z, rfl, -⟩
  · by_cases h0 : z = []
    · rw [h0, List.append_nil] at hz
      exact .inl (hz ▸ hsuf.isInfix)
    · exact .inr ⟨s, z, hs, h0, hz, hsuf, _, htail.symm⟩
  · exact .inl ((List.prefix_append p.opening z).isInfix.trans hsuf.isInfix)

lemma startsIn_cons_iff {c : Char} {new tail : List Char} :
    p.StartsIn (c :: new) tail ↔
      (p.read? (c :: (new ++ tail))).isSome ∨ p.StartsIn new tail := by
  constructor
  · rintro ⟨s, hs, hsuf, hread⟩
    rcases List.suffix_cons_iff.1 hsuf with rfl | hsuf
    · exact .inl hread
    · exact .inr ⟨s, hs, hsuf, hread⟩
  · rintro (hread | ⟨s, hs, hsuf, hread⟩)
    · exact ⟨c :: new, by simp, List.suffix_rfl, hread⟩
    · exact ⟨s, hs, hsuf.trans (List.suffix_cons c new), hread⟩

/-- A tag is found where it can be read, and no tag can be read in front of it. -/
lemma find?_eq_some_iff {cs skipped : List Char} {t : Tag} :
    p.find? cs = some (skipped, t) ↔ cs = skipped ++ (p.text t ++ t.after) ∧
      p.read? (p.text t ++ t.after) = some t ∧ ¬ p.StartsIn skipped (p.text t ++ t.after) := by
  induction cs generalizing skipped with
  | nil =>
    constructor
    · intro h
      have he := eq_of_find? h
      obtain ⟨u, hu, hut⟩ := Option.map_eq_some_iff.1 h
      obtain ⟨rfl, rfl⟩ := Prod.mk.inj hut
      refine ⟨by simpa using he, ?_, not_startsIn_nil _⟩
      rw [← eq_of_read? hu]
      exact hu
    · rintro ⟨he, hr, -⟩
      obtain ⟨rfl, h0⟩ := List.append_eq_nil_iff.1 he.symm
      rw [h0] at hr
      simp only [find?, hr, Option.map_some]
  | cons c cs ih =>
    simp only [find?]
    constructor
    · intro h
      split at h
      · next u hu =>
        obtain ⟨rfl, rfl⟩ := Prod.mk.inj (Option.some.inj h)
        exact ⟨eq_of_read? hu, by rw [← eq_of_read? hu]; exact hu, not_startsIn_nil _⟩
      · next hn =>
        obtain ⟨⟨skip, u⟩, hu, hut⟩ := Option.map_eq_some_iff.1 h
        obtain ⟨rfl, rfl⟩ := Prod.mk.inj hut
        obtain ⟨he, hr, hnone⟩ := ih.1 hu
        refine ⟨by rw [he]; rfl, hr, fun hs => ?_⟩
        rcases startsIn_cons_iff.1 hs with hread | hs
        · rw [← he, hn] at hread
          exact absurd hread (by decide)
        · exact hnone hs
    · rintro ⟨he, hr, hnone⟩
      cases skipped with
      | nil =>
        rw [List.nil_append] at he
        rw [he, hr]
      | cons d skip =>
        rw [List.cons_append] at he
        obtain ⟨rfl, rfl⟩ := List.cons.inj he
        rw [startsIn_cons_iff, not_or, Option.not_isSome_iff_eq_none] at hnone
        obtain ⟨hhead, htail⟩ := hnone
        rw [hhead]
        simp only
        rw [ih.2 ⟨rfl, hr, htail⟩]
        rfl

/-- The first tag of a text is also the first one of any end of the text that it lies in. -/
lemma find?_drop {a b s : List Char} {t : Tag} (h : p.find? (a ++ b) = some (a ++ s, t)) :
    p.find? b = some (s, t) := by
  obtain ⟨he, hr, hnone⟩ := find?_eq_some_iff.1 h
  rw [List.append_assoc, List.append_cancel_left_eq] at he
  refine find?_eq_some_iff.2 ⟨he, hr, fun ⟨u, hu, hsuf, hread⟩ => ?_⟩
  exact hnone ⟨u, hu, hsuf.trans (List.suffix_append a s), hread⟩

/-- Text in front keeps the first tag in place exactly when no tag starts there. -/
lemma find?_append_iff {a b s : List Char} {t : Tag} (h : p.find? b = some (s, t)) :
    p.find? (a ++ b) = some (a ++ s, t) ↔ ¬ p.StartsIn a b := by
  obtain ⟨he, hr, hnone⟩ := find?_eq_some_iff.1 h
  rw [find?_eq_some_iff]
  constructor
  · rintro ⟨-, -, hn⟩ ⟨u, hu, hsuf, hread⟩
    refine hn ⟨u ++ s, by simp [hu], ?_, ?_⟩
    · obtain ⟨z, rfl⟩ := hsuf
      exact ⟨z, by simp⟩
    · rwa [List.append_assoc, ← he]
  · intro hn
    refine ⟨by rw [he]; simp, hr, ?_⟩
    rintro ⟨u, hu, hsuf, hread⟩
    rcases List.suffix_or_suffix_of_suffix hsuf (List.suffix_append a s) with hus | ⟨z, rfl⟩
    · exact hnone ⟨u, hu, hus, hread⟩
    · by_cases hz : z = []
      · subst hz
        exact hnone ⟨s, by simpa using hu, List.suffix_rfl, by simpa using hread⟩
      · refine hn ⟨z, hz, ?_, ?_⟩
        · obtain ⟨x, hx⟩ := hsuf
          rw [← List.append_assoc, List.append_left_inj] at hx
          exact ⟨x, hx⟩
        · rw [List.append_assoc, ← he] at hread
          exact hread

lemma StartsIn.prefix_of_find? {a b s : List Char} {t : Tag} (hn : p.StartsIn a b)
    (h : p.find? (a ++ b) = some (s, t)) : ∃ u, u ≠ [] ∧ a = s ++ u := by
  obtain ⟨he, -, hnone⟩ := find?_eq_some_iff.1 h
  obtain ⟨u, hu, hsuf, hread⟩ := hn
  rcases List.prefix_or_prefix_of_prefix ⟨b, rfl⟩ ⟨_, he.symm⟩ with ⟨z, rfl⟩ | ⟨z, rfl⟩
  · rw [List.append_assoc, List.append_cancel_left_eq] at he
    refine absurd ⟨u ++ z, by simp [hu], ?_, ?_⟩ hnone
    · obtain ⟨x, rfl⟩ := hsuf
      exact ⟨x, by simp⟩
    · rwa [List.append_assoc, ← he]
  · refine ⟨z, ?_, rfl⟩
    rintro rfl
    rw [List.append_nil] at hsuf he
    exact hnone ⟨u, hu, hsuf, by rwa [← List.append_cancel_left he]⟩

lemma find?_swap (hp : p.Regular) {cs lead after' : List Char} {t : Tag}
    (h : p.find? cs = some (lead, t)) (hs : p.Alike t.after after') :
    p.find? (lead ++ (p.text t ++ after')) = some (lead, { t with after := after' }) := by
  obtain ⟨-, hr, hnone⟩ := find?_eq_some_iff.1 h
  have hr' : p.read? (p.text t ++ after') = some { t with after := after' } := read?_swap hp hr hs
  refine find?_eq_some_iff.2 ⟨rfl, hr', ?_⟩
  rintro ⟨s, hs0, hsuf, hread⟩
  refine hnone ⟨s, hs0, hsuf, ?_⟩
  by_contra hn
  rw [Option.not_isSome_iff_eq_none] at hn
  have hn' : p.read? (s ++ (p.text t ++ after')) = none := read?_none_swap hp hr hn after'
  rw [show p.text { t with after := after' } = p.text t from rfl, hn'] at hread
  exact absurd hread (by decide)

/-- Whether a tag starts in front of a tag does not hang on the text behind that tag. -/
lemma StartsIn.swap (hp : p.Regular) {cs lead new after' : List Char} {t : Tag}
    (h : p.find? cs = some (lead, t)) (hn : p.StartsIn new (lead ++ (p.text t ++ after'))) :
    p.StartsIn new (lead ++ (p.text t ++ t.after)) := by
  obtain ⟨-, hr, -⟩ := find?_eq_some_iff.1 h
  obtain ⟨s, hs0, hsuf, hread⟩ := hn
  refine ⟨s, hs0, hsuf, ?_⟩
  by_contra hnone
  rw [Option.not_isSome_iff_eq_none, ← List.append_assoc] at hnone
  have hn' : p.read? (s ++ lead ++ (p.text t ++ after')) = none :=
    read?_none_swap hp hr hnone after'
  rw [← List.append_assoc, hn'] at hread
  exact absurd hread (by decide)

/-! ### The patterns of a vocabulary -/

lemma takeWhile_isSpace_of_mem_spellings {word : String} {w : List Char}
    (h : w ∈ spellings word) : w.takeWhile isSpace = word.toList.takeWhile isSpace := by
  rcases Unicode.eq_or_eq_of_mem_spellings h with rfl | rfl
  · rfl
  · exact Unicode.takeWhile_isSpace_lowerFrom [] word.toList

lemma exists_not_isSpace_of_mem_spellings {word : String} {w : List Char} (h : w ∈ spellings word)
    (hw : ∃ c ∈ word.toList, isSpace c = false) : ∃ c ∈ w, isSpace c = false := by
  rcases Unicode.eq_or_eq_of_mem_spellings h with rfl | rfl
  · exact hw
  · exact Unicode.exists_not_isSpace_lowerFrom hw

/-- A pattern is regular for every word if its closing delimiter does not start with a blank, and
for every delimiter if its word is not blank. -/
lemma regular_ofWord {v : Vocabulary} {word : String}
    (h : (∀ c ∈ v.commentClose.toList.head?, isSpace c = false) ∨
      ∃ c ∈ word.toList, isSpace c = false) : (ofWord v word).Regular where
  apart _ hw _ hw' hin := Unicode.eq_of_infix_spellings hw hw' hin
  lead _ hw _ hw' := by
    rw [takeWhile_isSpace_of_mem_spellings hw, takeWhile_isSpace_of_mem_spellings hw']
  solid := h.symm.imp (fun hc _ hw => exists_not_isSpace_of_mem_spellings hw hc) id

end CommentBlocks.TagPattern
