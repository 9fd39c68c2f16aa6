import CommentBlocks.Proofs.Block.Scanned

/-!
Taking the tags out of a text.

A pass goes from the first tag of a text to the first tag behind it. What stood around a tag is
joined, and no pass looks at a text twice, so tags can be left that are put together from pieces. A
strip that changes anything makes the text shorter, and a text that it does not change has no tags.
-/

namespace CommentBlocks

namespace TagPattern

variable {p : TagPattern} {cs skipped : List Char} {t : Tag}

lemma text_ne_nil (hp : p.opening ≠ []) (t : Tag) : p.text t ≠ [] := by
  simp [text, hp]

lemma opening_infix_of_find? (h : p.find? cs = some (skipped, t)) : p.opening <:+: cs := by
  refine ⟨skipped, t.blanks ++ t.word ++ t.inner ++ p.closing ++ t.after, ?_⟩
  rw [eq_of_find? h]
  simp [text]

lemma find?_eq_none_of_not_infix (h : ¬ p.opening <:+: cs) : p.find? cs = none := by
  rw [Option.eq_none_iff_forall_ne_some]
  rintro ⟨skipped, t⟩ hfind
  exact h (opening_infix_of_find? hfind)

/-! ### One pass -/

lemma removeFrom_eq_drop (n : Nat) (cs : List Char) : p.removeFrom n cs = p.remove (cs.drop n) := by
  induction cs generalizing n with
  | nil => cases n <;> simp [remove, removeFrom]
  | cons c cs ih =>
    cases n with
    | zero => rfl
    | succ n => rw [removeFrom, ih, List.drop_succ_cons]

lemma remove_of_find?_eq_none (h : p.find? cs = none) : p.remove cs = cs := by
  induction cs with
  | nil => rfl
  | cons c cs ih =>
    rw [find?] at h
    cases hr : p.read? (c :: cs) with
    | some t => simp [hr] at h
    | none =>
      simp only [hr, Option.map_eq_none_iff] at h
      rw [remove, removeFrom]
      simp only [hr]
      rw [← remove, ih h]

lemma remove_of_find?_eq_some (hp : p.opening ≠ []) (h : p.find? cs = some (skipped, t)) :
    p.remove cs = skipped ++ p.remove t.after := by
  induction cs generalizing skipped with
  | nil =>
    have := eq_of_find? h
    simp [text_ne_nil hp] at this
  | cons c cs ih =>
    rw [find?] at h
    rw [remove, removeFrom]
    cases hr : p.read? (c :: cs) with
    | some u =>
      simp only [hr, Option.some.injEq, Prod.mk.injEq] at h
      obtain ⟨rfl, rfl⟩ := h
      obtain ⟨d, ds, htext⟩ := List.exists_cons_of_ne_nil (text_ne_nil hp u)
      have hcs : cs = ds ++ u.after := by
        have := eq_of_read? hr
        rw [htext, List.cons_append] at this
        exact (List.cons.inj this).2
      simp only [htext, List.length_cons]
      rw [removeFrom_eq_drop, hcs, List.drop_left, List.nil_append]
    | none =>
      simp only [hr] at h ⊢
      obtain ⟨⟨front, u⟩, hu, he⟩ := Option.map_eq_some_iff.1 h
      obtain ⟨rfl, rfl⟩ := Prod.mk.inj he
      rw [← remove, ih hu, List.cons_append]

lemma removeFrom_sublist (n : Nat) (cs : List Char) : (p.removeFrom n cs).Sublist cs := by
  induction cs generalizing n with
  | nil => simp [removeFrom]
  | cons c cs ih =>
    cases n with
    | succ n => exact (ih n).cons c
    | zero =>
      rw [removeFrom]
      split
      · exact (ih 0).cons_cons c
      · split
        · exact (ih 0).cons_cons c
        · exact (ih _).cons c

lemma remove_sublist (cs : List Char) : (p.remove cs).Sublist cs := removeFrom_sublist 0 cs

/-- A pass that finds a tag makes the text shorter. -/
lemma remove_eq_self_iff (hp : p.opening ≠ []) : p.remove cs = cs ↔ p.find? cs = none := by
  refine ⟨fun h => ?_, remove_of_find?_eq_none⟩
  rw [Option.eq_none_iff_forall_ne_some]
  rintro ⟨skipped, t⟩ hfind
  have hlength := congrArg List.length (eq_of_find? hfind)
  have hremoved := congrArg List.length (remove_of_find?_eq_some hp hfind)
  have hafter := (p.remove_sublist t.after).length_le
  have htext := List.length_pos_iff.2 (text_ne_nil hp t)
  rw [h] at hremoved
  simp only [List.length_append] at hlength hremoved
  omega

end TagPattern

open TagPattern (opensBlock closesBlock)

namespace Vocabulary

def TagFree (v : Vocabulary) (cs : List Char) : Prop :=
  (opensBlock v).find? cs = none ∧ (closesBlock v).find? cs = none

instance (v : Vocabulary) (cs : List Char) : Decidable (v.TagFree cs) :=
  inferInstanceAs (Decidable (_ ∧ _))

variable {v : Vocabulary} {cs : List Char}

lemma stripTags_of_not_infix (h : ¬ v.commentOpen.toList <:+: cs) : v.stripTags cs = cs := by
  have hopen : (opensBlock v).find? cs = none := TagPattern.find?_eq_none_of_not_infix h
  have hclose : (closesBlock v).find? cs = none := TagPattern.find?_eq_none_of_not_infix h
  rw [stripTags, TagPattern.remove_of_find?_eq_none hopen,
    TagPattern.remove_of_find?_eq_none hclose]

lemma stripTags_sublist (v : Vocabulary) (cs : List Char) : (v.stripTags cs).Sublist cs :=
  ((closesBlock v).remove_sublist _).trans ((opensBlock v).remove_sublist cs)

lemma stripTags_eq_self_iff (hv : v.commentOpen ≠ "") : v.stripTags cs = cs ↔ v.TagFree cs := by
  have hopening : v.commentOpen.toList ≠ [] := by simpa using hv
  constructor
  · intro h
    have hopen : (opensBlock v).remove cs = cs := by
      refine ((opensBlock v).remove_sublist cs).eq_of_length_le ?_
      conv_lhs => rw [← h]
      exact ((closesBlock v).remove_sublist _).length_le
    rw [stripTags, hopen] at h
    exact ⟨(TagPattern.remove_eq_self_iff hopening).1 hopen,
      (TagPattern.remove_eq_self_iff hopening).1 h⟩
  · rintro ⟨hopen, hclose⟩
    rw [stripTags, TagPattern.remove_of_find?_eq_none hopen,
      TagPattern.remove_of_find?_eq_none hclose]

lemma length_stripTags_lt (hv : v.commentOpen ≠ "") (h : ¬ v.TagFree cs) :
    (v.stripTags cs).length < cs.length := by
  refine lt_of_le_of_ne (v.stripTags_sublist cs).length_le fun he => h ?_
  exact (stripTags_eq_self_iff hv).1 ((v.stripTags_sublist cs).eq_of_length he)

lemma iterate_stripTags (hv : v.commentOpen ≠ "") (h : v.TagFree cs) (n : Nat) :
    v.stripTags^[n] cs = cs :=
  Function.iterate_fixed ((stripTags_eq_self_iff hv).2 h) n

lemma exists_tagFree_iterate (hv : v.commentOpen ≠ "") (cs : List Char) :
    ∃ n ≤ cs.length, v.TagFree (v.stripTags^[n] cs) := by
  induction hn : cs.length using Nat.strong_induction_on generalizing cs with
  | _ length ih =>
    subst hn
    by_cases h : v.TagFree cs
    · exact ⟨0, Nat.zero_le _, h⟩
    · have hlt := length_stripTags_lt hv h
      obtain ⟨n, hle, hfree⟩ := ih _ hlt _ rfl
      exact ⟨n + 1, by omega, hfree⟩

/-- What stripping tags gives: a text has no tags left exactly if a second strip would not change it,
and as many strips as the text has characters leave none in any text. -/
theorem stripTags_tagFree_iff (hv : v.commentOpen ≠ "") (cs : List Char) :
    (v.TagFree (v.stripTags cs) ↔ v.stripTags (v.stripTags cs) = v.stripTags cs) ∧
      ∀ n, cs.length ≤ n → v.TagFree (v.stripTags^[n] cs) := by
  refine ⟨(stripTags_eq_self_iff hv).symm, fun n hn => ?_⟩
  obtain ⟨m, hle, hfree⟩ := exists_tagFree_iterate hv cs
  obtain ⟨k, rfl⟩ := Nat.exists_eq_add_of_le' (hle.trans hn)
  rwa [Function.iterate_add_apply, iterate_stripTags hv hfree]

/-- A tag in another one: one strip leaves a tag. -/
theorem stripTags_tagFree_iff_nested :
    let v : Vocabulary := .ofDelimiters "a" "z" .cStyle
    let cs := "/*/*a */a */-".toList
    v.stripTags cs = "/*a */-".toList ∧
      (v.TagFree (v.stripTags cs) ↔ v.stripTags (v.stripTags cs) = v.stripTags cs) ∧
      ∀ n, cs.length ≤ n → v.TagFree (v.stripTags^[n] cs) :=
  ⟨by decide +kernel, stripTags_tagFree_iff (by decide) _⟩

/-- The two sides of a tag that is taken out can be the two halves of another one. -/
theorem stripTags_leaves_tag :
    standard.stripTags "<!-- end-<!-- end-doc-gen -->doc-gen -->".toList =
        "<!-- end-doc-gen -->".toList ∧
      ¬ standard.TagFree (standard.stripTags "<!-- end-<!-- end-doc-gen -->doc-gen -->".toList) := by
  decide +kernel

end Vocabulary

end CommentBlocks
