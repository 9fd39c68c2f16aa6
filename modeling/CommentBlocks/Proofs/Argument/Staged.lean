import CommentBlocks.Proofs.Argument.Coercing
import CommentBlocks.Proofs.Value.Derived

/-!
Where the value of an argument comes from: a stage that reads a part of the text again, a literal, or
a list of bare items. What any of them can give is shown along these stages.
-/

namespace CommentBlocks

namespace Value

lemma itemsDepth_nil : itemsDepth [] = 0 := rfl

lemma itemsDepth_cons (v : Value) (items : List Value) :
    itemsDepth (v :: items) = max v.depth (itemsDepth items) := rfl

lemma fieldsDepth_nil : fieldsDepth [] = 0 := rfl

lemma fieldsDepth_cons (k : String) (v : Value) (fields : List (String × Value)) :
    fieldsDepth ((k, v) :: fields) = max v.depth (fieldsDepth fields) := rfl

lemma itemsDepth_le {n : Nat} {items : List Value} (h : ∀ v ∈ items, v.depth ≤ n) :
    itemsDepth items ≤ n := by
  induction items with
  | nil => simp [itemsDepth]
  | cons v vs ih =>
    obtain ⟨hv, hvs⟩ := List.forall_mem_cons.1 h
    exact Nat.max_le.2 ⟨hv, ih hvs⟩

lemma fieldsDepth_le {n : Nat} {fields : Fields} (h : ∀ f ∈ fields, f.2.depth ≤ n) :
    fieldsDepth fields ≤ n := by
  induction fields with
  | nil => simp [fieldsDepth]
  | cons f fs ih =>
    obtain ⟨hf, hfs⟩ := List.forall_mem_cons.1 h
    exact Nat.max_le.2 ⟨hf, ih hfs⟩

lemma depth_le_fieldsDepth {f : String × Value} {fields : List (String × Value)} (h : f ∈ fields) :
    f.2.depth ≤ fieldsDepth fields := by
  induction fields with
  | nil => simp at h
  | cons g fields ih =>
    rcases List.mem_cons.1 h with rfl | h
    · exact Nat.le_max_left _ _
    · exact (ih h).trans (Nat.le_max_right _ _)

end Value

lemma Fields.Collects.fieldsDepth_le {entries : List (String × Value)} {fs : Fields}
    (h : Collects entries fs) : Value.fieldsDepth fs ≤ Value.fieldsDepth entries :=
  Value.fieldsDepth_le fun _ hf => Value.depth_le_fieldsDepth (h.mem hf)

namespace Relaxed

lemma depth_wordValue (cs : List Char) : (wordValue cs).depth = 0 := by
  have hnumber : ∀ v, Numeral.value? cs = some v → v.depth = 0 := fun v h => by
    simp only [Numeral.value?] at h
    split at h
    · simp at h
    · split at h
      · cases h; rfl
      · split at h
        · cases h; rfl
        · simp at h
  simp only [wordValue]
  split
  · rfl
  split
  · rfl
  split
  · rfl
  · cases h : Numeral.value? cs with
    | none => rfl
    | some v => exact hnumber v h

end Relaxed

namespace Coerce

open Text (trim)
open Unicode (isBlank)
open Relaxed (skipBlank)

/-! ### What the stages take off -/

variable {cs r : List Char}

/-- The doubled brackets stand next to each other in front, and the inner one is closed right before
the end. -/
lemma eq_of_unwrapDouble? (h : unwrapDouble? cs = some r) :
    r = inner cs ∧ Bracket.close? (cs.drop 1) = some (cs.length - 3) ∧
      ∃ k rest, (k = BracketKind.curly ∨ k = BracketKind.square) ∧
        cs = k.opening :: k.opening :: rest := by
  simp only [unwrapDouble?] at h
  split at h
  · next hc =>
    simp only [Bool.and_eq_true, Bool.or_eq_true, Option.isSome_iff_exists,
      Text.after?_eq_some_iff, beq_iff_eq] at hc
    cases h
    rcases hc.1.1.1 with ⟨⟨rest, hrest⟩, -⟩ | ⟨⟨rest, hrest⟩, -⟩
    · exact ⟨rfl, hc.2, .curly, rest, .inl rfl, hrest⟩
    · exact ⟨rfl, hc.2, .square, rest, .inr rfl, hrest⟩
  · simp at h

/-- No doubled brackets come off an object, since no key starts with a brace. -/
lemma unwrapDouble?_of_fields {es : List (String × Value)} {text : List Char}
    (h : Relaxed.Derives .reader (.fields es) text) :
    unwrapDouble? ('\x7b' :: (text ++ ['\x7d'])) = none := by
  refine Option.eq_none_iff_forall_ne_some.2 fun r hr => ?_
  obtain ⟨-, -, k, rest, -, hcs⟩ := eq_of_unwrapDouble? hr
  obtain ⟨hk, hrest⟩ := List.cons.inj hcs
  rw [← hk] at hrest
  have hskip : skipBlank (text ++ ['\x7d']) = '\x7b' :: rest := by
    rw [hrest]
    exact Relaxed.skipBlank_eq_self (by decide)
  exact h.fields_front hskip

lemma eq_of_unwrapBraces? (h : unwrapBraces? cs = some r) :
    r = trim (inner cs) ∧ r ≠ [] ∧ ∃ rest, cs = '\x7b' :: rest := by
  simp only [unwrapBraces?] at h
  split at h
  · next hc =>
    simp only [Bool.and_eq_true, beq_iff_eq] at hc
    split at h
    · simp at h
    · next hne =>
      cases h
      simp only [Bool.or_eq_true, not_or, List.isEmpty_iff] at hne
      exact ⟨rfl, hne.1.1, List.head?_eq_some_iff.1 hc.1⟩
  · simp at h

lemma eq_of_listItems? {items : List (List Char)} (h : listItems? cs = some items) :
    ∃ body, cs = '[' :: (body ++ [']']) ∧
      items = ((Text.splitAt ',' body).map trim).filter (!·.isEmpty) := by
  obtain ⟨body, hb, rfl⟩ := Option.map_eq_some_iff.1 h
  obtain ⟨tail, ht, hb⟩ := Option.bind_eq_some_iff.1 hb
  rw [Text.after?_eq_some_iff] at ht
  rw [Text.before?_eq_some_iff] at hb
  exact ⟨body, by rw [ht, hb]; rfl, rfl⟩

lemma inner_cons_isPrefix (c : Char) (cs : List Char) : inner (c :: cs) <+: cs :=
  List.dropLast_prefix cs

lemma tidy_isPrefix (raw : List Char) : tidy raw <+: skipBlank raw := by
  have htrim : trim raw <+: skipBlank raw := Text.trimEndBy_isPrefix isBlank _
  simp only [tidy]
  split
  · next rest hrest =>
    rw [Text.before?_eq_some_iff] at hrest
    refine (Text.trimEndBy_isPrefix isBlank rest).trans (List.IsPrefix.trans ?_ htrim)
    exact ⟨[','], hrest.symm⟩
  · exact htrim

/-! ### Stages -/

/-- The value comes from the text by one stage after the other. -/
inductive Gives : List Char → Value → Prop
  /-- A keyword, a number or a string. -/
  | flat {raw : List Char} {v : Value} (h : v.depth = 0) : Gives raw v
  | double {raw r : List Char} {v : Value} (hr : unwrapDouble? (tidy raw) = some r) (h : Gives r v) :
      Gives raw v
  | braces {raw r : List Char} {v : Value} (hr : unwrapBraces? (tidy raw) = some r) (h : Gives r v) :
      Gives raw v
  | literal {raw : List Char} {v : Value} (h : Relaxed.literal? (tidy raw) = some v) : Gives raw v
  | items {raw : List Char} {items : List (List Char)} (hitems : listItems? (tidy raw) = some items)
      (h : ∀ item ∈ items, Gives item (value item)) : Gives raw (.array (items.map value))

theorem gives_value (raw : List Char) : Gives raw (value raw) := by
  -- on the length of the text, which every stage that reads a part of it again makes shorter
  induction hlength : raw.length using Nat.strong_induction_on generalizing raw with
  | _ n ih =>
    subst hlength
    have htidy := length_tidy_le raw
    cases hk : keyword? (tidy raw) with
    | some v =>
      rw [value_of_keyword hk]
      refine .flat ?_
      simp only [keyword?] at hk
      repeat' split at hk
      all_goals first
        | (cases hk; rfl)
        | simp at hk
    | none =>
    cases hn : Numeral.value? (tidy raw) with
    | some v =>
      rw [value_of_number hk hn, ← Relaxed.wordValue_of_value? hn]
      exact .flat (Relaxed.depth_wordValue _)
    | none =>
    cases hd : unwrapDouble? (tidy raw) with
    | some r =>
      rw [value_of_double hk hn hd]
      exact .double hd (ih _ (Nat.lt_of_lt_of_le (length_lt_of_unwrapDouble? hd) htidy) r rfl)
    | none =>
    cases hb : unwrapBraces? (tidy raw) with
    | some r =>
      rw [value_of_braces hk hn hd hb]
      exact .braces hb (ih _ (Nat.lt_of_lt_of_le (length_lt_of_unwrapBraces? hb) htidy) r rfl)
    | none =>
    cases hl : Relaxed.literal? (tidy raw) with
    | some v => rw [value_of_literal hk hn hd hb hl]; exact .literal hl
    | none =>
    rcases value_of_rest hk hn hd hb hl with ⟨s, hs⟩ | ⟨items, hitems, hvalue⟩
    · rw [hs]; exact .flat rfl
    · rw [hvalue]
      exact .items hitems fun item hitem =>
        ih _ (Nat.lt_of_lt_of_le (length_lt_of_mem_listItems? hitems hitem) htidy) item rfl

end Coerce

end CommentBlocks
