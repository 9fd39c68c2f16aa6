import CommentBlocks.Argument.Coerce
import Mathlib.Data.String.Basic
import Mathlib.Tactic.Lemma

/-!
The values that options can hold: integers of 64 bits, finite floating point numbers, and objects
whose keys are in ascending order, each one once. Every value that is read from text is of this kind.
-/

namespace CommentBlocks

namespace Fields

/-- The keys are in ascending order, each one once. -/
def Sorted (fs : Fields) : Prop := (fs.map Prod.fst).Pairwise (· < ·)

lemma sorted_nil : Sorted [] := List.Pairwise.nil

lemma sorted_cons {k : String} {v : Value} {fs : Fields} :
    Sorted ((k, v) :: fs) ↔ (∀ f ∈ fs, k < f.1) ∧ Sorted fs := by
  simp [Sorted]

lemma mem_insert {k : String} {v : Value} {fs : Fields} {f : String × Value}
    (h : f ∈ insert k v fs) : f = (k, v) ∨ f ∈ fs := by
  induction fs with
  | nil => simpa [insert] using h
  | cons g fs ih =>
    simp only [insert] at h
    split at h
    · simpa using h
    · split at h
      · rcases List.mem_cons.1 h with h | h
        · exact .inl h
        · exact .inr (List.mem_cons_of_mem _ h)
      · rcases List.mem_cons.1 h with h | h
        · exact .inr (h ▸ List.mem_cons_self)
        · exact (ih h).imp_right (List.mem_cons_of_mem _)

lemma Sorted.insert {fs : Fields} (h : Sorted fs) (k : String) (v : Value) :
    Sorted (insert k v fs) := by
  induction fs with
  | nil => simp [Fields.insert, Sorted]
  | cons f fs ih =>
    obtain ⟨l, w⟩ := f
    rw [sorted_cons] at h
    simp only [Fields.insert]
    split
    · next hlt =>
      refine sorted_cons.2 ⟨fun f hf => ?_, sorted_cons.2 h⟩
      rcases List.mem_cons.1 hf with rfl | hf
      · exact hlt
      · exact lt_trans hlt (h.1 f hf)
    · next hnlt =>
      split
      · next heq => exact sorted_cons.2 ⟨heq ▸ h.1, h.2⟩
      · next hne =>
        refine sorted_cons.2 ⟨fun f hf => ?_, ih h.2⟩
        rcases mem_insert hf with rfl | hf
        · exact lt_of_le_of_ne (not_lt.1 hnlt) (Ne.symm hne)
        · exact h.1 f hf

lemma insert_of_lt {k : String} {fs : Fields} (h : ∀ f ∈ fs, f.1 < k) (v : Value) :
    insert k v fs = fs ++ [(k, v)] := by
  induction fs with
  | nil => rfl
  | cons f fs ih =>
    have hlt : f.1 < k := h f List.mem_cons_self
    simp only [insert, if_neg (lt_asymm hlt), if_neg (ne_of_gt hlt), List.cons_append]
    rw [ih fun g hg => h g (List.mem_cons_of_mem _ hg)]

/-- In fields read in order, the one at hand is set behind those before. -/
lemma insert_last {found fs : Fields} {k : String} {v : Value} (h : Sorted (found ++ (k, v) :: fs)) :
    insert k v found = found ++ [(k, v)] := by
  refine insert_of_lt (fun f hf => ?_) v
  rw [Sorted, List.map_append, List.pairwise_append] at h
  exact h.2.2 f.1 (List.mem_map_of_mem hf) k (by simp)

end Fields

namespace Value

/-- What can be stored among options: integers have 64 bits, floating point numbers are finite, and
the fields of objects are sorted. -/
inductive Storable : Value → Prop
  | null : Storable null
  | bool (b : Bool) : Storable (bool b)
  | int {i : Int} (h : Numeral.inRange i = true) : Storable (int i)
  | float {x : Binary64} (h : x.isFinite = true) : Storable (float x)
  | string (s : String) : Storable (string s)
  | array {items : List Value} (h : ∀ v ∈ items, Storable v) : Storable (array items)
  | object {fields : Fields} (hsorted : fields.Sorted) (h : ∀ f ∈ fields, Storable f.2) :
      Storable (object fields)

end Value

namespace Numeral

lemma storable_of_value? {cs : List Char} {v : Value} (h : value? cs = some v) : v.Storable := by
  simp only [value?] at h
  split at h
  · simp at h
  · split at h
    · next i hi =>
      cases h
      simp only [integer?] at hi
      split at hi
      · simp at hi
      · split at hi
        · next hrange => cases hi; exact .int hrange
        · simp at hi
    · split at h
      · next hfinite => cases h; exact .float hfinite
      · simp at h

end Numeral

namespace Relaxed

lemma storable_wordValue (cs : List Char) : (wordValue cs).Storable := by
  simp only [wordValue]
  split
  · exact .bool true
  · split
    · exact .bool false
    · split
      · exact .null
      · cases h : Numeral.value? cs with
        | none => exact .string _
        | some v => exact Numeral.storable_of_value? h

/-- With this much fuel the readers of elements, items and fields give storable values. -/
structure GivesStorable (fuel : Nat) : Prop where
  element : ∀ {holder cs v rest}, element? fuel holder cs = some (v, rest) → v.Storable
  items : ∀ {cs vs rest}, items? fuel cs = some (vs, rest) → ∀ v ∈ vs, v.Storable
  fields : ∀ {found cs fs rest}, fields? fuel found cs = some (fs, rest) → Fields.Sorted found →
    (∀ f ∈ found, f.2.Storable) → Fields.Sorted fs ∧ ∀ f ∈ fs, f.2.Storable

namespace GivesStorable

variable {fuel : Nat}

lemma element_succ (h : GivesStorable fuel) {holder : Holder} {cs rest : List Char} {v : Value}
    (hread : element? (fuel + 1) holder cs = some (v, rest)) : v.Storable := by
  simp only [element?] at hread
  split at hread
  · simp at hread
  · split at hread
    · obtain ⟨⟨fs, tail⟩, hfields, heq⟩ := Option.map_eq_some_iff.1 hread
      cases heq
      obtain ⟨hsorted, hvalues⟩ := h.fields hfields Fields.sorted_nil (by simp)
      exact .object hsorted hvalues
    · split at hread
      · obtain ⟨⟨vs, tail⟩, hitems, heq⟩ := Option.map_eq_some_iff.1 hread
        cases heq
        exact .array (h.items hitems)
      · split at hread
        · obtain ⟨⟨s, tail⟩, -, heq⟩ := Option.map_eq_some_iff.1 hread
          cases heq
          exact .string s
        · simp only [word?] at hread
          split at hread
          · simp at hread
          · cases hread
            exact storable_wordValue _

lemma items_succ (h : GivesStorable fuel) {cs rest : List Char} {vs : List Value}
    (hread : items? (fuel + 1) cs = some (vs, rest)) : ∀ v ∈ vs, v.Storable := by
  simp only [items?] at hread
  split at hread
  · simp at hread
  · cases hread
    simp
  · split at hread
    · simp at hread
    · next v tail hv =>
      split at hread
      · obtain ⟨⟨vs', tail'⟩, hitems, heq⟩ := Option.map_eq_some_iff.1 hread
        cases heq
        exact List.forall_mem_cons.2 ⟨h.element hv, h.items hitems⟩
      · cases hread
        exact List.forall_mem_cons.2 ⟨h.element hv, by simp⟩
      · simp at hread

lemma fields_succ (h : GivesStorable fuel) {found fs : Fields} {cs rest : List Char}
    (hread : fields? (fuel + 1) found cs = some (fs, rest)) (hsorted : Fields.Sorted found)
    (hfound : ∀ f ∈ found, f.2.Storable) : Fields.Sorted fs ∧ ∀ f ∈ fs, f.2.Storable := by
  have hset : ∀ {k : String} {v : Value}, v.Storable →
      Fields.Sorted (found.insert k v) ∧ ∀ f ∈ found.insert k v, f.2.Storable := fun hv =>
    ⟨hsorted.insert _ _, fun f hf => (Fields.mem_insert hf).elim (fun h => h ▸ hv) (hfound f)⟩
  simp only [fields?] at hread
  split at hread
  · simp at hread
  · cases hread
    exact ⟨hsorted, hfound⟩
  · split at hread
    · simp at hread
    · split at hread
      · split at hread
        · simp at hread
        · next hv =>
          have hset := fun k => hset (k := k) (h.element hv)
          split at hread
          · exact h.fields hread (hset _).1 (hset _).2
          · cases hread
            exact hset _
          · simp at hread
      · simp at hread

end GivesStorable

lemma givesStorable (fuel : Nat) : GivesStorable fuel := by
  induction fuel with
  | zero => exact ⟨by simp [element?], by simp [items?], by simp [fields?]⟩
  | succ fuel ih => exact ⟨ih.element_succ, ih.items_succ, ih.fields_succ⟩

lemma storable_of_literal? {text : List Char} {v : Value} (h : literal? text = some v) :
    v.Storable := by
  simp only [literal?] at h
  split at h
  · next v' rest hread =>
    split at h
    · cases h
      split at hread
      · simp at hread
      · split at hread
        · exact (givesStorable _).element hread
        · simp at hread
    · simp at h
  · simp at h

end Relaxed

namespace Coerce

/-! ### The stages of reading an argument -/

section Stages

variable {raw : List Char}

lemma value_of_keyword {v : Value} (h : keyword? (tidy raw) = some v) : value raw = v := by
  rw [value]
  simp only [h]

lemma value_of_number (hk : keyword? (tidy raw) = none) {v : Value}
    (h : Numeral.value? (tidy raw) = some v) : value raw = v := by
  rw [value]
  simp only [hk, h]

variable (hk : keyword? (tidy raw) = none) (hn : Numeral.value? (tidy raw) = none)

include hk hn

lemma value_of_double {r : List Char} (h : unwrapDouble? (tidy raw) = some r) :
    value raw = value r := by
  rw [value]
  simp only [hk, hn]
  split
  · next heq => cases h.symm.trans heq; rfl
  · next heq => cases h.symm.trans heq

variable (hd : unwrapDouble? (tidy raw) = none)

include hd

lemma value_of_braces {r : List Char} (h : unwrapBraces? (tidy raw) = some r) :
    value raw = value r := by
  rw [value]
  simp only [hk, hn]
  split
  · next heq => cases hd.symm.trans heq
  · split
    · next heq => cases h.symm.trans heq; rfl
    · next heq => cases h.symm.trans heq

variable (hb : unwrapBraces? (tidy raw) = none)

include hb

lemma value_of_literal {v : Value} (h : Relaxed.literal? (tidy raw) = some v) : value raw = v := by
  rw [value]
  simp only [hk, hn]
  split
  · next heq => cases hd.symm.trans heq
  · split
    · next heq => cases hb.symm.trans heq
    · simp only [h]

lemma value_of_rest (h : Relaxed.literal? (tidy raw) = none) :
    (∃ s, value raw = .string s) ∨
      ∃ items, listItems? (tidy raw) = some items ∧ value raw = .array (items.map value) := by
  rw [value]
  simp only [hk, hn]
  split
  · next heq => cases hd.symm.trans heq
  · split
    · next heq => cases hb.symm.trans heq
    · simp only [h]
      split
      · exact .inl ⟨_, rfl⟩
      · split
        · next items hitems => exact .inr ⟨items, hitems, by simp⟩
        · exact .inl ⟨_, rfl⟩

end Stages

lemma storable_of_keyword? {cs : List Char} {v : Value} (h : keyword? cs = some v) :
    v.Storable := by
  simp only [keyword?] at h
  split at h
  · cases h; exact .bool true
  · split at h
    · cases h; exact .bool false
    · split at h
      · cases h; exact .null
      · simp at h

/-- The value of an argument can be stored. -/
theorem storable_value (raw : List Char) : (value raw).Storable := by
  -- on the length of the text, which every stage that reads a part of it again makes shorter
  induction hlength : raw.length using Nat.strong_induction_on generalizing raw with
  | _ n ih =>
    subst hlength
    have htidy := length_tidy_le raw
    cases hk : keyword? (tidy raw) with
    | some v => rw [value_of_keyword hk]; exact storable_of_keyword? hk
    | none =>
    cases hn : Numeral.value? (tidy raw) with
    | some v => rw [value_of_number hk hn]; exact Numeral.storable_of_value? hn
    | none =>
    cases hd : unwrapDouble? (tidy raw) with
    | some r =>
      rw [value_of_double hk hn hd]
      exact ih _ (Nat.lt_of_lt_of_le (length_lt_of_unwrapDouble? hd) htidy) r rfl
    | none =>
    cases hb : unwrapBraces? (tidy raw) with
    | some r =>
      rw [value_of_braces hk hn hd hb]
      exact ih _ (Nat.lt_of_lt_of_le (length_lt_of_unwrapBraces? hb) htidy) r rfl
    | none =>
    cases hl : Relaxed.literal? (tidy raw) with
    | some v => rw [value_of_literal hk hn hd hb hl]; exact Relaxed.storable_of_literal? hl
    | none =>
    rcases value_of_rest hk hn hd hb hl with ⟨s, hs⟩ | ⟨items, hitems, hvalue⟩
    · rw [hs]; exact .string s
    · rw [hvalue]
      refine .array fun v hv => ?_
      obtain ⟨item, hitem, rfl⟩ := List.mem_map.1 hv
      exact ih _ (Nat.lt_of_lt_of_le (length_lt_of_mem_listItems? hitems hitem) htidy) item rfl

end Coerce

end CommentBlocks
