import CommentBlocks.Toml.Document
import Mathlib.Data.String.Basic
import Mathlib.Tactic.Lemma

/-!
The fields of every table that is read from a document are in ascending order of their keys.

All tables are built by `set` from those before them, so what `set` keeps holds of every document.
-/

namespace CommentBlocks.Toml

def IsAtom : Toml → Prop
  | .array .. | .table .. => False
  | _ => True

/-- In every table the fields are in ascending order of their keys, each key once. -/
inductive Ordered : Toml → Prop where
  | atom {t : Toml} (ht : t.IsAtom) : Ordered t
  | array {ofTables : Bool} {items : List Toml} (hitems : ∀ t ∈ items, Ordered t) :
    Ordered (.array ofTables items)
  | table {kind : TableKind} {fields : Fields} (hkeys : (fields.map Prod.fst).Pairwise (· < ·))
    (hfields : ∀ f ∈ fields, Ordered f.2) : Ordered (.table kind fields)

structure Ascending (fields : Fields) : Prop where
  keys : (fields.map Prod.fst).Pairwise (· < ·)
  ordered : ∀ f ∈ fields, Ordered f.2

variable {t : Toml} {fields fields' : Fields} {key : String} {kind : TableKind}
  {ofTables viaDots : Bool} {path : List String}

lemma Ascending.nil : Ascending [] := ⟨List.Pairwise.nil, by simp⟩

lemma Ascending.table (h : Ascending fields) (kind : TableKind) : Ordered (.table kind fields) :=
  .table h.keys h.ordered

lemma Ordered.ascending (h : Ordered (.table kind fields)) : Ascending fields := by
  cases h with
  | atom ht => exact ht.elim
  | table hkeys hfields => exact ⟨hkeys, hfields⟩

lemma Ordered.items {items : List Toml} (h : Ordered (.array ofTables items)) : ∀ t ∈ items, Ordered t := by
  cases h with
  | atom ht => exact ht.elim
  | array hitems => exact hitems

lemma Ascending.get? (h : Ascending fields) (ht : get? key fields = some t) : Ordered t := by
  induction fields with
  | nil => simp [Toml.get?] at ht
  | cons f fields ih =>
    obtain ⟨k, v⟩ := f
    rw [Toml.get?] at ht
    split at ht
    · obtain rfl := Option.some.inj ht
      exact h.ordered _ List.mem_cons_self
    · exact ih ⟨(List.pairwise_cons.1 h.keys).2, (List.forall_mem_cons.1 h.ordered).2⟩ ht

lemma key_mem_set {k : String} (h : k ∈ (set key t fields).map Prod.fst) :
    k = key ∨ k ∈ fields.map Prod.fst := by
  induction fields with
  | nil => simpa [set] using h
  | cons f fields ih =>
    obtain ⟨l, v⟩ := f
    rw [set] at h
    split at h
    · simpa using h
    · split at h
      · next heq => simpa [heq] using h
      · rcases List.mem_cons.1 h with rfl | h
        · simp
        · exact (ih h).imp_right (List.mem_cons_of_mem _)

lemma Ascending.set (h : Ascending fields) (ht : Ordered t) (key : String) :
    Ascending (set key t fields) := by
  induction fields with
  | nil => exact ⟨List.pairwise_singleton _ _, by simpa [Toml.set] using ht⟩
  | cons f fields ih =>
    obtain ⟨k, v⟩ := f
    obtain ⟨hk, hkeys⟩ := List.pairwise_cons.1 h.keys
    obtain ⟨hv, hfields⟩ := List.forall_mem_cons.1 h.ordered
    rw [Toml.set]
    split
    · next hlt =>
      refine ⟨List.pairwise_cons.2 ⟨?_, h.keys⟩, List.forall_mem_cons.2 ⟨ht, h.ordered⟩⟩
      exact List.forall_mem_cons.2 ⟨hlt, fun l hl => lt_trans hlt (hk l hl)⟩
    · next hnlt =>
      split
      · next heq =>
        subst heq
        exact ⟨h.keys, List.forall_mem_cons.2 ⟨ht, hfields⟩⟩
      · next hne =>
        obtain ⟨hkeys', hfields'⟩ := ih ⟨hkeys, hfields⟩
        refine ⟨List.pairwise_cons.2 ⟨fun l hl => ?_, hkeys'⟩,
          List.forall_mem_cons.2 ⟨hv, hfields'⟩⟩
        rcases key_mem_set hl with rfl | hl
        · exact lt_of_le_of_ne (not_lt.1 hnlt) (Ne.symm hne)
        · exact hk l hl

/-! ### Building tables -/

/-- A change at the end of a path keeps the order on the way to it. -/
lemma Ascending.alter {change : TableKind → Fields → Option Fields}
    (hchange : ∀ kind fields fields', Ascending fields → change kind fields = some fields' →
      Ascending fields')
    (h : Ascending fields) (halter : alter viaDots change path kind fields = some fields') :
    Ascending fields' := by
  induction path generalizing kind fields fields' with
  | nil => exact hchange kind fields fields' h halter
  | cons key path ih =>
    rw [Toml.alter] at halter
    split at halter
    · obtain ⟨inner, hinner, rfl⟩ := Option.map_eq_some_iff.1 halter
      exact h.set ((ih .nil hinner).table _) key
    · next hget =>
      split at halter
      · cases halter
      · obtain ⟨inner, hinner, rfl⟩ := Option.map_eq_some_iff.1 halter
        exact h.set ((ih (h.get? hget).ascending hinner).table _) key
    · next hget =>
      split at halter
      · next hlast =>
        obtain ⟨inner, hinner, rfl⟩ := Option.map_eq_some_iff.1 halter
        have hitems := (h.get? hget).items
        have hlast := hitems _ (List.mem_of_getLast? hlast)
        refine h.set (.array fun t ht => ?_) key
        rcases List.mem_append.1 ht with ht | ht
        · exact hitems t (List.dropLast_subset _ ht)
        · obtain rfl := List.mem_singleton.1 ht
          exact (ih hlast.ascending hinner).table _
      · cases halter
    · cases halter

lemma Ascending.define (h : Ascending fields) (ht : Ordered t)
    (hdefine : define path key t kind fields = some fields') : Ascending fields' := by
  refine h.alter (fun kind fields fields' h hchange => ?_) hdefine
  split at hchange
  · cases hchange
  · split at hchange
    · cases hchange
    · obtain rfl := Option.some.inj hchange
      exact h.set ht key

lemma Ascending.openTable (h : Ascending fields)
    (hopen : openTable path key fields = some fields') : Ascending fields' := by
  refine h.alter (fun kind fields fields' h hchange => ?_) hopen
  split at hchange
  · obtain rfl := Option.some.inj hchange
    exact h.set (Ascending.nil.table _) key
  · next hget =>
    obtain rfl := Option.some.inj hchange
    exact h.set ((h.get? hget).ascending.table _) key
  · cases hchange

lemma Ascending.openItem (h : Ascending fields)
    (hopen : openItem path key fields = some fields') : Ascending fields' := by
  refine h.alter (fun kind fields fields' h hchange => ?_) hopen
  split at hchange
  · obtain rfl := Option.some.inj hchange
    exact h.set (.array (by simpa using Ascending.nil.table _)) key
  · next hget =>
    obtain rfl := Option.some.inj hchange
    refine h.set (.array fun t ht => ?_) key
    rcases List.mem_append.1 ht with ht | ht
    · exact (h.get? hget).items t ht
    · exact List.mem_singleton.1 ht ▸ Ascending.nil.table _
  · cases hchange

/-! ### Reading documents -/

lemma isAtom_ofInteger (i : Int) : (ofInteger i).IsAtom := by
  unfold ofInteger
  split <;> trivial

lemma isAtom_of_basedInteger? {cs : List Char} (h : basedInteger? cs = some t) : t.IsAtom := by
  unfold basedInteger? at h
  split at h
  · split at h
    · cases h
    · exact Option.some.inj h ▸ trivial
    · obtain ⟨ds, -, heq⟩ := Option.map_eq_some_iff.1 h
      obtain ⟨i, rfl⟩ : ∃ i, t = ofInteger i := ⟨_, heq.symm⟩
      exact isAtom_ofInteger i
  · cases h

lemma isAtom_of_float? {cs : List Char} (h : float? cs = some t) : t.IsAtom := by
  unfold float? at h
  simp only at h
  split at h
  · obtain rfl := Option.some.inj h
    split <;> trivial
  · cases h

lemma isAtom_of_atom? {cs : List Char} (h : atom? cs = some t) : t.IsAtom := by
  unfold atom? at h
  split at h
  · exact Option.some.inj h ▸ trivial
  split at h
  · exact Option.some.inj h ▸ trivial
  simp only [Option.orElse_eq_orElse, Option.orElse_eq_or, Option.or_eq_some_iff] at h
  rcases h with h | ⟨-, h | ⟨-, h | ⟨-, h | ⟨-, h⟩⟩⟩⟩
  · exact isAtom_of_basedInteger? h
  · obtain ⟨ds, -, heq⟩ := Option.map_eq_some_iff.1 h
    exact heq ▸ isAtom_ofInteger _
  · unfold nonFinite? at h
    simp only at h
    split at h
    · exact Option.some.inj h ▸ trivial
    · split at h
      · exact Option.some.inj h ▸ trivial
      · cases h
  · exact isAtom_of_float? h
  · obtain ⟨text, -, rfl⟩ := Option.map_eq_some_iff.1 h
    trivial

/-- What is read with so much fuel is in order. -/
structure ReadsOrdered (fuel : Nat) : Prop where
  value : ∀ {depth cs t rest}, value? fuel depth cs = some (t, rest) → Ordered t
  items : ∀ {depth cs ts rest}, items? fuel depth cs = some (ts, rest) → ∀ t ∈ ts, Ordered t
  pairs : ∀ {depth found cs fields rest}, Ascending found →
    pairs? fuel depth found cs = some (fields, rest) → Ascending fields

namespace ReadsOrdered

variable {fuel depth : Nat} {found : Fields} {cs rest : List Char}

lemma value_succ (ih : ReadsOrdered fuel) (h : value? (fuel + 1) depth cs = some (t, rest)) :
    Ordered t := by
  unfold value? at h
  split at h
  · cases h
  split at h
  · obtain ⟨a, -, heq⟩ := Option.map_eq_some_iff.1 h
    exact (Prod.mk.inj heq).1 ▸ .atom trivial
  split at h
  · split at h
    · cases h
    obtain ⟨⟨vs, rest'⟩, hvs, heq⟩ := Option.map_eq_some_iff.1 h
    exact (Prod.mk.inj heq).1 ▸ .array (ih.items hvs)
  split at h
  · split at h
    · cases h
    obtain ⟨⟨fs, rest'⟩, hfs, heq⟩ := Option.map_eq_some_iff.1 h
    exact (Prod.mk.inj heq).1 ▸ (ih.pairs .nil hfs).table _
  obtain ⟨v, hv, heq⟩ := Option.map_eq_some_iff.1 h
  exact (Prod.mk.inj heq).1 ▸ .atom (isAtom_of_atom? hv)

lemma items_succ {ts : List Toml} (ih : ReadsOrdered fuel)
    (h : items? (fuel + 1) depth cs = some (ts, rest)) : ∀ t ∈ ts, Ordered t := by
  rw [items?] at h
  split at h
  · cases h
  · obtain ⟨rfl, -⟩ := Prod.mk.inj (Option.some.inj h)
    simp
  split at h
  · cases h
  next hv =>
  have hv := ih.value hv
  split at h
  · obtain ⟨⟨vs, rest'⟩, hvs, heq⟩ := Option.map_eq_some_iff.1 h
    obtain ⟨rfl, -⟩ := Prod.mk.inj heq
    exact List.forall_mem_cons.2 ⟨hv, ih.items hvs⟩
  · obtain ⟨rfl, -⟩ := Prod.mk.inj (Option.some.inj h)
    simpa using hv
  · cases h

lemma pairs_succ (ih : ReadsOrdered fuel) (hfound : Ascending found)
    (h : pairs? (fuel + 1) depth found cs = some (fields, rest)) : Ascending fields := by
  rw [pairs?] at h
  split at h
  · cases h
  · obtain ⟨rfl, -⟩ := Prod.mk.inj (Option.some.inj h)
    exact hfound
  split at h
  swap
  · cases h
  split at h
  · cases h
  next hv =>
  have hv := ih.value hv
  split at h
  · next hdefine _ => exact ih.pairs (hfound.define hv hdefine) h
  · next hdefine _ =>
    obtain ⟨rfl, -⟩ := Prod.mk.inj (Option.some.inj h)
    exact hfound.define hv hdefine
  · cases h

end ReadsOrdered

lemma readsOrdered (fuel : Nat) : ReadsOrdered fuel := by
  induction fuel with
  | zero =>
    refine ⟨fun h => ?_, fun h => ?_, fun _ h => ?_⟩
    · rw [value?] at h
      cases h
    · rw [items?] at h
      cases h
    · rw [pairs?] at h
      cases h
  | succ fuel ih => exact ⟨ih.value_succ, ih.items_succ, ih.pairs_succ⟩

lemma ordered_of_pair? {cs rest : List Char} (h : pair? cs = some (path, key, t, rest)) :
    Ordered t := by
  unfold pair? at h
  split at h
  · obtain ⟨⟨v, rest'⟩, hv, heq⟩ := Option.map_eq_some_iff.1 h
    simp only [Prod.mk.injEq] at heq
    exact heq.2.2.1 ▸ (readsOrdered _).value hv
  · cases h

lemma Ascending.statement? {d d' : Draft} {cs rest : List Char} (h : Ascending d.fields)
    (hstatement : statement? d cs = some (d', rest)) : Ascending d'.fields := by
  unfold Toml.statement? at hstatement
  split at hstatement
  · split at hstatement
    · obtain ⟨fields, hfields, heq⟩ := Option.map_eq_some_iff.1 hstatement
      exact (Prod.mk.inj heq).1 ▸ h.openItem hfields
    · cases hstatement
  · split at hstatement
    · obtain ⟨fields, hfields, heq⟩ := Option.map_eq_some_iff.1 hstatement
      exact (Prod.mk.inj heq).1 ▸ h.openTable hfields
    · cases hstatement
  · split at hstatement
    · cases hstatement
    · next hpair =>
      obtain ⟨fields, hfields, heq⟩ := Option.map_eq_some_iff.1 hstatement
      have hchange := h.alter (fun _ _ _ h hdefine => h.define (ordered_of_pair? hpair) hdefine) hfields
      exact (Prod.mk.inj heq).1 ▸ hchange

lemma ascending_of_statements? {fuel : Nat} {d : Draft} {cs : List Char} (h : Ascending d.fields)
    (hstatements : statements? fuel d cs = some fields) : Ascending fields := by
  induction fuel generalizing d cs with
  | zero => cases hstatements
  | succ fuel ih =>
    rw [statements?] at hstatements
    split at hstatements
    · cases hstatements
    · exact Option.some.inj hstatements ▸ h
    · split at hstatements
      · cases hstatements
      · next hstatement =>
        obtain ⟨rest, -, hrest⟩ := Option.bind_eq_some_iff.1 hstatements
        exact ih (h.statement? hstatement) hrest

/-- The tables of a document have their fields in order. -/
theorem ascending_of_parse? {text : String} (h : parse? text = some fields) : Ascending fields :=
  ascending_of_statements? .nil h

end CommentBlocks.Toml
