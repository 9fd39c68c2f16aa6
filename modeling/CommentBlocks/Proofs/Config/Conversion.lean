import CommentBlocks.Config.Settings
import CommentBlocks.Proofs.Folding
import Mathlib.Tactic.Lemma

/-!
The values that settings are turned into.

A setting and its value are trees of one shape. The conversion stops at a floating point number that is not
finite, and names the tables on the way to it. Ways into a setting are compared step by step, keys by their
order and places in arrays by theirs, and of all such numbers the conversion stops at the one that comes
first.
-/

namespace CommentBlocks.Setting

/-- To prove something of all settings, it may be assumed of the items of an array and of the fields of a
table. -/
@[elab_as_elim]
theorem inductionOnParts {motive : Setting → Prop} (string : ∀ s, motive (.string s))
    (integer : ∀ i, motive (.integer i)) (float : ∀ x, motive (.float x))
    (boolean : ∀ b, motive (.boolean b)) (datetime : ∀ text, motive (.datetime text))
    (array : ∀ items, (∀ t ∈ items, motive t) → motive (.array items))
    (table : ∀ fields, (∀ f ∈ fields, motive f.2) → motive (.table fields)) : ∀ t, motive t
  | .string s => string s
  | .integer i => integer i
  | .float x => float x
  | .boolean b => boolean b
  | .datetime text => datetime text
  | .array items => array items fun t _ =>
    inductionOnParts string integer float boolean datetime array table t
  | .table fields => table fields fun f _ =>
    inductionOnParts string integer float boolean datetime array table f.2
termination_by t => sizeOf t
decreasing_by
  · have := List.sizeOf_lt_of_mem ‹t ∈ items›
    simp only [Setting.array.sizeOf_spec]
    omega
  · have := List.sizeOf_lt_of_mem ‹f ∈ fields›
    obtain ⟨k, t⟩ := f
    simp only [Setting.table.sizeOf_spec, Prod.mk.sizeOf_spec] at *
    omega

/-! ### Ways into a setting -/

inductive Step where
  | item (place : Nat)
  | field (key : String)

/-- One step comes before another one from the same place. -/
inductive Step.Before : Step → Step → Prop where
  | item {i j : Nat} (h : i < j) : Before (.item i) (.item j)
  | field {k l : String} (h : k < l) : Before (.field k) (.field l)

def Step.key? : Step → Option String
  | item _ => none
  | field key => some key

inductive Leads : Setting → List Step → Setting → Prop where
  | here (t : Setting) : Leads t [] t
  | item {items : List Setting} {i : Nat} {t s : Setting} {way : List Step} (ht : items[i]? = some t)
    (h : Leads t way s) : Leads (.array items) (.item i :: way) s
  | field {fields : List (String × Setting)} {key : String} {t s : Setting} {way : List Step}
    (ht : (key, t) ∈ fields) (h : Leads t way s) : Leads (.table fields) (.field key :: way) s

/-- In every table the fields are in ascending order of their keys, each key once. -/
inductive Ordered : Setting → Prop where
  | string (s : String) : Ordered (.string s)
  | integer (i : Int) : Ordered (.integer i)
  | float (x : Binary64) : Ordered (.float x)
  | boolean (b : Bool) : Ordered (.boolean b)
  | datetime (text : String) : Ordered (.datetime text)
  | array {items : List Setting} (hitems : ∀ t ∈ items, Ordered t) : Ordered (.array items)
  | table {fields : List (String × Setting)} (hkeys : (fields.map Prod.fst).Pairwise (· < ·))
    (hfields : ∀ f ∈ fields, Ordered f.2) : Ordered (.table fields)

def AllFinite (t : Setting) : Prop := ∀ way x, Leads t way (.float x) → x.isFinite = true

/-- The number at the end of the way is not finite, and all others that are not come later. -/
structure StopsAt (t : Setting) (way : List Step) (x : Binary64) : Prop where
  leads : Leads t way (.float x)
  notFinite : x.isFinite = false
  first : ∀ way' x', Leads t way' (.float x') → x'.isFinite = false →
    way' = way ∨ List.Lex Step.Before way way'

/-- The name of what stands at the end of the way: the keys on it with dots in between, behind the name of
where it starts. -/
def nameOf (start : String) (way : List Step) : String :=
  String.intercalate "." (start :: way.filterMap Step.key?)

/-- The value has the shape of the setting: the same keys and the same items in the same order, the same
scalars, and dates as their text. -/
inductive Matches : Setting → Value → Prop where
  | string (s : String) : Matches (.string s) (.string s)
  | integer (i : Int) : Matches (.integer i) (.int i)
  | float (x : Binary64) : Matches (.float x) (.float x)
  | boolean (b : Bool) : Matches (.boolean b) (.bool b)
  | datetime (text : String) : Matches (.datetime text) (.string text)
  | array {items : List Setting} {vs : List Value} (h : List.Forall₂ Matches items vs) :
    Matches (.array items) (.array vs)
  | table {fields : List (String × Setting)} {vs : Fields}
    (hkeys : fields.map Prod.fst = vs.map Prod.fst)
    (h : List.Forall₂ Matches (fields.map Prod.snd) (vs.map Prod.snd)) :
    Matches (.table fields) (.object vs)

variable {t : Setting} {items : List Setting} {fields : List (String × Setting)} {path : String}
  {fault : Fault}

lemma nameOf_item (start : String) (i : Nat) (way : List Step) :
    nameOf start (.item i :: way) = nameOf start way := rfl

lemma nameOf_field (start key : String) (way : List Step) :
    nameOf start (.field key :: way) = nameOf (start ++ "." ++ key) way := rfl

/-! ### One array and one table -/

lemma values_eq_mapM (path : String) (items : List Setting) :
    values path items = items.mapM (value path) := by
  induction items with
  | nil => rfl
  | cons t items ih =>
    rw [values, List.mapM_cons, ← ih]
    cases value path t with
    | error fault => rfl
    | ok v => cases values path items <;> rfl

lemma fieldValues_eq_mapM (path : String) (fields : List (String × Setting)) :
    fieldValues path fields =
      fields.mapM fun f => (value (path ++ "." ++ f.1) f.2).map fun v => (f.1, v) := by
  induction fields with
  | nil => rfl
  | cons f fields ih =>
    obtain ⟨k, t⟩ := f
    rw [fieldValues, List.mapM_cons, ← ih]
    cases value (path ++ "." ++ k) t with
    | error fault => rfl
    | ok v => cases fieldValues path fields <;> rfl

/-- The first item of an array with a number that is not finite is where the conversion stops. -/
lemma StopsAt.item {before after : List Setting} {way : List Step} {x : Binary64}
    (h : StopsAt t way x) (hbefore : ∀ s ∈ before, AllFinite s) :
    StopsAt (.array (before ++ t :: after)) (.item before.length :: way) x where
  leads := .item (by simp) h.leads
  notFinite := h.notFinite
  first := by
    intro way' x' hleads hx'
    cases hleads with
    | @item _ i s _ _ hs hway =>
      rcases Nat.lt_trichotomy i before.length with hlt | rfl | hgt
      · rw [List.getElem?_append_left hlt] at hs
        exact absurd (hbefore s (List.mem_of_getElem? hs) _ _ hway) (by simp [hx'])
      · obtain rfl : t = s := by simpa using hs
        exact (h.first _ _ hway hx').imp (congrArg _) .cons
      · exact .inr (.rel (.item hgt))

lemma StopsAt.field {before after : List (String × Setting)} {key : String} {way : List Step}
    {x : Binary64} (h : StopsAt t way x) (hbefore : ∀ f ∈ before, AllFinite f.2)
    (hkeys : ((before ++ (key, t) :: after).map Prod.fst).Pairwise (· < ·)) :
    StopsAt (.table (before ++ (key, t) :: after)) (.field key :: way) x where
  leads := .field (by simp) h.leads
  notFinite := h.notFinite
  first := by
    intro way' x' hleads hx'
    rw [List.map_append, List.map_cons] at hkeys
    have hlater := (List.pairwise_cons.1 (List.pairwise_append.1 hkeys).2.1).1
    cases hleads with
    | @field _ k s _ _ hs hway =>
      rcases List.mem_append.1 hs with hs | hs
      · exact absurd (hbefore _ hs _ _ hway) (by simp [hx'])
      · rcases List.mem_cons.1 hs with heq | hs
        · obtain ⟨rfl, rfl⟩ := Prod.mk.inj heq
          exact (h.first _ _ hway hx').imp (congrArg _) .cons
        · exact .inr (.rel (.field (hlater k (List.mem_map_of_mem hs))))

/-! ### A whole setting -/

inductive Converts (path : String) (t : Setting) : Except Fault Value → Prop where
  | done {v : Value} (hmatches : Matches t v) (hfinite : AllFinite t) : Converts path t (.ok v)
  | stopped {way : List Step} {x : Binary64} (h : StopsAt t way x) :
    Converts path t (.error (.unconvertibleFloat (nameOf path way) (nonFiniteText x)))

lemma Converts.of_ok {v : Value} (h : Converts path t (.ok v)) : Matches t v ∧ AllFinite t := by
  cases h with
  | done hmatches hfinite => exact ⟨hmatches, hfinite⟩

lemma converts_array (hparts : ∀ t ∈ items, Converts path t (value path t)) :
    Converts path (.array items) (value path (.array items)) := by
  rw [value, values_eq_mapM]
  rcases mapM_cases (value path) items with
    ⟨vs, hvs, hall⟩ | ⟨before, t, after, fault, rfl, hbefore, ht, hstop⟩
  · rw [hvs]
    have hall : List.Forall₂ (fun t v => Matches t v ∧ AllFinite t) items vs :=
      ((List.forall₂_and_left _ _).2 ⟨hparts, hall⟩).imp fun t v h => (h.2 ▸ h.1).of_ok
    refine .done (.array (hall.imp fun _ _ h => h.1)) ?_
    intro way x hleads
    cases hleads with
    | item hs hway =>
      obtain ⟨v, -, hv⟩ := exists_getElem?_right hall hs
      exact hv.2 _ _ hway
  · rw [hstop]
    have hfinite : ∀ s ∈ before, AllFinite s := fun s hs => by
      obtain ⟨v, hv⟩ := hbefore s hs
      exact (hv ▸ hparts s (List.mem_append_left _ hs)).of_ok.2
    have hconverts := hparts t (by simp)
    rw [ht] at hconverts
    cases hconverts with
    | @stopped way x h =>
      rw [← nameOf_item path before.length way]
      exact .stopped (h.item hfinite)

lemma converts_table (hkeys : (fields.map Prod.fst).Pairwise (· < ·))
    (hparts : ∀ f ∈ fields, Converts (path ++ "." ++ f.1) f.2 (value (path ++ "." ++ f.1) f.2)) :
    Converts path (.table fields) (value path (.table fields)) := by
  rw [value, fieldValues_eq_mapM]
  rcases mapM_cases (fun f => (value (path ++ "." ++ f.1) f.2).map fun v => (f.1, v)) fields with
    ⟨vs, hvs, hall⟩ | ⟨before, f, after, fault, rfl, hbefore, hf, hstop⟩
  · rw [hvs]
    have hall : List.Forall₂ (fun f v => f.1 = v.1 ∧ Matches f.2 v.2 ∧ AllFinite f.2) fields vs := by
      refine ((List.forall₂_and_left _ _).2 ⟨hparts, hall⟩).imp fun f v ⟨hconverts, hv⟩ => ?_
      obtain ⟨w, hw, rfl⟩ := map_eq_ok_iff.1 hv
      exact ⟨rfl, (hw ▸ hconverts).of_ok⟩
    have hsame : fields.map Prod.fst = vs.map Prod.fst :=
      (map_eq_of_forall₂ hall fun f v h => h.1.symm).symm
    refine .done (.table hsame ?_) ?_
    · exact List.forall₂_map_left_iff.2 (List.forall₂_map_right_iff.2 (hall.imp fun _ _ h => h.2.1))
    · intro way x hleads
      cases hleads with
      | field hs hway =>
        obtain ⟨i, hi⟩ := List.getElem?_of_mem hs
        obtain ⟨v, -, hv⟩ := exists_getElem?_right hall hi
        exact hv.2.2 _ _ hway
  · rw [hstop]
    have hfinite : ∀ g ∈ before, AllFinite g.2 := fun g hg => by
      obtain ⟨v, hv⟩ := hbefore g hg
      obtain ⟨w, hw, -⟩ := map_eq_ok_iff.1 hv
      exact (hw ▸ hparts g (List.mem_append_left _ hg)).of_ok.2
    obtain ⟨key, t⟩ := f
    have hconverts := hparts (key, t) (by simp)
    rw [map_eq_error_iff.1 hf] at hconverts
    cases hconverts with
    | @stopped way x h =>
      rw [← nameOf_field path key way]
      exact .stopped (h.field hfinite hkeys)

lemma converts_value (t : Setting) (ht : Ordered t) (path : String) :
    Converts path t (value path t) := by
  induction t using inductionOnParts generalizing path with
  | string s => exact .done (.string s) fun _ _ h => nomatch h
  | integer i => exact .done (.integer i) fun _ _ h => nomatch h
  | float x =>
    rw [value]
    split
    · next hx =>
      refine .done (.float x) fun _ _ h => ?_
      cases h with
      | here => exact hx
    · next hx =>
      have hstops : StopsAt (.float x) [] x := by
        refine ⟨.here _, by simpa using hx, fun _ _ h _ => ?_⟩
        cases h with
        | here => exact .inl rfl
      exact .stopped hstops
  | boolean b => exact .done (.boolean b) fun _ _ h => nomatch h
  | datetime text => exact .done (.datetime text) fun _ _ h => nomatch h
  | array items ih =>
    cases ht with
    | array hitems => exact converts_array fun t ht => ih t ht (hitems t ht) path
  | table fields ih =>
    cases ht with
    | table hkeys hfields => exact converts_table hkeys fun f hf => ih f hf (hfields f hf) _

end CommentBlocks.Setting
