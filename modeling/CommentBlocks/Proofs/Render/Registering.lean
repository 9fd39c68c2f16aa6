import CommentBlocks.Render.Registry
import Mathlib.Data.List.Induction
import Mathlib.Data.List.Nodup
import Mathlib.Tactic.Lemma

/-!
What a registry holds after any number of registrations.

A registration under a name that is listed changes the value at its place, any other one adds a name at
the end. So the list of the names shows which came up first, and the values which came up last; the look-up
by small letters goes by the first.
-/

namespace CommentBlocks.Registry

variable {α : Type} {name query : String} {value : α} {entries : List (String × α)}

/-! ### One registration -/

lemma map_fst_set (name : String) (value : α) (entries : List (String × α)) :
    (set name value entries).map Prod.fst =
      if name ∈ entries.map Prod.fst then entries.map Prod.fst
      else entries.map Prod.fst ++ [name] := by
  induction entries with
  | nil => rfl
  | cons e entries ih =>
    obtain ⟨n, v⟩ := e
    by_cases h : n = name
    · simp [set, h]
    · simp only [set, h, if_false, List.map_cons, ih, List.mem_cons, Ne.symm h, false_or]
      split <;> rfl

lemma lookup_set_self (name : String) (value : α) (entries : List (String × α)) :
    (set name value entries).lookup name = some value := by
  induction entries with
  | nil => simp [set]
  | cons e entries ih =>
    obtain ⟨n, v⟩ := e
    by_cases h : n = name
    · simp [set, h]
    · rw [set, if_neg h, List.lookup_cons, beq_eq_false_iff_ne.2 (Ne.symm h)]
      exact ih

lemma lookup_set_of_ne (h : query ≠ name) (value : α) (entries : List (String × α)) :
    (set name value entries).lookup query = entries.lookup query := by
  have hname : (query == name) = false := beq_eq_false_iff_ne.2 h
  induction entries with
  | nil => simp [set, List.lookup_cons, hname]
  | cons e entries ih =>
    obtain ⟨n, v⟩ := e
    by_cases hn : n = name
    · simp [set, hn, List.lookup_cons, hname]
    · rw [set, if_neg hn, List.lookup_cons, List.lookup_cons, ih]

/-! ### Look-up -/

lemma find?_eq_lookup (query : String) (entries : List (String × α)) :
    (entries.find? (·.1 = query)).map (·.2) = entries.lookup query := by
  induction entries with
  | nil => rfl
  | cons e entries ih =>
    obtain ⟨n, v⟩ := e
    by_cases h : n = query
    · simp [h]
    · rw [List.lookup_cons, beq_eq_false_iff_ne.2 (Ne.symm h), ← ih]
      simp [h]

/-- In a list without two entries of one name, the first entry whose name is as wanted is the one under the
first name that is as wanted. -/
lemma find?_eq_bind_lookup (p : String → Bool) (hnodup : (entries.map Prod.fst).Nodup) :
    (entries.find? (p ·.1)).map (·.2) =
      ((entries.map Prod.fst).find? p).bind fun name => entries.lookup name := by
  induction entries with
  | nil => rfl
  | cons e entries ih =>
    obtain ⟨n, v⟩ := e
    obtain ⟨hn, hentries⟩ := List.nodup_cons.1 hnodup
    rw [List.map_cons, List.find?_cons, List.find?_cons]
    cases hp : p n with
    | true => simp
    | false =>
      refine (ih hentries).trans (Option.bind_congr fun name hname => ?_)
      -- the name found is that of a later entry
      have hne : name ≠ n := fun h => hn (h ▸ List.mem_of_find?_eq_some hname)
      rw [List.lookup_cons, beq_eq_false_iff_ne.2 hne]

lemma get?_eq (r : Registry α) (hnodup : r.names.Nodup) (query : String) :
    r.get? query = (r.entries.lookup query).or
      ((r.names.find? (sameName · query)).bind fun name => r.entries.lookup name) := by
  have hexact := find?_eq_lookup query r.entries
  have hsame := find?_eq_bind_lookup (sameName · query)
    (show (r.entries.map Prod.fst).Nodup from hnodup)
  rw [get?, ← hexact, names, ← hsame]
  cases r.entries.find? (·.1 = query) <;> rfl

/-! ### Any number of registrations -/

def ofList (calls : List (String × α)) : Registry α :=
  calls.foldl (fun r call => r.register call.1 call.2) empty

/-- The value that was registered last under that very name. -/
def latest? (calls : List (String × α)) (name : String) : Option α := calls.reverse.lookup name

lemma latest?_concat (calls : List (String × α)) (name query : String) (value : α) :
    latest? (calls ++ [(name, value)]) query =
      if query = name then some value else latest? calls query := by
  by_cases h : query = name
  · simp [latest?, h]
  · simp [latest?, h, List.lookup_cons, beq_eq_false_iff_ne.2 h]

structure Holds (calls : List (String × α)) (r : Registry α) : Prop where
  nodup : r.names.Nodup
  mem_names_iff : ∀ name, name ∈ r.names ↔ name ∈ calls.map Prod.fst
  /-- A name stands in front of those that came up later. -/
  ordered : r.names.Pairwise fun a b =>
    (calls.map Prod.fst).idxOf a < (calls.map Prod.fst).idxOf b
  lookup_eq : ∀ name, r.entries.lookup name = latest? calls name

variable {calls : List (String × α)} {r : Registry α}

lemma holds_empty : Holds (α := α) [] empty where
  nodup := List.nodup_nil
  mem_names_iff := fun _ => Iff.rfl
  ordered := List.Pairwise.nil
  lookup_eq := fun _ => rfl

lemma Holds.register (h : Holds calls r) (name : String) (value : α) :
    Holds (calls ++ [(name, value)]) (r.register name value) := by
  have hnames : (r.register name value).names =
      if name ∈ r.names then r.names else r.names ++ [name] := map_fst_set name value r.entries
  have hcalls : (calls ++ [(name, value)]).map Prod.fst = calls.map Prod.fst ++ [name] := by simp
  have hplace {a : String} (ha : a ∈ r.names) :
      (calls.map Prod.fst ++ [name]).idxOf a = (calls.map Prod.fst).idxOf a :=
    List.idxOf_append_of_mem ((h.mem_names_iff a).1 ha)
  have hordered : r.names.Pairwise fun a b =>
      (calls.map Prod.fst ++ [name]).idxOf a < (calls.map Prod.fst ++ [name]).idxOf b :=
    h.ordered.imp_of_mem fun ha hb hlt => by rwa [hplace ha, hplace hb]
  refine ⟨?_, fun query => ?_, ?_, fun query => ?_⟩
  · rw [hnames]
    split
    · exact h.nodup
    · next hname => exact List.concat_eq_append ▸ h.nodup.concat hname
  · rw [hnames, hcalls, List.mem_append, ← h.mem_names_iff]
    split
    · next hname => simp_all
    · rw [List.mem_append]
  · rw [hnames, hcalls]
    split
    · exact hordered
    · next hname =>
      refine List.pairwise_append.2 ⟨hordered, List.pairwise_singleton _ _, fun a ha b hb => ?_⟩
      obtain rfl := List.mem_singleton.1 hb
      rw [hplace ha, List.idxOf_append_of_notMem fun hb => hname ((h.mem_names_iff b).2 hb)]
      have := List.idxOf_lt_length_iff.2 ((h.mem_names_iff a).1 ha)
      omega
  · rw [latest?_concat]
    split
    · next heq => exact heq ▸ lookup_set_self name value r.entries
    · next hne => exact (lookup_set_of_ne hne value r.entries).trans (h.lookup_eq query)

lemma holds_ofList (calls : List (String × α)) : Holds calls (ofList calls) := by
  induction calls using List.reverseRecOn with
  | nil => exact holds_empty
  | append_singleton calls call ih =>
    rw [ofList, List.foldl_append]
    exact ih.register call.1 call.2

/-- After any registrations each name is listed once, in the order in which the names came up first. A
look-up gives the last value of that very name, or else the last value of the first name in the list that
differs in ASCII case only. -/
theorem get?_ofList (calls : List (String × α)) :
    (ofList calls).names.Nodup ∧
      (∀ name, name ∈ (ofList calls).names ↔ name ∈ calls.map Prod.fst) ∧
      ((ofList calls).names.Pairwise fun a b =>
        (calls.map Prod.fst).idxOf a < (calls.map Prod.fst).idxOf b) ∧
      (ofList calls).size = (ofList calls).names.length ∧
      ∀ query, (ofList calls).get? query =
        match latest? calls query with
        | some value => some value
        | none => ((ofList calls).names.find? (sameName · query)).bind (latest? calls) := by
  have h := holds_ofList calls
  refine ⟨h.nodup, h.mem_names_iff, h.ordered, by simp [size, names], fun query => ?_⟩
  rw [get?_eq _ h.nodup, h.lookup_eq]
  simp only [h.lookup_eq]
  cases latest? calls query <;> rfl

example : (ofList [("b", 0), ("A", 1), ("a", 2), ("b", 3), ("A", 4)]).entries =
    [("b", 3), ("A", 4), ("a", 2)] := by decide

end CommentBlocks.Registry
