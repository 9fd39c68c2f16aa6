import CommentBlocks.Proofs.Path.Relative
import Mathlib.Algebra.Ring.Parity

/-!
Where the components of a path lead, and what working out its dots makes of it.

A double dot with no name to leave is a climb. The place that a path leads to keeps the climbs of a
relative path and none at the root. Working out the dots lets each climb take back the one before it, so
that only their parity is kept, also at the root.
-/

namespace CommentBlocks

/-! ### Steps below a directory -/

namespace Component

def IsName (name : String) : Prop :=
  '/' ∉ name.toList ∧ ofPiece? false name.toList = some (.normal name)

/-- The component leads up or down from where it stands. -/
inductive Moves : Component → Prop
  | parent : Moves .parent
  | normal {name : String} (h : IsName name) : Moves (.normal name)

variable {c : Component}

lemma Moves.piece (h : c.Moves) :
    '/' ∉ c.text.toList ∧ ∀ atStart, ofPiece? atStart c.text.toList = some c := by
  cases h with
  | parent => exact ⟨by decide, fun _ => rfl⟩
  | normal h => exact ⟨h.1, fun _ => Path.ofPiece?_eq_normal_iff.2 ⟨rfl, h.2⟩⟩

lemma Moves.ne_root (h : c.Moves) : c ≠ .root := by
  rintro rfl
  cases h

lemma Moves.isAbsolute (h : c.Moves) : (Path.mk c.text).isAbsolute = false := by
  rw [Path.isAbsolute, beq_eq_false_iff_ne]
  exact fun hhead => h.piece.1 (List.mem_of_mem_head? hhead)

lemma Moves.below (h : c.Moves) : Path.below c.text.toList = [c] := by
  rw [Path.below, Text.splitAt_of_not_mem h.piece.1, List.filterMap_cons, h.piece.2]
  rfl

lemma Moves.components (h : c.Moves) : (Path.mk c.text).components = [c] := by
  have hrelative : c.text.toList.head? ≠ some '/' := fun hhead =>
    h.piece.1 (List.mem_of_mem_head? hhead)
  rw [Path.components, Path.spans_of_relative hrelative, Text.splitAt_of_not_mem h.piece.1,
    Path.spansFrom_cons, h.piece.2]
  rfl

end Component

namespace Path

open Component (IsName Moves)

/-- The components of a path that starts at the root, or of one that does not. -/
def anchored (isAbsolute : Bool) (cs : List Component) : List Component :=
  if isAbsolute then .root :: cs else cs

lemma anchored_append (isAbsolute : Bool) (cs ds : List Component) :
    anchored isAbsolute (cs ++ ds) = anchored isAbsolute cs ++ ds := by
  cases isAbsolute <;> rfl

lemma anchored_inj {a a' : Bool} {cs cs' : List Component} (h : .root ∉ cs) (h' : .root ∉ cs') :
    anchored a cs = anchored a' cs' ↔ a = a' ∧ cs = cs' := by
  have hmixed : ∀ {ds es : List Component}, .root ∉ es → .root :: ds ≠ es :=
    fun hes heq => hes (heq ▸ List.mem_cons_self)
  cases a <;> cases a'
  · simp [anchored]
  · exact iff_of_false (hmixed h).symm (by simp)
  · exact iff_of_false (hmixed h') (by simp)
  · simp [anchored]

lemma components_ofComponents (isAbsolute : Bool) {cs : List Component} (h : ∀ c ∈ cs, c.Moves) :
    (ofComponents (anchored isAbsolute cs)).components = anchored isAbsolute cs := by
  induction cs using List.reverseRecOn with
  | nil => cases isAbsolute <;> decide
  | append_singleton cs c ih =>
    have hc : c.Moves := h c (by simp)
    have ih := ih fun d hd => h d (List.mem_append_left _ hd)
    rw [anchored_append, ofComponents, List.foldl_append, List.foldl_cons, List.foldl_nil,
      ← ofComponents]
    by_cases hfirst : (ofComponents (anchored isAbsolute cs)).components = []
    · have htext := components_eq_nil_iff.1 hfirst
      rw [ih] at hfirst
      rw [join, hc.isAbsolute, if_neg (by simp), htext, hfirst]
      simpa using hc.components
    · rw [components_join hfirst hc.isAbsolute, hc.below, ih]

lemma isName_of_mem_components {p : Path} {name : String} (h : .normal name ∈ p.components) :
    IsName name := by
  obtain ⟨hpiece, hname⟩ := normal_mem_components_iff.1 h
  exact ⟨Text.not_mem_of_mem_splitAt hpiece, hname⟩

/-- The root stands at the start of an absolute path and nowhere else. -/
lemma exists_anchored (p : Path) :
    ∃ cs, p.components = anchored p.isAbsolute cs ∧ .root ∉ cs := by
  cases habsolute : p.isAbsolute with
  | true =>
    obtain ⟨rest, hrest⟩ := List.head?_eq_some_iff.1 (beq_iff_eq.1 habsolute)
    refine ⟨below rest, by rw [components, hrest, map_spans_slash]; rfl, ?_⟩
    rw [below, ← map_spansFrom_of_pos Nat.one_pos]
    exact root_not_mem_spansFrom _ _
  | false =>
    have hrelative : p.text.toList.head? ≠ some '/' := beq_eq_false_iff_ne.1 habsolute
    refine ⟨p.components, rfl, ?_⟩
    rw [components, spans_of_relative hrelative]
    exact root_not_mem_spansFrom _ _

end Path

/-! ### Locations -/

/-- Where the components of a path lead. -/
structure Location where
  isAbsolute : Bool
  /-- How many double dots have found no name to leave. -/
  climbs : Nat
  /-- The names that nothing has left, the last one first. -/
  names : List String
deriving DecidableEq, Repr

namespace Location

open Component (IsName Moves)
open CommentBlocks.Path (anchored ofComponents resolveStep)

def start : Location := ⟨false, 0, []⟩

def step (l : Location) : Component → Location
  | .root => { l with isAbsolute := true }
  | .current => l
  | .parent =>
    match l.names with
    | [] => { l with climbs := l.climbs + 1 }
    | _ :: names => { l with names }
  | .normal name => { l with names := name :: l.names }

def way (l : Location) (climbs : Nat) : List Component :=
  List.replicate climbs .parent ++ l.names.reverse.map .normal

/-- The components that lead to the names from so many directories further up. -/
def componentsFrom (l : Location) (climbs : Nat) : List Component :=
  anchored l.isAbsolute (l.way climbs)

/-- The shortest components that lead to the location. Nothing is above the root. -/
def components (l : Location) : List Component :=
  l.componentsFrom (if l.isAbsolute then 0 else l.climbs)

def path (l : Location) : Path := ofComponents l.components

variable {l : Location}

lemma count_way (l : Location) (climbs : Nat) : (l.way climbs).count .parent = climbs := by
  have hnone : (l.names.reverse.map Component.normal).count .parent = 0 :=
    List.count_eq_zero.2 (by simp)
  rw [way, List.count_append, hnone, List.count_replicate_self, Nat.add_zero]

/-- All names are such as stand in paths. -/
def Named (l : Location) : Prop := ∀ name ∈ l.names, IsName name

lemma Named.moves (h : l.Named) (climbs : Nat) : ∀ c ∈ l.way climbs, c.Moves := by
  intro c hc
  rcases List.mem_append.1 hc with hc | hc
  · rw [List.eq_of_mem_replicate hc]
    exact .parent
  · obtain ⟨name, hname, rfl⟩ := List.mem_map.1 hc
    exact .normal (h name (List.mem_reverse.1 hname))

lemma Named.components_ofComponents (h : l.Named) (climbs : Nat) :
    (ofComponents (l.componentsFrom climbs)).components = l.componentsFrom climbs :=
  Path.components_ofComponents _ (h.moves climbs)

lemma Named.componentsFrom_inj (h : l.Named) {l' : Location} (h' : l'.Named) {m n : Nat} :
    l.componentsFrom m = l'.componentsFrom n ↔
      l.isAbsolute = l'.isAbsolute ∧ m = n ∧ l.names = l'.names := by
  rw [componentsFrom, componentsFrom, Path.anchored_inj
    (fun hroot => (h.moves m _ hroot).ne_root rfl) fun hroot => (h'.moves n _ hroot).ne_root rfl]
  refine and_congr_right fun _ => ⟨fun heq => ?_, fun ⟨hclimbs, hnames⟩ => ?_⟩
  · obtain rfl : m = n := by rw [← l.count_way m, heq, count_way]
    have hnames := List.map_injective_iff.2 (fun _ _ => Component.normal.inj)
      (List.append_cancel_left heq)
    exact ⟨rfl, List.reverse_injective hnames⟩
  · rw [way, way, hclimbs, hnames]

lemma Named.ofComponents_inj (h : l.Named) {l' : Location} (h' : l'.Named) {m n : Nat} :
    ofComponents (l.componentsFrom m) = ofComponents (l'.componentsFrom n) ↔
      l.isAbsolute = l'.isAbsolute ∧ m = n ∧ l.names = l'.names := by
  rw [← h.componentsFrom_inj h']
  constructor
  · intro heq
    rw [← h.components_ofComponents m, heq, h'.components_ofComponents n]
  · exact congrArg ofComponents

/-! ### Working out the dots, step by step -/

def stack (l : Location) : List Component := (l.componentsFrom (l.climbs % 2)).reverse

lemma resolveStep_stack (l : Location) {c : Component} (hc : c ≠ .root) :
    resolveStep l.stack c = (l.step c).stack := by
  obtain ⟨isAbsolute, climbs, names⟩ := l
  cases c with
  | root => exact absurd rfl hc
  | current => rfl
  | normal name =>
    cases isAbsolute <;> simp [stack, componentsFrom, way, anchored, step, resolveStep]
  | parent =>
    cases names with
    | cons name names =>
      cases isAbsolute <;> simp [stack, componentsFrom, way, anchored, step, resolveStep]
    | nil =>
      rcases Nat.mod_two_eq_zero_or_one climbs with hmod | hmod
      · have hnext : (climbs + 1) % 2 = 1 := by omega
        cases isAbsolute <;>
          simp [stack, componentsFrom, way, anchored, step, resolveStep, hmod, hnext]
      · have hnext : (climbs + 1) % 2 = 0 := by omega
        cases isAbsolute <;>
          simp [stack, componentsFrom, way, anchored, step, resolveStep, hmod, hnext]

lemma foldl_resolveStep {cs : List Component} (h : .root ∉ cs) (l : Location) :
    cs.foldl resolveStep l.stack = (cs.foldl step l).stack := by
  induction cs generalizing l with
  | nil => rfl
  | cons c cs ih =>
    rw [List.mem_cons, not_or] at h
    rw [List.foldl_cons, List.foldl_cons, resolveStep_stack l (Ne.symm h.1), ih h.2]

/-- Below the root no step leaves the tree, and names come from components. -/
lemma step_cases {c : Component} (hc : c ≠ .root) (l : Location) :
    (l.step c).isAbsolute = l.isAbsolute ∧
      ∀ name ∈ (l.step c).names, name ∈ l.names ∨ c = .normal name := by
  cases c with
  | root => exact absurd rfl hc
  | current => exact ⟨rfl, fun name hname => .inl hname⟩
  | normal name =>
    refine ⟨rfl, fun other hother => ?_⟩
    rcases List.mem_cons.1 hother with rfl | hother
    · exact .inr rfl
    · exact .inl hother
  | parent =>
    obtain ⟨isAbsolute, climbs, names⟩ := l
    cases names with
    | nil => exact ⟨rfl, fun name hname => .inl hname⟩
    | cons first names => exact ⟨rfl, fun name hname => .inl (List.mem_cons_of_mem _ hname)⟩

lemma foldl_step {cs : List Component} (h : .root ∉ cs) (l : Location) :
    (cs.foldl step l).isAbsolute = l.isAbsolute ∧
      ∀ name ∈ (cs.foldl step l).names, name ∈ l.names ∨ .normal name ∈ cs := by
  induction cs generalizing l with
  | nil => exact ⟨rfl, fun name hname => .inl hname⟩
  | cons c cs ih =>
    rw [List.mem_cons, not_or] at h
    obtain ⟨habsolute, hnames⟩ := step_cases (Ne.symm h.1) l
    obtain ⟨habsolute', hnames'⟩ := ih h.2 (l.step c)
    refine ⟨habsolute'.trans habsolute, fun name hname => ?_⟩
    rcases hnames' name hname with hname | hname
    · exact (hnames name hname).imp_right fun hc => by rw [hc]; exact List.mem_cons_self
    · exact .inr (List.mem_cons_of_mem _ hname)

end Location

/-! ### The location of a path -/

namespace Path

def location (p : Path) : Location := p.components.foldl Location.step .start

lemma location_spec (p : Path) : p.location.isAbsolute = p.isAbsolute ∧ p.location.Named ∧
    p.normalize = ofComponents (p.location.componentsFrom (p.location.climbs % 2)) := by
  obtain ⟨cs, hcs, hroot⟩ := p.exists_anchored
  have hlocation : p.location = cs.foldl Location.step ⟨p.isAbsolute, 0, []⟩ := by
    rw [location, hcs]
    cases p.isAbsolute <;> rfl
  have hstack : p.components.foldl resolveStep [] = p.location.stack := by
    rw [hlocation, ← Location.foldl_resolveStep hroot, hcs]
    cases p.isAbsolute <;> rfl
  obtain ⟨habsolute, hnames⟩ := Location.foldl_step hroot ⟨p.isAbsolute, 0, []⟩
  rw [← hlocation] at habsolute hnames
  refine ⟨habsolute, fun name hname => ?_, ?_⟩
  · have hmem : .normal name ∈ cs := (hnames name hname).resolve_left (by simp)
    refine isName_of_mem_components (p := p) ?_
    rw [hcs]
    cases p.isAbsolute
    · exact hmem
    · exact List.mem_cons_of_mem _ hmem
  · rw [normalize, hstack, Location.stack, List.reverse_reverse]

/-- With its dots worked out, a path is the shortest one to where it leads exactly if a relative path
climbs at most once and an absolute one tries to climb above the root an even number of times. After
an odd number of tries a double dot stays behind the root. Two paths become one exactly if both start
at the root or neither does, they lead down the same names, and the numbers of their climbs are both
even or both odd. -/
theorem normalize_eq_path_iff (p : Path) :
    (p.normalize = p.location.path ↔
      if p.isAbsolute then Even p.location.climbs else p.location.climbs ≤ 1) ∧
    (p.isAbsolute = true → (.parent ∈ p.normalize.components ↔ ¬ Even p.location.climbs)) ∧
    ∀ q : Path, p.normalize = q.normalize ↔ p.isAbsolute = q.isAbsolute ∧
      (Even p.location.climbs ↔ Even q.location.climbs) ∧ p.location.names = q.location.names := by
  obtain ⟨habsolute, hnamed, hnormalize⟩ := p.location_spec
  refine ⟨?_, fun hroot => ?_, fun q => ?_⟩
  · rw [hnormalize, Location.path, Location.components, hnamed.ofComponents_inj hnamed, habsolute]
    cases p.isAbsolute
    · simp only [Bool.false_eq_true, if_false, true_and, and_true]
      omega
    · simp [Nat.even_iff]
  · rw [hnormalize, hnamed.components_ofComponents, Location.componentsFrom, habsolute, hroot,
      Nat.even_iff]
    simp [anchored, Location.way]
  · obtain ⟨habsolute', hnamed', hnormalize'⟩ := q.location_spec
    have hparity : p.location.climbs % 2 = q.location.climbs % 2 ↔
        (Even p.location.climbs ↔ Even q.location.climbs) := by
      rw [Nat.even_iff, Nat.even_iff]
      omega
    rw [hnormalize, hnormalize', hnamed.ofComponents_inj hnamed', habsolute, habsolute', hparity]

/-- The second double dot takes back the first one, and a double dot stays behind the root. -/
theorem normalize_ne_path :
    (Path.mk "../../x").normalize = ⟨"x"⟩ ∧ (Path.mk "../../x").location.path = ⟨"../../x"⟩ ∧
      (Path.mk "/../x").normalize = ⟨"/../x"⟩ ∧ (Path.mk "/../x").location.path = ⟨"/x"⟩ ∧
      ¬ ∀ p : Path, p.normalize = p.location.path := by
  have hnormalize : (Path.mk "../../x").normalize = ⟨"x"⟩ := by decide
  have hpath : (Path.mk "../../x").location.path = ⟨"../../x"⟩ := by decide
  refine ⟨hnormalize, hpath, by decide, by decide, fun hall => ?_⟩
  have hsame := hnormalize.symm.trans ((hall ⟨"../../x"⟩).trans hpath)
  exact absurd hsame (by decide)

end Path

end CommentBlocks
