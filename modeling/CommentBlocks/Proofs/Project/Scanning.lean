import CommentBlocks.Project.Basic
import CommentBlocks.Proofs.Dependency.Placing
import CommentBlocks.Proofs.Render.Again

/-!
Scanning the sources of a project: where its items come from, and what a second scan finds in sources
whose blocks have kept their headers.
-/

namespace CommentBlocks

lemma Config.vocabularyFor_congr (c : Config) {p q : Path} (h : p.same q = true) :
    c.vocabularyFor p = c.vocabularyFor q := by
  have hname : p.fileName? = q.fileName? := by rw [Path.fileName?, Path.fileName?, Path.same_iff.1 h]
  have hkey : Delimiters.keyOf p = Delimiters.keyOf q := by
    rw [Delimiters.keyOf, Delimiters.keyOf, Path.extension?, Path.extension?, hname]
  rw [Config.vocabularyFor, Config.vocabularyFor, Vocabulary.forPath, Vocabulary.forPath,
    Delimiters.forPath, Delimiters.forPath, hkey]

/-! ### Looking up by path -/

section Lookup

variable {α : Type} {file : α → Path} {l : List α} {path : Path}

lemma mem_of_find?_reverse {a : α} (h : l.reverse.find? (fun a => (file a).same path) = some a) :
    a ∈ l ∧ (file a).same path = true :=
  ⟨List.mem_reverse.1 (List.mem_of_find?_eq_some h),
    List.find?_some (p := fun a => (file a).same path) h⟩

lemma find?_reverse_of_mem (h : Path.Apart (l.map file)) {a : α} (ha : a ∈ l)
    (hs : (file a).same path = true) :
    l.reverse.find? (fun a => (file a).same path) = some a := by
  cases hfind : l.reverse.find? fun a => (file a).same path with
  | none =>
    have := List.find?_eq_none.1 hfind a (List.mem_reverse.2 ha)
    exact absurd hs this
  | some b =>
    obtain ⟨hb, hs'⟩ := mem_of_find?_reverse hfind
    rw [Path.same_comm] at hs
    rw [h.eq_of_same hb ha (Path.same_trans hs' hs)]

end Lookup

namespace Project

variable {p : Project} {sources : List Source} {path : Path}

lemma contents?_eq_some {contents : String} (h : contents? sources path = some contents) :
    ∃ s ∈ sources, s.path.same path = true ∧ s.contents = contents := by
  obtain ⟨s, hs, rfl⟩ := Option.map_eq_some_iff.1 h
  obtain ⟨hmem, hsame⟩ := mem_of_find?_reverse hs
  exact ⟨s, hmem, hsame, rfl⟩

lemma contents?_of_mem (h : Path.Apart (sources.map Source.path)) {s : Source} (hs : s ∈ sources)
    (hsame : s.path.same path = true) : contents? sources path = some s.contents := by
  rw [contents?, find?_reverse_of_mem h hs hsame]
  rfl

lemma item?_eq_some {items : List FileItem} {item : FileItem} (h : item? items path = some item) :
    item ∈ items ∧ item.id.same path = true :=
  mem_of_find?_reverse h

/-! ### What a scan finds -/

def scanned (p : Project) (s : Source) : Except Fault (List Block) :=
  Block.scan (p.config.vocabularyFor s.path) s.contents

def fault? (p : Project) (s : Source) : Option Fault :=
  match p.scanned s with
  | .ok _ => none
  | .error fault => some (fault.inFile s.path)

def itemOf? (p : Project) (s : Source) : Option FileItem :=
  match p.scanned s with
  | .ok blocks => some (FileItem.ofBlocks s.path blocks)
  | .error _ => none

/-- What a scan finds when no fault stops it. -/
def found (p : Project) (sources : List Source) : ScanOutcome :=
  let items := sources.filterMap p.itemOf?
  ⟨items.map (FileItem.retainKnown (items.map FileItem.id)), sources.filterMap p.fault?⟩

lemma fault?_eq_some_iff {s : Source} {fault : Fault} : p.fault? s = some fault ↔
    ∃ fault', p.scanned s = .error fault' ∧ fault = fault'.inFile s.path := by
  unfold fault?
  cases p.scanned s with
  | ok blocks => simp
  | error fault' => simp [eq_comm]

lemma fault?_eq_none_iff {s : Source} :
    p.fault? s = none ↔ ∃ blocks, p.scanned s = .ok blocks := by
  unfold fault?
  cases p.scanned s <;> simp

lemma itemOf?_eq_some_iff {s : Source} {item : FileItem} : p.itemOf? s = some item ↔
    ∃ blocks, p.scanned s = .ok blocks ∧ item = FileItem.ofBlocks s.path blocks := by
  unfold itemOf?
  cases p.scanned s with
  | ok blocks => simp [eq_comm]
  | error fault => simp

/-- One turn of the scan: the source adds an item or a fault, and the fault may stop the scan. -/
lemma scanNext_eq_ok_iff {o o' : ScanOutcome} {s : Source} : p.scanNext o s = .ok o' ↔
    (p.config.failFast = true → p.fault? s = none) ∧
      ⟨o.items ++ (p.itemOf? s).toList, o.errors ++ (p.fault? s).toList⟩ = o' := by
  unfold scanNext fault? itemOf? scanned
  cases hs : Block.scan (p.config.vocabularyFor s.path) s.contents with
  | ok blocks => simp
  | error fault =>
    have hparse : fault.isParseError = true := (Scan.blocksFrom_eq_error hs).1
    cases hfast : p.config.failFast <;> simp [hparse]

lemma foldlM_scanNext_eq_ok_iff {o o' : ScanOutcome} : sources.foldlM p.scanNext o = .ok o' ↔
    (p.config.failFast = true → ∀ s ∈ sources, p.fault? s = none) ∧
      ⟨o.items ++ sources.filterMap p.itemOf?, o.errors ++ sources.filterMap p.fault?⟩ = o' := by
  induction sources generalizing o with
  | nil => simp [pure, Except.pure]
  | cons s sources ih =>
    rw [foldlM_cons_eq_ok]
    simp only [scanNext_eq_ok_iff, ih, List.forall_mem_cons, List.filterMap_cons]
    constructor
    · rintro ⟨_, ⟨hfirst, rfl⟩, hlater, rfl⟩
      refine ⟨fun hfast => ⟨hfirst hfast, hlater hfast⟩, ?_⟩
      cases p.itemOf? s <;> cases p.fault? s <;> simp
    · rintro ⟨hnone, rfl⟩
      refine ⟨_, ⟨fun hfast => (hnone hfast).1, rfl⟩, fun hfast => (hnone hfast).2, ?_⟩
      cases p.itemOf? s <;> cases p.fault? s <;> simp

/-- The scan finds an item or a fault for every source, unless the first fault is to stop all. -/
theorem scan_eq_found_iff {o : ScanOutcome} : p.scan sources = .ok o ↔
    (p.config.failFast = true → ∀ s ∈ sources, p.fault? s = none) ∧ o = p.found sources := by
  have hfold : ∀ o', sources.foldlM p.scanNext ⟨[], []⟩ = .ok o' ↔ _ :=
    fun o' => foldlM_scanNext_eq_ok_iff
  unfold scan found
  constructor
  · intro h
    split at h
    · simp at h
    · next o₁ ho₁ =>
      obtain ⟨hnone, rfl⟩ := (hfold _).1 ho₁
      obtain rfl := Except.ok.inj h
      exact ⟨hnone, rfl⟩
  · rintro ⟨hnone, rfl⟩
    rw [(hfold _).2 ⟨hnone, rfl⟩]
    rfl

lemma scanNext_eq_error (hfast : p.config.failFast = true) {o : ScanOutcome} {s : Source}
    {fault : Fault} (h : p.fault? s = some fault) : p.scanNext o s = .error fault := by
  obtain ⟨fault, hscan, rfl⟩ := fault?_eq_some_iff.1 h
  rw [scanned] at hscan
  simp [scanNext, hscan, hfast]

lemma scan_eq_error (hfast : p.config.failFast = true) {fault : Fault}
    (h : (sources.filterMap p.fault?).head? = some fault) : p.scan sources = .error fault := by
  have hfold : ∀ o, sources.foldlM p.scanNext o = .error fault := by
    induction sources with
    | nil => simp at h
    | cons s sources ih =>
      intro o
      rw [List.foldlM_cons]
      cases hfault : p.fault? s with
      | some fault' =>
        obtain rfl : fault' = fault := by simpa [hfault] using h
        rw [scanNext_eq_error hfast hfault]
        rfl
      | none =>
        rw [scanNext_eq_ok_iff.2 ⟨fun _ => hfault, rfl⟩]
        exact ih (by simpa [hfault] using h) _
  unfold scan
  rw [hfold]

lemma map_id_found (p : Project) (sources : List Source) : (p.found sources).items.map FileItem.id =
    (sources.filterMap p.itemOf?).map FileItem.id := by
  rw [found, List.map_map]
  rfl

lemma mem_found_items_iff {item : FileItem} : item ∈ (p.found sources).items ↔
    ∃ s ∈ sources, ∃ blocks, p.scanned s = .ok blocks ∧ item =
      (FileItem.ofBlocks s.path blocks).retainKnown ((p.found sources).items.map FileItem.id) := by
  rw [map_id_found]
  constructor
  · intro h
    obtain ⟨item', hitem', rfl⟩ := List.mem_map.1 h
    obtain ⟨s, hs, hitem⟩ := List.mem_filterMap.1 hitem'
    obtain ⟨blocks, hblocks, rfl⟩ := itemOf?_eq_some_iff.1 hitem
    exact ⟨s, hs, blocks, hblocks, rfl⟩
  · rintro ⟨s, hs, blocks, hblocks, rfl⟩
    exact List.mem_map_of_mem (List.mem_filterMap.2 ⟨s, hs, itemOf?_eq_some_iff.2 ⟨_, hblocks, rfl⟩⟩)

lemma scan_items {o : ScanOutcome} (h : p.scan sources = .ok o) : ∀ item ∈ o.items, ∃ s ∈ sources,
    item.id = s.path ∧ p.scanned s = .ok item.blocks := by
  obtain ⟨-, rfl⟩ := scan_eq_found_iff.1 h
  intro item hitem
  obtain ⟨s, hs, blocks, hblocks, rfl⟩ := mem_found_items_iff.1 hitem
  exact ⟨s, hs, rfl, hblocks⟩

/-! ### The second scan -/

/-- A second scan finds the same fault in a source, or blocks with the same headers. -/
structure RescansAs (p : Project) (s s' : Source) : Prop where
  path : s'.path = s.path
  fault : ∀ fault, p.scanned s = .error fault → p.scanned s' = .error fault
  blocks : ∀ blocks, p.scanned s = .ok blocks →
    ∃ blocks', p.scanned s' = .ok blocks' ∧ List.Forall₂ Block.SameHeader blocks blocks'

lemma RescansAs.refl (p : Project) (s : Source) : p.RescansAs s s where
  path := rfl
  fault _ h := h
  blocks blocks h := ⟨blocks, h, List.forall₂_same.2 fun _ _ => ⟨rfl, rfl, rfl, rfl⟩⟩

end Project

structure FileItem.SameHeaders (item item' : FileItem) : Prop where
  id : item'.id = item.id
  dependencies : item'.dependencies = item.dependencies
  blocks : List.Forall₂ Block.SameHeader item.blocks item'.blocks

lemma FileItem.SameHeaders.blocks_eq_nil_iff {item item' : FileItem} (h : item.SameHeaders item') :
    item'.blocks = [] ↔ item.blocks = [] := by
  rw [← List.length_eq_zero_iff, ← h.blocks.length_eq, List.length_eq_zero_iff]

lemma Dependency.ofBlocks_congr (file : Path) {blocks blocks' : List Block}
    (h : List.Forall₂ Block.SameHeader blocks blocks') :
    Dependency.ofBlocks file blocks' = Dependency.ofBlocks file blocks := by
  have hmap : blocks'.map Block.src? = blocks.map Block.src? :=
    map_eq_of_forall₂ h fun b b' hb => by rw [Block.src?, Block.src?, hb.options]
  have hsrc := congrArg (List.filterMap id) hmap
  rw [List.filterMap_map, List.filterMap_map, Function.id_comp] at hsrc
  rw [Dependency.ofBlocks, Dependency.ofBlocks, hsrc]

namespace FileItem

variable {items items' : List FileItem}

lemma map_id_congr (h : List.Forall₂ SameHeaders items items') :
    items'.map FileItem.id = items.map FileItem.id :=
  map_eq_of_forall₂ h fun _ _ hi => hi.id

lemma edges_congr (h : List.Forall₂ SameHeaders items items') : edges items' = edges items := by
  rw [edges, edges, map_id_congr h, List.flatMap_def, List.flatMap_def]
  refine congrArg List.flatten (map_eq_of_forall₂ h fun item item' hi => ?_)
  rw [hi.id, hi.dependencies]

lemma SameHeaders.retainKnown {item item' : FileItem} (h : item.SameHeaders item')
    (known : List Path) : (item.retainKnown known).SameHeaders (item'.retainKnown known) where
  id := h.id
  dependencies := by rw [FileItem.retainKnown, FileItem.retainKnown, h.dependencies]
  blocks := h.blocks

end FileItem

/-- Both scans have found the same files with the same faults, and blocks with the same headers. -/
structure ScanOutcome.SameHeaders (o o' : ScanOutcome) : Prop where
  items : List.Forall₂ FileItem.SameHeaders o.items o'.items
  errors : o'.errors = o.errors

namespace Project

variable {p : Project} {sources : List Source}

namespace RescansAs

variable {s s' : Source} (hs : p.RescansAs s s')
include hs

lemma fault?_eq : p.fault? s' = p.fault? s := by
  unfold fault?
  cases h : p.scanned s with
  | error fault => rw [hs.fault fault h, hs.path]
  | ok blocks =>
    obtain ⟨blocks', hblocks', -⟩ := hs.blocks blocks h
    rw [hblocks']

lemma itemOf?_rel : Option.Rel FileItem.SameHeaders (p.itemOf? s) (p.itemOf? s') := by
  unfold itemOf?
  cases h : p.scanned s with
  | error fault =>
    rw [hs.fault fault h]
    exact .none
  | ok blocks =>
    obtain ⟨blocks', hblocks', hheaders⟩ := hs.blocks blocks h
    rw [hblocks', hs.path]
    exact .some ⟨rfl, Dependency.ofBlocks_congr s.path hheaders, hheaders⟩

end RescansAs

/-- The second scan finds the same files with the same dependencies, and blocks with the same
headers. -/
theorem scan_again {sources' : List Source} (hs : List.Forall₂ p.RescansAs sources sources')
    {o : ScanOutcome} (h : p.scan sources = .ok o) :
    ∃ o', p.scan sources' = .ok o' ∧ o.SameHeaders o' := by
  obtain ⟨hnone, rfl⟩ := scan_eq_found_iff.1 h
  have hfaults : sources'.map p.fault? = sources.map p.fault? :=
    map_eq_of_forall₂ hs fun _ _ hs => hs.fault?_eq
  have hitems : List.Forall₂ FileItem.SameHeaders (sources.filterMap p.itemOf?)
      (sources'.filterMap p.itemOf?) := List.rel_filterMap (fun _ _ hs => hs.itemOf?_rel) hs
  refine ⟨_, scan_eq_found_iff.2 ⟨fun hfast s' hs' => ?_, rfl⟩, ?_, ?_⟩
  · have : p.fault? s' ∈ sources.map p.fault? := hfaults ▸ List.mem_map_of_mem hs'
    obtain ⟨s, hmem, hfault⟩ := List.mem_map.1 this
    rw [← hfault, hnone hfast s hmem]
  · simp only [found]
    rw [FileItem.map_id_congr hitems, List.forall₂_map_left_iff, List.forall₂_map_right_iff]
    exact hitems.imp fun _ _ hi => hi.retainKnown _
  · have := congrArg (List.filterMap id) hfaults
    rwa [List.filterMap_map, List.filterMap_map, Function.id_comp] at this

lemma item?_again {items items' : List FileItem} (h : List.Forall₂ FileItem.SameHeaders items items')
    (path : Path) : item? items path = none ∧ item? items' path = none ∨
      ∃ item item', item? items path = some item ∧ item? items' path = some item' ∧
        item.SameHeaders item' :=
  find?_cases (List.forall₂_reverse_iff.2 h) fun _ _ hi => by rw [hi.id]

end Project

end CommentBlocks
