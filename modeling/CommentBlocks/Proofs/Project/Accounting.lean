import CommentBlocks.Proofs.Project.Inlining

/-!
What becomes of the sources of a project.

A source is scanned into an item or a fault. The order of files holds every item once, under a path
that may be written in another way, and the loop over it renders the items that have blocks. So every
source leaves one fault, one file or nothing, and the status tells which of these there were.
-/

namespace CommentBlocks

namespace RunResult

variable {r : RunResult}

lemma status_eq_nothingToDo_iff :
    r.status = .nothingToDo ↔ r.errors = [] ∧ r.missing = [] ∧ r.files = [] := by
  unfold status
  cases r.errors <;> cases r.missing <;> cases r.files <;> simp

lemma status_eq_complete_iff :
    r.status = .complete ↔ r.errors = [] ∧ r.missing = [] ∧ r.files ≠ [] := by
  unfold status
  cases r.errors <;> cases r.missing <;> cases r.files <;> simp

end RunResult

namespace Project

variable {p : Project} {sources : List Source}

/-- The faults that name a source are its own. -/
lemma filter_faults_eq (h : Path.Apart (sources.map Source.path)) {s : Source} (hs : s ∈ sources) :
    (sources.filterMap p.fault?).filter (fun e => e.file? = some s.path.text) =
      (p.fault? s).toList := by
  have hfile {s' : Source} {e : Fault} (he : p.fault? s' = some e) :
      e.file? = some s'.path.text := by
    obtain ⟨fault, hfault, rfl⟩ := fault?_eq_some_iff.1 he
    exact (Scan.blocksFrom_eq_error hfault).2 s'.path
  have hother : ∀ {l : List Source}, (∀ s' ∈ l, s'.path ≠ s.path) →
      (l.filterMap p.fault?).filter (fun e => e.file? = some s.path.text) = [] := by
    intro l hl
    refine List.filter_eq_nil_iff.2 fun e he => ?_
    obtain ⟨s', hs', he⟩ := List.mem_filterMap.1 he
    rw [hfile he]
    simp only [Option.some.injEq, decide_eq_true_eq]
    exact fun htext => hl s' hs' (by cases hp : s'.path; cases hq : s.path; simp_all)
  obtain ⟨before, after, rfl⟩ := List.append_of_mem hs
  rw [List.map_append, List.map_cons] at h
  have hne : ∀ s' ∈ before ++ after, s'.path ≠ s.path := by
    intro s' hs' heq
    have := h.same_eq_false s'.path (by rw [← List.map_append]; exact List.mem_map_of_mem hs')
    rw [heq, Path.same_self] at this
    exact absurd this (by decide)
  obtain ⟨hbefore, hafter⟩ := List.forall_mem_append.1 hne
  rw [List.filterMap_append, List.filter_append, hother hbefore, List.nil_append,
    List.filterMap_cons]
  cases he : p.fault? s with
  | none => exact hother hafter
  | some e => simp [hfile he, hother hafter]

lemma found_apart (h : Path.Apart (sources.map Source.path)) :
    Path.Apart ((p.found sources).items.map FileItem.id) := by
  refine h.sublist ?_
  rw [map_id_found]
  clear h
  induction sources with
  | nil => exact .slnil
  | cons s sources ih =>
    rw [List.filterMap_cons]
    cases hitem : p.itemOf? s with
    | none => exact ih.cons _
    | some item =>
      obtain ⟨blocks, -, rfl⟩ := itemOf?_eq_some_iff.1 hitem
      exact ih.cons_cons _

lemma exists_item (h : Path.Apart (sources.map Source.path)) {s : Source} (hs : s ∈ sources)
    {blocks : List Block} (hscan : p.scanned s = .ok blocks) {path : Path}
    (hsame : s.path.same path = true) :
    ∃ item, item? (p.found sources).items path = some item ∧ item.blocks = blocks := by
  have hitem := mem_found_items_iff.2 ⟨s, hs, blocks, hscan, rfl⟩
  exact ⟨_, find?_reverse_of_mem (found_apart h) hitem hsame, rfl⟩

variable {settings : Value} {outcome : ScanOutcome} {order : List Path} {r : RunResult}
  {calls : List Context} {log : List FileRun}

namespace RunsTo

variable (hr : p.RunsTo sources settings outcome order r calls log)
include hr

lemma errors_eq : r.errors = sources.filterMap p.fault? := by
  obtain ⟨-, rfl⟩ := scan_eq_found_iff.1 hr.scan_eq
  exact hr.renders.errors

lemma errors_eq_nil_iff : r.errors = [] ↔ ∀ s ∈ sources, ∃ blocks, p.scanned s = .ok blocks := by
  rw [hr.errors_eq, List.filterMap_eq_nil_iff]
  exact forall₂_congr fun s _ => fault?_eq_none_iff

lemma precedes_of_dependency {f : FileResult} (hf : f ∈ r.files) {d : Path} (hd : d ∈ f.dependencies)
    (hg : ∃ g ∈ r.files, g.path.same d = true) :
    Dependency.Precedes (r.files.map FileResult.path) d f.path := by
  obtain ⟨f, hflog, rfl⟩ := hr.exists_of_mem_files hf
  obtain ⟨g, hg, hgd⟩ := hg
  obtain ⟨g, hglog, rfl⟩ := hr.exists_of_mem_files hg
  obtain ⟨hitem, hid⟩ := item?_eq_some (hr.renders.jobs f hflog).item_eq
  have hdependency : d ∈ f.item.dependencies := hd
  have hknown : (outcome.items.map FileItem.id).any (·.same d) = true := by
    rw [scan_dependencies hr.scan_eq f.item hitem] at hdependency
    exact (List.mem_filter.1 hdependency).2
  have hedge : (f.item.id, d) ∈ FileItem.edges outcome.items := List.mem_flatMap.2
    ⟨f.item, hitem, List.mem_map.2 ⟨d, List.mem_filter.2 ⟨hdependency, hknown⟩, rfl⟩⟩
  have hdg : d.same g.job.srcPath = true := by rwa [Path.same_comm]
  obtain ⟨before, after, hlog, hbefore⟩ := before_of_precedes
    (Dependency.executionOrder_apart hr.order_eq) hr.renders.sublist hflog hglog
    (Dependency.executionOrder_precedes hr.order_eq ⟨_, hedge, hid, hdg⟩)
  refine ⟨before.map fun g => g.job.srcPath, f.job.srcPath, after.map fun g => g.job.srcPath, ?_,
    Path.same_self _, g.job.srcPath, List.mem_map_of_mem hbefore, hgd⟩
  rw [hr.files_eq, hlog, List.map_map, List.map_append, List.map_cons]
  rfl

lemma filter_files_eq {g : FileRun} (hg : g ∈ log) {path : Path}
    (hsame : g.job.srcPath.same path = true) :
    r.files.filter (·.path.same path) = [g.result] := by
  have hapart : Path.Apart (r.files.map FileResult.path) := by
    rw [hr.files_eq, List.map_map]
    exact hr.apart
  exact hapart.filter_eq (hr.files_eq ▸ List.mem_map_of_mem hg) hsame

variable (happart : Path.Apart (sources.map Source.path))
include happart

lemma source_of_same {g : FileRun} (hg : g ∈ log) {s : Source} (hs : s ∈ sources)
    (hsame : g.job.srcPath.same s.path = true) :
    s.contents = g.job.contents ∧ p.scanned s = .ok g.job.blocks := by
  obtain ⟨s', hs', hsame', hcontents, hscan⟩ := (hr.renders.jobs g hg).source happart hr.scan_eq
  obtain rfl := happart.eq_of_same hs' hs (Path.same_trans hsame' hsame)
  exact ⟨hcontents, hscan⟩

lemma exists_of_source {s : Source} (hs : s ∈ sources) {blocks : List Block}
    (hscan : p.scanned s = .ok blocks) (hne : blocks ≠ []) :
    ∃ g ∈ log, g.job.srcPath.same s.path = true := by
  obtain ⟨-, rfl⟩ := scan_eq_found_iff.1 hr.scan_eq
  have hmem := mem_found_items_iff.2 ⟨s, hs, blocks, hscan, rfl⟩
  obtain ⟨-, hholds, -⟩ := (Dependency.order_spec _ _).1 order
    (Dependency.executionOrder_eq_ok hr.order_eq)
  obtain ⟨path, hpath, hsame⟩ := hholds s.path (List.mem_append_left _ (List.mem_map_of_mem hmem))
  rw [Path.same_comm] at hsame
  obtain ⟨item, hitem, rfl⟩ := exists_item happart hs hscan hsame
  obtain ⟨g, hg, rfl⟩ := hr.renders.all path hpath item s.contents hitem
    (contents?_of_mem happart hs hsame) hne
  exact ⟨g, hg, by rwa [Path.same_comm]⟩

lemma exists_rendered_iff {path : Path} : (∃ g ∈ log, g.job.srcPath.same path = true) ↔
    ∃ s ∈ sources, s.path.same path = true ∧ ∃ blocks, p.scanned s = .ok blocks ∧ blocks ≠ [] := by
  constructor
  · rintro ⟨g, hg, hsame⟩
    have hjob := hr.renders.jobs g hg
    obtain ⟨s, hs, hsame', -, hscan⟩ := hjob.source happart hr.scan_eq
    exact ⟨s, hs, Path.same_trans hsame' hsame, _, hscan, hjob.blocks ▸ hjob.nonempty⟩
  · rintro ⟨s, hs, hsame, blocks, hscan, hne⟩
    obtain ⟨g, hg, hsame'⟩ := hr.exists_of_source happart hs hscan hne
    exact ⟨g, hg, Path.same_trans hsame' hsame⟩

lemma filter_files_eq_nil {s : Source} (hs : s ∈ sources)
    (hnone : ∀ blocks, p.scanned s = .ok blocks → blocks = []) :
    r.files.filter (·.path.same s.path) = [] := by
  refine List.filter_eq_nil_iff.2 fun f hf hsame => ?_
  obtain ⟨g, hg, rfl⟩ := hr.exists_of_mem_files hf
  obtain ⟨-, hscan⟩ := hr.source_of_same happart hg hs hsame
  have hjob := hr.renders.jobs g hg
  exact hjob.nonempty (by rw [← hjob.blocks]; exact hnone _ hscan)

lemma missing_eq_nil_iff_registered : r.missing = [] ↔
    ∀ s ∈ sources, ∀ blocks, p.scanned s = .ok blocks → ∀ b ∈ blocks, ∀ name,
      b.transform = some name → p.registry.get? name ≠ none := by
  rw [hr.renders.missing_eq_nil_iff]
  constructor
  · intro h s hs blocks hscan b hb
    obtain ⟨g, hg, hsame⟩ := hr.exists_of_source happart hs hscan (List.ne_nil_of_mem hb)
    obtain ⟨-, hscan'⟩ := hr.source_of_same happart hg hs hsame
    obtain rfl := Except.ok.inj (hscan.symm.trans hscan')
    exact (Engine.run_missing_eq_nil_iff (hr.renders.runs g hg)).1 (h g hg) b hb
  · intro h g hg
    obtain ⟨s, hs, -, -, hscan⟩ := (hr.renders.jobs g hg).source happart hr.scan_eq
    exact (Engine.run_missing_eq_nil_iff (hr.renders.runs g hg)).2 (h s hs _ hscan)

lemma files_eq_nil_iff : r.files = [] ↔
    ∀ s ∈ sources, ∀ blocks, p.scanned s = .ok blocks → blocks = [] := by
  constructor
  · intro h s hs blocks hscan
    by_contra hne
    obtain ⟨g, hg, -⟩ := hr.exists_of_source happart hs hscan hne
    rw [hr.files_eq, List.map_eq_nil_iff] at h
    rw [h] at hg
    simp at hg
  · intro h
    rw [hr.files_eq, List.map_eq_nil_iff, List.eq_nil_iff_forall_not_mem]
    intro g hg
    have hjob := hr.renders.jobs g hg
    obtain ⟨s, hs, -, -, hscan⟩ := hjob.source happart hr.scan_eq
    exact hjob.nonempty (by rw [← hjob.blocks]; exact h s hs _ hscan)

lemma status_eq_nothingToDo_iff :
    r.status = .nothingToDo ↔ ∀ s ∈ sources, p.scanned s = .ok [] := by
  rw [RunResult.status_eq_nothingToDo_iff, hr.errors_eq_nil_iff,
    hr.missing_eq_nil_iff_registered happart, hr.files_eq_nil_iff happart]
  constructor
  · rintro ⟨hscan, -, hempty⟩ s hs
    obtain ⟨blocks, hblocks⟩ := hscan s hs
    rw [hblocks, hempty s hs blocks hblocks]
  · intro hempty
    have hnil {s : Source} (hs : s ∈ sources) {blocks : List Block}
        (hblocks : p.scanned s = .ok blocks) : blocks = [] :=
      Except.ok.inj (hblocks.symm.trans (hempty s hs))
    refine ⟨fun s hs => ⟨[], hempty s hs⟩, fun s hs blocks hblocks b hb => ?_,
      fun s hs blocks hblocks => hnil hs hblocks⟩
    rw [hnil hs hblocks] at hb
    simp at hb

/-- A run is complete when all sources were scanned, some have blocks, and all transforms that blocks
name are registered. -/
lemma status_eq_complete_iff : r.status = .complete ↔
    (∀ s ∈ sources, ∃ blocks, p.scanned s = .ok blocks) ∧
      (∃ s ∈ sources, ∃ blocks, p.scanned s = .ok blocks ∧ blocks ≠ []) ∧
      ∀ s ∈ sources, ∀ blocks, p.scanned s = .ok blocks → ∀ b ∈ blocks, ∀ name,
        b.transform = some name → p.registry.get? name ≠ none := by
  rw [RunResult.status_eq_complete_iff, hr.errors_eq_nil_iff,
    hr.missing_eq_nil_iff_registered happart, ne_eq, hr.files_eq_nil_iff happart]
  simp only [not_forall, exists_prop]
  exact and_congr_right fun _ => and_comm

end RunsTo

structure Accounts (p : Project) (sources : List Source) (r : RunResult) : Prop where
  /-- A source with a fault has that one fault. -/
  failed : ∀ s ∈ sources, ∀ fault, p.scanned s = .error fault →
    r.errors.filter (fun e => e.file? = some s.path.text) = [fault.inFile s.path] ∧
      r.files.filter (·.path.same s.path) = []
  /-- A source with blocks has one file. -/
  rendered : ∀ s ∈ sources, ∀ blocks, p.scanned s = .ok blocks → blocks ≠ [] →
    r.errors.filter (fun e => e.file? = some s.path.text) = [] ∧
      ∃ f, r.files.filter (·.path.same s.path) = [f] ∧ f.initial = s.contents
  /-- A source without blocks has nothing. -/
  skipped : ∀ s ∈ sources, p.scanned s = .ok [] →
    r.errors.filter (fun e => e.file? = some s.path.text) = [] ∧
      r.files.filter (·.path.same s.path) = []
  known : ∀ f ∈ r.files, ∃ s ∈ sources, f.path.same s.path = true
  /-- Faults stand in the order of the sources. -/
  errors : r.errors = sources.filterMap p.fault?
  order : r.order = r.files.map FileResult.path
  dependencies : ∀ f ∈ r.files, ∀ d ∈ f.dependencies, (∃ g ∈ r.files, g.path.same d = true) →
    Dependency.Precedes (r.files.map FileResult.path) d f.path
  nothingToDo : r.status = .nothingToDo ↔ ∀ s ∈ sources, p.scanned s = .ok []
  complete : r.status = .complete ↔ (∀ s ∈ sources, ∃ blocks, p.scanned s = .ok blocks) ∧
    (∃ s ∈ sources, ∃ blocks, p.scanned s = .ok blocks ∧ blocks ≠ []) ∧
    ∀ s ∈ sources, ∀ blocks, p.scanned s = .ok blocks → ∀ b ∈ blocks, ∀ name,
      b.transform = some name → p.registry.get? name ≠ none

/-- A run accounts for every source: each leaves one fault, one file or nothing, the files stand in
the order in which they were rendered, and the status says what the sources left. -/
theorem run_accounts (happart : Path.Apart (sources.map Source.path))
    (h : p.run sources = .ok (r, calls)) : p.Accounts sources r := by
  obtain ⟨settings, outcome, order, log, hr⟩ := run_stages h
  have hfaults {s : Source} (hs : s ∈ sources) :
      r.errors.filter (fun e => e.file? = some s.path.text) = (p.fault? s).toList := by
    rw [hr.errors_eq]
    exact filter_faults_eq happart hs
  have hunharmed {s : Source} (hs : s ∈ sources) {blocks : List Block}
      (hblocks : p.scanned s = .ok blocks) :
      r.errors.filter (fun e => e.file? = some s.path.text) = [] := by
    rw [hfaults hs, fault?_eq_none_iff.2 ⟨blocks, hblocks⟩]
    rfl
  exact
    { failed := fun s hs fault hfault => by
        refine ⟨?_, hr.filter_files_eq_nil happart hs fun blocks hblocks => ?_⟩
        · rw [hfaults hs, fault?_eq_some_iff.2 ⟨fault, hfault, rfl⟩]
          rfl
        · rw [hfault] at hblocks
          simp at hblocks
      rendered := fun s hs blocks hblocks hne => by
        obtain ⟨g, hg, hsame⟩ := hr.exists_of_source happart hs hblocks hne
        exact ⟨hunharmed hs hblocks, g.result, hr.filter_files_eq hg hsame,
          (hr.source_of_same happart hg hs hsame).1.symm⟩
      skipped := fun s hs hblocks => ⟨hunharmed hs hblocks,
        hr.filter_files_eq_nil happart hs fun blocks hblocks' =>
          Except.ok.inj (hblocks'.symm.trans hblocks)⟩
      known := fun f hf => by
        obtain ⟨g, hg, rfl⟩ := hr.exists_of_mem_files hf
        obtain ⟨s, hs, hsame, -⟩ := (hr.renders.jobs g hg).source happart hr.scan_eq
        exact ⟨s, hs, by rw [Path.same_comm]; exact hsame⟩
      errors := hr.errors_eq
      order := by
        rw [hr.files_eq, List.map_map]
        exact hr.renders.order
      dependencies := fun f hf d hd hg => hr.precedes_of_dependency hf hd hg
      nothingToDo := hr.status_eq_nothingToDo_iff happart
      complete := hr.status_eq_complete_iff happart }

/-- A file that inlines another one, that one, a file with a fault, and a file without blocks. -/
theorem run_accounts_four_files :
    let p := inlining Disk.empty
    let sources : List Source := [⟨⟨"/a.c"⟩, "/*a FILE src=b.c*//*z*/"⟩, ⟨⟨"/b.c"⟩, "/*a x*/0/*z*/"⟩,
      ⟨⟨"/c.c"⟩, "/*a x*/"⟩, ⟨⟨"/d.c"⟩, "1"⟩]
    ∃ r calls, p.run sources = .ok (r, calls) ∧ r.status = .incomplete ∧ r.files.length = 2 ∧
      p.Accounts sources r := by
  intro p sources
  obtain ⟨⟨r, calls⟩, hrun, hstatus, hfiles⟩ : ∃ x ∈ (p.run sources).toOption,
      x.1.status = .incomplete ∧ x.1.files.length = 2 := by decide +kernel
  have hok := eq_ok_of_toOption hrun
  exact ⟨r, calls, hok, hstatus, hfiles,
    run_accounts (by unfold Path.Apart; decide +kernel) hok⟩

end Project

end CommentBlocks
