import CommentBlocks.CommandLine.Report
import CommentBlocks.Proofs.Project.Accounting

/-!
A run and a listing of the same sources agree on which transforms are missing.

The run tells it in three ways: by the marks of the blocks of each file, by the report of all that is
missing, and by the names of the transforms that ran. The listing looks every name up on its own.
-/

namespace CommentBlocks

open CommandLine (Report.listing Report.ListedBlock shown)

namespace Project

variable {p : Project} {sources : List Source} {settings : Value} {outcome : ScanOutcome}
  {order : List Path} {r : RunResult} {calls : List Context} {log : List FileRun}

lemma item?_congr (items : List FileItem) {path path' : Path} (h : path.same path' = true) :
    item? items path = item? items path' := by
  rw [item?, item?]
  refine congrArg (List.find? · items.reverse) (funext fun i => ?_)
  rw [Path.same_comm, Path.same_congr h, Path.same_comm]

lemma exists_contents? {s : Source} (hs : s ∈ sources) {path : Path}
    (hsame : s.path.same path = true) : ∃ contents, contents? sources path = some contents := by
  cases hfind : contents? sources path with
  | some contents => exact ⟨contents, rfl⟩
  | none =>
    rw [contents?, Option.map_eq_none_iff, List.find?_eq_none] at hfind
    exact absurd hsame (hfind s (List.mem_reverse.2 hs))

namespace RunsTo

variable (hr : p.RunsTo sources settings outcome order r calls log)
include hr

lemma blocks_eq {g : FileRun} (hg : g ∈ log) :
    g.result.blocks = g.item.blocks.map fun b => b.markedAs (p.registry.lacks b) := by
  have hjob := hr.renders.jobs g hg
  obtain ⟨hitem, -⟩ := item?_eq_some hjob.item_eq
  obtain ⟨s, -, -, hscan⟩ := scan_items hr.scan_eq g.item hitem
  exact FileRun.result_blocks hscan hjob.blocks (hr.renders.runs g hg)

lemma index_of_getElem? {g : FileRun} (hg : g ∈ log) {i : Nat} {b : Block}
    (hi : g.result.blocks[i]? = some b) : b.index = i := by
  obtain ⟨hitem, -⟩ := item?_eq_some (hr.renders.jobs g hg).item_eq
  obtain ⟨s, -, -, hscan⟩ := scan_items hr.scan_eq g.item hitem
  rw [hr.blocks_eq hg, List.getElem?_map] at hi
  obtain ⟨b, hb, rfl⟩ := Option.map_eq_some_iff.1 hi
  exact (Scan.scan_eq_ok_iff.1 hscan).index_of_getElem? (b := b) hb

lemma outcome_eq {g : FileRun} (hg : g ∈ log) :
    g.outcome.missing = (g.result.blocks.filter (·.context.isMissing)).filterMap
        (Block.reportIn · g.job.srcPath) ∧
      g.outcome.transformsRun = (g.result.blocks.filter (!·.context.isMissing)).filterMap
        Block.transform := by
  obtain ⟨hmissing, hran⟩ := Engine.run_parts (hr.renders.runs g hg)
  rw [hmissing, hran, (hr.renders.jobs g hg).blocks, hr.blocks_eq hg, List.filter_map, List.filter_map,
    List.filterMap_map, List.filterMap_map]
  exact ⟨rfl, rfl⟩

lemma pairwise_outcome_missing {g : FileRun} (hg : g ∈ log) :
    g.outcome.missing.Pairwise fun m m' => m.index ≠ m'.index := by
  have hindex : g.result.blocks.Pairwise fun b b' => b.index ≠ b'.index := by
    rw [List.pairwise_iff_getElem]
    intro i j hi hj hlt
    rw [hr.index_of_getElem? hg (List.getElem?_eq_getElem hi),
      hr.index_of_getElem? hg (List.getElem?_eq_getElem hj)]
    exact hlt.ne
  rw [(hr.outcome_eq hg).1, List.pairwise_filterMap]
  refine (hindex.filter _).imp fun {b b'} hne m hm m' hm' => ?_
  obtain ⟨_, -, rfl⟩ := Option.map_eq_some_iff.1 hm
  obtain ⟨_, -, rfl⟩ := Option.map_eq_some_iff.1 hm'
  exact hne

lemma pairwise_missing : r.missing.Pairwise fun m m' =>
    m.file.same m'.file = true → m.index ≠ m'.index := by
  have hfile {g : FileRun} (hg : g ∈ log) {m : MissingTransform} (hm : m ∈ g.outcome.missing) :
      m.file = g.job.srcPath := by
    rw [(hr.outcome_eq hg).1] at hm
    obtain ⟨b, -, hm⟩ := List.mem_filterMap.1 hm
    obtain ⟨_, -, rfl⟩ := Option.map_eq_some_iff.1 hm
    rfl
  rw [hr.renders.missing_eq, List.pairwise_flatMap]
  refine ⟨fun g hg => ?_, ?_⟩
  · refine (hr.pairwise_outcome_missing hg).imp ?_
    exact fun hne _ => hne
  refine (List.pairwise_map.1 hr.apart).imp_of_mem fun {g g'} hg hg' happart m hm m' hm' hsame => ?_
  rw [hfile hg hm, hfile hg' hm', happart] at hsame
  cases hsame

lemma listed_eq {g : FileRun} (hg : g ∈ log) :
    (g.item.blocks.map fun b => (⟨b, p.registry.lacks b⟩ : Report.ListedBlock)) =
      g.result.blocks.map fun b => ⟨b.markedAs false, b.context.isMissing⟩ := by
  obtain ⟨hitem, -⟩ := item?_eq_some (hr.renders.jobs g hg).item_eq
  obtain ⟨s, -, -, hscan⟩ := scan_items hr.scan_eq g.item hitem
  rw [hr.blocks_eq hg, List.map_map]
  refine List.map_congr_left fun b hb => ?_
  have hfresh : (b.markedAs (p.registry.lacks b)).markedAs false = b :=
    Block.markedAs_self (Block.isMissing_of_scan hscan b hb)
  rw [Function.comp_apply, hfresh]
  rfl

/-- A file with blocks is rendered, with the item that comes last if several have its path. -/
lemma exists_of_item {item : FileItem} (hitem : item ∈ outcome.items) (hne : item.blocks ≠ [])
    (hlast : item? outcome.items item.id = some item) :
    ∃ g ∈ log, g.job.srcPath.same item.id = true := by
  obtain ⟨s, hs, hid, -⟩ := scan_items hr.scan_eq item hitem
  obtain ⟨-, hholds, -⟩ := (Dependency.order_spec _ _).1 order
    (Dependency.executionOrder_eq_ok hr.order_eq)
  obtain ⟨path, hpath, hsame⟩ :=
    hholds item.id (List.mem_append_left _ (List.mem_map_of_mem hitem))
  have hsource : s.path.same path = true := by rwa [← hid, Path.same_comm]
  obtain ⟨contents, hcontents⟩ := exists_contents? hs hsource
  obtain ⟨g, hg, rfl⟩ := hr.renders.all path hpath item contents
    ((item?_congr _ hsame).trans hlast) hcontents hne
  exact ⟨g, hg, hsame⟩

end RunsTo

/-- All ways of telling which transforms are missing say the same. -/
structure AgreesOnMissing (p : Project) (items : List FileItem) (r : RunResult) : Prop where
  /-- A block is marked when it has a name for which there is no transform. -/
  marked : ∀ f ∈ r.files, ∀ b ∈ f.blocks, b.context.isMissing = true ↔
    ∃ name, b.transform = some name ∧ p.registry.get? name = none
  /-- The report lists the marked blocks, file by file and in the order of the text. -/
  reported : r.missing = r.files.flatMap fun f =>
    (f.blocks.filter (·.context.isMissing)).filterMap (Block.reportIn · f.path)
  /-- No block is reported twice. -/
  once : r.missing.Pairwise fun m m' => m.file.same m'.file = true → m.index ≠ m'.index
  order : r.order = r.files.map FileResult.path
  index : ∀ f ∈ r.files, ∀ i (b : Block), f.blocks[i]? = some b → b.index = i
  /-- The transforms that ran are those of the other blocks. -/
  ran : ∀ f ∈ r.files, f.transformsRun =
    (f.blocks.filter (!·.context.isMissing)).filterMap Block.transform
  /-- A rendered file is listed with its blocks and their marks. -/
  listed : ∀ f ∈ r.files, ∃ item, item? items f.path = some item ∧
    ⟨shown p.root item.id, item.dependencies.map (shown p.root),
      f.blocks.map fun b => ⟨b.markedAs false, b.context.isMissing⟩⟩ ∈
        Report.listing p.root p.registry items
  /-- A file that is listed is rendered, from its last source if it has several. -/
  rendered : ∀ item ∈ items, item.blocks ≠ [] → item? items item.id = some item →
    ∃ f ∈ r.files, f.path.same item.id = true
  listing : ∀ l ∈ Report.listing p.root p.registry items, ∀ b ∈ l.blocks, b.isMissing = true ↔
    ∃ name, b.block.transform = some name ∧ p.registry.get? name = none

/-- A run accounts for each missing transform once, and a listing of the same sources for the same
ones. -/
theorem run_agreesOnMissing (h : p.run sources = .ok (r, calls)) :
    ∃ outcome, p.scan sources = .ok outcome ∧ p.AgreesOnMissing outcome.items r := by
  obtain ⟨settings, outcome, order, log, hr⟩ := run_stages h
  refine ⟨outcome, hr.scan_eq, ?_⟩
  have hfiles {P : FileResult → Prop} (hP : ∀ g ∈ log, P g.result) : ∀ f ∈ r.files, P f := by
    rw [hr.files_eq]
    exact List.forall_mem_map.2 hP
  exact
    { marked := hfiles fun g hg b hb => by
        rw [hr.blocks_eq hg] at hb
        obtain ⟨b, -, rfl⟩ := List.mem_map.1 hb
        exact Registry.lacks_iff
      reported := by
        rw [hr.renders.missing_eq, hr.files_eq, List.flatMap_map]
        exact List.flatMap_congr fun g hg => (hr.outcome_eq hg).1
      once := hr.pairwise_missing
      order := by
        rw [hr.files_eq, List.map_map]
        exact hr.renders.order
      index := hfiles fun g hg i b hi => hr.index_of_getElem? hg hi
      ran := hfiles fun g hg => (hr.outcome_eq hg).2
      listed := hfiles fun g hg => by
        have hjob := hr.renders.jobs g hg
        obtain ⟨hitem, -⟩ := item?_eq_some hjob.item_eq
        refine ⟨g.item, hjob.item_eq, ?_⟩
        rw [← hr.listed_eq hg]
        exact List.mem_map_of_mem (List.mem_filter.2 ⟨hitem, by simpa using hjob.nonempty⟩)
      rendered := fun item hitem hne hlast => by
        obtain ⟨g, hg, hsame⟩ := hr.exists_of_item hitem hne hlast
        exact ⟨g.result, hr.files_eq ▸ List.mem_map_of_mem hg, hsame⟩
      listing := by
        intro l hl b hb
        obtain ⟨item, -, rfl⟩ := List.mem_map.1 hl
        obtain ⟨b, -, rfl⟩ := List.mem_map.1 hb
        exact Registry.lacks_iff }

/-- A file with a block that is missing, one that ran and one without a name. -/
theorem run_agreesOnMissing_three_blocks :
    let p := inlining Disk.empty
    let sources : List Source := [⟨⟨"/a.c"⟩, "/*a y*//*z*//*a x*//*z*//*a *//*z*/"⟩]
    ∃ r calls, p.run sources = .ok (r, calls) ∧ r.missing = [⟨"y", ⟨"/a.c"⟩, 1, 0⟩] ∧
      ∃ outcome, p.scan sources = .ok outcome ∧ p.AgreesOnMissing outcome.items r := by
  intro p sources
  obtain ⟨⟨r, calls⟩, hrun, hmissing⟩ : ∃ x ∈ (p.run sources).toOption,
      x.1.missing = [⟨"y", ⟨"/a.c"⟩, 1, 0⟩] := by decide +kernel
  have hok := eq_ok_of_toOption hrun
  exact ⟨r, calls, hok, hmissing, run_agreesOnMissing hok⟩

end Project

end CommentBlocks
