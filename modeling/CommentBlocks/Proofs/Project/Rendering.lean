import CommentBlocks.Proofs.Dependency.Ordering
import CommentBlocks.Proofs.Project.Scanning

/-!
Rendering the files of a project: what the loop over the order of files does, file by file.
-/

namespace CommentBlocks

structure FileRun where
  item : FileItem
  job : Job
  outcome : Outcome
  calls : List Context

def FileRun.result (g : FileRun) : FileResult where
  path := g.job.srcPath
  outputPath := g.job.outputPath
  initial := g.job.contents
  updated := g.outcome.updated
  blocks := (g.outcome.missing.map MissingTransform.index).foldl Project.markMissing g.item.blocks
  dependencies := g.item.dependencies
  transformsRun := g.outcome.transformsRun
  isChanged := g.outcome.isChanged

lemma Engine.run_contexts {e : Engine} {job : Job} {v : Vocabulary}
    (hscan : Block.scan v job.contents = .ok job.blocks) {o : Outcome} {calls : List Context}
    (h : e.run job = .ok (o, calls)) : ∀ ctx ∈ calls, ctx.srcPath = job.srcPath ∧
      ctx.settings = e.settings ∧ ctx.initialContents = job.contents := by
  obtain ⟨edits, hed, -⟩ := Engine.run_edited hscan h
  intro ctx hctx
  obtain ⟨i, b, new, name, -, -, rfl⟩ := hed.shown ctx hctx
  exact ⟨rfl, rfl, rfl⟩

namespace Project

def engine (p : Project) (settings : Value) : Engine := ⟨p.registry, p.middleware, settings⟩

/-- The file has blocks, and this is what is to be rendered. -/
structure IsJob (p : Project) (sources : List Source) (items : List FileItem) (item : FileItem)
    (job : Job) : Prop where
  item_eq : item? items job.srcPath = some item
  contents_eq : contents? sources job.srcPath = some job.contents
  nonempty : item.blocks ≠ []
  blocks : job.blocks = item.blocks
  vocabulary : job.vocabulary = p.config.vocabularyFor job.srcPath

/-- The files of the order that have blocks are rendered, one after the other. -/
structure Renders (p : Project) (settings : Value) (sources : List Source) (items : List FileItem)
    (order : List Path) (st st' : RunResult × List Context) (log : List FileRun) : Prop where
  jobs : ∀ g ∈ log, p.IsJob sources items g.item g.job
  runs : ∀ g ∈ log, (p.engine settings).run g.job = .ok (g.outcome, g.calls)
  sublist : (log.map fun g => g.job.srcPath).Sublist order
  all : ∀ path ∈ order, ∀ item contents, item? items path = some item →
    contents? sources path = some contents → item.blocks ≠ [] → ∃ g ∈ log, g.job.srcPath = path
  files : st'.1.files = st.1.files ++ log.map FileRun.result
  errors : st'.1.errors = st.1.errors
  order : st'.1.order = st.1.order ++ log.map fun g => g.job.srcPath
  missing : st'.1.missing = st.1.missing ++ log.flatMap fun g => g.outcome.missing
  calls : st'.2 = st.2 ++ log.flatMap FileRun.calls
  /-- Each file is rendered with the final texts of those before it at hand. -/
  processed : ∀ before g after, log = before ++ g :: after → g.job.processed =
    RunResult.processed { st.1 with files := st.1.files ++ before.map FileRun.result }

variable {p : Project} {settings : Value} {sources : List Source} {items : List FileItem}
  {st st' : RunResult × List Context} {path : Path}

lemma renderNext_cases (p : Project) (settings : Value) (sources : List Source)
    (items : List FileItem) (st : RunResult × List Context) (path : Path) :
    (p.renderNext settings sources items st path = .ok st ∧
      ∀ item contents, item? items path = some item → contents? sources path = some contents →
        item.blocks = []) ∨
    ∃ item job, p.IsJob sources items item job ∧ job.srcPath = path ∧
      job.processed = st.1.processed ∧
      (∀ o more, (p.engine settings).run job = .ok (o, more) →
        ∃ st', p.renderNext settings sources items st path = .ok st' ∧
          st'.1.files = st.1.files ++ [FileRun.result ⟨item, job, o, more⟩] ∧
          st'.1.errors = st.1.errors ∧ st'.1.order = st.1.order ++ [path] ∧
          st'.1.missing = st.1.missing ++ o.missing ∧ st'.2 = st.2 ++ more) ∧
      ∀ halt, (p.engine settings).run job = .error halt →
        ∃ halt', p.renderNext settings sources items st path = .error halt' := by
  unfold renderNext
  cases hitem : item? items path with
  | none => exact .inl ⟨rfl, by simp⟩
  | some item =>
    cases hcontents : contents? sources path with
    | none => exact .inl ⟨rfl, by simp⟩
    | some contents =>
      simp only
      by_cases hblocks : item.blocks.isEmpty = true
      · rw [if_pos hblocks]
        refine .inl ⟨rfl, fun item' contents' h _ => ?_⟩
        rw [← Option.some.inj h]
        exact List.isEmpty_iff.1 hblocks
      · rw [if_neg hblocks]
        refine .inr ⟨item, ⟨path, p.outputPath path, contents, item.blocks,
          p.config.vocabularyFor path, st.1.processed⟩,
          ⟨hitem, hcontents, fun h => hblocks (List.isEmpty_iff.2 h), rfl, rfl⟩, rfl, rfl, ?_, ?_⟩
        · intro o more hrun
          rw [engine] at hrun
          rw [hrun]
          exact ⟨_, rfl, rfl, rfl, rfl, rfl, rfl⟩
        · intro halt hrun
          rw [engine] at hrun
          rw [hrun]
          exact ⟨_, rfl⟩

/-- The loop over the order of files. -/
lemma foldlM_renderNext {order : List Path}
    (h : order.foldlM (p.renderNext settings sources items) st = .ok st') :
    ∃ log, p.Renders settings sources items order st st' log := by
  induction order generalizing st with
  | nil =>
    obtain rfl := Except.ok.inj h
    exact ⟨[], by simp, by simp, .slnil, by simp, by simp, rfl, by simp, by simp, by simp, by simp⟩
  | cons path order ih =>
    obtain ⟨st₁, hnext, hrest⟩ := foldlM_cons_eq_ok.1 h
    obtain ⟨log, hlog⟩ := ih hrest
    rcases p.renderNext_cases settings sources items st path with
      ⟨hskip, hempty⟩ | ⟨item, job, hjob, rfl, hprocessed, hok, herror⟩
    · obtain rfl := Except.ok.inj (hskip.symm.trans hnext)
      refine ⟨log, { hlog with sublist := hlog.sublist.cons _, all := ?_ }⟩
      intro q hq item contents hitem hcontents hblocks
      rcases List.mem_cons.1 hq with rfl | hq
      · exact absurd (hempty item contents hitem hcontents) hblocks
      · exact hlog.all q hq item contents hitem hcontents hblocks
    · cases hrun : (p.engine settings).run job with
      | error halt =>
        obtain ⟨halt', hhalt⟩ := herror halt hrun
        rw [hhalt] at hnext
        simp at hnext
      | ok r =>
        obtain ⟨o, more⟩ := r
        obtain ⟨st₂, hst₂, hfiles, herrors, horder, hmissing, hcalls⟩ := hok o more hrun
        obtain rfl := Except.ok.inj (hst₂.symm.trans hnext)
        -- the log of the later files with this one in front
        refine ⟨⟨item, job, o, more⟩ :: log, ?_, ?_, hlog.sublist.cons_cons _, ?_, ?_,
          hlog.errors.trans herrors, ?_, ?_, ?_, ?_⟩
        · exact List.forall_mem_cons.2 ⟨hjob, hlog.jobs⟩
        · exact List.forall_mem_cons.2 ⟨hrun, hlog.runs⟩
        · intro q hq item' contents hitem hcontents hblocks
          rcases List.mem_cons.1 hq with rfl | hq
          · exact ⟨_, List.mem_cons_self, rfl⟩
          · obtain ⟨g, hg, hpath⟩ := hlog.all q hq item' contents hitem hcontents hblocks
            exact ⟨g, List.mem_cons_of_mem _ hg, hpath⟩
        · rw [hlog.files, hfiles]
          simp
        · rw [hlog.order, horder]
          simp
        · rw [hlog.missing, hmissing]
          simp
        · rw [hlog.calls, hcalls]
          simp
        · intro before g after hsplit
          cases before with
          | nil =>
            obtain ⟨rfl, -⟩ := List.cons.inj hsplit
            simpa using hprocessed
          | cons g' before =>
            obtain ⟨rfl, hrest⟩ := List.cons.inj hsplit
            rw [hlog.processed before g after hrest, RunResult.processed, RunResult.processed, hfiles]
            simp

lemma Renders.missing_eq {errors : List Fault} {order : List Path} {r : RunResult}
    {calls : List Context} {log : List FileRun}
    (h : p.Renders settings sources items order (⟨[], errors, [], []⟩, []) (r, calls) log) :
    r.missing = log.flatMap fun g => g.outcome.missing := by
  simpa using h.missing

lemma Renders.missing_eq_nil_iff {errors : List Fault} {order : List Path} {r : RunResult}
    {calls : List Context} {log : List FileRun}
    (h : p.Renders settings sources items order (⟨[], errors, [], []⟩, []) (r, calls) log) :
    r.missing = [] ↔ ∀ g ∈ log, g.outcome.missing = [] := by
  rw [h.missing_eq, List.flatMap_eq_nil_iff]

lemma foldlM_renderNext_isOk {order : List Path}
    (h : ∀ item job, p.IsJob sources items item job → job.srcPath ∈ order →
      ∃ o calls, (p.engine settings).run job = .ok (o, calls))
    (st : RunResult × List Context) :
    ∃ st', order.foldlM (p.renderNext settings sources items) st = .ok st' := by
  refine foldlM_isOk (fun path hpath st => ?_) st
  rcases p.renderNext_cases settings sources items st path with
    ⟨hskip, -⟩ | ⟨item, job, hjob, rfl, -, hok, -⟩
  · exact ⟨st, hskip⟩
  · obtain ⟨o, more, hrun⟩ := h item job hjob hpath
    obtain ⟨st', hst', -⟩ := hok o more hrun
    exact ⟨st', hst'⟩

structure RunsTo (p : Project) (sources : List Source) (settings : Value) (outcome : ScanOutcome)
    (order : List Path) (r : RunResult) (calls : List Context) (log : List FileRun) : Prop where
  settings_eq : p.config.settingsValue = .ok settings
  scan_eq : p.scan sources = .ok outcome
  order_eq : Dependency.executionOrder (outcome.items.map FileItem.id)
    (FileItem.edges outcome.items) = .ok order
  renders : p.Renders settings sources outcome.items order (⟨[], outcome.errors, [], []⟩, [])
    (r, calls) log
  missing : p.config.failOnMissingTransforms = true → r.missing = []

/-- What a run that succeeds computes one after the other. -/
lemma exists_of_run_eq_ok {r : RunResult} {calls : List Context}
    (h : p.run sources = .ok (r, calls)) : ∃ settings outcome order,
      p.config.settingsValue = .ok settings ∧ p.scan sources = .ok outcome ∧
      Dependency.executionOrder (outcome.items.map FileItem.id)
        (FileItem.edges outcome.items) = .ok order ∧
      order.foldlM (p.renderNext settings sources outcome.items) (⟨[], outcome.errors, [], []⟩, []) =
        .ok (r, calls) ∧
      (p.config.failOnMissingTransforms = true → r.missing = []) := by
  unfold run at h
  cases hsettings : p.config.settingsValue with
  | error fault => simp [hsettings, bind, Except.bind] at h
  | ok settings =>
  cases hscan : p.scan sources with
  | error fault => simp [hsettings, hscan, bind, Except.bind] at h
  | ok outcome =>
  cases horder : Dependency.executionOrder (outcome.items.map FileItem.id)
      (FileItem.edges outcome.items) with
  | error fault => simp [hsettings, hscan, horder, bind, Except.bind] at h
  | ok order =>
    simp only [hsettings, hscan, horder, bind, Except.bind, pure, Except.pure] at h
    split at h
    · simp at h
    · next r₁ calls₁ hfold =>
      split at h
      · simp at h
      · next hmissing =>
        obtain ⟨rfl, rfl⟩ := Prod.mk.inj (Except.ok.inj h)
        refine ⟨settings, outcome, order, rfl, rfl, horder, hfold, fun hfail => ?_⟩
        simpa [hfail] using hmissing

lemma run_stages {r : RunResult} {calls : List Context} (h : p.run sources = .ok (r, calls)) :
    ∃ settings outcome order log, p.RunsTo sources settings outcome order r calls log := by
  obtain ⟨settings, outcome, order, hsettings, hscan, horder, hfold, hmissing⟩ :=
    exists_of_run_eq_ok h
  obtain ⟨log, hlog⟩ := foldlM_renderNext hfold
  exact ⟨settings, outcome, order, log, hsettings, hscan, horder, hlog, hmissing⟩

/-- A run stops at the fault of its scan, before any transform is shown anything. -/
lemma run_eq_error_of_scan (hsettings : p.config.settingsValue = .ok settings) {fault : Fault}
    (hscan : p.scan sources = .error fault) : p.run sources = .error ⟨fault, []⟩ := by
  unfold run
  simp only [hsettings, hscan, bind, Except.bind]

section Result

variable {outcome : ScanOutcome} {order : List Path} {r : RunResult} {calls : List Context}
  (hsettings : p.config.settingsValue = .ok settings) (hscan : p.scan sources = .ok outcome)
  (horder : Dependency.executionOrder (outcome.items.map FileItem.id)
    (FileItem.edges outcome.items) = .ok order)
  (hfold : order.foldlM (p.renderNext settings sources outcome.items)
    (⟨[], outcome.errors, [], []⟩, []) = .ok (r, calls))
include hsettings hscan horder hfold

lemma run_eq_of_stages : p.run sources =
    if p.config.failOnMissingTransforms && !r.missing.isEmpty then
      .error ⟨missingFault r.missing, calls⟩
    else .ok (r, calls) := by
  unfold run
  simp only [hsettings, hscan, horder, hfold, bind, Except.bind, pure, Except.pure]

lemma run_eq_ok (hmissing : p.config.failOnMissingTransforms = true → r.missing = []) :
    p.run sources = .ok (r, calls) := by
  rw [run_eq_of_stages hsettings hscan horder hfold]
  refine if_neg fun h => ?_
  obtain ⟨hfail, hne⟩ := Bool.and_eq_true_iff.1 h
  rw [hmissing hfail] at hne
  exact absurd hne (by decide)

end Result

variable {outcome : ScanOutcome} {order : List Path} {r : RunResult} {calls : List Context}
  {log : List FileRun}

lemma IsJob.source (happart : Path.Apart (sources.map Source.path))
    (hscan : p.scan sources = .ok outcome) {item : FileItem} {job : Job}
    (hjob : p.IsJob sources outcome.items item job) : ∃ s ∈ sources,
      s.path.same job.srcPath = true ∧ s.contents = job.contents ∧
        p.scanned s = .ok job.blocks := by
  obtain ⟨s, hs, hsame, hcontents⟩ := contents?_eq_some hjob.contents_eq
  obtain ⟨hitem, hid⟩ := item?_eq_some hjob.item_eq
  obtain ⟨s₁, hs₁, hpath, hblocks⟩ := scan_items hscan item hitem
  have hsame₁ : s₁.path.same job.srcPath = true := hpath ▸ hid
  obtain rfl : s₁ = s := by
    rw [Path.same_comm] at hsame
    exact happart.eq_of_same hs₁ hs (Path.same_trans hsame₁ hsame)
  exact ⟨s₁, hs₁, hsame, hcontents, by rwa [hjob.blocks]⟩

lemma IsJob.scan_eq (happart : Path.Apart (sources.map Source.path))
    (hscan : p.scan sources = .ok outcome) {item : FileItem} {job : Job}
    (hjob : p.IsJob sources outcome.items item job) :
    Block.scan job.vocabulary job.contents = .ok job.blocks := by
  obtain ⟨s, -, hsame, hcontents, hblocks⟩ := hjob.source happart hscan
  rwa [hjob.vocabulary, ← hcontents, ← p.config.vocabularyFor_congr hsame]

lemma before_of_precedes {files : List Path} (happart : Path.Apart files)
    (hsub : (log.map fun g => g.job.srcPath).Sublist files) {f g : FileRun} (hf : f ∈ log)
    (hg : g ∈ log) (h : Dependency.Precedes files g.job.srcPath f.job.srcPath) :
    ∃ before after, log = before ++ f :: after ∧ g ∈ before := by
  have hlt := h.place_lt happart
  have hsorted := (Dependency.pairwise_place happart).sublist hsub
  obtain ⟨before, after, hlog⟩ := List.append_of_mem hf
  rw [hlog, List.map_append, List.map_cons] at hsorted
  obtain ⟨-, hafter, -⟩ := List.pairwise_append.1 hsorted
  have hlater := (List.pairwise_cons.1 hafter).1
  rw [hlog] at hg
  refine ⟨before, after, hlog, (List.mem_append.1 hg).resolve_right fun hg => ?_⟩
  rcases List.mem_cons.1 hg with rfl | hg
  · exact lt_irrefl _ hlt
  · exact lt_asymm hlt (hlater _ (List.mem_map_of_mem hg))

/-! ### The final texts of files -/

section Finals

variable {runs : List FileRun} {path : Path}

lemma finals_of_mem (happart : Path.Apart (runs.map fun g => g.job.srcPath)) {g : FileRun} (hg : g ∈ runs)
    (hsame : g.job.srcPath.same path = true) :
    Processed.get? (runs.map fun g => (g.job.srcPath, g.outcome.updated)).reverse path =
      some g.outcome.updated := by
  have happart' : Path.Apart ((runs.map fun g => (g.job.srcPath, g.outcome.updated)).map Prod.fst) := by
    rwa [List.map_map]
  exact congrArg _ (find?_reverse_of_mem happart' (List.mem_map_of_mem hg) hsame)

lemma exists_of_finals {updated : String}
    (h : Processed.get? (runs.map fun g => (g.job.srcPath, g.outcome.updated)).reverse path =
      some updated) : ∃ g ∈ runs, g.job.srcPath.same path = true ∧ g.outcome.updated = updated := by
  obtain ⟨entry, hentry, rfl⟩ := Option.map_eq_some_iff.1 h
  obtain ⟨hmem, hsame⟩ := mem_of_find?_reverse hentry
  obtain ⟨g, hg, rfl⟩ := List.mem_map.1 hmem
  exact ⟨g, hg, hsame, rfl⟩

end Finals

namespace RunsTo

variable (hr : p.RunsTo sources settings outcome order r calls log)
include hr

lemma files_eq : r.files = log.map FileRun.result := by
  simpa using hr.renders.files

lemma mem_calls_iff {ctx : Context} : ctx ∈ calls ↔ ∃ g ∈ log, ctx ∈ g.calls := by
  have hcalls : calls = log.flatMap FileRun.calls := by simpa using hr.renders.calls
  rw [hcalls, List.mem_flatMap]

lemma changed_eq_nil_iff : r.changed = [] ↔ ∀ g ∈ log, g.outcome.isChanged = false := by
  rw [RunResult.changed, hr.files_eq, List.filter_eq_nil_iff, List.forall_mem_map]
  simp [FileRun.result]

lemma apart : Path.Apart (log.map fun g => g.job.srcPath) :=
  (Dependency.executionOrder_apart hr.order_eq).sublist hr.renders.sublist

lemma processed_eq : r.processed =
    (log.map fun g => (g.job.srcPath, g.outcome.updated)).reverse := by
  rw [RunResult.processed, hr.files_eq, List.map_map]
  rfl

lemma processed_of_mem {g : FileRun} (hg : g ∈ log) {path : Path}
    (hsame : g.job.srcPath.same path = true) :
    r.processed.get? path = some g.outcome.updated := by
  rw [hr.processed_eq]
  exact finals_of_mem hr.apart hg hsame

lemma processed_eq_some {path : Path} {updated : String}
    (h : r.processed.get? path = some updated) :
    ∃ g ∈ log, g.job.srcPath.same path = true ∧ g.outcome.updated = updated :=
  exists_of_finals (hr.processed_eq ▸ h)

lemma exists_of_mem_files {f : FileResult} (hf : f ∈ r.files) : ∃ g ∈ log, g.result = f := by
  rw [hr.files_eq] at hf
  exact List.mem_map.1 hf

/-- What is at hand for a file are the final texts of those before it. -/
lemma job_processed_eq {f : FileRun} {before after : List FileRun} (hlog : log = before ++ f :: after) :
    f.job.processed = (before.map fun g => (g.job.srcPath, g.outcome.updated)).reverse := by
  rw [hr.renders.processed before f after hlog, RunResult.processed, List.nil_append, List.map_map]
  rfl

lemma processed_of_before {f g : FileRun} {before after : List FileRun}
    (hlog : log = before ++ f :: after) (hg : g ∈ before) {path : Path}
    (hsame : g.job.srcPath.same path = true) :
    f.job.processed.get? path = some g.outcome.updated := by
  have happart := hr.apart
  rw [hlog, List.map_append] at happart
  rw [hr.job_processed_eq hlog]
  exact finals_of_mem (List.pairwise_append.1 happart).1 hg hsame

lemma exists_before_of_processed {f : FileRun} {before after : List FileRun}
    (hlog : log = before ++ f :: after) {path : Path} {updated : String}
    (h : f.job.processed.get? path = some updated) :
    ∃ g ∈ before, g.job.srcPath.same path = true ∧ g.outcome.updated = updated :=
  exists_of_finals (hr.job_processed_eq hlog ▸ h)

end RunsTo

end Project

end CommentBlocks
