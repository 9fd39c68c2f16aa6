import CommentBlocks.Proofs.Project.Accounting

/-!
Running a project on the same sources in another order.

It changes the order of the files, and with it what was rendered before a file. But a reference of a
block is looked up with the same result: if it leads to another file with blocks, that one is rendered
before in every order, since there is an edge to it; the file itself is never rendered before; and all
else is never rendered. So the loop over the second order is followed with one statement, that the files
rendered so far have the texts that the first run gives them.
-/

namespace CommentBlocks

/-! ### Scans of the same sources in another order -/

lemma FileItem.edges_perm {items items' : List FileItem} (h : items.Perm items') :
    (edges items).Perm (edges items') := by
  have hknown : ∀ d : Path, (items'.map FileItem.id).any (·.same d) =
      (items.map FileItem.id).any (·.same d) := fun d => (h.map _).symm.any_eq
  unfold edges
  simp only [hknown]
  exact h.flatMap_right _

namespace Dependency

variable {es es' : List Edge} {p q : Path}

lemma dependsOn_iff_of_perm (h : es.Perm es') : DependsOn es p q ↔ DependsOn es' p q :=
  exists_congr fun _ => and_congr_left' h.mem_iff

lemma cyclic_iff_of_perm (h : es.Perm es') : Cyclic es ↔ Cyclic es' := by
  have heq : DependsOn es = DependsOn es' := by
    funext p q
    exact propext (dependsOn_iff_of_perm h)
  rw [Cyclic, Cyclic, heq]

end Dependency

namespace Project

variable {p : Project} {disk : Disk} {sources sources' : List Source}

lemma found_items_perm (h : sources.Perm sources') :
    (p.found sources).items.Perm (p.found sources').items := by
  have hitems := h.filterMap p.itemOf?
  have hknown : FileItem.retainKnown ((sources'.filterMap p.itemOf?).map FileItem.id) =
      FileItem.retainKnown ((sources.filterMap p.itemOf?).map FileItem.id) := by
    funext item
    have hany : ∀ d : Path, ((sources'.filterMap p.itemOf?).map FileItem.id).any (·.same d) =
        ((sources.filterMap p.itemOf?).map FileItem.id).any (·.same d) :=
      fun d => (hitems.map _).symm.any_eq
    simp only [FileItem.retainKnown, hany]
  rw [found, found]
  simp only [hknown]
  exact hitems.map _

/-- All that the text of a block can come from, besides the disk, is drawn as an edge: references have
no scheme, and transforms other than the built-in one give a text for the block alone. -/
structure Traceable (p : Project) (disk : Disk) (sources : List Source) : Prop where
  apart : Path.Apart (sources.map Source.path)
  parent : ∀ s ∈ sources, s.path.parent? ≠ none
  schemeless : ∀ s ∈ sources, ∀ blocks, p.scanned s = .ok blocks → ∀ b ∈ blocks, ∀ src,
    b.src? = some src → Text.hasPiece [':', '/', '/'] src.toList = false
  transforms : ∀ name transform, p.registry.get? name = some transform →
    transform = Inline.transform disk ∨ transform.Plain

lemma Traceable.perm (h : p.Traceable disk sources) (hperm : sources.Perm sources') :
    p.Traceable disk sources' where
  apart := (hperm.map Source.path).pairwise h.apart fun hab => by rwa [Path.same_comm]
  parent s hs := h.parent s (hperm.mem_iff.2 hs)
  schemeless s hs := h.schemeless s (hperm.mem_iff.2 hs)
  transforms := h.transforms

variable {settings : Value} {outcome : ScanOutcome} {order : List Path} {r : RunResult}
  {calls : List Context} {log : List FileRun}

namespace RunsTo

variable (hr : p.RunsTo sources settings outcome order r calls log) (ho : p.Traceable disk sources)
include hr

lemma processed_eq_none_iff {path : Path} :
    r.processed.get? path = none ↔ ∀ g ∈ log, g.job.srcPath.same path = false := by
  constructor
  · intro h g hg
    refine Bool.eq_false_iff.2 fun hsame => ?_
    rw [hr.processed_of_mem hg hsame] at h
    simp at h
  · intro h
    cases hget : r.processed.get? path with
    | none => rfl
    | some text =>
      obtain ⟨g, hg, hsame, -⟩ := hr.processed_eq_some hget
      rw [h g hg] at hsame
      simp at hsame

include ho

lemma scheme_of_mem {g : FileRun} (hg : g ∈ log) {b : Block} (hb : b ∈ g.job.blocks) {src : String}
    (hsrc : b.src? = some src) : Text.hasPiece [':', '/', '/'] src.toList = false := by
  obtain ⟨s, hs, -, -, hscan⟩ := (hr.renders.jobs g hg).source ho.apart hr.scan_eq
  exact ho.schemeless s hs _ hscan b hb src hsrc

/-- A reference is looked up with the final text of the file that it leads to, if that file is rendered
at all and not the one that the reference stands in. -/
lemma processed_of_reference {f : FileRun} (hf : f ∈ log) {b : Block} (hb : b ∈ f.job.blocks)
    {src : String} (hsrc : b.src? = some src) :
    f.job.processed.get? (Inline.target f.job.srcPath src) =
      if f.job.srcPath.same (Inline.target f.job.srcPath src) then none
      else r.processed.get? (Inline.target f.job.srcPath src) := by
  obtain ⟨before, after, hlog⟩ := List.append_of_mem hf
  have hnone {path : Path} (h : ∀ g ∈ before, g.job.srcPath.same path = false) :
      f.job.processed.get? path = none := by
    rw [hr.job_processed_eq hlog, Processed.get?, Option.map_eq_none_iff, List.find?_eq_none]
    simpa using fun g hg => h g hg
  by_cases hself : f.job.srcPath.same (Inline.target f.job.srcPath src) = true
  · rw [if_pos hself]
    refine hnone ?_
    have happart := hr.apart
    rw [hlog, List.map_append, List.map_cons] at happart
    intro g hg
    rw [Path.same_comm, ← Path.same_congr hself, Path.same_comm]
    exact happart.same_eq_false _ (List.mem_append_left _ (List.mem_map_of_mem hg))
  · rw [if_neg hself]
    cases hget : r.processed.get? (Inline.target f.job.srcPath src) with
    | none =>
      refine hnone fun g hg => hr.processed_eq_none_iff.1 hget g ?_
      rw [hlog]
      exact List.mem_append_left _ hg
    | some text =>
      obtain ⟨g, hg, hsame, rfl⟩ := hr.processed_eq_some hget
      have hother : g.job.srcPath.same f.job.srcPath = false := by
        refine Bool.eq_false_iff.2 fun hgf => hself ?_
        rw [Path.same_comm] at hgf
        exact Path.same_trans hgf hsame
      have htarget := hsame
      rw [Path.same_comm] at htarget
      -- the reference is an edge, so the file that it leads to was rendered before
      obtain ⟨before', after', hlog', hbefore⟩ := hr.before_of_reference ho.apart ho.parent hf hg hb
        hsrc (hr.scheme_of_mem ho hf hb hsrc) htarget hother
      exact hr.processed_of_before hlog' hbefore hsame

/-- A job that is like one of the run comes out like it, when references are looked up with the same
result. -/
lemma run_alike {g : FileRun} {job : Job} (hg : g ∈ log) (halike : g.job.Alike job)
    (hlookup : ∀ b ∈ g.job.blocks, ∀ src, b.src? = some src →
      job.processed.get? (Inline.target g.job.srcPath src) =
        g.job.processed.get? (Inline.target g.job.srcPath src)) :
    ∃ o' calls', (p.engine settings).run job = .ok (o', calls') ∧ g.outcome.Alike o' :=
  Engine.run_alike halike (fun b hb => Engine.repeats halike
    ((hr.renders.jobs g hg).parent?_ne_none ho.apart ho.parent hr.scan_eq) ho.transforms
    (hlookup b hb)) (hr.renders.runs g hg)

end RunsTo

/-! ### The loop over another order -/

/-- When the files of `before` are done, their texts are those of the result `r`, and no others are at
hand. -/
def AtHand (r : RunResult) (before : List Path) (processed : Processed) : Prop :=
  ∀ path, processed.get? path =
    if before.any (·.same path) then r.processed.get? path else none

namespace AtHand

variable {before : List Path} {processed : Processed} {path : Path} (h : AtHand r before processed)
include h

lemma skip (hnone : ∀ q : Path, path.same q = true → r.processed.get? q = none) :
    AtHand r (before ++ [path]) processed := by
  intro q
  rw [h, List.any_append]
  cases hq : path.same q with
  | false => simp [hq]
  | true => simp [hnone q hq]

lemma concat {text : String}
    (htext : ∀ q : Path, path.same q = true → r.processed.get? q = some text) :
    AtHand r (before ++ [path]) ((path, text) :: processed) := by
  intro q
  rw [Processed.get?, List.find?_cons, List.any_append]
  cases hq : path.same q with
  | false => simpa [hq, Processed.get?] using h q
  | true => simp [hq, htext q hq]

end AtHand

namespace RunsTo

variable {outcome' : ScanOutcome} {order' : List Path} {item' : FileItem} {job' : Job}
variable (hr : p.RunsTo sources settings outcome order r calls log) (ho : p.Traceable disk sources)
  (hperm : sources.Perm sources') (hscan' : p.scan sources' = .ok outcome')
include hr ho hperm hscan'

lemma exists_alike (hjob' : p.IsJob sources' outcome'.items item' job') :
    ∃ g ∈ log, g.job.Alike job' := by
  obtain ⟨s, hs, hsame, hcontents, hscan⟩ := hjob'.source (ho.perm hperm).apart hscan'
  have hs' := hperm.mem_iff.2 hs
  obtain ⟨g, hg, hgs⟩ := hr.exists_of_source ho.apart hs' hscan (hjob'.blocks ▸ hjob'.nonempty)
  obtain ⟨hcontents', hscan''⟩ := hr.source_of_same ho.apart hg hs' hgs
  have hsame' := Path.same_trans hgs hsame
  refine ⟨g, hg, hsame', hcontents.symm.trans hcontents',
    Except.ok.inj (hscan.symm.trans hscan''), ?_⟩
  rw [hjob'.vocabulary, (hr.renders.jobs g hg).vocabulary, p.config.vocabularyFor_congr hsame']

lemma exists_item_again {g : FileRun} (hg : g ∈ log) :
    ∃ item ∈ outcome'.items, item.id.same g.job.srcPath = true := by
  obtain ⟨s, hs, hsame, -, hscan⟩ := (hr.renders.jobs g hg).source ho.apart hr.scan_eq
  obtain ⟨-, rfl⟩ := scan_eq_found_iff.1 hscan'
  exact ⟨_, mem_found_items_iff.2 ⟨s, hperm.mem_iff.1 hs, _, hscan, rfl⟩, hsame⟩

lemma any_before_of_reference {before after : List Path}
    (horder' : Dependency.executionOrder (outcome'.items.map FileItem.id)
      (FileItem.edges outcome'.items) = .ok (before ++ job'.srcPath :: after))
    (hjob' : p.IsJob sources' outcome'.items item' job') {f g : FileRun} (hf : f ∈ log) (hg : g ∈ log)
    (halike : f.job.Alike job') {b : Block} (hb : b ∈ f.job.blocks) {src : String}
    (hsrc : b.src? = some src) {path : Path} (hpath : Inline.target f.job.srcPath src = path)
    (hsame : g.job.srcPath.same path = true) (hself : ¬ f.job.srcPath.same path = true) :
    before.any (·.same path) = true := by
  have hparent := (hr.renders.jobs f hf).parent?_ne_none ho.apart ho.parent hr.scan_eq
  have hparent' := hjob'.parent?_ne_none (ho.perm hperm).apart (ho.perm hperm).parent hscan'
  obtain ⟨other, hother, hid⟩ := hr.exists_item_again ho hperm hscan' hg
  obtain ⟨hitem', hid'⟩ := item?_eq_some hjob'.item_eq
  have hother_path := Path.same_trans hid hsame
  have hedge : Dependency.DependsOn (FileItem.edges outcome'.items) job'.srcPath other.id := by
    refine dependsOn_of_target hscan' hitem' hother hid' hparent'
      (hjob'.blocks ▸ halike.blocks ▸ hb) hsrc (hr.scheme_of_mem ho hf hb hsrc) ?_ ?_
    · rw [Inline.target_congr halike.path hparent, hpath, Path.same_comm]
      exact hother_path
    · refine Bool.eq_false_iff.2 fun heq => hself ?_
      rw [Path.same_comm] at heq
      exact Path.same_trans (Path.same_trans halike.path heq) hother_path
  obtain ⟨hordered, -⟩ := (Dependency.order_spec _ _).1 _ (Dependency.executionOrder_eq_ok horder')
  obtain ⟨d, hd, hdother⟩ := hordered before _ after rfl _ hedge
  exact List.any_eq_true.2 ⟨d, hd, Path.same_trans hdother hother_path⟩

lemma lookup_again {before after : List Path}
    (horder' : Dependency.executionOrder (outcome'.items.map FileItem.id)
      (FileItem.edges outcome'.items) = .ok (before ++ job'.srcPath :: after))
    (hatHand : AtHand r before job'.processed)
    (hjob' : p.IsJob sources' outcome'.items item' job') {f : FileRun} (hf : f ∈ log)
    (halike : f.job.Alike job') {b : Block} (hb : b ∈ f.job.blocks) {src : String}
    (hsrc : b.src? = some src) : job'.processed.get? (Inline.target f.job.srcPath src) =
      f.job.processed.get? (Inline.target f.job.srcPath src) := by
  rw [hr.processed_of_reference ho hf hb hsrc, hatHand]
  generalize hpath : Inline.target f.job.srcPath src = path
  by_cases hself : f.job.srcPath.same path = true
  · -- no file stands before itself
    have hnone : ¬ before.any (·.same path) = true := fun hany => by
      obtain ⟨d, hd, hsame⟩ := List.any_eq_true.1 hany
      have hne := (Dependency.executionOrder_apart horder').same_eq_false d (List.mem_append_left _ hd)
      rw [Path.same_comm] at hself
      rw [Path.same_trans hsame (Path.same_trans hself halike.path)] at hne
      exact absurd hne (by decide)
    rw [if_pos hself, if_neg hnone]
  · rw [if_neg hself]
    cases hget : r.processed.get? path with
    | none => exact ite_self none
    | some text =>
      obtain ⟨g, hg, hsame, -⟩ := hr.processed_eq_some hget
      exact if_pos (hr.any_before_of_reference ho hperm hscan' horder' hjob' hf hg halike hb hsrc hpath
        hsame hself)

/-- One turn of the loop over the second order: it does not stop, and what is at hand afterwards are
texts of the first run. -/
lemma renderNext_again {before after : List Path} {path : Path}
    (horder' : Dependency.executionOrder (outcome'.items.map FileItem.id)
      (FileItem.edges outcome'.items) = .ok (before ++ path :: after)) {st : RunResult × List Context}
    (hatHand : AtHand r before st.1.processed) :
    ∃ st', p.renderNext settings sources' outcome'.items st path = .ok st' ∧
      AtHand r (before ++ [path]) st'.1.processed := by
  rcases p.renderNext_cases settings sources' outcome'.items st path with
    ⟨hskip, hempty⟩ | ⟨item', job', hjob', rfl, hprocessed, hok, -⟩
  · refine ⟨st, hskip, hatHand.skip fun q hsame => hr.processed_eq_none_iff.2 fun g hg => ?_⟩
    refine Bool.eq_false_iff.2 fun hgq => ?_
    rw [Path.same_comm] at hsame
    obtain ⟨s, hs, hspath, blocks, hscan, hne⟩ := (hr.exists_rendered_iff ho.apart).1
      ⟨g, hg, Path.same_trans hgq hsame⟩
    have hs' := hperm.mem_iff.1 hs
    have happart' := (ho.perm hperm).apart
    obtain ⟨-, rfl⟩ := scan_eq_found_iff.1 hscan'
    obtain ⟨item, hitem, rfl⟩ := exists_item happart' hs' hscan hspath
    exact hne (hempty item _ hitem (contents?_of_mem happart' hs' hspath))
  · obtain ⟨g, hg, halike⟩ := hr.exists_alike ho hperm hscan' hjob'
    obtain ⟨o', calls', hrun, hout⟩ := hr.run_alike ho hg halike fun b hb src hsrc =>
      hr.lookup_again ho hperm hscan' horder' (hprocessed ▸ hatHand) hjob' hg halike hb hsrc
    obtain ⟨st', hnext, hfiles, -⟩ := hok o' calls' hrun
    have hadded : st'.1.processed = (job'.srcPath, o'.updated) :: st.1.processed := by
      simp [RunResult.processed, hfiles, FileRun.result]
    refine ⟨st', hnext, hadded ▸ hatHand.concat fun q hsame => ?_⟩
    rw [hr.processed_of_mem hg (Path.same_trans halike.path hsame), hout.updated]

lemma foldlM_again (horder' : Dependency.executionOrder (outcome'.items.map FileItem.id)
      (FileItem.edges outcome'.items) = .ok order') :
    ∃ st', order'.foldlM (p.renderNext settings sources' outcome'.items)
      (⟨[], outcome'.errors, [], []⟩, []) = .ok st' ∧ AtHand r order' st'.1.processed := by
  refine foldlM_reaches
    (P := fun before (st : RunResult × List Context) => AtHand r before st.1.processed) ?_ fun _ => rfl
  rintro before path after st rfl hst
  exact hr.renderNext_again ho hperm hscan' horder' hst

end RunsTo

/-- Nothing that a run goes by, its rendering apart, hangs on the order of the sources. -/
lemma RunsTo.exists_order (hr : p.RunsTo sources settings outcome order r calls log)
    (hperm : sources.Perm sources') : ∃ order', p.scan sources' = .ok (p.found sources') ∧
      Dependency.executionOrder ((p.found sources').items.map FileItem.id)
        (FileItem.edges (p.found sources').items) = .ok order' := by
  obtain ⟨hnone, rfl⟩ := scan_eq_found_iff.1 hr.scan_eq
  have hedges := FileItem.edges_perm (found_items_perm (p := p) hperm)
  have hcyclic : ¬ Dependency.Cyclic (FileItem.edges (p.found sources').items) := fun h =>
    Dependency.executionOrder_not_cyclic hr.order_eq ((Dependency.cyclic_iff_of_perm hedges).2 h)
  obtain ⟨order', horder'⟩ := Dependency.executionOrder_isOk hcyclic
  exact ⟨order', scan_eq_found_iff.2 ⟨fun hfast s hs => hnone hfast s (hperm.mem_iff.2 hs), rfl⟩,
    horder'⟩

namespace RunsTo

variable {order' : List Path}
variable (hr : p.RunsTo sources settings outcome order r calls log) (ho : p.Traceable disk sources)
  (hperm : sources.Perm sources')
include hr ho hperm

lemma exists_run : ∃ outcome' order' r' calls' log', p.run sources' = .ok (r', calls') ∧
    p.RunsTo sources' settings outcome' order' r' calls' log' ∧
      ∀ path, r'.processed.get? path = r.processed.get? path := by
  have ho' := ho.perm hperm
  obtain ⟨order', hscan', horder'⟩ := hr.exists_order hperm
  obtain ⟨⟨r', calls'⟩, hfold, hatHand⟩ := hr.foldlM_again ho hperm hscan' horder'
  obtain ⟨log', hlog'⟩ := foldlM_renderNext hfold
  have hmissing : p.config.failOnMissingTransforms = true → r'.missing = [] := by
    intro hfail
    have hregistered := (hr.missing_eq_nil_iff_registered ho.apart).1 (hr.missing hfail)
    refine hlog'.missing_eq_nil_iff.2 fun g hg => ?_
    obtain ⟨s, hs, -, -, hblocks⟩ := (hlog'.jobs g hg).source ho'.apart hscan'
    exact (Engine.run_missing_eq_nil_iff (hlog'.runs g hg)).2
      (hregistered s (hperm.mem_iff.2 hs) _ hblocks)
  have hr' : p.RunsTo sources' settings _ order' r' calls' log' :=
    ⟨hr.settings_eq, hscan', horder', hlog', hmissing⟩
  refine ⟨_, order', r', calls', log',
    run_eq_ok hr.settings_eq hscan' horder' hfold hmissing, hr', fun path => ?_⟩
  have hget := hatHand path
  cases h : r.processed.get? path with
  | none => rw [hget, h, ite_self]
  | some text =>
    obtain ⟨g, hg, hsame, -⟩ := hr.processed_eq_some h
    obtain ⟨s, hs, hrest⟩ := (hr.exists_rendered_iff ho.apart).1 ⟨g, hg, hsame⟩
    obtain ⟨g', hg', hsame'⟩ := (hr'.exists_rendered_iff ho'.apart).2 ⟨s, hperm.mem_iff.1 hs, hrest⟩
    rw [hr'.processed_of_mem hg' hsame'] at hget ⊢
    split at hget
    · rw [hget, h]
    · simp at hget

end RunsTo

end Project

end CommentBlocks
