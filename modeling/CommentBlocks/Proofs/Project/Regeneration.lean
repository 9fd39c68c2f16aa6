import CommentBlocks.Proofs.Project.Rendering

/-!
Running a project a second time on its own results.

The second run finds the same files with the same dependencies and renders them in the same order. Each
file that was rendered goes through the second run with the text that the first run has made of it, so
what is known of one file adds up to the whole project.
-/

namespace CommentBlocks

open TagPattern (closesBlock)
open Text (dropBytes)

def Source.after (r : RunResult) (s : Source) : Source :=
  { s with contents := (r.processed.get? s.path).getD s.contents }

namespace Project

/-- The transforms and the middleware look at the headers of the blocks only. -/
structure Local (p : Project) : Prop where
  transforms : ∀ name transform, p.registry.get? name = some transform → transform.Local
  middleware : ∀ m ∈ p.middleware, m.Local

/-- No close tag starts in a text that is put in, with the old text behind it. -/
def TagsSurvive (p : Project) (calls : List Context) : Prop :=
  ∀ ctx ∈ calls, ∀ new,
    (p.engine ctx.settings).inserted? (p.config.vocabularyFor ctx.srcPath) ctx = some new →
      ¬ (closesBlock (p.config.vocabularyFor ctx.srcPath)).StartsIn new
        (dropBytes ctx.block.content.stop ctx.initialContents.toList)

def AllSettled (p : Project) (calls : List Context) : Prop :=
  ∀ ctx ∈ calls, ∀ text, (p.engine ctx.settings).rendered? ctx = some text →
    Layout.Settled (p.config.vocabularyFor ctx.srcPath) ctx.block text

instance (p : Project) (calls : List Context) : Decidable (p.TagsSurvive calls) :=
  inferInstanceAs (Decidable (∀ ctx ∈ calls, ∀ new ∈
    (p.engine ctx.settings).inserted? (p.config.vocabularyFor ctx.srcPath) ctx, ¬ _))

instance (p : Project) (calls : List Context) : Decidable (p.AllSettled calls) :=
  inferInstanceAs (Decidable (∀ ctx ∈ calls, ∀ text ∈ (p.engine ctx.settings).rendered? ctx,
    Layout.Settled _ _ _))

variable {p : Project} {sources : List Source} {settings : Value} {outcome : ScanOutcome}
  {order : List Path} {r : RunResult} {calls : List Context} {log : List FileRun}

lemma Local.engine (hp : p.Local) (settings : Value) : (p.engine settings).Local :=
  ⟨hp.transforms, hp.middleware⟩

namespace RunsTo

variable (hr : p.RunsTo sources settings outcome order r calls log)
include hr

/-! ### The second run -/

variable (hp : p.Local) (happart : Path.Apart (sources.map Source.path))
  (hplain : ∀ s ∈ sources, (p.config.vocabularyFor s.path).Plain) (hfree : p.TagsSurvive calls)
include hp happart hplain hfree

/-- One file that was rendered, and what the second run does to it. -/
lemma again {g : FileRun} (hg : g ∈ log) :
    ∃ blocks', Block.scan g.job.vocabulary g.outcome.updated = .ok blocks' ∧
      List.Forall₂ Block.SameHeader g.job.blocks blocks' ∧
      ∀ job' : Job, job'.vocabulary = g.job.vocabulary → job'.contents = g.outcome.updated →
        job'.blocks = blocks' → ∃ o' calls', (p.engine settings).run job' = .ok (o', calls') ∧
          (g.outcome.missing = [] → o'.missing = []) ∧
          (o'.isChanged = false ↔ ∀ ctx ∈ g.calls, ∀ text,
            (p.engine ctx.settings).rendered? ctx = some text →
              Layout.Settled (p.config.vocabularyFor ctx.srcPath) ctx.block text) := by
  have hjob := hr.renders.jobs g hg
  have hrun := hr.renders.runs g hg
  have hscan := hjob.scan_eq happart hr.scan_eq
  obtain ⟨s, hs, hsame, -⟩ := hjob.source happart hr.scan_eq
  have hsteady : g.job.vocabulary.Steady := by
    rw [hjob.vocabulary, ← p.config.vocabularyFor_congr hsame]
    exact (hplain s hs).steady
  have hctx := Engine.run_contexts hscan hrun
  have hfree' : ∀ ctx ∈ g.calls, ∀ new,
      (p.engine settings).inserted? g.job.vocabulary ctx = some new →
        ¬ (closesBlock g.job.vocabulary).StartsIn new
          (dropBytes ctx.block.content.stop g.job.contents.toList) := by
    intro ctx hmem new hnew
    obtain ⟨hpath, hsettings, hcontents⟩ := hctx ctx hmem
    have := hfree ctx (hr.mem_calls_iff.2 ⟨g, hg, hmem⟩) new
    rw [hpath, hsettings, hcontents, ← hjob.vocabulary] at this
    exact this hnew
  obtain ⟨blocks', hscan', hheaders, hsecond⟩ :=
    Engine.run_again (hp.engine settings) hsteady hscan hrun hfree'
  refine ⟨blocks', hscan', hheaders, fun job' hv hcontents hblocks => ?_⟩
  obtain ⟨o', calls', hrun', hmissing, hiff⟩ := hsecond job' hv hcontents hblocks
  refine ⟨o', calls', hrun', hmissing, hiff.trans (forall₂_congr fun ctx hmem => ?_)⟩
  obtain ⟨hpath, hsettings, -⟩ := hctx ctx hmem
  rw [hpath, hsettings, ← hjob.vocabulary]
  rfl

lemma rescansAs : List.Forall₂ p.RescansAs sources (sources.map (Source.after r)) := by
  rw [List.forall₂_map_right_iff]
  refine List.forall₂_same.2 fun s hs => ?_
  cases hget : r.processed.get? s.path with
  | none =>
    have hsame : s.after r = s := by rw [Source.after, hget]; rfl
    rw [hsame]
    exact .refl p s
  | some updated =>
    obtain ⟨g, hg, hsame, rfl⟩ := hr.processed_eq_some hget
    have hjob := hr.renders.jobs g hg
    obtain ⟨s₁, hs₁, hsame₁, hcontents, hscan⟩ := hjob.source happart hr.scan_eq
    obtain rfl : s₁ = s := happart.eq_of_same hs₁ hs (Path.same_trans hsame₁ hsame)
    obtain ⟨blocks', hscan', hheaders, -⟩ := hr.again hp happart hplain hfree hg
    have hafter : p.scanned (s₁.after r) = .ok blocks' := by
      rw [scanned, Source.after, hget, p.config.vocabularyFor_congr hsame₁, ← hjob.vocabulary]
      exact hscan'
    refine ⟨rfl, fun fault hfault => ?_, fun blocks hblocks => ⟨blocks', hafter, ?_⟩⟩
    · rw [hscan] at hfault
      simp at hfault
    · rw [hscan] at hblocks
      obtain rfl := Except.ok.inj hblocks
      exact hheaders

variable {outcome' : ScanOutcome}
  (hscan' : p.scan (sources.map (Source.after r)) = .ok outcome')
  (hsame' : outcome.SameHeaders outcome')
include hscan' hsame'

omit hp hplain hfree in
lemma job_again {item' : FileItem} {job' : Job}
    (hjob' : p.IsJob (sources.map (Source.after r)) outcome'.items item' job')
    (hpath : job'.srcPath ∈ order) : ∃ g ∈ log, g.job.srcPath = job'.srcPath ∧
      job'.vocabulary = g.job.vocabulary ∧ job'.contents = g.outcome.updated ∧
        Block.scan g.job.vocabulary g.outcome.updated = .ok job'.blocks := by
  have happart' : Path.Apart ((sources.map (Source.after r)).map Source.path) := by
    rw [List.map_map]
    exact happart
  have hscan := hjob'.scan_eq happart' hscan'
  obtain ⟨s', hs', hsame, hcontents, -⟩ := hjob'.source happart' hscan'
  obtain ⟨s, hs, rfl⟩ := List.mem_map.1 hs'
  rcases item?_again hsame'.items job'.srcPath with
    ⟨-, hnone⟩ | ⟨item, item₁, hitem, hitem₁, hheaders⟩
  · rw [hjob'.item_eq] at hnone
    simp at hnone
  obtain rfl := Option.some.inj (hitem₁.symm.trans hjob'.item_eq)
  obtain ⟨g, hg, hgpath⟩ := hr.renders.all _ hpath item _ hitem
    (contents?_of_mem happart hs hsame) (hheaders.blocks_eq_nil_iff.not.1 hjob'.nonempty)
  have hvocabulary : job'.vocabulary = g.job.vocabulary := by
    rw [hjob'.vocabulary, (hr.renders.jobs g hg).vocabulary, hgpath]
  have hupdated : job'.contents = g.outcome.updated := by
    rw [← hgpath, Path.same_comm] at hsame
    have hget : r.processed.get? s.path = some g.outcome.updated := hr.processed_of_mem hg hsame
    rw [← hcontents, Source.after, hget]
    rfl
  refine ⟨g, hg, hgpath, hvocabulary, hupdated, ?_⟩
  rw [← hvocabulary, ← hupdated]
  exact hscan

lemma second_run {item' : FileItem} {job' : Job}
    (hjob' : p.IsJob (sources.map (Source.after r)) outcome'.items item' job')
    (hpath : job'.srcPath ∈ order) : ∃ g ∈ log, g.job.srcPath = job'.srcPath ∧
      ∃ o' calls', (p.engine settings).run job' = .ok (o', calls') ∧
        (g.outcome.missing = [] → o'.missing = []) ∧
        (o'.isChanged = false ↔ p.AllSettled g.calls) := by
  obtain ⟨g, hg, hgpath, hv, hcontents, hscan⟩ := hr.job_again happart hscan' hsame' hjob' hpath
  obtain ⟨blocks', hblocks', -, hrun⟩ := hr.again hp happart hplain hfree hg
  exact ⟨g, hg, hgpath, hrun job' hv hcontents (Except.ok.inj (hscan.symm.trans hblocks'))⟩

omit hp hplain hfree hscan' in
lemma exists_again {r' : RunResult} {calls' : List Context} {log' : List FileRun}
    (hr' : p.RunsTo (sources.map (Source.after r)) settings outcome' order r' calls' log')
    {g : FileRun} (hg : g ∈ log) : ∃ g' ∈ log', g'.job.srcPath = g.job.srcPath := by
  have hjob := hr.renders.jobs g hg
  have hpath : g.job.srcPath ∈ order :=
    hr.renders.sublist.subset (List.mem_map_of_mem hg)
  rcases item?_again hsame'.items g.job.srcPath with
    ⟨hnone, -⟩ | ⟨item, item', hitem, hitem', hheaders⟩
  · rw [hjob.item_eq] at hnone
    simp at hnone
  obtain rfl := Option.some.inj (hitem.symm.trans hjob.item_eq)
  have happart' : Path.Apart ((sources.map (Source.after r)).map Source.path) := by
    rw [List.map_map]
    exact happart
  obtain ⟨s, hs, hsame, -⟩ := hjob.source happart hr.scan_eq
  have hcontents := contents?_of_mem happart' (List.mem_map_of_mem hs) hsame
  exact hr'.renders.all _ hpath item' _ hitem' hcontents
    (hheaders.blocks_eq_nil_iff.not.2 hjob.nonempty)

end RunsTo

/-- The second run of a project whose tags survive: it succeeds, and no file changes exactly if every
text that was put in is settled. -/
theorem rerun_unchanged_iff (hp : p.Local) (happart : Path.Apart (sources.map Source.path))
    (hplain : ∀ s ∈ sources, (p.config.vocabularyFor s.path).Plain)
    (h : p.run sources = .ok (r, calls)) (hfree : p.TagsSurvive calls) :
    ∃ r' calls', p.run (sources.map (Source.after r)) = .ok (r', calls') ∧
      (r'.changed = [] ↔ p.AllSettled calls) := by
  obtain ⟨settings, outcome, order, log, hr⟩ := run_stages h
  obtain ⟨outcome', hscan', hsame'⟩ :=
    scan_again (hr.rescansAs hp happart hplain hfree) hr.scan_eq
  have horder' : Dependency.executionOrder (outcome'.items.map FileItem.id)
      (FileItem.edges outcome'.items) = .ok order := by
    rw [FileItem.map_id_congr hsame'.items, FileItem.edges_congr hsame'.items]
    exact hr.order_eq
  obtain ⟨⟨r', calls'⟩, hfold'⟩ := foldlM_renderNext_isOk
    (fun item' job' hjob' hpath => by
      obtain ⟨g, -, -, o', calls', hrun, -⟩ :=
        hr.second_run hp happart hplain hfree hscan' hsame' hjob' hpath
      exact ⟨o', calls', hrun⟩) (⟨[], outcome'.errors, [], []⟩, [])
  obtain ⟨log', hlog'⟩ := foldlM_renderNext hfold'
  have hback {g' : FileRun} (hg' : g' ∈ log') : ∃ g ∈ log, g.job.srcPath = g'.job.srcPath ∧
      (g.outcome.missing = [] → g'.outcome.missing = []) ∧
        (g'.outcome.isChanged = false ↔ p.AllSettled g.calls) := by
    obtain ⟨g, hg, hgpath, o', more', hrun, hfacts⟩ :=
      hr.second_run hp happart hplain hfree hscan' hsame' (hlog'.jobs g' hg')
        (hlog'.sublist.subset (List.mem_map_of_mem hg'))
    obtain ⟨rfl, rfl⟩ := Prod.mk.inj (Except.ok.inj (hrun.symm.trans (hlog'.runs g' hg')))
    exact ⟨g, hg, hgpath, hfacts⟩
  have hmissing' : p.config.failOnMissingTransforms = true → r'.missing = [] := fun hfail => by
    have hnone := hr.renders.missing_eq_nil_iff.1 (hr.missing hfail)
    refine hlog'.missing_eq_nil_iff.2 fun g' hg' => ?_
    obtain ⟨g, hg, -, hkept, -⟩ := hback hg'
    exact hkept (hnone g hg)
  have hr' : p.RunsTo (sources.map (Source.after r)) settings outcome' order r' calls' log' :=
    ⟨hr.settings_eq, hscan', horder', hlog', hmissing'⟩
  refine ⟨r', calls', run_eq_ok hr.settings_eq hscan' horder' hfold' hmissing', ?_⟩
  rw [hr'.changed_eq_nil_iff]
  constructor
  · intro hsame ctx hctx
    obtain ⟨g, hg, hmem⟩ := hr.mem_calls_iff.1 hctx
    obtain ⟨g', hg', hpath⟩ := hr.exists_again happart hsame' hr' hg
    obtain ⟨g₁, hg₁, hpath₁, -, hiff⟩ := hback hg'
    obtain rfl : g₁ = g := hr.apart.eq_of_same hg₁ hg (by rw [hpath₁, hpath, Path.same_self])
    exact hiff.1 (hsame g' hg') ctx hmem
  · intro hsettled g' hg'
    obtain ⟨g, hg, -, -, hiff⟩ := hback hg'
    exact hiff.2 fun ctx hmem => hsettled ctx (hr.mem_calls_iff.2 ⟨g, hg, hmem⟩)

/-- A project with one transform, which gives the same text for every block, and short words. -/
def giving (text : String) (delimiters : List (String × Delimiters)) (middleware : List Middleware) :
    Project where
  root := ⟨"/"⟩
  config := { Config.standard with openWord := "a", closeWord := "z", delimiters }
  registry := ⟨[("x", fun _ => .ok (some text))]⟩
  middleware

lemma giving_local (text : String) (delimiters : List (String × Delimiters)) :
    (giving text delimiters []).Local where
  transforms name transform h := by
    obtain ⟨entry, hentry, rfl⟩ := Registry.exists_of_get? h
    obtain rfl := List.mem_singleton.1 hentry
    exact fun _ _ _ _ _ => rfl
  middleware := by simp [giving]

/-- Two files, one with a block on one line and one with a block over several lines. -/
theorem rerun_unchanged_iff_two_files :
    let p := giving "1" [] []
    let sources : List Source := [⟨⟨"b.c"⟩, "/*a x*/0/*z*/"⟩, ⟨⟨"d.c"⟩, "/*a x*/\n/*z*/"⟩]
    ∃ r calls, p.run sources = .ok (r, calls) ∧ r.changed.length = 2 ∧
      ∃ r' calls', p.run (sources.map (Source.after r)) = .ok (r', calls') ∧ r'.changed = [] := by
  intro p sources
  obtain ⟨⟨r, calls⟩, hrun, hchanged, hsurvive, hsettled⟩ : ∃ x ∈ (p.run sources).toOption,
      x.1.changed.length = 2 ∧ p.TagsSurvive x.2 ∧ p.AllSettled x.2 := by decide +kernel
  have hplain : ∀ s ∈ sources, (p.config.vocabularyFor s.path).Plain := by
    have hstyle : ∀ s ∈ sources, p.config.vocabularyFor s.path = .ofDelimiters "a" "z" .cStyle := by
      decide +kernel
    intro s hs
    rw [hstyle s hs]
    exact Delimiters.IsBuiltIn.plain (.inr (.inl rfl)) "a" "z"
  have hok := eq_ok_of_toOption hrun
  obtain ⟨r', calls', hok', hiff⟩ := rerun_unchanged_iff (giving_local "1" [])
    (by unfold Path.Apart; decide +kernel) hplain hok hsurvive
  exact ⟨r, calls, hok, hchanged, r', calls', hok', hiff.2 hsettled⟩

/-- A run succeeds, and so does the second one, but it changes a file. -/
def ChangesAgain (p : Project) (sources : List Source) : Prop :=
  ∃ r calls r' calls', p.run sources = .ok (r, calls) ∧
    p.run (sources.map (Source.after r)) = .ok (r', calls') ∧ r'.changed ≠ []

instance (p : Project) (sources : List Source) : Decidable (p.ChangesAgain sources) :=
  decidable_of_iff (∃ x ∈ (p.run sources).toOption,
      ∃ x' ∈ (p.run (sources.map (Source.after x.1))).toOption, x'.1.changed ≠ []) (by
    constructor
    · rintro ⟨⟨r, calls⟩, hrun, ⟨r', calls'⟩, hrun', hchanged⟩
      exact ⟨r, calls, r', calls', eq_ok_of_toOption hrun, eq_ok_of_toOption hrun', hchanged⟩
    · rintro ⟨r, calls, r', calls', hrun, hrun', hchanged⟩
      exact ⟨(r, calls), by rw [hrun]; rfl, (r', calls'), by rw [hrun']; rfl, hchanged⟩)

/-- The second run changes a file: when a text over several lines stands in a block on one line, when a
text that is not trimmed ends in a line break or in the start of one, when a text holds a piece of a
tag, when a delimiter is a line break, and when the middleware looks at the content. -/
theorem rerun_changes :
    (∀ text delimiters, (giving text delimiters []).Local) ∧
      (giving "1\n2" [] []).ChangesAgain [⟨⟨"b.c"⟩, "/*a x*//*z*/"⟩] ∧
      (giving "1\n" [] []).ChangesAgain [⟨⟨"b.c"⟩, "/*a x noTrim*/\n0/*z*/"⟩] ∧
      (giving "1\r" [] []).ChangesAgain [⟨⟨"b.c"⟩, "/*a x noTrim*/\n/*z*/"⟩] ∧
      (giving "/*z" [] []).ChangesAgain [⟨⟨"b.c"⟩, "/*a x*//*z*/"⟩] ∧
      (giving "\n1" [("c", ⟨"#", "\n"⟩)] []).ChangesAgain [⟨⟨"b.c"⟩, "#a x noTrim\n#z\n"⟩] ∧
      (giving "1" [] [⟨fun _ content => content, fun b text => b.content.value.toList ++ text⟩]
        ).ChangesAgain [⟨⟨"b.c"⟩, "/*a x*//*z*/"⟩] :=
  ⟨giving_local, by decide +kernel, by decide +kernel, by decide +kernel, by decide +kernel,
    by decide +kernel, by decide +kernel⟩

end Project

end CommentBlocks
