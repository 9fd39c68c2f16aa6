import CommentBlocks.Proofs.Project.Reordering

/-!
The result of a run does not depend on the order of its sources: all that it tells of a path, and the
faults, are the same in every order.
-/

namespace CommentBlocks

/-- Both renderings are of the same blocks in the same text, and come out the same. -/
structure FileRun.Alike (g g' : FileRun) : Prop where
  job : g.job.Alike g'.job
  blocks : g'.item.blocks = g.item.blocks
  outcome : g.outcome.Alike g'.outcome

structure FileResult.Alike (f f' : FileResult) : Prop where
  initial : f'.initial = f.initial
  updated : f'.updated = f.updated
  /-- The same blocks are marked for want of a transform. -/
  blocks : f'.blocks = f.blocks
  transformsRun : f'.transformsRun = f.transformsRun
  isChanged : f'.isChanged = f.isChanged

/-- Both results tell the same of every path, and have the same faults. -/
structure RunResult.Agrees (r r' : RunResult) : Prop where
  files : ∀ path : Path, List.Forall₂ FileResult.Alike (r.files.filter (·.path.same path))
    (r'.files.filter (·.path.same path))
  missing : ∀ path : Path,
    (r'.missing.filter (·.file.same path)).map MissingTransform.place =
      (r.missing.filter (·.file.same path)).map MissingTransform.place
  errors : r.errors.Perm r'.errors

lemma FileRun.Alike.result {g g' : FileRun} (h : g.Alike g') : g.result.Alike g'.result where
  initial := h.job.contents
  updated := h.outcome.updated
  blocks := by
    have hindex : g'.outcome.missing.map MissingTransform.index =
        g.outcome.missing.map MissingTransform.index := by
      have := congrArg (List.map fun place => place.2.2) h.outcome.missing
      rwa [List.map_map, List.map_map] at this
    simp only [FileRun.result, hindex, h.blocks]
  transformsRun := h.outcome.transformsRun
  isChanged := h.outcome.isChanged

/-- When what comes of a thing is kept or left out together, it is the thing that is kept or left
out. -/
lemma filter_flatMap_eq {α β : Type} {f : α → List β} {keep : β → Bool} {keep' : α → Bool} {l : List α}
    (h : ∀ a ∈ l, ∀ b ∈ f a, keep b = keep' a) :
    (l.flatMap f).filter keep = (l.filter keep').flatMap f := by
  induction l with
  | nil => rfl
  | cons a l ih =>
    obtain ⟨ha, hl⟩ := List.forall_mem_cons.1 h
    rw [List.flatMap_cons, List.filter_append, ih hl, List.filter_cons]
    cases hkeep : keep' a with
    | true =>
      rw [List.filter_eq_self.2 fun b hb => (ha b hb).trans hkeep]
      rfl
    | false =>
      rw [List.filter_eq_nil_iff.2 fun b hb => by simp [ha b hb, hkeep]]
      rfl

namespace Project.RunsTo

variable {p : Project} {disk : Disk} {sources sources' : List Source} {settings : Value}
  {outcome outcome' : ScanOutcome} {order order' : List Path} {r r' : RunResult}
  {calls calls' : List Context} {log log' : List FileRun}

section

variable (hr : p.RunsTo sources settings outcome order r calls log)
include hr

lemma filter_missing_eq (path : Path) : r.missing.filter (·.file.same path) =
    (log.filter (·.job.srcPath.same path)).flatMap fun g => g.outcome.missing := by
  have hfile : ∀ g ∈ log, ∀ m ∈ g.outcome.missing, m.file = g.job.srcPath := by
    intro g hg m hm
    rw [Engine.run_missing (hr.renders.runs g hg)] at hm
    obtain ⟨b, -, hb⟩ := List.mem_filterMap.1 hm
    exact (Engine.missing?_eq_some hb).2.1
  rw [hr.renders.missing_eq]
  exact filter_flatMap_eq fun g hg m hm => by rw [hfile g hg m hm]

lemma filter_files_eq_map (path : Path) : r.files.filter (·.path.same path) =
    (log.filter (·.job.srcPath.same path)).map FileRun.result := by
  rw [hr.files_eq, List.filter_map]
  rfl

end

lemma forall₂_alike (hr : p.RunsTo sources settings outcome order r calls log)
    (hr' : p.RunsTo sources' settings outcome' order' r' calls' log') (ho : p.Traceable disk sources)
    (hperm : sources.Perm sources') (hfinal : ∀ path, r'.processed.get? path = r.processed.get? path)
    (path : Path) : List.Forall₂ FileRun.Alike (log.filter (·.job.srcPath.same path))
      (log'.filter (·.job.srcPath.same path)) := by
  have ho' := ho.perm hperm
  have hiff : (∃ g ∈ log, g.job.srcPath.same path = true) ↔
      ∃ g ∈ log', g.job.srcPath.same path = true := by
    rw [hr.exists_rendered_iff ho.apart, hr'.exists_rendered_iff ho'.apart]
    exact exists_congr fun s => and_congr_left' hperm.mem_iff
  by_cases hex : ∃ g ∈ log, g.job.srcPath.same path = true
  · obtain ⟨g, hg, hsame⟩ := hex
    obtain ⟨g', hg', hsame'⟩ := hiff.1 ⟨g, hg, hsame⟩
    rw [hr.apart.filter_eq hg hsame, hr'.apart.filter_eq hg' hsame']
    refine .cons ?_ .nil
    have hjob' := hr'.renders.jobs g' hg'
    obtain ⟨g₁, hg₁, halike⟩ := hr.exists_alike ho hperm hr'.scan_eq hjob'
    obtain rfl : g₁ = g := by
      rw [Path.same_comm] at hsame
      exact hr.apart.eq_of_same hg₁ hg
        (Path.same_trans halike.path (Path.same_trans hsame' hsame))
    obtain ⟨o', more, hrun, hout⟩ := hr.run_alike ho hg halike fun b hb src hsrc => by
      have htarget := Inline.target_congr halike.path
        ((hr.renders.jobs g₁ hg).parent?_ne_none ho.apart ho.parent hr.scan_eq) src
      have hlookup' := hr'.processed_of_reference ho' hg' (halike.blocks ▸ hb) hsrc
      rw [htarget, hfinal] at hlookup'
      rw [hlookup', hr.processed_of_reference ho hg hb hsrc, Path.same_congr halike.path]
    obtain ⟨rfl, -⟩ := Prod.mk.inj (Except.ok.inj (hrun.symm.trans (hr'.renders.runs g' hg')))
    exact ⟨halike, hjob'.blocks.symm.trans (halike.blocks.trans (hr.renders.jobs g₁ hg).blocks), hout⟩
  · rw [List.filter_eq_nil_iff.2 fun g hg hsame => hex ⟨g, hg, hsame⟩,
      List.filter_eq_nil_iff.2 fun g hg hsame => hex (hiff.2 ⟨g, hg, hsame⟩)]
    exact .nil

lemma agrees (hr : p.RunsTo sources settings outcome order r calls log)
    (hr' : p.RunsTo sources' settings outcome' order' r' calls' log') (ho : p.Traceable disk sources)
    (hperm : sources.Perm sources') (hfinal : ∀ path, r'.processed.get? path = r.processed.get? path) :
    r.Agrees r' where
  files path := by
    rw [hr.filter_files_eq_map, hr'.filter_files_eq_map, List.forall₂_map_left_iff,
      List.forall₂_map_right_iff]
    exact (hr.forall₂_alike hr' ho hperm hfinal path).imp fun _ _ h => h.result
  missing path := by
    rw [hr.filter_missing_eq, hr'.filter_missing_eq, List.map_flatMap, List.map_flatMap,
      List.flatMap_def, List.flatMap_def]
    exact congrArg List.flatten (map_eq_of_forall₂ (hr.forall₂_alike hr' ho hperm hfinal path)
      fun _ _ h => h.outcome.missing)
  errors := by
    rw [hr.errors_eq, hr'.errors_eq]
    exact hperm.filterMap _

end Project.RunsTo

namespace Project

variable {p : Project} {disk : Disk} {sources sources' : List Source}

/-- The result of a run does not depend on the order of its sources: in both orders the run fails, or
both results tell the same of every path and have the same faults. -/
theorem run_permuted (ho : p.Traceable disk sources) (hperm : sources.Perm sources') :
    (∃ r calls r' calls', p.run sources = .ok (r, calls) ∧ p.run sources' = .ok (r', calls') ∧
      r.Agrees r') ∨
    (∃ halt, p.run sources = .error halt) ∧ ∃ halt, p.run sources' = .error halt := by
  cases h : p.run sources with
  | ok result =>
    obtain ⟨r, calls⟩ := result
    obtain ⟨settings, outcome, order, log, hr⟩ := run_stages h
    obtain ⟨_, _, r', calls', _, hrun, hr', hfinal⟩ := hr.exists_run ho hperm
    exact .inl ⟨r, calls, r', calls', rfl, hrun, hr.agrees hr' ho hperm hfinal⟩
  | error halt =>
    cases h' : p.run sources' with
    | error halt' => exact .inr ⟨⟨halt, rfl⟩, halt', rfl⟩
    | ok result =>
      obtain ⟨r', calls'⟩ := result
      obtain ⟨settings, outcome, order, log, hr'⟩ := run_stages h'
      obtain ⟨_, _, r, calls, _, hrun, -, -⟩ := hr'.exists_run (ho.perm hperm) hperm.symm
      rw [h] at hrun
      simp at hrun

lemma inlining_transforms (disk : Disk) (name : String) (transform : Transform)
    (h : (inlining disk).registry.get? name = some transform) :
    transform = Inline.transform disk ∨ transform.Plain := by
  obtain ⟨entry, hentry, rfl⟩ := Registry.exists_of_get? h
  have hentries : (inlining disk).registry.entries =
      [(Inline.name, Inline.transform disk), ("x", fun _ => .ok (some "1"))] := rfl
  rw [hentries] at hentry
  simp only [List.mem_cons, List.not_mem_nil, or_false] at hentry
  rcases hentry with rfl | rfl
  · exact .inl rfl
  · exact .inr ⟨fun _ _ _ => some "1", fun _ => rfl⟩

/-- A file that inlines another one, and a file whose transform is missing, in two orders. -/
theorem run_permuted_three_files :
    let p := inlining Disk.empty
    let sources : List Source := [⟨⟨"/a.c"⟩, "/*a FILE src=b.c*//*z*/"⟩, ⟨⟨"/b.c"⟩, "/*a x*/0/*z*/"⟩,
      ⟨⟨"/c.c"⟩, "/*a y*//*z*/"⟩]
    ∃ r calls r' calls', p.run sources = .ok (r, calls) ∧ p.run sources.reverse = .ok (r', calls') ∧
      r.order = [⟨"/b.c"⟩, ⟨"/a.c"⟩, ⟨"/c.c"⟩] ∧ r'.order = [⟨"/c.c"⟩, ⟨"/b.c"⟩, ⟨"/a.c"⟩] ∧
      r.Agrees r' := by
  intro p sources
  have hscheme : ∀ s ∈ sources, ∀ blocks ∈ (p.scanned s).toOption, ∀ b ∈ blocks, ∀ src ∈ b.src?,
      Text.hasPiece [':', '/', '/'] src.toList = false := by decide +kernel
  have ho : p.Traceable Disk.empty sources :=
    { apart := by unfold Path.Apart; decide +kernel
      parent := by decide +kernel
      schemeless := fun s hs blocks hblocks => hscheme s hs blocks (by rw [hblocks]; rfl)
      transforms := inlining_transforms Disk.empty }
  obtain ⟨⟨r, calls⟩, hrun, horder⟩ : ∃ x ∈ (p.run sources).toOption,
      x.1.order = [⟨"/b.c"⟩, ⟨"/a.c"⟩, ⟨"/c.c"⟩] := by decide +kernel
  obtain ⟨⟨r', calls'⟩, hrun', horder'⟩ : ∃ x ∈ (p.run sources.reverse).toOption,
      x.1.order = [⟨"/c.c"⟩, ⟨"/b.c"⟩, ⟨"/a.c"⟩] := by decide +kernel
  have hok := eq_ok_of_toOption hrun
  have hok' := eq_ok_of_toOption hrun'
  rcases run_permuted ho (List.reverse_perm sources).symm with
    ⟨r₁, calls₁, r₁', calls₁', h, h', hagrees⟩ | ⟨⟨halt, hhalt⟩, -⟩
  · obtain ⟨rfl, rfl⟩ := Prod.mk.inj (Except.ok.inj (hok.symm.trans h))
    obtain ⟨rfl, rfl⟩ := Prod.mk.inj (Except.ok.inj (hok'.symm.trans h'))
    exact ⟨r, calls, r', calls', h, h', horder, horder', hagrees⟩
  · rw [hok] at hhalt
    simp at hhalt

end Project

end CommentBlocks
