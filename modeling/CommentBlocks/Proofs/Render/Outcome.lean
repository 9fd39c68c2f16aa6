import CommentBlocks.Proofs.Render.Splice

/-!
What rendering a file reports, and when it succeeds.
-/

namespace CommentBlocks.Engine

variable {e : Engine} {job : Job}

/-- What is reported of a block whose transform nobody has registered. -/
def missing? (e : Engine) (job : Job) (b : Block) : Option MissingTransform :=
  match b.transform with
  | none => none
  | some name =>
    match e.registry.get? name with
    | none => some ⟨name, job.srcPath, b.line, b.index⟩
    | some _ => none

def ran? (e : Engine) (b : Block) : Option String :=
  match b.transform with
  | none => none
  | some name =>
    match e.registry.get? name with
    | none => none
    | some _ => some name

lemma missing?_eq_none_iff {b : Block} : e.missing? job b = none ↔
    ∀ name, b.transform = some name → e.registry.get? name ≠ none := by
  unfold missing?
  cases hb : b.transform with
  | none => simp
  | some name => cases hr : e.registry.get? name <;> simp [hr]

lemma missing?_eq_some {b : Block} {m : MissingTransform} (h : e.missing? job b = some m) :
    b.transform = some m.transform ∧ m.file = job.srcPath ∧ m.index = b.index := by
  unfold missing? at h
  split at h
  · simp at h
  · next hname =>
    split at h
    · rw [← Option.some.inj h]
      exact ⟨hname, rfl, rfl⟩
    · simp at h

lemma step_reports {p p' : Progress} {b : Block} (h : e.step job p b = .ok p') :
    p'.missing = p.missing ++ (e.missing? job b).toList ∧
      p'.transformsRun = p.transformsRun ++ (e.ran? b).toList := by
  unfold step at h
  unfold missing? ran?
  cases hb : b.transform with
  | none =>
    simp only [hb] at h
    obtain rfl := Except.ok.inj h
    simp
  | some name =>
    cases hr : e.registry.get? name with
    | none =>
      simp only [hb, hr] at h
      obtain rfl := Except.ok.inj h
      simp [hr]
    | some transform =>
      simp only [hb, hr] at h
      split at h
      · simp at h
      · split at h <;>
        · obtain rfl := Except.ok.inj h
          simp [hr]

variable {o : Outcome} {calls : List Context}

/-- A run reports the blocks whose transform nobody has registered, in their order. -/
lemma run_missing (h : e.run job = .ok (o, calls)) :
    o.missing = job.blocks.filterMap (e.missing? job) := by
  unfold run at h
  split at h
  · simp at h
  · next p hp =>
    obtain ⟨rfl, rfl⟩ := Prod.mk.inj (Except.ok.inj h)
    simpa [start] using foldlM_collects (f := e.step job) (fun _ _ _ h => (step_reports h).1) hp

/-- A run names the transforms of all other blocks that have one, in their order. -/
lemma run_transformsRun (h : e.run job = .ok (o, calls)) :
    o.transformsRun = job.blocks.filterMap e.ran? := by
  unfold run at h
  split at h
  · simp at h
  · next p hp =>
    obtain ⟨rfl, rfl⟩ := Prod.mk.inj (Except.ok.inj h)
    simpa [start] using foldlM_collects (f := e.step job) (fun _ _ _ h => (step_reports h).2) hp

lemma run_missing_eq_nil_iff (h : e.run job = .ok (o, calls)) : o.missing = [] ↔
    ∀ b ∈ job.blocks, ∀ name, b.transform = some name → e.registry.get? name ≠ none := by
  rw [run_missing h, List.filterMap_eq_nil_iff]
  exact forall₂_congr fun b _ => missing?_eq_none_iff

lemma run_isChanged (h : e.run job = .ok (o, calls)) :
    o.isChanged = false ↔ o.updated = job.contents := by
  unfold run at h
  split at h
  · simp at h
  · obtain ⟨rfl, rfl⟩ := Prod.mk.inj (Except.ok.inj h)
    simp

lemma step_isOk {b : Block} (h : ∀ name transform, b.transform = some name →
    e.registry.get? name = some transform →
      ∀ current, ∃ r, transform (e.contextAt job b name current) = .ok r) (p : Progress) :
    ∃ p', e.step job p b = .ok p' := by
  unfold step
  cases hb : b.transform with
  | none => exact ⟨_, rfl⟩
  | some name =>
    simp only
    cases hr : e.registry.get? name with
    | none => exact ⟨_, rfl⟩
    | some transform =>
      simp only [context_eq]
      obtain ⟨r, hr⟩ := h name transform hb hr
        (p.output ++ Text.slice job.contents.toList p.cursor b.content.start ++
          Text.dropBytes b.content.start job.contents.toList)
      rw [hr]
      cases r <;> exact ⟨_, rfl⟩

lemma run_isOk (h : ∀ b ∈ job.blocks, ∀ name transform, b.transform = some name →
    e.registry.get? name = some transform →
      ∀ current, ∃ r, transform (e.contextAt job b name current) = .ok r) :
    ∃ o calls, e.run job = .ok (o, calls) := by
  obtain ⟨p, hp⟩ := foldlM_isOk (fun b hb p => step_isOk (h b hb) p) start
  unfold run
  rw [hp]
  exact ⟨_, _, rfl⟩

end CommentBlocks.Engine
