import CommentBlocks.Proofs.Path.Components
import CommentBlocks.Proofs.Render.Outcome
import CommentBlocks.Render.Inline

/-!
Rendering the same text twice, when its file is not called the same or other files were rendered before.

A job is rendered step by step, and all that a step reads besides the text and its blocks is what a
transform makes of its context. So two jobs for one text come to the same outcome when the transforms
give the same in both. The built-in one does when it starts from the same text in both.
-/

namespace CommentBlocks

def MissingTransform.place (m : MissingTransform) : String × Nat × Nat :=
  (m.transform, m.line, m.index)

structure Job.Alike (job job' : Job) : Prop where
  path : job.srcPath.same job'.srcPath = true
  contents : job'.contents = job.contents
  blocks : job'.blocks = job.blocks
  vocabulary : job'.vocabulary = job.vocabulary

/-- Both have come equally far. What the transforms were shown may not be the same. -/
structure Progress.Alike (p p' : Progress) : Prop where
  cursor : p'.cursor = p.cursor
  output : p'.output = p.output
  transformsRun : p'.transformsRun = p.transformsRun
  missing : p'.missing.map MissingTransform.place = p.missing.map MissingTransform.place

/-- Both tell the same, whatever the file is called. -/
structure Outcome.Alike (o o' : Outcome) : Prop where
  updated : o'.updated = o.updated
  transformsRun : o'.transformsRun = o.transformsRun
  missing : o'.missing.map MissingTransform.place = o.missing.map MissingTransform.place
  isChanged : o'.isChanged = o.isChanged

namespace Engine

variable {e : Engine} {job job' : Job}

/-- What the transform of a block gives in the first job, it gives in the second one. -/
def Repeats (e : Engine) (job job' : Job) (b : Block) : Prop :=
  ∀ name transform, b.transform = some name → e.registry.get? name = some transform →
    ∀ current r, transform (e.contextAt job b name current) = .ok r →
      transform (e.contextAt job' b name current) = .ok r

lemma step_alike (hjob : job.Alike job') {b : Block} (hb : e.Repeats job job' b) {p p' q : Progress}
    (hp : p.Alike p') (h : e.step job p b = .ok q) :
    ∃ q', e.step job' p' b = .ok q' ∧ q.Alike q' := by
  unfold step at h ⊢
  simp only [hp.cursor, hp.output, hp.transformsRun, hjob.contents, hjob.vocabulary]
  cases hname : b.transform with
  | none =>
    simp only [hname] at h ⊢
    obtain rfl := Except.ok.inj h
    exact ⟨_, rfl, rfl, rfl, rfl, hp.missing⟩
  | some name =>
    cases hr : e.registry.get? name with
    | none =>
      simp only [hname, hr] at h ⊢
      obtain rfl := Except.ok.inj h
      exact ⟨_, rfl, rfl, rfl, rfl, by simp [hp.missing, MissingTransform.place]⟩
    | some transform =>
      simp only [hname, hr, context_eq, hjob.contents] at h ⊢
      split at h
      · simp at h
      · next r htransform =>
        rw [hb name transform hname hr _ _ htransform]
        cases r with
        | none =>
          obtain rfl := Except.ok.inj h
          exact ⟨_, rfl, rfl, rfl, rfl, hp.missing⟩
        | some text =>
          obtain rfl := Except.ok.inj h
          exact ⟨_, rfl, rfl, rfl, rfl, hp.missing⟩

/-- Two jobs for one text come to the same outcome when the transforms give the same in both. -/
theorem run_alike (hjob : job.Alike job') (hblocks : ∀ b ∈ job.blocks, e.Repeats job job' b)
    {o : Outcome} {calls : List Context} (h : e.run job = .ok (o, calls)) :
    ∃ o' calls', e.run job' = .ok (o', calls') ∧ o.Alike o' := by
  unfold run at h ⊢
  split at h
  · simp at h
  · next p hp =>
    obtain ⟨rfl, rfl⟩ := Prod.mk.inj (Except.ok.inj h)
    have hsame : List.Forall₂ (fun b b' => b' = b ∧ e.Repeats job job' b) job.blocks job.blocks :=
      List.forall₂_same.2 fun b hb => ⟨rfl, hblocks b hb⟩
    obtain ⟨p', hp', halike⟩ := foldlM_simulates hsame
      (fun b b' p p' q hb hp hstep => hb.1 ▸ step_alike hjob hb.2 hp hstep)
      (⟨rfl, rfl, rfl, rfl⟩ : start.Alike start) hp
    rw [hjob.blocks, hp']
    refine ⟨_, _, rfl, ?_, halike.transformsRun, halike.missing, ?_⟩ <;>
      simp only [halike.cursor, halike.output, hjob.contents]

end Engine

/-! ### Transforms that repeat -/

/-- The transform does not fail, and what it gives hangs on nothing but the block, its content and the
settings. -/
def Transform.Plain (t : Transform) : Prop :=
  ∃ give : Block → String → Value → Option String,
    ∀ ctx : Context, t ctx = .ok (give ctx.block ctx.content ctx.settings)

namespace Inline

variable {disk : Disk} {ctx ctx' : Context}

def target (file : Path) (src : String) : Path := ((file.parent?.getD file).join ⟨src⟩).normalize

lemma source_eq (ctx : Context) (src : String) : source ctx src = target ctx.srcPath src := rfl

lemma target_congr {file file' : Path} (h : file.same file' = true) (hparent : file.parent? ≠ none)
    (src : String) : target file' src = target file src := by
  obtain ⟨parent, hparent⟩ := Option.ne_none_iff_exists'.1 hparent
  obtain ⟨parent', hparent', hsame⟩ := Path.parent?_congr h hparent
  rw [target, target, hparent, hparent']
  exact (Path.normalize_congr (Path.join_congr hsame ⟨src⟩)).symm

/-- The built-in transform gives the same text when its reference is looked up with the same result. -/
lemma transform_congr (hblock : ctx'.block = ctx.block) (hoptions : ctx'.options = ctx.options)
    (hpath : ctx.srcPath.same ctx'.srcPath = true) (hparent : ctx.srcPath.parent? ≠ none)
    (hlookup : ∀ src, ctx.block.src? = some src →
      ctx'.processed.get? (target ctx.srcPath src) = ctx.processed.get? (target ctx.srcPath src))
    {r : Option String} (h : transform disk ctx = .ok r) : transform disk ctx' = .ok r := by
  unfold transform at h ⊢
  rw [hblock, hoptions]
  cases hsrc : ctx.block.src? with
  | none => simp [hsrc] at h
  | some src =>
    have hcontents : contents disk ctx' (source ctx' src) = contents disk ctx (source ctx src) := by
      rw [source_eq, source_eq, target_congr hpath hparent, contents, contents, hlookup src hsrc]
    simp only [hsrc] at h ⊢
    rw [hcontents]
    cases hread : contents disk ctx (source ctx src) with
    | error fault => simp [hread] at h
    | ok text =>
      simp only [hread] at h ⊢
      cases hlines : Fields.get? "lines" ctx.options with
      | none => simpa [hlines] using h
      | some v =>
        simp only [hlines] at h ⊢
        cases hrange : LineRange.ofValue? v with
        | none => simp [hrange] at h
        | some range => simpa [hrange] using h

end Inline

namespace Engine

variable {e : Engine} {job job' : Job} {b : Block}

/-- Plain transforms give the same in every job, and the built-in one does when its reference is looked
up with the same result. -/
lemma repeats {disk : Disk} (hjob : job.Alike job') (hparent : job.srcPath.parent? ≠ none)
    (htransforms : ∀ name transform, e.registry.get? name = some transform →
      transform = Inline.transform disk ∨ transform.Plain)
    (hlookup : ∀ src, b.src? = some src → job'.processed.get? (Inline.target job.srcPath src) =
      job.processed.get? (Inline.target job.srcPath src)) : e.Repeats job job' b := by
  intro name transform _ hr current r h
  rcases htransforms name transform hr with rfl | ⟨give, hgive⟩
  · refine Inline.transform_congr ?_ ?_ ?_ ?_ ?_ h
    · rfl
    · rfl
    · exact hjob.path
    · exact hparent
    · exact hlookup
  · rw [hgive] at h ⊢
    exact h

end Engine

end CommentBlocks
