import CommentBlocks.Proofs.Render.Again
import CommentBlocks.Proofs.Render.Bare

/-!
Rendering a file over and over with the same outputs.

The first pass may turn a block on one line into one over several lines, which gets further line
breaks in the second pass. From then on every block is over several lines as soon as its output is, so
the third pass finds each output in its place.
-/

namespace CommentBlocks.Engine

open TagPattern (closesBlock)

/-- Every transform gives a block the output for its place in the file, whatever it is shown. -/
structure Puts (e : Engine) (outputs : Nat → Option String) : Prop where
  transforms : ∀ name transform, e.registry.get? name = some transform →
    ∀ ctx : Context, transform ctx = .ok (outputs ctx.block.index)
  middleware : e.middleware = []

def output? (e : Engine) (outputs : Nat → Option String) (b : Block) : Option String :=
  b.transform.bind fun name => (e.registry.get? name).bind fun _ => outputs b.index

/-- No block on one line gets a line break. -/
def Fits (e : Engine) (outputs : Nat → Option String) (blocks : List Block) : Prop :=
  ∀ b ∈ blocks, ∀ put, e.output? outputs b = some put → b.context.isMultiline = false →
    '\n' ∉ Text.trim put.toList

/-- The text is scanned, and rendered as the contents of the file. -/
structure Passes (e : Engine) (job : Job) (text : String) (blocks : List Block) (updated : String) :
    Prop where
  scan : Block.scan job.vocabulary text = .ok blocks
  run : ∃ o calls, e.run { job with contents := text, blocks } = .ok (o, calls) ∧
    o.updated = updated

def Bare (v : Vocabulary) (outputs : Nat → Option String) : Prop :=
  ∀ index put, outputs index = some put → ¬ v.commentOpen.toList <:+: put.toList

variable {e : Engine} {outputs : Nat → Option String} {job : Job}

lemma output?_congr {b b' : Block} (h : b.SameHeader b') :
    e.output? outputs b' = e.output? outputs b := by
  rw [output?, output?, h.transform, h.index]

lemma Bare.output? {v : Vocabulary} (hb : Bare v outputs) {b : Block} {put : String}
    (h : e.output? outputs b = some put) : ¬ v.commentOpen.toList <:+: put.toList := by
  obtain ⟨name, -, hname⟩ := Option.bind_eq_some_iff.1 h
  obtain ⟨transform, -, hput⟩ := Option.bind_eq_some_iff.1 hname
  exact hb _ _ hput

namespace Puts

variable (he : e.Puts outputs)
include he

lemma isLocal : e.Local where
  transforms name transform hr ctx ctx' _ _ h := by
    rw [he.transforms name transform hr ctx, he.transforms name transform hr ctx', h.index]
  middleware m hm := by simp [he.middleware] at hm

lemma given?_eq (b : Block) (current : List Char) :
    e.given? job b current = (e.output? outputs b).map String.toList := by
  rw [given?, output?]
  cases hb : b.transform with
  | none => rfl
  | some name =>
    have hname : (e.contextAt job b name current).transform = name := rfl
    rw [Option.bind_some, Option.bind_some, rendered?, hname]
    cases hr : e.registry.get? name with
    | none => rfl
    | some transform =>
      have hput : transform (e.contextAt job b name current) = .ok (outputs b.index) :=
        he.transforms name transform hr _
      simp only [hput, he.middleware]
      cases outputs b.index <;> rfl

lemma content_eq {calls : List Context} {current new : List Char} {b : Block}
    (h : e.Gives job calls current b new) :
    new = ((e.output? outputs b).map fun put =>
      Layout.insertion job.vocabulary b put.toList).getD b.content.value.toList := by
  have := h.eq_given
  rwa [he.given?_eq, Option.map_map] at this

lemma run_isOk (job : Job) : ∃ o calls, e.run job = .ok (o, calls) :=
  Engine.run_isOk fun _ _ name transform _ hr _ => ⟨_, he.transforms name transform hr _⟩

variable {calls : List Context} {edits : List (Block × List Char)}
  (hed : e.Edited job calls edits) (hbare : Bare job.vocabulary outputs)
  (htrim : ∀ b ∈ job.blocks, b.flag "noTrim" = false)
include hed hbare htrim

lemma free (hscan : Block.scan job.vocabulary job.contents = .ok job.blocks)
    (hsign : IsSign job.vocabulary.commentOpen.toList) :
    Scan.Free job.vocabulary job.contents.toList edits := by
  rintro ⟨b, new⟩ hedit
  have hs := Scan.scan_eq_ok_iff.1 hscan
  obtain ⟨i, hi⟩ := List.getElem?_of_mem hedit
  have hb := List.mem_of_getElem? (hed.getElem?_block hi)
  obtain rfl := he.content_eq (hed.gives i b new hi)
  cases hput : e.output? outputs b with
  | none => exact hs.free_content b hb
  | some put => exact hs.not_startsIn_of_bare hsign hb (htrim b hb) (hbare.output? hput)

lemma settled_iff_fits : (∀ (i : Nat) (b : Block) (new : List Char), edits[i]? = some (b, new) →
      ∀ text, e.given? job b (spliced job.contents.toList 0 (edits.take i)) = some text →
        Layout.Settled job.vocabulary b text) ↔ e.Fits outputs job.blocks := by
  have hsettled {b : Block} (hb : b ∈ job.blocks) {put : String}
      (hput : e.output? outputs b = some put) :=
    Layout.settled_of_bare_iff (htrim b hb) (hbare.output? hput)
  constructor
  · intro h b hb put hput
    obtain ⟨i, hi⟩ := List.getElem?_of_mem hb
    rw [← hed.blocks, List.getElem?_map] at hi
    obtain ⟨⟨b, new⟩, hedit, rfl⟩ := Option.map_eq_some_iff.1 hi
    exact (hsettled hb hput).1 (h i b new hedit _ (by rw [he.given?_eq, hput]; rfl))
  · intro h i b new hi text hgiven
    have hb := List.mem_of_getElem? (hed.getElem?_block hi)
    rw [he.given?_eq] at hgiven
    obtain ⟨put, hput, rfl⟩ := Option.map_eq_some_iff.1 hgiven
    exact (hsettled hb hput).2 (h b hb put hput)

lemma fits_refilled {blocks' : List Block}
    (h : List.Forall₂ (fun edit b' => ∃ p p', edit.1.Refilled edit.2 b' p p') edits blocks') :
    e.Fits outputs blocks' := by
  intro b' hb' put hput hline hbreak
  obtain ⟨i, hi'⟩ := List.getElem?_of_mem hb'
  obtain ⟨⟨b, new⟩, hi, p, p', hr⟩ := exists_getElem?_left h hi'
  have hb := List.mem_of_getElem? (hed.getElem?_block hi)
  rw [output?_congr hr.sameHeader] at hput
  have hnew := he.content_eq (hed.gives i b new hi)
  rw [hput, Option.map_some, Option.getD_some] at hnew
  rw [← Layout.body_of_bare (htrim b hb) (hbare.output? hput)] at hbreak
  have hinside : '\n' ∈ p'.openEnd ++ (p'.content ++ p'.lead) := by
    have : '\n' ∈ new := hnew ▸ Layout.body_sublist_insertion.subset hbreak
    rw [hr.inside]
    simp [this]
  rw [hr.after.isMultiline_iff.2 (.inr (.inl hinside))] at hline
  exact absurd hline (by decide)

end Puts

/-- After a pass, the next one succeeds on blocks with the same headers, and the outputs fit those. It
changes nothing exactly if the outputs did fit the blocks before. -/
lemma Puts.passes_again (he : e.Puts outputs) (hsign : IsSign job.vocabulary.commentOpen.toList)
    (hsteady : job.vocabulary.Steady) (hbare : Bare job.vocabulary outputs)
    {text updated : String} {blocks : List Block} (htrim : ∀ b ∈ blocks, b.flag "noTrim" = false)
    (h : e.Passes job text blocks updated) : ∃ blocks' updated',
      e.Passes job updated blocks' updated' ∧ List.Forall₂ Block.SameHeader blocks blocks' ∧
        e.Fits outputs blocks' ∧ (updated' = updated ↔ e.Fits outputs blocks) := by
  obtain ⟨hscan, o, calls, hrun, rfl⟩ := h
  obtain ⟨edits, hed, hupdated⟩ := run_edited hscan hrun
  obtain ⟨blocks', hscan', hrefilled, hheader⟩ :=
    hed.refilled hsteady hscan (he.free hed hbare htrim hscan hsign) hupdated
  let job' : Job := { job with contents := o.updated, blocks := blocks' }
  obtain ⟨o', calls', hrun'⟩ := he.run_isOk job'
  refine ⟨blocks', o'.updated, ⟨hscan', o', calls', hrun', rfl⟩, hheader,
    he.fits_refilled hed hbare htrim hrefilled, ?_⟩
  have hvocabulary : job'.vocabulary = job.vocabulary := rfl
  rw [← he.settled_iff_fits hed hbare htrim,
    ← he.isLocal.isChanged_again hed hrefilled hvocabulary hscan' hrun', run_isChanged hrun']

/-- Settling: with outputs without the opening delimiter, every pass succeeds on blocks with the same
headers, the second pass changes nothing exactly if no block on one line gets a line break in the
first one, and the third pass changes nothing. -/
theorem passes_settle {d : Delimiters} (hd : d.IsBuiltIn) {openWord closeWord : String}
    (hv : job.vocabulary = .ofDelimiters openWord closeWord d) (he : e.Puts outputs)
    (hbare : Bare job.vocabulary outputs) {text : String} {blocks : List Block}
    (hscan : Block.scan job.vocabulary text = .ok blocks)
    (htrim : ∀ b ∈ blocks, b.flag "noTrim" = false) :
    ∃ blocks₁ blocks₂ text₁ text₂ text₃, e.Passes job text blocks text₁ ∧
      e.Passes job text₁ blocks₁ text₂ ∧ e.Passes job text₂ blocks₂ text₃ ∧
      List.Forall₂ Block.SameHeader blocks blocks₁ ∧
      List.Forall₂ Block.SameHeader blocks blocks₂ ∧
      (text₂ = text₁ ↔ e.Fits outputs blocks) ∧ text₃ = text₂ := by
  have hsign : IsSign job.vocabulary.commentOpen.toList := hv ▸ hd.isSign
  have hsteady : job.vocabulary.Steady := hv ▸ (hd.plain openWord closeWord).steady
  obtain ⟨o, calls, hrun⟩ := he.run_isOk { job with contents := text, blocks }
  have hpass : e.Passes job text blocks o.updated := ⟨hscan, o, calls, hrun, rfl⟩
  obtain ⟨blocks₁, text₂, hpass₁, hheader₁, hfits, hsame₁⟩ :=
    he.passes_again hsign hsteady hbare htrim hpass
  have htrim₁ : ∀ b' ∈ blocks₁, b'.flag "noTrim" = false := by
    intro b' hb'
    obtain ⟨i, hi'⟩ := List.getElem?_of_mem hb'
    obtain ⟨b, hi, hb⟩ := exists_getElem?_left hheader₁ hi'
    rw [hb.flag_eq, htrim b (List.mem_of_getElem? hi)]
  obtain ⟨blocks₂, text₃, hpass₂, hheader₂, -, hsame₂⟩ :=
    he.passes_again hsign hsteady hbare htrim₁ hpass₁
  exact ⟨blocks₁, blocks₂, o.updated, text₂, text₃, hpass, hpass₁, hpass₂, hheader₁,
    forall₂_trans hheader₁ hheader₂ fun _ _ _ h h' => h.trans h', hsame₁, hsame₂.2 hfits⟩

/-- A block on one line that gets two lines, and a block that keeps its content. -/
theorem passes_settle_two_blocks :
    let job := Job.ofText (.ofDelimiters "a" "z" .cStyle) "/* a x */1/* z */-/* a x */2/* z */"
    let outputs (index : Nat) : Option String := if index = 0 then some "3\n4" else none
    let e : Engine := ⟨⟨[("x", fun ctx => .ok (outputs ctx.block.index))]⟩, [], .null⟩
    ∃ blocks₁ blocks₂ text₁ text₂ text₃, e.Passes job job.contents job.blocks text₁ ∧
      e.Passes job text₁ blocks₁ text₂ ∧ e.Passes job text₂ blocks₂ text₃ ∧
      List.Forall₂ Block.SameHeader job.blocks blocks₁ ∧
      List.Forall₂ Block.SameHeader job.blocks blocks₂ ∧
      (text₂ = text₁ ↔ e.Fits outputs job.blocks) ∧ text₃ = text₂ := by
  intro job outputs e
  have hputs : e.Puts outputs := by
    refine ⟨fun name transform hr ctx => ?_, rfl⟩
    obtain ⟨entry, hentry, rfl⟩ := Registry.exists_of_get? hr
    obtain rfl := List.mem_singleton.1 hentry
    rfl
  have hbare : Bare job.vocabulary outputs := by
    intro index put hput
    obtain rfl : "3\n4" = put := by simpa [outputs] using (Option.ite_none_right_eq_some.1 hput).2
    decide +kernel
  have hscan : Block.scan job.vocabulary job.contents = .ok job.blocks :=
    Job.scan_ofText (by decide +kernel)
  exact passes_settle (.inr (.inl rfl)) rfl hputs hbare hscan (by decide +kernel)

end CommentBlocks.Engine
