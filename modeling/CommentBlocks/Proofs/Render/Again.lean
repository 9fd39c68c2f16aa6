import CommentBlocks.Proofs.Render.Boundaries
import CommentBlocks.Proofs.Render.Outcome
import CommentBlocks.Proofs.Render.Settling

/-!
Rendering a file a second time.

When what transforms give hangs on the headers of the blocks only, the second run of a file whose tags
survive gets the same texts for the same blocks. No content gets shorter then, so the file stays the
same exactly if every text is settled.
-/

namespace CommentBlocks

open TagPattern (closesBlock)
open Text (dropBytes)

lemma Registry.exists_of_get? {α : Type} {r : Registry α} {name : String} {value : α}
    (h : r.get? name = some value) : ∃ entry ∈ r.entries, entry.2 = value := by
  unfold get? at h
  split at h
  · next entry hentry =>
    exact ⟨entry, List.mem_of_find?_eq_some hentry, Option.some.inj h⟩
  · obtain ⟨entry, hentry, hvalue⟩ := Option.map_eq_some_iff.1 h
    exact ⟨entry, List.mem_of_find?_eq_some hentry, hvalue⟩

/-- Both blocks have the same place and were read off the same header. -/
structure Block.SameHeader (b b' : Block) : Prop where
  index : b'.index = b.index
  transform : b'.transform = b.transform
  rawArgs : b'.rawArgs = b.rawArgs
  options : b'.options = b.options

namespace Block.SameHeader

variable {b b' b'' : Block}

lemma trans (h : b.SameHeader b') (h' : b'.SameHeader b'') : b.SameHeader b'' :=
  ⟨h'.index.trans h.index, h'.transform.trans h.transform, h'.rawArgs.trans h.rawArgs,
    h'.options.trans h.options⟩

lemma flag_eq (h : b.SameHeader b') (key : String) : b'.flag key = b.flag key := by
  rw [flag, flag, h.options]

end Block.SameHeader

/-- The transform looks at nothing but the header of the block. -/
def Transform.Local (t : Transform) : Prop :=
  ∀ ctx ctx' : Context, ctx'.transform = ctx.transform → ctx'.options = ctx.options →
    ctx.block.SameHeader ctx'.block → t ctx' = t ctx

/-- What is done to a rendered text hangs on nothing but the header of the block. -/
def Middleware.Local (m : Middleware) : Prop :=
  ∀ b b' : Block, b.SameHeader b' → m.after b' = m.after b

structure Engine.Local (e : Engine) : Prop where
  transforms : ∀ name transform, e.registry.get? name = some transform → transform.Local
  middleware : ∀ m ∈ e.middleware, m.Local

lemma Block.Refilled.sameHeader {b b' : Block} {new : List Char} {p p' : Scan.Pieces}
    (h : b.Refilled new b' p p') : b.SameHeader b' :=
  ⟨h.index, h.transform, h.rawArgs, h.options⟩

lemma Middleware.applyAfter_congr {ms : List Middleware} (hm : ∀ m ∈ ms, m.Local) {b b' : Block}
    (h : b.SameHeader b') (rendered : List Char) :
    applyAfter ms b' rendered = applyAfter ms b rendered := by
  unfold applyAfter
  induction ms generalizing rendered with
  | nil => rfl
  | cons m ms ih =>
    obtain ⟨hfirst, hlater⟩ := List.forall_mem_cons.1 hm
    rw [List.foldl_cons, List.foldl_cons, hfirst b b' h, ih hlater]

namespace Engine

/-- The text that is given for a block, after the middleware; nothing where the content stays. -/
def given? (e : Engine) (job : Job) (b : Block) (current : List Char) : Option (List Char) :=
  b.transform.bind fun name => e.rendered? (e.contextAt job b name current)

variable {e : Engine} {job job' : Job} {calls : List Context}

namespace Local

variable (he : e.Local) {b b' : Block} (h : b.SameHeader b')
include he h

lemma transform_eq {name : String} {transform : Transform}
    (hr : e.registry.get? name = some transform) (current current' : List Char) :
    transform (e.contextAt job' b' name current') = transform (e.contextAt job b name current) :=
  he.transforms name transform hr _ _ rfl h.options h

lemma rendered?_eq (name : String) (current current' : List Char) :
    e.rendered? (e.contextAt job' b' name current') =
      e.rendered? (e.contextAt job b name current) := by
  unfold rendered?
  have hname' : (e.contextAt job' b' name current').transform = name := rfl
  have hname : (e.contextAt job b name current).transform = name := rfl
  rw [hname', hname]
  cases hr : e.registry.get? name with
  | none => rfl
  | some transform =>
    have ht : transform (e.contextAt job' b' name current') =
        transform (e.contextAt job b name current) := he.transform_eq h hr current current'
    simp only [ht]
    cases transform (e.contextAt job b name current) with
    | error fault => rfl
    | ok r =>
      cases r with
      | none => rfl
      | some text =>
        exact congrArg some (Middleware.applyAfter_congr he.middleware h text.toList)

lemma given?_eq (current current' : List Char) :
    e.given? job' b' current' = e.given? job b current := by
  rw [given?, given?, h.transform]
  exact Option.bind_congr fun name _ => he.rendered?_eq h name current current'

end Local

lemma Gives.mem_calls {current new : List Char} {b : Block} (h : e.Gives job calls current b new)
    {name : String} (hb : b.transform = some name) {text : List Char}
    (hr : e.rendered? (e.contextAt job b name current) = some text) :
    e.contextAt job b name current ∈ calls := by
  cases h with
  | unnamed hn =>
    rw [hb] at hn
    simp at hn
  | missing hn hnone =>
    obtain rfl := Option.some.inj (hb.symm.trans hn)
    have hname : (e.contextAt job b name current).transform = name := rfl
    simp [rendered?, hname, hnone] at hr
  | kept hn _ hm _ =>
    obtain rfl := Option.some.inj (hb.symm.trans hn)
    exact hm
  | inserted hn _ hm _ =>
    obtain rfl := Option.some.inj (hb.symm.trans hn)
    exact hm

lemma Gives.isOk {current new : List Char} {b : Block} (h : e.Gives job calls current b new)
    {name : String} (hb : b.transform = some name) {transform : Transform}
    (hr : e.registry.get? name = some transform) :
    ∃ r, transform (e.contextAt job b name current) = .ok r := by
  cases h with
  | unnamed hn =>
    rw [hb] at hn
    simp at hn
  | missing hn hnone =>
    obtain rfl := Option.some.inj (hb.symm.trans hn)
    rw [hr] at hnone
    simp at hnone
  | kept hn hr' _ ht =>
    obtain rfl := Option.some.inj (hb.symm.trans hn)
    obtain rfl := Option.some.inj (hr.symm.trans hr')
    exact ⟨_, ht⟩
  | inserted hn hr' _ ht =>
    obtain rfl := Option.some.inj (hb.symm.trans hn)
    obtain rfl := Option.some.inj (hr.symm.trans hr')
    exact ⟨_, ht⟩

lemma Gives.eq_given {current new : List Char} {b : Block} (h : e.Gives job calls current b new) :
    new = ((e.given? job b current).map (Layout.insertion job.vocabulary b)).getD
      b.content.value.toList := by
  cases hb : b.transform with
  | none =>
    have hnone : e.given? job b current = none := by rw [given?, hb, Option.bind_none]
    rw [hnone]
    cases h with
    | inserted hn _ _ _ =>
      rw [hb] at hn
      simp at hn
    | _ => rfl
  | some name =>
    rw [given?, hb, Option.bind_some]
    exact h.eq_getD hb

/-- What the second run does to a block: its content stays the same or gets longer, and it stays the
same exactly if the text that was put in is settled. -/
lemma Local.gives_again (he : e.Local) {b b' : Block} {p p' : Scan.Pieces}
    {current current' new new' : List Char} {calls' : List Context}
    (hv : job'.vocabulary = job.vocabulary) (h : b.Refilled new b' p p')
    (hgives : e.Gives job calls current b new) (hgives' : e.Gives job' calls' current' b' new') :
    (new' = b'.content.value.toList ∨ b'.content.value.toList.length < new'.length) ∧
      (new' = b'.content.value.toList ↔ ∀ text, e.given? job b current = some text →
        Layout.Settled job.vocabulary b text) := by
  have hnew := hgives.eq_given
  have hnew' := hgives'.eq_given
  rw [he.given?_eq h.sameHeader current current', hv] at hnew'
  cases hgiven : e.given? job b current with
  | none =>
    rw [hgiven] at hnew'
    have hkept : new' = b'.content.value.toList := hnew'
    simp [hkept]
  | some text =>
    rw [hgiven, Option.map_some, Option.getD_some] at hnew hnew'
    subst hnew hnew'
    have hnamed : b.transform ≠ none := fun hb => by simp [given?, hb] at hgiven
    have heq := h.insertion_eq hnamed
    have hlt := h.length_lt_of_not_settled hnamed
    by_cases hs : Layout.Settled job.vocabulary b text
    · simp [heq hs, hs]
    · have hne : Layout.insertion job.vocabulary b' text ≠ b'.content.value.toList := fun h0 => by
        have := hlt hs
        rw [h0] at this
        exact lt_irrefl _ this
      exact ⟨.inr (hlt hs), fun h0 => absurd h0 hne, fun hall => absurd (hall text rfl) hs⟩

lemma Edited.forall_given_iff {edits : List (Block × List Char)} (hed : e.Edited job calls edits)
    (P : Block → List Char → Prop) :
    (∀ ctx ∈ calls, ∀ text, e.rendered? ctx = some text → P ctx.block text) ↔
      ∀ (i : Nat) (b : Block) (new : List Char), edits[i]? = some (b, new) → ∀ text,
        e.given? job b (spliced job.contents.toList 0 (edits.take i)) = some text → P b text := by
  constructor
  · intro hall i b new hi text hgiven
    obtain ⟨name, hb, hr⟩ := Option.bind_eq_some_iff.1 hgiven
    exact hall _ ((hed.gives i b new hi).mem_calls hb hr) text hr
  · intro hall ctx hctx text hr
    obtain ⟨i, b, new, name, hi, hb, rfl⟩ := hed.shown ctx hctx
    refine hall i b new hi text ?_
    rw [given?, hb, Option.bind_some]
    exact hr

section Second

variable (he : e.Local) {edits : List (Block × List Char)} (hed : e.Edited job calls edits)
  (hrefilled : List.Forall₂ (fun edit b' => ∃ p p', edit.1.Refilled edit.2 b' p p') edits
    job'.blocks)
include he hed hrefilled

lemma Local.isOk_again : ∃ o' calls', e.run job' = .ok (o', calls') := by
  refine run_isOk fun b' hb' name transform hname hr current' => ?_
  obtain ⟨i, hi'⟩ := List.getElem?_of_mem hb'
  obtain ⟨⟨b, new⟩, hi, p, p', hb⟩ := exists_getElem?_left hrefilled hi'
  rw [he.transform_eq hb.sameHeader hr]
  exact (hed.gives i b new hi).isOk (hb.transform.symm.trans hname) hr

lemma Local.isChanged_again (hv : job'.vocabulary = job.vocabulary) {v : Vocabulary}
    (hscan' : Block.scan v job'.contents = .ok job'.blocks) {o' : Outcome} {calls' : List Context}
    (h' : e.run job' = .ok (o', calls')) : o'.isChanged = false ↔
      ∀ (i : Nat) (b : Block) (new : List Char), edits[i]? = some (b, new) → ∀ text,
        e.given? job b (spliced job.contents.toList 0 (edits.take i)) = some text →
          Layout.Settled job.vocabulary b text := by
  obtain ⟨edits', hed', hupdated'⟩ := run_edited hscan' h'
  have hpair {i : Nat} {b b' : Block} {new new' : List Char} (hi : edits[i]? = some (b, new))
      (hi' : edits'[i]? = some (b', new')) :
      (new' = b'.content.value.toList ∨ b'.content.value.toList.length < new'.length) ∧
        (new' = b'.content.value.toList ↔ ∀ text,
          e.given? job b (spliced job.contents.toList 0 (edits.take i)) = some text →
            Layout.Settled job.vocabulary b text) := by
    obtain ⟨b'', hb'', p, p', hb⟩ := exists_getElem?_right hrefilled hi
    obtain rfl := Option.some.inj (hb''.symm.trans (hed'.getElem?_block hi'))
    exact he.gives_again hv hb (hed.gives i b new hi) (hed'.gives i _ new' hi')
  -- each block of the second run is one of the first run, refilled
  have hback {edit' : Block × List Char} (hedit : edit' ∈ edits') :
      ∃ (i : Nat) (b : Block) (new : List Char), edits[i]? = some (b, new) ∧
        edits'[i]? = some edit' := by
    obtain ⟨i, hi'⟩ := List.getElem?_of_mem hedit
    obtain ⟨⟨b, new⟩, hi, -⟩ := exists_getElem?_left hrefilled (hed'.getElem?_block hi')
    exact ⟨i, b, new, hi, hi'⟩
  have hlaid' : Block.Laid job'.contents.toList 0 (edits'.map Prod.fst) := by
    rw [hed'.blocks]
    exact (Scan.scan_eq_ok_iff.1 hscan').laid
  rw [run_isChanged h', ← String.toList_inj, hupdated', spliced_eq_iff hlaid' fun edit' hedit => by
    obtain ⟨i, b, new, hi, hi'⟩ := hback hedit
    exact (hpair hi hi').1]
  constructor
  · intro hsame i b new hi
    obtain ⟨b', hb', -⟩ := exists_getElem?_right hrefilled hi
    obtain ⟨⟨_, new'⟩, hi', rfl⟩ : ∃ edit', edits'[i]? = some edit' ∧ edit'.1 = b' := by
      rw [← hed'.blocks, List.getElem?_map] at hb'
      exact Option.map_eq_some_iff.1 hb'
    exact (hpair hi hi').2.1 (hsame _ (List.mem_of_getElem? hi'))
  · intro hsettled edit' hedit
    obtain ⟨i, b, new, hi, hi'⟩ := hback hedit
    exact (hpair hi hi').2.2 (hsettled i b new hi)

end Second

/-- When no close tag starts in the new contents, the scan of the new text finds the same headers. -/
lemma Edited.refilled {edits : List (Block × List Char)} (hed : e.Edited job calls edits)
    (hv : job.vocabulary.Steady)
    (hscan : Block.scan job.vocabulary job.contents = .ok job.blocks)
    (hfree : Scan.Free job.vocabulary job.contents.toList edits) {updated : String}
    (hupdated : updated.toList = spliced job.contents.toList 0 edits) :
    ∃ blocks', Block.scan job.vocabulary updated = .ok blocks' ∧
      List.Forall₂ (fun edit b' => ∃ p p', edit.1.Refilled edit.2 b' p p') edits blocks' ∧
      List.Forall₂ Block.SameHeader job.blocks blocks' := by
  obtain ⟨blocks', hs', hrefilled⟩ :=
    (Scan.scan_eq_ok_iff.1 hscan).rescan hv rfl hed.blocks hed.kept hfree (.inl rfl) rfl
  refine ⟨blocks', Scan.scan_eq_ok_iff.2 (by rw [hupdated]; exact hs'), hrefilled, ?_⟩
  rw [← hed.blocks, List.forall₂_map_left_iff]
  exact hrefilled.imp fun _ _ ⟨_, _, hr⟩ => hr.sameHeader

/-- The second run of a file whose tags survive: it succeeds, and the file stays the same exactly if
every text that was put in is settled. -/
theorem run_again (he : e.Local) (hv : job.vocabulary.Steady)
    (hscan : Block.scan job.vocabulary job.contents = .ok job.blocks) {o : Outcome}
    (h : e.run job = .ok (o, calls))
    (hfree : ∀ ctx ∈ calls, ∀ new, e.inserted? job.vocabulary ctx = some new →
      ¬ (closesBlock job.vocabulary).StartsIn new
        (dropBytes ctx.block.content.stop job.contents.toList)) :
    ∃ blocks', Block.scan job.vocabulary o.updated = .ok blocks' ∧
      List.Forall₂ Block.SameHeader job.blocks blocks' ∧
      ∀ job' : Job, job'.vocabulary = job.vocabulary → job'.contents = o.updated →
        job'.blocks = blocks' → ∃ o' calls', e.run job' = .ok (o', calls') ∧
          (o.missing = [] → o'.missing = []) ∧
          (o'.isChanged = false ↔ ∀ ctx ∈ calls, ∀ text, e.rendered? ctx = some text →
            Layout.Settled job.vocabulary ctx.block text) := by
  obtain ⟨edits, hed, hupdated⟩ := run_edited hscan h
  obtain ⟨blocks', hscan', hrefilled, hheader⟩ :=
    hed.refilled hv hscan ((hed.free_iff (Scan.scan_eq_ok_iff.1 hscan)).2 hfree) hupdated
  refine ⟨blocks', hscan', hheader, ?_⟩
  rintro job' hvocabulary hcontents rfl
  obtain ⟨o', calls', h'⟩ := he.isOk_again hed hrefilled
  refine ⟨o', calls', h', fun hmissing => ?_, ?_⟩
  · rw [run_missing_eq_nil_iff h] at hmissing
    refine (run_missing_eq_nil_iff h').2 fun b' hb' name hname => ?_
    obtain ⟨i, hi'⟩ := List.getElem?_of_mem hb'
    obtain ⟨b, hi, hb⟩ := exists_getElem?_left hheader hi'
    exact hmissing b (List.mem_of_getElem? hi) name (hb.transform.symm.trans hname)
  · rw [he.isChanged_again hed hrefilled hvocabulary (by rwa [hcontents]) h']
    exact (hed.forall_given_iff fun b text => Layout.Settled job.vocabulary b text).symm

end Engine

end CommentBlocks
