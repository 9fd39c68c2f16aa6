import CommentBlocks.Proofs.Render.Rescan
import Mathlib.Data.List.Forall2

/-!
When the tags of a file survive rendering.

Tags are taken out of what a transform gives, but only once, and a piece of a tag is left in. So the
new text can hold a close tag that was put together from pieces, or one that ends in the text behind
the block. The blocks of the new text are the blocks of the old one exactly when this happens nowhere.
-/

namespace CommentBlocks

open Text (dropBytes)
open TagPattern (closesBlock)
open Scan (Cut Scanned)

namespace Engine

/-- What a transform that was shown `ctx` gave, after the middleware; nothing where the content
stays. -/
def rendered? (e : Engine) (ctx : Context) : Option (List Char) :=
  match e.registry.get? ctx.transform with
  | none => none
  | some transform =>
    match transform ctx with
    | .ok (some text) => some (Middleware.applyAfter e.middleware ctx.block text.toList)
    | _ => none

def inserted? (e : Engine) (v : Vocabulary) (ctx : Context) : Option (List Char) :=
  (e.rendered? ctx).map (Layout.insertion v ctx.block)

/-- The content of a block after a run in which transforms were shown `calls`. -/
def newContent (e : Engine) (v : Vocabulary) (calls : List Context) (b : Block) : List Char :=
  ((calls.find? (·.block = b)).bind (e.inserted? v)).getD b.content.value.toList

variable {e : Engine} {job : Job} {calls : List Context} {edits : List (Block × List Char)}

/-- The new content of a block, told from what was inserted for the context it was shown. -/
lemma Gives.eq_getD {current new : List Char} {b : Block} (h : e.Gives job calls current b new)
    {name : String} (hb : b.transform = some name) :
    new = (e.inserted? job.vocabulary (e.contextAt job b name current)).getD
      b.content.value.toList := by
  have htransform : (e.contextAt job b name current).transform = name := rfl
  have hblock : (e.contextAt job b name current).block = b := rfl
  cases h with
  | unnamed hn =>
    rw [hb] at hn
    simp at hn
  | missing hn hr =>
    obtain rfl := Option.some.inj (hb.symm.trans hn)
    simp [inserted?, rendered?, htransform, hr]
  | kept hn hr _ ht =>
    obtain rfl := Option.some.inj (hb.symm.trans hn)
    simp [inserted?, rendered?, htransform, hr, ht]
  | inserted hn hr _ ht =>
    obtain rfl := Option.some.inj (hb.symm.trans hn)
    simp [inserted?, rendered?, htransform, hblock, hr, ht]

lemma Gives.eq_content {current new : List Char} {b : Block} (h : e.Gives job calls current b new)
    (hc : ∀ ctx ∈ calls, ctx.block ≠ b) : new = b.content.value.toList := by
  cases h with
  | unnamed _ => rfl
  | missing _ _ => rfl
  | kept _ _ hm _ => rfl
  | inserted _ _ hm _ => exact absurd rfl (hc _ hm)

namespace Edited

variable (he : e.Edited job calls edits)
include he

lemma newContent_eq {i : Nat} {b : Block} {new : List Char} (hi : edits[i]? = some (b, new)) :
    e.newContent job.vocabulary calls b = new := by
  unfold newContent
  cases hfind : calls.find? (·.block = b) with
  | none =>
    refine ((he.gives i b new hi).eq_content fun ctx hctx hb => ?_).symm
    have := List.find?_eq_none.1 hfind ctx hctx
    simp [hb] at this
  | some ctx =>
    obtain rfl : ctx.block = b := by simpa using List.find?_some hfind
    obtain ⟨name, hb, hctx⟩ := he.context_eq (List.mem_of_find?_eq_some hfind) hi
    rw [Option.bind_some, hctx]
    exact ((he.gives i _ new hi).eq_getD hb).symm

lemma eq_map : edits = job.blocks.map fun b => (b, e.newContent job.vocabulary calls b) := by
  refine List.ext_getElem? fun i => ?_
  rw [← he.blocks, List.map_map, List.getElem?_map]
  cases hi : edits[i]? with
  | none => rfl
  | some edit =>
    obtain ⟨b, new⟩ := edit
    simp [he.newContent_eq hi]

lemma kept : Scan.Kept edits := by
  intro edit hedit hn
  obtain ⟨i, hi⟩ := List.getElem?_of_mem hedit
  refine (he.gives i _ _ hi).eq_content fun ctx hctx hb => ?_
  obtain ⟨b, new⟩ := edit
  obtain rfl : ctx.block = b := hb
  obtain ⟨name, hname, -⟩ := he.context_eq hctx hi
  rw [hn] at hname
  simp at hname

end Edited

end Engine

namespace Scan

variable {v : Vocabulary}

lemma Scanned.free_content {lineStarts : List Nat} {index : Nat} {behind ahead : List Char}
    {blocks : List Block} (h : Scanned v lineStarts index behind ahead blocks) :
    ∀ b ∈ blocks, ¬ (closesBlock v).StartsIn b.content.value.toList
      (dropBytes b.content.stop (behind.reverse ++ ahead)) := by
  intro b hb
  obtain ⟨behind', ahead', c, index', options, htext, rfl⟩ := h.exists_cut b hb
  have hbetween := (c.content_append_lead behind').symm
  have hclose := c.closeFound
  rw [TagPattern.eq_of_find? hclose, hbetween, List.append_assoc, List.append_assoc] at hclose
  have hfree := (TagPattern.find?_append_iff (c.lead_found hbetween)).1 hclose
  rw [← c.dropBytes_stop, htext] at hfree
  simpa [Pieces.toBlock] using hfree

end Scan

namespace Engine

variable {e : Engine} {job : Job} {calls : List Context} {edits : List (Block × List Char)}

lemma Edited.free_iff (he : e.Edited job calls edits)
    (hs : Scanned job.vocabulary (Text.lineStarts job.contents.toList) 0 [] job.contents.toList
      job.blocks) :
    Scan.Free job.vocabulary job.contents.toList edits ↔
      ∀ ctx ∈ calls, ∀ new, e.inserted? job.vocabulary ctx = some new →
        ¬ (closesBlock job.vocabulary).StartsIn new
          (dropBytes ctx.block.content.stop job.contents.toList) := by
  constructor
  · intro hfree ctx hctx new hnew
    obtain ⟨i, b, new', name, hi, hb, rfl⟩ := he.shown ctx hctx
    have := (he.gives i b new' hi).eq_getD hb
    rw [hnew, Option.getD_some] at this
    subst this
    exact hfree _ (List.mem_of_getElem? hi)
  · rintro hnone ⟨b, new⟩ hedit
    obtain ⟨i, hi⟩ := List.getElem?_of_mem hedit
    have hold := hs.free_content b (List.mem_of_getElem? (he.getElem?_block hi))
    by_cases hshown : ∃ ctx ∈ calls, ctx.block = b
    · obtain ⟨ctx, hctx, rfl⟩ := hshown
      obtain ⟨name, hb, hcontext⟩ := he.context_eq hctx hi
      have hnew := (he.gives i _ new hi).eq_getD hb
      rw [← hcontext] at hnew
      cases hins : e.inserted? job.vocabulary ctx with
      | none =>
        rw [hins, Option.getD_none] at hnew
        subst hnew
        exact hold
      | some text =>
        rw [hins, Option.getD_some] at hnew
        subst hnew
        exact hnone ctx hctx new hins
    · obtain rfl : new = b.content.value.toList :=
        (he.gives i b new hi).eq_content fun ctx hctx hb => hshown ⟨ctx, hctx, hb⟩
      exact hold

/-- Rendering keeps the boundaries of the blocks exactly if no close tag starts in any of the texts it
inserts, each read with the old text behind it. -/
theorem run_keeps_blocks_iff {d : Delimiters} (hd : d.IsBuiltIn) {openWord closeWord : String}
    (hv : job.vocabulary = .ofDelimiters openWord closeWord d)
    (hscan : Block.scan job.vocabulary job.contents = .ok job.blocks) {o : Outcome}
    (h : e.run job = .ok (o, calls)) :
    (∃ blocks', Block.scan job.vocabulary o.updated = .ok blocks' ∧
      List.Forall₂ (fun b b' => b.Keeps (e.newContent job.vocabulary calls b) b')
        job.blocks blocks') ↔
    ∀ ctx ∈ calls, ∀ new, e.inserted? job.vocabulary ctx = some new →
      ¬ (closesBlock job.vocabulary).StartsIn new
        (dropBytes ctx.block.content.stop job.contents.toList) := by
  obtain ⟨edits, he, hupdated⟩ := run_edited hscan h
  have hs := Scan.scan_eq_ok_iff.1 hscan
  have hsteady : job.vocabulary.Steady := hv ▸ (hd.plain openWord closeWord).steady
  obtain ⟨c, opening, hopening, hc⟩ : ∃ c opening,
      job.vocabulary.commentOpen.toList = c :: opening ∧ Unicode.isFiller c = false := by
    rw [hv]
    exact hd.head_opening
  rw [← he.free_iff hs]
  have hforall (blocks' : List Block) :
      List.Forall₂ (fun b b' => b.Keeps (e.newContent job.vocabulary calls b) b')
        job.blocks blocks' ↔ List.Forall₂ (fun edit b' => edit.1.Keeps edit.2 b') edits blocks' := by
    rw [he.eq_map, List.forall₂_map_left_iff]
  constructor
  · rintro ⟨blocks', hscan', hkeeps⟩
    have hs' := Scan.scan_eq_ok_iff.1 hscan'
    rw [hupdated] at hs'
    exact hs.free hsteady hopening hc rfl he.blocks he.kept (.inl rfl) rfl hs' ((hforall _).1 hkeeps)
  · intro hfree
    obtain ⟨blocks', hs', hrefilled⟩ :=
      hs.rescan hsteady rfl he.blocks he.kept hfree (.inl rfl) rfl
    refine ⟨blocks', Scan.scan_eq_ok_iff.2 (by rw [hupdated]; exact hs'), (hforall _).2 ?_⟩
    exact hrefilled.imp fun _ _ ⟨_, _, hr⟩ => hr.keeps

/-- One block with a new content. -/
theorem run_keeps_blocks_iff_one_block :
    let job := Job.ofText (.ofDelimiters "a" "z" .cStyle) "/* a x */1/* z */"
    let e : Engine := ⟨⟨[("x", fun _ => .ok (some "2"))]⟩, [], .null⟩
    ∃ o calls, e.run job = .ok (o, calls) ∧ o.updated = "/* a x */2/* z */" ∧
      ((∃ blocks', Block.scan job.vocabulary o.updated = .ok blocks' ∧
        List.Forall₂ (fun b b' => b.Keeps (e.newContent job.vocabulary calls b) b')
          job.blocks blocks') ↔
      ∀ ctx ∈ calls, ∀ new, e.inserted? job.vocabulary ctx = some new →
        ¬ (closesBlock job.vocabulary).StartsIn new
          (dropBytes ctx.block.content.stop job.contents.toList)) := by
  intro job e
  have hscan : Block.scan job.vocabulary job.contents = .ok job.blocks :=
    Job.scan_ofText (by decide +kernel)
  have hrun : (e.run job).toOption.map (·.1.updated) = some "/* a x */2/* z */" := by
    decide +kernel
  obtain ⟨⟨o, calls⟩, hok, hupdated⟩ := Option.map_eq_some_iff.1 hrun
  exact ⟨o, calls, eq_ok_of_toOption hok, hupdated,
    run_keeps_blocks_iff (.inr (.inl rfl)) rfl hscan (eq_ok_of_toOption hok)⟩

/-- Taking tags out once leaves tags that stood around them in pieces: the text has one block before
the run and two blocks after it. -/
theorem run_adds_block :
    let job := Job.ofText .standard "<!-- doc-gen x --><!-- end-doc-gen -->"
    let e : Engine := ⟨⟨[("x", fun _ => .ok (some
      "<!-- end-<!-- end-doc-gen -->doc-gen --> <!-- doc<!-- end-doc-gen -->-gen x -->"))]⟩, [], .null⟩
    Block.scan job.vocabulary job.contents = .ok job.blocks ∧ job.blocks.length = 1 ∧
      ∃ o calls, e.run job = .ok (o, calls) ∧
        ∃ blocks', Block.scan job.vocabulary o.updated = .ok blocks' ∧ blocks'.length = 2 := by
  intro job e
  have hscan : Block.scan job.vocabulary job.contents = .ok job.blocks :=
    Job.scan_ofText (by decide +kernel)
  have hrun : (e.run job).toOption.map (fun r => ((Block.scan job.vocabulary
      r.1.updated).toOption.map List.length)) = some (some 2) := by decide +kernel
  obtain ⟨⟨o, calls⟩, hok, hblocks⟩ := Option.map_eq_some_iff.1 hrun
  obtain ⟨blocks', hscan', hlen⟩ := Option.map_eq_some_iff.1 hblocks
  exact ⟨hscan, by decide +kernel, o, calls, eq_ok_of_toOption hok, blocks',
    eq_ok_of_toOption hscan', hlen⟩

end Engine

end CommentBlocks
