import CommentBlocks.Proofs.Block.Geometry
import CommentBlocks.Proofs.Folding
import CommentBlocks.Render.Execute

/-!
Rendering puts new text in the places of the contents and leaves everything else as it is.

`spliced` is the old text with new contents for some blocks, and `Gives` says where the new content of
a block comes from. The loop of `run` is tied to them by one statement about the rest of the blocks,
for every place its cursor can be left at.
-/

namespace CommentBlocks

/-- The job to render a text in its place before any other file. -/
def Job.ofText (v : Vocabulary) (contents : String) : Job where
  srcPath := ⟨""⟩
  outputPath := ⟨""⟩
  contents
  blocks := (Block.scan v contents).toOption.getD []
  vocabulary := v
  processed := []

lemma Job.scan_ofText {v : Vocabulary} {contents : String}
    (h : (Block.scan v contents).toOption.isSome) :
    Block.scan v contents = .ok (Job.ofText v contents).blocks := by
  obtain ⟨blocks, hblocks⟩ := Option.isSome_iff_exists.1 h
  rw [Job.ofText, hblocks, eq_ok_of_toOption hblocks]
  rfl

namespace Engine

open Text (bytes slice dropBytes IsCut)

/-- The text from `cursor` on, with new contents in the given blocks. -/
def spliced (text : List Char) (cursor : Nat) : List (Block × List Char) → List Char
  | [] => dropBytes cursor text
  | (b, new) :: edits =>
    slice text cursor b.content.start ++ new ++ spliced text b.content.stop edits

lemma spliced_self {text : List Char} {place : Nat} {edits : List (Block × List Char)}
    (hl : Block.Laid text place (edits.map Prod.fst))
    (h : ∀ edit ∈ edits, edit.2 = edit.1.content.value.toList) :
    spliced text place edits = dropBytes place text := by
  induction edits generalizing place with
  | nil => rfl
  | cons edit edits ih =>
    obtain ⟨hnew, hlater⟩ := List.forall_mem_cons.1 h
    cases hl with
    | cons hplace hstart hstop hplace_start hstart_stop hvalue hrest =>
    rw [spliced, hnew, ih hrest hlater, hvalue, List.append_assoc,
      Text.slice_append_dropBytes hstart hstop hstart_stop,
      Text.slice_append_dropBytes hplace hstart hplace_start]

/-- When no content gets shorter, neither does the text, and it keeps its length only if all contents
stay the same. -/
lemma length_le_length_spliced {text : List Char} {place : Nat} {edits : List (Block × List Char)}
    (hl : Block.Laid text place (edits.map Prod.fst)) (hle : ∀ edit ∈ edits,
      edit.2 = edit.1.content.value.toList ∨
        edit.1.content.value.toList.length < edit.2.length) :
    (dropBytes place text).length ≤ (spliced text place edits).length ∧
      ((spliced text place edits).length = (dropBytes place text).length →
        ∀ edit ∈ edits, edit.2 = edit.1.content.value.toList) := by
  induction edits generalizing place with
  | nil => exact ⟨le_rfl, by simp⟩
  | cons edit edits ih =>
    obtain ⟨hfirst, hlater⟩ := List.forall_mem_cons.1 hle
    cases hl with
    | cons hplace hstart hstop hplace_start hstart_stop hvalue hrest =>
    obtain ⟨hlonger, hsame⟩ := ih hrest hlater
    have hgap := congrArg List.length
      (Text.slice_append_dropBytes hplace hstart hplace_start)
    have hcontent := congrArg List.length
      (Text.slice_append_dropBytes hstart hstop hstart_stop)
    rw [← hvalue] at hcontent
    have hnew : edit.1.content.value.toList.length ≤ edit.2.length := by
      rcases hfirst with h | h
      · rw [h]
      · exact h.le
    simp only [spliced, List.length_append] at hgap hcontent ⊢
    refine ⟨by omega, fun heq => List.forall_mem_cons.2 ⟨?_, hsame (by omega)⟩⟩
    exact hfirst.resolve_right (by omega)

lemma spliced_eq_iff {text : List Char} {edits : List (Block × List Char)}
    (hl : Block.Laid text 0 (edits.map Prod.fst)) (hle : ∀ edit ∈ edits,
      edit.2 = edit.1.content.value.toList ∨
        edit.1.content.value.toList.length < edit.2.length) :
    spliced text 0 edits = text ↔ ∀ edit ∈ edits, edit.2 = edit.1.content.value.toList := by
  constructor
  · intro h
    refine (length_le_length_spliced hl hle).2 ?_
    rw [h, Text.dropBytes_zero]
  · intro h
    rw [spliced_self hl h, Text.dropBytes_zero]

/-- What a transform is shown of a block when `current` is the text with the earlier blocks
rendered. -/
def contextAt (e : Engine) (job : Job) (b : Block) (name : String) (current : List Char) : Context :=
  { e.context job b name [] with currentContents := String.ofList current }

/-- The new content of a block, when `current` is the text with the earlier blocks rendered. What
transforms have been shown is among `calls`. -/
inductive Gives (e : Engine) (job : Job) (calls : List Context) (current : List Char) (b : Block) :
    List Char → Prop where
  | unnamed (hb : b.transform = none) : Gives e job calls current b b.content.value.toList
  | missing {name : String} (hb : b.transform = some name) (hr : e.registry.get? name = none) :
      Gives e job calls current b b.content.value.toList
  | kept {name : String} {transform : Transform} (hb : b.transform = some name)
      (hr : e.registry.get? name = some transform)
      (hc : e.contextAt job b name current ∈ calls)
      (ht : transform (e.contextAt job b name current) = .ok none) :
      Gives e job calls current b b.content.value.toList
  | inserted {name : String} {transform : Transform} {text : String}
      (hb : b.transform = some name) (hr : e.registry.get? name = some transform)
      (hc : e.contextAt job b name current ∈ calls)
      (ht : transform (e.contextAt job b name current) = .ok (some text)) :
      Gives e job calls current b
        (Layout.insertion job.vocabulary b (Middleware.applyAfter e.middleware b text.toList))

variable {e : Engine} {job : Job}

lemma Gives.mono {calls calls' : List Context} {current new : List Char} {b : Block}
    (h : e.Gives job calls current b new) (hc : ∀ ctx ∈ calls, ctx ∈ calls') :
    e.Gives job calls' current b new := by
  cases h with
  | unnamed hb => exact .unnamed hb
  | missing hb hr => exact .missing hb hr
  | kept hb hr hm ht => exact .kept hb hr (hc _ hm) ht
  | inserted hb hr hm ht => exact .inserted hb hr (hc _ hm) ht

/-- The new text up to the content of a block, before the block is rendered. -/
def front (job : Job) (p : Progress) (place : Nat) : List Char :=
  p.output ++ slice job.contents.toList p.cursor place

/-- The text with the blocks so far rendered, and all of the rest as it was. -/
def current (job : Job) (p : Progress) : List Char :=
  p.output ++ dropBytes p.cursor job.contents.toList

lemma context_eq (e : Engine) (job : Job) (b : Block) (name : String) (output : List Char) :
    e.context job b name output =
      e.contextAt job b name (output ++ dropBytes b.content.start job.contents.toList) := rfl

/-- One block: either the cursor stops in front of the content, or the new content is put out and the
cursor moves behind the old one. -/
lemma step_spec {p p' : Progress} {b : Block} (hp : IsCut job.contents.toList p.cursor)
    (hs : IsCut job.contents.toList b.content.start) (hle : p.cursor ≤ b.content.start)
    (h : e.step job p b = .ok p') : ∃ new more, p'.calls = p.calls ++ more ∧
      (∀ ctx ∈ more, ∃ name, b.transform = some name ∧
        ctx = e.contextAt job b name (current job p)) ∧
      e.Gives job p'.calls (current job p) b new ∧
      (p'.output = front job p b.content.start ∧ p'.cursor = b.content.start ∧
          new = b.content.value.toList ∨
        p'.output = front job p b.content.start ++ new ∧ p'.cursor = b.content.stop) := by
  have hcurrent : front job p b.content.start ++ dropBytes b.content.start job.contents.toList =
      current job p := by
    rw [front, current, List.append_assoc, Text.slice_append_dropBytes hp hs hle]
  have hctx (name : String) : e.context job b name (front job p b.content.start) =
      e.contextAt job b name (current job p) := by rw [context_eq, hcurrent]
  unfold step at h
  simp only at h
  split at h
  · next hb =>
    obtain rfl := Except.ok.inj h
    exact ⟨_, [], by simp, by simp, .unnamed hb, .inl ⟨rfl, rfl, rfl⟩⟩
  · next name hb =>
    split at h
    · next hr =>
      obtain rfl := Except.ok.inj h
      exact ⟨_, [], by simp, by simp, .missing hb hr, .inl ⟨rfl, rfl, rfl⟩⟩
    · next transform hr =>
      rw [show p.output ++ slice job.contents.toList p.cursor b.content.start =
        front job p b.content.start from rfl, hctx] at h
      split at h
      · simp at h
      · next rendered ht =>
        split at h
        · obtain rfl := Except.ok.inj h
          exact ⟨_, [_], rfl, by simpa using ⟨name, hb, rfl⟩,
            .kept hb hr (List.mem_append_right _ (List.mem_singleton_self _)) ht,
            .inl ⟨rfl, rfl, rfl⟩⟩
        · next text =>
          obtain rfl := Except.ok.inj h
          exact ⟨_, [_], rfl, by simpa using ⟨name, hb, rfl⟩,
            .inserted hb hr (List.mem_append_right _ (List.mem_singleton_self _)) ht,
            .inr ⟨rfl, rfl⟩⟩

lemma current_eq {p : Progress} {place : Nat} (hp : IsCut job.contents.toList p.cursor)
    (hplace : IsCut job.contents.toList place) (hle : p.cursor ≤ place) :
    current job p = front job p place ++ spliced job.contents.toList place [] := by
  rw [current, front, spliced, List.append_assoc, Text.slice_append_dropBytes hp hplace hle]

/-- Wherever a step leaves the cursor, the text up to the end of the content is the same. -/
lemma front_of_step {p p' : Progress} {b : Block} {place : Nat} {new : List Char}
    (hp : IsCut job.contents.toList p.cursor) (hplace : IsCut job.contents.toList place)
    (hle : p.cursor ≤ place) (hle' : place ≤ b.content.start)
    (hvalue : b.content.value.toList = slice job.contents.toList b.content.start b.content.stop)
    (hmove : p'.output = front job p b.content.start ∧ p'.cursor = b.content.start ∧
        new = b.content.value.toList ∨
      p'.output = front job p b.content.start ++ new ∧ p'.cursor = b.content.stop) :
    front job p' b.content.stop =
      front job p place ++ (slice job.contents.toList place b.content.start ++ new) := by
  have hfront : front job p b.content.start =
      front job p place ++ slice job.contents.toList place b.content.start := by
    rw [front, front, List.append_assoc, Text.slice_append_slice hp hplace hle hle']
  rcases hmove with ⟨hout, hcursor, rfl⟩ | ⟨hout, hcursor⟩
  · rw [front, hout, hcursor, hfront, ← hvalue, List.append_assoc]
  · rw [front, hout, hcursor, hfront, Text.slice_self, List.append_nil, List.append_assoc]

/-- All blocks of a file, from one at `place` on. The induction is on the blocks; the cursor of `p`
may still stand in front of the content of the block before. -/
lemma foldlM_step_spec {blocks : List Block} {place : Nat} {p p' : Progress}
    (hl : Block.Laid job.contents.toList place blocks)
    (hp : IsCut job.contents.toList p.cursor) (hle : p.cursor ≤ place)
    (h : blocks.foldlM (e.step job) p = .ok p') :
    ∃ edits more, edits.map Prod.fst = blocks ∧ p'.calls = p.calls ++ more ∧
      current job p' = front job p place ++ spliced job.contents.toList place edits ∧
      (∀ (i : Nat) (b : Block) (new : List Char), edits[i]? = some (b, new) →
        e.Gives job p'.calls
          (front job p place ++ spliced job.contents.toList place (edits.take i)) b new) ∧
      ∀ ctx ∈ more, ∃ (i : Nat) (b : Block) (new : List Char) (name : String),
        edits[i]? = some (b, new) ∧ b.transform = some name ∧ ctx = e.contextAt job b name
          (front job p place ++ spliced job.contents.toList place (edits.take i)) := by
  induction blocks generalizing place p with
  | nil =>
    obtain rfl := Except.ok.inj h
    cases hl with
    | nil hplace => exact ⟨[], [], rfl, by simp, current_eq hp hplace hle, by simp, by simp⟩
  | cons b blocks ih =>
    cases hl with
    | cons hplace hstart hstop hplace_start hstart_stop hvalue hrest =>
    obtain ⟨p₁, hstep, h⟩ := foldlM_cons_eq_ok.1 h
    obtain ⟨new, more₁, hcalls₁, hshown₁, hgives₁, hmove⟩ :=
      step_spec hp hstart (hle.trans hplace_start) hstep
    have hfront := front_of_step hp hplace hle hplace_start hvalue hmove
    have hnext : IsCut job.contents.toList p₁.cursor ∧ p₁.cursor ≤ b.content.stop := by
      rcases hmove with ⟨-, hcursor, -⟩ | ⟨-, hcursor⟩
      · rw [hcursor]
        exact ⟨hstart, hstart_stop⟩
      · rw [hcursor]
        exact ⟨hstop, le_rfl⟩
    obtain ⟨hcut, hcursor⟩ := hnext
    obtain ⟨edits, more, hfst, hcalls, hcur, hgives, hshown⟩ := ih hrest hcut hcursor h
    have hspliced (later : List (Block × List Char)) :
        front job p₁ b.content.stop ++ spliced job.contents.toList b.content.stop later =
          front job p place ++ spliced job.contents.toList place ((b, new) :: later) := by
      rw [hfront, spliced]
      simp
    have hhere := current_eq hp hplace hle
    refine ⟨(b, new) :: edits, more₁ ++ more, by simp [hfst], by simp [hcalls, hcalls₁],
      by rw [hcur, hspliced], ?_, ?_⟩
    · intro i b' new' hi
      cases i with
      | zero =>
        obtain ⟨rfl, rfl⟩ := Prod.mk.inj (Option.some.inj hi)
        rw [List.take_zero, ← hhere]
        exact hgives₁.mono fun ctx hc => by rw [hcalls]; exact List.mem_append_left _ hc
      | succ i =>
        rw [List.take_succ_cons, ← hspliced]
        exact hgives i b' new' hi
    · intro ctx hctx
      rcases List.mem_append.1 hctx with hctx | hctx
      · obtain ⟨name, hb, rfl⟩ := hshown₁ ctx hctx
        exact ⟨0, b, new, name, rfl, hb, by rw [List.take_zero, ← hhere]⟩
      · obtain ⟨i, b', new', name, hi, hb, rfl⟩ := hshown ctx hctx
        exact ⟨i + 1, b', new', name, hi, hb, by rw [List.take_succ_cons, ← hspliced]⟩

/-- What a successful run does, block by block: the edits, where each new content comes from, and what
each transform was shown. -/
structure Edited (e : Engine) (job : Job) (calls : List Context) (edits : List (Block × List Char)) :
    Prop where
  blocks : edits.map Prod.fst = job.blocks
  index : ∀ (i : Nat) (b : Block), job.blocks[i]? = some b → b.index = i
  gives : ∀ (i : Nat) (b : Block) (new : List Char), edits[i]? = some (b, new) →
    e.Gives job calls (spliced job.contents.toList 0 (edits.take i)) b new
  shown : ∀ ctx ∈ calls, ∃ (i : Nat) (b : Block) (new : List Char) (name : String),
    edits[i]? = some (b, new) ∧ b.transform = some name ∧
      ctx = e.contextAt job b name (spliced job.contents.toList 0 (edits.take i))

lemma run_edited {v : Vocabulary} (hscan : Block.scan v job.contents = .ok job.blocks) {o : Outcome}
    {calls : List Context} (h : e.run job = .ok (o, calls)) : ∃ edits, e.Edited job calls edits ∧
      o.updated.toList = spliced job.contents.toList 0 edits := by
  have hs := Scan.scan_eq_ok_iff.1 hscan
  unfold run at h
  split at h
  · simp at h
  · next p hp =>
    obtain ⟨rfl, rfl⟩ := Prod.mk.inj (Except.ok.inj h)
    have hzero : IsCut job.contents.toList 0 := ⟨[], _, rfl, rfl⟩
    have hfront : front job start 0 = [] := by simp [front, start]
    have hlaid : Block.Laid job.contents.toList 0 job.blocks := hs.laid
    obtain ⟨edits, more, hfst, hcalls, hcur, hgives, hshown⟩ :=
      foldlM_step_spec hlaid hzero le_rfl hp
    rw [hfront] at hcur hgives hshown
    simp only [List.nil_append] at hcur hgives hshown
    refine ⟨edits, ⟨hfst, fun i b hi => hs.index_of_getElem? hi, hgives, ?_⟩,
      by rw [String.toList_ofList]; exact hcur⟩
    rw [hcalls]
    exact hshown

namespace Edited

variable {calls : List Context} {edits : List (Block × List Char)} (he : e.Edited job calls edits)
include he

lemma getElem?_block {i : Nat} {b : Block} {new : List Char} (hi : edits[i]? = some (b, new)) :
    job.blocks[i]? = some b := by
  rw [← he.blocks, List.getElem?_map, hi]
  rfl

lemma mem_blocks {ctx : Context} (hctx : ctx ∈ calls) : ctx.block ∈ job.blocks := by
  obtain ⟨i, b, new, name, hi, -, rfl⟩ := he.shown ctx hctx
  exact List.mem_of_getElem? (he.getElem?_block hi)

lemma context_eq {i : Nat} {new : List Char} {ctx : Context} (hctx : ctx ∈ calls)
    (hi : edits[i]? = some (ctx.block, new)) : ∃ name, ctx.block.transform = some name ∧
      ctx = e.contextAt job ctx.block name (spliced job.contents.toList 0 (edits.take i)) := by
  obtain ⟨j, b, new', name, hj, hb, hshown⟩ := he.shown ctx hctx
  have hblock : ctx.block = b := by rw [hshown]; rfl
  obtain rfl : i = j := by
    rw [← he.index i _ (he.getElem?_block hi), ← he.index j _ (he.getElem?_block hj), hblock]
  subst hblock
  exact ⟨name, hb, hshown⟩

end Edited

/-- Positional splicing: rendering replaces the contents of the blocks in their places, keeps every
other byte, and shows each transform the text with the earlier blocks rendered. -/
theorem run_splices {v : Vocabulary} (hscan : Block.scan v job.contents = .ok job.blocks)
    {o : Outcome} {calls : List Context} (h : e.run job = .ok (o, calls)) :
    ∃ edits, edits.map Prod.fst = job.blocks ∧
      o.updated.toList = spliced job.contents.toList 0 edits ∧
      (∀ (i : Nat) (b : Block) (new : List Char), edits[i]? = some (b, new) →
        e.Gives job calls (spliced job.contents.toList 0 (edits.take i)) b new) ∧
      ∀ ctx ∈ calls, ∃ i, job.blocks[i]? = some ctx.block ∧
        ctx.currentContents.toList = spliced job.contents.toList 0 (edits.take i) := by
  obtain ⟨edits, he, hupdated⟩ := run_edited hscan h
  refine ⟨edits, he.blocks, hupdated, he.gives, fun ctx hctx => ?_⟩
  obtain ⟨i, b, new, name, hi, -, rfl⟩ := he.shown ctx hctx
  exact ⟨i, he.getElem?_block hi, String.toList_ofList⟩

/-- A file with one block that is rendered and one whose transform nobody has registered. -/
theorem run_splices_two_blocks :
    let job := Job.ofText (.ofDelimiters "a" "z" .cStyle) "/* a x */1/* z */-/* a y */2/* z */"
    let e : Engine := ⟨⟨[("x", fun _ => .ok (some "3"))]⟩, [], .null⟩
    ∃ o calls, e.run job = .ok (o, calls) ∧ o.updated = "/* a x */3/* z */-/* a y */2/* z */" ∧
      ∃ edits, edits.map Prod.fst = job.blocks ∧
        o.updated.toList = spliced job.contents.toList 0 edits ∧
        (∀ (i : Nat) (b : Block) (new : List Char), edits[i]? = some (b, new) →
          e.Gives job calls (spliced job.contents.toList 0 (edits.take i)) b new) ∧
        ∀ ctx ∈ calls, ∃ i, job.blocks[i]? = some ctx.block ∧
          ctx.currentContents.toList = spliced job.contents.toList 0 (edits.take i) := by
  intro job e
  have hscan : Block.scan (.ofDelimiters "a" "z" .cStyle) job.contents = .ok job.blocks :=
    Job.scan_ofText (by decide +kernel)
  have hrun : (e.run job).toOption.map (·.1.updated) =
      some "/* a x */3/* z */-/* a y */2/* z */" := by decide +kernel
  obtain ⟨⟨o, calls⟩, hok, hupdated⟩ := Option.map_eq_some_iff.1 hrun
  exact ⟨o, calls, eq_ok_of_toOption hok, hupdated, run_splices hscan (eq_ok_of_toOption hok)⟩

end Engine

end CommentBlocks
