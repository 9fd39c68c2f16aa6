import CommentBlocks.Proofs.Project.Rendering
import CommentBlocks.Proofs.Render.Outcome

/-!
The marks of blocks whose transform is not registered.

A run marks blocks by the places that the report of the file names. The places of blocks are their
indices, so exactly the blocks of the report get the mark.
-/

namespace CommentBlocks

def Block.markedAs (b : Block) (isMissing : Bool) : Block :=
  { b with context := { b.context with isMissing } }

lemma Block.markedAs_self {b : Block} {isMissing : Bool} (h : b.context.isMissing = isMissing) :
    b.markedAs isMissing = b := by
  subst h
  rfl

def Block.reportIn (b : Block) (file : Path) : Option MissingTransform :=
  b.transform.map fun name => ⟨name, file, b.line, b.index⟩

def Registry.lacks {α : Type} (registry : Registry α) (b : Block) : Bool :=
  b.transform.any fun name => (registry.get? name).isNone

lemma Registry.lacks_iff {α : Type} {registry : Registry α} {b : Block} : registry.lacks b = true ↔
    ∃ name, b.transform = some name ∧ registry.get? name = none := by
  simp [lacks, Option.any_eq_true]

namespace Engine

variable {e : Engine} {job : Job}

lemma missing?_eq_ite (b : Block) :
    e.missing? job b = if e.registry.lacks b then b.reportIn job.srcPath else none := by
  unfold missing? Registry.lacks Block.reportIn
  cases b.transform with
  | none => rfl
  | some name => cases hr : e.registry.get? name <;> simp [hr]

lemma ran?_eq_ite (b : Block) : e.ran? b = if !e.registry.lacks b then b.transform else none := by
  unfold ran? Registry.lacks
  cases b.transform with
  | none => rfl
  | some name => cases hr : e.registry.get? name <;> simp [hr]

variable {o : Outcome} {calls : List Context}

/-- The blocks of a file are parted into those that are missing, those that ran and those without a
name. -/
lemma run_parts (h : e.run job = .ok (o, calls)) :
    o.missing = (job.blocks.filter e.registry.lacks).filterMap (Block.reportIn · job.srcPath) ∧
      o.transformsRun = (job.blocks.filter (!e.registry.lacks ·)).filterMap Block.transform := by
  rw [run_missing h, run_transformsRun h, List.filterMap_filter, List.filterMap_filter]
  exact ⟨List.filterMap_congr fun b _ => missing?_eq_ite b, List.filterMap_congr fun b _ => ran?_eq_ite b⟩

end Engine

lemma Block.isMissing_of_scan {v : Vocabulary} {text : String} {blocks : List Block}
    (h : Block.scan v text = .ok blocks) : ∀ b ∈ blocks, b.context.isMissing = false := by
  intro b hb
  obtain ⟨_, _, _, _, _, -, rfl⟩ := (Scan.scan_eq_ok_iff.1 h).exists_cut b hb
  rfl

lemma Project.getElem?_foldl_markMissing (indices : List Nat) (blocks : List Block) (j : Nat) :
    (indices.foldl markMissing blocks)[j]? =
      blocks[j]?.map fun b => if j ∈ indices then b.markedAs true else b := by
  induction indices generalizing blocks with
  | nil => simp
  | cons i indices ih =>
    rw [List.foldl_cons, ih, markMissing, List.getElem?_modify]
    cases blocks[j]? with
    | none => rfl
    | some b =>
      by_cases hij : i = j
      · subst hij
        by_cases hmem : i ∈ indices <;> simp [hmem, Block.markedAs]
      · have hji : j ≠ i := fun h => hij h.symm
        simp [hij, hji]

namespace FileRun

variable {e : Engine} {g : FileRun} {v : Vocabulary} {text : String}

/-- The blocks of a rendered file are those of the scan, with a mark where the transform is not
registered. -/
lemma result_blocks (hscan : Block.scan v text = .ok g.item.blocks)
    (hblocks : g.job.blocks = g.item.blocks) (hrun : e.run g.job = .ok (g.outcome, g.calls)) :
    g.result.blocks = g.item.blocks.map fun b => b.markedAs (e.registry.lacks b) := by
  have hplace {i : Nat} {b : Block} (hi : g.item.blocks[i]? = some b) : b.index = i :=
    (Scan.scan_eq_ok_iff.1 hscan).index_of_getElem? hi
  refine List.ext_getElem? fun j => ?_
  rw [result, Project.getElem?_foldl_markMissing, List.getElem?_map]
  refine Option.map_congr fun b hj => ?_
  have hmem : j ∈ g.outcome.missing.map MissingTransform.index ↔ e.registry.lacks b = true := by
    rw [(Engine.run_parts hrun).1, hblocks, List.mem_map]
    constructor
    · rintro ⟨m, hm, rfl⟩
      obtain ⟨b', hb', hm⟩ := List.mem_filterMap.1 hm
      obtain ⟨hb', hlacks⟩ := List.mem_filter.1 hb'
      obtain ⟨i, hi⟩ := List.mem_iff_getElem?.1 hb'
      obtain ⟨name, -, rfl⟩ := Option.map_eq_some_iff.1 hm
      rw [hplace hi, hi] at hj
      exact Option.some.inj hj ▸ hlacks
    · intro hlacks
      obtain ⟨name, hname, -⟩ := Registry.lacks_iff.1 hlacks
      refine ⟨⟨name, g.job.srcPath, b.line, b.index⟩, List.mem_filterMap.2 ⟨b, ?_, ?_⟩, hplace hj⟩
      · exact List.mem_filter.2 ⟨List.mem_of_getElem? hj, hlacks⟩
      · rw [Block.reportIn, hname]
        rfl
  have hfresh := Block.isMissing_of_scan hscan b (List.mem_of_getElem? hj)
  cases hlacks : e.registry.lacks b with
  | true => rw [if_pos (hmem.2 hlacks)]
  | false =>
    rw [if_neg (by rw [hmem, hlacks]; decide), Block.markedAs_self hfresh]

end FileRun

end CommentBlocks
