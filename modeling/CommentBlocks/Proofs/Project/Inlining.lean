import CommentBlocks.Proofs.Project.Marking
import CommentBlocks.Proofs.Project.References
import CommentBlocks.Proofs.Render.Alike

/-!
A block that inlines another file of the project gets the final text of that file.

The scan and the transform resolve the reference of the block on their own, and they agree on it. So an
edge leads to the other file, which is rendered before, and its final text is at hand when the block is
rendered. The scan takes references with a scheme for addresses and draws no edge for them, while the
transform resolves them like all others.
-/

namespace CommentBlocks

/-! ### Blocks and contexts of a rendered file -/

lemma FileRun.mem_blocks_of_registered {e : Engine} {g : FileRun} {v : Vocabulary}
    (hscan : Block.scan v g.job.contents = .ok g.job.blocks)
    (hblocks : g.job.blocks = g.item.blocks) (hrun : e.run g.job = .ok (g.outcome, g.calls))
    {b : Block} (hb : b ∈ g.result.blocks) {name : String} (hname : b.transform = some name)
    (hregistered : e.registry.get? name ≠ none) : b ∈ g.job.blocks := by
  rw [result_blocks (hblocks ▸ hscan) hblocks hrun] at hb
  obtain ⟨b, hmem, rfl⟩ := List.mem_map.1 hb
  have hlacks : e.registry.lacks b = false := Bool.eq_false_iff.2 fun hlacks => by
    obtain ⟨name', hname', hnone⟩ := Registry.lacks_iff.1 hlacks
    obtain rfl := Option.some.inj (hname'.symm.trans hname)
    exact hregistered hnone
  rwa [hlacks, Block.markedAs_self (Block.isMissing_of_scan hscan b (hblocks ▸ hmem)), hblocks]

namespace Engine

variable {e : Engine} {job : Job} {o : Outcome} {calls : List Context}

lemma exists_context {v : Vocabulary} (hscan : Block.scan v job.contents = .ok job.blocks)
    (h : e.run job = .ok (o, calls)) {b : Block} (hb : b ∈ job.blocks) {name : String}
    (hname : b.transform = some name) (hregistered : e.registry.get? name ≠ none) :
    ∃ ctx ∈ calls, ctx.srcPath = job.srcPath ∧ ctx.block = b := by
  obtain ⟨edits, hed, -⟩ := run_edited hscan h
  obtain ⟨i, hi⟩ := List.mem_iff_getElem?.1 hb
  obtain ⟨new, hnew⟩ : ∃ new, edits[i]? = some (b, new) := by
    rw [← hed.blocks, List.getElem?_map] at hi
    obtain ⟨⟨b', new⟩, hedit, rfl⟩ := Option.map_eq_some_iff.1 hi
    exact ⟨new, hedit⟩
  cases hed.gives i b new hnew with
  | unnamed hb => simp [hname] at hb
  | missing hb hr => exact absurd (Option.some.inj (hname.symm.trans hb) ▸ hr) hregistered
  | kept _ _ hctx _ => exact ⟨_, hctx, rfl, rfl⟩
  | inserted _ _ hctx _ => exact ⟨_, hctx, rfl, rfl⟩

lemma processed_of_mem_calls {v : Vocabulary} (hscan : Block.scan v job.contents = .ok job.blocks)
    (h : e.run job = .ok (o, calls)) : ∀ ctx ∈ calls, ctx.processed = job.processed := by
  obtain ⟨edits, hed, -⟩ := run_edited hscan h
  intro ctx hctx
  obtain ⟨i, b, new, name, -, -, rfl⟩ := hed.shown ctx hctx
  rfl

end Engine

namespace Project

/-- The block of `f` is rendered by the built-in transform, and its reference leads from the directory
of `f` to the other file `g`. -/
structure Inlines (p : Project) (disk : Disk) (f g : FileResult) (b : Block) (src : String) : Prop where
  block : b ∈ f.blocks
  builtin : ∃ name, b.transform = some name ∧ p.registry.get? name = some (Inline.transform disk)
  refers : b.src? = some src
  target : ((f.path.parent?.getD f.path).join ⟨src⟩).normalize.same g.path = true
  other : g.path.same f.path = false

/-- The built-in transform is shown the block of `f`, and the text that it starts from is `text`. -/
def StartsFrom (disk : Disk) (calls : List Context) (f : FileResult) (b : Block) (src text : String) :
    Prop :=
  (∃ ctx ∈ calls, ctx.srcPath = f.path ∧ ctx.block = b) ∧
    ∀ ctx ∈ calls, ctx.srcPath = f.path → ctx.block = b →
      Inline.contents disk ctx (Inline.source ctx src) = .ok text

variable {p : Project} {disk : Disk} {sources : List Source} {settings : Value}
  {outcome : ScanOutcome} {order : List Path} {r : RunResult} {calls : List Context}
  {log : List FileRun}

/-- The scan and the transform resolve a reference without a scheme in the same way. -/
lemma target?_eq {file path : Path} (h : file.same path = true) (hparent : path.parent? ≠ none)
    {src : String} (hscheme : Text.hasPiece [':', '/', '/'] src.toList = false) :
    Dependency.target? (file.parent?.getD ⟨""⟩) src = some (Inline.target path src) := by
  rw [Path.same_comm] at h
  obtain ⟨parent, hp⟩ := Option.ne_none_iff_exists'.1 hparent
  obtain ⟨parent', hp', -⟩ := Path.parent?_congr h hp
  rw [Dependency.target?, hscheme, ← Inline.target_congr h hparent, Inline.target, hp']
  rfl

lemma dependsOn_of_target (hscan : p.scan sources = .ok outcome) {item other : FileItem}
    (hitem : item ∈ outcome.items) (hother : other ∈ outcome.items) {path : Path}
    (hid : item.id.same path = true) (hparent : path.parent? ≠ none) {b : Block}
    (hb : b ∈ item.blocks) {src : String} (hsrc : b.src? = some src)
    (hscheme : Text.hasPiece [':', '/', '/'] src.toList = false)
    (htarget : (Inline.target path src).same other.id = true) (hne : other.id.same path = false) :
    Dependency.DependsOn (FileItem.edges outcome.items) path other.id := by
  have hne' : other.id.same item.id = false := by
    refine Bool.eq_false_iff.2 fun heq => ?_
    rw [Path.same_trans heq hid] at hne
    simp at hne
  exact (dependsOn_of_reference hscan hitem hother hb hsrc (target?_eq hid hparent hscheme) htarget
    hne').congr hid (Path.same_self _)

lemma IsJob.parent?_ne_none (happart : Path.Apart (sources.map Source.path))
    (hparent : ∀ s ∈ sources, s.path.parent? ≠ none) (hscan : p.scan sources = .ok outcome)
    {item : FileItem} {job : Job} (hjob : p.IsJob sources outcome.items item job) :
    job.srcPath.parent? ≠ none := by
  obtain ⟨s, hs, hsame, -⟩ := hjob.source happart hscan
  obtain ⟨parent, hp⟩ := Option.ne_none_iff_exists'.1 (hparent s hs)
  obtain ⟨parent', hp', -⟩ := Path.parent?_congr hsame hp
  rw [hp']
  simp

/-- Past the texts of earlier files the transform reads from the disk. -/
lemma contents_eq_ok_iff {ctx : Context} {path : Path} {text : String} :
    Inline.contents disk ctx path = .ok text ↔ ctx.processed.get? path = some text ∨
      ctx.processed.get? path = none ∧ disk.read path = .ok text := by
  unfold Inline.contents
  cases ctx.processed.get? path with
  | some text' => simp
  | none => cases disk.read path <;> simp

namespace RunsTo

variable (hr : p.RunsTo sources settings outcome order r calls log)
include hr

/-- What a block of a file without a scheme in its reference refers to is rendered before the file. -/
lemma before_of_reference (happart : Path.Apart (sources.map Source.path))
    (hparent : ∀ s ∈ sources, s.path.parent? ≠ none) {f g : FileRun} (hf : f ∈ log) (hg : g ∈ log)
    {b : Block} (hb : b ∈ f.job.blocks) {src : String} (hsrc : b.src? = some src)
    (hscheme : Text.hasPiece [':', '/', '/'] src.toList = false)
    (htarget : (Inline.target f.job.srcPath src).same g.job.srcPath = true)
    (hother : g.job.srcPath.same f.job.srcPath = false) :
    ∃ before after, log = before ++ f :: after ∧ g ∈ before := by
  have hjobf := hr.renders.jobs f hf
  obtain ⟨hitemf, hidf⟩ := item?_eq_some hjobf.item_eq
  obtain ⟨hitemg, hidg⟩ := item?_eq_some (hr.renders.jobs g hg).item_eq
  have hidg' : g.job.srcPath.same g.item.id = true := by rwa [Path.same_comm]
  have hne : g.item.id.same f.job.srcPath = false := by
    refine Bool.eq_false_iff.2 fun heq => ?_
    rw [Path.same_trans hidg' heq] at hother
    simp at hother
  have hedge := dependsOn_of_target hr.scan_eq hitemf hitemg hidf
    (hjobf.parent?_ne_none happart hparent hr.scan_eq) (hjobf.blocks ▸ hb) hsrc hscheme
    (Path.same_trans htarget hidg') hne
  exact before_of_precedes (Dependency.executionOrder_apart hr.order_eq) hr.renders.sublist hf hg
    (Dependency.executionOrder_precedes hr.order_eq (hedge.congr (Path.same_self _) hidg))

lemma mem_blocks_of_builtin (happart : Path.Apart (sources.map Source.path)) {f : FileRun} (hf : f ∈ log)
    {b : Block} (hb : b ∈ f.result.blocks) {name : String} (hname : b.transform = some name)
    (hbuiltin : p.registry.get? name = some (Inline.transform disk)) :
    (p.engine settings).registry.get? name ≠ none ∧ b ∈ f.job.blocks := by
  have hjob := hr.renders.jobs f hf
  have hregistered : (p.engine settings).registry.get? name ≠ none := by
    rw [engine, hbuiltin]
    simp
  exact ⟨hregistered, FileRun.mem_blocks_of_registered (hjob.scan_eq happart hr.scan_eq) hjob.blocks
    (hr.renders.runs f hf) hb hname hregistered⟩

/-- The text that a block starts from is told by what is at hand for its file. -/
lemma startsFrom_iff (happart : Path.Apart (sources.map Source.path)) {f : FileRun} (hf : f ∈ log)
    {b : Block} {src : String} (hb : b ∈ f.result.blocks)
    (hbuiltin : ∃ name, b.transform = some name ∧ p.registry.get? name = some (Inline.transform disk))
    {text : String} : StartsFrom disk calls f.result b src text ↔
      f.job.processed.get? (Inline.target f.job.srcPath src) = some text ∨
        f.job.processed.get? (Inline.target f.job.srcPath src) = none ∧
          disk.read (Inline.target f.job.srcPath src) = .ok text := by
  have hscan := (hr.renders.jobs f hf).scan_eq happart hr.scan_eq
  have hrun := hr.renders.runs f hf
  obtain ⟨name, hname, hbuiltin⟩ := hbuiltin
  obtain ⟨hregistered, hb⟩ := hr.mem_blocks_of_builtin happart hf hb hname hbuiltin
  have hcontents {ctx : Context} (hctx : ctx ∈ calls) (hpath : ctx.srcPath = f.job.srcPath) :
      Inline.contents disk ctx (Inline.source ctx src) = .ok text ↔
        f.job.processed.get? (Inline.target f.job.srcPath src) = some text ∨
          f.job.processed.get? (Inline.target f.job.srcPath src) = none ∧
            disk.read (Inline.target f.job.srcPath src) = .ok text := by
    obtain ⟨f', hflog', hctx⟩ := hr.mem_calls_iff.1 hctx
    have hscan' := (hr.renders.jobs f' hflog').scan_eq happart hr.scan_eq
    obtain ⟨hpath', -⟩ := Engine.run_contexts hscan' (hr.renders.runs f' hflog') ctx hctx
    obtain rfl : f' = f := hr.apart.eq_of_same hflog' hf (by
      rw [← hpath', hpath]
      exact Path.same_self _)
    rw [contents_eq_ok_iff, Inline.source_eq, hpath,
      Engine.processed_of_mem_calls hscan hrun ctx hctx]
  constructor
  · rintro ⟨⟨ctx, hctx, hpath, hblock⟩, hstarts⟩
    exact (hcontents hctx hpath).1 (hstarts ctx hctx hpath hblock)
  · intro h
    refine ⟨?_, fun ctx hctx hpath _ => (hcontents hctx hpath).2 h⟩
    obtain ⟨ctx, hctx, hshown⟩ := Engine.exists_context hscan hrun hb hname hregistered
    exact ⟨ctx, hr.mem_calls_iff.2 ⟨f, hf, hctx⟩, hshown⟩

lemma precedes_of_processed {f g : FileRun} (hf : f ∈ log) {path : Path}
    (hsame : g.job.srcPath.same path = true) (h : f.job.processed.get? path ≠ none) :
    Dependency.Precedes (r.files.map FileResult.path) g.job.srcPath f.job.srcPath := by
  obtain ⟨text, hget⟩ := Option.ne_none_iff_exists'.1 h
  obtain ⟨before, after, hlog⟩ := List.append_of_mem hf
  obtain ⟨g', hg', hsame', -⟩ := hr.exists_before_of_processed hlog hget
  rw [Path.same_comm] at hsame
  rw [hr.files_eq, List.map_map]
  exact ⟨before.map fun g => g.job.srcPath, f.job.srcPath, after.map fun g => g.job.srcPath,
    by rw [hlog, List.map_append]; rfl, Path.same_self _, g'.job.srcPath, List.mem_map_of_mem hg',
    Path.same_trans hsame' hsame⟩

lemma processed_of_precedes {f g : FileRun} (hf : f ∈ log) (hg : g ∈ log) {path : Path}
    (hsame : g.job.srcPath.same path = true)
    (h : Dependency.Precedes (r.files.map FileResult.path) g.job.srcPath f.job.srcPath) :
    f.job.processed.get? path = some g.outcome.updated := by
  rw [hr.files_eq, List.map_map] at h
  obtain ⟨before, after, hlog, hbefore⟩ :=
    before_of_precedes hr.apart (List.Sublist.refl _) hf hg h
  exact hr.processed_of_before hlog hbefore hsame

end RunsTo

/-- A block that inlines another file starts from the final text of that file exactly if its reference has
no scheme, the other file is rendered earlier, or that text already stands on the disk. -/
theorem inlines_final_text (happart : Path.Apart (sources.map Source.path))
    (hparent : ∀ s ∈ sources, s.path.parent? ≠ none) (h : p.run sources = .ok (r, calls))
    {f g : FileResult} (hf : f ∈ r.files) (hg : g ∈ r.files) {b : Block} {src : String}
    (hinlines : p.Inlines disk f g b src) :
    StartsFrom disk calls f b src g.updated ↔
      Text.hasPiece [':', '/', '/'] src.toList = false ∨
        Dependency.Precedes (r.files.map FileResult.path) g.path f.path ∨
          disk.read (Inline.target f.path src) = .ok g.updated := by
  obtain ⟨settings, outcome, order, log, hr⟩ := run_stages h
  obtain ⟨f, hflog, rfl⟩ := hr.exists_of_mem_files hf
  obtain ⟨g, hglog, rfl⟩ := hr.exists_of_mem_files hg
  have htarget : g.job.srcPath.same (Inline.target f.job.srcPath src) = true :=
    (Path.same_comm ..).trans hinlines.target
  rw [hr.startsFrom_iff happart hflog hinlines.block hinlines.builtin]
  constructor
  · rintro (hget | ⟨-, hread⟩)
    · exact .inr (.inl (hr.precedes_of_processed hflog htarget (by rw [hget]; simp)))
    · exact .inr (.inr hread)
  · rintro (hscheme | hprecedes | hread)
    · obtain ⟨name, hname, hbuiltin⟩ := hinlines.builtin
      obtain ⟨-, hb⟩ := hr.mem_blocks_of_builtin happart hflog hinlines.block hname hbuiltin
      obtain ⟨before, after, hlog, hbefore⟩ := hr.before_of_reference happart hparent hflog hglog hb
        hinlines.refers hscheme hinlines.target hinlines.other
      exact .inl (hr.processed_of_before hlog hbefore htarget)
    · exact .inl (hr.processed_of_precedes hflog hglog htarget hprecedes)
    · -- a text that is at hand is the final one, whatever stands on the disk
      by_cases hnone : f.job.processed.get? (Inline.target f.job.srcPath src) = none
      · exact .inr ⟨hnone, hread⟩
      · exact .inl (hr.processed_of_precedes hflog hglog htarget
          (hr.precedes_of_processed hflog htarget hnone))

def inlining (disk : Disk) : Project where
  root := ⟨"/"⟩
  config := { Config.standard with openWord := "a", closeWord := "z" }
  registry := (builtinRegistry disk).register "x" fun _ => .ok (some "1")
  middleware := []

lemma builtin_inlining (disk : Disk) :
    (inlining disk).registry.get? Inline.name = some (Inline.transform disk) := rfl

/-- A file that inlines another one, which comes after it among the sources. -/
theorem inlines_final_text_two_files :
    let p := inlining Disk.empty
    let sources : List Source := [⟨⟨"/a.c"⟩, "/*a FILE src=b.c*//*z*/"⟩, ⟨⟨"/b.c"⟩, "/*a x*/0/*z*/"⟩]
    ∃ r calls, p.run sources = .ok (r, calls) ∧ ∃ f ∈ r.files, ∃ g ∈ r.files, ∃ b,
      p.Inlines Disk.empty f g b "b.c" ∧ g.updated = "/*a x*/1/*z*/" ∧
        StartsFrom Disk.empty calls f b "b.c" g.updated := by
  intro p sources
  obtain ⟨⟨r, calls⟩, hrun, f, hf, g, hg, b, hb, hname, hsrc, htarget, hother, hupdated⟩ :
      ∃ x ∈ (p.run sources).toOption, ∃ f ∈ x.1.files, ∃ g ∈ x.1.files, ∃ b ∈ f.blocks,
        b.transform = some Inline.name ∧ b.src? = some "b.c" ∧
        ((f.path.parent?.getD f.path).join ⟨"b.c"⟩).normalize.same g.path = true ∧
        g.path.same f.path = false ∧ g.updated = "/*a x*/1/*z*/" := by decide +kernel
  have hok := eq_ok_of_toOption hrun
  have hinlines : p.Inlines Disk.empty f g b "b.c" :=
    ⟨hb, ⟨_, hname, builtin_inlining _⟩, hsrc, htarget, hother⟩
  exact ⟨r, calls, hok, f, hf, g, hg, b, hinlines, hupdated,
    (inlines_final_text (by unfold Path.Apart; decide +kernel) (by decide +kernel) hok hf hg hinlines).2
      (.inl (by decide +kernel))⟩

/-- A reference with a scheme in it that leads to a file of the project: the transform starts from the
text that stands on the disk, not from the final one. -/
theorem inlines_stale_text :
    let disk : Disk := ⟨[(["b.c"], .file "/*a x*/0/*z*/".toUTF8)], []⟩
    let p := inlining disk
    let sources : List Source :=
      [⟨⟨"/a.c"⟩, "/*a FILE src='x://../b.c'*//*z*/"⟩, ⟨⟨"/b.c"⟩, "/*a x*/0/*z*/"⟩]
    ∃ r calls, p.run sources = .ok (r, calls) ∧ ∃ f ∈ r.files, ∃ g ∈ r.files, ∃ b,
      p.Inlines disk f g b "x://../b.c" ∧ g.updated ≠ "/*a x*/0/*z*/" ∧
        ∃ ctx ∈ calls, ctx.srcPath = f.path ∧ ctx.block = b ∧
          Inline.contents disk ctx (Inline.source ctx "x://../b.c") = .ok "/*a x*/0/*z*/" := by
  intro disk p sources
  obtain ⟨⟨r, calls⟩, hrun, f, hf, g, hg, b, hb, hname, hsrc, htarget, hother, hupdated,
      ctx, hctx, hpath, hblock, hcontents⟩ :
      ∃ x ∈ (p.run sources).toOption, ∃ f ∈ x.1.files, ∃ g ∈ x.1.files, ∃ b ∈ f.blocks,
        b.transform = some Inline.name ∧ b.src? = some "x://../b.c" ∧
        ((f.path.parent?.getD f.path).join ⟨"x://../b.c"⟩).normalize.same g.path = true ∧
        g.path.same f.path = false ∧ g.updated ≠ "/*a x*/0/*z*/" ∧
        ∃ ctx ∈ x.2, ctx.srcPath = f.path ∧ ctx.block = b ∧
          (Inline.contents disk ctx (Inline.source ctx "x://../b.c")).toOption =
            some "/*a x*/0/*z*/" := by decide +kernel
  exact ⟨r, calls, eq_ok_of_toOption hrun, f, hf, g, hg, b,
    ⟨hb, ⟨_, hname, builtin_inlining _⟩, hsrc, htarget, hother⟩, hupdated, ctx, hctx, hpath, hblock,
    eq_ok_of_toOption hcontents⟩

end Project

end CommentBlocks
