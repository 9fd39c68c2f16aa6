import CommentBlocks.Proofs.Render.Again
import CommentBlocks.Proofs.Render.Bare

/-!
Taking the indentation off a text gives back what was indented.

Both go line by line. A line that is not blank gets the indentation and loses it again. A blank line is
left as it is when the text is indented, but loses the indentation if it starts with it: the two are
inverse exactly if the text has no such line. Over a run and the scan of its text this says when a
transform is shown what it gave before.
-/

namespace CommentBlocks

open TagPattern (AllSpace closesBlock)
open Text (splitAt joinWith trim after? dropBytes)
open Unicode (isFiller)

/-! ### Line by line -/

namespace Layout

/-- No blank line of the text starts with the indentation, if there is any. -/
def Restored (indentation text : List Char) : Prop :=
  indentation ≠ [] → ∀ line ∈ splitAt '\n' text, trim line = [] → ¬ indentation <+: line

instance (indentation text : List Char) : Decidable (Restored indentation text) :=
  inferInstanceAs (Decidable (_ → ∀ line ∈ _, _ → _))

variable {indentation : List Char}

def dedentLine (indentation line : List Char) : List Char := (after? indentation line).getD line

lemma dedentLine_append (indentation line : List Char) :
    dedentLine indentation (indentation ++ line) = line := by
  rw [dedentLine, Text.after?_eq_some_iff.2 rfl]
  rfl

lemma dedentLine_eq_self_iff (h : indentation ≠ []) {line : List Char} :
    dedentLine indentation line = line ↔ ¬ indentation <+: line := by
  constructor
  · rintro hline ⟨rest, rfl⟩
    rw [dedentLine_append] at hline
    exact h (List.self_eq_append_left.1 hline)
  · intro hline
    rw [dedentLine]
    cases hafter : after? indentation line with
    | none => rfl
    | some rest => exact absurd ⟨rest, (Text.after?_eq_some_iff.1 hafter).symm⟩ hline

lemma dedentLine_indentLine_iff (h : indentation ≠ []) {line : List Char} :
    dedentLine indentation (indentLine indentation line) = line ↔
      (trim line = [] → ¬ indentation <+: line) := by
  rw [indentLine]
  by_cases hblank : trim line = []
  · simpa [hblank] using dedentLine_eq_self_iff h
  · simpa [hblank] using dedentLine_append indentation line

lemma indent_eq_joinWith (h : indentation ≠ []) (content : List Char) :
    indent indentation content true =
      joinWith ['\n'] ((splitAt '\n' content).map (indentLine indentation)) := by
  obtain ⟨first, others, hsplit⟩ := List.exists_cons_of_ne_nil (Text.splitAt_ne_nil '\n' content)
  rw [indent, if_neg (by simpa using h), hsplit]
  rfl

lemma lineFeed_not_mem_indentLine (h : '\n' ∉ indentation) {line : List Char} (hline : '\n' ∉ line) :
    '\n' ∉ indentLine indentation line := by
  rw [indentLine]
  split
  · exact hline
  · simp [h, hline]

lemma lineFeed_not_mem_dedentLine {line : List Char} (hline : '\n' ∉ line) :
    '\n' ∉ dedentLine indentation line := by
  rw [dedentLine]
  cases hafter : after? indentation line with
  | none => exact hline
  | some rest =>
    rw [Text.after?_eq_some_iff.1 hafter] at hline
    exact fun h => hline (List.mem_append_right _ h)

/-- Taking the indentation off an indented text goes line by line. -/
lemma dedent_indent (h : indentation ≠ []) (hbreak : '\n' ∉ indentation) (content : List Char) :
    dedent indentation (indent indentation content true) = joinWith ['\n']
      ((splitAt '\n' content).map fun line =>
        dedentLine indentation (indentLine indentation line)) := by
  have hlines : ∀ line ∈ (splitAt '\n' content).map (indentLine indentation), '\n' ∉ line :=
    List.forall_mem_map.2 fun line hline =>
      lineFeed_not_mem_indentLine hbreak (Text.not_mem_of_mem_splitAt hline)
  rw [dedent, if_neg (by simpa using h), indent_eq_joinWith h,
    Text.splitAt_joinWith (by simpa using Text.splitAt_ne_nil '\n' content) hlines, List.map_map]
  rfl

/-- It gives the text back exactly if no blank line of the text starts with the indentation. -/
theorem dedent_indent_iff (hbreak : '\n' ∉ indentation) (content : List Char) :
    dedent indentation (indent indentation content true) = content ↔
      Restored indentation content := by
  by_cases h : indentation = []
  · subst h
    simp [dedent, indent, Restored]
  rw [dedent_indent h hbreak, Restored, imp_iff_right h,
    Text.joinWith_map_splitAt_eq_iff fun line hline => lineFeed_not_mem_dedentLine
      (lineFeed_not_mem_indentLine hbreak (Text.not_mem_of_mem_splitAt hline))]
  exact forall₂_congr fun line _ => dedentLine_indentLine_iff h

end Layout

/-! ### In a block -/

def Block.inner (b : Block) : List Char :=
  Layout.dedent b.span.indentation.toList b.content.value.toList

namespace Layout

/-- The text starts on a line of its own, without the white space around it, and holds no opening
delimiter. -/
structure Reindents (v : Vocabulary) (b : Block) (text : List Char) : Prop where
  opened : endsLine b.openTag.value.toList = true
  trims : b.flag "noTrim" = false
  bare : ¬ v.commentOpen.toList <:+: text

instance (v : Vocabulary) (b : Block) (text : List Char) : Decidable (Reindents v b text) :=
  decidable_of_iff (endsLine b.openTag.value.toList = true ∧ b.flag "noTrim" = false ∧
    ¬ v.commentOpen.toList <:+: text) ⟨fun h => ⟨h.1, h.2.1, h.2.2⟩, fun h => ⟨h.1, h.2, h.3⟩⟩

lemma head?_of_startsWithBreak {cs : List Char} (h : startsWithBreak cs = true) :
    cs.head? = some '\n' ∨ cs.head? = some '\r' := by
  unfold startsWithBreak at h
  split at h
  · exact .inl rfl
  · exact .inr rfl
  · exact absurd h (by decide)

lemma startsWithBreak_append {cs : List Char} (h : startsWithBreak cs = true) (rest : List Char) :
    startsWithBreak (cs ++ rest) = true := by
  unfold startsWithBreak at h
  split at h
  · rfl
  · rfl
  · exact absurd h (by decide)

variable {v : Vocabulary} {b : Block} {text : List Char}

lemma insertion_ends (hm : b.context.isMultiline = true)
    (ho : endsLine b.openTag.value.toList = true) : insertion v b text = [] ∨
      endsLine (insertion v b text) = true ∨ startsWithBreak b.closeTag.value.toList = true := by
  rw [insertion_multiline hm, breakBefore, if_pos ho, List.nil_append, breakAfter]
  split
  · next h =>
    rw [List.append_nil]
    rcases h with h | h | h
    · exact .inr (.inr h)
    · exact .inl ((indent_eq_nil_iff _ _).2 h)
    · exact .inr (.inl (by rw [endsLine, getLast?_lines, h]; rfl))
  · exact .inr (.inl (by simp [endsLine]))

end Layout

/-- A delimiter on one line that does not stand in a text does not reach over the end of it, when a line
ends there. -/
lemma TagPattern.not_startsIn_of_lines {p : TagPattern} (hn : '\n' ∉ p.opening)
    (hr : '\r' ∉ p.opening) {new tail : List Char} (hnew : ¬ p.opening <:+: new)
    (hend : new = [] ∨ Layout.endsLine new = true ∨ Layout.startsWithBreak tail = true) :
    ¬ p.StartsIn new tail := by
  intro hstarts
  rcases hstarts.opening_cases with hin | ⟨s, z, hs, hz, hsplit, ⟨front, rfl⟩, ⟨rest, rfl⟩⟩
  · exact hnew hin
  rcases hend with h0 | hend | hend
  · exact hs (List.append_eq_nil_iff.1 h0).2
  · rw [Layout.endsLine, beq_iff_eq, List.getLast?_append_of_ne_nil _ hs] at hend
    exact hn (hsplit ▸ List.mem_append_left _ (List.mem_of_getLast? hend))
  · obtain ⟨c, z, rfl⟩ := List.exists_cons_of_ne_nil hz
    have hc : c ∈ p.opening := hsplit ▸ List.mem_append_right _ List.mem_cons_self
    rcases Layout.head?_of_startsWithBreak hend with h | h
    · exact hn (Option.some.inj h ▸ hc)
    · exact hr (Option.some.inj h ▸ hc)

lemma Vocabulary.Plain.opening_line {v : Vocabulary} (h : v.Plain) :
    '\n' ∉ v.commentOpen.toList ∧ '\r' ∉ v.commentOpen.toList := by
  rcases h with ⟨-, hfill⟩ | ⟨hbreak, -⟩
  · exact ⟨fun hm => absurd (hfill _ (List.mem_append_left _ hm)) (by decide),
      fun hm => absurd (hfill _ (List.mem_append_left _ hm)) (by decide)⟩
  · exact hbreak v.commentOpen (by simp)

namespace Block

lemma MadeOf.isMultiline_of_endsLine {b : Block} {p : Scan.Pieces} (h : b.MadeOf p)
    (ho : Layout.endsLine b.openTag.value.toList = true) : b.context.isMultiline = true := by
  have hne : p.openTag ++ p.openEnd ≠ [] := List.append_ne_nil_of_left_ne_nil h.openTag_ne_nil _
  rw [Layout.endsLine, beq_iff_eq, h.open_value, Scan.Pieces.openText, List.append_assoc,
    List.getLast?_append_of_ne_nil _ hne] at ho
  rw [h.isMultiline_iff]
  rcases List.mem_append.1 (List.mem_of_getLast? ho) with hm | hm
  · exact .inl hm
  · exact .inr (.inl (List.mem_append_left _ hm))

/-- The next scan finds the trimmed text again, without the indentation, exactly if taking that off
undoes putting it on. -/
lemma Refilled.inner_eq_iff {v : Vocabulary} {b b' : Block} {p p' : Scan.Pieces} {text : List Char}
    (h : b.Refilled (Layout.insertion v b text) b' p p') (hn : b.transform ≠ none)
    (hspace : AllSpace b.span.indentation.toList) (ht : Layout.Reindents v b text) :
    b'.inner = trim text ↔ Layout.Restored b.span.indentation.toList (trim text) := by
  have hm := h.before.isMultiline_of_endsLine ht.opened
  have hsettled := (Layout.settled_of_bare_iff ht.trims ht.bare).2 fun hm' => by
    rw [hm] at hm'
    exact absurd hm' (by decide)
  rw [Layout.Settled, if_pos hm] at hsettled
  obtain ⟨hcontent, -⟩ := h.content_eq_lines hn hm hsettled
  rw [inner, hcontent, h.indentation_eq, Layout.lines, Layout.body_of_bare ht.trims ht.bare]
  exact Layout.dedent_indent_iff hspace.not_mem _

end Block

namespace Scan

variable {v : Vocabulary} {index : Nat} {contents behind ahead : List Char} {blocks : List Block}
  (h : Scanned v (Text.lineStarts contents) index behind ahead blocks)
  (hcontents : contents = behind.reverse ++ ahead)
include h hcontents

lemma Scanned.exists_madeOf (hv : v.Steady) : ∀ b ∈ blocks, ∃ p, b.MadeOf p := by
  intro b hb
  obtain ⟨behind', ahead', c, index', options, htext, rfl⟩ := h.exists_cut b hb
  rw [hcontents, ← htext]
  exact ⟨_, c.madeOf hv behind' index' c.header options⟩

lemma Scanned.dropBytes_stop : ∀ b ∈ blocks, ∃ rest,
    dropBytes b.content.stop contents = b.closeTag.value.toList ++ rest := by
  intro b hb
  obtain ⟨behind', ahead', c, index', options, htext, rfl⟩ := h.exists_cut b hb
  have hstop := c.dropBytes_stop behind'
  rw [htext, ← hcontents] at hstop
  exact ⟨c.close.after, by simpa [Pieces.toBlock, Pieces.closeText, Cut.pieces] using hstop⟩

/-- No close tag starts in a text that is put between an open tag that ends its line and the close tag,
unless the text holds the opening delimiter. -/
lemma Scanned.not_startsIn_of_reindents (hv : v.Plain)
    (hw : ∀ d ∈ v.commentOpen.toList.head?, isFiller d = false) {b : Block} (hb : b ∈ blocks)
    {text : List Char} (ht : Layout.Reindents v b text) :
    ¬ (closesBlock v).StartsIn (Layout.insertion v b text)
      (dropBytes b.content.stop contents) := by
  obtain ⟨p, hp⟩ := h.exists_madeOf hcontents hv.steady b hb
  obtain ⟨rest, hrest⟩ := h.dropBytes_stop hcontents b hb
  have hopening : (closesBlock v).opening = v.commentOpen.toList := rfl
  refine TagPattern.not_startsIn_of_lines hv.opening_line.1 hv.opening_line.2 ?_ ?_
  · rw [hopening]
    exact Layout.not_infix_insertion ht.trims ht.bare hw hv.opening_line.1
      fun d hd => Unicode.isFiller_of_isSpace (h.allSpace_indentation b hb d hd)
  · rw [hrest]
    exact (Layout.insertion_ends (hp.isMultiline_of_endsLine ht.opened) ht.opened).imp_right
      (Or.imp_right fun hc => Layout.startsWithBreak_append hc rest)

end Scan

/-! ### Over a run -/

namespace Engine

variable {e : Engine} {job : Job} {calls : List Context}

lemma Edited.content_eq {edits : List (Block × List Char)} (hed : e.Edited job calls edits)
    {b : Block} (hb : job.blocks[b.index]? = some b) {ctx : Context} (hctx : ctx ∈ calls)
    (hindex : ctx.block.index = b.index) :
    ctx.content.toList = Middleware.applyBefore e.middleware b b.inner := by
  obtain ⟨i, b', new, name, hi, -, rfl⟩ := hed.shown ctx hctx
  have hi' := hed.getElem?_block hi
  obtain rfl : i = b.index := (hed.index i b' hi').symm.trans hindex
  obtain rfl := Option.some.inj (hb.symm.trans hi')
  exact String.toList_ofList

/-- A run that puts a text on lines of its own in a block and the scan after it: the block has the
trimmed text inside exactly if no blank line of it starts with the indentation. The inside is what the
next run shows to the transform. -/
theorem run_inner_iff (hv : job.vocabulary.Plain)
    (hw : ∀ d ∈ job.vocabulary.commentOpen.toList.head?, isFiller d = false)
    (hscan : Block.scan job.vocabulary job.contents = .ok job.blocks) {o : Outcome}
    (h : e.run job = .ok (o, calls))
    (hfree : ∀ ctx ∈ calls, ∀ text, e.rendered? ctx = some text →
      Layout.Reindents job.vocabulary ctx.block text ∨
        ¬ (closesBlock job.vocabulary).StartsIn (Layout.insertion job.vocabulary ctx.block text)
          (dropBytes ctx.block.content.stop job.contents.toList)) :
    ∃ blocks', Block.scan job.vocabulary o.updated = .ok blocks' ∧
      List.Forall₂ Block.SameHeader job.blocks blocks' ∧
      ∀ ctx ∈ calls, ∀ text, e.rendered? ctx = some text →
        Layout.Reindents job.vocabulary ctx.block text →
        ∃ b', blocks'[ctx.block.index]? = some b' ∧
          (b'.inner = trim text ↔
            Layout.Restored ctx.block.span.indentation.toList (trim text)) ∧
          ∀ (e' : Engine) (job' : Job) (o' : Outcome) (calls' : List Context),
            job'.contents = o.updated → job'.blocks = blocks' → e'.run job' = .ok (o', calls') →
            ∀ ctx' ∈ calls', ctx'.block.index = ctx.block.index →
              ctx'.content.toList = Middleware.applyBefore e'.middleware b' b'.inner := by
  obtain ⟨edits, hed, hupdated⟩ := run_edited hscan h
  have hs := Scan.scan_eq_ok_iff.1 hscan
  have hinserted : ∀ ctx ∈ calls, ∀ new, e.inserted? job.vocabulary ctx = some new →
      ¬ (closesBlock job.vocabulary).StartsIn new
        (dropBytes ctx.block.content.stop job.contents.toList) := by
    intro ctx hctx new hnew
    obtain ⟨text, htext, rfl⟩ := Option.map_eq_some_iff.1 hnew
    rcases hfree ctx hctx text htext with ht | hnone
    · exact hs.not_startsIn_of_reindents rfl hv hw (hed.mem_blocks hctx) ht
    · exact hnone
  obtain ⟨blocks', hscan', hrefilled, hheader⟩ :=
    hed.refilled hv.steady hscan ((hed.free_iff hs).2 hinserted) hupdated
  refine ⟨blocks', hscan', hheader, fun ctx hctx text htext ht => ?_⟩
  have hspace := hs.allSpace_indentation ctx.block (hed.mem_blocks hctx)
  obtain ⟨i, b, new, name, hi, hb, rfl⟩ := hed.shown ctx hctx
  have hnew : new = Layout.insertion job.vocabulary b text := by
    have := (hed.gives i b new hi).eq_getD hb
    rwa [inserted?, htext, Option.map_some, Option.getD_some] at this
  obtain ⟨b', hb', p, p', hr⟩ := exists_getElem?_right hrefilled hi
  have hindex : b.index = i := hed.index i b (hed.getElem?_block hi)
  subst hnew hindex
  refine ⟨b', hb', hr.inner_eq_iff (by simp [hb]) hspace ht, ?_⟩
  intro e' job' o' calls' hcontents hblocks h' ctx' hctx' hindex'
  subst hblocks
  obtain ⟨edits', hed', -⟩ := run_edited (hcontents ▸ hscan') h'
  exact hed'.content_eq (hr.index ▸ hb') hctx' (hindex'.trans hr.index.symm)

/-- An empty line and a line with more indentation come back. -/
theorem run_inner_iff_three_lines :
    let job := Job.ofText (.ofDelimiters "a" "z" .cStyle) "\t/* a x */\n\t1\n\t/* z */"
    let e : Engine := ⟨⟨[("x", fun _ => .ok (some " 2\n\n\t3 "))]⟩, [], .null⟩
    ∃ o calls, e.run job = .ok (o, calls) ∧
      o.updated = "\t/* a x */\n\t2\n\n\t\t3\n\t/* z */" ∧
      ∃ blocks', Block.scan job.vocabulary o.updated = .ok blocks' ∧
        ∃ b', blocks'[0]? = some b' ∧ b'.inner = "2\n\n\t3".toList := by
  intro job e
  have hscan : Block.scan job.vocabulary job.contents = .ok job.blocks :=
    Job.scan_ofText (by decide +kernel)
  have hrun : (e.run job).toOption.map (fun r => (r.1.updated, r.2.map fun ctx =>
      (e.rendered? ctx, ctx.block.index,
        decide (Layout.Reindents job.vocabulary ctx.block " 2\n\n\t3 ".toList ∧
          Layout.Restored ctx.block.span.indentation.toList (trim " 2\n\n\t3 ".toList))))) =
      some ("\t/* a x */\n\t2\n\n\t\t3\n\t/* z */", [(some " 2\n\n\t3 ".toList, 0, true)]) := by
    decide +kernel
  obtain ⟨⟨o, calls⟩, hok, hshown⟩ := Option.map_eq_some_iff.1 hrun
  obtain ⟨hupdated, hcalls⟩ := Prod.mk.inj hshown
  obtain ⟨ctx, rfl, hctx⟩ := List.map_eq_singleton_iff.1 hcalls
  simp only [Prod.mk.injEq, decide_eq_true_eq] at hctx
  obtain ⟨hrendered, hindex, hreindents, hrestored⟩ := hctx
  have hstyle : Delimiters.cStyle.IsBuiltIn := .inr (.inl rfl)
  obtain ⟨blocks', hscan', -, hinner⟩ := run_inner_iff (hstyle.plain "a" "z")
    (fun d hd => hstyle.isSign.isFiller_eq_false d (List.mem_of_mem_head? hd)) hscan
    (eq_ok_of_toOption hok) (List.forall_mem_singleton.2 fun text htext => by
      obtain rfl := Option.some.inj (hrendered.symm.trans htext)
      exact .inl hreindents)
  obtain ⟨b', hb', hiff, -⟩ := hinner ctx (List.mem_singleton_self _) _ hrendered hreindents
  rw [hindex] at hb'
  refine ⟨o, [ctx], eq_ok_of_toOption hok, hupdated, blocks', hscan', b', hb', ?_⟩
  rw [hiff.2 hrestored]
  decide +kernel

/-- The indentation is taken off a line of blanks that did not get it. -/
theorem run_inner_of_blank_line :
    let job := Job.ofText .standard "  <!-- doc-gen x -->\n  old\n  <!-- end-doc-gen -->"
    let e : Engine := ⟨⟨[("x", fun _ => .ok (some "a\n    \nb"))]⟩, [], .null⟩
    ∃ o ctx, e.run job = .ok (o, [ctx]) ∧ e.rendered? ctx = some "a\n    \nb".toList ∧
      Layout.Reindents job.vocabulary ctx.block "a\n    \nb".toList ∧
      Layout.startsWithBreak ctx.block.closeTag.value.toList = true ∧
      ∃ b', Block.scan job.vocabulary o.updated = .ok [b'] ∧
        b'.inner = "a\n  \nb".toList ∧ b'.inner ≠ trim "a\n    \nb".toList := by
  intro job e
  have hrun : (e.run job).toOption.map (fun r => (r.2.map fun ctx =>
      (e.rendered? ctx, decide (Layout.Reindents job.vocabulary ctx.block "a\n    \nb".toList),
        Layout.startsWithBreak ctx.block.closeTag.value.toList),
      (Block.scan job.vocabulary r.1.updated).toOption.map (List.map Block.inner))) =
      some ([(some "a\n    \nb".toList, true, true)], some ["a\n  \nb".toList]) := by
    decide +kernel
  obtain ⟨⟨o, calls⟩, hok, hshown⟩ := Option.map_eq_some_iff.1 hrun
  obtain ⟨hcalls, hblocks⟩ := Prod.mk.inj hshown
  obtain ⟨ctx, rfl, hctx⟩ := List.map_eq_singleton_iff.1 hcalls
  simp only [Prod.mk.injEq, decide_eq_true_eq] at hctx
  obtain ⟨hrendered, hreindents, hclose⟩ := hctx
  obtain ⟨blocks', hscan', hinner⟩ := Option.map_eq_some_iff.1 hblocks
  obtain ⟨b', rfl, hb'⟩ := List.map_eq_singleton_iff.1 hinner
  refine ⟨o, ctx, eq_ok_of_toOption hok, hrendered, hreindents, hclose, b',
    eq_ok_of_toOption hscan', hb', ?_⟩
  rw [hb']
  decide +kernel

end Engine

end CommentBlocks
