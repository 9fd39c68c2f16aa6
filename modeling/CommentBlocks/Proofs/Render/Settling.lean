import CommentBlocks.Proofs.Render.Indenting
import CommentBlocks.Proofs.Render.Rescan

/-!
Rendering a block twice.

Whether line breaks are put around a text depends on how the block looks, and the text changes how
the block looks. A text is settled in a block when the second run finds between the tags what the
first run has put there and would put there again.
-/

namespace CommentBlocks

open TagPattern (AllSpace HasMark StartsMarked)
open Scan (Pieces IsBreak lineEnd splitLead)

namespace Layout

/-- What a transform gave, without tags, and without white space around it where the block does not
keep that. -/
def body (v : Vocabulary) (b : Block) (rendered : List Char) : List Char :=
  let stripped := v.stripTags rendered
  if b.flag "noTrim" then stripped else Text.trim stripped

/-- In a block on one line, the text has one line. In other blocks it does not end in a line break or
in the start of one, unless the close tag owns such a break. -/
def Settled (v : Vocabulary) (b : Block) (rendered : List Char) : Prop :=
  if b.context.isMultiline then
    ((body v b rendered).getLast? = some '\n' → startsWithBreak b.closeTag.value.toList = true) ∧
      ((body v b rendered).getLast? = some '\r' → ['\r', '\n'] <+: b.closeTag.value.toList)
  else '\n' ∉ body v b rendered

instance (v : Vocabulary) (b : Block) (rendered : List Char) : Decidable (Settled v b rendered) :=
  inferInstanceAs (Decidable (ite _ _ _))

def lines (v : Vocabulary) (b : Block) (rendered : List Char) : List Char :=
  indent b.span.indentation.toList (body v b rendered) true

/-- The line break in front of the text, where the open tag does not end its line. -/
def breakBefore (b : Block) : List Char :=
  if endsLine b.openTag.value.toList then [] else ['\n']

/-- The line break behind the text, where neither the text ends in one nor the close tag starts with
one. -/
def breakAfter (v : Vocabulary) (b : Block) (rendered : List Char) : List Char :=
  if startsWithBreak b.closeTag.value.toList ∨ body v b rendered = [] ∨
    (body v b rendered).getLast? = some '\n' then [] else ['\n']

variable {v : Vocabulary} {b : Block} {rendered : List Char}

lemma body_congr {b' : Block} (h : b'.options = b.options) (v : Vocabulary) (rendered : List Char) :
    body v b' rendered = body v b rendered := by
  unfold body Block.flag
  rw [h]

lemma getLast?_lines : (lines v b rendered).getLast? = (body v b rendered).getLast? :=
  getLast?_indent _ _

lemma insertion_inline (hm : b.context.isMultiline = false)
    (ho : endsLine b.openTag.value.toList = false) :
    insertion v b rendered = indent b.span.indentation.toList (body v b rendered) false := by
  unfold insertion body
  simp [hm, ho]

lemma insertion_multiline (hm : b.context.isMultiline = true) :
    insertion v b rendered =
      breakBefore b ++ (lines v b rendered ++ breakAfter v b rendered) := by
  set text := breakBefore b ++ lines v b rendered with htext
  have hinsert : insertion v b rendered = if !startsWithBreak b.closeTag.value.toList &&
      !text.isEmpty && !endsLine text then text ++ ['\n'] else text := by
    rw [htext]
    unfold insertion breakBefore lines body
    cases ho : endsLine b.openTag.value.toList <;> simp [hm]
  rw [hinsert, ← List.append_assoc, ← htext]
  by_cases hb : body v b rendered = []
  · have htext0 : text.isEmpty = true ∨ endsLine text = true := by
      rw [htext, lines, hb, (indent_eq_nil_iff _ _).2 rfl, breakBefore]
      cases endsLine b.openTag.value.toList
      · exact .inr rfl
      · exact .inl rfl
    rcases htext0 with h | h <;> simp [h, hb, breakAfter]
  · have hlines : lines v b rendered ≠ [] := fun h => hb ((indent_eq_nil_iff _ _).1 h)
    have hempty : text.isEmpty = false := by simp [htext, hlines]
    have hlast : endsLine text = ((body v b rendered).getLast? == some '\n') := by
      rw [endsLine, htext, List.getLast?_append_of_ne_nil _ hlines, getLast?_lines]
    rw [hempty, hlast, breakAfter]
    cases startsWithBreak b.closeTag.value.toList <;>
      by_cases hn : (body v b rendered).getLast? = some '\n' <;> simp [hb, hn]

end Layout

/-! ### The margins of a block -/

namespace Block.MadeOf

variable {b : Block} {p : Pieces}

lemma openEnd_cases (h : b.MadeOf p) : p.openEnd = [] ∨
    ∃ blanks brk, AllSpace blanks ∧ IsBreak brk ∧ p.openEnd = blanks ++ brk := by
  rcases Scan.lineEnd_cases (p.openEnd ++ (p.content ++ p.lead)) with h0 | ⟨blanks, brk, _, hb, hk, _, he⟩
  · left
    rwa [h.openEnd] at h0
  · right
    exact ⟨blanks, brk, hb, hk, by rw [← h.openEnd, he]⟩

lemma lead_cases (h : b.MadeOf p) : AllSpace p.lead ∨
    ∃ brk blanks, IsBreak brk ∧ AllSpace blanks ∧ p.lead = brk ++ blanks := by
  have := Scan.splitLead_cases (p.openTag ++ p.openEnd).reverse (p.content ++ p.lead)
  rwa [h.lead] at this

lemma openTag_ne_nil (h : b.MadeOf p) : p.openTag ≠ [] := by
  obtain ⟨c, hc, -⟩ := h.openMark
  exact List.ne_nil_of_mem hc

lemma closeTag_ne_nil (h : b.MadeOf p) : p.closeTag ≠ [] := by
  obtain ⟨c, hc, -⟩ := h.closeMark.hasMark
  exact List.ne_nil_of_mem hc

lemma endsLine_open (h : b.MadeOf p) (hlast : p.openTag.getLast? ≠ some '\n') :
    Layout.endsLine b.openTag.value.toList = true ↔ p.openEnd ≠ [] := by
  rw [Layout.endsLine, h.open_value, Pieces.openText, beq_iff_eq]
  rcases h.openEnd_cases with h0 | ⟨blanks, brk, -, hk, he⟩
  · rw [h0, List.append_nil, List.getLast?_append_of_ne_nil _ h.openTag_ne_nil]
    simp [hlast]
  · have hne : p.openEnd ≠ [] := by
      rw [he]
      exact List.append_ne_nil_of_right_ne_nil _ hk.ne_nil
    rw [List.getLast?_append_of_ne_nil _ hne, he, List.getLast?_append_of_ne_nil _ hk.ne_nil]
    rcases hk with rfl | rfl <;> simp

lemma startsWithBreak_of_startsMarked {cs : List Char} (h : StartsMarked cs) :
    Layout.startsWithBreak cs = false ∧ ¬ ['\r', '\n'] <+: cs := by
  obtain ⟨front, d, rest, rfl, hf, -, hn, hr⟩ := h
  cases front with
  | nil =>
    refine ⟨?_, ?_⟩
    · simp [Layout.startsWithBreak, hn, hr]
    · simp [Ne.symm hr]
  | cons c front =>
    obtain ⟨hcn, hcr⟩ := TagPattern.isSpace_ne (hf c List.mem_cons_self)
    refine ⟨?_, ?_⟩
    · simp [Layout.startsWithBreak, hcn, hcr]
    · simp [Ne.symm hcr]

lemma not_startsWithBreak (h : b.MadeOf p) (hl : AllSpace p.lead) :
    Layout.startsWithBreak b.closeTag.value.toList = false ∧
      ¬ ['\r', '\n'] <+: b.closeTag.value.toList := by
  rw [h.close_value]
  exact startsWithBreak_of_startsMarked (h.closeMark.prepend hl)

lemma startsWithBreak (h : b.MadeOf p) {brk blanks : List Char} (hk : IsBreak brk)
    (hl : p.lead = brk ++ blanks) : Layout.startsWithBreak b.closeTag.value.toList = true := by
  rw [h.close_value, Pieces.closeText, hl]
  rcases hk with rfl | rfl <;> rfl

lemma isMultiline_iff (h : b.MadeOf p) : b.context.isMultiline = true ↔
    '\n' ∈ p.openTag ∨ '\n' ∈ p.openEnd ++ (p.content ++ p.lead) ∨ '\n' ∈ p.closeTag.dropLast := by
  have hsplit : (p.openTag ++ (p.openEnd ++ (p.content ++ (p.lead ++ p.closeTag)))).dropLast =
      p.openTag ++ ((p.openEnd ++ (p.content ++ p.lead)) ++ p.closeTag.dropLast) := by
    have hassoc : p.openTag ++ (p.openEnd ++ (p.content ++ (p.lead ++ p.closeTag))) =
        (p.openTag ++ (p.openEnd ++ (p.content ++ p.lead))) ++ p.closeTag := by simp
    rw [hassoc, List.dropLast_append_of_ne_nil h.closeTag_ne_nil]
    simp
  rw [h.isMultiline, decide_eq_true_iff, hsplit]
  simp only [List.mem_append]

lemma inline (h : b.MadeOf p) (ho : '\n' ∉ p.openTag)
    (hi : '\n' ∉ p.openEnd ++ (p.content ++ p.lead)) : p.openEnd = [] ∧ p.lead = [] := by
  rw [List.mem_append, not_or] at hi
  have hopen : p.openEnd = [] := by
    rcases h.openEnd_cases with h0 | ⟨blanks, brk, -, hk, he⟩
    · exact h0
    · refine absurd ?_ hi.1
      rw [he]
      rcases hk with rfl | rfl <;> simp
  have hlead := h.lead
  rw [hopen, List.append_nil, Scan.splitLead_mark
    (h.openMark.mono fun c hc => List.mem_reverse.2 hc) (fun hm => ho (List.mem_reverse.1 hm)) hi.2]
    at hlead
  exact ⟨hopen, (Prod.mk.inj hlead).2.symm⟩

end Block.MadeOf

namespace Block.Refilled

open Layout (insertion indent body lines breakBefore breakAfter Settled endsLine startsWithBreak)

variable {v : Vocabulary} {b b' : Block} {p p' : Pieces} {rendered : List Char}
  (h : b.Refilled (insertion v b rendered) b' p p')
include h

lemma body_eq : body v b' rendered = body v b rendered := Layout.body_congr h.options v rendered

lemma indentation_eq : b'.span.indentation.toList = b.span.indentation.toList := by
  rw [h.after.indentation, h.before.indentation, h.indentation]

lemma lines_eq : lines v b' rendered = lines v b rendered := by
  rw [lines, lines, h.body_eq, h.indentation_eq]

/-- The close tag of the second scan owns what is blank at the end of the text between the tags. -/
lemma lead_eq {between : List Char} (hb : p'.content ++ p'.lead = between) :
    splitLead (p'.openTag ++ p'.openEnd).reverse between = (p'.content, p'.lead) := by
  rw [← hb]
  exact h.after.lead

variable (hn : b.transform ≠ none)
include hn

lemma endsLine_open_after : endsLine b'.openTag.value.toList = true ↔ p'.openEnd ≠ [] := by
  have hlast := h.named hn
  exact h.after.endsLine_open (by rwa [h.openTag])

/-! ### Blocks on one line -/

lemma inside_inline (hm : b.context.isMultiline = false) :
    '\n' ∉ p.openTag ∧ '\n' ∉ p.closeTag.dropLast ∧ p'.openEnd ++ (p'.content ++ p'.lead) =
      indent b.span.indentation.toList (body v b rendered) false := by
  have hnone := h.before.isMultiline_iff.not.1 (by simp [hm])
  simp only [not_or] at hnone
  obtain ⟨hopen, hinside, hclose⟩ := hnone
  obtain ⟨hend, hlead⟩ := h.before.inline hopen hinside
  refine ⟨hopen, hclose, ?_⟩
  rw [h.inside, hend, hlead, List.nil_append, List.append_nil]
  refine Layout.insertion_inline hm (Bool.eq_false_iff.2 fun ho => ?_)
  exact (h.before.endsLine_open (h.named hn)).1 ho hend

lemma settled_inline (hm : b.context.isMultiline = false) (hs : '\n' ∉ body v b rendered) :
    insertion v b' rendered = b'.content.value.toList := by
  obtain ⟨hopen, hclose, hinside⟩ := h.inside_inline hn hm
  rw [Layout.indent_inline _ hs] at hinside
  obtain ⟨hend, hlead⟩ := h.after.inline (by rwa [h.openTag]) (by rwa [hinside])
  have hm' : b'.context.isMultiline = false := by
    rw [Bool.eq_false_iff, ne_eq, h.after.isMultiline_iff, h.openTag, h.closeTag, hinside]
    simp [hopen, hs, hclose]
  have ho : endsLine b'.openTag.value.toList = false :=
    Bool.eq_false_iff.2 fun ho => (h.endsLine_open_after hn).1 ho hend
  rw [Layout.insertion_inline hm' ho, h.body_eq, Layout.indent_inline _ hs, h.after.content_value,
    ← hinside, hend, hlead, List.nil_append, List.append_nil]

/-- A text over several lines turns a block on one line into a block over several lines, and then it
gets more line breaks. -/
lemma unsettled_inline (hm : b.context.isMultiline = false) (hs : '\n' ∈ body v b rendered) :
    b'.content.value.toList.length < (insertion v b' rendered).length := by
  obtain ⟨-, -, hinside⟩ := h.inside_inline hn hm
  have hm' : b'.context.isMultiline = true := by
    rw [h.after.isMultiline_iff, hinside]
    exact .inr (.inl ((Layout.sublist_indent _ _).subset hs))
  have hlength := congrArg List.length hinside
  have hle := (Layout.indent_sublist_indent b.span.indentation.toList
    (body v b rendered)).length_le
  have hmore : 0 < p'.openEnd.length + (breakBefore b').length := by
    rw [breakBefore]
    split
    · next ho =>
      have := List.length_pos_iff.2 ((h.endsLine_open_after hn).1 ho)
      omega
    · simp
  rw [h.after.content_value, Layout.insertion_multiline hm', h.lines_eq, lines]
  simp only [List.length_append] at hlength ⊢
  omega

/-! ### Blocks over several lines -/

/-- After the first run, the open tag of a block over several lines ends its line, and behind it
stands the indented text. -/
lemma inside_multiline (hm : b.context.isMultiline = true) : ∃ front, p'.openEnd = front ++ ['\n'] ∧
    p'.content ++ p'.lead = lines v b rendered ++ (breakAfter v b rendered ++ p.lead) := by
  have hopened := h.before.endsLine_open (h.named hn)
  obtain ⟨blanks, brk, hb, hk, hstart⟩ : ∃ blanks brk, AllSpace blanks ∧ IsBreak brk ∧
      p.openEnd ++ breakBefore b = blanks ++ brk := by
    rw [breakBefore]
    rcases h.before.openEnd_cases with h0 | ⟨blanks, brk, hb, hk, he⟩
    · refine ⟨[], ['\n'], by simp [AllSpace], .inl rfl, ?_⟩
      rw [if_neg (fun ho => hopened.1 ho h0), h0]
    · refine ⟨blanks, brk, hb, hk, ?_⟩
      have hne : p.openEnd ≠ [] := by
        rw [he]
        exact List.append_ne_nil_of_right_ne_nil _ hk.ne_nil
      rw [if_pos (hopened.2 hne), List.append_nil, he]
  have hinside : p'.openEnd ++ (p'.content ++ p'.lead) =
      blanks ++ (brk ++ (lines v b rendered ++ (breakAfter v b rendered ++ p.lead))) := by
    rw [h.inside, Layout.insertion_multiline hm, ← List.append_assoc blanks, ← hstart]
    simp
  have hend : p'.openEnd = blanks ++ brk := by
    rw [← h.after.openEnd, hinside, Scan.lineEnd_break hb hk]
  rw [hend, List.append_assoc, List.append_cancel_left_eq, List.append_cancel_left_eq] at hinside
  rw [hend]
  rcases hk with rfl | rfl
  · exact ⟨blanks, rfl, hinside⟩
  · exact ⟨blanks ++ ['\r'], by simp, hinside⟩

lemma insertion_again (hm : b.context.isMultiline = true) :
    insertion v b' rendered = lines v b rendered ++ breakAfter v b' rendered := by
  obtain ⟨front, hend, -⟩ := h.inside_multiline hn hm
  have hm' : b'.context.isMultiline = true := by
    rw [h.after.isMultiline_iff, hend]
    simp
  have hopened : endsLine b'.openTag.value.toList = true := by
    rw [h.endsLine_open_after hn, hend]
    simp
  rw [Layout.insertion_multiline hm', h.lines_eq, breakBefore, if_pos hopened, List.nil_append]

/-- Nor does it put in one behind, where the first scan or the first run has left one to the close
tag. -/
lemma insertion_eq_lines (hm : b.context.isMultiline = true)
    (hc : startsWithBreak b'.closeTag.value.toList = true ∨ body v b rendered = []) :
    insertion v b' rendered = lines v b rendered := by
  have hnone : breakAfter v b' rendered = [] := by
    refine if_pos ?_
    rw [h.body_eq]
    exact hc.imp_right .inl
  rw [h.insertion_again hn hm, hnone, List.append_nil]

/-- In a block over several lines, the second run finds the text and the line break of the close tag
where the first run has put them. -/
lemma content_eq_lines (hm : b.context.isMultiline = true)
    (hs : ((body v b rendered).getLast? = some '\n' →
        startsWithBreak b.closeTag.value.toList = true) ∧
      ((body v b rendered).getLast? = some '\r' → ['\r', '\n'] <+: b.closeTag.value.toList)) :
    b'.content.value.toList = lines v b rendered ∧
      (startsWithBreak b'.closeTag.value.toList = true ∨ body v b rendered = []) := by
  obtain ⟨front, hend, hrest⟩ := h.inside_multiline hn hm
  have hlead := h.lead_eq hrest
  rw [h.after.content_value]
  rcases h.before.lead_cases with hspace | ⟨brk, blanks, hk, hb, hl⟩
  · obtain ⟨hnone, hnone'⟩ := h.before.not_startsWithBreak hspace
    have hlast : (body v b rendered).getLast? ≠ some '\n' := fun e => by
      rw [hs.1 e] at hnone
      exact absurd hnone (by decide)
    by_cases h0 : body v b rendered = []
    · have hlines : lines v b rendered = [] := by
        rw [lines, h0, (Layout.indent_eq_nil_iff _ _).2 rfl]
      have hafter : breakAfter v b rendered = [] := by simp [breakAfter, h0]
      rw [hlines, hafter, hend, List.nil_append, List.nil_append, List.reverse_append,
        List.reverse_append, List.reverse_singleton, List.singleton_append, List.cons_append,
        Scan.splitLead_blanks hspace] at hlead
      exact ⟨by rw [hlines, (Prod.mk.inj hlead).1], .inr h0⟩
    · have hafter : breakAfter v b rendered = ['\n'] := by simp [breakAfter, h0, hlast, hnone]
      rw [hafter, Scan.splitLead_break (.inl rfl) hspace fun _ => by
        rw [Layout.getLast?_lines]
        exact fun e => hnone' (hs.2 e)] at hlead
      obtain ⟨hcontent, hlead'⟩ := Prod.mk.inj hlead
      exact ⟨hcontent.symm, .inl (h.after.startsWithBreak (.inl rfl) hlead'.symm)⟩
  · have hafter : breakAfter v b rendered = [] := by
      simp [breakAfter, h.before.startsWithBreak hk hl]
    have hr : brk = ['\n'] → (lines v b rendered).getLast? ≠ some '\r' := by
      rintro rfl hlast
      rw [Layout.getLast?_lines] at hlast
      have := hs.2 hlast
      rw [h.before.close_value, Pieces.closeText, hl] at this
      simp at this
    rw [hafter, hl, List.nil_append, Scan.splitLead_break hk hb hr] at hlead
    obtain ⟨hcontent, hlead'⟩ := Prod.mk.inj hlead
    exact ⟨hcontent.symm, .inl (h.after.startsWithBreak hk hlead'.symm)⟩

lemma settled_multiline (hm : b.context.isMultiline = true)
    (hs : ((body v b rendered).getLast? = some '\n' →
        startsWithBreak b.closeTag.value.toList = true) ∧
      ((body v b rendered).getLast? = some '\r' → ['\r', '\n'] <+: b.closeTag.value.toList)) :
    insertion v b' rendered = b'.content.value.toList := by
  obtain ⟨hcontent, hc⟩ := h.content_eq_lines hn hm hs
  rw [h.insertion_eq_lines hn hm hc, hcontent]

/-- When the text ends in a line break, or in the start of one, that does not belong to the close tag
before the first run, it belongs to the close tag after it. -/
lemma unsettled_multiline (hm : b.context.isMultiline = true)
    (hs : (body v b rendered).getLast? = some '\n' ∧
        startsWithBreak b.closeTag.value.toList = false ∨
      (body v b rendered).getLast? = some '\r' ∧ ¬ ['\r', '\n'] <+: b.closeTag.value.toList) :
    b'.content.value.toList.length < (insertion v b' rendered).length := by
  obtain ⟨-, -, hrest⟩ := h.inside_multiline hn hm
  have hlead := h.lead_eq hrest
  have hle : (lines v b rendered).length ≤ (insertion v b' rendered).length := by
    rw [h.insertion_again hn hm, List.length_append]
    omega
  refine lt_of_lt_of_le ?_ hle
  rw [h.after.content_value]
  rcases hs with ⟨hlast, hnone⟩ | ⟨hlast, hnone⟩
  · have hspace : AllSpace p.lead := by
      rcases h.before.lead_cases with hspace | ⟨brk, blanks, hk, -, hl⟩
      · exact hspace
      · rw [h.before.startsWithBreak hk hl] at hnone
        exact absurd hnone (by decide)
    have hafter : breakAfter v b rendered = [] := by simp [breakAfter, hlast]
    obtain ⟨init, hinit⟩ := List.getLast?_eq_some_iff.1 (Layout.getLast?_lines.trans hlast)
    rw [hafter, hinit, List.nil_append, List.append_assoc, List.singleton_append] at hlead
    have hshort : p'.content.length ≤ init.length := by
      have := Scan.length_splitLead_le hspace (p'.openTag ++ p'.openEnd).reverse init
      rwa [hlead] at this
    simp only [hinit, List.length_append, List.length_singleton]
    omega
  · obtain ⟨blanks, hb, htail⟩ : ∃ blanks, AllSpace blanks ∧
        breakAfter v b rendered ++ p.lead = '\n' :: blanks := by
      have h0 : body v b rendered ≠ [] := by
        rintro h0
        simp [h0] at hlast
      rcases h.before.lead_cases with hspace | ⟨brk, blanks, hk, hb, hl⟩
      · obtain ⟨hnone', -⟩ := h.before.not_startsWithBreak hspace
        exact ⟨p.lead, hspace, by simp [breakAfter, h0, hlast, hnone']⟩
      · refine ⟨blanks, hb, ?_⟩
        rw [breakAfter, if_pos (.inl (h.before.startsWithBreak hk hl)), hl, List.nil_append]
        rcases hk with rfl | rfl
        · rfl
        · refine absurd ?_ hnone
          rw [h.before.close_value, Pieces.closeText, hl]
          exact ⟨blanks ++ p.closeTag, by simp⟩
    obtain ⟨init, hinit⟩ := List.getLast?_eq_some_iff.1 (Layout.getLast?_lines.trans hlast)
    have hbetween : lines v b rendered ++ (breakAfter v b rendered ++ p.lead) =
        init ++ (['\r', '\n'] ++ blanks) := by
      rw [htail, hinit]
      simp
    rw [hbetween, Scan.splitLead_break (.inr rfl) hb (fun e => absurd e (by decide))] at hlead
    rw [← (Prod.mk.inj hlead).1, hinit]
    simp

/-! ### The second run -/

theorem insertion_eq (hs : Settled v b rendered) :
    insertion v b' rendered = b'.content.value.toList := by
  unfold Settled at hs
  split at hs
  · next hm => exact h.settled_multiline hn hm hs
  · next hm => exact h.settled_inline hn (by simpa using hm) hs

theorem length_lt_of_not_settled (hs : ¬ Settled v b rendered) :
    b'.content.value.toList.length < (insertion v b' rendered).length := by
  unfold Settled at hs
  split at hs
  · next hm =>
    refine h.unsettled_multiline hn hm ?_
    rw [not_and_or, Classical.not_imp, Classical.not_imp] at hs
    simpa using hs
  · next hm => exact h.unsettled_inline hn (by simpa using hm) (not_not.1 hs)

end Block.Refilled

end CommentBlocks
