import CommentBlocks.Proofs.Render.Boundaries
import CommentBlocks.Proofs.Render.Settling
import CommentBlocks.Proofs.Tag.Stripping
import CommentBlocks.Proofs.Text.Trimming

/-!
Texts without the opening delimiter.

No tag is taken out of such a text, and white space around its lines and around the whole of it puts
no delimiter together. So no close tag starts in it once it is put in a block, and it is settled
unless it turns a block on one line into one over several lines.
-/

namespace CommentBlocks

open TagPattern (isSpace AllSpace closesBlock)
open Unicode (isFiller isBlank)

/-- A delimiter that is free of white space and does not hold its first character again. -/
def IsSign (opening : List Char) : Prop :=
  ∃ c rest, opening = c :: rest ∧ isFiller c = false ∧ ∀ d ∈ rest, isFiller d = false ∧ d ≠ c

lemma Delimiters.IsBuiltIn.isSign {d : Delimiters} (hd : d.IsBuiltIn) : IsSign d.opening.toList := by
  have key (c : Char) (rest : List Char) (h : isFiller c = false)
      (hrest : rest.all (fun x => !isFiller x && x != c) = true) : IsSign (c :: rest) :=
    ⟨c, rest, rfl, h, fun x hx => by simpa using List.all_eq_true.1 hrest x hx⟩
  rcases hd with rfl | rfl | rfl
  · exact key '<' ['!', '-', '-'] (by decide) (by decide)
  · exact key '/' ['*'] (by decide) (by decide)
  · exact key '#' [] (by decide) (by decide)

namespace IsSign

variable {opening : List Char} (h : IsSign opening)
include h

lemma isFiller_eq_false : ∀ d ∈ opening, isFiller d = false := by
  obtain ⟨c, rest, rfl, hc, hrest⟩ := h
  exact List.forall_mem_cons.2 ⟨hc, fun d hd => (hrest d hd).1⟩

/-- No tag starts in a text without the delimiter that stands in front of a tag: the delimiter would
start in the text and end in that tag. -/
lemma not_startsIn {p : TagPattern} (hp : p.opening = opening) {new lead rest : List Char}
    (hlead : ∀ d ∈ lead, isFiller d = true) (hnew : ¬ opening <:+: new) :
    ¬ p.StartsIn new (lead ++ (opening ++ rest)) := by
  intro hstarts
  rcases hstarts.opening_cases with hin | ⟨s, z, hs, hz, hsplit, -, htail⟩
  · exact hnew (hp ▸ hin)
  obtain ⟨c, tail, rfl, -, hother⟩ := h
  obtain ⟨d, s, rfl⟩ := List.exists_cons_of_ne_nil hs
  obtain ⟨e, z, rfl⟩ := List.exists_cons_of_ne_nil hz
  obtain ⟨rfl, rfl⟩ := List.cons.inj (hp.symm.trans hsplit)
  obtain ⟨he, hne⟩ := hother e (List.mem_append_right _ List.mem_cons_self)
  cases lead with
  | nil => exact hne (List.cons_prefix_cons.1 htail).1
  | cons x lead =>
    obtain ⟨rfl, -⟩ := List.cons_prefix_cons.1 htail
    rw [hlead e List.mem_cons_self] at he
    exact absurd he (by decide)

end IsSign

/-! ### White space around a text -/

namespace Layout

section Word

variable {word : List Char} (hw : ∀ d ∈ word.head?, isFiller d = false) {indentation : List Char}
  (hi : ∀ d ∈ indentation, isFiller d = true)
include hw hi

lemma infix_of_indentLine {line : List Char} (h : word <:+: indentLine indentation line) :
    word <:+: line := by
  unfold indentLine at h
  split at h
  · exact h
  · exact Text.infix_of_margin (fun d hd hm => Bool.false_ne_true ((hw d hm).symm.trans (hi d hd))) h

lemma infix_of_indent (h0 : word ≠ []) (hbreak : '\n' ∉ word) {content : List Char}
    {atLineStart : Bool} (h : word <:+: indent indentation content atLineStart) :
    word <:+: content := by
  unfold indent at h
  split at h
  · exact h
  obtain ⟨first, others, hsplit⟩ := List.exists_cons_of_ne_nil (Text.splitAt_ne_nil '\n' content)
  simp only [hsplit] at h
  rw [← Text.joinWith_splitAt '\n' content, hsplit, Text.infix_joinWith_iff hbreak h0]
  obtain ⟨line, hline, hword⟩ := (Text.infix_joinWith_iff hbreak h0).1 h
  rcases List.mem_cons.1 hline with rfl | hline
  · refine ⟨first, List.mem_cons_self, ?_⟩
    split at hword
    · exact infix_of_indentLine hw hi hword
    · exact hword
  · obtain ⟨line, hmem, rfl⟩ := List.mem_map.1 hline
    exact ⟨line, List.mem_cons_of_mem _ hmem, infix_of_indentLine hw hi hword⟩

end Word

variable {v : Vocabulary} {b : Block} {rendered : List Char}

lemma insertion_eq_append (v : Vocabulary) (b : Block) (rendered : List Char) :
    ∃ front atLineStart back, (∀ d ∈ front, d = '\n') ∧ (∀ d ∈ back, d = '\n') ∧
      insertion v b rendered =
        front ++ (indent b.span.indentation.toList (body v b rendered) atLineStart ++ back) := by
  set leading := b.context.isMultiline && !endsLine b.openTag.value.toList
  set text := (if leading then ['\n'] else []) ++ indent b.span.indentation.toList
    (body v b rendered) (leading || endsLine b.openTag.value.toList) with htext
  have hinsert : insertion v b rendered =
      if b.context.isMultiline && !startsWithBreak b.closeTag.value.toList && !text.isEmpty &&
        !endsLine text then text ++ ['\n'] else text := rfl
  have hfront : ∀ d ∈ (if leading then ['\n'] else []), d = '\n' := by
    cases leading <;> simp
  rw [hinsert]
  split
  · exact ⟨_, _, ['\n'], hfront, by simp, by rw [htext, List.append_assoc]⟩
  · exact ⟨_, _, [], hfront, by simp, by rw [htext, List.append_nil]⟩

lemma infix_of_insertion {word : List Char} (hw : ∀ d ∈ word.head?, isFiller d = false)
    (h0 : word ≠ []) (hbreak : '\n' ∉ word)
    (hi : ∀ d ∈ b.span.indentation.toList, isFiller d = true)
    (h : word <:+: insertion v b rendered) : word <:+: body v b rendered := by
  obtain ⟨front, atLineStart, back, hfront, hback, he⟩ := insertion_eq_append v b rendered
  rw [he] at h
  have hrest := Text.infix_of_margin
    (fun d hd hm => hbreak (hfront d hd ▸ List.mem_of_mem_head? hm)) h
  exact infix_of_indent hw hi h0 hbreak (Text.infix_of_margin_right
    (fun d hd hm => hbreak (hback d hd ▸ List.mem_of_getLast? hm)) hrest)

lemma body_sublist_insertion : (body v b rendered).Sublist (insertion v b rendered) := by
  obtain ⟨front, atLineStart, back, -, -, he⟩ := insertion_eq_append v b rendered
  have hindent : (body v b rendered).Sublist
      (indent b.span.indentation.toList (body v b rendered) atLineStart) := by
    cases atLineStart with
    | false => exact sublist_indent _ _
    | true => exact (sublist_indent _ _).trans (indent_sublist_indent _ _)
  rw [he]
  exact (hindent.trans (List.sublist_append_left _ _)).trans (List.sublist_append_right _ _)

variable (ht : b.flag "noTrim" = false) (hr : ¬ v.commentOpen.toList <:+: rendered)
include ht hr

lemma body_of_bare : body v b rendered = Text.trim rendered := by
  simp [body, ht, Vocabulary.stripTags_of_not_infix hr]

/-- A trimmed text is settled unless it brings a line break to a block on one line. -/
lemma settled_of_bare_iff : Settled v b rendered ↔
    (b.context.isMultiline = false → '\n' ∉ Text.trim rendered) := by
  have hlast := Text.not_isBlank_getLast?_trim rendered
  rw [Settled, body_of_bare ht hr]
  cases b.context.isMultiline with
  | false => simp
  | true =>
    have hline : (Text.trim rendered).getLast? ≠ some '\n' := fun h =>
      absurd (hlast '\n' h) (by decide)
    have hreturn : (Text.trim rendered).getLast? ≠ some '\r' := fun h =>
      absurd (hlast '\r' h) (by decide)
    simp [hline, hreturn]

/-- An opening delimiter on one line that does not start with white space does not get into the text
of a block. -/
lemma not_infix_insertion (hw : ∀ d ∈ v.commentOpen.toList.head?, isFiller d = false)
    (hbreak : '\n' ∉ v.commentOpen.toList)
    (hi : ∀ d ∈ b.span.indentation.toList, isFiller d = true) :
    ¬ v.commentOpen.toList <:+: insertion v b rendered := by
  intro h
  have h0 : v.commentOpen.toList ≠ [] := fun h0 => hr (by rw [h0]; exact List.nil_infix)
  have hbody := infix_of_insertion hw h0 hbreak hi h
  rw [body_of_bare ht hr] at hbody
  exact hr (hbody.trans (Text.trim_isInfix rendered))

end Layout

/-! ### The text behind a content -/

namespace Scan

variable {v : Vocabulary} {lineStarts : List Nat} {index : Nat} {behind ahead : List Char}
  {blocks : List Block}

lemma allSpace_indentation (behind : List Char) : AllSpace (indentation behind) := by
  intro d hd
  unfold indentation at hd
  simp only at hd
  split at hd
  · next hall => exact List.all_eq_true.1 hall d (List.mem_reverse.1 hd)
  · simp at hd

lemma Scanned.allSpace_indentation (h : Scanned v lineStarts index behind ahead blocks) :
    ∀ b ∈ blocks, AllSpace b.span.indentation.toList := by
  intro b hb
  obtain ⟨behind', ahead', c, index', options, -, rfl⟩ := h.exists_cut b hb
  simp only [Pieces.toBlock, String.toList_ofList]
  exact Scan.allSpace_indentation _

/-- Behind the content of a block stands a tag, with white space in front of it at most. -/
lemma Scanned.behind_content (h : Scanned v lineStarts index behind ahead blocks) :
    ∀ b ∈ blocks, ∃ lead rest, (∀ d ∈ lead, isFiller d = true) ∧
      Text.dropBytes b.content.stop (behind.reverse ++ ahead) =
        lead ++ (v.commentOpen.toList ++ rest) := by
  intro b hb
  obtain ⟨behind', ahead', c, index', options, htext, rfl⟩ := h.exists_cut b hb
  refine ⟨(c.pieces behind').lead, c.close.blanks ++ c.close.word ++ c.close.inner ++
    v.commentClose.toList ++ c.close.after, isFiller_splitLead, ?_⟩
  have hstop := c.dropBytes_stop behind'
  rw [htext] at hstop
  rw [show ((c.pieces behind').toBlock lineStarts index' c.header options).content.stop =
    (c.pieces behind').closeStart from rfl, hstop]
  have hopening : (closesBlock v).opening = v.commentOpen.toList := rfl
  have hclosing : (closesBlock v).closing = v.commentClose.toList := rfl
  simp [Cut.closeTag, TagPattern.text, hopening, hclosing]

lemma Scanned.not_startsIn_of_bare (h : Scanned v lineStarts index behind ahead blocks)
    (hv : IsSign v.commentOpen.toList) {b : Block} (hb : b ∈ blocks)
    (ht : b.flag "noTrim" = false) {rendered : List Char}
    (hr : ¬ v.commentOpen.toList <:+: rendered) :
    ¬ (closesBlock v).StartsIn (Layout.insertion v b rendered)
      (Text.dropBytes b.content.stop (behind.reverse ++ ahead)) := by
  obtain ⟨lead, rest, hlead, htext⟩ := h.behind_content b hb
  have hbreak : '\n' ∉ v.commentOpen.toList := fun hm =>
    absurd (hv.isFiller_eq_false _ hm) (by decide)
  rw [htext]
  exact hv.not_startsIn rfl hlead (Layout.not_infix_insertion ht hr
    (fun d hd => hv.isFiller_eq_false d (List.mem_of_mem_head? hd)) hbreak
    fun d hd => Unicode.isFiller_of_isSpace (h.allSpace_indentation b hb d hd))

end Scan

end CommentBlocks
