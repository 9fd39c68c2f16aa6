import CommentBlocks.Proofs.Block.Geometry

/-!
The shape of a block: what its pieces look like, whatever stands around the block.

The line break of the open tag and the lead of the close tag are decided by the text between the two
tags alone, since each tag has a mark that white space does not reach across. A block is over several
lines when a line break stands in it before its last character.
-/

namespace CommentBlocks

open Text (bytes)
open TagPattern (HasMark StartsMarked opensBlock closesBlock)
open Scan (Pieces Cut lineEnd splitLead)

structure Block.MadeOf (b : Block) (p : Pieces) : Prop where
  open_value : b.openTag.value.toList = p.openText
  content_value : b.content.value.toList = p.content
  close_value : b.closeTag.value.toList = p.closeText
  span_value : b.span.value.toList = p.openText ++ (p.content ++ p.closeText)
  indentation : b.span.indentation.toList = p.indentation
  isMultiline : b.context.isMultiline =
    decide ('\n' ∈ (p.openTag ++ (p.openEnd ++ (p.content ++ (p.lead ++ p.closeTag)))).dropLast)
  openEnd : lineEnd (p.openEnd ++ (p.content ++ p.lead)) = p.openEnd
  lead : splitLead (p.openTag ++ p.openEnd).reverse (p.content ++ p.lead) = (p.content, p.lead)
  openMark : HasMark p.openTag
  closeMark : StartsMarked p.closeTag

namespace Scan

variable {v : Vocabulary} {ahead : List Char}

lemma Cut.hasMark_openTag (hv : v.Steady) (c : Cut v ahead) : HasMark c.openTag :=
  TagPattern.hasMark_text hv.openMark (TagPattern.find?_eq_some_iff.1 c.openFound).2.1

lemma Cut.startsMarked_closeTag (hv : v.Steady) (c : Cut v ahead) : StartsMarked c.closeTag :=
  TagPattern.startsMarked_text hv.closeMark (TagPattern.find?_eq_some_iff.1 c.closeFound).2.1

lemma Cut.closeTag_ne_nil (hv : v.Steady) (c : Cut v ahead) : c.closeTag ≠ [] := by
  obtain ⟨d, hd, -⟩ := (c.startsMarked_closeTag hv).hasMark
  exact List.ne_nil_of_mem hd

lemma Cut.lineEnd_eq (hv : v.Steady) (c : Cut v ahead) :
    lineEnd (c.openEnd ++ c.between) = c.openEnd := by
  obtain ⟨front, d, rest, hclose, hf, hd, hn, hr⟩ := c.startsMarked_closeTag hv
  have hafter : c.tag.after =
      (c.openEnd ++ c.between) ++ (front ++ d :: (rest ++ c.close.after)) := by
    rw [c.after_eq, hclose]
    simp
  rw [← lineEnd_append_mark hf hd hn hr, ← hafter]
  rfl

lemma Cut.splitLead_eq (hv : v.Steady) (c : Cut v ahead) (behind : List Char) :
    splitLead (c.entered behind) c.between =
      splitLead (c.openTag ++ c.openEnd).reverse c.between := by
  refine splitLead_append ((c.hasMark_openTag hv).mono fun d hd => ?_) _ _
  simp [hd]

lemma Cut.lineOf_tagStart (c : Cut v ahead) (behind : List Char) :
    Text.lineOf (Text.lineStarts (behind.reverse ++ ahead)) (c.pieces behind).tagStart =
      (c.reached behind).reverse.count '\n' + 1 := by
  rw [c.text_reached behind]
  refine Text.lineOf_lineStarts (by simp [Pieces.tagStart, Cut.pieces]) fun e _ => ?_
  have := e.utf8Size_pos
  simp only [Pieces.tagStart, Cut.pieces, Text.bytes_reverse]
  omega

lemma Cut.lineOf_closeStop (hv : v.Steady) (c : Cut v ahead) (behind : List Char) :
    Text.lineOf (Text.lineStarts (behind.reverse ++ ahead))
      (Nat.max ((c.pieces behind).closeStop - 1) (c.pieces behind).closeStart) =
        (c.reached behind).reverse.count '\n' +
          (c.openTag ++ (c.openEnd ++ (c.between ++ c.closeTag))).dropLast.count '\n' + 1 := by
  obtain ⟨init, d, hclose⟩ : ∃ init d, c.closeTag = init ++ [d] :=
    ⟨_, _, (List.dropLast_concat_getLast (c.closeTag_ne_nil hv)).symm⟩
  have hinner : (c.openTag ++ (c.openEnd ++ (c.between ++ c.closeTag))).dropLast =
      c.openTag ++ (c.openEnd ++ (c.between ++ init)) := by
    rw [hclose, ← List.append_assoc, ← List.append_assoc, ← List.append_assoc,
      List.dropLast_concat]
    simp
  have hstop : (c.pieces behind).closeStop = bytes ((c.reached behind).reverse ++
      (c.openTag ++ (c.openEnd ++ (c.between ++ init)))) + d.utf8Size := by
    rw [← c.bytes_passed, Cut.passed, Cut.entered, hclose]
    simp only [Text.bytes_append, Text.bytes_reverse, Text.bytes_cons, Text.bytes_nil]
    omega
  have hcloseStart : (c.pieces behind).closeStart < (c.pieces behind).closeStop := by
    have := Text.bytes_pos (c.closeTag_ne_nil hv)
    simp only [Pieces.closeStop, Pieces.closeText, Cut.pieces, Text.bytes_append]
    omega
  have hmax : Nat.max ((c.pieces behind).closeStop - 1) (c.pieces behind).closeStart =
      (c.pieces behind).closeStop - 1 := Nat.max_eq_left (by omega)
  have hassoc : (c.reached behind).reverse ++ (c.openTag ++ (c.openEnd ++
      (c.between ++ (init ++ [d] ++ c.close.after)))) = ((c.reached behind).reverse ++
        (c.openTag ++ (c.openEnd ++ (c.between ++ init)))) ++ d :: c.close.after := by simp
  have hd := d.utf8Size_pos
  rw [hmax, c.text_reached behind, hinner, hclose, ← List.count_append, hassoc]
  refine Text.lineOf_lineStarts (by omega) fun e he => ?_
  obtain rfl : d = e := by simpa using he
  omega

/-- A block is over several lines when a line break stands before its last character. -/
lemma Cut.isMultiline_eq (hv : v.Steady) (c : Cut v ahead) (behind : List Char) (index : Nat)
    (header : Header) (options : Options) :
    ((c.pieces behind).toBlock (Text.lineStarts (behind.reverse ++ ahead)) index header
        options).context.isMultiline =
      decide ('\n' ∈ (c.openTag ++ (c.openEnd ++ (c.between ++ c.closeTag))).dropLast) := by
  have hmulti : ((c.pieces behind).toBlock (Text.lineStarts (behind.reverse ++ ahead)) index header
      options).context.isMultiline = (Text.lineOf (Text.lineStarts (behind.reverse ++ ahead))
      (c.pieces behind).tagStart != Text.lineOf (Text.lineStarts (behind.reverse ++ ahead))
      (Nat.max ((c.pieces behind).closeStop - 1) (c.pieces behind).closeStart)) := rfl
  rw [hmulti, c.lineOf_tagStart, c.lineOf_closeStop hv, Bool.eq_iff_iff, decide_eq_true_iff,
    bne_iff_ne, ← List.count_pos_iff]
  omega

/-- A block that is cut off a text consists of the pieces it is cut into. -/
lemma Cut.madeOf (hv : v.Steady) (c : Cut v ahead) (behind : List Char) (index : Nat)
    (header : Header) (options : Options) :
    ((c.pieces behind).toBlock (Text.lineStarts (behind.reverse ++ ahead)) index header
      options).MadeOf (c.pieces behind) where
  open_value := String.toList_ofList
  content_value := String.toList_ofList
  close_value := String.toList_ofList
  span_value := by simp [Pieces.toBlock]
  indentation := String.toList_ofList
  isMultiline := by
    rw [c.isMultiline_eq hv, ← c.content_append_lead behind, List.append_assoc]
    rfl
  openEnd := by
    rw [c.content_append_lead behind]
    exact c.lineEnd_eq hv
  lead := by
    rw [c.content_append_lead behind]
    exact (c.splitLead_eq hv behind).symm
  openMark := c.hasMark_openTag hv
  closeMark := c.startsMarked_closeTag hv

end Scan

end CommentBlocks
