import CommentBlocks.Proofs.Block.Scanned
import CommentBlocks.Proofs.Tag.Styles
import CommentBlocks.Proofs.Text.Places
import Mathlib.Data.List.Chain

/-!
Where the parts of a block lie.

The open tag, the content and the close tag of a block follow each other without a gap, and their
values are the text at their offsets. Blocks do not overlap: the indentation of an open tag stops at
the close tag of the block before it, whose last line is not blank.
-/

namespace CommentBlocks

open Text (bytes slice IsCut isCut_append)
open TagPattern (HasMark opensBlock closesBlock)

/-- The parts of a block lie in `text`, one behind the other. -/
structure Block.Placed (text : List Char) (b : Block) : Prop where
  span_start : b.openTag.start = b.span.start
  open_lt : b.openTag.start < b.openTag.stop
  open_stop : b.openTag.stop = b.content.start
  content_le : b.content.start ≤ b.content.stop
  close_start : b.content.stop = b.closeTag.start
  close_lt : b.closeTag.start < b.closeTag.stop
  span_stop : b.closeTag.stop = b.span.stop
  cut_start : IsCut text b.span.start
  cut_content : IsCut text b.content.start
  cut_close : IsCut text b.content.stop
  cut_stop : IsCut text b.span.stop
  open_value : b.openTag.value.toList = slice text b.openTag.start b.openTag.stop
  content_value : b.content.value.toList = slice text b.content.start b.content.stop
  close_value : b.closeTag.value.toList = slice text b.closeTag.start b.closeTag.stop
  span_value : b.span.value.toList = slice text b.span.start b.span.stop
  append_values : b.openTag.value ++ b.content.value ++ b.closeTag.value = b.span.value

/-- The contents of blocks lie in `text` behind the offset `place`, one behind the other. -/
inductive Block.Laid (text : List Char) : Nat → List Block → Prop where
  | nil {place : Nat} (h : IsCut text place) : Laid text place []
  | cons {place : Nat} {b : Block} {blocks : List Block} (h : IsCut text place)
      (start : IsCut text b.content.start) (stop : IsCut text b.content.stop)
      (le_start : place ≤ b.content.start) (le_stop : b.content.start ≤ b.content.stop)
      (value : b.content.value.toList = slice text b.content.start b.content.stop)
      (rest : Laid text b.content.stop blocks) : Laid text place (b :: blocks)

lemma Block.Laid.mono {text : List Char} {m n : Nat} {blocks : List Block}
    (h : Block.Laid text n blocks) (hm : IsCut text m) (hle : m ≤ n) : Block.Laid text m blocks := by
  cases h with
  | nil _ => exact .nil hm
  | cons _ hstart hstop hplace hcontent hvalue hrest =>
    exact .cons hm hstart hstop (hle.trans hplace) hcontent hvalue hrest

namespace Scan

variable {v : Vocabulary} {lineStarts : List Nat} {index : Nat} {behind ahead : List Char}

lemma bytes_indentation_le (behind : List Char) : bytes (indentation behind) ≤ bytes behind := by
  obtain ⟨z, hz⟩ := indentation_isPrefix behind
  have := congrArg bytes hz
  rw [Text.bytes_append, Text.bytes_reverse] at this
  omega

lemma Cut.text_reached (c : Cut v ahead) (behind : List Char) :
    behind.reverse ++ ahead = (c.reached behind).reverse ++ (c.openTag ++ (c.openEnd ++
      (c.between ++ (c.closeTag ++ c.close.after)))) := by
  conv_lhs => rw [c.ahead_eq]
  simp [Cut.reached]

/-- The text in its pieces, and the offsets of a block as the sizes of what stands in front. -/
lemma Cut.text_eq (c : Cut v ahead) (behind : List Char) : ∃ front,
    behind.reverse ++ ahead = front ++ ((c.pieces behind).openText ++
        ((c.pieces behind).content ++ ((c.pieces behind).closeText ++ c.close.after))) ∧
      bytes front = (c.pieces behind).openStart ∧
      bytes (front ++ (c.pieces behind).openText) = (c.pieces behind).openStop ∧
      bytes (front ++ (c.pieces behind).openText ++ (c.pieces behind).content) =
        (c.pieces behind).closeStart := by
  obtain ⟨z, hz⟩ := indentation_isPrefix (c.reached behind)
  have hreached : (c.reached behind).reverse = z.reverse ++ indentation (c.reached behind) := by
    simpa using (congrArg List.reverse hz).symm
  have htext : behind.reverse ++ ahead = z.reverse ++ ((c.pieces behind).openText ++
      ((c.pieces behind).content ++ ((c.pieces behind).closeText ++ c.close.after))) := by
    rw [c.text_reached behind, hreached, ← c.content_append_lead behind]
    simp [Pieces.openText, Pieces.closeText, Cut.pieces]
  have hstart : bytes z.reverse = (c.pieces behind).openStart := by
    have := congrArg bytes hz
    rw [Text.bytes_append, Text.bytes_reverse] at this
    simp only [Pieces.openStart, Pieces.tagStart, Cut.pieces, Text.bytes_reverse]
    omega
  have hstop : bytes (z.reverse ++ (c.pieces behind).openText) = (c.pieces behind).openStop := by
    have := bytes_indentation_le (c.reached behind)
    rw [Text.bytes_append, hstart]
    simp only [Pieces.openStart, Pieces.openStop, Pieces.openText, Pieces.tagStart, Cut.pieces,
      Text.bytes_append]
    omega
  exact ⟨z.reverse, htext, hstart, hstop, by rw [Text.bytes_append, hstop]; rfl⟩

lemma Cut.placed (c : Cut v ahead) (behind : List Char) (header : Header) (options : Options)
    (ho : c.openTag ≠ []) (hc : c.closeTag ≠ []) :
    ((c.pieces behind).toBlock lineStarts index header options).Placed
      (behind.reverse ++ ahead) := by
  obtain ⟨front, htext, hstart, hopen, hclose⟩ := c.text_eq behind
  set p := c.pieces behind with hp
  have hopenPos : 0 < bytes p.openText := by
    have := Text.bytes_pos ho
    simp only [hp, Pieces.openText, Cut.pieces, Text.bytes_append]
    omega
  have hclosePos : 0 < bytes p.closeText := by
    have := Text.bytes_pos hc
    simp only [hp, Pieces.closeText, Cut.pieces, Text.bytes_append]
    omega
  have hopenStop : p.openStart + bytes p.openText = p.openStop := by
    rw [← hstart, ← hopen, Text.bytes_append]
  have hstop : bytes (front ++ p.openText ++ p.content ++ p.closeText) = p.closeStop := by
    rw [Text.bytes_append, hclose]
    rfl
  rw [htext]
  refine
    { span_start := rfl
      open_lt := by simp only [Pieces.toBlock]; omega
      open_stop := rfl
      content_le := Nat.le_add_right _ _
      close_start := rfl
      close_lt := by simp only [Pieces.toBlock, Pieces.closeStop]; omega
      span_stop := rfl
      cut_start := ⟨front, _, rfl, hstart⟩
      cut_content := ⟨front ++ p.openText, p.content ++ (p.closeText ++ c.close.after),
        by simp, hopen⟩
      cut_close := ⟨front ++ p.openText ++ p.content, p.closeText ++ c.close.after,
        by simp, hclose⟩
      cut_stop := ⟨front ++ p.openText ++ p.content ++ p.closeText, c.close.after, by simp, hstop⟩
      open_value := ?_
      content_value := ?_
      close_value := ?_
      span_value := ?_
      append_values := by simp [Pieces.toBlock, String.append_assoc] }
  · have := Text.slice_middle front p.openText (p.content ++ (p.closeText ++ c.close.after))
    rw [hstart, hopenStop] at this
    simpa [Pieces.toBlock] using this.symm
  · have := Text.slice_middle (front ++ p.openText) p.content (p.closeText ++ c.close.after)
    rw [hopen] at this
    simpa [Pieces.toBlock, Pieces.closeStart] using this.symm
  · have := Text.slice_middle (front ++ p.openText ++ p.content) p.closeText c.close.after
    rw [hclose] at this
    simpa [Pieces.toBlock, Pieces.closeStop] using this.symm
  · have := Text.slice_middle front (p.openText ++ p.content ++ p.closeText) c.close.after
    have hlen : p.openStart + bytes (p.openText ++ p.content ++ p.closeText) = p.closeStop := by
      rw [← hstop, ← hstart]
      simp only [Text.bytes_append]
      omega
    rw [hstart, hlen] at this
    simpa [Pieces.toBlock] using this.symm

/-- The line up to the current place is not blank, or the place is the start of the text. -/
def Blocked (behind : List Char) : Prop :=
  behind = [] ∨ HasMark (behind.takeWhile (· != '\n'))

/-- The indentation of an open tag lies in the gap in front of it. -/
lemma Cut.behind_le_openStart (c : Cut v ahead) (hb : Blocked behind) :
    bytes behind ≤ (c.pieces behind).openStart := by
  have hlen : (indentation (c.reached behind)).length ≤ c.gap.length := by
    rcases hb with rfl | hb
    · simpa [Cut.reached] using (indentation_isPrefix (c.reached [])).length_le
    · simpa [Cut.reached] using length_indentation_le c.gap.reverse hb
  obtain ⟨z, hz⟩ : (indentation (c.reached behind)).reverse <+: c.gap.reverse :=
    List.prefix_of_prefix_length_le (indentation_isPrefix _) ⟨behind, rfl⟩ (by simpa using hlen)
  have hbytes := congrArg bytes hz
  rw [Text.bytes_append, Text.bytes_reverse, Text.bytes_reverse] at hbytes
  simp only [Pieces.openStart, Pieces.tagStart, Cut.pieces, Cut.reached, Text.bytes_append,
    Text.bytes_reverse] at hbytes ⊢
  omega

lemma Cut.bytes_passed (c : Cut v ahead) (behind : List Char) :
    bytes (c.passed behind) = (c.pieces behind).closeStop := by
  have := c.content_append_lead behind
  rw [Cut.passed, ← this]
  simp only [Pieces.closeStop, Pieces.closeStart, Pieces.openStop, Pieces.tagStart,
    Pieces.closeText, Cut.pieces, Cut.entered, Text.bytes_append, Text.bytes_reverse]
  omega

lemma Cut.blocked_passed (c : Cut v ahead) (behind : List Char)
    (h : HasMark (c.closeTag.reverse.takeWhile (· != '\n'))) : Blocked (c.passed behind) := by
  refine .inr (h.mono fun d hd => ?_)
  rw [Cut.passed, List.reverse_append, List.append_assoc, List.takeWhile_append]
  split
  · exact List.mem_append_left _ ((List.takeWhile_prefix _).subset hd)
  · exact hd

lemma Cut.laid (c : Cut v ahead) (behind : List Char) (index : Nat) (header : Header)
    (options : Options) {blocks : List Block}
    (h : Block.Laid (behind.reverse ++ ahead) (bytes (c.passed behind)) blocks) :
    Block.Laid (behind.reverse ++ ahead) (bytes behind)
      ((c.pieces behind).toBlock lineStarts index header options :: blocks) := by
  obtain ⟨front, htext, -, hopen, hclose⟩ := c.text_eq behind
  set p := c.pieces behind with hp
  have hcut : IsCut (behind.reverse ++ ahead) p.closeStart :=
    ⟨front ++ p.openText ++ p.content, p.closeText ++ c.close.after, by simp [htext], hclose⟩
  refine .cons (Text.bytes_reverse behind ▸ isCut_append _ _)
    ⟨front ++ p.openText, p.content ++ (p.closeText ++ c.close.after), by simp [htext], hopen⟩
    hcut ?_ (Nat.le_add_right _ _) ?_ (h.mono hcut ?_)
  · simp only [Pieces.toBlock, hp, Pieces.openStop, Pieces.tagStart, Cut.pieces, Cut.reached,
      Text.bytes_append]
    omega
  · have := Text.slice_middle (front ++ p.openText) p.content (p.closeText ++ c.close.after)
    rw [hopen] at this
    simpa [Pieces.toBlock, Pieces.closeStart, htext] using this.symm
  · rw [c.bytes_passed]
    exact Nat.le_add_right _ _

lemma Scanned.laid {blocks : List Block} (h : Scanned v lineStarts index behind ahead blocks) :
    Block.Laid (behind.reverse ++ ahead) (bytes behind) blocks := by
  induction h with
  | @done _ behind _ _ => exact .nil (Text.bytes_reverse behind ▸ isCut_append _ _)
  | @more _ behind _ _ _ c _ _ _ ih =>
    rw [c.reverse_passed_append] at ih
    exact c.laid behind _ _ _ ih
  | @last _ behind _ _ c _ _ =>
    refine c.laid behind _ _ _ (.nil ?_)
    rw [← c.reverse_passed_append, ← Text.bytes_reverse]
    exact isCut_append _ _

lemma Scanned.index_eq {blocks : List Block} (h : Scanned v lineStarts index behind ahead blocks) :
    blocks.map Block.index = List.range' index blocks.length := by
  induction h with
  | done _ => rfl
  | more c _ _ _ ih =>
    rw [List.map_cons, ih, List.length_cons, List.range'_succ]
    rfl
  | last c _ _ => rfl

lemma Scanned.index_of_getElem? {blocks : List Block}
    (h : Scanned v lineStarts 0 behind ahead blocks) {i : Nat} {b : Block}
    (hi : blocks[i]? = some b) : b.index = i := by
  have := congrArg (·[i]?) h.index_eq
  obtain ⟨hlt, -⟩ := List.getElem?_eq_some_iff.1 hi
  simp only [List.getElem?_map, hi, Option.map_some, List.getElem?_range' hlt] at this
  simpa using this

lemma Scanned.placed (hopen : ∀ cs t, (opensBlock v).read? cs = some t → (opensBlock v).text t ≠ [])
    (hclose : ∀ cs t, (closesBlock v).read? cs = some t → (closesBlock v).text t ≠ [])
    {blocks : List Block} (h : Scanned v lineStarts index behind ahead blocks) :
    ∀ b ∈ blocks, b.Placed (behind.reverse ++ ahead) := by
  intro b hb
  obtain ⟨behind', ahead', c, index', options, htext, rfl⟩ := h.exists_cut b hb
  rw [← htext]
  exact c.placed behind' _ _ (hopen _ _ (TagPattern.find?_eq_some_iff.1 c.openFound).2.1)
    (hclose _ _ (TagPattern.find?_eq_some_iff.1 c.closeFound).2.1)

lemma Scanned.chain (hmark : ∀ cs t, (closesBlock v).read? cs = some t →
      HasMark (((closesBlock v).text t).reverse.takeWhile (· != '\n')))
    {blocks : List Block} (h : Scanned v lineStarts index behind ahead blocks)
    (hb : Blocked behind) :
    blocks.IsChain (fun b b' => b.span.stop ≤ b'.span.start) ∧
      ∀ b ∈ blocks.head?, bytes behind ≤ b.span.start := by
  induction h with
  | done _ => simp
  | @more _ behind _ _ _ c _ _ _ ih =>
    have hpassed : Blocked (c.passed behind) := c.blocked_passed _
      (hmark _ _ (TagPattern.find?_eq_some_iff.1 c.closeFound).2.1)
    obtain ⟨hchain, hhead⟩ := ih hpassed
    refine ⟨List.isChain_cons.2 ⟨fun b hbhead => ?_, hchain⟩, fun b hbhead => ?_⟩
    · have := hhead b hbhead
      rwa [c.bytes_passed] at this
    · rw [List.head?_cons, Option.mem_some_iff] at hbhead
      rw [← hbhead]
      exact c.behind_le_openStart hb
  | last c _ _ =>
    refine ⟨.singleton _, fun b hbhead => ?_⟩
    rw [List.head?_cons, Option.mem_some_iff] at hbhead
    rw [← hbhead]
    exact c.behind_le_openStart hb

end Scan

/-- Block geometry: each block lies in the text with its parts one behind the other, the blocks are
numbered in order, and none starts before the one in front of it ends. -/
theorem Block.scan_geometry {d : Delimiters} (hd : d.IsBuiltIn) {openWord closeWord : String}
    (hw : '\n' ∉ closeWord.toList) {text : String} {blocks : List Block}
    (h : Block.scan (.ofDelimiters openWord closeWord d) text = .ok blocks) :
    (∀ b ∈ blocks, b.Placed text.toList) ∧ (∀ (i : Nat) (b : Block), blocks[i]? = some b → b.index = i) ∧
      blocks.IsChain fun b b' => b.span.stop ≤ b'.span.start := by
  have hs := Scan.scan_eq_ok_iff.1 h
  have hsteady := (hd.plain openWord closeWord).steady
  have hopen (cs : List Char) (t : Tag)
      (hr : (opensBlock (.ofDelimiters openWord closeWord d)).read? cs = some t) :
      (opensBlock (.ofDelimiters openWord closeWord d)).text t ≠ [] := by
    obtain ⟨c, hc, -⟩ := TagPattern.hasMark_text hsteady.openMark hr
    exact List.ne_nil_of_mem hc
  have hclose (cs : List Char) (t : Tag)
      (hr : (closesBlock (.ofDelimiters openWord closeWord d)).read? cs = some t) :
      (closesBlock (.ofDelimiters openWord closeWord d)).text t ≠ [] := by
    obtain ⟨c, hc, -⟩ := (TagPattern.startsMarked_text hsteady.closeMark hr).hasMark
    exact List.ne_nil_of_mem hc
  obtain ⟨hchain, -⟩ := hs.chain (fun cs t hr => hd.hasMark_lastLine hw hr) (.inl rfl)
  exact ⟨hs.placed hopen hclose, fun i b hi => hs.index_of_getElem? hi, hchain⟩

/-- Two blocks on two lines, the first one with an indented close tag. -/
theorem Block.scan_geometry_two_blocks : ∃ blocks,
    Block.scan (.ofDelimiters "a" "z" .cStyle) "/* a */é\r\n /* z */ /* a *//* z */" = .ok blocks ∧
      blocks.length = 2 ∧
      (∀ b ∈ blocks, b.Placed "/* a */é\r\n /* z */ /* a *//* z */".toList) ∧
      (∀ (i : Nat) (b : Block), blocks[i]? = some b → b.index = i) ∧
      blocks.IsChain fun b b' => b.span.stop ≤ b'.span.start := by
  have hlen : ((Block.scan (.ofDelimiters "a" "z" .cStyle)
      "/* a */é\r\n /* z */ /* a *//* z */").toOption.map List.length) = some 2 := by decide +kernel
  obtain ⟨blocks, hscan, hblocks⟩ := Option.map_eq_some_iff.1 hlen
  have hok := eq_ok_of_toOption hscan
  exact ⟨blocks, hok, hblocks, Block.scan_geometry (.inr (.inl rfl)) (by decide) hok⟩

end CommentBlocks
