import CommentBlocks.Proofs.Block.Geometry
import CommentBlocks.Proofs.Tag.Stripping
import CommentBlocks.Proofs.Text.LineNumbers

/-!
The lines of a block. It starts on the line of the first byte of its open tag, behind the indentation, ends
on the line of the last byte of its close tag, and is over several lines exactly if a line feed stands at
the one byte or between the two.
-/

namespace CommentBlocks

open Text (bytes lineOf lineStarts lineAt octets lineFeed search)

/-- The first byte of the open tag, behind its indentation. -/
def Block.firstByte (b : Block) : Nat := b.openTag.start + bytes b.span.indentation.toList

def Block.lastByte (b : Block) : Nat := b.closeTag.stop - 1

/-- The block lies in the text, with its lines told by its first and its last byte. -/
structure Block.OnLines (v : Vocabulary) (text : String) (b : Block) : Prop where
  placed : b.Placed text.toList
  opening : b.span.indentation.toList ++ v.commentOpen.toList <+: b.openTag.value.toList
  firstLine : b.span.firstLine = lineAt text b.firstByte
  lastLine : b.span.lastLine = lineAt text b.lastByte
  isMultiline : b.context.isMultiline = true ↔
    ∃ place, b.firstByte ≤ place ∧ place < b.lastByte ∧ (octets text)[place]? = some lineFeed

namespace Scan

variable {v : Vocabulary} {ahead behind : List Char} {text : String} {index : Nat}

lemma Cut.firstByte_eq (c : Cut v ahead) (behind : List Char) (lineStarts : List Nat) (index : Nat)
    (header : Header) (options : Options) :
    ((c.pieces behind).toBlock lineStarts index header options).firstByte =
      (c.pieces behind).tagStart := by
  have hle : bytes (c.pieces behind).indentation ≤ (c.pieces behind).tagStart :=
    bytes_indentation_le (c.reached behind)
  simp only [Block.firstByte, Pieces.toBlock, Pieces.openStart, String.toList_ofList]
  omega

/-- The line of the end of a block is that of its last byte, since the close tag is not empty. -/
lemma Cut.lastLine_eq (c : Cut v ahead) (behind : List Char) (lineStarts : List Nat) (index : Nat)
    (header : Header) (options : Options) (hclose : c.closeTag ≠ []) :
    ((c.pieces behind).toBlock lineStarts index header options).span.lastLine =
      lineOf lineStarts ((c.pieces behind).toBlock lineStarts index header options).lastByte := by
  have hpos : 0 < bytes (c.pieces behind).closeText := by
    have := Text.bytes_pos hclose
    simp only [Pieces.closeText, Cut.pieces, Text.bytes_append]
    omega
  have hmax : Nat.max ((c.pieces behind).closeStop - 1) (c.pieces behind).closeStart =
      (c.pieces behind).closeStop - 1 := Nat.max_eq_left (by rw [Pieces.closeStop]; omega)
  simp only [Pieces.toBlock, Block.lastByte, hmax]

lemma Cut.onLines (c : Cut v ahead) (behind : List Char) (htext : behind.reverse ++ ahead = text.toList)
    (index : Nat) (options : Options) (hv : v.commentOpen.toList ≠ []) :
    ((c.pieces behind).toBlock (lineStarts text.toList) index c.header options).OnLines v text := by
  have hclose : c.closeTag ≠ [] := TagPattern.text_ne_nil hv c.close
  have hplaced : ((c.pieces behind).toBlock (lineStarts text.toList) index c.header options).Placed
      text.toList := htext ▸ c.placed behind c.header options (TagPattern.text_ne_nil hv c.tag) hclose
  have hfirst := c.firstByte_eq behind (lineStarts text.toList) index c.header options
  have hlast := c.lastLine_eq behind (lineStarts text.toList) index c.header options hclose
  set b := (c.pieces behind).toBlock (lineStarts text.toList) index c.header options with hb
  have hfirstLine : b.span.firstLine = lineAt text b.firstByte := by
    rw [hfirst, ← Text.lineOf_eq_lineAt]
    rfl
  have hlastLine : b.span.lastLine = lineAt text b.lastByte := by rw [hlast, Text.lineOf_eq_lineAt]
  have hle : b.firstByte ≤ b.lastByte := by
    have hstart : (c.pieces behind).tagStart ≤ (c.pieces behind).openStop := by
      rw [Pieces.openStop]
      omega
    have hopen : (c.pieces behind).openStop = b.openTag.stop := rfl
    have := hplaced.open_stop
    have := hplaced.content_le
    have := hplaced.close_start
    have := hplaced.close_lt
    rw [hfirst, Block.lastByte]
    omega
  refine ⟨hplaced, ?_, hfirstLine, hlastLine, ?_⟩
  · refine ⟨c.tag.blanks ++ c.tag.word ++ c.tag.inner ++ v.commentClose.toList ++ c.openEnd, ?_⟩
    simp [hb, Pieces.toBlock, Pieces.openText, Cut.pieces, Cut.openTag, TagPattern.text,
      TagPattern.opensBlock, TagPattern.ofWord]
  · rw [← Text.lineAt_ne_iff text hle, ← hfirstLine, ← hlastLine, ← bne_iff_ne]
    rfl

end Scan

/-- The line of an offset, be it found by a search in the table of line starts or by counting them, is one
more than there are line feeds in front of it. A block that is scanned has the lines of its first and its
last byte, and is over several lines exactly if a line feed stands at the first byte or between the two. -/
theorem Block.scan_lines :
    (∀ (text : String) (offset : Nat),
      lineOf (lineStarts text.toList) offset = ((octets text).take offset).count lineFeed + 1 ∧
        (search (lineStarts text.toList).toArray offset).line = lineOf (lineStarts text.toList) offset) ∧
      ∀ (v : Vocabulary) (text : String) (blocks : List Block), v.commentOpen ≠ "" →
        Block.scan v text = .ok blocks → ∀ b ∈ blocks, b.OnLines v text := by
  refine ⟨fun text offset => ⟨Text.lineOf_eq_lineAt text offset, Text.line_search_lineStarts _ offset⟩,
    fun v text blocks hv hscan b hb => ?_⟩
  obtain ⟨behind, ahead, c, index, options, htext, rfl⟩ := (Scan.scan_eq_ok_iff.1 hscan).exists_cut b hb
  exact c.onLines behind htext index options (by simpa using hv)

/-- A block behind a character of two bytes and an indentation, over a line that ends in two characters. -/
theorem Block.scan_lines_two_lines : ∃ b,
    Block.scan (.ofDelimiters "a" "z" .cStyle) "é\r\n  /* a */é\r\n/* z */\n" = .ok [b] ∧
      b.OnLines (.ofDelimiters "a" "z" .cStyle) "é\r\n  /* a */é\r\n/* z */\n" ∧
      (b.firstByte, b.lastByte, b.span.firstLine, b.span.lastLine, b.context.isMultiline) =
        (6, 23, 2, 3, true) := by
  have hrun : (Block.scan (.ofDelimiters "a" "z" .cStyle)
      "é\r\n  /* a */é\r\n/* z */\n").toOption.map (fun blocks => blocks.map fun b =>
        (b.firstByte, b.lastByte, b.span.firstLine, b.span.lastLine, b.context.isMultiline)) =
      some [(6, 23, 2, 3, true)] := by decide +kernel
  obtain ⟨blocks, hscan, hblocks⟩ := Option.map_eq_some_iff.1 hrun
  have hok := eq_ok_of_toOption hscan
  obtain ⟨b, rfl, hb⟩ := List.map_eq_singleton_iff.1 hblocks
  exact ⟨b, hok, Block.scan_lines.2 _ _ _ (by decide) hok b (List.mem_singleton_self b), hb⟩

end CommentBlocks
