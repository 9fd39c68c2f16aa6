import CommentBlocks.Proofs.Tag.Boundary
import CommentBlocks.Proofs.Tag.Stripping

/-!
The tags that a scan finds in a text and those that stripping takes out of it: where they end, and
whether their words are whole words.

`Matches` follows the recursion of the scan, also of one that fails, and `TakesOut` that of a pass that
takes tags out. Every tag of either kind was read at its place, so what is known of reading holds of all
of them.
-/

namespace CommentBlocks

open TagPattern (opensBlock closesBlock isSpace)

/-- The tags that a pass takes out of a text. -/
inductive TagPattern.TakesOut (p : TagPattern) : List Char → Tag → Prop where
  | first {cs skipped : List Char} {t : Tag} (h : p.find? cs = some (skipped, t)) : p.TakesOut cs t
  | later {cs skipped : List Char} {t u : Tag} (h : p.find? cs = some (skipped, u))
      (ht : p.TakesOut u.after t) : p.TakesOut cs t

namespace Scan

/-- The tags that are found when the text `ahead` is scanned, with the patterns they are found by. -/
inductive Matches (v : Vocabulary) : List Char → TagPattern → Tag → Prop where
  | opens {ahead gap : List Char} {tag : Tag} (h : (opensBlock v).find? ahead = some (gap, tag)) :
      Matches v ahead (opensBlock v) tag
  | closes {ahead : List Char} (c : Cut v ahead) : Matches v ahead (closesBlock v) c.close
  /-- Behind a block whose arguments can be read the scan goes on. -/
  | later {ahead : List Char} {options : Options} {p : TagPattern} {t : Tag} (c : Cut v ahead)
      (ho : c.header.options = .ok options) (hl : c.close.after.length < ahead.length)
      (h : Matches v c.close.after p t) : Matches v ahead p t

end Scan

/-- A scan of the text finds the tag, or stripping takes it out of the text. -/
def Vocabulary.Handles (v : Vocabulary) (text : List Char) (p : TagPattern) (t : Tag) : Prop :=
  Scan.Matches v text p t ∨ (p = opensBlock v ∧ p.TakesOut text t) ∨
    p = closesBlock v ∧ p.TakesOut ((opensBlock v).remove text) t

variable {v : Vocabulary} {text : List Char} {p : TagPattern} {t : Tag}

lemma TagPattern.TakesOut.exists_read? (h : p.TakesOut text t) : ∃ cs, p.read? cs = some t := by
  induction h with
  | first h => exact ⟨_, (find?_eq_some_iff.1 h).2.1⟩
  | later _ _ ih => exact ih

lemma Scan.Matches.exists_read? (h : Matches v text p t) :
    p.closing = v.commentClose.toList ∧ ∃ cs, p.read? cs = some t := by
  induction h with
  | opens h => exact ⟨rfl, _, (TagPattern.find?_eq_some_iff.1 h).2.1⟩
  | closes c => exact ⟨rfl, _, (TagPattern.find?_eq_some_iff.1 c.closeFound).2.1⟩
  | later _ _ _ _ ih => exact ih

lemma Vocabulary.Handles.exists_read? (h : v.Handles text p t) :
    p.closing = v.commentClose.toList ∧ ∃ cs, p.read? cs = some t := by
  rcases h with h | ⟨rfl, h⟩ | ⟨rfl, h⟩
  · exact h.exists_read?
  · exact ⟨rfl, h.exists_read?⟩
  · exact ⟨rfl, h.exists_read?⟩

/-! ### Where a tag ends -/

/-- A tag ends with the first closing delimiter behind its word, unless that delimiter stands right
behind the word, could be the start of further text, and is followed by another one: then the tag ends
with the first delimiter behind the character after its word. -/
theorem Scan.closesFirst_iff (hv : v.commentClose ≠ "") {text : String}
    (h : Scan.Matches v text.toList p t) :
    (p.ClosesFirst t ↔ ¬ p.RunsOver t) ∧ (p.RunsOver t → p.ClosesSecond t) := by
  obtain ⟨hclosing, cs, hread⟩ := h.exists_read?
  refine TagPattern.closesFirst_iff_of_read? ?_ hread
  rw [hclosing]
  simpa using hv

/-- Between a slash and a star the tag runs over a delimiter right behind its word. -/
theorem Scan.closesFirst_iff_two_closes :
    let v : Vocabulary := .ofDelimiters "a" "z" .cStyle
    let tag : Tag := ⟨[], ['a'], "*/ /*z".toList, []⟩
    v.commentClose ≠ "" ∧ Scan.Matches v "/*a*/ /*z*/".toList (opensBlock v) tag ∧
      ((opensBlock v).ClosesFirst tag ↔ ¬ (opensBlock v).RunsOver tag) ∧
      ((opensBlock v).RunsOver tag → (opensBlock v).ClosesSecond tag) := by
  intro v tag
  have hfound : (opensBlock v).find? "/*a*/ /*z*/".toList = some ([], tag) := by decide +kernel
  have hmatch : Scan.Matches v "/*a*/ /*z*/".toList (opensBlock v) tag := .opens hfound
  exact ⟨by decide, hmatch, Scan.closesFirst_iff (by decide) hmatch⟩

/-- An open tag that is closed right behind its word takes the close tag in, so that the block is
reported as unclosed. -/
theorem Scan.runs_over_delimiter :
    let v : Vocabulary := .ofDelimiters Vocabulary.defaultOpenWord Vocabulary.defaultCloseWord .cStyle
    let text := "/* doc-gen*/ a /* end-doc-gen */"
    (∃ tag, Scan.Matches v text.toList (opensBlock v) tag ∧ ¬ (opensBlock v).ClosesFirst tag) ∧
      Block.scan v text = .error (.unclosedBlock Fault.unknownFile 1 text) := by
  intro v text
  have hfound : (opensBlock v).find? text.toList =
      some ([], ⟨[' '], "doc-gen".toList, "*/ a /* end-doc-gen ".toList, []⟩) := by decide +kernel
  refine ⟨⟨_, .opens hfound, fun hfirst => ?_⟩, by decide +kernel⟩
  have := hfirst [] " a /* end-doc-gen */".toList (by decide)
  exact absurd this (by decide)

/-! ### Whole words -/

lemma exists_run_on (hv : v.commentClose = "") :
    ∃ text p t, Scan.Matches v text p t ∧ ¬ p.WholeWord t := by
  have hclosing : (opensBlock v).closing = [] := by
    rw [opensBlock, TagPattern.ofWord, hv]
    rfl
  have hregular : (opensBlock v).Regular := TagPattern.regular_ofWord (.inl (by simp [hv]))
  have hword : v.openWord.toList ∈ (opensBlock v).words :=
    TagPattern.mem_spellings_self v.openWord
  have hends : TagPattern.endsWord 'x' = false := by decide +kernel
  have hread := TagPattern.read?_of_longer_word hregular hclosing hword hends []
  refine ⟨_, _, _, .opens (TagPattern.find?_of_read? hread), ?_⟩
  rintro (hwhole | ⟨hne, -⟩)
  · have := hwhole 'x' (by simp [TagPattern.behindWord, hclosing])
    rw [hends] at this
    exact absurd this (by decide)
  · exact hne hclosing

/-- The words of all tags are whole words exactly if a delimiter closes the tags. A word that runs on
into a longer one starts no block then, and is left alone by stripping. -/
theorem Vocabulary.wholeWord_iff (v : Vocabulary) :
    ((∀ text p t, v.Handles text p t → p.WholeWord t) ↔ v.commentClose ≠ "") ∧
      (v.commentClose ≠ "" → ∀ text, (opensBlock v).RunsOn text →
        Block.scan v (String.ofList text) = .ok [] ∧
          ((closesBlock v).RunsOn text → v.stripTags text = text)) := by
  have hclosing (hv : v.commentClose ≠ "") : v.commentClose.toList ≠ [] := by simpa using hv
  refine ⟨⟨fun hwhole hv => ?_, fun hv text p t h => ?_⟩, fun hv text hopen => ⟨?_, fun hclose => ?_⟩⟩
  · obtain ⟨text, p, t, hmatch, hnot⟩ := exists_run_on hv
    exact hnot (hwhole text p t (.inl hmatch))
  · obtain ⟨hcl, cs, hread⟩ := h.exists_read?
    exact TagPattern.wholeWord_of_read? (hcl ▸ hclosing hv) hread
  · rw [Scan.scan_eq_ok_iff, String.toList_ofList]
    exact .done (hopen.find?_eq_none (hclosing hv))
  · rw [stripTags, TagPattern.remove_of_find?_eq_none (hopen.find?_eq_none (hclosing hv)),
      TagPattern.remove_of_find?_eq_none (hclose.find?_eq_none (hclosing hv))]

/-- A longer word is passed over, and the word itself is found behind it. -/
theorem Vocabulary.wholeWord_iff_longer_word :
    let v : Vocabulary := .ofDelimiters "a" "z" .markdown
    let tag : Tag := ⟨[], ['a'], [], "<!--z-->".toList⟩
    v.commentClose ≠ "" ∧ v.Handles "<!--ab--><!--a--><!--z-->".toList (opensBlock v) tag ∧
      (opensBlock v).WholeWord tag := by
  intro v tag
  have hfound : (opensBlock v).find? "<!--ab--><!--a--><!--z-->".toList =
      some ("<!--ab-->".toList, tag) := by decide +kernel
  have hhandles : v.Handles "<!--ab--><!--a--><!--z-->".toList (opensBlock v) tag :=
    .inl (.opens hfound)
  exact ⟨by decide, hhandles, (v.wholeWord_iff).1.2 (by decide) _ _ _ hhandles⟩

/-- Tags that run to the end of the line are made of the front part of a longer word. -/
theorem Vocabulary.front_of_longer_word :
    let v : Vocabulary := .ofDelimiters defaultOpenWord defaultCloseWord .hash
    let tag : Tag := ⟨[' '], "doc-gen".toList, [], "erator".toList⟩
    (v.Handles "# doc-generator".toList (opensBlock v) tag ∧ ¬ (opensBlock v).WholeWord tag) ∧
      Block.scan v "# doc-generator" = .error (.unclosedBlock Fault.unknownFile 1 "# doc-gen") ∧
      v.stripTags "# doc-generator".toList = "erator".toList := by
  intro v tag
  have hfound : (opensBlock v).find? "# doc-generator".toList = some ([], tag) := by decide +kernel
  refine ⟨⟨.inl (.opens hfound), ?_⟩, by decide +kernel, by decide +kernel⟩
  rintro (hwhole | ⟨hclosing, -⟩)
  · exact absurd (hwhole 'e' rfl) (by decide +kernel)
  · exact hclosing (by decide)

end CommentBlocks
