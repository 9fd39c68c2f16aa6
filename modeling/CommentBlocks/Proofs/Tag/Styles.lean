import CommentBlocks.Proofs.Tag.Marks

/-!
The comment styles that need no configuration, and other delimiters whose tags are as easy to tell
from the white space around them.
-/

namespace CommentBlocks

open TagPattern (isSpace HasMark StartsMarked opensBlock closesBlock ofWord spellings)
open Unicode (isFiller)

/-- One of the comment styles that are known without a configuration. -/
def Delimiters.IsBuiltIn (d : Delimiters) : Prop := d = markdown ∨ d = cStyle ∨ d = hash

namespace Vocabulary

variable {v : Vocabulary}

/-- Either the delimiters hold no white space, or the delimiters and the words hold no line break
and the words are not blank. -/
def Plain (v : Vocabulary) : Prop :=
  (v.commentOpen ≠ "" ∧ ∀ c ∈ v.commentOpen.toList ++ v.commentClose.toList, isFiller c = false) ∨
    (∀ s ∈ [v.commentOpen, v.commentClose, v.openWord, v.closeWord],
      '\n' ∉ s.toList ∧ '\r' ∉ s.toList) ∧
      HasMark v.openWord.toList ∧ HasMark v.closeWord.toList

lemma mem_of_mem_spellings {word : String} {w : List Char} (hw : w ∈ spellings word) {c : Char}
    (hc : isFiller c = true) (h : c ∈ w) : c ∈ word.toList := by
  rcases Unicode.eq_or_eq_of_mem_spellings hw with rfl | rfl
  · exact h
  · exact Unicode.mem_lowerFrom_of_filler hc h

/-- A delimiter without white space is a mark at the start of every tag. -/
lemma startsMarked_of_opening {opening : List Char} (h0 : opening ≠ [])
    (h : ∀ c ∈ opening, isFiller c = false) (w : List Char) : StartsMarked (opening ++ w) := by
  cases opening with
  | nil => exact absurd rfl h0
  | cons d ds =>
    have hd : isFiller d = false := h d List.mem_cons_self
    refine ⟨[], d, ds ++ w, rfl, by simp [TagPattern.AllSpace], ?_, ?_, ?_⟩
    · exact Bool.eq_false_iff.2 fun hs => by
        rw [Unicode.isFiller_of_isSpace hs] at hd
        exact absurd hd (by decide)
    · rintro rfl
      exact absurd hd (by decide)
    · rintro rfl
      exact absurd hd (by decide)

lemma Plain.steady (h : v.Plain) : v.Steady := by
  rcases h with ⟨h0, hfill⟩ | ⟨hbreak, hopen, hclose⟩
  · have hclosing : ∀ c ∈ v.commentClose.toList, isFiller c = false :=
      fun c hc => hfill c (List.mem_append_right _ hc)
    have hspace : ∀ c ∈ v.commentClose.toList.head?, isSpace c = false := fun c hc =>
      Bool.eq_false_iff.2 fun hs => by
        have := hclosing c (List.mem_of_mem_head? hc)
        rw [Unicode.isFiller_of_isSpace hs] at this
        exact absurd this (by decide)
    have hstart : ∀ w, StartsMarked (v.commentOpen.toList ++ w) :=
      startsMarked_of_opening (by simpa using h0) fun c hc => hfill c (List.mem_append_left _ hc)
    exact
      { opens := TagPattern.regular_ofWord (.inl hspace)
        closes := TagPattern.regular_ofWord (.inl hspace)
        openMark := fun w _ => (hstart w).hasMark
        closeMark := fun w _ => hstart w
        lastMark := fun hl => by
          have := hclosing '\n' (List.mem_of_getLast? hl)
          exact absurd this (by decide) }
  · have hword {word : String} (hm : HasMark word.toList) {w : List Char}
        (hw : w ∈ spellings word) : HasMark w :=
      TagPattern.exists_not_isSpace_of_mem_spellings hw hm
    have hmark {word : String} (hm : HasMark word.toList) {w : List Char}
        (hw : w ∈ spellings word) : HasMark (v.commentOpen.toList ++ w) :=
      (hword hm hw).mono fun c hc => List.mem_append_right _ hc
    have hnone {c : Char} (hc : c = '\n' ∨ c = '\r') {w : List Char}
        (hw : w ∈ spellings v.closeWord) : c ∉ v.commentOpen.toList ++ w := by
      have hf : isFiller c = true := by rcases hc with rfl | rfl <;> decide
      have hopening := hbreak v.commentOpen (by simp)
      have hspelled := hbreak v.closeWord (by simp)
      rw [List.mem_append]
      rintro (hm | hm)
      · rcases hc with rfl | rfl
        · exact hopening.1 hm
        · exact hopening.2 hm
      · have hm' := mem_of_mem_spellings hw hf hm
        rcases hc with rfl | rfl
        · exact hspelled.1 hm'
        · exact hspelled.2 hm'
    exact
      { opens := TagPattern.regular_ofWord (.inr hopen)
        closes := TagPattern.regular_ofWord (.inr hclose)
        openMark := fun w hw => hmark hopen hw
        closeMark := fun w hw => TagPattern.startsMarked_of_hasMark (hmark hclose hw)
          (hnone (.inl rfl) hw) (hnone (.inr rfl) hw)
        lastMark := fun hl => (hbreak v.commentClose (by simp)).1 (List.mem_of_getLast? hl) }

end Vocabulary

namespace Delimiters

variable {d : Delimiters} {openWord closeWord : String}

lemma IsBuiltIn.plain (hd : d.IsBuiltIn) (openWord closeWord : String) :
    (Vocabulary.ofDelimiters openWord closeWord d).Plain := by
  have hopening : d.opening ≠ "" := by rcases hd with rfl | rfl | rfl <;> decide
  have hall : (d.opening.toList ++ d.closing.toList).all (fun c => !isFiller c) = true := by
    rcases hd with rfl | rfl | rfl <;> decide
  exact .inl ⟨hopening, fun c hc => by simpa using List.all_eq_true.1 hall c hc⟩

/-- The opening delimiter starts with a mark that is no white space. -/
lemma IsBuiltIn.head_opening (hd : d.IsBuiltIn) :
    ∃ c rest, d.opening.toList = c :: rest ∧ isFiller c = false := by
  rcases hd with rfl | rfl | rfl
  · exact ⟨'<', ['!', '-', '-'], by decide, by decide⟩
  · exact ⟨'/', ['*'], by decide, by decide⟩
  · exact ⟨'#', [], by decide, by decide⟩

lemma opening_closesBlock :
    (closesBlock (.ofDelimiters openWord closeWord d)).opening = d.opening.toList := rfl

lemma closing_closesBlock :
    (closesBlock (.ofDelimiters openWord closeWord d)).closing = d.closing.toList := rfl

lemma hasMark_lastLine_of_closing {p : TagPattern} (init : List Char) (c : Char)
    (h : p.closing = init ++ [c]) (hc : isSpace c = false) (hn : c ≠ '\n') (t : Tag) :
    HasMark ((p.text t).reverse.takeWhile (· != '\n')) := by
  have htext : p.text t = (p.opening ++ t.blanks ++ t.word ++ t.inner ++ init) ++ [c] := by
    rw [TagPattern.text, h, List.append_assoc _ init]
  refine ⟨c, ?_, hc⟩
  rw [htext, List.reverse_append]
  simp [hn]

lemma IsBuiltIn.hasMark_lastLine (hd : d.IsBuiltIn) (hw : '\n' ∉ closeWord.toList) {cs : List Char}
    {t : Tag} (hr : (closesBlock (.ofDelimiters openWord closeWord d)).read? cs = some t) :
    HasMark (((closesBlock (.ofDelimiters openWord closeWord d)).text t).reverse.takeWhile
      (· != '\n')) := by
  rcases hd with rfl | rfl | rfl
  · exact hasMark_lastLine_of_closing ['-', '-'] '>'
      (by rw [closing_closesBlock]; decide) (by decide) (by decide) t
  · exact hasMark_lastLine_of_closing ['*'] '/'
      (by rw [closing_closesBlock]; decide) (by decide) (by decide) t
  · have hclosing : (closesBlock (.ofDelimiters openWord closeWord hash)).closing = [] := by
      rw [closing_closesBlock]
      decide
    have hopening : (closesBlock (.ofDelimiters openWord closeWord hash)).opening = ['#'] := by
      rw [opening_closesBlock]
      decide
    obtain ⟨hb, hword, -⟩ := TagPattern.read?_spec hr
    have hinner : '\n' ∉ t.inner := TagPattern.not_mem_inner hclosing hr
    have hspelled : '\n' ∉ t.word := fun hm =>
      hw (Vocabulary.mem_of_mem_spellings hword (by decide) hm)
    have hnone : '\n' ∉ (closesBlock (.ofDelimiters openWord closeWord hash)).text t := by
      have hblanks : '\n' ∉ t.blanks := fun hm => TagPattern.AllSpace.not_mem hb hm
      simp [TagPattern.text, hopening, hclosing, hblanks, hspelled, hinner]
    have hall : ∀ c ∈ ((closesBlock (.ofDelimiters openWord closeWord hash)).text t).reverse,
        (c != '\n') = true := by
      intro c hc
      simp only [bne_iff_ne, ne_eq]
      rintro rfl
      exact hnone (List.mem_reverse.1 hc)
    rw [List.takeWhile_eq_self_iff.2 hall]
    refine ⟨'#', List.mem_reverse.2 ?_, by decide⟩
    simp [TagPattern.text, hopening]

end Delimiters

end CommentBlocks
