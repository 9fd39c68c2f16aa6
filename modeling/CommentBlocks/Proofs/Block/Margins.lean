import CommentBlocks.Block.Scan
import CommentBlocks.Proofs.Tag.Marks

/-!
The white space that belongs to the tags of a block: the indentation of the open tag, the line break
behind it, and the line break and the blanks in front of a close tag on a line of its own.
-/

namespace CommentBlocks.Scan

open TagPattern (isSpace isSpace_ne AllSpace HasMark)
open Unicode (isFiller)

/-- A line feed, with or without a carriage return. -/
def IsBreak (cs : List Char) : Prop := cs = ['\n'] ∨ cs = ['\r', '\n']

lemma IsBreak.ne_nil {cs : List Char} (h : IsBreak cs) : cs ≠ [] := by
  rcases h with rfl | rfl <;> simp

lemma allSpace_takeWhile (cs : List Char) : AllSpace (cs.takeWhile isSpace) :=
  fun _ hc => List.mem_takeWhile_imp hc

lemma takeWhile_blanks {blanks : List Char} {d : Char} (hb : AllSpace blanks)
    (hd : isSpace d = false) (rest : List Char) : (blanks ++ d :: rest).takeWhile isSpace = blanks ∧
      (blanks ++ d :: rest).dropWhile isSpace = d :: rest := by
  rw [List.takeWhile_append_of_pos hb, List.dropWhile_append_of_pos hb]
  simp [hd]

/-! ### The end of the line of an open tag -/

lemma lineEnd_break {blanks brk rest : List Char} (hb : AllSpace blanks) (hk : IsBreak brk) :
    lineEnd (blanks ++ (brk ++ rest)) = blanks ++ brk := by
  unfold lineEnd
  rcases hk with rfl | rfl
  · obtain ⟨ht, hd⟩ := takeWhile_blanks hb (by decide : isSpace '\n' = false) rest
    simp only [List.cons_append, List.nil_append, ht, hd]
  · obtain ⟨ht, hd⟩ := takeWhile_blanks hb (by decide : isSpace '\r' = false) ('\n' :: rest)
    simp only [List.cons_append, List.nil_append, ht, hd]

lemma lineEnd_cases (cs : List Char) : lineEnd cs = [] ∨
    ∃ blanks brk rest, AllSpace blanks ∧ IsBreak brk ∧ cs = blanks ++ (brk ++ rest) ∧
      lineEnd cs = blanks ++ brk := by
  have hcs := (List.takeWhile_append_dropWhile (p := isSpace) (l := cs)).symm
  have hb := allSpace_takeWhile cs
  unfold lineEnd
  simp only
  split
  · next rest hd => exact .inr ⟨_, _, rest, hb, .inr rfl, by rw [hd] at hcs; exact hcs, rfl⟩
  · next rest hd => exact .inr ⟨_, _, rest, hb, .inl rfl, by rw [hd] at hcs; exact hcs, rfl⟩
  · exact .inl rfl

lemma lineEnd_isPrefix (cs : List Char) : lineEnd cs <+: cs := by
  rcases lineEnd_cases cs with h | ⟨blanks, brk, rest, -, -, hcs, h⟩
  · rw [h]
    exact List.nil_prefix
  · rw [h]
    exact ⟨rest, by rw [hcs, List.append_assoc]⟩

@[simp] lemma lineEnd_append_drop (cs : List Char) :
    lineEnd cs ++ cs.drop (lineEnd cs).length = cs :=
  (List.prefix_append_drop (lineEnd_isPrefix cs)).symm

lemma lineEnd_append_of_ne_nil {cs : List Char} (h : lineEnd cs ≠ []) (rest : List Char) :
    lineEnd (cs ++ rest) = lineEnd cs := by
  rcases lineEnd_cases cs with h0 | ⟨blanks, brk, tail, hb, hk, hcs, he⟩
  · exact absurd h0 h
  · rw [he, hcs, List.append_assoc, List.append_assoc, lineEnd_break hb hk]

/-- Text put behind the end of a line only lengthens an end that is missing. -/
lemma lineEnd_lineEnd_append (cs rest : List Char) :
    ∃ more inside, rest = more ++ inside ∧ lineEnd (lineEnd cs ++ rest) = lineEnd cs ++ more := by
  by_cases h0 : lineEnd cs = []
  · obtain ⟨inside, hinside⟩ := lineEnd_isPrefix rest
    exact ⟨lineEnd rest, inside, hinside.symm, by rw [h0, List.nil_append, List.nil_append]⟩
  · have hidem : lineEnd (lineEnd cs) = lineEnd cs := by
      rcases lineEnd_cases cs with h | ⟨blanks, brk, -, hb, hk, -, h⟩
      · exact absurd h h0
      · rw [h, ← List.append_nil brk, lineEnd_break hb hk, List.append_nil]
    refine ⟨[], rest, rfl, ?_⟩
    rw [lineEnd_append_of_ne_nil (by rwa [hidem]), hidem, List.append_nil]

lemma lineEnd_append_mark {cs front rest : List Char} {d : Char} (hf : AllSpace front)
    (hd : isSpace d = false) (hn : d ≠ '\n') (hr : d ≠ '\r') :
    lineEnd (cs ++ (front ++ d :: rest)) = lineEnd cs := by
  by_cases h : lineEnd cs = []
  · rw [h]
    rcases lineEnd_cases (cs ++ (front ++ d :: rest)) with
      h0 | ⟨blanks, brk, tail, hb, hk, hcs, -⟩
    · exact h0
    exfalso
    have hmem : ∀ c ∈ blanks ++ brk, isSpace c = true ∨ c = '\n' ∨ c = '\r' := by
      intro c hc
      rcases List.mem_append.1 hc with hc | hc
      · exact .inl (hb c hc)
      · rcases hk with rfl | rfl <;> simp at hc <;> tauto
    have hlast : (blanks ++ brk).getLast? = some '\n' := by
      rcases hk with rfl | rfl <;> simp
    have htext : (blanks ++ brk) ++ tail = cs ++ (front ++ d :: rest) := by
      rw [hcs, List.append_assoc]
    rcases List.append_eq_append_iff.1 htext with ⟨z, rfl, -⟩ | ⟨w, hw, hrest⟩
    · -- the break lies in `cs`
      rw [List.append_assoc, lineEnd_break hb hk] at h
      exact hk.ne_nil (List.append_eq_nil_iff.1 h).2
    by_cases hw0 : w = []
    · rw [hw0, List.append_nil] at hw
      rw [← hw, ← List.append_nil brk, lineEnd_break hb hk] at h
      exact hk.ne_nil (List.append_eq_nil_iff.1 h).2
    have hwn : '\n' ∈ w := by
      rw [hw, List.getLast?_append_of_ne_nil _ hw0] at hlast
      exact List.mem_of_getLast? hlast
    rcases List.append_eq_append_iff.1 hrest with ⟨z, hz, hz'⟩ | ⟨z, hz, -⟩
    · -- the mark would be one of the blanks or part of the break
      cases z with
      | nil =>
        rw [List.append_nil] at hz
        exact hf.not_mem (hz ▸ hwn)
      | cons e z =>
        obtain ⟨rfl, -⟩ := List.cons.inj hz'
        rcases hmem d (by rw [hw, hz]; simp) with hs | hs | hs
        · rw [hd] at hs
          exact absurd hs (by decide)
        · exact hn hs
        · exact hr hs
    · exact hf.not_mem (by rw [hz]; exact List.mem_append_left _ hwn)
  · exact lineEnd_append_of_ne_nil h _

/-! ### The indentation -/

lemma blankLine_append {front : List Char} (h : HasMark front) (rest : List Char) :
    ((front ++ rest).takeWhile (· != '\n')).all isSpace =
        (front.takeWhile (· != '\n')).all isSpace ∧
      ((front.takeWhile (· != '\n')).all isSpace = true →
        (front ++ rest).takeWhile (· != '\n') = front.takeWhile (· != '\n')) := by
  by_cases hn : '\n' ∈ front
  · have : (front ++ rest).takeWhile (· != '\n') = front.takeWhile (· != '\n') := by
      rw [List.takeWhile_append, if_neg]
      intro hl
      have := List.takeWhile_eq_self_iff.1 ((List.takeWhile_prefix _).eq_of_length hl) _ hn
      simp at this
    exact ⟨by rw [this], fun _ => this⟩
  · have hall : ∀ c ∈ front, (c != '\n') = true := fun c hc => by
      simp only [bne_iff_ne, ne_eq]
      rintro rfl
      exact hn hc
    obtain ⟨c, hc, hs⟩ := h
    have hfront : front.all isSpace = false := by
      rw [List.all_eq_false]
      exact ⟨c, hc, by simp [hs]⟩
    rw [List.takeWhile_append_of_pos hall, List.takeWhile_eq_self_iff.2 hall, List.all_append,
      hfront]
    exact ⟨rfl, fun h => absurd h (by decide)⟩

lemma indentation_append {front : List Char} (h : HasMark front) (rest : List Char) :
    indentation (front ++ rest) = indentation front := by
  obtain ⟨hall, hline⟩ := blankLine_append h rest
  unfold indentation
  simp only [hall]
  split
  · next hb => rw [hline hb]
  · rfl

/-- The indentation stands right in front of the tag. -/
lemma indentation_isPrefix (behind : List Char) : (indentation behind).reverse <+: behind := by
  unfold indentation
  simp only
  split
  · rw [List.reverse_reverse]
    exact List.takeWhile_prefix _
  · exact List.nil_prefix

/-- The indentation ends at a mark, even at the start of a text. -/
lemma length_indentation_le (front : List Char) {rest : List Char}
    (h : HasMark (rest.takeWhile (· != '\n'))) :
    (indentation (front ++ rest)).length ≤ front.length := by
  unfold indentation
  simp only
  split
  · next hb =>
    rw [List.length_reverse]
    by_contra hlen
    obtain ⟨c, hc, hs⟩ := h
    have hfront : ∀ d ∈ front, (d != '\n') = true := by
      intro d hd
      have hpre : front <+: (front ++ rest).takeWhile (· != '\n') :=
        List.prefix_of_prefix_length_le ⟨rest, rfl⟩ (List.takeWhile_prefix _) (by omega)
      exact List.mem_takeWhile_imp (p := (· != '\n')) (hpre.subset hd)
    rw [List.takeWhile_append_of_pos hfront] at hb
    have := List.all_eq_true.1 hb c (List.mem_append_right _ hc)
    rw [hs] at this
    exact absurd this (by decide)
  · simp

/-! ### The lead of a close tag -/

lemma dropBreak_cases (cs : List Char) :
    dropBreak cs = cs ∨ ∃ brk, IsBreak brk ∧ cs = brk.reverse ++ dropBreak cs := by
  unfold dropBreak
  split
  · exact .inr ⟨['\r', '\n'], .inr rfl, rfl⟩
  · exact .inr ⟨['\n'], .inl rfl, rfl⟩
  · exact .inl rfl

lemma dropBreak_append {brk cs : List Char} (hk : IsBreak brk)
    (hr : brk = ['\n'] → cs.head? ≠ some '\r') : dropBreak (brk.reverse ++ cs) = cs := by
  rcases hk with rfl | rfl
  · cases cs with
    | nil => rfl
    | cons c cs =>
      have hc : c ≠ '\r' := fun h => hr rfl (by rw [h]; rfl)
      simp [dropBreak, hc]
  · rfl

lemma dropBreak_suffix (cs : List Char) : dropBreak cs <:+ cs := by
  rcases dropBreak_cases cs with h | ⟨brk, -, h⟩
  · rw [h]
  · exact ⟨brk.reverse, h.symm⟩

lemma append_splitLead (behind between : List Char) :
    (splitLead behind between).1 ++ (splitLead behind between).2 = between := by
  unfold splitLead
  simp only
  split
  · refine (List.prefix_append_drop ?_).symm
    rw [← List.reverse_suffix, List.reverse_reverse]
    exact (dropBreak_suffix _).trans (List.drop_suffix _ _)
  · simp

lemma splitLead_append {front : List Char} (h : HasMark front) (rest between : List Char) :
    splitLead (front ++ rest) between = splitLead front between := by
  obtain ⟨c, hc, hs⟩ := h
  have hmark : HasMark (between.reverse ++ front) := ⟨c, by simp [hc], hs⟩
  obtain ⟨hall, hline⟩ := blankLine_append hmark rest
  unfold splitLead
  simp only [← List.append_assoc, hall]
  split
  · next hb => rw [hline hb]
  · rfl

lemma takeWhile_line {blanks : List Char} (h : AllSpace blanks) (rest : List Char) :
    (blanks ++ '\n' :: rest).takeWhile (· != '\n') = blanks := by
  have hall : ∀ c ∈ blanks, (c != '\n') = true := fun c hc => by
    simpa using (isSpace_ne (h c hc)).1
  rw [List.takeWhile_append_of_pos hall]
  simp

lemma splitLead_break {content brk blanks : List Char} (hk : IsBreak brk) (hb : AllSpace blanks)
    (hr : brk = ['\n'] → content.getLast? ≠ some '\r') (behind : List Char) :
    splitLead behind (content ++ (brk ++ blanks)) = (content, brk ++ blanks) := by
  have hrev : (content ++ (brk ++ blanks)).reverse = blanks.reverse ++ (brk.reverse ++ content.reverse) := by
    simp
  have hline : ((content ++ (brk ++ blanks)).reverse ++ behind).takeWhile (· != '\n') =
      blanks.reverse := by
    rw [hrev]
    rcases hk with rfl | rfl <;>
      simpa using takeWhile_line hb.reverse _
  have hdrop : dropBreak (brk.reverse ++ content.reverse) = content.reverse := by
    refine dropBreak_append hk fun h => ?_
    rw [List.head?_reverse]
    exact hr h
  unfold splitLead
  simp only
  rw [hline, if_pos hb.reverse.all, hrev, List.drop_left, hdrop, List.reverse_reverse,
    List.drop_left]

/-- The content ends in front of the last line break, when nothing but blanks follows that. -/
lemma length_splitLead_le {blanks : List Char} (hb : AllSpace blanks) (behind front : List Char) :
    (splitLead behind (front ++ '\n' :: blanks)).1.length ≤ front.length := by
  by_cases hr : front.getLast? = some '\r'
  · obtain ⟨init, rfl⟩ := List.getLast?_eq_some_iff.1 hr
    have hsplit : splitLead behind (init ++ '\r' :: '\n' :: blanks) = (init, '\r' :: '\n' :: blanks) :=
      splitLead_break (.inr rfl) hb (fun e => absurd e (by decide)) behind
    rw [List.append_assoc, List.singleton_append, hsplit]
    simp
  · have hsplit : splitLead behind (front ++ '\n' :: blanks) = (front, '\n' :: blanks) :=
      splitLead_break (.inl rfl) hb (fun _ => hr) behind
    rw [hsplit]

lemma splitLead_blanks {blanks : List Char} (hb : AllSpace blanks) (behind : List Char) :
    splitLead ('\n' :: behind) blanks = ([], blanks) := by
  unfold splitLead
  simp only
  rw [takeWhile_line hb.reverse _, if_pos hb.reverse.all, List.drop_length]
  rfl

lemma splitLead_mark {front between : List Char} (h : HasMark front)
    (hn : '\n' ∉ front) (hb : '\n' ∉ between) : splitLead front between = (between, []) := by
  have hall : ∀ c ∈ between.reverse ++ front, (c != '\n') = true := fun c hc => by
    simp only [bne_iff_ne, ne_eq]
    rintro rfl
    rcases List.mem_append.1 hc with hc | hc
    · exact hb (List.mem_reverse.1 hc)
    · exact hn hc
  unfold splitLead
  simp only
  rw [List.takeWhile_eq_self_iff.2 hall, if_neg]
  obtain ⟨c, hc, hs⟩ := h
  intro hspace
  have := List.all_eq_true.1 hspace c (List.mem_append_right _ hc)
  rw [hs] at this
  exact absurd this (by decide)

lemma splitLead_cases (behind between : List Char) : AllSpace (splitLead behind between).2 ∨
    ∃ brk blanks, IsBreak brk ∧ AllSpace blanks ∧ (splitLead behind between).2 = brk ++ blanks := by
  by_cases hall : ((between.reverse ++ behind).takeWhile (· != '\n')).all isSpace = true
  · set line := (between.reverse ++ behind).takeWhile (· != '\n') with hline
    have hspace : AllSpace line := List.all_eq_true.1 hall
    have hsplit : splitLead behind between =
        ((dropBreak (between.reverse.drop line.length)).reverse,
          between.drop (dropBreak (between.reverse.drop line.length)).reverse.length) := by
      unfold splitLead
      simp only [← hline, hall, if_true]
    have hpre : line <+: between.reverse ++ behind := List.takeWhile_prefix _
    rcases List.prefix_or_prefix_of_prefix hpre ⟨behind, rfl⟩ with ⟨z, hz⟩ | hle
    · have hbetween : between = z.reverse ++ line.reverse := by
        rw [← List.reverse_append, hz, List.reverse_reverse]
      have hdrop : between.reverse.drop line.length = z := by rw [← hz, List.drop_left]
      rw [hsplit, hdrop]
      rcases dropBreak_cases z with h | ⟨brk, hk, h⟩
      · left
        rw [h, hbetween]
        simpa using hspace.reverse
      · right
        refine ⟨brk, line.reverse, hk, hspace.reverse, ?_⟩
        have : z.reverse = (dropBreak z).reverse ++ brk := by
          conv_lhs => rw [h]
          simp
        simp only
        rw [hbetween, this, List.append_assoc, List.drop_left]
    · left
      have hdrop : between.reverse.drop line.length = [] := List.drop_eq_nil_of_le hle.length_le
      rw [hsplit, hdrop]
      intro c hc
      exact hspace c (hle.subset (List.mem_reverse.2 (List.mem_of_mem_drop hc)))
  · left
    unfold splitLead
    simp only [hall]
    exact fun c hc => absurd hc (by simp)

/-! ### Only white space belongs to the tags -/

lemma IsBreak.isFiller {brk : List Char} (h : IsBreak brk) : ∀ d ∈ brk, isFiller d = true := by
  rcases h with rfl | rfl <;> exact List.all_eq_true.1 (by decide)

lemma isFiller_lineEnd {cs : List Char} : ∀ d ∈ lineEnd cs, isFiller d = true := by
  intro d hd
  rcases lineEnd_cases cs with h | ⟨blanks, brk, -, hb, hk, -, h⟩ <;> rw [h] at hd
  · simp at hd
  · rcases List.mem_append.1 hd with hd | hd
    · exact Unicode.isFiller_of_isSpace (hb d hd)
    · exact hk.isFiller d hd

lemma lineEnd_isPrefix_of_mark {cs rest : List Char} {d : Char} (hd : isFiller d = false) :
    lineEnd (cs ++ d :: rest) <+: cs := by
  have hpre : lineEnd (cs ++ d :: rest) <+: cs ++ d :: rest := lineEnd_isPrefix _
  rcases List.prefix_or_prefix_of_prefix hpre ⟨_, rfl⟩ with h | ⟨z, hz⟩
  · exact h
  · cases z with
    | nil => exact ⟨[], by rw [← hz]; simp⟩
    | cons e z =>
      have hfill : isFiller e = true := isFiller_lineEnd e (by rw [← hz]; simp)
      rw [← hz, List.prefix_append_right_inj] at hpre
      obtain ⟨rfl, -⟩ := List.cons_prefix_cons.1 hpre
      rw [hd] at hfill
      exact absurd hfill (by decide)

lemma isFiller_splitLead {behind between : List Char} :
    ∀ d ∈ (splitLead behind between).2, isFiller d = true := by
  intro d hd
  rcases splitLead_cases behind between with h | ⟨brk, blanks, hk, hb, h⟩
  · exact Unicode.isFiller_of_isSpace (h d hd)
  · rw [h] at hd
    rcases List.mem_append.1 hd with hd | hd
    · exact hk.isFiller d hd
    · exact Unicode.isFiller_of_isSpace (hb d hd)

end CommentBlocks.Scan
