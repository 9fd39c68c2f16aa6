import CommentBlocks.Proofs.Block.Shape
import CommentBlocks.Proofs.Render.Splice

/-!
The first block of a text whose blocks got new contents.

The block is cut off the new text at the same tags as off the old one, unless a close tag starts in
the new content. The white space between the tags may be shared out in another way.
-/

namespace CommentBlocks

open Text (bytes slice dropBytes IsCut)
open TagPattern (AllSpace HasMark StartsMarked opensBlock closesBlock)
open Unicode (isFiller)
open Engine (spliced)

/-! ### The new text from the start of a block on -/

lemma spliced_shift {text : List Char} {m n : Nat} {edits : List (Block × List Char)}
    (hm : IsCut text m) (hn : IsCut text n) (hle : m ≤ n)
    (hl : Block.Laid text n (edits.map Prod.fst)) :
    spliced text m edits = slice text m n ++ spliced text n edits := by
  cases edits with
  | nil => rw [spliced, spliced, Text.slice_append_dropBytes hm hn hle]
  | cons edit edits =>
    obtain ⟨b, new⟩ := edit
    cases hl with
    | cons _ hstart _ hplace _ _ _ =>
      rw [spliced, spliced, ← Text.slice_append_slice hm hn hle hplace]
      simp

lemma spliced_cons {front head content tail rest : List Char} {b : Block}
    {edits : List (Block × List Char)} (new : List Char)
    (hstart : b.content.start = bytes front + bytes head)
    (hstop : b.content.stop = bytes front + (bytes head + bytes content))
    (hl : Block.Laid (front ++ (head ++ (content ++ (tail ++ rest))))
      (bytes (front ++ (head ++ (content ++ tail)))) (edits.map Prod.fst)) :
    spliced (front ++ (head ++ (content ++ (tail ++ rest)))) (bytes front) ((b, new) :: edits) =
      head ++ (new ++ (tail ++ spliced (front ++ (head ++ (content ++ (tail ++ rest))))
        (bytes (front ++ (head ++ (content ++ tail)))) edits)) := by
  have hhead := Text.slice_middle front head (content ++ (tail ++ rest))
  have htail := Text.slice_middle (front ++ (head ++ content)) tail rest
  simp only [List.append_assoc] at hhead htail
  have hcut : IsCut (front ++ (head ++ (content ++ (tail ++ rest))))
      (bytes (front ++ (head ++ content))) :=
    ⟨front ++ (head ++ content), tail ++ rest, by simp, rfl⟩
  have hcut' : IsCut (front ++ (head ++ (content ++ (tail ++ rest))))
      (bytes (front ++ (head ++ (content ++ tail)))) :=
    ⟨front ++ (head ++ (content ++ tail)), rest, by simp, rfl⟩
  have hstop' : b.content.stop = bytes (front ++ (head ++ content)) := by
    rw [hstop, Text.bytes_append, Text.bytes_append]
  have hle : bytes (front ++ (head ++ content)) ≤ bytes (front ++ (head ++ (content ++ tail))) := by
    simp only [Text.bytes_append]
    omega
  have hsize : bytes (front ++ (head ++ content)) + bytes tail =
      bytes (front ++ (head ++ (content ++ tail))) := by
    simp only [Text.bytes_append]
    omega
  rw [hsize] at htail
  rw [spliced, hstart, hhead, hstop', spliced_shift hcut hcut' hle hl, htail]
  simp

namespace Scan

variable {v : Vocabulary} {ahead : List Char}

lemma Cut.spliced_eq (c : Cut v ahead) (behind : List Char) (lineStarts : List Nat) (index : Nat)
    (header : Header) (options : Options) {edits : List (Block × List Char)} (new : List Char)
    (hl : Block.Laid (behind.reverse ++ ahead) (bytes (c.passed behind)) (edits.map Prod.fst)) :
    spliced (behind.reverse ++ ahead) (bytes behind)
        (((c.pieces behind).toBlock lineStarts index header options, new) :: edits) =
      c.gap ++ (c.openTag ++ (c.openEnd ++ (new ++ ((c.pieces behind).lead ++ (c.closeTag ++
        spliced (behind.reverse ++ ahead) (bytes (c.passed behind)) edits))))) := by
  have htext : behind.reverse ++ ahead = behind.reverse ++ ((c.gap ++ (c.openTag ++ c.openEnd)) ++
      ((c.pieces behind).content ++ ((c.pieces behind).closeText ++ c.close.after))) := by
    conv_lhs => rw [c.ahead_eq, ← c.content_append_lead behind]
    simp [Pieces.closeText, Cut.pieces]
  have hpassed : bytes (c.passed behind) = bytes (behind.reverse ++
      ((c.gap ++ (c.openTag ++ c.openEnd)) ++
        ((c.pieces behind).content ++ (c.pieces behind).closeText))) := by
    have := congrArg bytes (htext.symm.trans (c.reverse_passed_append behind).symm)
    simp only [Text.bytes_append, Text.bytes_reverse] at this ⊢
    omega
  rw [hpassed, htext] at hl
  have hsplice := spliced_cons (b := (c.pieces behind).toBlock lineStarts index header options) new
    (by simp only [Pieces.toBlock, Pieces.openStop, Pieces.tagStart, Cut.pieces, Cut.reached,
          Text.bytes_append, Text.bytes_reverse]
        omega)
    (by simp only [Pieces.toBlock, Pieces.closeStart, Pieces.openStop, Pieces.tagStart, Cut.pieces,
          Cut.reached, Text.bytes_append, Text.bytes_reverse]
        omega) hl
  rw [← htext, ← hpassed, Text.bytes_reverse] at hsplice
  rw [hsplice]
  simp [Pieces.closeText, Cut.pieces]

lemma Cut.dropBytes_stop (c : Cut v ahead) (behind : List Char) :
    dropBytes (c.pieces behind).closeStart (behind.reverse ++ ahead) =
      (c.pieces behind).lead ++ (c.closeTag ++ c.close.after) := by
  obtain ⟨front, htext, -, -, hclose⟩ := c.text_eq behind
  rw [htext, ← hclose, ← List.append_assoc, ← List.append_assoc, Text.dropBytes_append]
  simp [Pieces.closeText, Cut.pieces]

/-! ### The first block of the new text -/

lemma Cut.unique (c c' : Cut v ahead) : c = c' := by
  obtain ⟨gap, tag, between, close, hopen, hclose⟩ := c
  obtain ⟨gap', tag', between', close', hopen', hclose'⟩ := c'
  obtain ⟨rfl, rfl⟩ := Prod.mk.inj (Option.some.inj (hopen.symm.trans hopen'))
  obtain ⟨rfl, rfl⟩ := Prod.mk.inj (Option.some.inj (hclose.symm.trans hclose'))
  rfl

/-- An open tag without anything after its word names no transform. -/
lemma Cut.header_of_inner (c : Cut v ahead) (hc : (opensBlock v).closing = [])
    (hi : c.tag.inner = []) : c.header.transform = none := by
  have hclose : v.commentClose.toList = [] := hc
  rw [Cut.header, hi, hclose]
  decide

/-- The text behind an open tag that runs to the end of its line starts with a line break. -/
lemma Cut.openEnd_ne_nil (hv : v.Steady) (c : Cut v ahead) (hc : (opensBlock v).closing = [])
    (hi : c.tag.inner ≠ []) : c.openEnd ≠ [] := by
  obtain ⟨-, -, he⟩ := TagPattern.read?_spec (TagPattern.find?_eq_some_iff.1 c.openFound).2.1
  unfold TagPattern.readEnd? at he
  rw [if_pos hc, Option.some.injEq] at he
  have hhead := (TagPattern.head?_of_readLine he).2 hi
  cases hafter : c.tag.after with
  | nil =>
    rw [c.after_eq] at hafter
    exact absurd (List.append_eq_nil_iff.1 (List.append_eq_nil_iff.1
      (List.append_eq_nil_iff.1 hafter).2).2).1 (c.closeTag_ne_nil hv)
  | cons d rest =>
    rw [hafter] at hhead
    obtain rfl : d = '\n' := hhead d rfl
    have : lineEnd ([] ++ (['\n'] ++ rest)) = [] ++ ['\n'] := lineEnd_break (by simp [AllSpace]) (.inl rfl)
    rw [Cut.openEnd, hafter]
    exact fun h => by
      rw [List.nil_append, List.singleton_append, h] at this
      simp at this

/-- A named block ends its open tag with a mark or a blank. -/
lemma Cut.getLast?_openTag (hv : v.Steady) (c : Cut v ahead) (hn : c.header.transform ≠ none) :
    c.openTag.getLast? ≠ some '\n' := by
  have htext : c.openTag = (opensBlock v).opening ++ c.tag.blanks ++ c.tag.word ++ c.tag.inner ++
    (opensBlock v).closing := rfl
  by_cases hc : (opensBlock v).closing = []
  · have hi : c.tag.inner ≠ [] := fun hi => hn (c.header_of_inner hc hi)
    have hmem : '\n' ∉ c.tag.inner :=
      TagPattern.not_mem_inner hc (TagPattern.find?_eq_some_iff.1 c.openFound).2.1
    rw [htext, hc, List.append_nil, List.getLast?_append_of_ne_nil _ hi]
    exact fun h => hmem (List.mem_of_getLast? h)
  · rw [htext, List.getLast?_append_of_ne_nil _ hc]
    exact hv.lastMark

lemma Cut.found_of_after (c : Cut v ahead) {inside : List Char}
    (h : c.tag.after = c.openEnd ++ inside) :
    (closesBlock v).find? inside = some (c.between, c.close) := by
  have hdrop : c.tag.after.drop c.openEnd.length = inside := by rw [h, List.drop_left]
  rw [← hdrop]
  exact c.closeFound

section Refill

variable (c : Cut v ahead) {content lead new rest' : List Char}
  (hbetween : c.between = content ++ lead)
include hbetween

lemma Cut.lead_found : (closesBlock v).find? (lead ++ (c.closeTag ++ c.close.after)) =
    some (lead, c.close) := by
  have hclose : (closesBlock v).find? (content ++ (lead ++ (c.closeTag ++ c.close.after))) =
      some (c.between, c.close) := by
    refine c.found_of_after ?_
    rw [c.after_eq, hbetween, List.append_assoc]
  rw [hbetween] at hclose
  exact TagPattern.find?_drop hclose

lemma Cut.open_swap (hv : v.Steady) (hkeep : c.header.transform = none → new = content) :
    (opensBlock v).find? (c.gap ++ (c.openTag ++
        (c.openEnd ++ (new ++ (lead ++ (c.closeTag ++ rest')))))) =
      some (c.gap,
        { c.tag with after := c.openEnd ++ (new ++ (lead ++ (c.closeTag ++ rest'))) }) := by
  refine TagPattern.find?_swap hv.opens c.openFound (.inr ?_)
  have hafter := c.after_eq
  by_cases hc : (opensBlock v).closing = []
  · rw [if_pos hc, hafter, hbetween]
    by_cases hi : c.tag.inner = []
    · rw [hkeep (c.header_of_inner hc hi)]
      cases hclose : c.closeTag with
      | nil => exact absurd hclose (c.closeTag_ne_nil hv)
      | cons d ds => simp [List.head?_append]
    · cases hend : c.openEnd with
      | nil => exact absurd hend (c.openEnd_ne_nil hv hc hi)
      | cons d ds => rfl
  · rw [if_neg hc, hafter]
    refine List.infix_append_of_infix_right (List.infix_append_of_infix_right
      (List.infix_append_of_infix_left ?_))
    exact ⟨(opensBlock v).opening ++ c.close.blanks ++ c.close.word ++ c.close.inner, [], by
      simp [Cut.closeTag, TagPattern.text]; rfl⟩

/-- The close tag is found where it was, when nothing but `lead` stands in front of it. -/
lemma Cut.close_swap (hv : v.Steady) (hrest : (closesBlock v).Alike c.close.after rest') :
    (closesBlock v).find? (lead ++ (c.closeTag ++ rest')) =
      some (lead, { c.close with after := rest' }) :=
  TagPattern.find?_swap hv.closes (c.lead_found hbetween) hrest

/-- With a new content in which no close tag starts, the block is cut off at the same tags. -/
lemma Cut.refill (hv : v.Steady) (hkeep : c.header.transform = none → new = content)
    (hrest : (closesBlock v).Alike c.close.after rest')
    (hfree : ¬ (closesBlock v).StartsIn new (lead ++ (c.closeTag ++ c.close.after))) :
    ∃ c' : Cut v (c.gap ++ (c.openTag ++ (c.openEnd ++ (new ++ (lead ++ (c.closeTag ++ rest')))))),
      c'.gap = c.gap ∧ c'.openTag = c.openTag ∧ c'.header = c.header ∧ c'.closeTag = c.closeTag ∧
        c'.close.after = rest' ∧ c'.openEnd ++ c'.between = c.openEnd ++ (new ++ lead) := by
  have hclose := c.close_swap hbetween hv hrest
  have hfree' : ¬ (closesBlock v).StartsIn new (lead ++ (c.closeTag ++ rest')) := fun hs =>
    hfree (hs.swap hv.closes (c.lead_found hbetween))
  obtain ⟨front, d, rest, hmark, hf, hd, hn, hr⟩ := c.startsMarked_closeTag hv
  -- the line break of the open tag may now come out of `new` and `lead`
  set stop := lineEnd (c.openEnd ++ (new ++ lead)) with hstop
  have hend : lineEnd (c.openEnd ++ (new ++ (lead ++ (c.closeTag ++ rest')))) = stop := by
    have hsame : lineEnd ((c.openEnd ++ (new ++ lead)) ++ (front ++ d :: (rest ++ rest'))) = stop :=
      lineEnd_append_mark hf hd hn hr
    rw [← hsame, hmark]
    simp
  obtain ⟨more, inside, hsplit, hmore⟩ :
      ∃ more inside, new ++ lead = more ++ inside ∧ stop = c.openEnd ++ more :=
    lineEnd_lineEnd_append c.tag.after (new ++ lead)
  have hinside : stop ++ inside = c.openEnd ++ (new ++ lead) := by
    rw [hmore, hsplit, List.append_assoc]
  have hdrop : (c.openEnd ++ (new ++ (lead ++ (c.closeTag ++ rest')))).drop stop.length =
      inside ++ (c.closeTag ++ rest') := by
    have : c.openEnd ++ (new ++ (lead ++ (c.closeTag ++ rest'))) =
        stop ++ (inside ++ (c.closeTag ++ rest')) := by
      rw [← List.append_assoc stop, hinside]
      simp
    rw [this, List.drop_left]
  have hfound : (closesBlock v).find? (inside ++ (c.closeTag ++ rest')) =
      some (inside, { c.close with after := rest' }) := by
    rcases List.append_eq_append_iff.1 hsplit with ⟨z, rfl, rfl⟩ | ⟨z, rfl, rfl⟩
    · rw [List.append_assoc] at hclose
      exact TagPattern.find?_drop hclose
    · rw [List.append_assoc]
      refine (TagPattern.find?_append_iff hclose).2 fun ⟨u, hu, hsuf, hread⟩ => hfree' ?_
      exact ⟨u, hu, hsuf.trans (List.suffix_append _ _), hread⟩
  refine ⟨⟨c.gap, _, inside, { c.close with after := rest' }, c.open_swap hbetween hv hkeep, ?_⟩,
    rfl, rfl, rfl, rfl, rfl, ?_⟩
  · rw [hend, hdrop]
    exact hfound
  · change lineEnd _ ++ inside = _
    rw [hend, hinside]

/-- Any first block of the new text has the open tag in common with the old one. -/
lemma Cut.open_eq (hv : v.Steady) (hkeep : c.header.transform = none → new = content)
    {ahead' : List Char} (hahead : ahead' = c.gap ++ (c.openTag ++
      (c.openEnd ++ (new ++ (lead ++ (c.closeTag ++ rest')))))) (c' : Cut v ahead') :
    c'.gap = c.gap ∧
      c'.tag = { c.tag with after := c.openEnd ++ (new ++ (lead ++ (c.closeTag ++ rest'))) } := by
  subst hahead
  exact Prod.mk.inj (Option.some.inj (c'.openFound.symm.trans (c.open_swap hbetween hv hkeep)))

/-- When the second scan finds the block with its new content and its close tag, no close tag starts
in the new content. -/
lemma Cut.not_startsIn (hv : v.Steady) (hkeep : c.header.transform = none → new = content)
    (hrest : (closesBlock v).Alike c.close.after rest') {d : Char} {opening : List Char}
    (hopening : v.commentOpen.toList = d :: opening) (hd : isFiller d = false) {ahead' : List Char}
    (hahead : ahead' = c.gap ++ (c.openTag ++
      (c.openEnd ++ (new ++ (lead ++ (c.closeTag ++ rest')))))) (c' : Cut v ahead')
    (hspan : c'.openEnd ++ (c'.between ++ c'.closeTag) =
      c.openEnd ++ (new ++ (lead ++ c.closeTag)))
    (hsame : c'.closeTag = c.closeTag) :
    ¬ (closesBlock v).StartsIn new (lead ++ (c.closeTag ++ c.close.after)) := by
  intro hstarts
  have hclose := c.close_swap hbetween hv hrest
  have hswap := @TagPattern.StartsIn.swap _ hv.closes _ _ _ c.close.after _ hclose hstarts
  obtain ⟨s, hs, ⟨x, hx⟩, hread⟩ : (closesBlock v).StartsIn new (lead ++ (c.closeTag ++ rest')) :=
    hswap
  have htag : c'.tag.after = c.openEnd ++ (new ++ (lead ++ (c.closeTag ++ rest'))) := by
    rw [(c.open_eq hbetween hv hkeep hahead c').2]
  obtain ⟨s', rfl⟩ : ∃ s', s = d :: s' := TagPattern.eq_cons_of_read? hopening hs hread
  subst hx
  -- the line break of the open tag stops before a delimiter
  obtain ⟨y, hy⟩ : c'.openEnd <+: c.openEnd ++ x := by
    have hafter : c'.tag.after =
        (c.openEnd ++ x) ++ d :: (s' ++ (lead ++ (c.closeTag ++ rest'))) := by
      rw [htag]
      simp
    rw [Cut.openEnd, hafter]
    exact lineEnd_isPrefix_of_mark hd
  have hfound : (closesBlock v).find? ((y ++ d :: s') ++ (lead ++ (c.closeTag ++ rest'))) =
      some (c'.between, c'.close) := by
    refine c'.found_of_after ?_
    rw [htag, ← List.append_assoc c'.openEnd, ← List.append_assoc c'.openEnd, hy]
    simp
  have hstarts' : (closesBlock v).StartsIn (y ++ d :: s') (lead ++ (c.closeTag ++ rest')) :=
    ⟨d :: s', hs, List.suffix_append _ _, hread⟩
  obtain ⟨u, hu, hyu⟩ := hstarts'.prefix_of_find? hfound
  -- so the close tag of the second scan is longer than that of the first one
  have hlen := congrArg List.length hspan
  have hlen₁ := congrArg List.length hy
  have hlen₂ := congrArg List.length hyu
  have hupos := List.length_pos_iff.2 hu
  simp only [List.length_append, hsame] at hlen hlen₁ hlen₂
  omega

end Refill

end Scan

end CommentBlocks
