import CommentBlocks.Proofs.Render.Recut

/-!
Scanning a text again after its blocks got new contents.

`Refilled` says how a block of the second scan hangs together with a block of the first one. The
induction runs over the blocks of the first scan; what stands behind the reader differs in the two
texts, but not on the line it stands on.
-/

namespace CommentBlocks

open Text (bytes dropBytes)
open TagPattern (HasMark opensBlock closesBlock)
open Unicode (isFiller)
open Engine (spliced)
open Scan (Pieces Cut Scanned)

/-- `b'` is `b` with the new content `new`, as a scan of the new text finds it. -/
structure Block.Refilled (b : Block) (new : List Char) (b' : Block) (p p' : Pieces) : Prop where
  before : b.MadeOf p
  after : b'.MadeOf p'
  indentation : p'.indentation = p.indentation
  openTag : p'.openTag = p.openTag
  closeTag : p'.closeTag = p.closeTag
  inside : p'.openEnd ++ (p'.content ++ p'.lead) = p.openEnd ++ (new ++ p.lead)
  named : b.transform ≠ none → p.openTag.getLast? ≠ some '\n'
  index : b'.index = b.index
  transform : b'.transform = b.transform
  rawArgs : b'.rawArgs = b.rawArgs
  options : b'.options = b.options

/-- `b'` is `b` with the new content `new`: it has the same header, the same open tag and the same
close tag, but for white space on the inner side of the tags. -/
structure Block.Keeps (b : Block) (new : List Char) (b' : Block) : Prop where
  index : b'.index = b.index
  transform : b'.transform = b.transform
  rawArgs : b'.rawArgs = b.rawArgs
  options : b'.options = b.options
  closeTag : b'.closeTag.value.toList.dropWhile isFiller =
    b.closeTag.value.toList.dropWhile isFiller
  span : b'.span.value = b.openTag.value ++ String.ofList new ++ b.closeTag.value

namespace Block

lemma MadeOf.dropWhile_close {b : Block} {p : Pieces} (h : b.MadeOf p) :
    b.closeTag.value.toList.dropWhile isFiller = p.closeTag.dropWhile isFiller := by
  have hlead : ∀ d ∈ p.lead, isFiller d = true := by
    have : p.lead = (Scan.splitLead (p.openTag ++ p.openEnd).reverse (p.content ++ p.lead)).2 := by
      rw [h.lead]
    rw [this]
    exact Scan.isFiller_splitLead
  rw [h.close_value]
  exact List.dropWhile_append_of_pos hlead

lemma Refilled.keeps {b b' : Block} {new : List Char} {p p' : Pieces}
    (h : b.Refilled new b' p p') : b.Keeps new b' where
  index := h.index
  transform := h.transform
  rawArgs := h.rawArgs
  options := h.options
  closeTag := by rw [h.after.dropWhile_close, h.before.dropWhile_close, h.closeTag]
  span := by
    refine String.toList_inj.1 ?_
    have hspan : p'.openText ++ (p'.content ++ p'.closeText) = p.openText ++ (new ++ p.closeText) :=
      calc p'.openText ++ (p'.content ++ p'.closeText)
          = p'.indentation ++ (p'.openTag ++ ((p'.openEnd ++ (p'.content ++ p'.lead)) ++
              p'.closeTag)) := by simp [Pieces.openText, Pieces.closeText]
        _ = p.indentation ++ (p.openTag ++ ((p.openEnd ++ (new ++ p.lead)) ++ p.closeTag)) := by
            rw [h.indentation, h.openTag, h.inside, h.closeTag]
        _ = p.openText ++ (new ++ p.closeText) := by simp [Pieces.openText, Pieces.closeText]
    rw [h.after.span_value, hspan, ← h.before.open_value, ← h.before.close_value]
    simp

end Block

namespace Scan

variable {v : Vocabulary} {ahead ahead' : List Char}

/-- The line behind both texts is the same as far as a mark. -/
def SameLine (behind behind' : List Char) : Prop :=
  behind = behind' ∨ ∃ front rest rest', HasMark front ∧ behind = front ++ rest ∧
    behind' = front ++ rest'

lemma SameLine.indentation_eq {behind behind' : List Char} (h : SameLine behind behind')
    (gap : List Char) : indentation (gap ++ behind) = indentation (gap ++ behind') := by
  rcases h with rfl | ⟨front, rest, rest', hm, rfl, rfl⟩
  · rfl
  · have hm' : HasMark (gap ++ front) := hm.mono fun c hc => List.mem_append_right _ hc
    rw [← List.append_assoc, ← List.append_assoc, indentation_append hm', indentation_append hm']

lemma Cut.sameLine_passed (hv : v.Steady) (c : Cut v ahead) (c' : Cut v ahead')
    (h : c'.closeTag = c.closeTag) (behind behind' : List Char) :
    SameLine (c.passed behind) (c'.passed behind') := by
  refine .inr ⟨c.closeTag.reverse, c.between.reverse ++ c.entered behind,
    c'.between.reverse ++ c'.entered behind', ?_, by simp [Cut.passed], by simp [Cut.passed, h]⟩
  exact (c.startsMarked_closeTag hv).hasMark.mono fun d hd => List.mem_reverse.2 hd

lemma Cut.after_lt (hv : v.Steady) (c : Cut v ahead) : c.close.after.length < ahead.length := by
  have hpos := List.length_pos_iff.2 (c.closeTag_ne_nil hv)
  have := congrArg List.length c.ahead_eq
  simp only [List.length_append] at this
  omega

lemma Cut.refilled (hv : v.Steady) (c : Cut v ahead) (c' : Cut v ahead') {behind behind' : List Char}
    {new : List Char} (hline : SameLine behind behind') (hgap : c'.gap = c.gap)
    (hopen : c'.openTag = c.openTag) (hheader : c'.header = c.header)
    (hclose : c'.closeTag = c.closeTag)
    (hinside : c'.openEnd ++ c'.between = c.openEnd ++ (new ++ (c.pieces behind).lead))
    (index : Nat) (options : Options) :
    Block.Refilled
      ((c.pieces behind).toBlock (Text.lineStarts (behind.reverse ++ ahead)) index c.header options)
      new ((c'.pieces behind').toBlock (Text.lineStarts (behind'.reverse ++ ahead')) index c'.header
        options) (c.pieces behind) (c'.pieces behind') where
  before := c.madeOf hv behind index c.header options
  after := c'.madeOf hv behind' index c'.header options
  indentation := by
    have := hline.indentation_eq c.gap.reverse
    simp only [Cut.pieces, Cut.reached, hgap, this]
  openTag := hopen
  closeTag := hclose
  inside := by
    rw [c'.content_append_lead behind']
    exact hinside
  named hn := c.getLast?_openTag hv fun h => hn (by simp [Pieces.toBlock, h])
  index := rfl
  transform := by simp [Pieces.toBlock, hheader]
  rawArgs := by simp [Pieces.toBlock, hheader]
  options := rfl

/-- What a tag can see of the text behind it does not change with the contents of later blocks. -/
lemma Scanned.alike (hv : v.Steady) {lineStarts : List Nat} {index : Nat} {behind : List Char}
    {blocks : List Block} (h : Scanned v lineStarts index behind ahead blocks)
    {edits : List (Block × List Char)} (hfst : edits.map Prod.fst = blocks) :
    (closesBlock v).Alike ahead (spliced (behind.reverse ++ ahead) (bytes behind) edits) := by
  cases h with
  | done _ =>
    rw [List.map_eq_nil_iff.1 hfst, spliced, ← Text.bytes_reverse, Text.dropBytes_append]
    exact .inl rfl
  | last c _ hl => exact absurd (c.after_lt hv) hl
  | more c _ _ hr =>
    obtain ⟨⟨b, new⟩, edits, rfl, rfl, hlater⟩ := List.map_eq_cons_iff.1 hfst
    have hlaid := hr.laid
    rw [c.reverse_passed_append, ← hlater] at hlaid
    rw [c.spliced_eq behind _ _ _ _ new hlaid]
    refine .inr ?_
    split
    · next hc =>
      conv_lhs => rw [c.ahead_eq]
      cases htag : c.openTag with
      | nil =>
        obtain ⟨d, hd, -⟩ := c.hasMark_openTag hv
        rw [htag] at hd
        simp at hd
      | cons d ds => simp [List.head?_append]
    · rw [c.ahead_eq]
      refine List.infix_append_of_infix_right (List.infix_append_of_infix_left ?_)
      exact List.infix_append_right

def Kept (edits : List (Block × List Char)) : Prop :=
  ∀ edit ∈ edits, edit.1.transform = none → edit.2 = edit.1.content.value.toList

def Free (v : Vocabulary) (text : List Char) (edits : List (Block × List Char)) : Prop :=
  ∀ edit ∈ edits, ¬ (closesBlock v).StartsIn edit.2 (dropBytes edit.1.content.stop text)

/-- The tags of the first block are found again in front of the rest of the new text. -/
lemma Scanned.refill_first (hv : v.Steady) {index : Nat} {behind : List Char} {options : Options}
    {lineStarts : List Nat} {blocks : List Block} (c : Cut v ahead)
    (hr : Scanned v lineStarts (index + 1) (c.passed behind) c.close.after blocks) {new : List Char}
    {edits : List (Block × List Char)} (hfst : edits.map Prod.fst = blocks)
    (hkept : Kept (((c.pieces behind).toBlock lineStarts index c.header options, new) :: edits))
    (hfree : ¬ (closesBlock v).StartsIn new
      (dropBytes (c.pieces behind).closeStart (behind.reverse ++ ahead))) :
    ∃ c' : Cut v (spliced (behind.reverse ++ ahead) (bytes behind)
        (((c.pieces behind).toBlock lineStarts index c.header options, new) :: edits)),
      c'.gap = c.gap ∧ c'.openTag = c.openTag ∧ c'.header = c.header ∧ c'.closeTag = c.closeTag ∧
        c'.close.after = spliced (behind.reverse ++ ahead) (bytes (c.passed behind)) edits ∧
        c'.openEnd ++ c'.between = c.openEnd ++ (new ++ (c.pieces behind).lead) := by
  have hlaid := hr.laid
  have halike := hr.alike hv hfst
  rw [c.reverse_passed_append] at hlaid halike
  rw [← hfst] at hlaid
  rw [c.dropBytes_stop] at hfree
  rw [c.spliced_eq behind _ _ _ _ new hlaid]
  refine c.refill (c.content_append_lead behind).symm hv (fun hn => ?_) halike hfree
  have := hkept _ List.mem_cons_self (by simp [Pieces.toBlock, hn])
  simpa [Pieces.toBlock] using this

theorem Scanned.rescan (hv : v.Steady) {text : List Char} {index : Nat} {behind : List Char}
    {blocks : List Block} (h : Scanned v (Text.lineStarts text) index behind ahead blocks)
    (htext : text = behind.reverse ++ ahead) {edits : List (Block × List Char)}
    (hfst : edits.map Prod.fst = blocks) (hkept : Kept edits) (hfree : Free v text edits)
    {text' behind' : List Char} (hline : SameLine behind behind')
    (htext' : text' = behind'.reverse ++ spliced text (bytes behind) edits) :
    ∃ blocks', Scanned v (Text.lineStarts text') index behind' (spliced text (bytes behind) edits)
        blocks' ∧
      List.Forall₂ (fun edit b' => ∃ p p', edit.1.Refilled edit.2 b' p p') edits blocks' := by
  induction h generalizing edits behind' with
  | @done _ behind ahead hnone =>
    subst htext
    obtain rfl := List.map_eq_nil_iff.1 hfst
    refine ⟨[], .done ?_, .nil⟩
    rwa [spliced, ← Text.bytes_reverse, Text.dropBytes_append]
  | last c _ hl => exact absurd (c.after_lt hv) hl
  | @more index behind ahead options blocks c ho hl hr ih =>
    obtain ⟨⟨b, new⟩, edits, rfl, rfl, hlater⟩ := List.map_eq_cons_iff.1 hfst
    subst htext
    obtain ⟨hfirst, hfree⟩ := List.forall_mem_cons.1 hfree
    obtain ⟨c', hgap, hopen, hheader, hclose, hafter, hinside⟩ :=
      hr.refill_first hv c hlater hkept hfirst
    obtain ⟨blocks', hscanned, hrefilled⟩ := ih (c.reverse_passed_append behind).symm hlater
      (List.forall_mem_cons.1 hkept).2 hfree (c.sameLine_passed hv c' hclose behind behind')
      (by rw [← hafter, c'.reverse_passed_append]; exact htext')
    rw [← hafter] at hscanned
    refine ⟨_, .more c' (by rw [hheader]; exact ho) (c'.after_lt hv) hscanned,
      .cons ⟨c.pieces behind, c'.pieces behind', ?_⟩ hrefilled⟩
    rw [htext']
    exact c.refilled hv c' hline hgap hopen hheader hclose hinside index options

/-- Where the opening delimiter starts with a mark that is no white space, the close tag itself is
what is left of its text without white space in front. -/
lemma Cut.dropWhile_closeTag (c : Cut v ahead) {d : Char} {opening : List Char}
    (hopening : v.commentOpen.toList = d :: opening) (hd : isFiller d = false) :
    c.closeTag.dropWhile isFiller = c.closeTag := by
  have hopening' : (closesBlock v).opening = d :: opening := hopening
  simp [Cut.closeTag, TagPattern.text, hopening', hd]

section Keeps

variable (hv : v.Steady) (c : Cut v ahead) (c' : Cut v ahead') {behind behind' new : List Char}
  {index index' : Nat} {options options' : Options}
  (h : ((c.pieces behind).toBlock (Text.lineStarts (behind.reverse ++ ahead)) index c.header
    options).Keeps new ((c'.pieces behind').toBlock (Text.lineStarts (behind'.reverse ++ ahead'))
      index' c'.header options'))
include hv h

lemma Cut.closeTag_eq_of_keeps {d : Char} {opening : List Char}
    (hopening : v.commentOpen.toList = d :: opening) (hd : isFiller d = false) :
    c'.closeTag = c.closeTag := by
  have hclose := h.closeTag
  rw [(c.madeOf hv behind index c.header options).dropWhile_close,
    (c'.madeOf hv behind' index' c'.header options').dropWhile_close] at hclose
  rwa [← c.dropWhile_closeTag hopening hd, ← c'.dropWhile_closeTag hopening hd]

lemma Cut.inside_eq_of_keeps (hline : SameLine behind behind') (hgap : c'.gap = c.gap)
    (hopen : c'.openTag = c.openTag) : c'.openEnd ++ (c'.between ++ c'.closeTag) =
      c.openEnd ++ (new ++ ((c.pieces behind).lead ++ c.closeTag)) := by
  have hmade := c.madeOf hv behind index c.header options
  have hmade' := c'.madeOf hv behind' index' c'.header options'
  have hindent : (c'.pieces behind').indentation = (c.pieces behind).indentation := by
    have := hline.indentation_eq c.gap.reverse
    simp only [Cut.pieces, Cut.reached, hgap, this]
  have hvalues := congrArg String.toList h.span
  rw [hmade'.span_value, String.toList_append, String.toList_append, hmade.open_value,
    hmade.close_value, String.toList_ofList, Pieces.openText, Pieces.openText, hindent,
    show (c'.pieces behind').openTag = c'.openTag from rfl, hopen,
    show (c.pieces behind).openTag = c.openTag from rfl] at hvalues
  have hrest : (c'.pieces behind').openEnd ++
      ((c'.pieces behind').content ++ (c'.pieces behind').closeText) =
        (c.pieces behind).openEnd ++ (new ++ (c.pieces behind).closeText) := by
    simpa using hvalues
  rw [← c'.content_append_lead behind', List.append_assoc]
  exact hrest

end Keeps

/-- If the second scan finds every block with its new content, no close tag starts in any of them. -/
theorem Scanned.free (hv : v.Steady) {d : Char} {opening : List Char}
    (hopening : v.commentOpen.toList = d :: opening) (hd : isFiller d = false) {text : List Char}
    {index : Nat} {behind : List Char} {blocks : List Block}
    (h : Scanned v (Text.lineStarts text) index behind ahead blocks)
    (htext : text = behind.reverse ++ ahead) {edits : List (Block × List Char)}
    (hfst : edits.map Prod.fst = blocks) (hkept : Kept edits)
    {text' behind' : List Char} (hline : SameLine behind behind')
    (htext' : text' = behind'.reverse ++ spliced text (bytes behind) edits) {blocks' : List Block}
    (h' : Scanned v (Text.lineStarts text') index behind' (spliced text (bytes behind) edits) blocks')
    (hkeeps : List.Forall₂ (fun edit b' => edit.1.Keeps edit.2 b') edits blocks') :
    Free v text edits := by
  induction h generalizing edits behind' blocks' with
  | done _ =>
    obtain rfl := List.map_eq_nil_iff.1 hfst
    simp [Free]
  | last c _ hl => exact absurd (c.after_lt hv) hl
  | @more index behind ahead options blocks c ho hl hr ih =>
    obtain ⟨⟨b, new⟩, edits, rfl, rfl, hlater⟩ := List.map_eq_cons_iff.1 hfst
    subst htext
    have hlaid := hr.laid
    have halike := hr.alike hv hlater
    rw [c.reverse_passed_append] at hlaid halike
    rw [← hlater] at hlaid
    have hahead := c.spliced_eq behind (Text.lineStarts (behind.reverse ++ ahead)) index c.header
      options new hlaid
    have hbetween := (c.content_append_lead behind).symm
    have hkeep (hn : c.header.transform = none) : new = (c.pieces behind).content := by
      have := hkept _ List.mem_cons_self (by simp [Pieces.toBlock, hn])
      simpa [Pieces.toBlock] using this
    cases hkeeps with
    | @cons _ b' _ blocks' hb' hlaterKeeps =>
    cases h' with
    | last c' _ hl' => exact absurd (c'.after_lt hv) hl'
    | @more _ _ _ options' _ c' ho' hl' hr' =>
      obtain ⟨hgap, htag⟩ := c.open_eq hbetween hv hkeep hahead c'
      have hopen : c'.openTag = c.openTag := by rw [Cut.openTag, htag]; rfl
      rw [htext'] at hb'
      have hclose := c.closeTag_eq_of_keeps hv c' hb' hopening hd
      have hspan := c.inside_eq_of_keeps hv c' hb' hline hgap hopen
      have hfirst := c.not_startsIn hbetween hv hkeep halike hopening hd hahead c' hspan hclose
      rw [← c.dropBytes_stop behind] at hfirst
      -- from here on the first block is cut off alike, and both scans go on behind it
      obtain ⟨c'', -, -, -, -, hafter, -⟩ := hr.refill_first hv c hlater hkept hfirst
      obtain rfl := c'.unique c''
      rw [hafter] at hr'
      refine List.forall_mem_cons.2 ⟨hfirst, ih (c.reverse_passed_append behind).symm hlater
        (List.forall_mem_cons.1 hkept).2 (c.sameLine_passed hv c' hclose behind behind') ?_ hr'
        hlaterKeeps⟩
      rw [← hafter, c'.reverse_passed_append]
      exact htext'

end Scan

end CommentBlocks
