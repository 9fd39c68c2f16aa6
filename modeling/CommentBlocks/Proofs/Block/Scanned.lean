import CommentBlocks.Proofs.Block.Margins

/-!
Scanning as a relation: the blocks of a text are cut off one after the other.

A `Cut` holds the two tags of the first block and carries the proofs that the searches find them.
`Scanned` follows the recursion of `blocksFrom` and says the same as `blocksFrom` returning blocks.
-/

namespace CommentBlocks

lemma eq_ok_of_toOption {ε α : Type} {r : Except ε α} {a : α} (h : r.toOption = some a) :
    r = .ok a := by
  cases r with
  | error e => simp [Except.toOption] at h
  | ok b => rw [Option.some.inj h]

def Fault.file? : Fault → Option String
  | unclosedBlock file _ _ => some file
  | invalidArguments file _ _ => some file
  | _ => none

namespace Scan

open TagPattern (opensBlock closesBlock)

/-- The tags of the first block of a text, and the text in front of each. -/
structure Cut (v : Vocabulary) (ahead : List Char) where
  gap : List Char
  tag : Tag
  between : List Char
  close : Tag
  openFound : (opensBlock v).find? ahead = some (gap, tag)
  closeFound : (closesBlock v).find? (tag.after.drop (lineEnd tag.after).length) =
    some (between, close)

namespace Cut

variable {v : Vocabulary} {ahead : List Char} (c : Cut v ahead) (behind : List Char)

def openTag : List Char := (opensBlock v).text c.tag

def openEnd : List Char := lineEnd c.tag.after

def closeTag : List Char := (closesBlock v).text c.close

def header : Header := Header.ofText (Header.dropDebris v.commentClose.toList c.tag.inner)

/-- The text up to the open tag, back to front. -/
def reached : List Char := c.gap.reverse ++ behind

def entered : List Char := (c.openTag ++ c.openEnd).reverse ++ c.reached behind

def passed : List Char := (c.between ++ c.closeTag).reverse ++ c.entered behind

def pieces : Pieces where
  behind := c.reached behind
  indentation := indentation (c.reached behind)
  openTag := c.openTag
  openEnd := c.openEnd
  content := (splitLead (c.entered behind) c.between).1
  lead := (splitLead (c.entered behind) c.between).2
  closeTag := c.closeTag

lemma after_eq : c.tag.after = c.openEnd ++ (c.between ++ (c.closeTag ++ c.close.after)) := by
  have hinside := TagPattern.eq_of_find? c.closeFound
  calc c.tag.after
      = lineEnd c.tag.after ++ c.tag.after.drop (lineEnd c.tag.after).length :=
        (lineEnd_append_drop _).symm
    _ = c.openEnd ++ (c.between ++ (c.closeTag ++ c.close.after)) := by
        rw [hinside, List.append_assoc]
        rfl

lemma ahead_eq :
    ahead = c.gap ++ (c.openTag ++ (c.openEnd ++ (c.between ++ (c.closeTag ++ c.close.after)))) := by
  rw [← c.after_eq, ← List.append_assoc]
  exact TagPattern.eq_of_find? c.openFound

lemma content_append_lead : (c.pieces behind).content ++ (c.pieces behind).lead = c.between :=
  append_splitLead _ _

lemma reverse_passed_append : (c.passed behind).reverse ++ c.close.after = behind.reverse ++ ahead := by
  conv_rhs => rw [c.ahead_eq]
  simp [passed, entered, reached]

end Cut

/-- The blocks of the text `ahead`, which follows `behind`. -/
inductive Scanned (v : Vocabulary) (lineStarts : List Nat) :
    Nat → List Char → List Char → List Block → Prop where
  | done {index : Nat} {behind ahead : List Char} (h : (opensBlock v).find? ahead = none) :
      Scanned v lineStarts index behind ahead []
  | more {index : Nat} {behind ahead : List Char} {options : Options} {blocks : List Block}
      (c : Cut v ahead) (ho : c.header.options = .ok options)
      (hl : c.close.after.length < ahead.length)
      (hr : Scanned v lineStarts (index + 1) (c.passed behind) c.close.after blocks) :
      Scanned v lineStarts index behind ahead
        ((c.pieces behind).toBlock lineStarts index c.header options :: blocks)
  /-- Neither tag has any text. -/
  | last {index : Nat} {behind ahead : List Char} {options : Options}
      (c : Cut v ahead) (ho : c.header.options = .ok options)
      (hl : ¬ c.close.after.length < ahead.length) :
      Scanned v lineStarts index behind ahead
        [(c.pieces behind).toBlock lineStarts index c.header options]

lemma Scanned.exists_cut {v : Vocabulary} {lineStarts : List Nat} {index : Nat}
    {behind ahead : List Char} {blocks : List Block}
    (h : Scanned v lineStarts index behind ahead blocks) :
    ∀ b ∈ blocks, ∃ (behind' ahead' : List Char) (c : Cut v ahead') (index' : Nat)
      (options : Options), behind'.reverse ++ ahead' = behind.reverse ++ ahead ∧
        b = (c.pieces behind').toBlock lineStarts index' c.header options := by
  induction h with
  | done _ => simp
  | @more index behind ahead options _ c _ _ _ ih =>
    rw [c.reverse_passed_append] at ih
    exact List.forall_mem_cons.2 ⟨⟨behind, ahead, c, index, options, rfl, rfl⟩, ih⟩
  | @last index behind ahead options c _ _ =>
    exact List.forall_mem_singleton.2 ⟨behind, ahead, c, index, options, rfl, rfl⟩

section Equations

variable {v : Vocabulary} {lineStarts : List Nat} {index : Nat} {behind ahead : List Char}

/-- One round of the scan, given the tags and the options of the block. -/
lemma blocksFrom_cut (c : Cut v ahead) {options : Options} (ho : c.header.options = .ok options) :
    blocksFrom v lineStarts index behind ahead =
      if c.close.after.length < ahead.length then
        match blocksFrom v lineStarts (index + 1) (c.passed behind) c.close.after with
        | .error fault => .error fault
        | .ok blocks => .ok ((c.pieces behind).toBlock lineStarts index c.header options :: blocks)
      else .ok [(c.pieces behind).toBlock lineStarts index c.header options] := by
  have ho' : (Header.ofText (Header.dropDebris v.commentClose.toList c.tag.inner)).options =
    .ok options := ho
  rw [blocksFrom]
  simp only [c.openFound, c.closeFound, ho']
  rfl

/-- Where blocks are returned, either no tag opens a block or the tags of a block are found and its
arguments can be read. -/
lemma exists_cut_of_blocksFrom {blocks : List Block}
    (h : blocksFrom v lineStarts index behind ahead = .ok blocks) :
    ((opensBlock v).find? ahead = none ∧ blocks = []) ∨
      ∃ (c : Cut v ahead) (options : Options), c.header.options = .ok options := by
  rw [blocksFrom] at h
  split at h
  · next hn => exact .inl ⟨hn, (Except.ok.inj h).symm⟩
  · next gap tag hopen =>
    simp only at h
    split at h
    · simp at h
    · next between close hclose =>
      split at h
      · simp at h
      · next options ho => exact .inr ⟨⟨gap, tag, between, close, hopen, hclose⟩, options, ho⟩

theorem blocksFrom_eq_ok_iff {blocks : List Block} :
    blocksFrom v lineStarts index behind ahead = .ok blocks ↔
      Scanned v lineStarts index behind ahead blocks := by
  constructor
  · intro h
    induction hn : ahead.length using Nat.strong_induction_on
      generalizing index behind ahead blocks with
    | _ n ih =>
      subst hn
      rcases exists_cut_of_blocksFrom h with ⟨hnone, rfl⟩ | ⟨c, options, ho⟩
      · exact .done hnone
      rw [blocksFrom_cut c ho] at h
      split at h
      · next hl =>
        split at h
        · simp at h
        · next rest hrest =>
          obtain rfl := Except.ok.inj h
          exact .more c ho hl (ih _ hl hrest rfl)
      · next hl =>
        obtain rfl := Except.ok.inj h
        exact .last c ho hl
  · intro h
    induction h with
    | done hnone => rw [blocksFrom, hnone]
    | more c ho hl _ ih => rw [blocksFrom_cut c ho, if_pos hl, ih]
    | last c ho hl => rw [blocksFrom_cut c ho, if_neg hl]

/-- A scan can fail in the text of its file only, and the fault takes the name of the file. -/
lemma blocksFrom_eq_error {fault : Fault}
    (h : blocksFrom v lineStarts index behind ahead = .error fault) :
    fault.isParseError = true ∧ ∀ path : Path, (fault.inFile path).file? = some path.text := by
  induction hn : ahead.length using Nat.strong_induction_on generalizing index behind ahead with
  | _ n ih =>
    subst hn
    rw [blocksFrom] at h
    split at h
    · simp at h
    simp only at h
    split at h
    · obtain rfl := Except.error.inj h
      exact ⟨rfl, fun _ => rfl⟩
    split at h
    · obtain rfl := Except.error.inj h
      exact ⟨rfl, fun _ => rfl⟩
    split at h
    · next hl =>
      split at h
      · next hrest =>
        obtain rfl := Except.error.inj h
        exact ih _ hl hrest rfl
      · simp at h
    · simp at h

end Equations

lemma scan_eq_ok_iff {v : Vocabulary} {text : String} {blocks : List Block} :
    Block.scan v text = .ok blocks ↔
      Scanned v (Text.lineStarts text.toList) 0 [] text.toList blocks :=
  blocksFrom_eq_ok_iff

end Scan

end CommentBlocks
