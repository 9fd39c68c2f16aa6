import CommentBlocks.Proofs.Block.Naming
import CommentBlocks.Proofs.Text.Splitting
import CommentBlocks.Proofs.Value.Pieces

/-!
The ways to write an open tag that say the same.

A name stands bare or between brackets, behind any white space, and arguments follow it after a space.
In front of the closing delimiter may stand a run of its first character. None of this shows in the
header: `readHeader` gives the name, the arguments as they were written, and their options.
-/

namespace CommentBlocks

namespace Header

open Unicode (isBlank Ranges blankRanges)
open Text (trim trimStart trimEnd after? cut?)
open Relaxed (Blanks)

/-! ### Names -/

lemma continuesName_of_isBlank {c : Char} (h : isBlank c = true) : continuesName c = false := by
  have hall : ∀ r ∈ blankRanges, ∀ k ∈ List.range' r.1 (r.2 + 1 - r.1),
      continuesName (Char.ofNat k) = false := by decide +kernel
  obtain ⟨r, hr, hlow, hhigh⟩ := Ranges.exists_of_hasCode h
  have hc := hall r hr c.toNat (List.mem_range'_1.2 ⟨hlow, by omega⟩)
  rwa [Char.ofNat_toNat] at hc

section Name

variable {name : List Char}

lemma IsName.not_isBlank (h : IsName name) : ∀ c ∈ name, isBlank c = false := fun _ hc =>
  Bool.eq_false_iff.2 fun hblank => h.not_mem (continuesName_of_isBlank hblank) hc

lemma IsName.ne_nil (h : IsName name) : name ≠ [] := by
  cases h
  simp

lemma IsName.trim (h : IsName name) : trim name = name :=
  Text.trim_of_not_isBlank h.not_isBlank

lemma IsName.splitName_append (h : IsName name) {rest : List Char}
    (hrest : ∀ c ∈ rest.head?, Header.continuesName c = false) :
    splitName (name ++ rest) = (name, rest) := by
  cases h with
  | @mk c cs first later =>
    rw [List.cons_append, splitName, if_pos first, List.takeWhile_append_of_pos later,
      List.dropWhile_append_of_pos later]
    cases rest with
    | nil => simp
    | cons d rest => simp [hrest d rfl]

lemma IsName.splitName (h : IsName name) : splitName name = (name, []) := by
  have hnone : ∀ c ∈ ([] : List Char).head?, Header.continuesName c = false := by simp
  simpa using h.splitName_append hnone

end Name

/-! ### Brackets -/

lemma wrapped?_eq_none {text : List Char} {w : List Char × List Char} (h : after? w.1 text = none) :
    wrapped? text w = none := by
  rw [wrapped?, h]

lemma brackets_of_mem_wrappers {w : List Char × List Char} (hw : w ∈ wrappers) :
    ∀ c ∈ w.1 ++ w.2, Header.continuesName c = false ∧ isBlank c = false := by
  have hall : ∀ w ∈ wrappers,
      (w.1 ++ w.2).all (fun c => !Header.continuesName c && !isBlank c) = true := by decide +kernel
  intro c hc
  simpa using List.all_eq_true.1 (hall w hw) c hc

lemma ne_nil_of_mem_wrappers {w : List Char × List Char} (hw : w ∈ wrappers) :
    w.1 ≠ [] ∧ w.2 ≠ [] := by
  have hall : ∀ w ∈ wrappers, w.1 ≠ [] ∧ w.2 ≠ [] := by decide
  exact hall w hw

section Name

variable {name : List Char}

lemma wrapped?_wrap {w : List Char × List Char} (hw : w ∈ wrappers) (h : IsName name)
    (rest : List Char) :
    wrapped? (w.1 ++ (name ++ (w.2 ++ rest))) w = some ⟨some name, trim rest, [], false⟩ := by
  obtain ⟨p, ps, hclose⟩ := List.exists_cons_of_ne_nil (ne_nil_of_mem_wrappers hw).2
  have hp : p ∉ name := h.not_mem (brackets_of_mem_wrappers hw p (by simp [hclose])).1
  have hcut : cut? w.2 (name ++ (w.2 ++ rest)) = some (name, rest) := by
    rw [hclose]
    exact Text.cut?_of_not_mem hp rest
  rw [wrapped?, Text.after?_eq_some_iff.2 rfl]
  simp only [hcut, h.trim, h.splitName]
  simp [h.ne_nil, legacyArgs?, after?, Text.trim, Text.trimStart, Text.trimEnd, Text.trimEndBy]

/-- No brackets are taken for other ones: shorter ones are followed by the name. -/
lemma findSome?_wrapped {w : List Char × List Char} (hw : w ∈ wrappers) (h : IsName name)
    (rest : List Char) :
    wrappers.findSome? (wrapped? (w.1 ++ (name ++ (w.2 ++ rest)))) =
      some ⟨some name, trim rest, [], false⟩ := by
  have hfound := wrapped?_wrap hw h rest
  have hround : '(' ∉ name := h.not_mem (by decide +kernel)
  have hcurly : '\x7b' ∉ name := h.not_mem (by decide +kernel)
  obtain ⟨c, cs, rfl⟩ := List.exists_cons_of_ne_nil h.ne_nil
  obtain ⟨hround, -⟩ := List.ne_and_not_mem_of_not_mem_cons hround
  obtain ⟨hcurly, -⟩ := List.ne_and_not_mem_of_not_mem_cons hcurly
  simp only [wrappers, List.mem_cons, List.not_mem_nil, or_false] at hw
  rcases hw with rfl | rfl | rfl | rfl | rfl <;>
    simp only [wrappers, List.findSome?_cons, hfound] <;>
    simp [wrapped?_eq_none, after?, hround, hcurly]

lemma findSome?_wrapped_bare (h : IsName name) (rest : List Char) :
    wrappers.findSome? (wrapped? (name ++ rest)) = none := by
  refine List.findSome?_eq_none_iff.2 fun w hw => wrapped?_eq_none ?_
  obtain ⟨p, ps, hopen⟩ := List.exists_cons_of_ne_nil (ne_nil_of_mem_wrappers hw).1
  have hp : p ∉ name := h.not_mem (brackets_of_mem_wrappers hw p (by simp [hopen])).1
  obtain ⟨c, cs, rfl⟩ := List.exists_cons_of_ne_nil h.ne_nil
  rw [hopen, List.cons_append, after?, if_neg (List.ne_and_not_mem_of_not_mem_cons hp).1]

end Name

/-! ### Arguments behind a name -/

/-- Arguments after a space, or nothing. -/
def behindName (args : List Char) : List Char := if args = [] then [] else ' ' :: args

/-- Trimmed arguments that start with neither a colon nor an equals sign, which would make something
else of the name in front of them. -/
structure PlainArgs (args : List Char) : Prop where
  trimmed : trim args = args
  noColon : args.head? ≠ some ':'
  noEquals : args.head? ≠ some '='

section Args

variable {args : List Char}

lemma PlainArgs.not_isBlank_head? (h : PlainArgs args) : ∀ c ∈ args.head?, isBlank c = false := by
  have := Text.not_isBlank_head?_trim args
  rwa [h.trimmed] at this

lemma PlainArgs.not_isBlank_getLast? (h : PlainArgs args) :
    ∀ c ∈ args.getLast?, isBlank c = false := by
  have := Text.not_isBlank_getLast?_trim args
  rwa [h.trimmed] at this

lemma PlainArgs.trimStart_behindName (h : PlainArgs args) : trimStart (behindName args) = args := by
  rw [behindName]
  split
  · next hnil => rw [hnil]; rfl
  · rw [trimStart, List.dropWhile_cons_of_pos (by decide)]
    exact Text.trimStart_eq_self h.not_isBlank_head?

lemma PlainArgs.trim_behindName (h : PlainArgs args) : trim (behindName args) = args := by
  rw [trim, h.trimStart_behindName, trimEnd, Text.trimEndBy_eq_self h.not_isBlank_getLast?]

lemma PlainArgs.legacyArgs?_behindName (h : PlainArgs args) : legacyArgs? (behindName args) = none := by
  rw [behindName]
  split
  · rfl
  · cases args with
    | nil => rfl
    | cons c cs =>
      have hc : ':' ≠ c := by simpa [eq_comm] using h.noColon
      simp [legacyArgs?, after?, hc]

lemma continuesName_behindName : ∀ c ∈ (behindName args).head?, continuesName c = false := by
  rw [behindName]
  split
  · simp
  · simpa using continuesName_of_isBlank (c := ' ') (by decide)

lemma PlainArgs.trimEnd_append (h : PlainArgs args) {cs : List Char}
    (hcs : ∀ c ∈ cs.getLast?, isBlank c = false) :
    trimEnd (cs ++ ' ' :: args) = cs ++ behindName args := by
  rw [behindName]
  split
  · next hnil =>
    have hkept := Text.trimEndBy_eq_self hcs
    rw [Text.trimEndBy] at hkept
    rw [hnil, trimEnd, Text.trimEndBy, List.reverse_append, List.reverse_singleton,
      List.singleton_append, List.dropWhile_cons_of_pos (by decide), hkept, List.append_nil]
  · next hne =>
    refine Text.trimEndBy_eq_self fun c hc => h.not_isBlank_getLast? c ?_
    rwa [List.getLast?_append_of_ne_nil _ (List.cons_ne_nil _ _), List.getLast?_cons_of_ne_nil hne]
      at hc

end Args

/-! ### The header -/

def spellings (name : List Char) : List (List Char) :=
  name :: wrappers.map fun w => w.1 ++ (name ++ w.2)

/-- The text between an open word and a closing delimiter that starts with `d`, in all the ways that
give a name and arguments. -/
inductive Spells (d : Char) (name args : List Char) : List Char → Prop where
  | mk {lead written : List Char} (blanks : Blanks lead) (spelled : written ∈ spellings name) (n : Nat) :
      Spells d name args (lead ++ (written ++ ' ' :: (args ++ ' ' :: List.replicate n d)))

section Spelling

variable {name written args : List Char}

lemma IsName.not_isBlank_of_mem_spellings (h : IsName name) (hw : written ∈ spellings name) :
    ∀ c ∈ written, isBlank c = false := by
  rcases List.mem_cons.1 hw with rfl | hw
  · exact h.not_isBlank
  · obtain ⟨w, hmem, rfl⟩ := List.mem_map.1 hw
    have hbrackets := brackets_of_mem_wrappers hmem
    intro c hc
    rcases List.mem_append.1 hc with hc | hc
    · exact (hbrackets c (List.mem_append_left _ hc)).2
    · rcases List.mem_append.1 hc with hc | hc
      · exact h.not_isBlank c hc
      · exact (hbrackets c (List.mem_append_right _ hc)).2

lemma IsName.ne_nil_of_mem_spellings (h : IsName name) (hw : written ∈ spellings name) :
    written ≠ [] := by
  rcases List.mem_cons.1 hw with rfl | hw
  · exact h.ne_nil
  · obtain ⟨w, -, rfl⟩ := List.mem_map.1 hw
    simp [h.ne_nil]

lemma bare?_of_isName (h : IsName name) (hargs : PlainArgs args) :
    bare? (name ++ behindName args) = some ⟨some name, args, [], false⟩ := by
  have hequals : (args.head? == some '=') = false := beq_eq_false_iff_ne.2 hargs.noEquals
  rw [bare?, h.splitName_append continuesName_behindName]
  simp only [hargs.legacyArgs?_behindName, hargs.trimStart_behindName, hargs.trim_behindName, hequals]
  rw [if_neg (by simp [h.ne_nil]), behindName]
  by_cases hnil : args = []
  · rw [if_pos hnil]
    rfl
  · rw [if_neg hnil]
    exact if_pos (show isBlank ' ' = true by decide)

lemma ofText_of_mem_spellings (h : IsName name) (hargs : PlainArgs args)
    (hw : written ∈ spellings name) {lead : List Char} (hlead : Blanks lead) :
    ofText (lead ++ (written ++ behindName args)) = ⟨some name, args, [], false⟩ := by
  have hstart : trimStart (lead ++ (written ++ behindName args)) = written ++ behindName args := by
    rw [trimStart, List.dropWhile_append_of_pos hlead]
    refine Text.trimStart_eq_self fun c hc => ?_
    rw [List.head?_append_of_ne_nil _ (h.ne_nil_of_mem_spellings hw)] at hc
    exact h.not_isBlank_of_mem_spellings hw c (List.mem_of_head? hc)
  rw [ofText, hstart]
  rcases List.mem_cons.1 hw with rfl | hw
  · rw [findSome?_wrapped_bare h, bare?_of_isName h hargs]
    rfl
  · obtain ⟨w, hmem, rfl⟩ := List.mem_map.1 hw
    rw [List.append_assoc, List.append_assoc, findSome?_wrapped hmem h, hargs.trim_behindName]

lemma dropDebris_of_mem_spellings (h : IsName name) (hargs : PlainArgs args)
    (hw : written ∈ spellings name) (lead : List Char) (d : Char) (close : List Char) (n : Nat) :
    dropDebris (d :: close) (lead ++ (written ++ ' ' :: (args ++ ' ' :: List.replicate n d))) =
      lead ++ (written ++ behindName args) := by
  have hlast : ∀ c ∈ (lead ++ written).getLast?, isBlank c = false := by
    intro c hc
    rw [List.getLast?_append_of_ne_nil _ (h.ne_nil_of_mem_spellings hw)] at hc
    exact h.not_isBlank_of_mem_spellings hw c (List.mem_of_getLast? hc)
  calc dropDebris (d :: close) (lead ++ (written ++ ' ' :: (args ++ ' ' :: List.replicate n d)))
      = trimEnd (Text.trimEndBy (· == d)
          ((lead ++ written ++ ' ' :: args) ++ ' ' :: List.replicate n d)) := by simp [dropDebris]
    _ = trimEnd (lead ++ written ++ ' ' :: args) := Text.trimEnd_trimEndBy_run d _ n
    _ = lead ++ (written ++ behindName args) := by
        rw [hargs.trimEnd_append hlast, List.append_assoc]

end Spelling

end Header

namespace Scan

open Header (IsName PlainArgs Spells spellings)

/-- What the text after an open word says: its header and the options of that. -/
def readHeader (commentClose inner : List Char) (line : Nat) : Except Fault (Header × Options) :=
  let header := Header.ofText (Header.dropDebris commentClose inner)
  match header.options with
  | .error fault => .error (argumentFault line fault)
  | .ok options => .ok (header, options)

/-- The scan reads the header of each block so. -/
theorem blocksFrom_eq_readHeader {v : Vocabulary} {lineStarts : List Nat} {index : Nat}
    {behind ahead : List Char} (c : Cut v ahead) :
    blocksFrom v lineStarts index behind ahead =
      match readHeader v.commentClose.toList c.tag.inner
          (Text.lineOf lineStarts (Text.bytes (c.reached behind))) with
      | .error fault => .error fault
      | .ok (header, options) =>
        if c.close.after.length < ahead.length then
          match blocksFrom v lineStarts (index + 1) (c.passed behind) c.close.after with
          | .error fault => .error fault
          | .ok blocks => .ok ((c.pieces behind).toBlock lineStarts index header options :: blocks)
        else .ok [(c.pieces behind).toBlock lineStarts index header options] := by
  cases ho : (Header.ofText (Header.dropDebris v.commentClose.toList c.tag.inner)).options with
  | error fault =>
    rw [blocksFrom, readHeader]
    simp only [c.openFound, c.closeFound, ho]
    rfl
  | ok options =>
    rw [blocksFrom_cut c ho, readHeader]
    simp only [ho]
    rfl

/-- All spellings of an open tag say the same: the name, the arguments as they are written, and what
the arguments say by themselves. -/
theorem readHeader_of_spells {d : Char} {name args inner : List Char} (hname : IsName name)
    (hargs : PlainArgs args) (hspells : Spells d name args inner) (close : List Char) (line : Nat) :
    match Options.parse (String.ofList args) with
    | .ok options =>
      readHeader (d :: close) inner line = .ok (⟨some name, args, [], false⟩, options)
    | .error fault => ∃ reason, fault = .argumentSyntax reason ∧
      readHeader (d :: close) inner line =
        .error (.invalidArguments Fault.unknownFile line reason) := by
  obtain @⟨lead, written, hlead, hwritten, n⟩ := hspells
  have hheader := Header.ofText_of_mem_spellings hname hargs hwritten hlead
  have hdebris := Header.dropDebris_of_mem_spellings hname hargs hwritten lead d close n
  have hoptions : (Header.mk (some name) args [] false).options = Options.ofText args := rfl
  rw [readHeader, hdebris, hheader, Options.parse, String.toList_ofList]
  simp only [hoptions]
  cases Options.ofText args with
  | ok options => rfl
  | error fault => exact ⟨fault.message, rfl, rfl⟩

/-- The hyphens that the arguments end in stay, and those that touch the delimiter go. -/
theorem readHeader_of_spells_hyphens :
    readHeader "-->".toList " \x7b\x7bTOC.x-1\x7d\x7d to=a-- ---".toList 7 =
      .ok (⟨some "TOC.x-1".toList, "to=a--".toList, [], false⟩, [("to", .string "a--")]) := by
  have hparse : Options.parse (String.ofList "to=a--".toList) = .ok [("to", .string "a--")] := by
    decide +kernel
  have hwritten : "\x7b\x7bTOC.x-1\x7d\x7d".toList ∈ spellings "TOC.x-1".toList := by decide
  have hlead : Relaxed.Blanks [' '] := List.forall_mem_singleton.2 (by decide)
  have hspells : Spells '-' "TOC.x-1".toList "to=a--".toList
      " \x7b\x7bTOC.x-1\x7d\x7d to=a-- ---".toList := .mk hlead hwritten 3
  have hname : IsName "TOC.x-1".toList :=
    .mk (by decide +kernel) (List.all_eq_true.1 (by decide +kernel))
  have h := readHeader_of_spells hname ⟨by decide +kernel, by decide, by decide⟩ hspells "->".toList 7
  rwa [hparse] at h

end Scan

end CommentBlocks
