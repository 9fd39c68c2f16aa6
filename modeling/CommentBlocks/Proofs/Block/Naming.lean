import CommentBlocks.Proofs.Block.Scanned

/-!
What the name of a transform looks like, in whichever way the header of a block writes it.
-/

namespace CommentBlocks

namespace Header

open Text (trim trimStart)

/-- A character that starts a name, and characters that continue it. -/
inductive IsName : List Char → Prop where
  | mk {c : Char} {cs : List Char} (first : startsName c = true)
      (later : ∀ d ∈ cs, continuesName d = true) : IsName (c :: cs)

lemma isName_splitName {cs : List Char} (h : (splitName cs).1.isEmpty = false) :
    IsName (splitName cs).1 := by
  cases cs with
  | nil => simp [splitName] at h
  | cons c cs =>
    rw [splitName] at h ⊢
    split at h
    · next hc =>
      rw [if_pos hc]
      exact .mk hc fun d hd => List.mem_takeWhile_imp hd
    · simp at h

variable {text : List Char} {header : Header} {name : List Char}

lemma isName_of_wrapped? {wrapper : List Char × List Char} (h : wrapped? text wrapper = some header)
    (hname : header.transform = some name) : IsName name := by
  simp only [wrapped?] at h
  split at h
  · simp at h
  split at h
  · simp at h
  split at h
  · simp at h
  next hempty =>
  have hsplit := isName_splitName (by simpa using hempty)
  split at h
  · obtain rfl := Option.some.inj h
    rwa [← Option.some.inj hname]
  · obtain ⟨-, h⟩ := Option.ite_none_right_eq_some.1 h
    obtain rfl := Option.some.inj h
    rwa [← Option.some.inj hname]

lemma isName_of_bare? (h : bare? text = some header) (hname : header.transform = some name) :
    IsName name := by
  simp only [bare?] at h
  split at h
  · simp at h
  next hempty =>
  have hsplit := isName_splitName (by simpa using hempty)
  split at h
  · obtain rfl := Option.some.inj h
    rwa [← Option.some.inj hname]
  · obtain ⟨-, h⟩ := Option.ite_none_right_eq_some.1 h
    obtain rfl := Option.some.inj h
    rwa [← Option.some.inj hname]

lemma isName_of_ofText {rest : List Char} (hname : (ofText rest).transform = some name) :
    IsName name := by
  rw [ofText] at hname
  split at hname
  · next header h =>
    obtain ⟨wrapper, -, hwrapped⟩ := List.exists_of_findSome?_eq_some h
    exact isName_of_wrapped? hwrapped hname
  · cases h : bare? (trimStart rest) with
    | none => simp [h] at hname
    | some header =>
      rw [h, Option.getD_some] at hname
      exact isName_of_bare? h hname

/-! ### The characters of a name -/

lemma continuesName_of_startsName {c : Char} (h : startsName c = true) : continuesName c = true := by
  simp only [startsName, Bool.or_eq_true] at h
  rcases h with (h | h) | h <;> simp [continuesName, h]

lemma IsName.continuesName (h : IsName name) : ∀ c ∈ name, continuesName c = true := by
  cases h with
  | mk first later => exact List.forall_mem_cons.2 ⟨continuesName_of_startsName first, later⟩

lemma IsName.not_mem (h : IsName name) {c : Char} (hc : Header.continuesName c = false) :
    c ∉ name := by
  intro hmem
  rw [h.continuesName c hmem] at hc
  exact absurd hc (by decide)

lemma IsName.lineFeed_not_mem (h : IsName name) : '\n' ∉ name := h.not_mem (by decide +kernel)

end Header

lemma Block.isName_transform {v : Vocabulary} {text : String} {blocks : List Block}
    (hscan : Block.scan v text = .ok blocks) {b : Block} (hb : b ∈ blocks) {name : String}
    (hname : b.transform = some name) : Header.IsName name.toList := by
  obtain ⟨behind, ahead, c, index, options, -, rfl⟩ :=
    (Scan.scan_eq_ok_iff.1 hscan).exists_cut b hb
  obtain ⟨cs, hcs, rfl⟩ := Option.map_eq_some_iff.1 hname
  rw [String.toList_ofList]
  exact Header.isName_of_ofText hcs

end CommentBlocks
