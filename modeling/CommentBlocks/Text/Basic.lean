import CommentBlocks.Unicode.Blank

/-!
Pieces of text as character lists: sizes in bytes of UTF-8, cuts at byte offsets, trimming,
and splitting at a character or at a fixed piece of text.
-/

namespace CommentBlocks.Text

open Unicode (isBlank)

/-- The double quote, the single quote and the backtick. -/
def isQuote (c : Char) : Bool := c == '"' || c == '\'' || c == '\x60'

def asciiLower (s : String) : String := String.ofList (s.toList.map Char.toLower)

/-! ### Sizes and cuts in bytes -/

/-- Size in bytes of UTF-8. -/
def bytes : List Char → Nat
  | [] => 0
  | c :: cs => c.utf8Size + bytes cs

def dropBytes : Nat → List Char → List Char
  | _, [] => []
  | n, c :: cs => if n = 0 then c :: cs else dropBytes (n - c.utf8Size) cs

def takeBytes : Nat → List Char → List Char
  | _, [] => []
  | n, c :: cs => if n = 0 then [] else c :: takeBytes (n - c.utf8Size) cs

/-- The text from byte `a` up to byte `b`. -/
def slice (cs : List Char) (a b : Nat) : List Char := takeBytes (b - a) (dropBytes a cs)

@[simp] theorem bytes_nil : bytes [] = 0 := rfl
@[simp] theorem bytes_cons (c : Char) (cs : List Char) :
    bytes (c :: cs) = c.utf8Size + bytes cs := rfl

@[simp] theorem bytes_append (a b : List Char) : bytes (a ++ b) = bytes a + bytes b := by
  induction a with
  | nil => simp
  | cons c a ih => simp [ih, Nat.add_assoc]

@[simp] theorem bytes_reverse (a : List Char) : bytes a.reverse = bytes a := by
  induction a with
  | nil => rfl
  | cons c a ih => simp [ih, Nat.add_comm]

@[simp] theorem dropBytes_zero (cs : List Char) : dropBytes 0 cs = cs := by
  cases cs <;> simp [dropBytes]

@[simp] theorem takeBytes_zero (cs : List Char) : takeBytes 0 cs = [] := by
  cases cs <;> simp [takeBytes]

@[simp] theorem dropBytes_append (a b : List Char) : dropBytes (bytes a) (a ++ b) = b := by
  induction a with
  | nil => simp
  | cons c a ih =>
    have := c.utf8Size_pos
    simp [dropBytes, ih, show c.utf8Size ≠ 0 by omega]

@[simp] theorem takeBytes_append (a b : List Char) : takeBytes (bytes a) (a ++ b) = a := by
  induction a with
  | nil => simp
  | cons c a ih =>
    have := c.utf8Size_pos
    simp [takeBytes, ih, show c.utf8Size ≠ 0 by omega]

/-- A piece of a text is the slice at its offsets. -/
theorem slice_middle (a b c : List Char) :
    slice (a ++ b ++ c) (bytes a) (bytes a + bytes b) = b := by
  simp [slice, List.append_assoc]

/-! ### Trimming -/

def trimEndBy (p : Char → Bool) (cs : List Char) : List Char := (cs.reverse.dropWhile p).reverse

def trimStart (cs : List Char) : List Char := cs.dropWhile isBlank

def trimEnd (cs : List Char) : List Char := trimEndBy isBlank cs

def trim (cs : List Char) : List Char := trimEnd (trimStart cs)

theorem length_dropWhile_le (p : Char → Bool) (cs : List Char) :
    (cs.dropWhile p).length ≤ cs.length := (List.dropWhile_suffix p).length_le

theorem length_trimEndBy_le (p : Char → Bool) (cs : List Char) :
    (trimEndBy p cs).length ≤ cs.length := by
  have := length_dropWhile_le p cs.reverse
  simpa [trimEndBy] using this

theorem length_trimEnd_le (cs : List Char) : (trimEnd cs).length ≤ cs.length :=
  length_trimEndBy_le _ cs

theorem length_trim_le (cs : List Char) : (trim cs).length ≤ cs.length :=
  Nat.le_trans (length_trimEnd_le _) (length_dropWhile_le _ cs)

/-! ### Fixed pieces -/

/-- What follows `piece`, when the text starts with it. -/
def after? : (piece cs : List Char) → Option (List Char)
  | [], cs => some cs
  | _ :: _, [] => none
  | p :: ps, c :: cs => if p = c then after? ps cs else none

def before? (piece cs : List Char) : Option (List Char) :=
  (after? piece.reverse cs.reverse).map List.reverse

theorem after?_eq_some_iff {piece cs rest : List Char} :
    after? piece cs = some rest ↔ cs = piece ++ rest := by
  induction piece generalizing cs with
  | nil => simp [after?, eq_comm]
  | cons p ps ih =>
    cases cs with
    | nil => simp [after?]
    | cons c cs =>
      by_cases h : p = c
      · subst h; simp [after?, ih]
      · simp [after?, h, Ne.symm h]

theorem before?_eq_some_iff {piece cs rest : List Char} :
    before? piece cs = some rest ↔ cs = rest ++ piece := by
  simp only [before?, Option.map_eq_some_iff, after?_eq_some_iff]
  constructor
  · rintro ⟨a, h, rfl⟩
    have := congrArg List.reverse h
    simpa using this
  · rintro rfl
    exact ⟨rest.reverse, by simp, by simp⟩

/-- The text before and after the first occurrence of `piece`. -/
def cut? (piece : List Char) : List Char → Option (List Char × List Char)
  | [] => if piece = [] then some ([], []) else none
  | c :: cs =>
    match after? piece (c :: cs) with
    | some rest => some ([], rest)
    | none => (cut? piece cs).map fun (pre, rest) => (c :: pre, rest)

theorem eq_of_cut? {piece cs pre rest : List Char} (h : cut? piece cs = some (pre, rest)) :
    cs = pre ++ piece ++ rest := by
  induction cs generalizing pre with
  | nil =>
    simp only [cut?] at h
    split at h
    · next hp => cases h; simp [hp]
    · simp at h
  | cons c cs ih =>
    simp only [cut?] at h
    split at h
    · next r hr => cases h; simpa using after?_eq_some_iff.1 hr
    · obtain ⟨⟨p, r⟩, hp, he⟩ := Option.map_eq_some_iff.1 h
      cases he
      simp [ih hp]

def hasPiece (piece cs : List Char) : Bool := (cut? piece cs).isSome

section Pieces

variable {α : Type}

def joinWith (sep : List α) : List (List α) → List α
  | [] => []
  | [p] => p
  | p :: q :: ps => p ++ sep ++ joinWith sep (q :: ps)

variable [DecidableEq α]

/-- The pieces between the occurrences of `sep`; one more than there are occurrences. -/
def splitAt (sep : α) : List α → List (List α)
  | [] => [[]]
  | c :: cs =>
    match splitAt sep cs with
    | [] => [[c]]
    | piece :: pieces => if c = sep then [] :: piece :: pieces else (c :: piece) :: pieces

@[simp] theorem splitAt_nil (sep : α) : splitAt sep [] = [[]] := rfl

theorem splitAt_ne_nil (sep : α) (cs : List α) : splitAt sep cs ≠ [] := by
  cases cs with
  | nil => simp
  | cons c cs =>
    simp only [splitAt]
    split
    · simp
    · split <;> simp

theorem splitAt_sep (sep : α) (cs : List α) :
    splitAt sep (sep :: cs) = [] :: splitAt sep cs := by
  have h := splitAt_ne_nil sep cs
  simp only [splitAt]
  cases hs : splitAt sep cs with
  | nil => exact absurd hs h
  | cons p ps => simp

/-- Every piece is at most as long as the text. -/
theorem length_le_of_mem_splitAt {sep : α} {cs piece : List α}
    (h : piece ∈ splitAt sep cs) : piece.length ≤ cs.length := by
  induction cs generalizing piece with
  | nil => simp_all
  | cons c cs ih =>
    simp only [splitAt] at h
    split at h
    · simp_all
    · next p ps hs =>
      have key : ∀ q ∈ p :: ps, q.length ≤ cs.length := fun q hq => ih (hs ▸ hq)
      split at h
      · rcases List.mem_cons.1 h with rfl | h
        · simp
        · exact Nat.le_succ_of_le (key _ h)
      · rcases List.mem_cons.1 h with rfl | h
        · simpa using key p List.mem_cons_self
        · exact Nat.le_succ_of_le (key _ (List.mem_cons_of_mem _ h))

end Pieces

/-- The text before and after the first occurrence of `sep`. -/
def splitOnce? (sep : Char) (cs : List Char) : Option (List Char × List Char) := cut? [sep] cs

/-- `replaceAll` with `skip` characters of a match still to pass over. -/
def replaceFrom (piece sub : List Char) : Nat → List Char → List Char
  | 0, [] => if piece = [] then sub else []
  | 0, c :: cs =>
    if piece = [] then sub ++ c :: replaceFrom piece sub 0 cs
    else if (after? piece (c :: cs)).isSome then
      sub ++ replaceFrom piece sub (piece.length - 1) cs
    else c :: replaceFrom piece sub 0 cs
  | _ + 1, [] => []
  | n + 1, _ :: cs => replaceFrom piece sub n cs

/-- Put `sub` for every occurrence of `piece`, going left to right; an empty piece stands before
every character and at the end. -/
def replaceAll (piece sub cs : List Char) : List Char := replaceFrom piece sub 0 cs

end CommentBlocks.Text
