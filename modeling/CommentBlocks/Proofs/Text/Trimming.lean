import CommentBlocks.Text.Basic
import Mathlib.Tactic.Lemma

/-!
Trimming leaves a text alone that neither starts nor ends with what is trimmed, and a part of any
text.
-/

namespace CommentBlocks.Text

open Unicode (isBlank blankRanges Ranges)

/-- The printable characters of ASCII, and the delete character, are no white space. -/
lemma not_isBlank_of_ascii {c : Char} (hlow : 0x20 < c.toNat) (hhigh : c.toNat < 0x85) :
    isBlank c = false := by
  simp only [isBlank, Ranges.has, blankRanges, Ranges.hasCode, Bool.if_false_left]
  simp
  omega

lemma trimEndBy_eq_self {p : Char → Bool} {cs : List Char} (h : ∀ c ∈ cs.getLast?, p c = false) :
    trimEndBy p cs = cs := by
  rcases List.eq_nil_or_concat cs with rfl | ⟨front, c, rfl⟩
  · rfl
  · have hc : p c = false := h c (by simp)
    simp [trimEndBy, hc]

lemma trimStart_eq_self {cs : List Char} (h : ∀ c ∈ cs.head?, isBlank c = false) :
    trimStart cs = cs := by
  cases cs with
  | nil => rfl
  | cons c cs => simp [trimStart, h c (by simp)]

lemma not_isBlank_getLast?_trim (cs : List Char) : ∀ c ∈ (trim cs).getLast?, isBlank c = false := by
  intro c hc
  rw [trim, trimEnd, trimEndBy, List.getLast?_reverse] at hc
  have := List.head?_dropWhile_not isBlank (trimStart cs).reverse
  rw [Option.mem_def.1 hc] at this
  simpa using this

lemma trimEndBy_isPrefix (p : Char → Bool) (cs : List Char) : trimEndBy p cs <+: cs := by
  have := List.reverse_prefix.2 (List.dropWhile_suffix p (l := cs.reverse))
  rwa [List.reverse_reverse] at this

lemma trim_isInfix (cs : List Char) : trim cs <:+: cs :=
  (trimEndBy_isPrefix _ _).isInfix.trans (List.dropWhile_suffix _).isInfix

lemma trim_eq_self {cs : List Char} (hfirst : ∀ c ∈ cs.head?, isBlank c = false)
    (hlast : ∀ c ∈ cs.getLast?, isBlank c = false) : trim cs = cs := by
  rw [trim, trimStart_eq_self hfirst, trimEnd, trimEndBy_eq_self hlast]

lemma trim_of_not_isBlank {cs : List Char} (h : ∀ c ∈ cs, isBlank c = false) : trim cs = cs :=
  trim_eq_self (fun c hc => h c (List.mem_of_head? hc)) fun c hc => h c (List.mem_of_getLast? hc)

lemma not_isBlank_head?_trim (cs : List Char) : ∀ c ∈ (trim cs).head?, isBlank c = false := by
  intro c hc
  obtain ⟨tail, htail⟩ := trimEndBy_isPrefix isBlank (trimStart cs)
  obtain ⟨front, hfront⟩ := List.head?_eq_some_iff.1 (Option.mem_def.1 hc)
  rw [show trimEndBy isBlank (trimStart cs) = c :: front from hfront] at htail
  have hhead := List.head?_dropWhile_not isBlank cs
  rw [show cs.dropWhile isBlank = c :: front ++ tail from htail.symm] at hhead
  simpa using hhead

lemma trim_trim (cs : List Char) : trim (trim cs) = trim cs :=
  trim_eq_self (not_isBlank_head?_trim cs) (not_isBlank_getLast?_trim cs)

/-- The run that the delimiter continues goes, and the space in front of it. -/
lemma trimEnd_trimEndBy_run (d : Char) (cs : List Char) (n : Nat) :
    trimEnd (trimEndBy (· == d) (cs ++ ' ' :: List.replicate n d)) = trimEnd cs := by
  have hrun : trimEndBy (· == d) (cs ++ ' ' :: List.replicate n d) =
      trimEndBy (· == d) (cs ++ [' ']) := by
    rw [← List.singleton_append, ← List.append_assoc, trimEndBy, List.reverse_append,
      List.reverse_replicate, List.dropWhile_append_of_pos (by simp), trimEndBy]
  rw [hrun]
  by_cases hd : ' ' = d
  · subst hd
    -- the run itself is white space, so more than one blank may go
    have hmore (a : List Char) : (a.dropWhile (· == ' ')).dropWhile isBlank = a.dropWhile isBlank := by
      induction a with
      | nil => rfl
      | cons c a ih =>
        by_cases hc : c = ' '
        · subst hc
          rw [List.dropWhile_cons_of_pos (by simp), ih, List.dropWhile_cons_of_pos (by decide)]
        · rw [List.dropWhile_cons_of_neg (by simpa using hc)]
    simp only [trimEnd, trimEndBy, List.reverse_reverse, hmore]
    rw [List.reverse_append, List.reverse_singleton, List.singleton_append,
      List.dropWhile_cons_of_pos (by decide)]
  · rw [trimEndBy_eq_self (by simpa using hd), trimEnd, trimEndBy, List.reverse_append,
      List.reverse_singleton, List.singleton_append, List.dropWhile_cons_of_pos (by decide)]
    rfl

end CommentBlocks.Text
