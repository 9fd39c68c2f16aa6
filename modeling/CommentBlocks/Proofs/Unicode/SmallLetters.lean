import CommentBlocks.Tag.Pattern
import CommentBlocks.Unicode.LowerCase
import Mathlib.Data.List.Infix
import Mathlib.Data.List.TakeWhile

/-!
What writing a word in small letters keeps: its white space, its blanks in front, and its length,
except that a dotted capital I becomes two characters. So neither spelling of a word lies inside
the other one.
-/

namespace CommentBlocks.Unicode

open TagPattern (isSpace)

/-- The code points that `r` could yield, every stride counted. -/
def CaseRun.reaches (r : CaseRun) (n : Nat) : Bool :=
  (r.first : Int) + r.shift ≤ n && (n : Int) ≤ r.last + r.shift

lemma CaseRun.reaches_of_has {r : CaseRun} {m n : Nat} (h : r.has m = true)
    (hn : (m + r.shift).toNat = n) (h0 : 0 < n) : r.reaches n = true := by
  simp only [CaseRun.has, Bool.and_eq_true, decide_eq_true_eq] at h
  simp only [CaseRun.reaches, Bool.and_eq_true, decide_eq_true_eq]
  omega

lemma toNat_ofNat_cases (n : Nat) : (Char.ofNat n).toNat = n ∨ (Char.ofNat n).toNat = 0 := by
  by_cases hv : n.isValidChar
  · exact .inl (by rw [Char.ofNat, dif_pos hv]; rfl)
  · exact .inr (by rw [Char.ofNat, dif_neg hv]; rfl)

/-- A character that no run yields is the small form of itself at most. -/
lemma eq_of_toSmall_eq {c d : Char} (h : toSmall c = d) (h0 : 0 < d.toNat)
    (hd : caseRuns.all (!·.reaches d.toNat) = true) : c = d := by
  unfold toSmall at h
  split at h
  · next r hr =>
    have hmem := List.mem_of_find?_eq_some hr
    have hhas : r.has c.toNat = true := by simpa using List.find?_some hr
    have hout : r.reaches d.toNat = false := by simpa using List.all_eq_true.1 hd r hmem
    have hval : (c.toNat + r.shift).toNat = d.toNat := by
      rcases toNat_ofNat_cases (c.toNat + r.shift).toNat with e | e
      · rw [← h, e]
      · rw [← h, e] at h0; exact absurd h0 (by decide)
    rw [CaseRun.reaches_of_has hhas hval h0] at hout
    exact absurd hout (by decide)
  · exact h

/-- White space inside a line or at its end: a space, a tab, a line feed or a carriage return. -/
def isFiller (c : Char) : Bool := isSpace c || c == '\n' || c == '\r'

lemma isFiller_iff {c : Char} : isFiller c = true ↔ c = ' ' ∨ c = '\t' ∨ c = '\n' ∨ c = '\r' := by
  simp [isFiller, isSpace, or_assoc]

lemma isFiller_of_isSpace {c : Char} (h : isSpace c = true) : isFiller c = true := by
  simp [isFiller, h]

lemma eq_of_toSmall_filler {c : Char} (h : isFiller (toSmall c) = true) : toSmall c = c := by
  rcases isFiller_iff.1 h with h | h | h | h <;>
    rw [h] <;> exact (eq_of_toSmall_eq h (by decide) (by decide +kernel)).symm

lemma toSmall_filler {c : Char} (h : isFiller c = true) : toSmall c = c := by
  rcases isFiller_iff.1 h with rfl | rfl | rfl | rfl <;> decide +kernel

lemma isSpace_toSmall (c : Char) : isSpace (toSmall c) = isSpace c := by
  by_cases h : isFiller c = true
  · rw [toSmall_filler h]
  · have h' : ¬ isFiller (toSmall c) = true := fun hs => h (by rwa [eq_of_toSmall_filler hs] at hs)
    rw [Bool.eq_false_iff.2 fun hs => h (isFiller_of_isSpace hs),
      Bool.eq_false_iff.2 fun hs => h' (isFiller_of_isSpace hs)]

/-- What stands for one character in small letters. -/
def smallOf (behind : List Char) (c : Char) (ahead : List Char) : List Char :=
  if c = 'Σ' then if meetsCased behind && !meetsCased ahead then ['ς'] else ['σ']
  else if c = 'İ' then ['i', '\u0307']
  else [toSmall c]

lemma lowerFrom_cons (behind : List Char) (c : Char) (cs : List Char) :
    lowerFrom behind (c :: cs) = smallOf behind c cs ++ lowerFrom (c :: behind) cs := rfl

lemma smallOf_eq_or (behind : List Char) (c : Char) (ahead : List Char) :
    smallOf behind c ahead = [toSmall c] ∨
      c = 'Σ' ∧ (smallOf behind c ahead = ['ς'] ∨ smallOf behind c ahead = ['σ']) ∨
      c = 'İ' ∧ smallOf behind c ahead = ['i', '\u0307'] := by
  unfold smallOf
  split
  · split <;> simp_all
  · split <;> simp_all

/-- Fillers stay, and nothing else turns into one. -/
lemma mem_lowerFrom_of_filler {d : Char} (hd : isFiller d = true) {behind cs : List Char}
    (h : d ∈ lowerFrom behind cs) : d ∈ cs := by
  induction cs generalizing behind with
  | nil => simp [lowerFrom] at h
  | cons c cs ih =>
    rw [lowerFrom_cons, List.mem_append] at h
    rcases h with h | h
    · rcases smallOf_eq_or behind c cs with e | ⟨-, e | e⟩ | ⟨-, e⟩ <;> rw [e] at h
      · rw [List.mem_singleton] at h
        have : toSmall c = c := eq_of_toSmall_filler (h ▸ hd)
        simp [h, this]
      all_goals
        simp only [List.mem_cons, List.not_mem_nil, or_false] at h
        rcases h with rfl | rfl <;> exact absurd hd (by decide)
    · exact List.mem_cons_of_mem c (ih h)

lemma dotted_not_mem_lowerFrom (behind cs : List Char) : 'İ' ∉ lowerFrom behind cs := by
  induction cs generalizing behind with
  | nil => simp [lowerFrom]
  | cons c cs ih =>
    rw [lowerFrom_cons, List.mem_append]
    rintro (h | h)
    · unfold smallOf at h
      split at h
      · split at h <;> exact absurd h (by decide)
      · split at h
        · exact absurd h (by decide)
        · next hc =>
          rw [List.mem_singleton] at h
          exact hc (eq_of_toSmall_eq h.symm (by decide) (by decide +kernel))
    · exact ih _ h

lemma length_le_length_lowerFrom (behind cs : List Char) :
    cs.length ≤ (lowerFrom behind cs).length := by
  induction cs generalizing behind with
  | nil => simp
  | cons c cs ih =>
    have := ih (c :: behind)
    rw [lowerFrom_cons, List.length_append, List.length_cons]
    rcases smallOf_eq_or behind c cs with e | ⟨-, e | e⟩ | ⟨-, e⟩ <;> rw [e] <;> simp <;> omega

lemma length_lowerFrom {behind cs : List Char} (h : 'İ' ∉ cs) :
    (lowerFrom behind cs).length = cs.length := by
  induction cs generalizing behind with
  | nil => rfl
  | cons c cs ih =>
    rw [List.mem_cons, not_or] at h
    rw [lowerFrom_cons, List.length_append, ih h.2, List.length_cons]
    rcases smallOf_eq_or behind c cs with e | ⟨-, e | e⟩ | ⟨hc, -⟩
    · rw [e]; simp; omega
    · rw [e]; simp; omega
    · rw [e]; simp; omega
    · exact absurd hc.symm h.1

lemma takeWhile_isSpace_lowerFrom (behind cs : List Char) :
    (lowerFrom behind cs).takeWhile isSpace = cs.takeWhile isSpace := by
  induction cs generalizing behind with
  | nil => rfl
  | cons c cs ih =>
    rw [lowerFrom_cons]
    rcases smallOf_eq_or behind c cs with e | ⟨rfl, e | e⟩ | ⟨rfl, e⟩ <;> rw [e]
    · rw [List.singleton_append, List.takeWhile_cons, List.takeWhile_cons, isSpace_toSmall, ih]
      by_cases hs : isSpace c = true
      · rw [if_pos hs, if_pos hs, toSmall_filler (isFiller_of_isSpace hs)]
      · rw [if_neg hs, if_neg hs]
    all_goals rfl

lemma exists_not_isSpace_lowerFrom {behind cs : List Char} (h : ∃ c ∈ cs, isSpace c = false) :
    ∃ c ∈ lowerFrom behind cs, isSpace c = false := by
  by_contra hc
  push Not at hc
  obtain ⟨c, hm, hs⟩ := h
  have hall : ∀ d ∈ lowerFrom behind cs, isSpace d = true := fun d hd => by simpa using hc d hd
  have htake := takeWhile_isSpace_lowerFrom behind cs
  rw [List.takeWhile_eq_self_iff.2 hall] at htake
  have hlen := length_le_length_lowerFrom behind cs
  have hself : cs.takeWhile isSpace = cs :=
    (List.takeWhile_prefix _).eq_of_length_le (by rw [← htake]; exact hlen)
  have := List.takeWhile_eq_self_iff.1 hself c hm
  rw [hs] at this
  exact absurd this (by decide)

lemma eq_or_eq_of_mem_spellings {word : String} {w : List Char}
    (h : w ∈ TagPattern.spellings word) : w = word.toList ∨ w = lower word.toList := by
  unfold TagPattern.spellings at h
  simp only at h
  split at h <;> simp_all

/-- Neither spelling of a word lies inside the other one. -/
lemma eq_of_infix_spellings {word : String} {w w' : List Char}
    (hw : w ∈ TagPattern.spellings word) (hw' : w' ∈ TagPattern.spellings word) (h : w' <:+: w) :
    w' = w := by
  have hlen := length_le_length_lowerFrom [] word.toList
  rcases eq_or_eq_of_mem_spellings hw with rfl | rfl <;>
    rcases eq_or_eq_of_mem_spellings hw' with rfl | rfl
  · rfl
  · exact h.eq_of_length_le hlen
  · by_cases hd : 'İ' ∈ word.toList
    · exact absurd (h.subset hd) (dotted_not_mem_lowerFrom [] _)
    · exact h.eq_of_length (length_lowerFrom hd).symm
  · rfl

end CommentBlocks.Unicode
