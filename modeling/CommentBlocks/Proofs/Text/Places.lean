import CommentBlocks.Text.Lines
import Mathlib.Data.List.Basic

/-!
Places in a text: byte offsets that fall between two characters, and the lines on which they lie.
-/

namespace CommentBlocks.Text

/-- An offset between two characters of a text, or at one of its ends. -/
def IsCut (cs : List Char) (n : Nat) : Prop := ∃ a b, cs = a ++ b ∧ bytes a = n

lemma isCut_append (a b : List Char) : IsCut (a ++ b) (bytes a) := ⟨a, b, rfl, rfl⟩

lemma bytes_pos {cs : List Char} (h : cs ≠ []) : 0 < bytes cs := by
  cases cs with
  | nil => exact absurd rfl h
  | cons c cs =>
    have := c.utf8Size_pos
    rw [bytes_cons]
    omega

lemma bytes_eq_zero {cs : List Char} : bytes cs = 0 ↔ cs = [] := by
  constructor
  · intro h
    by_contra hne
    have := bytes_pos hne
    omega
  · rintro rfl
    rfl

lemma IsCut.split {cs : List Char} {m n : Nat} (hm : IsCut cs m) (hn : IsCut cs n) (hle : m ≤ n) :
    ∃ a b c, cs = a ++ (b ++ c) ∧ m = bytes a ∧ n = bytes a + bytes b := by
  obtain ⟨a, r, hcs, rfl⟩ := hm
  obtain ⟨a', c, hcs', rfl⟩ := hn
  rcases List.append_eq_append_iff.1 (hcs.symm.trans hcs') with ⟨b, rfl, rfl⟩ | ⟨b, rfl, rfl⟩
  · exact ⟨a, b, c, hcs, rfl, bytes_append a b⟩
  · have hb : b = [] := by
      rw [← bytes_eq_zero]
      rw [bytes_append] at hle
      omega
    subst hb
    exact ⟨a', [], r, by simpa using hcs, by simp, by simp⟩

lemma takeBytes_append_of_le {a : List Char} {n : Nat} (h : bytes a ≤ n) (b : List Char) :
    takeBytes n (a ++ b) = a ++ takeBytes (n - bytes a) b := by
  induction a generalizing n with
  | nil => simp
  | cons c a ih =>
    have := c.utf8Size_pos
    rw [bytes_cons] at h ⊢
    rw [List.cons_append, takeBytes, if_neg (by omega), ih (by omega), List.cons_append,
      Nat.sub_add_eq]

lemma slice_append_slice {cs : List Char} {l m n : Nat} (hl : IsCut cs l) (hm : IsCut cs m)
    (hlm : l ≤ m) (hmn : m ≤ n) : slice cs l m ++ slice cs m n = slice cs l n := by
  obtain ⟨a, b, c, rfl, rfl, rfl⟩ := hl.split hm hlm
  have hdrop : dropBytes (bytes a + bytes b) (a ++ (b ++ c)) = c := by
    rw [← bytes_append, ← List.append_assoc, dropBytes_append]
  unfold slice
  rw [hdrop, dropBytes_append, Nat.add_sub_cancel_left, takeBytes_append,
    takeBytes_append_of_le (by omega), Nat.sub_add_eq]

lemma slice_append_dropBytes {cs : List Char} {m n : Nat} (hm : IsCut cs m) (hn : IsCut cs n)
    (hle : m ≤ n) : slice cs m n ++ dropBytes n cs = dropBytes m cs := by
  obtain ⟨a, b, c, rfl, rfl, rfl⟩ := hm.split hn hle
  have hdrop : dropBytes (bytes a + bytes b) (a ++ (b ++ c)) = c := by
    rw [← bytes_append, ← List.append_assoc, dropBytes_append]
  rw [slice, hdrop, dropBytes_append, Nat.add_sub_cancel_left, takeBytes_append]

@[simp] lemma slice_self (cs : List Char) (n : Nat) : slice cs n n = [] := by
  simp [slice]

/-! ### Lines -/

lemma lineStartsFrom_append (place : Nat) (a b : List Char) :
    lineStartsFrom place (a ++ b) =
      lineStartsFrom place a ++ lineStartsFrom (place + bytes a) b := by
  induction a generalizing place with
  | nil => simp [lineStartsFrom]
  | cons c a ih =>
    have hassoc : place + bytes (c :: a) = place + c.utf8Size + bytes a := by
      rw [bytes_cons]
      omega
    rw [List.cons_append, lineStartsFrom, lineStartsFrom, ih, hassoc]
    split <;> rfl

lemma length_lineStartsFrom (place : Nat) (cs : List Char) :
    (lineStartsFrom place cs).length = cs.count '\n' := by
  induction cs generalizing place with
  | nil => rfl
  | cons c cs ih =>
    rw [lineStartsFrom]
    by_cases hc : c = '\n'
    · simp [hc, ih]
    · simp [hc, ih, List.count_cons_of_ne hc]

lemma le_of_mem_lineStartsFrom {place n : Nat} {cs : List Char} (h : n ∈ lineStartsFrom place cs) :
    n ≤ place + bytes cs := by
  induction cs generalizing place with
  | nil => simp [lineStartsFrom] at h
  | cons c cs ih =>
    rw [bytes_cons]
    rw [lineStartsFrom] at h
    have key (h : n ∈ lineStartsFrom (place + c.utf8Size) cs) :
        n ≤ place + (c.utf8Size + bytes cs) := by
      have := ih h
      omega
    split at h
    · rcases List.mem_cons.1 h with rfl | h
      · omega
      · exact key h
    · exact key h

lemma add_size_le_of_mem_lineStartsFrom {place n : Nat} {c : Char} {cs : List Char}
    (h : n ∈ lineStartsFrom place (c :: cs)) : place + c.utf8Size ≤ n := by
  induction cs generalizing place c with
  | nil => simp [lineStartsFrom] at h; omega
  | cons d cs ih =>
    rw [lineStartsFrom] at h
    have key (h : n ∈ lineStartsFrom (place + c.utf8Size) (d :: cs)) : place + c.utf8Size ≤ n := by
      have := ih h
      omega
    split at h
    · rcases List.mem_cons.1 h with rfl | h
      · exact Nat.le_refl _
      · exact key h
    · exact key h

/-- The line of an offset is found by counting the line breaks in front of it. An offset inside a
character counts as one in front of that character. -/
lemma lineOf_lineStarts {a b : List Char} {n : Nat} (hle : bytes a ≤ n)
    (hlt : ∀ c ∈ b.head?, n < bytes a + c.utf8Size) :
    lineOf (lineStarts (a ++ b)) n = a.count '\n' + 1 := by
  have hfront : (lineStartsFrom 0 a).countP (· ≤ n) = a.count '\n' := by
    rw [← length_lineStartsFrom 0 a, List.countP_eq_length]
    intro m hm
    have := le_of_mem_lineStartsFrom hm
    simp only [decide_eq_true_eq]
    omega
  have hback : (lineStartsFrom (0 + bytes a) b).countP (· ≤ n) = 0 := by
    rw [List.countP_eq_zero]
    intro m hm
    cases b with
    | nil => simp [lineStartsFrom] at hm
    | cons c b =>
      have := add_size_le_of_mem_lineStartsFrom hm
      have := hlt c rfl
      simp only [decide_eq_true_eq]
      omega
  rw [lineOf, lineStarts, lineStartsFrom_append, List.countP_cons_of_pos (by simp),
    List.countP_append, hfront, hback]

example : lineOf (lineStarts "a\nb\nc".toList) 2 = 2 := by decide

end CommentBlocks.Text
