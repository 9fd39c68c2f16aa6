import CommentBlocks.Proofs.Text.Bytes
import CommentBlocks.Proofs.Text.Places
import Mathlib.Data.List.Count

/-!
The line of a byte: one more than there are line feeds in front of it. Counting the lines that start at or
before the byte gives the same number, and so does a search by halves in the table of line starts, which
ends at the place of the byte in the table or at the place where it belongs.
-/

namespace CommentBlocks.Text

/-! ### Line feeds among the bytes -/

def lineFeed : UInt8 := 10

/-- The line of a byte, counted from one: one more than there are line feeds in front of it. -/
def lineAt (text : String) (offset : Nat) : Nat := ((octets text).take offset).count lineFeed + 1

lemma lineFeed_not_mem {c : Char} (h : c ≠ '\n') : lineFeed ∉ String.utf8EncodeChar c :=
  ascii_not_mem (by decide) h

lemma countP_lineStartsFrom (place n : Nat) (cs : List Char) :
    (lineStartsFrom place cs).countP (· ≤ n) =
      ((cs.flatMap String.utf8EncodeChar).take (n - place)).count lineFeed := by
  induction cs generalizing place with
  | nil => simp [lineStartsFrom]
  | cons c cs ih =>
    have hsize : (String.utf8EncodeChar c).length = c.utf8Size := String.length_utf8EncodeChar c
    rw [List.flatMap_cons, List.take_append, List.count_append, hsize, Nat.sub_sub, ← ih, lineStartsFrom]
    by_cases hc : c = '\n'
    · subst hc
      have hbyte : String.utf8EncodeChar '\n' = [lineFeed] := rfl
      have hone : '\n'.utf8Size = 1 := rfl
      rw [if_pos rfl, List.countP_cons, hbyte, hone, Nat.add_comm]
      congr 1
      by_cases hn : place + 1 ≤ n
      · simp [hn, List.take_of_length_le (show [lineFeed].length ≤ n - place by simp; omega)]
      · simp [hn, show n - place = 0 by omega]
    · have hnone : ((String.utf8EncodeChar c).take (n - place)).count lineFeed = 0 :=
        List.count_eq_zero.2 fun hmem => lineFeed_not_mem hc (List.mem_of_mem_take hmem)
      rw [if_neg hc, hnone, Nat.zero_add]

lemma lineOf_eq_lineAt (text : String) (offset : Nat) :
    lineOf (lineStarts text.toList) offset = lineAt text offset := by
  rw [lineOf, lineStarts, List.countP_cons_of_pos (by simp), countP_lineStartsFrom, lineAt, octets_eq,
    Nat.sub_zero]

/-- The lines of two bytes are the same exactly if no line feed stands at the first one or between them. -/
lemma lineAt_ne_iff (text : String) {first last : Nat} (h : first ≤ last) :
    lineAt text first ≠ lineAt text last ↔
      ∃ place, first ≤ place ∧ place < last ∧ (octets text)[place]? = some lineFeed := by
  have hsplit : (octets text).take last =
      (octets text).take first ++ ((octets text).take last).drop first := by
    conv_lhs => rw [← List.take_append_drop first ((octets text).take last), List.take_take,
      Nat.min_eq_left h]
  have hcount : lineAt text last = lineAt text first +
      (((octets text).take last).drop first).count lineFeed := by
    have hsum := congrArg (List.count lineFeed) hsplit
    rw [List.count_append] at hsum
    unfold lineAt
    omega
  rw [hcount, ne_eq, Nat.left_eq_add, ← ne_eq, ← Nat.pos_iff_ne_zero, List.count_pos_iff,
    List.mem_iff_getElem?]
  constructor
  · rintro ⟨i, hi⟩
    rw [List.getElem?_drop, List.getElem?_take] at hi
    split at hi
    · next hlt => exact ⟨first + i, Nat.le_add_right _ _, hlt, hi⟩
    · simp at hi
  · rintro ⟨place, hfirst, hlast, hplace⟩
    refine ⟨place - first, ?_⟩
    rw [List.getElem?_drop, Nat.add_sub_cancel' hfirst, List.getElem?_take_of_lt hlast, hplace]

/-! ### Searching the table -/

/-- What a search in an ascending table ends with. -/
inductive Place where
  /-- The number stands here. -/
  | hit (i : Nat)
  /-- The number is missing and belongs here. -/
  | miss (i : Nat)
deriving DecidableEq, Repr

/-- The line, counted from one, on which an offset lies: the one that starts there, or else the one before
the place where a line that started there would be put. -/
def Place.line : Place → Nat
  | hit i => i + 1
  | miss i => i

def searchBetween (table : Array Nat) (n low high : Nat) (h : high ≤ table.size) : Place :=
  if hlt : low < high then
    let middle := low + (high - low) / 2
    have hmiddle : middle < table.size := by omega
    if table[middle] = n then .hit middle
    else if table[middle] < n then searchBetween table n (middle + 1) high h
    else searchBetween table n low middle (by omega)
  else .miss low
termination_by high - low

def search (table : Array Nat) (n : Nat) : Place := searchBetween table n 0 table.size (Nat.le_refl _)

section Search

variable {table : Array Nat} {n : Nat}

/-- The entries up to a number, told by the place where they end. -/
lemma countP_eq_of_split {k : Nat} (hk : k ≤ table.size)
    (hfront : ∀ i (hi : i < table.size), i < k → table[i] ≤ n)
    (hback : ∀ i (hi : i < table.size), k ≤ i → n < table[i]) :
    table.toList.countP (· ≤ n) = k := by
  have hsplit := List.take_append_drop k table.toList
  have hlength : (table.toList.take k).length = k := by
    rw [List.length_take, Array.length_toList, Nat.min_eq_left hk]
  rw [← hsplit, List.countP_append, List.countP_eq_length.2, hlength, List.countP_eq_zero.2, Nat.add_zero]
  · intro m hm
    obtain ⟨i, hi, rfl⟩ := List.mem_iff_getElem.1 hm
    rw [List.length_drop, Array.length_toList] at hi
    have := hback (k + i) (by omega) (Nat.le_add_right _ _)
    simpa using this
  · intro m hm
    obtain ⟨i, hi, rfl⟩ := List.mem_iff_getElem.1 hm
    rw [hlength] at hi
    have := hfront i (by omega) hi
    simpa using this

/-- Between two places that leave all smaller entries in front and all larger ones behind, the search ends
with the number of entries up to the number. -/
lemma line_searchBetween (hs : table.toList.Pairwise (· < ·)) {low high : Nat} {h : high ≤ table.size}
    (hle : low ≤ high) (hlow : ∀ i (hi : i < table.size), i < low → table[i] < n)
    (hhigh : ∀ i (hi : i < table.size), high ≤ i → n < table[i]) :
    (searchBetween table n low high h).line = table.toList.countP (· ≤ n) := by
  have hascending : ∀ i j (hi : i < table.size) (hj : j < table.size), i < j → table[i] < table[j] :=
    fun i j hi hj hij => List.pairwise_iff_getElem.1 hs i j hi hj hij
  fun_induction searchBetween table n low high h with
  | case1 low high h hlt middle hmiddle heq =>
    refine (countP_eq_of_split hmiddle (fun i hi hlt => ?_) fun i hi hge => ?_).symm
    · rcases Nat.lt_or_eq_of_le (Nat.le_of_lt_succ hlt) with hlt | rfl
      · exact heq ▸ Nat.le_of_lt (hascending i middle hi hmiddle hlt)
      · exact Nat.le_of_eq heq
    · exact heq ▸ hascending middle i hmiddle hi hge
  | case2 low high h hlt middle hmiddle hne hless ih =>
    refine ih (by omega) (fun i hi hlt => ?_) hhigh
    rcases Nat.lt_or_eq_of_le (Nat.le_of_lt_succ hlt) with hlt | rfl
    · exact Nat.lt_trans (hascending i middle hi hmiddle hlt) hless
    · exact hless
  | case3 low high h hlt middle hmiddle hne hless ih =>
    refine ih (by omega) hlow fun i hi hge => ?_
    have hgt : n < table[middle] := by omega
    rcases Nat.lt_or_eq_of_le hge with hlt | rfl
    · exact Nat.lt_trans hgt (hascending middle i hmiddle hi hlt)
    · exact hgt
  | case4 low high h hlt =>
    have heq : low = high := by omega
    exact (countP_eq_of_split (Nat.le_trans hle h) (fun i hi hlt => Nat.le_of_lt (hlow i hi hlt))
      fun i hi hge => hhigh i hi (heq ▸ hge)).symm

end Search

lemma lt_of_mem_lineStartsFrom {place n : Nat} {cs : List Char} (h : n ∈ lineStartsFrom place cs) :
    place < n := by
  cases cs with
  | nil => simp [lineStartsFrom] at h
  | cons c cs =>
    have := add_size_le_of_mem_lineStartsFrom h
    have := c.utf8Size_pos
    omega

lemma pairwise_lineStartsFrom (place : Nat) (cs : List Char) :
    (lineStartsFrom place cs).Pairwise (· < ·) := by
  induction cs generalizing place with
  | nil => exact .nil
  | cons c cs ih =>
    rw [lineStartsFrom]
    split
    · exact .cons (fun n hn => lt_of_mem_lineStartsFrom hn) (ih _)
    · exact ih _

lemma line_search_lineStarts (cs : List Char) (offset : Nat) :
    (search (lineStarts cs).toArray offset).line = lineOf (lineStarts cs) offset := by
  have hs : (lineStarts cs).Pairwise (· < ·) :=
    .cons (fun n hn => lt_of_mem_lineStartsFrom hn) (pairwise_lineStartsFrom 0 cs)
  refine line_searchBetween ?_ (Nat.zero_le _) (fun i _ hi => absurd hi (Nat.not_lt_zero i))
    fun i hi hge => absurd hi (Nat.not_lt.2 hge)
  exact hs

end CommentBlocks.Text
