import CommentBlocks.Proofs.Text.Splitting
import CommentBlocks.Render.Inline
import Mathlib.Data.List.Basic

/-!
A range of lines names lines by their numbers, counted from one.

`Written` says which range a value of the option stands for, in each of its notations. The transform
takes just these ranges, as long as they are not empty, and what it gives are the lines whose number
lies in the range: leaving out the lines in front and keeping as many as the range has comes to the
same.
-/

namespace CommentBlocks

namespace LineRange

open Text (trim)

/-! ### The notations of a range -/

/-- A line number as it is written: digits, which a plus sign may precede. -/
structure IsNumber (cs : List Char) (n : Nat) : Prop where
  digits : ∃ digits, (cs = digits ∨ cs = '+' :: digits) ∧ digits ≠ [] ∧
    (∀ d ∈ digits, Numeral.isDigit d = true) ∧ Numeral.ofDigits digits = n
  le_maxLine : n ≤ maxLine

inductive Written : Value → LineRange → Prop where
  | number {n : Nat} (h : n ≤ maxLine) : Written (.int n) ⟨n, some n⟩
  | single {s : String} {n : Nat} (h : IsNumber (trim s.toList) n) : Written (.string s) ⟨n, some n⟩
  | onwards {s : String} {front back : List Char} {first : Nat}
      (hcut : trim s.toList = front ++ '-' :: back) (hfront : '-' ∉ front)
      (hfirst : IsNumber (trim front) first) (hlast : trim back = []) :
      Written (.string s) ⟨first, none⟩
  | between {s : String} {front back : List Char} {first last : Nat}
      (hcut : trim s.toList = front ++ '-' :: back) (hfront : '-' ∉ front)
      (hfirst : IsNumber (trim front) first) (hlast : IsNumber (trim back) last) :
      Written (.string s) ⟨first, some last⟩

/-- A range of lines that there can be: it starts at line one or later, it does not end before it
starts, and the number of its lines is no larger than the largest line number. -/
structure Proper (r : LineRange) : Prop where
  one_le_first : 1 ≤ r.first
  first_le : r.first ≤ maxLine
  first_le_last : ∀ last ∈ r.last, r.first ≤ last
  count_le : ∀ last ∈ r.last, last - r.first + 1 ≤ maxLine

def holds (r : LineRange) (n : Nat) : Bool := decide (r.first ≤ n) && r.last.all (n ≤ ·)

def named (r : LineRange) (lines : List (List Char)) : List (List Char) :=
  ((lines.zipIdx 1).filter fun line => r.holds line.2).map Prod.fst

/-! ### Lines by their numbers -/

lemma filter_le_zipIdx (first k : Nat) (lines : List (List Char)) :
    (lines.zipIdx k).filter (fun line => decide (first ≤ line.2)) =
      (lines.zipIdx k).drop (first - k) := by
  induction lines generalizing k with
  | nil => simp
  | cons l lines ih =>
    rw [List.zipIdx_cons]
    by_cases hk : first ≤ k
    · rw [List.filter_cons_of_pos (by simpa using hk), ih, Nat.sub_eq_zero_of_le hk,
        Nat.sub_eq_zero_of_le (by omega), List.drop_zero, List.drop_zero]
    · rw [List.filter_cons_of_neg (by simpa using hk), ih,
        show first - k = first - (k + 1) + 1 by omega, List.drop_succ_cons]

lemma filter_ge_zipIdx (last k : Nat) (lines : List (List Char)) :
    (lines.zipIdx k).filter (fun line => decide (line.2 ≤ last)) =
      (lines.take (last + 1 - k)).zipIdx k := by
  induction lines generalizing k with
  | nil => simp
  | cons l lines ih =>
    rw [List.zipIdx_cons]
    by_cases hk : k ≤ last
    · rw [List.filter_cons_of_pos (by simpa using hk), ih, Nat.succ_sub hk, List.take_succ_cons,
        List.zipIdx_cons, Nat.add_sub_add_right]
    · rw [List.filter_cons_of_neg (by simpa using hk), ih, Nat.sub_eq_zero_of_le (by omega),
        Nat.sub_eq_zero_of_le (by omega), List.take_zero, List.take_zero]
      rfl

/-- Leaving out the lines in front of the range and keeping as many as it has gives the lines whose
numbers lie in it. -/
lemma select_eq_named {r : LineRange} (h : r.Proper) (lines : List (List Char)) :
    r.select lines = r.named lines := by
  have hone := h.one_le_first
  cases hlast : r.last with
  | none =>
    have hholds : (fun line : List Char × Nat => r.holds line.2) =
        fun line => decide (r.first ≤ line.2) := by
      funext line
      simp [holds, hlast]
    rw [named, hholds, filter_le_zipIdx, List.map_drop, List.zipIdx_map_fst, select, hlast]
  | some last =>
    have hle := h.first_le_last last hlast
    have hholds : (fun line : List Char × Nat => r.holds line.2) =
        fun line => decide (r.first ≤ line.2) && decide (line.2 ≤ last) := by
      funext line
      simp [holds, hlast]
    rw [named, hholds, ← List.filter_filter, filter_ge_zipIdx, filter_le_zipIdx, List.map_drop,
      List.zipIdx_map_fst, List.drop_take, select, hlast,
      show last + 1 - 1 - (r.first - 1) = last - r.first + 1 by omega]

/-! ### Reading a range -/

lemma IsNumber.ne_nil {cs : List Char} {n : Nat} (h : IsNumber cs n) : cs ≠ [] := by
  obtain ⟨digits, rfl | rfl, hne, -, -⟩ := h.digits
  · exact hne
  · exact List.cons_ne_nil _ _

lemma IsNumber.not_mem {cs : List Char} {n : Nat} (h : IsNumber cs n) : '-' ∉ cs := by
  obtain ⟨digits, hcs, -, hdigits, -⟩ := h.digits
  have hnot : '-' ∉ digits := fun hmem => absurd (hdigits _ hmem) (by decide)
  rcases hcs with rfl | rfl
  · exact hnot
  · simpa using hnot

lemma number?_eq_ofDigits {cs digits : List Char}
    (h : cs = '+' :: digits ∨ cs = digits ∧ cs.head? ≠ some '+') :
    number? cs = if digits.isEmpty || !digits.all Numeral.isDigit then none
      else if Numeral.ofDigits digits ≤ maxLine then some (Numeral.ofDigits digits) else none := by
  rcases h with rfl | ⟨rfl, hhead⟩
  · rfl
  · rw [number?]
    rintro rest rfl
    simp at hhead

lemma number?_eq_some_iff {cs : List Char} {n : Nat} : number? cs = some n ↔ IsNumber cs n := by
  constructor
  · intro h
    obtain ⟨digits, hcs⟩ : ∃ digits, cs = '+' :: digits ∨ cs = digits ∧ cs.head? ≠ some '+' := by
      by_cases hhead : cs.head? = some '+'
      · exact ⟨cs.tail, .inl (List.eq_cons_of_mem_head? hhead)⟩
      · exact ⟨cs, .inr ⟨rfl, hhead⟩⟩
    rw [number?_eq_ofDigits hcs] at h
    split at h
    · cases h
    · next hall =>
      have hdigits : digits ≠ [] ∧ ∀ d ∈ digits, Numeral.isDigit d = true := by simpa using hall
      split at h
      · next hle =>
        obtain rfl := Option.some.inj h
        exact ⟨⟨digits, hcs.symm.imp_left And.left, hdigits.1, hdigits.2, rfl⟩, hle⟩
      · cases h
  · rintro ⟨⟨digits, hcs, hne, hdigits, rfl⟩, hle⟩
    have hcs' : cs = '+' :: digits ∨ cs = digits ∧ cs.head? ≠ some '+' := by
      refine hcs.symm.imp_right fun heq => ⟨heq, fun hhead => ?_⟩
      exact absurd (hdigits '+' (heq ▸ List.mem_of_head? hhead)) (by decide)
    rw [number?_eq_ofDigits hcs', if_neg (by simpa [hne] using hdigits), if_pos hle]

lemma ofText?_of_mem {text front back : List Char} (hcut : trim text = front ++ '-' :: back)
    (hfront : '-' ∉ front) : ofText? text =
      if trim back = [] then (number? (trim front)).map fun first => ⟨first, none⟩
      else (number? (trim back)).bind fun last =>
        (number? (trim front)).map fun first => ⟨first, some last⟩ := by
  rw [ofText?, hcut, Text.splitOnce?_append hfront]
  simp only [List.isEmpty_iff]
  split
  · rfl
  · cases number? (trim back) <;> cases number? (trim front) <;> rfl

lemma ofText?_of_not_mem {text : List Char} (h : '-' ∉ trim text) :
    ofText? text = (number? (trim text)).map fun n => ⟨n, some n⟩ := by
  rw [ofText?, Text.splitOnce?_of_not_mem h]

lemma ofText?_eq_some_iff {s : String} {r : LineRange} :
    ofText? s.toList = some r ↔ Written (.string s) r := by
  constructor
  · intro h
    by_cases hmem : '-' ∈ trim s.toList
    · obtain ⟨front, back, hcut, hfront⟩ := List.eq_append_cons_of_mem hmem
      rw [ofText?_of_mem hcut hfront] at h
      split at h
      · next hback =>
        obtain ⟨first, hfirst, rfl⟩ := Option.map_eq_some_iff.1 h
        exact .onwards hcut hfront (number?_eq_some_iff.1 hfirst) hback
      · obtain ⟨last, hlast, h⟩ := Option.bind_eq_some_iff.1 h
        obtain ⟨first, hfirst, rfl⟩ := Option.map_eq_some_iff.1 h
        exact .between hcut hfront (number?_eq_some_iff.1 hfirst) (number?_eq_some_iff.1 hlast)
    · rw [ofText?_of_not_mem hmem] at h
      obtain ⟨n, hn, rfl⟩ := Option.map_eq_some_iff.1 h
      exact .single (number?_eq_some_iff.1 hn)
  · intro h
    cases h with
    | single h =>
      rw [ofText?_of_not_mem h.not_mem, number?_eq_some_iff.2 h]
      rfl
    | onwards hcut hfront hfirst hlast =>
      rw [ofText?_of_mem hcut hfront, if_pos hlast, number?_eq_some_iff.2 hfirst]
      rfl
    | between hcut hfront hfirst hlast =>
      rw [ofText?_of_mem hcut hfront, if_neg hlast.ne_nil, number?_eq_some_iff.2 hfirst,
        number?_eq_some_iff.2 hlast]
      rfl

lemma Written.le_maxLine {v : Value} {r : LineRange} (h : Written v r) :
    r.first ≤ maxLine ∧ ∀ last ∈ r.last, last ≤ maxLine := by
  cases h with
  | number h => exact ⟨h, by simpa using h⟩
  | single h => exact ⟨h.le_maxLine, by simpa using h.le_maxLine⟩
  | onwards _ _ hfirst _ => exact ⟨hfirst.le_maxLine, by simp⟩
  | between _ _ hfirst hlast => exact ⟨hfirst.le_maxLine, by simpa using hlast.le_maxLine⟩

/-- A written range is proper when it is valid: its bounds are line numbers, so the number of its lines
is one. -/
lemma Written.proper_iff {v : Value} {r : LineRange} (h : Written v r) :
    r.Proper ↔ r.isValid = true := by
  obtain ⟨hfirst, hlast⟩ := h.le_maxLine
  constructor
  · intro hr
    have hone := hr.one_le_first
    have hle := hr.first_le_last
    simp only [isValid, Bool.and_eq_true, bne_iff_ne, Option.all_eq_true]
    exact ⟨by omega, fun last hmem => by simpa using hle last hmem⟩
  · intro hr
    simp only [isValid, Bool.and_eq_true, bne_iff_ne, Option.all_eq_true, decide_eq_true_eq] at hr
    refine ⟨by omega, hfirst, hr.2, fun last hmem => ?_⟩
    have := hlast last hmem
    have := hr.2 last hmem
    omega

theorem ofValue?_eq_some_iff {v : Value} {r : LineRange} :
    ofValue? v = some r ↔ Written v r ∧ r.Proper := by
  have hread : ∀ range : Option LineRange, (∀ r, range = some r ↔ Written v r) →
      (range.filter isValid = some r ↔ Written v r ∧ r.Proper) := by
    intro range hrange
    rw [Option.filter_eq_some_iff, hrange]
    exact and_congr_right fun h => h.proper_iff.symm
  cases v with
  | int i =>
    refine hread (if 0 ≤ i ∧ i ≤ maxLine then some ⟨i.toNat, some i.toNat⟩ else none) fun r => ?_
    split
    · next hi =>
      obtain ⟨n, rfl⟩ := Int.eq_ofNat_of_zero_le hi.1
      have hn : n ≤ maxLine := by exact_mod_cast hi.2
      constructor
      · rintro ⟨⟩
        exact .number hn
      · rintro ⟨-⟩
        rfl
    · next hi =>
      simp only [reduceCtorEq, false_iff]
      rintro @⟨n, hn⟩
      exact hi ⟨Int.natCast_nonneg n, by exact_mod_cast hn⟩
  | string s => exact hread _ fun _ => ofText?_eq_some_iff
  | null | bool | float | array | object =>
    refine hread none fun r => ?_
    simp only [reduceCtorEq, false_iff]
    rintro ⟨⟩

end LineRange

namespace Inline

open LineRange

/-- The transform gives just the lines that the option names, or it turns the option down because no
range of lines is written that way. -/
theorem transform_lines (disk : Disk) (ctx : Context) {src text : String} {v : Value}
    (hsrc : ctx.block.src? = some src) (htext : contents disk ctx (source ctx src) = .ok text)
    (hlines : Fields.get? "lines" ctx.options = some v) :
    (transform disk ctx = .error (invalid ctx ("invalid \x60lines\x60 range: " ++ v.compact)) ∧
      ∀ r, Written v r → ¬ r.Proper) ∨
    ∃ r, Written v r ∧ r.Proper ∧
      transform disk ctx =
        .ok (some (String.ofList (Text.joinWith ['\n'] (r.named (Text.lines text.toList))))) := by
  cases hrange : ofValue? v with
  | none =>
    refine .inl ⟨?_, fun r hwritten hproper => ?_⟩
    · simp only [transform, hsrc, htext, hlines, hrange]
    · rw [ofValue?_eq_some_iff.2 ⟨hwritten, hproper⟩] at hrange
      cases hrange
  | some r =>
    obtain ⟨hwritten, hproper⟩ := ofValue?_eq_some_iff.1 hrange
    refine .inr ⟨r, hwritten, hproper, ?_⟩
    simp only [transform, hsrc, htext, hlines, hrange]
    rw [select_eq_named hproper]

/-- A block of `/a` that asks for lines of `/b`, which was rendered before and has three of them. -/
def asking (range : Value) : Context :=
  let options := Fields.ofList [("src", .string "b"), ("lines", range)]
  { transform := name
    content := ""
    options
    block :=
      { index := 0, transform := some name, rawArgs := "", options
        openTag := ⟨"", 0, 0⟩, closeTag := ⟨"", 0, 0⟩, content := ⟨"", 0, 0, 0⟩
        span := ⟨"", 1, 1, 0, 0, ""⟩, context := ⟨false, false, false⟩ }
    srcPath := ⟨"/a"⟩
    outputPath := ⟨"/a"⟩
    settings := .null
    currentContents := ""
    initialContents := ""
    processed := [(⟨"/b"⟩, "x\r\ny\r\nz")] }

/-- From the second line on: the carriage return is part of the break, and the last line has none. -/
theorem transform_lines_from_second :
    transform Disk.empty (asking (.string " 2 - ")) = .ok (some "y\nz") := by
  have hread : ofValue? (.string " 2 - ") = some ⟨2, none⟩ := by decide +kernel
  have hsrc : (asking (.string " 2 - ")).block.src? = some "b" := rfl
  have htext : contents Disk.empty (asking (.string " 2 - ")) (source (asking (.string " 2 - ")) "b") =
      .ok "x\r\ny\r\nz" := rfl
  have hlines : Fields.get? "lines" (asking (.string " 2 - ")).options = some (.string " 2 - ") := rfl
  rcases transform_lines Disk.empty (asking (.string " 2 - ")) hsrc htext hlines with
    ⟨-, hnone⟩ | ⟨r, hwritten, hproper, hr⟩
  · obtain ⟨hwritten, hproper⟩ := ofValue?_eq_some_iff.1 hread
    exact absurd hproper (hnone _ hwritten)
  · obtain rfl := Option.some.inj (hread.symm.trans (ofValue?_eq_some_iff.2 ⟨hwritten, hproper⟩))
    rw [hr]
    decide +kernel

end Inline

end CommentBlocks
