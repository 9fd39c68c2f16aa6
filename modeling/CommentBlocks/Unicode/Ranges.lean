/-!
Sets of code points as ascending ranges.
-/

namespace CommentBlocks.Unicode

/-- Ranges of code points, both ends included, in ascending order. -/
abbrev Ranges := List (Nat × Nat)

/-- Look `n` up, stopping at the first range that starts beyond it. -/
def Ranges.hasCode : Ranges → Nat → Bool
  | [], _ => false
  | (lo, hi) :: rs, n => if n < lo then false else if n ≤ hi then true else Ranges.hasCode rs n

def Ranges.has (rs : Ranges) (c : Char) : Bool := rs.hasCode c.toNat

@[simp] theorem Ranges.hasCode_nil (n : Nat) : Ranges.hasCode [] n = false := rfl

theorem Ranges.exists_of_hasCode {rs : Ranges} {n : Nat} (h : rs.hasCode n = true) :
    ∃ r ∈ rs, r.1 ≤ n ∧ n ≤ r.2 := by
  induction rs with
  | nil => simp at h
  | cons r rs ih =>
    obtain ⟨lo, hi⟩ := r
    simp only [Ranges.hasCode] at h
    split at h
    · simp at h
    · split at h
      · exact ⟨_, List.mem_cons_self, by omega, by assumption⟩
      · obtain ⟨r, hr, hb⟩ := ih h
        exact ⟨r, List.mem_cons_of_mem _ hr, hb⟩

end CommentBlocks.Unicode
