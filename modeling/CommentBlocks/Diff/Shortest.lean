import CommentBlocks.Diff.Script

/-!
A script with few edits between two lists, found by the linear-space search for the middle of a
shortest path: from both ends the furthest points on every diagonal are pushed forward until the two
searches meet, and the lists are split there.

A point is a place in either list; it lies on the diagonal numbered by the first place less the
second.
-/

namespace CommentBlocks.EditScript

variable {α : Type} [DecidableEq α]

/-- How many items agree from place `x` of `a` and place `y` of `b` on. -/
def agreement (a b : Array α) (x y : Nat) : Nat :=
  if hx : x < a.size then
    if hy : y < b.size then
      if a[x] = b[y] then agreement a b (x + 1) (y + 1) + 1 else 0
    else 0
  else 0
termination_by a.size - x

/-- The furthest place in the first list that was reached on each diagonal. -/
structure Frontier where
  reach : Array Nat
  /-- Where diagonal zero stands. -/
  center : Nat

namespace Frontier

/-- Nothing is reached; `size` diagonals lie on either side of the middle one. -/
def start (size : Nat) : Frontier := ⟨Array.replicate (2 * size + 1) 0, size⟩

def get (f : Frontier) (diagonal : Int) : Nat := f.reach.getD (diagonal + f.center).toNat 0

def set (f : Frontier) (diagonal : Int) (place : Nat) : Frontier :=
  { f with reach := f.reach.setIfInBounds (diagonal + f.center).toNat place }

/-- Where a path of `d` edits can enter a diagonal from its two neighbours. -/
def entry (f : Frontier) (d : Nat) (k : Int) : Nat :=
  if k = -d ∨ (k ≠ d ∧ f.get (k - 1) < f.get (k + 1)) then f.get (k + 1) else f.get (k - 1) + 1

end Frontier

/-- A stretch of agreeing items on a diagonal, by its places in the first list. -/
structure Snake where
  diagonal : Int
  start : Nat
  stop : Nat

/-- Push the points on the given diagonals forward, up to the first that meets the other search. -/
def advance (a b : Array α) (d : Nat) (meets : Int → Nat → Bool) :
    List Int → Frontier → Frontier × Option Snake
  | [], f => (f, none)
  | k :: ks, f =>
    let start := f.entry d k
    let stop := start + agreement a b start (start - k).toNat
    let f := f.set k stop
    if meets k stop then (f, some ⟨k, start, stop⟩) else advance a b d meets ks f

/-- The diagonals that `d` edits can end on, from the top. -/
def diagonals (d : Nat) : List Int := (List.range (d + 1)).map fun (i : Nat) => (d : Int) - 2 * i

structure Extent where
  old : Nat
  new : Nat

namespace Extent

def delta (e : Extent) : Int := (e.old : Int) - e.new

def isOdd (e : Extent) : Bool := e.delta % 2 != 0

/-- Enough edits for one of the two searches. -/
def half (e : Extent) : Nat := (e.old + e.new + 1) / 2 + 1

end Extent

/-- Search from both ends with ever more edits, starting with `d`. -/
def search (a b back front : Array α) (e : Extent) :
    (fuel d : Nat) → Frontier → Frontier → Option (Nat × Nat)
  | 0, _, _, _ => none
  | fuel + 1, d, forward, backward =>
    let near (k : Int) (bound : Int) : Bool := (k - e.delta).natAbs ≤ bound
    let far (other : Frontier) (k : Int) (x : Nat) : Bool := e.old ≤ x + other.get (e.delta - k)
    let (forward, hit) :=
      advance a b d (fun k x => e.isOdd && near k (d - 1) && far backward k x) (diagonals d) forward
    match hit with
    | some s => some (s.start, (s.start - s.diagonal).toNat)
    | none =>
      let (backward, hit) :=
        advance back front d (fun k x => !e.isOdd && near k d && far forward k x) (diagonals d)
          backward
      match hit with
      | some s => some (e.old - s.stop, e.new - (s.stop - s.diagonal).toNat)
      | none => search a b back front e fuel (d + 1) forward backward

def middle? (old new : List α) : Option (Nat × Nat) :=
  let e : Extent := ⟨old.length, new.length⟩
  let f := Frontier.start (e.half + 1)
  search old.toArray new.toArray old.reverse.toArray new.reverse.toArray e e.half 0 f f

structure Overlap (α : Type) where
  common : List α
  old : List α
  new : List α

def splitCommon : (old new : List α) → Overlap α
  | a :: as, b :: bs =>
    if a = b then
      let o := splitCommon as bs
      { o with common := a :: o.common }
    else ⟨[], a :: as, b :: bs⟩
  | as, bs => ⟨[], as, bs⟩

theorem splitCommon_old (a b : List α) :
    (splitCommon a b).common ++ (splitCommon a b).old = a := by
  fun_induction splitCommon a b <;> simp_all +zetaDelta

theorem splitCommon_new (a b : List α) :
    (splitCommon a b).common ++ (splitCommon a b).new = b := by
  fun_induction splitCommon a b <;> simp_all +zetaDelta

def splitCommonEnd (old new : List α) : Overlap α :=
  let o := splitCommon old.reverse new.reverse
  ⟨o.common.reverse, o.old.reverse, o.new.reverse⟩

theorem splitCommonEnd_old (a b : List α) :
    (splitCommonEnd a b).old ++ (splitCommonEnd a b).common = a := by
  simpa [splitCommonEnd] using congrArg List.reverse (splitCommon_old a.reverse b.reverse)

theorem splitCommonEnd_new (a b : List α) :
    (splitCommonEnd a b).new ++ (splitCommonEnd a b).common = b := by
  simpa [splitCommonEnd] using congrArg List.reverse (splitCommon_new a.reverse b.reverse)

/-- A script between two lists: keep what they have in common at both ends, and split the rest in the
middle; `fuel` bounds how often. -/
def shortest : (fuel : Nat) → (old new : List α) → List (Edit α)
  | 0, old, new => replace old new
  | fuel + 1, old, new =>
    let first := splitCommon old new
    let last := splitCommonEnd first.old first.new
    (Edit.keep first.common).script ++ inner fuel last.old last.new ++
      (Edit.keep last.common).script
where
  /-- A script between lists that start and end differently. -/
  inner (fuel : Nat) (old new : List α) : List (Edit α) :=
    if old.isEmpty || new.isEmpty then replace old new
    else
      match middle? old new with
      | some (x, y) =>
        shortest fuel (old.take x) (new.take y) ++ shortest fuel (old.drop x) (new.drop y)
      | none => replace old new

theorem old_shortest (fuel : Nat) (a b : List α) : old (shortest fuel a b) = a := by
  induction fuel generalizing a b with
  | zero => simp [shortest]
  | succ fuel ih =>
    have inner (c d : List α) : old (shortest.inner fuel c d) = c := by
      rw [shortest.inner]
      split
      · simp
      · split <;> simp [ih]
    simp [shortest, inner, Edit.old, splitCommonEnd_old, splitCommon_old]

theorem new_shortest (fuel : Nat) (a b : List α) : new (shortest fuel a b) = b := by
  induction fuel generalizing a b with
  | zero => simp [shortest]
  | succ fuel ih =>
    have inner (c d : List α) : new (shortest.inner fuel c d) = d := by
      rw [shortest.inner]
      split
      · simp
      · split <;> simp [ih]
    simp [shortest, inner, Edit.new, splitCommonEnd_new, splitCommon_new]

end CommentBlocks.EditScript
