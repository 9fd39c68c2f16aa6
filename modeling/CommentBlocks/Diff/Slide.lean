import CommentBlocks.Diff.Shortest

/-!
Sliding edits: where a stretch that is added repeats what stands next to it, it can be taken for
added earlier or later. Every edit is moved up as far as it goes and then down as far as it goes,
merging with edits of its kind on the way.
-/

namespace CommentBlocks.EditScript

variable {α : Type} [DecidableEq α]

/-- An edit and what stands around it. -/
structure Cursor (α : Type) where
  /-- The edits before, the nearest one first. -/
  before : List (Edit α)
  here : Edit α
  after : List (Edit α)

namespace Cursor

def script (c : Cursor α) : List (Edit α) := c.before.reverse ++ c.here :: c.after

end Cursor

/-- Keep more items right before a script. -/
def keepBefore (items : List α) : List (Edit α) → List (Edit α)
  | .keep xs :: s => .keep (items ++ xs) :: s
  | s => .keep items :: s

/-- Keep more items right after a script whose last edit comes first. -/
def keepAfter (items : List α) : List (Edit α) → List (Edit α)
  | .keep xs :: s => .keep (xs ++ items) :: s
  | s => .keep items :: s

/-- Move an edit towards the start. What it passes goes behind it. -/
def slideUp : (fuel : Nat) → Cursor α → Cursor α
  | 0, c => c
  | fuel + 1, c =>
    match c.before, c.here with
    | .keep xs :: before, .add ys =>
      let o := splitCommonEnd xs ys
      let before := (Edit.keep o.old).script ++ before
      if o.common.isEmpty then
        if xs.isEmpty then slideUp fuel ⟨before, .add ys, c.after⟩ else c
      else slideUp fuel ⟨before, .add (o.common ++ o.new), keepBefore o.common c.after⟩
    | .keep xs :: before, .drop ys =>
      if xs.isEmpty then slideUp fuel ⟨before, .drop ys, c.after⟩ else c
    | .add xs :: before, .add ys => slideUp fuel ⟨before, .add (xs ++ ys), c.after⟩
    | .drop xs :: before, .drop ys => slideUp fuel ⟨before, .drop (xs ++ ys), c.after⟩
    | .add xs :: before, .drop ys => slideUp fuel ⟨before, .drop ys, .add xs :: c.after⟩
    | .drop xs :: before, .add ys => slideUp fuel ⟨before, .add ys, .drop xs :: c.after⟩
    | _, _ => c

/-- Move an edit towards the end. What it passes goes before it. -/
def slideDown : (fuel : Nat) → Cursor α → Cursor α
  | 0, c => c
  | fuel + 1, c =>
    match c.here, c.after with
    | .add ys, .keep xs :: after =>
      let o := splitCommon xs ys
      let after := (Edit.keep o.old).script ++ after
      if o.common.isEmpty then
        if xs.isEmpty then slideDown fuel ⟨c.before, .add ys, after⟩ else c
      else slideDown fuel ⟨keepAfter o.common c.before, .add (o.new ++ o.common), after⟩
    | .drop ys, .keep xs :: after =>
      if xs.isEmpty then slideDown fuel ⟨c.before, .drop ys, after⟩ else c
    | .add ys, .add xs :: after => slideDown fuel ⟨c.before, .add (ys ++ xs), after⟩
    | .drop ys, .drop xs :: after => slideDown fuel ⟨c.before, .drop (ys ++ xs), after⟩
    | .drop ys, .add xs :: after => slideDown fuel ⟨.add xs :: c.before, .drop ys, after⟩
    | .add ys, .drop xs :: after => slideDown fuel ⟨.drop xs :: c.before, .add ys, after⟩
    | _, _ => c

/-- The number of edits and items. Every move takes one away from what still lies ahead. -/
def weight (s : List (Edit α)) : Nat := s.foldl (fun n e => n + e.items.length + 1) 0

def Cursor.settle (c : Cursor α) : Cursor α :=
  let up := slideUp (weight c.before) c
  slideDown (weight up.after) up

def settleAll (kind : Edit α → Bool) : (fuel : Nat) → (before rest : List (Edit α)) → List (Edit α)
  | 0, before, rest => before.reverse ++ rest
  | _, before, [] => before.reverse
  | fuel + 1, before, e :: rest =>
    if kind e then
      let c := Cursor.settle ⟨before, e, rest⟩
      settleAll kind fuel (c.here :: c.before) c.after
    else settleAll kind fuel (e :: before) rest

def settle (s : List (Edit α)) : List (Edit α) :=
  let dropped := settleAll Edit.isDrop (weight s) [] s
  settleAll Edit.isAdd (weight dropped) [] dropped

/-- The edits between two lists: few of them, each as late as it can be, and between two kept
stretches what is dropped before what is added. -/
def between (old new : List α) : List (Edit α) :=
  gather [] [] (settle (shortest (old.length + new.length + 1) old new))

end CommentBlocks.EditScript
