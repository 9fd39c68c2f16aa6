/-!
Edit scripts: what is kept, dropped and added on the way from one list to another.
-/

namespace CommentBlocks

inductive Edit (α : Type) where
  | keep (items : List α)
  | drop (items : List α)
  | add (items : List α)
deriving DecidableEq, Repr

namespace Edit

variable {α : Type}

def items : Edit α → List α
  | keep xs => xs
  | drop xs => xs
  | add xs => xs

def old : Edit α → List α
  | keep xs => xs
  | drop xs => xs
  | add _ => []

def new : Edit α → List α
  | keep xs => xs
  | drop _ => []
  | add xs => xs

def isDrop : Edit α → Bool
  | drop _ => true
  | _ => false

def isAdd : Edit α → Bool
  | add _ => true
  | _ => false

/-- The edit as a script, none if it has no items. -/
def script (e : Edit α) : List (Edit α) := if e.items.isEmpty then [] else [e]

end Edit

namespace EditScript

variable {α : Type}

def old (s : List (Edit α)) : List α := s.flatMap Edit.old

def new (s : List (Edit α)) : List α := s.flatMap Edit.new

@[simp] theorem old_nil : old ([] : List (Edit α)) = [] := rfl

@[simp] theorem new_nil : new ([] : List (Edit α)) = [] := rfl

@[simp] theorem old_cons (e : Edit α) (s : List (Edit α)) : old (e :: s) = e.old ++ old s := rfl

@[simp] theorem new_cons (e : Edit α) (s : List (Edit α)) : new (e :: s) = e.new ++ new s := rfl

@[simp] theorem old_append (s t : List (Edit α)) : old (s ++ t) = old s ++ old t := by
  simp [old]

@[simp] theorem new_append (s t : List (Edit α)) : new (s ++ t) = new s ++ new t := by
  simp [new]

@[simp] theorem old_script (e : Edit α) : old e.script = e.old := by
  cases e <;> simp [Edit.script, Edit.items, Edit.old] <;> split <;> simp_all [Edit.old]

@[simp] theorem new_script (e : Edit α) : new e.script = e.new := by
  cases e <;> simp [Edit.script, Edit.items, Edit.new] <;> split <;> simp_all [Edit.new]

def replace (old new : List α) : List (Edit α) := (Edit.drop old).script ++ (Edit.add new).script

@[simp] theorem old_replace (a b : List α) : old (replace a b) = a := by simp [replace, Edit.old]

@[simp] theorem new_replace (a b : List α) : new (replace a b) = b := by simp [replace, Edit.new]

/-- Between two kept stretches, first all that is dropped and then all that is added. -/
def gather (dropped added : List α) : List (Edit α) → List (Edit α)
  | [] => replace dropped added
  | .keep xs :: s => replace dropped added ++ .keep xs :: gather [] [] s
  | .drop xs :: s => gather (dropped ++ xs) added s
  | .add xs :: s => gather dropped (added ++ xs) s

@[simp] theorem old_gather (dropped added : List α) (s : List (Edit α)) :
    old (gather dropped added s) = dropped ++ old s := by
  induction s generalizing dropped added with
  | nil => simp [gather]
  | cons e s ih => cases e <;> simp [gather, Edit.old, ih]

@[simp] theorem new_gather (dropped added : List α) (s : List (Edit α)) :
    new (gather dropped added s) = added ++ new s := by
  induction s generalizing dropped added with
  | nil => simp [gather]
  | cons e s ih => cases e <;> simp [gather, Edit.new, ih]

end EditScript

end CommentBlocks
