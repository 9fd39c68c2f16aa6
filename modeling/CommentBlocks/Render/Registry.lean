import CommentBlocks.Text.Quoted

/-!
Named entries in the order in which their names were first registered.
-/

namespace CommentBlocks

structure Registry (α : Type) where
  entries : List (String × α)

namespace Registry

variable {α : Type}

def empty : Registry α := ⟨[]⟩

def set (name : String) (value : α) : List (String × α) → List (String × α)
  | [] => [(name, value)]
  | (n, v) :: es => if n = name then (name, value) :: es else (n, v) :: set name value es

/-- Add an entry, in the place of an earlier one of that name if there is one. -/
def register (r : Registry α) (name : String) (value : α) : Registry α :=
  ⟨set name value r.entries⟩

/-- Both names agree when ASCII capitals count as small letters. -/
def sameName (a b : String) : Bool := Text.asciiLower a = Text.asciiLower b

/-- The entry of that very name, or else the first one whose name differs in ASCII case only. -/
def get? (r : Registry α) (name : String) : Option α :=
  match r.entries.find? (·.1 = name) with
  | some e => some e.2
  | none => (r.entries.find? fun e => sameName e.1 name).map (·.2)

def names (r : Registry α) : List String := r.entries.map (·.1)

def size (r : Registry α) : Nat := r.entries.length

def isEmpty (r : Registry α) : Bool := r.entries.isEmpty

def describe (r : Registry α) : String := Text.quotedList r.names

end Registry

end CommentBlocks
