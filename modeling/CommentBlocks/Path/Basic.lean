import CommentBlocks.Text.Basic

/-!
Slash-separated paths. A path keeps its text; two paths lead to the same place in a directory tree
when their components agree, and paths are ordered by their components.
-/

namespace CommentBlocks

structure Path where
  text : String
deriving DecidableEq, Inhabited, Repr

inductive Component where
  /-- The slash an absolute path starts with. -/
  | root
  /-- A leading dot of a relative path. -/
  | current
  | parent
  | normal (name : String)
deriving DecidableEq, Inhabited, Repr

namespace Component

def text : Component → String
  | root => "/"
  | current => "."
  | parent => ".."
  | normal name => name

def rank : Component → Nat
  | root => 0
  | current => 1
  | parent => 2
  | normal _ => 3

/-- Components are ordered by kind, names by their code points. -/
def before (a b : Component) : Bool :=
  match a, b with
  | normal m, normal n => m < n
  | a, b => a.rank < b.rank

/-- The component that a piece between slashes stands for, if any. A dot counts only where the
path starts. -/
def ofPiece? (atStart : Bool) (piece : List Char) : Option Component :=
  match piece with
  | [] => none
  | ['.'] => if atStart then some current else none
  | ['.', '.'] => some parent
  | cs => some (normal (String.ofList cs))

end Component

/-- A component with the places, counted in characters, where it starts and ends. -/
structure Span where
  component : Component
  start : Nat
  stop : Nat
deriving DecidableEq, Repr

namespace Path

/-- The spans of the pieces, the first of them standing at place `place`. -/
def spansFrom (place : Nat) : List (List Char) → List Span
  | [] => []
  | p :: ps =>
    let rest := spansFrom (place + p.length + 1) ps
    match Component.ofPiece? (place == 0) p with
    | some c => ⟨c, place, place + p.length⟩ :: rest
    | none => rest

def spans (cs : List Char) : List Span :=
  match cs with
  | '/' :: _ => ⟨.root, 0, 1⟩ :: spansFrom 0 (Text.splitAt '/' cs)
  | _ => spansFrom 0 (Text.splitAt '/' cs)

/-- The components of a path. Repeated slashes, dots between slashes and a slash at the end do not
count. -/
def components (p : Path) : List Component := (spans p.text.toList).map Span.component

def same (p q : Path) : Bool := p.components == q.components

def isAbsolute (p : Path) : Bool := p.text.toList.head? == some '/'

def componentsBefore : List Component → List Component → Bool
  | [], [] => false
  | [], _ :: _ => true
  | _ :: _, [] => false
  | a :: as, b :: bs => if a = b then componentsBefore as bs else a.before b

def before (p q : Path) : Bool := componentsBefore p.components q.components

/-- The place that `q` leads to from the directory `p`; an absolute `q` stands for itself. -/
def join (p q : Path) : Path :=
  if q.isAbsolute then q
  else
    let base := p.text.toList
    let slash := if base = [] ∨ base.getLast? = some '/' then [] else ['/']
    ⟨String.ofList (base ++ slash ++ q.text.toList)⟩

/-- The path without its last component, or nothing for a root or an empty path. -/
def parent? (p : Path) : Option Path :=
  match (spans p.text.toList).reverse with
  | [] => none
  | last :: earlier =>
    if last.component = .root then none
    else
      let stop := match earlier with
        | [] => 0
        | previous :: _ => previous.stop
      some ⟨String.ofList (p.text.toList.take stop)⟩

def fileName? (p : Path) : Option String :=
  match p.components.getLast? with
  | some (.normal name) => some name
  | _ => none

/-- What follows the last dot of the name at the end, unless the name has no other dot and starts
with it. -/
def extension? (p : Path) : Option String :=
  match p.fileName? with
  | none => none
  | some name =>
    let cs := name.toList
    let ext := (cs.reverse.takeWhile (· ≠ '.')).reverse
    if cs.length ≤ ext.length + 1 then none else some (String.ofList ext)

/-- The spans after those of `base`, when the path starts with the components of `base`. -/
def spansAfter? : List Span → List Component → Option (List Span)
  | ss, [] => some ss
  | [], _ :: _ => none
  | s :: ss, c :: cs => if s.component = c then spansAfter? ss cs else none

/-- The path as seen from `base`, when it starts with the components of `base`. -/
def relativeTo? (p base : Path) : Option Path :=
  match spansAfter? (spans p.text.toList) base.components with
  | none => none
  | some [] => some ⟨""⟩
  | some (s :: ss) =>
    let stop := ((s :: ss).getLast?.map Span.stop).getD 0
    some ⟨String.ofList ((p.text.toList.take stop).drop s.start)⟩

def ofComponents (cs : List Component) : Path :=
  cs.foldl (fun p c => p.join ⟨c.text⟩) ⟨""⟩

/-- Take one step: a dot stays, two dots go up where there is something to leave. -/
def resolveStep (stack : List Component) (c : Component) : List Component :=
  match c, stack with
  | .current, stack => stack
  | .parent, [] => [.parent]
  | .parent, .root :: rest => .parent :: .root :: rest
  | .parent, _ :: rest => rest
  | c, stack => c :: stack

/-- The path with dots and double dots worked out on the components alone. A double dot leaves
whatever component stands before it, another double dot too, and stays where none does. -/
def normalize (p : Path) : Path :=
  ofComponents (p.components.foldl resolveStep []).reverse

end Path

end CommentBlocks
