import CommentBlocks.Decimal.Shortest
import CommentBlocks.Fault
import CommentBlocks.Value.Basic

/-!
The settings of a project, and the values that transforms get for them. Numbers that are not finite
have no such value.
-/

namespace CommentBlocks

/-- A setting. The fields of a table are kept in ascending order of their keys. -/
inductive Setting where
  | string (s : String)
  | integer (i : Int)
  | float (x : Binary64)
  | boolean (b : Bool)
  /-- A date, a time or both, as normalised text. -/
  | datetime (text : String)
  | array (items : List Setting)
  | table (fields : List (String × Setting))
deriving Inhabited, Repr

namespace Setting

def nonFiniteText (x : Binary64) : String :=
  if x.magnitude = Binary64.infinite then (if x.negative then "-inf" else "inf") else "NaN"

mutual

def value (path : String) : Setting → Except Fault Value
  | .string s => .ok (.string s)
  | .integer i => .ok (.int i)
  | .float x =>
    if x.isFinite then .ok (.float x) else .error (.unconvertibleFloat path (nonFiniteText x))
  | .boolean b => .ok (.bool b)
  | .datetime text => .ok (.string text)
  | .array items =>
    match values path items with
    | .ok vs => .ok (.array vs)
    | .error fault => .error fault
  | .table fields =>
    match fieldValues path fields with
    | .ok fs => .ok (.object fs)
    | .error fault => .error fault

/-- The values of the items of an array, which are named like the array. -/
def values (path : String) : List Setting → Except Fault (List Value)
  | [] => .ok []
  | t :: ts =>
    match value path t with
    | .error fault => .error fault
    | .ok v =>
      match values path ts with
      | .error fault => .error fault
      | .ok vs => .ok (v :: vs)

/-- The values of the fields of a table, which are named after a dot. -/
def fieldValues (path : String) : List (String × Setting) → Except Fault Fields
  | [] => .ok []
  | (k, t) :: fs =>
    match value (path ++ "." ++ k) t with
    | .error fault => .error fault
    | .ok v =>
      match fieldValues path fs with
      | .error fault => .error fault
      | .ok vs => .ok ((k, v) :: vs)

end

end Setting

end CommentBlocks
