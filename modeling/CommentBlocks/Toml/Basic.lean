import CommentBlocks.Decimal.Binary64

/-!
Values of TOML documents, and the rules by which keys and headers build up tables.

The fields of a table are kept in ascending order of their keys.
-/

namespace CommentBlocks

/-- How a table came about, which decides what may still be added to it. -/
inductive TableKind where
  /-- By a header of its own, or as the document. -/
  | explicit
  /-- On the way to a header. -/
  | implicit
  /-- On the way to a key with dots, or on the way to a header and passed by such a key since. -/
  | dotted
  /-- Between curly brackets; nothing can be added. -/
  | closed
deriving DecidableEq, Repr

inductive Toml where
  | string (s : String)
  | integer (i : Int)
  | float (x : Binary64)
  /-- A number that is well written but has no value: it goes beyond 128 bits or the largest floating
  point number, or the mark of its base has no digits after it. -/
  | unreadable
  | boolean (b : Bool)
  /-- A date, a time or both, as normalised text. -/
  | datetime (text : String)
  /-- `ofTables` marks arrays that headers add tables to. -/
  | array (ofTables : Bool) (items : List Toml)
  | table (kind : TableKind) (fields : List (String × Toml))
deriving Inhabited, Repr

namespace Toml

abbrev Fields := List (String × Toml)

def get? (key : String) : Fields → Option Toml
  | [] => none
  | (k, v) :: fs => if k = key then some v else get? key fs

def set (key : String) (value : Toml) : Fields → Fields
  | [] => [(key, value)]
  | (k, v) :: fs =>
    if key < k then (key, value) :: (k, v) :: fs
    else if key = k then (key, value) :: fs
    else (k, v) :: set key value fs

mutual

/-- All numbers in a value have a value. -/
def isReadable : Toml → Bool
  | .unreadable => false
  | .array _ items => areReadable items
  | .table _ fields => fieldsReadable fields
  | _ => true

def areReadable : List Toml → Bool
  | [] => true
  | t :: ts => isReadable t && areReadable ts

def fieldsReadable : List (String × Toml) → Bool
  | [] => true
  | (_, t) :: fs => isReadable t && fieldsReadable fs

end

/-- Change the table at the end of `path`. Tables that are missing on the way are made; of an array
of tables the last one is meant. A key with dots does not lead into tables with a header, and from
there on the tables that it passes have none. -/
def alter (viaDots : Bool) (change : TableKind → Fields → Option Fields) :
    (path : List String) → TableKind → Fields → Option Fields
  | [], kind, fields => change kind fields
  | key :: path, _, fields =>
    match get? key fields with
    | none =>
      let kind := if viaDots then TableKind.dotted else .implicit
      (alter viaDots change path kind []).map fun inner => set key (.table kind inner) fields
    | some (.table kind inner) =>
      if kind = .closed ∨ (viaDots ∧ kind = .explicit) then none
      else
        let kind := if viaDots then TableKind.dotted else kind
        (alter viaDots change path kind inner).map fun inner => set key (.table kind inner) fields
    | some (.array true items) =>
      match items.getLast? with
      | some (.table kind inner) =>
        (alter viaDots change path kind inner).map fun inner =>
          set key (.array true (items.dropLast ++ [.table kind inner])) fields
      | _ => none
    | some _ => none

/-- Give a new key its value. Keys with dots do not add to tables with a header. -/
def define (path : List String) (key : String) (value : Toml) (kind : TableKind)
    (fields : Fields) : Option Fields :=
  alter true (fun kind fields =>
    if !path.isEmpty && kind != .dotted then none
    else if (get? key fields).isSome then none
    else some (set key value fields)) path kind fields

/-- Open the table that a header names. A header may come after those of tables inside. -/
def openTable (path : List String) (key : String) (fields : Fields) : Option Fields :=
  alter false (fun _ fields =>
    match get? key fields with
    | none => some (set key (.table .explicit []) fields)
    | some (.table .implicit inner) => some (set key (.table .explicit inner) fields)
    | some _ => none) path .explicit fields

def openItem (path : List String) (key : String) (fields : Fields) : Option Fields :=
  alter false (fun _ fields =>
    match get? key fields with
    | none => some (set key (.array true [.table .explicit []]) fields)
    | some (.array true items) =>
      some (set key (.array true (items ++ [.table .explicit []])) fields)
    | some _ => none) path .explicit fields

end Toml

end CommentBlocks
