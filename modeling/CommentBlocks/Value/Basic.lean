import CommentBlocks.Decimal.Binary64

/-!
The values of block options and settings: a tree of scalars, arrays and objects. The fields of an
object are kept in ascending order of their keys, each key once.
-/

namespace CommentBlocks

inductive Value where
  | null
  | bool (b : Bool)
  | int (i : Int)
  | float (x : Binary64)
  | string (s : String)
  | array (items : List Value)
  | object (fields : List (String × Value))
deriving Inhabited, Repr

/-- Fields in ascending order of keys, each key once. -/
abbrev Fields := List (String × Value)

abbrev Options := Fields

namespace Value

mutual

def same : Value → Value → Bool
  | null, null => true
  | bool a, bool b => a == b
  | int a, int b => decide (a = b)
  | float a, float b => decide (a = b)
  | string a, string b => decide (a = b)
  | array a, array b => sameItems a b
  | object a, object b => sameFields a b
  | _, _ => false

def sameItems : List Value → List Value → Bool
  | [], [] => true
  | a :: as, b :: bs => same a b && sameItems as bs
  | _, _ => false

def sameFields : List (String × Value) → List (String × Value) → Bool
  | [], [] => true
  | (k, a) :: as, (l, b) :: bs => decide (k = l) && same a b && sameFields as bs
  | _, _ => false

end

mutual

theorem same_iff : ∀ a b : Value, same a b = true ↔ a = b
  | null, b => by cases b <;> simp [same]
  | bool x, b => by cases b <;> simp [same]
  | int x, b => by cases b <;> simp [same]
  | float x, b => by cases b <;> simp [same]
  | string x, b => by cases b <;> simp [same]
  | array x, b => by cases b <;> simp [same, sameItems_iff]
  | object x, b => by cases b <;> simp [same, sameFields_iff]

theorem sameItems_iff : ∀ a b : List Value, sameItems a b = true ↔ a = b
  | [], b => by cases b <;> simp [sameItems]
  | a :: as, b => by cases b <;> simp [sameItems, same_iff, sameItems_iff]

theorem sameFields_iff : ∀ a b : List (String × Value), sameFields a b = true ↔ a = b
  | [], b => by cases b <;> simp [sameFields]
  | (k, a) :: as, b => by
    cases b <;> simp [sameFields, same_iff, sameFields_iff, Prod.ext_iff]

end

instance : DecidableEq Value := fun a b => decidable_of_iff _ (same_iff a b)

mutual

/-- How deep arrays and objects nest. -/
def depth : Value → Nat
  | array items => 1 + itemsDepth items
  | object fields => 1 + fieldsDepth fields
  | _ => 0

def itemsDepth : List Value → Nat
  | [] => 0
  | v :: vs => Nat.max (depth v) (itemsDepth vs)

def fieldsDepth : List (String × Value) → Nat
  | [] => 0
  | (_, v) :: fs => Nat.max (depth v) (fieldsDepth fs)

end

end Value

namespace Fields

def get? (key : String) : Fields → Option Value
  | [] => none
  | (k, v) :: fs => if k = key then some v else get? key fs

/-- Set `key`, keeping the order of keys. -/
def insert (key : String) (value : Value) : Fields → Fields
  | [] => [(key, value)]
  | (k, v) :: fs =>
    if key < k then (key, value) :: (k, v) :: fs
    else if key = k then (key, value) :: fs
    else (k, v) :: insert key value fs

def insertAll (fields more : Fields) : Fields :=
  more.foldl (fun fs (k, v) => insert k v fs) fields

/-- Fields with the given entries; of two with one key the later one counts. -/
def ofList (entries : List (String × Value)) : Fields := insertAll [] entries

@[simp] theorem get?_insert_self (key : String) (value : Value) (fs : Fields) :
    get? key (insert key value fs) = some value := by
  induction fs with
  | nil => simp [insert, get?]
  | cons f fs ih =>
    simp only [insert]
    split
    · simp [get?]
    · split
      · simp [get?]
      · next h => simp [get?, Ne.symm h, ih]

theorem get?_insert_of_ne {key k : String} (h : k ≠ key) (value : Value) (fs : Fields) :
    get? k (insert key value fs) = get? k fs := by
  induction fs with
  | nil => simp [insert, get?, Ne.symm h]
  | cons f fs ih =>
    simp only [insert]
    split
    · simp [get?, Ne.symm h]
    · split
      · next he => subst he; simp [get?, Ne.symm h]
      · simp [get?, ih]

end Fields

end CommentBlocks
