import CommentBlocks.Argument.Bracket
import CommentBlocks.Value.Relaxed

/-!
The value of the raw text of an argument.
-/

namespace CommentBlocks

namespace Coerce

open Unicode (isBlank)
open Text (trim trimEnd before? after?)

/-- The text without white space around it and without one comma at the end. -/
def tidy (raw : List Char) : List Char :=
  let cs := trim raw
  match before? [','] cs with
  | some rest => trimEnd rest
  | none => cs

def keyword? (cs : List Char) : Option Value :=
  if cs = "true".toList then some (.bool true)
  else if cs = "false".toList then some (.bool false)
  else if cs = "null".toList then some .null
  else none

def inner (cs : List Char) : List Char := (cs.drop 1).dropLast

/-- The inner pair of a doubled pair of brackets that encloses the whole text. -/
def unwrapDouble? (cs : List Char) : Option (List Char) :=
  let doubled (k : BracketKind) : Bool :=
    (after? [k.opening, k.opening] cs).isSome && (before? [k.closing, k.closing] cs).isSome
  if (doubled .curly || doubled .square) && 4 ≤ cs.length &&
      Bracket.close? cs == some (cs.length - 1) &&
      Bracket.close? (cs.drop 1) == some (cs.length - 3) then
    some (inner cs)
  else none

def isPlainKeyChar (c : Char) : Bool :=
  c.isAlpha || c.isDigit || c == '_' || c == '$' || c == '-'

/-- What follows a key at the start of a text: a quoted key or one that needs no quotes. -/
def afterKey? : List Char → Option (List Char)
  | [] => none
  | c :: cs =>
    if c == '"' || c == '\'' then
      match cs.dropWhile (· != c) with
      | [] => none
      | _ :: rest => some rest
    else if isPlainKeyChar c then some (cs.dropWhile isPlainKeyChar)
    else none

def hasKeyShape (cs : List Char) : Bool :=
  match afterKey? (cs.dropWhile isBlank) with
  | some rest => (rest.dropWhile isBlank).head? == some ':'
  | none => false

/-- The text inside curly brackets that enclose something other than fields. -/
def unwrapBraces? (cs : List Char) : Option (List Char) :=
  if cs.head? == some '\x7b' && Bracket.close? cs == some (cs.length - 1) then
    let body := trim (inner cs)
    if body.isEmpty || hasKeyShape body || !Bracket.balanced body then none else some body
  else none

def unquote? (cs : List Char) : Option (List Char) :=
  ['"', '\'', '\x60'].findSome? fun q => (after? [q] cs).bind (before? [q])

/-- The items between square brackets, cut at every comma. -/
def listItems? (cs : List Char) : Option (List (List Char)) :=
  ((after? ['['] cs).bind (before? [']'])).map fun body =>
    ((Text.splitAt ',' body).map trim).filter (!·.isEmpty)

theorem length_tidy_le (raw : List Char) : (tidy raw).length ≤ raw.length := by
  have h := Text.length_trim_le raw
  simp only [tidy]
  split
  · next rest hr =>
    have := congrArg List.length (Text.before?_eq_some_iff.1 hr)
    have := Text.length_trimEnd_le rest
    simp at *
    omega
  · exact h

theorem length_inner (cs : List Char) : (inner cs).length = cs.length - 2 := by
  simp [inner]; omega

theorem length_lt_of_unwrapDouble? {cs r : List Char} (h : unwrapDouble? cs = some r) :
    r.length < cs.length := by
  simp only [unwrapDouble?] at h
  split at h
  · next hc =>
    simp only [Bool.and_eq_true, decide_eq_true_eq] at hc
    cases h
    rw [length_inner]
    omega
  · simp at h

theorem length_lt_of_unwrapBraces? {cs r : List Char} (h : unwrapBraces? cs = some r) :
    r.length < cs.length := by
  simp only [unwrapBraces?] at h
  split at h
  · next hc =>
    split at h
    · simp at h
    · cases h
      have h1 := Text.length_trim_le (inner cs)
      rw [length_inner] at h1
      have : cs ≠ [] := by rintro rfl; simp at hc
      have := List.length_pos_iff.2 this
      omega
  · simp at h

theorem length_lt_of_mem_listItems? {cs : List Char} {items : List (List Char)}
    (h : listItems? cs = some items) {item : List Char} (hi : item ∈ items) :
    item.length < cs.length := by
  obtain ⟨body, hb, rfl⟩ := Option.map_eq_some_iff.1 h
  obtain ⟨tail, ht, hb⟩ := Option.bind_eq_some_iff.1 hb
  obtain ⟨hm, -⟩ := List.mem_filter.1 hi
  obtain ⟨piece, hp, rfl⟩ := List.mem_map.1 hm
  have h1 := Text.length_trim_le piece
  have h2 := Text.length_le_of_mem_splitAt hp
  have h3 := congrArg List.length (Text.after?_eq_some_iff.1 ht)
  have h4 := congrArg List.length (Text.before?_eq_some_iff.1 hb)
  simp at h3 h4
  omega

/-- The value of an argument. Keywords and finite numbers count as such, doubled and redundant
brackets come off, and objects, arrays and strings are read as relaxed literals. What is left is a
string with one pair of equal quotes taken off, a list of bare items, or the text itself. -/
def value (raw : List Char) : Value :=
  let cs := tidy raw
  match keyword? cs with
  | some v => v
  | none =>
    match Numeral.value? cs with
    | some v => v
    | none =>
      match _ : unwrapDouble? cs with
      | some r => value r
      | none =>
        match _ : unwrapBraces? cs with
        | some r => value r
        | none =>
          match Relaxed.literal? cs with
          | some v => v
          | none =>
            match unquote? cs with
            | some r => .string (String.ofList r)
            | none =>
              match _ : listItems? cs with
              | some items => .array (items.attach.map fun ⟨item, _⟩ => value item)
              | none => .string (String.ofList cs)
termination_by raw.length
decreasing_by
  · exact Nat.lt_of_lt_of_le (length_lt_of_unwrapDouble? (by assumption)) (length_tidy_le raw)
  · exact Nat.lt_of_lt_of_le (length_lt_of_unwrapBraces? (by assumption)) (length_tidy_le raw)
  · exact Nat.lt_of_lt_of_le (length_lt_of_mem_listItems? (by assumption) (by assumption))
      (length_tidy_le raw)

end Coerce

end CommentBlocks
