import CommentBlocks.Proofs.Value.Derived

/-!
JSON texts and what they denote. The reader of relaxed literals takes their strings for what they
denote, but for those that write a character in two halves, which it refuses.
-/

namespace CommentBlocks

open Relaxed (hexValue?)

/-! ### Strings -/

namespace Json

/-- How a string writes a character, or one half of it. -/
inductive Piece
  | plain (c : Char)
  /-- A backslash and a letter or mark. -/
  | short (c : Char)
  /-- Four hexadecimal digits for a unit of 16 bits. -/
  | code (a b c d : Char)
deriving DecidableEq, Repr

/-- What the letters and marks behind a backslash stand for. -/
def shortEscapes : List (Char × Char) :=
  [('"', '"'), ('\\', '\\'), ('/', '/'), ('b', '\x08'), ('f', '\x0c'), ('n', '\n'), ('r', '\r'),
    ('t', '\t')]

namespace Piece

def text : Piece → List Char
  | plain c => [c]
  | short c => ['\\', c]
  | code a b c d => ['\\', 'u', a, b, c, d]

def Valid : Piece → Prop
  | plain c => 0x20 ≤ c.toNat ∧ c ≠ '"' ∧ c ≠ '\\'
  | short c => (shortEscapes.lookup c).isSome = true
  | code a b c d => ∀ x ∈ [a, b, c, d], (hexValue? x).isSome = true

def unit : Piece → Nat
  | code a b c d => [a, b, c, d].foldl (fun n x => 16 * n + (hexValue? x).getD 0) 0
  | _ => 0

/-- The first half of a character beyond 16 bits. -/
def isHigh (p : Piece) : Bool := decide (0xd800 ≤ p.unit ∧ p.unit < 0xdc00)

/-- The second half of a character beyond 16 bits. -/
def isLow (p : Piece) : Bool := decide (0xdc00 ≤ p.unit ∧ p.unit < 0xe000)

def isSurrogate (p : Piece) : Bool := p.isHigh || p.isLow

def char? : Piece → Option Char
  | plain c => some c
  | short c => shortEscapes.lookup c
  | p => if p.isSurrogate then none else some (Char.ofNat p.unit)

def pair (high low : Piece) : Char :=
  Char.ofNat (0x10000 + (high.unit - 0xd800) * 0x400 + (low.unit - 0xdc00))

end Piece

/-- The string that pieces denote, unless half of a character stands alone. -/
def denoted? : List Piece → Option (List Char)
  | [] => some []
  | [p] => p.char?.map fun c => [c]
  | p :: q :: ps =>
    if p.isHigh && q.isLow then (denoted? ps).map (p.pair q :: ·)
    else p.char?.bind fun c => (denoted? (q :: ps)).map (c :: ·)

end Json

/-! ### Texts -/

/-- A JSON text without its white space. -/
inductive Json where
  | null
  | bool (b : Bool)
  | number (text : List Char)
  | string (s : List Json.Piece)
  | array (items : List Json)
  | object (members : List (List Json.Piece × Json))

namespace Json

def isWord : Json → Bool
  | null | bool _ | number _ => true
  | _ => false

mutual

/-- The value that the text denotes. A number that no finite floating point number comes near to is
kept as a string. -/
def value? : Json → Option Value
  | null => some .null
  | bool b => some (.bool b)
  | number text => some ((Numeral.value? text).getD (.string (String.ofList text)))
  | string s => (denoted? s).map fun cs => .string (String.ofList cs)
  | array items => (values? items).map .array
  | object members => (entries? members).map fun es => .object (Fields.ofList es)

def values? : List Json → Option (List Value)
  | [] => some []
  | j :: js => (value? j).bind fun v => (values? js).map (v :: ·)

def entries? : List (List Piece × Json) → Option (List (String × Value))
  | [] => some []
  | (name, j) :: ms => (denoted? name).bind fun cs => (value? j).bind fun v =>
      (entries? ms).map ((String.ofList cs, v) :: ·)

end

mutual

def strings : Json → List (List Piece)
  | string s => [s]
  | array items => stringsOfItems items
  | object members => stringsOfMembers members
  | _ => []

def stringsOfItems : List Json → List (List Piece)
  | [] => []
  | j :: js => strings j ++ stringsOfItems js

def stringsOfMembers : List (List Piece × Json) → List (List Piece)
  | [] => []
  | (name, j) :: ms => name :: (strings j ++ stringsOfMembers ms)

end

/-- Some string or name writes a character in two halves, or half of one. -/
def namesSurrogate (j : Json) : Bool := j.strings.any (·.any Piece.isSurrogate)

def Space (cs : List Char) : Prop := ∀ c ∈ cs, c ∈ [' ', '\t', '\n', '\r']

def Digits (cs : List Char) : Prop := cs ≠ [] ∧ ∀ c ∈ cs, c.isDigit = true

/-- A minus sign, an integer without zeros in front, a fraction and an exponent. -/
def IsNumber (cs : List Char) : Prop :=
  ∃ minus whole fraction exponent, cs = minus ++ (whole ++ (fraction ++ exponent)) ∧
    (minus = [] ∨ minus = ['-']) ∧ (whole = ['0'] ∨ Digits whole ∧ whole.head? ≠ some '0') ∧
    (fraction = [] ∨ ∃ ds, fraction = '.' :: ds ∧ Digits ds) ∧
    (exponent = [] ∨ ∃ mark sg ds, exponent = mark :: (sg ++ ds) ∧ (mark = 'e' ∨ mark = 'E') ∧
      (sg = [] ∨ sg = ['-'] ∨ sg = ['+']) ∧ Digits ds)

inductive Part where
  | value (j : Json)
  | items (js : List Json)
  | members (ms : List (List Piece × Json))

def quoted (s : List Piece) : List Char := '"' :: (s.flatMap Piece.text ++ ['"'])

/-- The rules of the grammar. -/
inductive Written : Part → List Char → Prop
  | null : Written (.value .null) "null".toList
  | yes : Written (.value (.bool true)) "true".toList
  | no : Written (.value (.bool false)) "false".toList
  | number {text : List Char} (h : IsNumber text) : Written (.value (.number text)) text
  | string {s : List Piece} (h : ∀ p ∈ s, p.Valid) : Written (.value (.string s)) (quoted s)
  | noItems {a : List Char} (ha : Space a) : Written (.value (.array [])) ('[' :: (a ++ [']']))
  | array {js : List Json} {text : List Char} (h : Written (.items js) text) :
      Written (.value (.array js)) ('[' :: (text ++ [']']))
  | lastItem {j : Json} {a text b : List Char} (ha : Space a) (h : Written (.value j) text)
      (hb : Space b) : Written (.items [j]) (a ++ (text ++ b))
  | item {j : Json} {js : List Json} {a text b more : List Char} (ha : Space a)
      (h : Written (.value j) text) (hb : Space b) (hmore : Written (.items js) more) :
      Written (.items (j :: js)) (a ++ (text ++ (b ++ ',' :: more)))
  | noMembers {a : List Char} (ha : Space a) :
      Written (.value (.object [])) ('\x7b' :: (a ++ ['\x7d']))
  | object {ms : List (List Piece × Json)} {text : List Char} (h : Written (.members ms) text) :
      Written (.value (.object ms)) ('\x7b' :: (text ++ ['\x7d']))
  | lastMember {name : List Piece} {j : Json} {a b c text d : List Char} (ha : Space a)
      (hname : ∀ p ∈ name, p.Valid) (hb : Space b) (hc : Space c) (h : Written (.value j) text)
      (hd : Space d) :
      Written (.members [(name, j)]) (a ++ (quoted name ++ (b ++ ':' :: (c ++ (text ++ d)))))
  | member {name : List Piece} {j : Json} {ms : List (List Piece × Json)}
      {a b c text d more : List Char} (ha : Space a) (hname : ∀ p ∈ name, p.Valid) (hb : Space b)
      (hc : Space c) (h : Written (.value j) text) (hd : Space d)
      (hmore : Written (.members ms) more) :
      Written (.members ((name, j) :: ms))
        (a ++ (quoted name ++ (b ++ ':' :: (c ++ (text ++ (d ++ ',' :: more))))))

def IsText (j : Json) (text : List Char) : Prop :=
  ∃ a core b, text = a ++ (core ++ b) ∧ Space a ∧ Space b ∧ Written (.value j) core

/-! ### Strings as the reader takes them -/

open Relaxed
open Unicode (isBlank)
open Text (isQuote)

lemma lt_of_hexValue? {c : Char} {n : Nat} (h : hexValue? c = some n) : n < 16 := by
  have hle : ∀ {d : Char}, c ≤ d → c.toNat ≤ d.toNat := fun hcd =>
    UInt32.le_iff_toNat_le.1 (Char.le_def.1 hcd)
  simp only [hexValue?] at h
  split at h
  · next hc =>
    cases h
    have : c.toNat ≤ 57 := hle hc.2
    have : '0'.toNat = 48 := rfl
    omega
  split at h
  · next hc =>
    cases h
    have : c.toNat ≤ 102 := hle hc.2
    have : 'a'.toNat = 97 := rfl
    omega
  split at h
  · next hc =>
    cases h
    have : c.toNat ≤ 70 := hle hc.2
    have : 'A'.toNat = 65 := rfl
    omega
  · simp at h

namespace Piece

lemma unicodeEscape?_code {a b c d : Char} (h : (code a b c d).Valid) :
    unicodeEscape? [a, b, c, d] = charOf? (code a b c d).unit ∧ (code a b c d).unit < 0x10000 := by
  simp only [Valid, List.forall_mem_cons, Option.isSome_iff_exists] at h
  obtain ⟨⟨w, hw⟩, ⟨x, hx⟩, ⟨y, hy⟩, ⟨z, hz⟩, -⟩ := h
  have hunit : (code a b c d).unit = ((w * 16 + x) * 16 + y) * 16 + z := by
    simp only [unit, List.foldl_cons, List.foldl_nil, hw, hx, hy, hz, Option.getD_some]
    omega
  have := lt_of_hexValue? hw
  have := lt_of_hexValue? hx
  have := lt_of_hexValue? hy
  have := lt_of_hexValue? hz
  exact ⟨by simp only [unicodeEscape?, hw, hx, hy, hz, hunit], by omega⟩

lemma isSurrogate_iff {p : Piece} :
    p.isSurrogate = true ↔ 0xd800 ≤ p.unit ∧ p.unit < 0xe000 := by
  simp only [isSurrogate, isHigh, isLow, Bool.or_eq_true, decide_eq_true_eq]
  omega

lemma unicodeEscape?_surrogate {a b c d : Char} (h : (code a b c d).Valid)
    (hsurrogate : (code a b c d).isSurrogate = true) : unicodeEscape? [a, b, c, d] = none := by
  rw [isSurrogate_iff] at hsurrogate
  rw [(unicodeEscape?_code h).1, charOf?, dif_neg]
  simp only [Nat.isValidChar]
  omega

lemma char?_code {a b c d : Char} (hplain : (code a b c d).isSurrogate = false) :
    (code a b c d).char? = some (Char.ofNat (code a b c d).unit) := by
  simp only [char?, hplain, Bool.false_eq_true, if_false]

lemma unicodeEscape?_char {a b c d : Char} (h : (code a b c d).Valid)
    (hplain : (code a b c d).isSurrogate = false) :
    unicodeEscape? [a, b, c, d] = (code a b c d).char? := by
  obtain ⟨hescape, hlt⟩ := unicodeEscape?_code h
  have hvalid : (code a b c d).unit.isValidChar := by
    rw [Bool.eq_false_iff, ne_eq, isSurrogate_iff] at hplain
    simp only [Nat.isValidChar]
    omega
  rw [hescape, charOf?, dif_pos hvalid, char?_code hplain, Char.ofNat, dif_pos hvalid]

/-- What the reader makes of a letter behind a backslash. -/
lemma escape_of_lookup {c d : Char} (h : shortEscapes.lookup c = some d) :
    escape c = d ∧ c ≠ 'u' := by
  simp only [shortEscapes, List.lookup_cons, List.lookup_nil] at h
  repeat' split at h
  all_goals first
    | (next heq => rw [beq_iff_eq] at heq; subst heq; cases h; decide)
    | simp at h

/-- A piece that is no half of a character is read as its character. -/
lemma exists_spells {p : Piece} (hvalid : p.Valid) (hplain : p.isSurrogate = false) :
    ∃ c, p.char? = some c ∧
      ∀ {text s}, Spells '"' text s → Spells '"' (p.text ++ text) (c :: s) := by
  cases p with
  | plain c => exact ⟨c, rfl, fun h => .plain hvalid.2.1 hvalid.2.2 h⟩
  | short c =>
    obtain ⟨d, hd⟩ := Option.isSome_iff_exists.1 hvalid
    obtain ⟨hescape, hc⟩ := escape_of_lookup hd
    refine ⟨d, hd, fun h => ?_⟩
    have := Spells.escaped hc h
    rwa [hescape] at this
  | code a b c d =>
    have hx := unicodeEscape?_char hvalid hplain
    rw [char?_code hplain] at hx
    exact ⟨_, char?_code hplain, fun h => .code hx h⟩

/-- What is refused behind a piece is refused with it. -/
lemma stringBody?_text {p : Piece} (hvalid : p.Valid) {cs : List Char}
    (h : stringBody? '"' cs = none) : stringBody? '"' (p.text ++ cs) = none := by
  cases p with
  | plain c => rw [text, List.singleton_append, stringBody?_plain hvalid.2.1 hvalid.2.2, h]; rfl
  | short c =>
    obtain ⟨d, hd⟩ := Option.isSome_iff_exists.1 hvalid
    simp only [text, List.cons_append, List.nil_append]
    rw [stringBody?_escape rfl (escape_of_lookup hd).2, h]
    rfl
  | code a b c d =>
    simp only [text, List.cons_append, List.nil_append]
    rw [stringBody?_code rfl, h]
    simp

lemma stringBody?_surrogate {p : Piece} (hvalid : p.Valid) (hsurrogate : p.isSurrogate = true)
    (cs : List Char) : stringBody? '"' (p.text ++ cs) = none := by
  cases p with
  | plain c => simp [isSurrogate_iff, unit] at hsurrogate
  | short c => simp [isSurrogate_iff, unit] at hsurrogate
  | code a b c d =>
    simp only [text, List.cons_append, List.nil_append]
    rw [stringBody?_code rfl, unicodeEscape?_surrogate hvalid hsurrogate]
    rfl

end Piece

section Strings

variable {s : List Piece} (hvalid : ∀ p ∈ s, p.Valid)

lemma denoted?_cons {p : Piece} (hplain : p.isSurrogate = false) (ps : List Piece) :
    denoted? (p :: ps) = p.char?.bind fun c => (denoted? ps).map (c :: ·) := by
  cases ps with
  | nil => simp [denoted?, Option.map_eq_bind]
  | cons q ps =>
    have hhigh : p.isHigh = false := by
      rw [Piece.isSurrogate, Bool.or_eq_false_iff] at hplain
      exact hplain.1
    simp only [denoted?, hhigh, Bool.false_and, Bool.false_eq_true, if_false]

include hvalid

lemma exists_denoted (hplain : ∀ p ∈ s, p.isSurrogate = false) :
    ∃ cs, denoted? s = some cs ∧ Spells '"' (s.flatMap Piece.text) cs := by
  induction s with
  | nil => exact ⟨[], rfl, .nil⟩
  | cons p ps ih =>
    obtain ⟨hp, hps⟩ := List.forall_mem_cons.1 hplain
    obtain ⟨hvp, hvps⟩ := List.forall_mem_cons.1 hvalid
    obtain ⟨cs, hcs, hspells⟩ := ih hvps hps
    obtain ⟨c, hc, hext⟩ := Piece.exists_spells hvp hp
    refine ⟨c :: cs, ?_, by rw [List.flatMap_cons]; exact hext hspells⟩
    rw [denoted?_cons hp, hc, hcs]
    rfl

lemma stringBody?_eq_none (h : s.any Piece.isSurrogate = true) (cs : List Char) :
    stringBody? '"' (s.flatMap Piece.text ++ cs) = none := by
  induction s with
  | nil => simp at h
  | cons p ps ih =>
    obtain ⟨hvp, hvps⟩ := List.forall_mem_cons.1 hvalid
    rw [List.flatMap_cons, List.append_assoc]
    by_cases hp : p.isSurrogate = true
    · exact Piece.stringBody?_surrogate hvp hp _
    · rw [List.any_cons, Bool.eq_false_iff.2 hp, Bool.false_or] at h
      exact Piece.stringBody?_text hvp (ih hvps h)

end Strings

end Json

end CommentBlocks
