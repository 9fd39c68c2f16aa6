import CommentBlocks.Text.Basic

/-!
Texts as a file system holds them: bytes, which are UTF-8 or not.

A name of a file, a path and the target of a link are such texts.
-/

namespace CommentBlocks

structure RawText where
  bytes : List UInt8
deriving DecidableEq, Inhabited, Repr

namespace RawText

def ofText (text : String) : RawText := ⟨text.toUTF8.data.toList⟩

instance : Coe String RawText := ⟨ofText⟩

/-- The text that the bytes are UTF-8 of, if there is one. -/
def text? (r : RawText) : Option String := String.fromUTF8? ⟨r.bytes.toArray⟩

/-- Raw texts are ordered byte by byte. -/
instance : LT RawText := ⟨fun r s => r.bytes < s.bytes⟩

instance : DecidableLT RawText := fun r s => inferInstanceAs (Decidable (r.bytes < s.bytes))

def slash : UInt8 := 47

def dot : UInt8 := 46

def isAbsolute (path : RawText) : Bool := path.bytes.head? == some slash

/-- The names in a path, between slashes. -/
def pieces (path : RawText) : List RawText := (Text.splitAt slash path.bytes).map mk

def ofPieces (names : List RawText) : RawText := ⟨Text.joinWith [slash] (names.map bytes)⟩

/-! ### Bytes that are no text -/

/-- A character of several bytes of which some have been read. -/
structure Unfinished where
  /-- How many bytes are to come. -/
  missing : Nat
  /-- Where the next one has to lie. -/
  low : UInt8
  high : UInt8
  /-- What has been read of the character's number. -/
  bits : Nat

/-- What the first byte of a character of several bytes announces. -/
def Unfinished.start? (b : UInt8) : Option Unfinished :=
  if 0xC2 ≤ b ∧ b ≤ 0xDF then some ⟨1, 0x80, 0xBF, b.toNat % 32⟩
  else if 0xE0 ≤ b ∧ b ≤ 0xEF then
    some ⟨2, if b = 0xE0 then 0xA0 else 0x80, if b = 0xED then 0x9F else 0xBF, b.toNat % 16⟩
  else if 0xF0 ≤ b ∧ b ≤ 0xF4 then
    some ⟨3, if b = 0xF0 then 0x90 else 0x80, if b = 0xF4 then 0x8F else 0xBF, b.toNat % 8⟩
  else none

/-- The characters that a byte brings to an end, and what it leaves unfinished. Bytes that come to no
character stand for one replacement character. -/
def readByte (u : Option Unfinished) (b : UInt8) : List Char × Option Unfinished :=
  let fresh : List Char × Option Unfinished :=
    if b < 0x80 then ([Char.ofNat b.toNat], none)
    else
      match Unfinished.start? b with
      | some u => ([], some u)
      | none => (['\ufffd'], none)
  match u with
  | none => fresh
  | some u =>
    if u.low ≤ b ∧ b ≤ u.high then
      let bits := u.bits * 64 + b.toNat % 64
      if u.missing = 1 then ([Char.ofNat bits], none)
      else ([], some ⟨u.missing - 1, 0x80, 0xBF, bits⟩)
    else ('\ufffd' :: fresh.1, fresh.2)

def readBytes (u : Option Unfinished) : List UInt8 → List Char
  | [] => if u.isSome then ['\ufffd'] else []
  | b :: bs =>
    let (cs, u) := readByte u b
    cs ++ readBytes u bs

/-- The text as it is shown, with replacement characters for what is no UTF-8. -/
def shown (r : RawText) : String := r.text?.getD (String.ofList (readBytes none r.bytes))

end RawText

end CommentBlocks
