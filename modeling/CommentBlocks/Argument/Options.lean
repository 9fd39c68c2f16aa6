import CommentBlocks.Argument.Coerce
import CommentBlocks.Argument.Token
import CommentBlocks.Fault
import CommentBlocks.Value.Printer

/-!
The options of a block: reading argument text, reading the older notation with ampersands, and
writing options as argument text.
-/

namespace CommentBlocks

namespace Options

open Text (trim trimEndBy takeBytes dropBytes)

def isEmoji (c : Char) : Bool :=
  let n := c.toNat
  (0x1F000 ≤ n && n ≤ 0x1FAFF) || (0x2600 ≤ n && n ≤ 0x27BF) || (0x2B00 ≤ n && n ≤ 0x2BFF) ||
    n == 0xFE0F

/-- A key is not empty and starts neither with a hyphen nor with an emoji. -/
def isKey : List Char → Bool
  | [] => false
  | c :: _ => c != '-' && !isEmoji c

/-- A key that waits for an equals sign or for its value. -/
structure Pending where
  key : List Char
  awaitsValue : Bool
deriving DecidableEq, Repr

structure Gathering where
  options : Options
  pending : Option Pending

namespace Gathering

def start : Gathering := ⟨[], none⟩

/-- Set a key, to true where it has no value. Commas after the key do not count. -/
def commit (g : Gathering) (key : List Char) (raw : Option (List Char)) : Gathering :=
  let key := trimEndBy (· == ',') (trim key)
  if isKey key then
    let value := match raw with
      | none => .bool true
      | some raw => Coerce.value raw
    { g with options := g.options.insert (String.ofList key) value }
  else g

/-- A key that still waits is a flag. -/
def flush (g : Gathering) : Gathering :=
  match g.pending with
  | none => g
  | some p => { g with pending := none }.commit p.key none

/-- Take one token in. Tokens of commas only do not count. -/
def push (g : Gathering) (token : Token) : Gathering :=
  if token.text.all (· == ',') then g
  else
    match token.equals with
    | some 0 =>
      let rest := token.text.drop 1
      match g.pending with
      | none => g
      | some p =>
        if rest.isEmpty then { g with pending := some ⟨p.key, true⟩ }
        else { g with pending := none }.commit p.key (some rest)
    | some offset =>
      let g := g.flush
      let key := takeBytes offset token.text
      let raw := dropBytes (offset + 1) token.text
      if raw.isEmpty then { g with pending := some ⟨key, true⟩ } else g.commit key (some raw)
    | none =>
      match g.pending with
      | some p =>
        if p.awaitsValue then { g with pending := none }.commit p.key (some token.text)
        else { g.commit p.key none with pending := some ⟨token.text, false⟩ }
      | none => { g with pending := some ⟨token.text, false⟩ }

end Gathering

def ofTokens (tokens : List Token) : Options :=
  (tokens.foldl Gathering.push Gathering.start).flush.options

/-- The options of argument text: pairs of key and value, and flags, between white space. A key
that is set twice has the later value. -/
def ofText (text : List Char) : Except TokenFault Options := (Token.ofText text).map ofTokens

def parse (text : String) : Except Fault Options :=
  match ofText text.toList with
  | .ok options => .ok options
  | .error fault => .error (.argumentSyntax fault.message)

def setPair (options : Options) (pair : List Char) : Options :=
  let (key, value) := match Text.splitOnce? '=' pair with
    | some (key, raw) => (trim key, Coerce.value raw)
    | none => (pair, .bool true)
  if isKey key then options.insert (String.ofList key) value else options

/-- The options of `key=value&key=value`. -/
def ofPairs (text : List Char) : Options :=
  (((Text.splitAt '&' text).map trim).filter (!·.isEmpty)).foldl setPair []

/-- The text of a value. An array that starts with an array gets a blank in between, so that the
two brackets are not taken for a doubled pair. -/
def valueText (v : Value) : List Char :=
  match v.print with
  | '[' :: '[' :: rest => '[' :: ' ' :: '[' :: rest
  | cs => cs

/-- Options as argument text. -/
def toText (options : Options) : List Char :=
  Text.joinWith [' '] (options.map fun (k, v) => k.toList ++ '=' :: valueText v)

def print (options : Options) : String := String.ofList (toText options)

end Options

end CommentBlocks
