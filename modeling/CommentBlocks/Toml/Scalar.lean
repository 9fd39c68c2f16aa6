import CommentBlocks.Toml.Basic
import CommentBlocks.Toml.Quoted

/-!
Numbers, truth values, dates and times of TOML documents.
-/

namespace CommentBlocks

namespace Toml

open Numeral (isDigit ofDigits sign withSign)

/-- Take the underscores out; each has to stand between two digits. -/
def joinDigits? (isDigit : Char → Bool) : List Char → Option (List Char)
  | [] => none
  | [c] => if isDigit c then some [c] else none
  | c :: '_' :: d :: cs =>
    if isDigit c && isDigit d then (joinDigits? isDigit (d :: cs)).map (c :: ·) else none
  | c :: d :: cs => if isDigit c then (joinDigits? isDigit (d :: cs)).map (c :: ·) else none

/-- Decimal digits with underscores, without a leading zero. -/
def wholeDigits? (cs : List Char) : Option (List Char) :=
  (joinDigits? isDigit cs).filter fun ds => ds.length == 1 || ds.head? != some '0'

/-- Integers have up to 128 bits, with a sign or without. -/
def ofInteger (i : Int) : Toml :=
  if -(Nat.pow 2 127 : Int) ≤ i ∧ i < (Nat.pow 2 128 : Int) then .integer i else .unreadable

def base? (letter : Char) : Option Nat :=
  if letter = 'x' then some 16 else if letter = 'o' then some 8 else if letter = 'b' then some 2
  else none

/-- An integer in a base other than ten: a zero, the letter of the base, and the digits. -/
def basedInteger? : List Char → Option Toml
  | '0' :: letter :: digits =>
    match base? letter, digits with
    | none, _ => none
    | some _, [] => some .unreadable
    | some base, digits =>
      (joinDigits? (fun c => (Relaxed.hexValue? c).any (· < base)) digits).map fun ds =>
        ofInteger (ds.foldl (fun n c => base * n + (Relaxed.hexValue? c).getD 0) 0 : Nat)
  | _ => none

def integer? (cs : List Char) : Option Toml :=
  let (negative, unsigned) := sign cs
  (wholeDigits? unsigned).map fun ds => ofInteger (withSign negative (ofDigits ds))

def nonFinite? (cs : List Char) : Option Toml :=
  let (negative, word) := sign cs
  if word = ['i', 'n', 'f'] then some (.float (.infinity negative))
  else if word = ['n', 'a', 'n'] then some (.float (.nan negative))
  else none

/-- A floating point number: digits with a point and more digits, with an exponent, or with both. It
does not stand for infinity. -/
def float? (cs : List Char) : Option Toml :=
  let (negative, unsigned) := sign cs
  let (mantissa, exponent) := Numeral.cutExponent unsigned
  let digits := match Text.splitOnce? '.' mantissa with
    | none => if exponent.isSome then (wholeDigits? mantissa).map (·, []) else none
    | some (whole, places) =>
      match wholeDigits? whole, joinDigits? isDigit places with
      | some w, some p => some (w, p)
      | _, _ => none
  let power := match exponent with
    | none => some 0
    | some e => (joinDigits? isDigit (sign e).2).map fun ds => withSign (sign e).1 (ofDigits ds)
  match digits, power with
  | some (w, p), some power =>
    let x := Binary64.ofDecimal negative (ofDigits (w ++ p)) (power - p.length)
    some (if x.isFinite then .float x else .unreadable)
  | _, _ => none

/-- Exactly `n` digits, within bounds. -/
def field? (n low high : Nat) (cs : List Char) : Option (Nat × List Char) :=
  let ds := cs.take n
  if ds.length == n && ds.all isDigit && low ≤ ofDigits ds && ofDigits ds ≤ high then
    some (ofDigits ds, cs.drop n)
  else none

def expect? (c : Char) : List Char → Option (List Char)
  | [] => none
  | d :: cs => if d = c then some cs else none

def isLeapYear (y : Nat) : Bool := y % 4 == 0 && (y % 100 != 0 || y % 400 == 0)

def daysInMonth (year month : Nat) : Nat :=
  if month = 2 then (if isLeapYear year then 29 else 28)
  else if month = 4 ∨ month = 6 ∨ month = 9 ∨ month = 11 then 30 else 31

/-- A date. Its text is already in the normal form. -/
def date? (cs : List Char) : Option (List Char × List Char) := do
  let (year, rest) ← field? 4 0 9999 cs
  let (month, rest) ← (expect? '-' rest).bind (field? 2 1 12)
  let (_, rest) ← (expect? '-' rest).bind (field? 2 1 (daysInMonth year month))
  return (cs.take 10, rest)

/-- A fraction of a second, nine places at most and without zeros at the end. -/
def fraction (digits : List Char) : List Char :=
  let ds := Text.trimEndBy (· == '0') (digits.take 9)
  if ds.isEmpty then ['0'] else ds

/-- A time; seconds may be left out, and a fraction may follow them. -/
def time? (cs : List Char) : Option (List Char × List Char) := do
  let (_, rest) ← field? 2 0 23 cs
  let (_, rest) ← (expect? ':' rest).bind (field? 2 0 59)
  let short := cs.take 5
  match rest with
  | ':' :: rest =>
    let (_, rest) ← field? 2 0 60 rest
    let whole := cs.take 8
    match rest with
    | '.' :: rest =>
      let digits := rest.takeWhile isDigit
      if digits.isEmpty then none
      else return (whole ++ '.' :: fraction digits, rest.dropWhile isDigit)
    | rest => return (whole, rest)
  | rest => return (short, rest)

def offset? : List Char → Option (List Char)
  | [] => some []
  | ['Z'] => some ['Z']
  | ['z'] => some ['Z']
  | c :: cs => do
    let (hours, rest) ← field? 2 0 23 cs
    let (minutes, rest) ← (expect? ':' rest).bind (field? 2 0 59)
    let mark := if hours = 0 ∧ minutes = 0 then '+' else c
    if (c == '+' || c == '-') && rest.isEmpty then return mark :: cs else none

/-- A date, a time, or a date and a time, in the normal form. -/
def datetime? (cs : List Char) : Option (List Char) :=
  match date? cs with
  | some (day, []) => some day
  | some (day, mark :: rest) =>
    if mark == 'T' || mark == 't' || mark == ' ' then do
      let (time, rest) ← time? rest
      let zone ← offset? rest
      return day ++ 'T' :: time ++ zone
    else none
  | none =>
    match time? cs with
    | some (time, []) => some time
    | _ => none

def isAtomChar (c : Char) : Bool :=
  c.isAlphanum || c == '+' || c == '-' || c == '.' || c == ':' || c == '_'

/-- The text of a value without quotes or brackets. A date may be followed by a space and a time. -/
def splitAtom (cs : List Char) : List Char × List Char :=
  let atom := cs.takeWhile isAtomChar
  let rest := cs.dropWhile isAtomChar
  match date? atom, rest with
  | some (_, []), ' ' :: more =>
    if (more.head?.map isDigit).getD false then
      (atom ++ ' ' :: more.takeWhile isAtomChar, more.dropWhile isAtomChar)
    else (atom, rest)
  | _, _ => (atom, rest)

def atom? (cs : List Char) : Option Toml :=
  if cs = "true".toList then some (.boolean true)
  else if cs = "false".toList then some (.boolean false)
  else
    basedInteger? cs <|> integer? cs <|> nonFinite? cs <|> float? cs <|>
      (datetime? cs).map fun text => .datetime (String.ofList text)

end Toml

end CommentBlocks
