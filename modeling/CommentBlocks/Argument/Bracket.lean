import CommentBlocks.Text.Basic

/-!
Brackets outside of quotes: the kinds of brackets and quotes, balance, and the partner of an opening
bracket.

A quote character opens a quoted span that runs to the next such character; a backslash inside the
span takes the character after it along.
-/

namespace CommentBlocks

inductive BracketKind where
  | round
  | square
  | curly
deriving DecidableEq, Repr

namespace BracketKind

def opening : BracketKind → Char
  | round => '('
  | square => '['
  | curly => '\x7b'

def closing : BracketKind → Char
  | round => ')'
  | square => ']'
  | curly => '\x7d'

def ofOpening? (c : Char) : Option BracketKind :=
  if c = '(' then some round else if c = '[' then some square
  else if c = '\x7b' then some curly else none

def ofClosing? (c : Char) : Option BracketKind :=
  if c = ')' then some round else if c = ']' then some square
  else if c = '\x7d' then some curly else none

theorem ofOpening?_eq_some_iff {c : Char} {k : BracketKind} :
    ofOpening? c = some k ↔ c = k.opening := by
  constructor
  · intro h
    simp only [ofOpening?] at h
    split at h
    · cases h; assumption
    · split at h
      · cases h; assumption
      · split at h
        · cases h; assumption
        · simp at h
  · rintro rfl; cases k <;> decide

theorem ofClosing?_eq_some_iff {c : Char} {k : BracketKind} :
    ofClosing? c = some k ↔ c = k.closing := by
  constructor
  · intro h
    simp only [ofClosing?] at h
    split at h
    · cases h; assumption
    · split at h
      · cases h; assumption
      · split at h
        · cases h; assumption
        · simp at h
  · rintro rfl; cases k <;> decide

end BracketKind

/-- Where a reader stands with respect to quotes. -/
inductive QuoteState where
  | outside
  | inside (quote : Char)
  /-- Right after a backslash inside quotes. -/
  | escaped (quote : Char)
deriving DecidableEq, Repr

def QuoteState.within (quote c : Char) : QuoteState :=
  if c = '\\' then .escaped quote else if c = quote then .outside else .inside quote

namespace Bracket

open Text (isQuote)

/-- Every bracket outside of quotes closes the innermost open one of its kind; `stack` holds the
open ones. -/
def balancedFrom (stack : List BracketKind) : QuoteState → List Char → Bool
  | _, [] => stack.isEmpty
  | .escaped q, _ :: cs => balancedFrom stack (.inside q) cs
  | .inside q, c :: cs => balancedFrom stack (QuoteState.within q c) cs
  | .outside, c :: cs =>
    if isQuote c then balancedFrom stack (.inside c) cs
    else
      match BracketKind.ofOpening? c with
      | some k => balancedFrom (k :: stack) .outside cs
      | none =>
        match BracketKind.ofClosing? c with
        | none => balancedFrom stack .outside cs
        | some k =>
          match stack with
          | [] => false
          | top :: rest => if top = k then balancedFrom rest .outside cs else false

/-- Every bracket outside of quotes has its partner, in order and of its kind. -/
def balanced (cs : List Char) : Bool := balancedFrom [] .outside cs

/-- The place, counted in characters from `place`, of the closing bracket that brings the depth back
to zero. All kinds of brackets count alike. -/
def closeFrom? (place depth : Nat) : QuoteState → List Char → Option Nat
  | _, [] => none
  | .escaped q, _ :: cs => closeFrom? (place + 1) depth (.inside q) cs
  | .inside q, c :: cs => closeFrom? (place + 1) depth (QuoteState.within q c) cs
  | .outside, c :: cs =>
    if isQuote c then closeFrom? (place + 1) depth (.inside c) cs
    else if (BracketKind.ofOpening? c).isSome then closeFrom? (place + 1) (depth + 1) .outside cs
    else if (BracketKind.ofClosing? c).isSome then
      match depth with
      | 0 => none
      | 1 => some place
      | d + 2 => closeFrom? (place + 1) (d + 1) .outside cs
    else closeFrom? (place + 1) depth .outside cs

def close? (cs : List Char) : Option Nat := closeFrom? 0 0 .outside cs

end Bracket

end CommentBlocks
