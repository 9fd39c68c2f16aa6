import CommentBlocks.Argument.Bracket

/-!
Cutting argument text into tokens at white space outside of quotes and brackets, and leaving out
comments.

The reader is a state with one step per character or comment. The token at hand is kept back to
front, so that the character read last comes first.
-/

namespace CommentBlocks

/-- A quote or bracket that is still open. -/
inductive Frame where
  | quote (mark : Char)
  /-- A bracket with its level, the outermost being one. -/
  | bracket (kind : BracketKind) (depth : Nat)
deriving DecidableEq, Repr

namespace Frame

def describe : Frame → String
  | quote mark =>
    if mark = '"' then "double quoted string"
    else if mark = '\'' then "single quoted string"
    else "backtick string"
  | bracket .curly depth => "\x60\x7b\x60 block (depth " ++ toString depth ++ ")"
  | bracket .square depth => "\x60[\x60 list (depth " ++ toString depth ++ ")"
  | bracket .round depth => "\x60(\x60 group (depth " ++ toString depth ++ ")"

def closedBy (k : BracketKind) : Frame → Bool
  | quote _ => false
  | bracket kind _ => kind == k

end Frame

inductive TokenFault where
  | tooDeep
  | unexpected (bracket : Char) (inside : Option Frame)
  | unterminated (frame : Frame)
deriving DecidableEq, Repr

/-- The most quotes and brackets that may be open at once. -/
def maxNesting : Nat := 64

def TokenFault.message : TokenFault → String
  | tooDeep => "values nested deeper than " ++ toString maxNesting ++ " levels"
  | unexpected bracket inside =>
    "unexpected \x60" ++ String.ofList [bracket] ++ "\x60 in " ++
      (inside.map Frame.describe).getD "argument"
  | unterminated frame => "unterminated " ++ frame.describe

/-- A piece of argument text with the byte offset of the first equals sign outside of quotes and
brackets. -/
structure Token where
  text : List Char
  equals : Option Nat
deriving DecidableEq, Repr

namespace Token

open Unicode (isBlank)
open Text (isQuote bytes)

structure Reader where
  rest : List Char
  /-- The open quotes and brackets, the innermost first. -/
  stack : List Frame
  /-- The token at hand, back to front. -/
  current : List Char
  equals : Option Nat
  /-- Only white space has been read on this line. -/
  lineBlank : Bool
  /-- The finished tokens, the last one first. -/
  tokens : List Token

namespace Reader

def start (text : List Char) : Reader := ⟨text, [], [], none, true, []⟩

/-- Quotes open a string at the start of a value and after a delimiter. -/
def atBoundary (r : Reader) : Bool :=
  match r.current with
  | [] => true
  | c :: _ => isBlank c || c == '=' || c == ':' || c == '\x7b' || c == '[' || c == '(' || c == ','

/-- Comments open after white space only, so that the slashes of an address stay. -/
def atCommentBoundary (r : Reader) : Bool :=
  match r.current with
  | [] => true
  | c :: _ => isBlank c

def finish (r : Reader) : Reader :=
  if r.current.isEmpty then r
  else { r with
    current := [], equals := none
    tokens := ⟨r.current.reverse, r.equals⟩ :: r.tokens }

def afterLine (cs : List Char) : List Char := cs.dropWhile (· != '\n')

/-- What follows the end of a comment between marks, or nothing. -/
def afterComment : List Char → List Char
  | [] => []
  | '*' :: '/' :: cs => cs
  | _ :: cs => afterComment cs

theorem length_afterLine_le (cs : List Char) : (afterLine cs).length ≤ cs.length :=
  (List.dropWhile_suffix _).length_le

theorem length_afterComment_le (cs : List Char) : (afterComment cs).length ≤ cs.length := by
  fun_induction afterComment cs <;> simp_all <;> omega

/-- What follows the comment at the start of `c :: cs`, where one can stand. -/
def skipComment? (r : Reader) (c : Char) (cs : List Char) : Option (List Char) :=
  if c == '#' && r.lineBlank then some (afterLine cs)
  else if c == '/' && r.atCommentBoundary then
    match cs with
    | '/' :: cs => some (afterLine cs)
    | '*' :: cs => some (afterComment cs)
    | _ => none
  else none

theorem length_skipComment? {r : Reader} {c : Char} {cs cs' : List Char}
    (h : r.skipComment? c cs = some cs') : cs'.length ≤ cs.length := by
  simp only [skipComment?] at h
  split at h
  · cases h; exact length_afterLine_le cs
  · split at h
    · split at h
      · next cs => cases h; have := length_afterLine_le cs; simp; omega
      · next cs => cases h; have := length_afterComment_le cs; simp; omega
      · simp at h
    · simp at h

def openFrame (r : Reader) (c : Char) (frame : Frame) : Except TokenFault Reader :=
  if maxNesting ≤ r.stack.length then .error .tooDeep
  else .ok { r with current := c :: r.current, stack := frame :: r.stack }

/-- Read `c` inside quotes; a backslash takes the next character along. -/
def stepQuoted (r : Reader) (mark c : Char) (cs : List Char) : Reader :=
  if c = '\\' then
    match cs with
    | [] => { r with rest := [], current := c :: r.current }
    | d :: cs => { r with rest := cs, current := d :: c :: r.current }
  else
    { r with
      rest := cs, current := c :: r.current
      stack := if c = mark then r.stack.tail else r.stack }

def advance (r : Reader) (c : Char) (cs : List Char) : Reader :=
  { r with rest := cs, lineBlank := c == '\n' || (isBlank c && r.lineBlank) }

def put (r : Reader) (c : Char) : Reader := { r with current := c :: r.current }

/-- Take `c` in, outside of quotes and comments. -/
def accept (r : Reader) (c : Char) : Except TokenFault Reader :=
  if isBlank c && r.stack.isEmpty then .ok r.finish
  else if isQuote c && r.atBoundary then r.openFrame c (.quote c)
  else
    match BracketKind.ofOpening? c with
    | some kind => r.openFrame c (.bracket kind (r.stack.length + 1))
    | none =>
      match BracketKind.ofClosing? c with
      | some kind =>
        match r.stack with
        | [] => .error (.unexpected c none)
        | top :: below =>
          if top.closedBy kind then .ok { r.put c with stack := below }
          else .error (.unexpected c (some top))
      | none =>
        if c == '=' && r.stack.isEmpty && r.equals.isNone then
          .ok { r.put c with equals := some (bytes r.current) }
        else .ok (r.put c)

/-- Read one character or comment from the text `c :: cs`. -/
def step (r : Reader) (c : Char) (cs : List Char) : Except TokenFault Reader :=
  match r.stack.head? with
  | some (.quote mark) => .ok (r.stepQuoted mark c cs)
  | _ =>
    match r.skipComment? c cs with
    | some cs => .ok { r with rest := cs }
    | none => (r.advance c cs).accept c

@[simp] theorem rest_finish (r : Reader) : r.finish.rest = r.rest := by
  simp only [finish]; split <;> rfl

theorem rest_openFrame {r r' : Reader} {c : Char} {f : Frame} (h : r.openFrame c f = .ok r') :
    r'.rest = r.rest := by
  simp only [openFrame] at h
  split at h
  · simp at h
  · cases h; rfl

theorem length_stepQuoted (r : Reader) (mark c : Char) (cs : List Char) :
    (r.stepQuoted mark c cs).rest.length ≤ cs.length := by
  simp only [stepQuoted]
  split
  · split <;> simp
  · simp

theorem rest_accept {r r' : Reader} {c : Char} (h : r.accept c = .ok r') : r'.rest = r.rest := by
  simp only [accept] at h
  split at h
  · cases h; simp
  · split at h
    · exact rest_openFrame h
    · split at h
      · exact rest_openFrame h
      · split at h
        · split at h
          · simp at h
          · split at h
            · cases h; rfl
            · simp at h
        · split at h <;> cases h <;> rfl

/-- Every step reads at least one character. -/
theorem length_step {r r' : Reader} {c : Char} {cs : List Char} (h : r.step c cs = .ok r') :
    r'.rest.length ≤ cs.length := by
  simp only [step] at h
  split at h
  · cases h; exact length_stepQuoted ..
  · split at h
    · next hs => cases h; exact length_skipComment? hs
    · exact Nat.le_of_eq (congrArg List.length (rest_accept h))

def run (r : Reader) : Except TokenFault (List Token) :=
  match _ : r.rest with
  | [] =>
    match r.stack with
    | frame :: _ => .error (.unterminated frame)
    | [] => .ok r.finish.tokens.reverse
  | c :: cs =>
    match _ : r.step c cs with
    | .error e => .error e
    | .ok r' => run r'
termination_by r.rest.length
decreasing_by
  have h := length_step (by assumption)
  have hr := congrArg List.length (by assumption : r.rest = c :: cs)
  simp at hr
  omega

end Reader

def ofText (text : List Char) : Except TokenFault (List Token) := (Reader.start text).run

end Token

end CommentBlocks
