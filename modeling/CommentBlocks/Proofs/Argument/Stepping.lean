import CommentBlocks.Argument.Token
import Mathlib.Data.List.Basic
import Mathlib.Tactic.Lemma
import Mathlib.Tactic.Tauto

/-!
The steps of the reader of tokens, and what they take in: text that is read in the same way when it
stands alone, since comments are gone from it and nothing in it starts one, but for a hash at its front.
-/

namespace CommentBlocks

namespace Token.Reader

open Unicode (isBlank)
open Text (isQuote bytes)

/-! ### One step and a whole run -/

lemma run_of_step {r r' : Reader} {c : Char} {cs : List Char} (hrest : r.rest = c :: cs)
    (h : r.step c cs = .ok r') : r.run = r'.run := by
  conv_lhs => rw [run]
  split
  · next hnil => simp [hrest] at hnil
  · next c' cs' hcons =>
    obtain ⟨rfl, rfl⟩ : c' = c ∧ cs' = cs := by simpa [hrest, eq_comm] using hcons
    split
    · next heq => simp [h] at heq
    · next heq => rw [h] at heq; cases heq; rfl

lemma run_of_error {r : Reader} {c : Char} {cs : List Char} {e : TokenFault}
    (hrest : r.rest = c :: cs) (h : r.step c cs = .error e) : r.run = .error e := by
  rw [run]
  split
  · next hnil => simp [hrest] at hnil
  · next c' cs' hcons =>
    obtain ⟨rfl, rfl⟩ : c' = c ∧ cs' = cs := by simpa [hrest, eq_comm] using hcons
    split
    · next heq => rw [h] at heq; cases heq; rfl
    · next heq => simp [h] at heq

lemma run_of_nil {r : Reader} (hrest : r.rest = []) (hstack : r.stack = []) :
    r.run = .ok r.finish.tokens.reverse := by
  rw [run]
  split
  · simp only [hstack]
  · next hcons => simp [hrest] at hcons

lemma run_of_open {r : Reader} (hrest : r.rest = []) (hstack : r.stack ≠ []) :
    ∃ fault, r.run = .error fault := by
  obtain ⟨top, below, hcons⟩ := List.exists_cons_of_ne_nil hstack
  rw [run]
  split
  · simp only [hcons]
    exact ⟨_, rfl⟩
  · next hcons => simp [hrest] at hcons

inductive Reaches : Reader → Reader → Prop
  | refl {r : Reader} : Reaches r r
  | step {r r₁ r' : Reader} {c : Char} {cs : List Char} (hrest : r.rest = c :: cs)
      (hstep : r.step c cs = .ok r₁) (h : Reaches r₁ r') : Reaches r r'

lemma Reaches.run_eq {r r' : Reader} (h : Reaches r r') : r.run = r'.run := by
  induction h with
  | refl => rfl
  | step hrest hstep _ ih => rw [run_of_step hrest hstep, ih]

lemma Reaches.keeps {P : Reader → Prop}
    (hkeeps : ∀ {r r' : Reader} {c : Char} {cs : List Char}, P r → r.rest = c :: cs →
      r.step c cs = .ok r' → P r') {r r' : Reader} (hr : P r) (h : Reaches r r') : P r' := by
  induction h with
  | refl => exact hr
  | step hrest hstep _ ih => exact ih (hkeeps hr hrest hstep)

lemma exists_reaches_of_run {r : Reader} {tokens : List Token} (hrun : r.run = .ok tokens) :
    ∃ last, Reaches r last ∧ last.rest = [] ∧ last.stack = [] ∧ tokens = last.finish.tokens.reverse := by
  induction r using Reader.run.induct with
  | case1 r hrest top below hstack =>
    obtain ⟨fault, hfault⟩ := run_of_open hrest (by simp [hstack])
    exact absurd (hfault.symm.trans hrun) (by simp)
  | case2 r hrest hstack =>
    exact ⟨r, .refl, hrest, hstack, Except.ok.inj (hrun.symm.trans (run_of_nil hrest hstack))⟩
  | case3 r c cs hrest e hfault =>
    exact absurd ((run_of_error hrest hfault).symm.trans hrun) (by simp)
  | case4 r c cs hrest r' hstep ih =>
    obtain ⟨last, hreaches, hend⟩ := ih ((run_of_step hrest hstep).symm.trans hrun)
    exact ⟨last, .step hrest hstep hreaches, hend⟩

/-- What every step keeps gives what holds of all tokens in the end. A text that ends after a backslash in
quotes leaves these open, so that nothing need be kept there. -/
lemma run_keeps {P : Reader → Prop} {Q : Token → Prop}
    (hstep : ∀ {r r' : Reader} {c : Char} {cs : List Char}, P r → r.rest = c :: cs →
      r.step c cs = .ok r' → P r' ∨ r'.rest = [] ∧ r'.stack ≠ [])
    (hfinish : ∀ {r : Reader}, P r → r.stack = [] → ∀ t ∈ r.finish.tokens, Q t) {r : Reader} (h : P r)
    {tokens : List Token} (hrun : r.run = .ok tokens) : ∀ t ∈ tokens, Q t := by
  obtain ⟨last, hreaches, -, hstack, rfl⟩ := exists_reaches_of_run hrun
  clear hrun
  have hlast : P last := by
    induction hreaches with
    | refl => exact h
    | step hrest hnext hreaches ih =>
      rcases hstep h hrest hnext with hkept | ⟨hnil, hopen⟩
      · exact ih hkept hstack
      · cases hreaches with
        | refl => exact absurd hstack hopen
        | step hcons => simp [hnil] at hcons
  simpa using hfinish hlast hstack

lemma finish_eq {r : Reader} (h : r.current ≠ []) :
    r.finish = { r with
      current := [], equals := none, tokens := ⟨r.current.reverse, r.equals⟩ :: r.tokens } := by
  simp [finish, h]

@[simp] lemma stack_finish (r : Reader) : r.finish.stack = r.stack := by
  simp only [finish]; split <;> rfl

@[simp] lemma lineBlank_finish (r : Reader) : r.finish.lineBlank = r.lineBlank := by
  simp only [finish]; split <;> rfl

lemma ne_lineFeed_of_not_isBlank {c : Char} (h : isBlank c = false) : c ≠ '\n' := by
  rintro rfl
  exact absurd h (by decide)

lemma lineBlank_eq_false {c : Char} (h : isBlank c = false) (lineBlank : Bool) :
    (c == '\n' || (isBlank c && lineBlank)) = false := by
  simp [h, ne_lineFeed_of_not_isBlank h]

/-- The innermost open frame is no quote. -/
def Outside (stack : List Frame) : Prop := ∀ mark, stack.head? ≠ some (.quote mark)

lemma outside_nil : Outside [] := by simp [Outside]

lemma outside_bracket {stack : List Frame} (k : BracketKind) (depth : Nat) :
    Outside (.bracket k depth :: stack) := by
  simp [Outside]

lemma not_outside_quote {stack : List Frame} {mark : Char} : ¬ Outside (.quote mark :: stack) :=
  fun hout => hout mark rfl

/-- Quotes open a string after the text at hand, which is given back to front. -/
def opensQuotes (current : List Char) : Bool :=
  (⟨[], [], current, none, false, []⟩ : Reader).atBoundary

/-- A comment can begin after the text at hand, which is given back to front. -/
def opensComment (current : List Char) : Bool :=
  (⟨[], [], current, none, false, []⟩ : Reader).atCommentBoundary

/-! ### What one step does -/

/-- `c` joins the token at hand, with the frames and the equals sign that are known then. -/
inductive Accepts (stack : List Frame) (current : List Char) (equals : Option Nat) (c : Char) :
    List Frame → Option Nat → Prop
  | openQuote (hquote : isQuote c = true) (hopens : opensQuotes current = true)
      (hdeep : stack.length < maxNesting) :
      Accepts stack current equals c (.quote c :: stack) equals
  | openBracket {k : BracketKind} (hopen : BracketKind.ofOpening? c = some k)
      (hdeep : stack.length < maxNesting) :
      Accepts stack current equals c (.bracket k (stack.length + 1) :: stack) equals
  | closeBracket {k : BracketKind} {top : Frame} {below : List Frame}
      (hclose : BracketKind.ofClosing? c = some k) (hstack : stack = top :: below)
      (htop : top.closedBy k = true) : Accepts stack current equals c below equals
  | equalsSign (hc : c = '=') (hstack : stack = []) (hequals : equals = none) :
      Accepts stack current equals c stack (some (bytes current))
  | put (hblank : isBlank c = false ∨ stack ≠ [])
      (hquote : isQuote c = false ∨ opensQuotes current = false)
      (hopen : BracketKind.ofOpening? c = none) (hclose : BracketKind.ofClosing? c = none)
      (hequals : c ≠ '=' ∨ stack ≠ [] ∨ equals ≠ none) : Accepts stack current equals c stack equals

variable {stack stack' : List Frame} {current : List Char} {equals equals' : Option Nat} {c : Char}

lemma plain_of_isQuote (h : isQuote c = true) :
    isBlank c = false ∧ c ≠ ',' ∧ c ≠ '/' ∧ c ≠ '=' ∧ BracketKind.ofOpening? c = none ∧
      BracketKind.ofClosing? c = none := by
  simp only [isQuote, Bool.or_eq_true, beq_iff_eq] at h
  rcases h with (rfl | rfl) | rfl <;> decide

lemma plain_of_opening {k : BracketKind} (h : BracketKind.ofOpening? c = some k) :
    isBlank c = false ∧ c ≠ ',' ∧ c ≠ '/' ∧ c ≠ '=' ∧ isQuote c = false := by
  rw [BracketKind.ofOpening?_eq_some_iff] at h
  subst h
  cases k <;> decide

lemma plain_of_closing {k : BracketKind} (h : BracketKind.ofClosing? c = some k) :
    isBlank c = false ∧ c ≠ ',' ∧ c ≠ '/' ∧ c ≠ '=' ∧ isQuote c = false ∧
      BracketKind.ofOpening? c = none := by
  rw [BracketKind.ofClosing?_eq_some_iff] at h
  subst h
  cases k <;> decide

lemma Accepts.stack_eq_of_slash (h : Accepts stack current equals c stack' equals') (hc : c = '/') :
    stack' = stack := by
  cases h with
  | openQuote hquote => exact absurd hc (plain_of_isQuote hquote).2.2.1
  | openBracket hopen => exact absurd hc (plain_of_opening hopen).2.2.1
  | closeBracket hclose => exact absurd hc (plain_of_closing hclose).2.2.1
  | equalsSign | put => rfl

lemma Accepts.isQuote_of_mem (h : Accepts stack current equals c stack' equals') {mark : Char}
    (hmark : .quote mark ∈ stack') : .quote mark ∈ stack ∨ isQuote mark = true := by
  cases h with
  | openQuote hquote =>
    rcases List.mem_cons.1 hmark with heq | hmem
    · cases heq
      exact .inr hquote
    · exact .inl hmem
  | openBracket => exact .inl (by simpa using hmark)
  | closeBracket _ hstack => exact .inl (hstack ▸ List.mem_cons_of_mem _ hmark)
  | equalsSign | put => exact .inl hmark

lemma Accepts.not_isBlank (h : Accepts stack current equals c stack' equals') (hstack : stack = []) :
    isBlank c = false := by
  cases h with
  | openQuote hquote => exact (plain_of_isQuote hquote).1
  | openBracket hopen => exact (plain_of_opening hopen).1
  | closeBracket hclose => exact (plain_of_closing hclose).1
  | equalsSign hc => subst hc; decide
  | put hblank => exact hblank.resolve_right (absurd hstack)

lemma Accepts.last (h : Accepts stack current equals c stack' equals') (hstack : stack' = []) :
    isBlank c = false ∧ (c = ',' → [c] = [','] ∧ stack = [] ∧ equals = equals') := by
  cases h with
  | openQuote | openBracket => simp at hstack
  | closeBracket hclose =>
    obtain ⟨hblank, hcomma, -⟩ := plain_of_closing hclose
    exact ⟨hblank, fun hc => absurd hc hcomma⟩
  | equalsSign hc =>
    exact ⟨by subst hc; decide, fun hcomma => absurd (hc.symm.trans hcomma) (by decide)⟩
  | put hblank =>
    exact ⟨hblank.resolve_right (absurd hstack), fun hc => ⟨by rw [hc], hstack, rfl⟩⟩

lemma Accepts.equals_eq (h : Accepts stack current equals c stack' equals') :
    equals' = equals ∨
      [c] = ['='] ∧ stack = [] ∧ equals = none ∧ equals' = some (bytes current) := by
  cases h with
  | openQuote | openBracket | closeBracket | put => exact .inl rfl
  | equalsSign hc hstack hequals => exact .inr ⟨by rw [hc], hstack, hequals, rfl⟩

/-- What joins the token does not depend on what stands behind it. -/
lemma Accepts.accept_eq (h : Accepts stack current equals c stack' equals') (rest : List Char)
    (lineBlank : Bool) (tokens : List Token) :
    (⟨rest, stack, current, equals, lineBlank, tokens⟩ : Reader).accept c =
      .ok ⟨rest, stack', c :: current, equals', lineBlank, tokens⟩ := by
  cases h with
  | openQuote hquote hopens hdeep =>
    have hboundary : (⟨rest, stack, current, equals, lineBlank, tokens⟩ : Reader).atBoundary = true :=
      hopens
    simp only [accept, (plain_of_isQuote hquote).1, hquote, hboundary, Bool.false_and, Bool.and_self,
      Bool.false_eq_true, if_false, if_true, openFrame, Nat.not_le.2 hdeep]
  | openBracket hopen hdeep =>
    obtain ⟨hblank, -, -, -, hquote⟩ := plain_of_opening hopen
    simp only [accept, hblank, hquote, hopen, Bool.false_and, Bool.false_eq_true, if_false, openFrame,
      Nat.not_le.2 hdeep]
  | closeBracket hclose hstack htop =>
    obtain ⟨hblank, -, -, -, hquote, hopen⟩ := plain_of_closing hclose
    subst hstack
    simp only [accept, hblank, hquote, hopen, hclose, Bool.false_and, Bool.false_eq_true, if_false,
      htop, if_true, Reader.put]
  | equalsSign hc hstack hequals =>
    subst hc hstack hequals
    rfl
  | put hblank hquote hopen hclose hequals =>
    have hblank' : (isBlank c && stack.isEmpty) = false := by
      rcases hblank with h | h
      · simp [h]
      · simp [h]
    have hquote' : (isQuote c && (⟨rest, stack, current, equals, lineBlank, tokens⟩ :
        Reader).atBoundary) = false := by
      rcases hquote with h | h
      · simp [h]
      · exact (congrArg (isQuote c && ·) h).trans (Bool.and_false _)
    have hequals' : (c == '=' && stack.isEmpty && equals.isNone) = false := by
      rcases hequals with h | h | h
      · simp [h]
      · simp [h]
      · simp [Option.isNone_eq_false_iff.2 (Option.isSome_iff_ne_none.2 h)]
    simp only [accept, hblank', hquote', hopen, hclose, hequals', Bool.false_eq_true, if_false,
      Reader.put]

lemma eq_of_openFrame {r r' : Reader} {frame : Frame} (h : r.openFrame c frame = .ok r') :
    r.stack.length < maxNesting ∧
      r' = { r with current := c :: r.current, stack := frame :: r.stack } := by
  simp only [openFrame] at h
  split at h
  · simp at h
  · next hdeep =>
    cases h
    exact ⟨Nat.lt_of_not_le hdeep, rfl⟩

lemma accept_cases {r r' : Reader} (h : r.accept c = .ok r') :
    (isBlank c = true ∧ r.stack = [] ∧ r' = r.finish) ∨
      ∃ stack' equals', Accepts r.stack r.current r.equals c stack' equals' ∧
        r' = { r with current := c :: r.current, stack := stack', equals := equals' } := by
  -- the kinds of characters in the order in which the reader asks for them
  simp only [accept] at h
  split at h
  · next hblank =>
    rw [Bool.and_eq_true, List.isEmpty_iff] at hblank
    cases h
    exact .inl ⟨hblank.1, hblank.2, rfl⟩
  · next hblank =>
    have hblank : isBlank c = false ∨ r.stack ≠ [] := by
      simpa [-not_and, not_and_or] using hblank
    refine .inr ?_
    split at h
    · next hquote =>
      rw [Bool.and_eq_true] at hquote
      obtain ⟨hdeep, rfl⟩ := eq_of_openFrame h
      exact ⟨_, _, .openQuote hquote.1 hquote.2 hdeep, rfl⟩
    · next hquote =>
      have hquote : isQuote c = false ∨ r.atBoundary = false := by
        simpa [-not_and, not_and_or] using hquote
      split at h
      · next k hopen =>
        obtain ⟨hdeep, rfl⟩ := eq_of_openFrame h
        exact ⟨_, _, .openBracket hopen hdeep, rfl⟩
      · next hopen =>
        split at h
        · next k hclose =>
          split at h
          · simp at h
          · next top below hstack =>
            split at h
            · next htop => cases h; exact ⟨_, _, .closeBracket hclose hstack htop, rfl⟩
            · simp at h
        · next hclose =>
          split at h
          · next hequals =>
            simp only [Bool.and_eq_true, beq_iff_eq, List.isEmpty_iff, Option.isNone_iff_eq_none]
              at hequals
            cases h
            exact ⟨_, _, .equalsSign hequals.1.1 hequals.1.2 hequals.2, rfl⟩
          · next hequals =>
            have hequals : c ≠ '=' ∨ r.stack ≠ [] ∨ r.equals ≠ none := by
              simp only [Bool.and_eq_true, beq_iff_eq, List.isEmpty_iff, Option.isNone_iff_eq_none]
                at hequals
              tauto
            cases h
            exact ⟨_, _, .put hblank hquote hopen hclose hequals, rfl⟩

inductive Moves (r : Reader) (c : Char) (cs : List Char) : Reader → Prop
  | quoted {mark : Char} {below : List Frame} (hstack : r.stack = .quote mark :: below)
      (hc : c ≠ '\\') :
      Moves r c cs
        { r with rest := cs, current := c :: r.current
                 stack := if c = mark then below else r.stack }
  | escaped {mark d : Char} {below : List Frame} {ds : List Char}
      (hstack : r.stack = .quote mark :: below) (hc : c = '\\') (hcs : cs = d :: ds) :
      Moves r c cs { r with rest := ds, current := d :: c :: r.current }
  | cutShort {mark : Char} {below : List Frame} (hstack : r.stack = .quote mark :: below)
      (hc : c = '\\') (hcs : cs = []) :
      Moves r c cs { r with rest := [], current := c :: r.current }
  | comment {cs' : List Char} (hstack : Outside r.stack) (hskip : r.skipComment? c cs = some cs') :
      Moves r c cs { r with rest := cs' }
  | blank (hstack : r.stack = []) (hblank : isBlank c = true) :
      Moves r c cs (r.advance c cs).finish
  | joins {stack' : List Frame} {equals' : Option Nat} (hstack : Outside r.stack)
      (hskip : r.skipComment? c cs = none)
      (haccepts : Accepts r.stack r.current r.equals c stack' equals') :
      Moves r c cs
        { r.advance c cs with current := c :: r.current, stack := stack', equals := equals' }

lemma moves_of_step {r r' : Reader} {cs : List Char} (h : r.step c cs = .ok r') :
    Moves r c cs r' := by
  simp only [step] at h
  split at h
  · next mark hhead =>
    obtain ⟨below, hstack⟩ : ∃ below, r.stack = .quote mark :: below := by
      cases hs : r.stack with
      | nil => simp [hs] at hhead
      | cons top below => simp [hs] at hhead; exact ⟨below, by rw [hhead]⟩
    cases h
    simp only [stepQuoted]
    split
    · next hc =>
      cases cs with
      | nil => exact .cutShort hstack hc rfl
      | cons d ds => exact .escaped hstack hc rfl
    · next hc =>
      have hpop : (if c = mark then r.stack.tail else r.stack) =
          if c = mark then below else r.stack := by rw [hstack, List.tail_cons]
      rw [hpop]
      exact .quoted hstack hc
  · next hhead =>
    have hout : Outside r.stack := fun mark hmark => hhead mark hmark
    split at h
    · next cs' hskip => cases h; exact .comment hout hskip
    · next hskip =>
      rcases accept_cases h with ⟨hblank, hstack, rfl⟩ | ⟨stack', equals', haccepts, rfl⟩
      · exact .blank hstack hblank
      · exact .joins hout hskip haccepts

/-! ### What a step leaves to read -/

lemma afterComment_suffix (cs : List Char) : afterComment cs <:+ cs := by
  fun_induction afterComment cs with
  | case1 => exact List.suffix_refl _
  | case2 cs => exact ⟨['*', '/'], rfl⟩
  | case3 c cs _ ih => exact ih.trans (List.suffix_cons c cs)

lemma skipComment?_suffix {r : Reader} {cs cs' : List Char} (h : r.skipComment? c cs = some cs') :
    cs' <:+ cs := by
  simp only [skipComment?] at h
  split at h
  · cases h
    exact List.dropWhile_suffix _
  · split at h
    · split at h
      · cases h
        exact (List.dropWhile_suffix _).trans (List.suffix_cons _ _)
      · cases h
        exact (afterComment_suffix _).trans (List.suffix_cons _ _)
      · simp at h
    · simp at h

lemma rest_suffix_of_step {r r' : Reader} {cs : List Char} (h : r.step c cs = .ok r') : r'.rest <:+ cs := by
  cases moves_of_step h with
  | quoted | joins => exact List.suffix_rfl
  | escaped _ _ hcs => exact hcs ▸ List.suffix_cons _ _
  | cutShort => exact List.nil_suffix
  | comment _ hskip => exact skipComment?_suffix hskip
  | blank => exact (rest_finish _).symm ▸ List.suffix_rfl

/-! ### Reading again -/

/-- A slash at the end of the token would begin a comment if one more slash or a star followed. -/
def EndsInSlash (stack : List Frame) (current : List Char) : Prop :=
  Outside stack ∧ ∃ below, current = '/' :: below ∧ opensComment below = true

/-- The text goes on so that no comment begins at the end of the token. -/
def Follows (stack : List Frame) (current rest : List Char) : Prop :=
  EndsInSlash stack current → rest.head? ≠ some '/' ∧ rest.head? ≠ some '*'

lemma follows_of_ne {rest : List Char} (hc : c ≠ '/') : Follows stack (c :: current) rest := by
  rintro ⟨-, below, hcons, -⟩
  exact absurd (List.cons.inj hcons).1 hc

lemma step_eq_accept {r : Reader} {cs : List Char} (hstack : Outside r.stack)
    (hskip : r.skipComment? c cs = none) : r.step c cs = (r.advance c cs).accept c := by
  simp only [step]
  split
  · next mark hmark => exact absurd hmark (hstack mark)
  · rw [hskip]

lemma skipComment?_eq_none_iff {r : Reader} {cs : List Char} :
    r.skipComment? c cs = none ↔ (r.lineBlank = false ∨ c ≠ '#') ∧
      (c = '/' → opensComment r.current = true → cs.head? ≠ some '/' ∧ cs.head? ≠ some '*') := by
  have hopens : opensComment r.current = r.atCommentBoundary := rfl
  simp only [skipComment?, hopens]
  split
  · next hhash =>
    rw [Bool.and_eq_true, beq_iff_eq] at hhash
    simp [hhash.1, hhash.2]
  · next hhash =>
    have hline : r.lineBlank = false ∨ c ≠ '#' := by
      rw [Bool.and_eq_true, beq_iff_eq, not_and_or] at hhash
      simpa [or_comm] using hhash
    split
    · next hslash =>
      rw [Bool.and_eq_true, beq_iff_eq] at hslash
      split
      · simp [hslash.1, hslash.2]
      · simp [hslash.1, hslash.2]
      · next hne hne' =>
        refine iff_of_true rfl ⟨hline, fun _ _ => ?_⟩
        constructor
        · rintro hhead
          obtain ⟨tail, rfl⟩ := List.head?_eq_some_iff.1 hhead
          exact hne tail rfl
        · rintro hhead
          obtain ⟨tail, rfl⟩ := List.head?_eq_some_iff.1 hhead
          exact hne' tail rfl
    · next hslash =>
      rw [Bool.and_eq_true, beq_iff_eq] at hslash
      exact iff_of_true rfl ⟨hline, fun hc hopen => absurd ⟨hc, hopen⟩ hslash⟩

/-- What joins a token joins it again, where no comment begins. -/
lemma run_joins (hstack : Outside stack) (haccepts : Accepts stack current equals c stack' equals')
    {lineBlank : Bool} (hhash : lineBlank = false ∨ c ≠ '#') {rest : List Char}
    (hrest : Follows stack' (c :: current) rest) (tokens : List Token) :
    (⟨c :: rest, stack, current, equals, lineBlank, tokens⟩ : Reader).run =
      (⟨rest, stack', c :: current, equals', c == '\n' || (isBlank c && lineBlank), tokens⟩ :
        Reader).run := by
  have hskip : (⟨c :: rest, stack, current, equals, lineBlank, tokens⟩ : Reader).skipComment? c
      rest = none := by
    refine skipComment?_eq_none_iff.2 ⟨hhash, fun hc hopens => ?_⟩
    refine hrest ⟨?_, current, by rw [hc], hopens⟩
    rwa [haccepts.stack_eq_of_slash hc]
  refine run_of_step rfl ?_
  rw [step_eq_accept hstack hskip]
  exact haccepts.accept_eq rest _ tokens

/-- The token at hand is read as it is from its start on, and leaves the reader in the same state. -/
def Replays (r : Reader) : Prop :=
  ∀ ⦃lineBlank : Bool⦄ ⦃rest : List Char⦄ ⦃tokens : List Token⦄,
    (lineBlank = false ∨ r.current.getLast? ≠ some '#') → Follows r.stack r.current rest →
    (⟨r.current.reverse ++ rest, [], [], none, lineBlank, tokens⟩ : Reader).run =
      (⟨rest, r.stack, r.current, r.equals, r.lineBlank, tokens⟩ : Reader).run

lemma Replays.trans {r r' : Reader} (h : Replays r) (text : List Char) (hne : r.current ≠ [])
    (hfollows : ∀ rest, Follows r.stack r.current (text ++ rest))
    (hcurrent : r'.current = text.reverse ++ r.current)
    (hrun : ∀ (rest : List Char) (tokens : List Token), Follows r'.stack r'.current rest →
      (⟨text ++ rest, r.stack, r.current, r.equals, r.lineBlank, tokens⟩ : Reader).run =
        (⟨rest, r'.stack, r'.current, r'.equals, r'.lineBlank, tokens⟩ : Reader).run) :
    Replays r' := by
  intro lineBlank rest tokens hhash hrest
  have hlast : r'.current.getLast? = r.current.getLast? := by
    rw [hcurrent, List.getLast?_append_of_ne_nil _ hne]
  have htext : r'.current.reverse ++ rest = r.current.reverse ++ (text ++ rest) := by
    simp [hcurrent]
  rw [htext, h (hlast ▸ hhash) (hfollows rest), hrun rest tokens hrest]

end Token.Reader

end CommentBlocks
