import CommentBlocks.Proofs.Argument.Braces

/-!
Balance along a text: where a reader of brackets stands behind a part of it. The reader that checks the
kinds of brackets and the one that only counts how many are open go over the part in step.
-/

namespace CommentBlocks

open Text (isQuote)

def QuoteState.next : QuoteState → Char → QuoteState
  | .outside, c => if isQuote c then .inside c else .outside
  | .inside quote, c => .within quote c
  | .escaped quote, _ => .inside quote

namespace Bracket

def quoteAfter (q : QuoteState) (text : List Char) : QuoteState := text.foldl QuoteState.next q

/-- The open brackets behind one character, the innermost first; nothing if it closes another kind than
that of the innermost one, or none is open. -/
def openNext? (stack : List BracketKind) (q : QuoteState) (c : Char) : Option (List BracketKind) :=
  if q ≠ .outside then some stack
  else
    match BracketKind.ofOpening? c with
    | some k => some (k :: stack)
    | none =>
      match BracketKind.ofClosing? c with
      | none => some stack
      | some k =>
        match stack with
        | [] => none
        | top :: rest => if top = k then some rest else none

def openAfter? : List BracketKind → QuoteState → List Char → Option (List BracketKind)
  | stack, _, [] => some stack
  | stack, q, c :: cs => (openNext? stack q c).bind fun stack => openAfter? stack (q.next c) cs

/-- How many brackets are open behind one character, whatever their kinds; nothing if it closes one and none
is open. -/
def depthNext? (depth : Nat) (q : QuoteState) (c : Char) : Option Nat :=
  if q ≠ .outside then some depth
  else if (BracketKind.ofOpening? c).isSome then some (depth + 1)
  else if (BracketKind.ofClosing? c).isNone then some depth
  else if depth = 0 then none
  else some (depth - 1)

def depthAfter? : Nat → QuoteState → List Char → Option Nat
  | depth, _, [] => some depth
  | depth, q, c :: cs => (depthNext? depth q c).bind fun depth => depthAfter? depth (q.next c) cs

/-- All brackets and quotes of the text are in pairs, if one kind of brackets is as good as another. -/
def Level (text : List Char) : Prop :=
  depthAfter? 0 .outside text = some 0 ∧ quoteAfter .outside text = .outside

variable {stack stack' : List BracketKind} {depth depth' : Nat} {q : QuoteState} {c : Char}
  {text : List Char}

@[simp] lemma quoteAfter_nil (q : QuoteState) : quoteAfter q [] = q := rfl

@[simp] lemma quoteAfter_cons (q : QuoteState) (c : Char) (cs : List Char) :
    quoteAfter q (c :: cs) = quoteAfter (q.next c) cs := rfl

@[simp] lemma openAfter?_nil (stack : List BracketKind) (q : QuoteState) :
    openAfter? stack q [] = some stack := rfl

lemma openAfter?_cons_eq_some_iff {cs : List Char} :
    openAfter? stack q (c :: cs) = some stack' ↔
      ∃ stack₁, openNext? stack q c = some stack₁ ∧ openAfter? stack₁ (q.next c) cs = some stack' :=
  Option.bind_eq_some_iff

lemma openNext?_within (h : q ≠ .outside) (c : Char) : openNext? stack q c = some stack := if_pos h

lemma openNext?_of_isQuote (h : isQuote c = true) : openNext? stack .outside c = some stack := by
  simp only [isQuote, Bool.or_eq_true, beq_iff_eq] at h
  rcases h with (rfl | rfl) | rfl <;> rfl

lemma openNext?_opening {k : BracketKind} (h : BracketKind.ofOpening? c = some k) :
    openNext? stack .outside c = some (k :: stack) := by
  simp [openNext?, h]

lemma openNext?_closing {k : BracketKind} (hopen : BracketKind.ofOpening? c = none)
    (h : BracketKind.ofClosing? c = some k) : openNext? (k :: stack) .outside c = some stack := by
  simp [openNext?, hopen, h]

lemma openNext?_plain (hopen : BracketKind.ofOpening? c = none)
    (hclose : BracketKind.ofClosing? c = none) : openNext? stack .outside c = some stack := by
  simp [openNext?, hopen, hclose]

lemma openNext?_cases (h : openNext? stack .outside c = some stack') :
    (stack' = stack ∧ (isQuote c = true ∨
      isQuote c = false ∧ BracketKind.ofOpening? c = none ∧ BracketKind.ofClosing? c = none)) ∨
    (∃ k, BracketKind.ofOpening? c = some k ∧ isQuote c = false ∧ stack' = k :: stack) ∨
    ∃ k, BracketKind.ofClosing? c = some k ∧ isQuote c = false ∧ BracketKind.ofOpening? c = none ∧
      stack = k :: stack' := by
  by_cases hquote : isQuote c = true
  · rw [openNext?_of_isQuote hquote] at h
    exact .inl ⟨(Option.some.inj h).symm, .inl hquote⟩
  rw [Bool.not_eq_true] at hquote
  simp only [openNext?, ne_eq, not_true_eq_false, if_false] at h
  cases hopen : BracketKind.ofOpening? c with
  | some k =>
    rw [hopen] at h
    exact .inr (.inl ⟨k, rfl, hquote, (Option.some.inj h).symm⟩)
  | none =>
    cases hclose : BracketKind.ofClosing? c with
    | none =>
      rw [hopen, hclose] at h
      exact .inl ⟨(Option.some.inj h).symm, .inr ⟨hquote, rfl, rfl⟩⟩
    | some k =>
      rw [hopen, hclose] at h
      cases stack with
      | nil => simp at h
      | cons top rest =>
        by_cases htop : top = k
        · simp only [htop, if_true, Option.some.injEq] at h
          exact .inr (.inr ⟨k, rfl, hquote, rfl, by rw [htop, h]⟩)
        · simp [htop] at h

/-! ### The two readers, one character at a time -/

lemma balancedFrom_cons (stack : List BracketKind) (q : QuoteState) (c : Char) (cs : List Char) :
    balancedFrom stack q (c :: cs) =
      (openNext? stack q c).elim false fun stack' => balancedFrom stack' (q.next c) cs := by
  cases q with
  | inside | escaped =>
    rw [openNext?_within (by simp), Option.elim_some]
    simp only [balancedFrom, QuoteState.next]
  | outside =>
    by_cases hquote : isQuote c = true
    · rw [openNext?_of_isQuote hquote, Option.elim_some]
      simp only [balancedFrom, QuoteState.next, hquote, if_true]
    simp only [balancedFrom, openNext?, QuoteState.next, hquote, ne_eq, not_true_eq_false,
      Bool.false_eq_true, if_false]
    cases BracketKind.ofOpening? c with
    | some k => rfl
    | none =>
      cases BracketKind.ofClosing? c with
      | none => rfl
      | some k =>
        cases stack with
        | nil => rfl
        | cons top rest => by_cases htop : top = k <;> simp [htop]

lemma depthAfter?_cons_eq_some_iff {cs : List Char} :
    depthAfter? depth q (c :: cs) = some depth' ↔
      ∃ depth₁, depthNext? depth q c = some depth₁ ∧ depthAfter? depth₁ (q.next c) cs = some depth' :=
  Option.bind_eq_some_iff

lemma depthNext?_of_isQuote (h : isQuote c = true) : depthNext? depth .outside c = some depth := by
  simp only [isQuote, Bool.or_eq_true, beq_iff_eq] at h
  rcases h with (rfl | rfl) | rfl <;> rfl

lemma depthNext?_eq_none_iff : depthNext? depth q c = none ↔
    q = .outside ∧ BracketKind.ofOpening? c = none ∧ (∃ k, BracketKind.ofClosing? c = some k) ∧
      depth = 0 := by
  by_cases hq : q = .outside
  · cases hopen : BracketKind.ofOpening? c with
    | some k => simp [depthNext?, hq, hopen]
    | none => cases hclose : BracketKind.ofClosing? c <;> simp [depthNext?, hq, hopen, hclose]
  · simp [depthNext?, hq]

lemma depthNext?_of_openNext? (h : openNext? stack q c = some stack') :
    depthNext? stack.length q c = some stack'.length := by
  by_cases hq : q = .outside
  · subst hq
    rcases openNext?_cases h with ⟨rfl, hquote | ⟨-, hopen, hclose⟩⟩ | ⟨k, hopen, -, rfl⟩ |
      ⟨k, hclose, -, hopen, rfl⟩
    · exact depthNext?_of_isQuote hquote
    · simp [depthNext?, hopen, hclose]
    · simp [depthNext?, hopen]
    · simp [depthNext?, hopen, hclose]
  · rw [openNext?_within hq] at h
    cases h
    exact if_pos hq

/-- More open brackets do not matter where one that is closed is among those of the text. -/
lemma depthNext?_add (h : depthNext? depth q c = some depth') (below : Nat) :
    depthNext? (depth + below) q c = some (depth' + below) := by
  by_cases hq : q = .outside
  · cases hopen : BracketKind.ofOpening? c with
    | some k =>
      obtain rfl : depth + 1 = depth' := by simpa [depthNext?, hq, hopen] using h
      simp [depthNext?, hq, hopen, Nat.add_right_comm]
    | none =>
      cases hclose : BracketKind.ofClosing? c with
      | none =>
        obtain rfl : depth = depth' := by simpa [depthNext?, hq, hopen, hclose] using h
        simp [depthNext?, hq, hopen, hclose]
      | some k =>
        obtain ⟨hpos, rfl⟩ : depth ≠ 0 ∧ depth - 1 = depth' := by
          simpa [depthNext?, hq, hopen, hclose] using h
        simp [depthNext?, hq, hopen, hclose]
        omega
  · obtain rfl : depth = depth' := by simpa [depthNext?, hq] using h
    simp [depthNext?, hq]

/-- The reader of the partner counts the brackets, one more than those of the text. -/
lemma closeFrom?_cons (h : depthNext? depth q c = some depth') (place : Nat) (cs : List Char) :
    closeFrom? place (depth + 1) q (c :: cs) = closeFrom? (place + 1) (depth' + 1) (q.next c) cs := by
  cases q with
  | inside | escaped =>
    obtain rfl : depth = depth' := by simpa [depthNext?] using h
    simp only [closeFrom?, QuoteState.next]
  | outside =>
    by_cases hquote : isQuote c = true
    · rw [depthNext?_of_isQuote hquote, Option.some.injEq] at h
      simp only [closeFrom?, QuoteState.next, hquote, if_true, h]
    simp only [depthNext?, ne_eq, not_true_eq_false, if_false] at h
    simp only [closeFrom?, QuoteState.next, hquote, Bool.false_eq_true, if_false]
    cases hopen : BracketKind.ofOpening? c with
    | some k =>
      obtain rfl : depth + 1 = depth' := by simpa [hopen] using h
      rfl
    | none =>
      cases hclose : BracketKind.ofClosing? c with
      | some k => cases depth <;> simp_all
      | none =>
        obtain rfl : depth = depth' := by simpa [hopen, hclose] using h
        rfl

/-! ### The two readers along a text -/

lemma quoteAfter_append (q : QuoteState) (a b : List Char) :
    quoteAfter q (a ++ b) = quoteAfter (quoteAfter q a) b := List.foldl_append

lemma openAfter?_append (h : openAfter? stack q text = some stack') (rest : List Char) :
    openAfter? stack q (text ++ rest) = openAfter? stack' (quoteAfter q text) rest := by
  induction text generalizing stack q with
  | nil => cases h; rfl
  | cons c text ih =>
    obtain ⟨stack₁, hnext, htext⟩ := openAfter?_cons_eq_some_iff.1 h
    rw [List.cons_append, openAfter?, hnext, Option.bind_some, ih htext, quoteAfter_cons]

lemma exists_openAfter?_of_append {rest : List Char} (h : openAfter? stack q (text ++ rest) = some stack') :
    ∃ stack₁, openAfter? stack q text = some stack₁ := by
  induction text generalizing stack q with
  | nil => exact ⟨stack, rfl⟩
  | cons c text ih =>
    obtain ⟨stack₁, hnext, htext⟩ := openAfter?_cons_eq_some_iff.1 h
    obtain ⟨stack₂, hstack⟩ := ih htext
    exact ⟨stack₂, openAfter?_cons_eq_some_iff.2 ⟨stack₁, hnext, hstack⟩⟩

lemma balancedFrom_append (h : openAfter? stack q text = some stack') (rest : List Char) :
    balancedFrom stack q (text ++ rest) = balancedFrom stack' (quoteAfter q text) rest := by
  induction text generalizing stack q with
  | nil => cases h; rfl
  | cons c text ih =>
    obtain ⟨stack₁, hnext, htext⟩ := openAfter?_cons_eq_some_iff.1 h
    rw [List.cons_append, balancedFrom_cons, hnext, Option.elim_some, ih htext, quoteAfter_cons]

lemma balancedFrom_eq_true_iff : balancedFrom stack q text = true ↔ openAfter? stack q text = some [] := by
  induction text generalizing stack q with
  | nil => simp [balancedFrom]
  | cons c text ih =>
    rw [balancedFrom_cons, openAfter?]
    cases openNext? stack q c with
    | none => simp
    | some stack₁ => rw [Option.elim_some, Option.bind_some, ih]

lemma depthAfter?_append (h : depthAfter? depth q text = some depth') (rest : List Char) :
    depthAfter? depth q (text ++ rest) = depthAfter? depth' (quoteAfter q text) rest := by
  induction text generalizing depth q with
  | nil => cases h; rfl
  | cons c text ih =>
    obtain ⟨depth₁, hnext, htext⟩ := depthAfter?_cons_eq_some_iff.1 h
    rw [List.cons_append, depthAfter?, hnext, Option.bind_some, ih htext, quoteAfter_cons]

lemma closeFrom?_append (h : depthAfter? depth q text = some depth') (place : Nat) (rest : List Char) :
    closeFrom? place (depth + 1) q (text ++ rest) =
      closeFrom? (place + text.length) (depth' + 1) (quoteAfter q text) rest := by
  induction text generalizing depth q place with
  | nil => cases h; rfl
  | cons c text ih =>
    obtain ⟨depth₁, hnext, htext⟩ := depthAfter?_cons_eq_some_iff.1 h
    rw [List.cons_append, closeFrom?_cons hnext, ih htext, quoteAfter_cons, List.length_cons]
    congr 1
    omega

lemma depthAfter?_of_openAfter? (h : openAfter? stack q text = some stack') :
    depthAfter? stack.length q text = some stack'.length := by
  induction text generalizing stack q with
  | nil => cases h; rfl
  | cons c text ih =>
    obtain ⟨stack₁, hnext, htext⟩ := openAfter?_cons_eq_some_iff.1 h
    exact depthAfter?_cons_eq_some_iff.2 ⟨_, depthNext?_of_openNext? hnext, ih htext⟩

lemma depthAfter?_add (h : depthAfter? depth q text = some depth') (below : Nat) :
    depthAfter? (depth + below) q text = some (depth' + below) := by
  induction text generalizing depth q with
  | nil => cases h; rfl
  | cons c text ih =>
    obtain ⟨depth₁, hnext, htext⟩ := depthAfter?_cons_eq_some_iff.1 h
    exact depthAfter?_cons_eq_some_iff.2 ⟨_, depthNext?_add hnext below, ih htext⟩

lemma Level.closeFrom? (h : Level text) (place depth : Nat) (rest : List Char) :
    closeFrom? place (depth + 1) .outside (text ++ rest) =
      Bracket.closeFrom? (place + text.length) (depth + 1) .outside rest := by
  have hdepth := depthAfter?_add h.1 depth
  rw [Nat.zero_add] at hdepth
  rw [closeFrom?_append hdepth, h.2]

lemma openAfter?_below (h : openAfter? stack q text = some stack') (below : List BracketKind) :
    openAfter? (stack ++ below) q text = some (stack' ++ below) := by
  induction text generalizing stack q with
  | nil => cases h; rfl
  | cons c text ih =>
    obtain ⟨stack₁, hnext, htext⟩ := openAfter?_cons_eq_some_iff.1 h
    refine openAfter?_cons_eq_some_iff.2 ⟨stack₁ ++ below, ?_, ih htext⟩
    cases q with
    | inside | escaped =>
      rw [openNext?_within (by simp)] at hnext
      cases hnext
      exact openNext?_within (by simp) c
    | outside =>
      rcases openNext?_cases hnext with ⟨rfl, hquote | ⟨-, hopen, hclose⟩⟩ | ⟨k, hopen, -, rfl⟩ |
        ⟨k, hclose, -, hopen, rfl⟩
      · exact openNext?_of_isQuote hquote
      · exact openNext?_plain hopen hclose
      · exact openNext?_opening hopen
      · exact openNext?_closing hopen hclose

/-- A quote that does not occur again hides all that follows it. -/
lemma balancedFrom_of_not_mem {mark : Char} (h : mark ∉ text) (stack : List BracketKind) :
    balancedFrom stack (.inside mark) text = stack.isEmpty ∧
      balancedFrom stack (.escaped mark) text = stack.isEmpty := by
  induction text with
  | nil => simp [balancedFrom]
  | cons c text ih =>
    obtain ⟨hc, htext⟩ : c ≠ mark ∧ mark ∉ text := by simpa [eq_comm] using h
    obtain ⟨hinside, hescaped⟩ := ih htext
    refine ⟨?_, by rw [balancedFrom, hinside]⟩
    rw [balancedFrom, QuoteState.within, if_neg hc]
    split
    · exact hescaped
    · exact hinside

lemma level_of_balanced (h : balanced text = true) (hquote : quoteAfter .outside text = .outside) :
    Level text :=
  ⟨depthAfter?_of_openAfter? (balancedFrom_eq_true_iff.1 h), hquote⟩

/-- In a balanced text that leaves no quote open all brackets and quotes are in pairs. -/
theorem paired_of_balanced (h : balanced text = true) (hquote : quoteAfter .outside text = .outside) :
    Paired text where
  balanced stack rest := by
    have hbelow := openAfter?_below (balancedFrom_eq_true_iff.1 h) stack
    rw [List.nil_append] at hbelow
    rw [balancedFrom_append hbelow, hquote]
  close := (level_of_balanced h hquote).closeFrom?

end Bracket

end CommentBlocks
