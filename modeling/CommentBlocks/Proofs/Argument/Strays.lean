import CommentBlocks.Proofs.Argument.Balance
import CommentBlocks.Proofs.Argument.Passing

/-!
Which tokens are balanced. The reader of tokens opens a string only behind white space and delimiters, the
reader of brackets at every quote. Up to the first quote that stands for itself both have the same
brackets open; behind it the one reads on as in a string.
-/

namespace CommentBlocks

open Text (isQuote)
open Token.Reader (Passes Accepts Outside opensQuotes)

namespace Frame

def kind? : Frame → Option BracketKind
  | quote _ => none
  | bracket k _ => some k

def kinds (stack : List Frame) : List BracketKind := stack.filterMap kind?

def place : List Frame → QuoteState
  | quote mark :: _ => .inside mark
  | _ => .outside

def OnTop (stack : List Frame) : Prop := ∀ mark, quote mark ∉ stack.tail

variable {stack : List Frame}

@[simp] lemma kinds_nil : kinds [] = [] := rfl

@[simp] lemma kinds_quote (mark : Char) (stack : List Frame) :
    kinds (quote mark :: stack) = kinds stack := rfl

@[simp] lemma kinds_bracket (k : BracketKind) (depth : Nat) (stack : List Frame) :
    kinds (bracket k depth :: stack) = k :: kinds stack := rfl

lemma place_of_outside (h : Outside stack) : place stack = .outside := by
  cases stack with
  | nil => rfl
  | cons top below =>
    cases top with
    | quote mark => exact absurd h Token.Reader.not_outside_quote
    | bracket => rfl

lemma onTop_nil : OnTop [] := by simp [OnTop]

lemma OnTop.outside_tail {top : Frame} (h : OnTop (top :: stack)) : Outside stack :=
  fun mark hmark => h mark (List.mem_of_mem_head? hmark)

lemma OnTop.tail {top : Frame} (h : OnTop (top :: stack)) : OnTop stack :=
  fun mark hmark => h mark (List.mem_of_mem_tail hmark)

lemma OnTop.push (h : OnTop stack) (hout : Outside stack) (top : Frame) : OnTop (top :: stack) := by
  intro mark hmark
  cases stack with
  | nil => simp at hmark
  | cons under below =>
    rcases List.mem_cons.1 hmark with rfl | hmark
    · exact hout mark rfl
    · exact h mark hmark

lemma eq_nil_of_kinds (hout : Outside stack) (h : kinds stack = []) : stack = [] := by
  cases stack with
  | nil => rfl
  | cons top below =>
    cases top with
    | quote mark => exact absurd hout Token.Reader.not_outside_quote
    | bracket => simp at h

lemma place_within {mark c : Char} (htop : OnTop (quote mark :: stack)) (hc : c ≠ '\\') :
    kinds (if c = mark then stack else quote mark :: stack) = kinds stack ∧
      place (if c = mark then stack else quote mark :: stack) = QuoteState.within mark c ∧
      OnTop (if c = mark then stack else quote mark :: stack) := by
  rw [QuoteState.within, if_neg hc]
  split
  · exact ⟨rfl, place_of_outside htop.outside_tail, htop.tail⟩
  · exact ⟨rfl, rfl, htop⟩

end Frame

open CommentBlocks.Frame (kinds place OnTop)

namespace Bracket

/-- The first quote outside of strings that opens none in a token, with the text in front of it and the
text behind it. What stands before the text is given back to front. -/
def strayQuote? (current : List Char) (q : QuoteState) :
    List Char → Option (List Char × Char × List Char)
  | [] => none
  | c :: cs =>
    if q = .outside ∧ isQuote c = true ∧ opensQuotes current = false then some ([], c, cs)
    else
      (strayQuote? (c :: current) (q.next c) cs).map fun (front, mark, rest) => (c :: front, mark, rest)

lemma strayQuote?_within {q : QuoteState} (h : q ≠ .outside) (current : List Char) (c : Char)
    (cs : List Char) : strayQuote? current q (c :: cs) =
      (strayQuote? (c :: current) (q.next c) cs).map fun (front, mark, rest) => (c :: front, mark, rest) := by
  rw [strayQuote?, if_neg fun hstray => h hstray.1]

end Bracket

open CommentBlocks.Bracket (strayQuote? openNext? openAfter? quoteAfter balanced balancedFrom)

namespace Token.Reader

variable {stack stack₁ stack' : List Frame} {current text : List Char} {equals equals' : Option Nat}
  {c : Char}

/-- How far both readers have the same brackets open and stand alike with respect to quotes: over all of
the text, or up to the first quote that stands for itself. -/
inductive Agrees (stack : List Frame) (current text : List Char) (stack' : List Frame) : Prop
  | throughout (hstray : strayQuote? current (place stack) text = none)
      (hopen : openAfter? (kinds stack) (place stack) text = some (kinds stack'))
      (hquote : quoteAfter (place stack) text = place stack') : Agrees stack current text stack'
  | upTo {front rest : List Char} {mark : Char} {stack₁ : List Frame}
      (hstray : strayQuote? current (place stack) text = some (front, mark, rest))
      (htext : text = front ++ mark :: rest) (hmark : isQuote mark = true)
      (hpasses : Passes stack current front stack₁) (hout : Outside stack₁)
      (hopen : openAfter? (kinds stack) (place stack) front = some (kinds stack₁))
      (hquote : quoteAfter (place stack) front = .outside) : Agrees stack current text stack'

lemma Agrees.extend {a : List Char} (ha : Passes stack current a stack₁)
    (hstray : strayQuote? current (place stack) (a ++ text) =
      (strayQuote? (a.reverse ++ current) (place stack₁) text).map
        fun (front, mark, rest) => (a ++ front, mark, rest))
    (hopen : openAfter? (kinds stack) (place stack) a = some (kinds stack₁))
    (hquote : quoteAfter (place stack) a = place stack₁)
    (h : Agrees stack₁ (a.reverse ++ current) text stack') : Agrees stack current (a ++ text) stack' := by
  cases h with
  | throughout hnone hopen' hquote' =>
    refine .throughout (by rw [hstray, hnone]; rfl) ?_ ?_
    · rw [Bracket.openAfter?_append hopen, hquote, hopen']
    · rw [Bracket.quoteAfter_append, hquote, hquote']
  | @upTo front rest mark stack₂ hsome htext hmark hpasses hout hopen' hquote' =>
    have hfirst : strayQuote? current (place stack) (a ++ text) = some (a ++ front, mark, rest) := by
      rw [hstray, hsome]
      rfl
    refine .upTo hfirst (by rw [htext, List.append_assoc]) hmark (ha.trans hpasses) hout ?_ ?_
    · rw [Bracket.openAfter?_append hopen, hquote, hopen']
    · rw [Bracket.quoteAfter_append, hquote, hquote']

/-- A character that joins a token does the same for both, if it is no quote that stands for itself. -/
lemma Accepts.agrees (h : Accepts stack current equals c stack' equals') (hout : Outside stack)
    (htop : OnTop stack) (hquote : isQuote c = true → opensQuotes current = true) :
    openNext? (kinds stack) .outside c = some (kinds stack') ∧
      QuoteState.next .outside c = place stack' ∧ OnTop stack' := by
  have hplace := Frame.place_of_outside hout
  cases h with
  | openQuote hquote' =>
    exact ⟨Bracket.openNext?_of_isQuote hquote', if_pos hquote', htop.push hout _⟩
  | openBracket hopen =>
    have hno := (plain_of_opening hopen).2.2.2.2
    exact ⟨Bracket.openNext?_opening hopen, by simp [QuoteState.next, hno, place], htop.push hout _⟩
  | @closeBracket k top below hclose hstack hcloses =>
    obtain ⟨-, -, -, -, hno, hopen⟩ := plain_of_closing hclose
    subst hstack
    cases top with
    | quote => simp [Frame.closedBy] at hcloses
    | bracket kind depth =>
      obtain rfl : kind = k := by simpa [Frame.closedBy] using hcloses
      refine ⟨Bracket.openNext?_closing hopen hclose, ?_, htop.tail⟩
      simp [QuoteState.next, hno, Frame.place_of_outside htop.outside_tail]
  | equalsSign hc =>
    subst hc
    exact ⟨Bracket.openNext?_plain rfl rfl, by rw [hplace]; rfl, htop⟩
  | put _ hno hopen hclose =>
    have hno : isQuote c = false := by
      by_contra hyes
      rw [Bool.not_eq_false] at hyes
      simp [hyes, hquote hyes] at hno
    exact ⟨Bracket.openNext?_plain hopen hclose, by simp [QuoteState.next, hno, hplace], htop⟩

/-- What the reader of tokens passes, the reader of brackets reads alike up to the first quote that stands
for itself. -/
theorem Passes.agrees (h : Passes stack current text stack') (htop : OnTop stack) :
    Agrees stack current text stack' := by
  induction h with
  | nil => exact .throughout rfl rfl rfl
  | @quoted mark c below stack' current text hc _ ih =>
    obtain ⟨hkinds, hplace, htop₁⟩ := Frame.place_within htop hc
    set stack₁ := if c = mark then below else .quote mark :: below
    refine (ih htop₁).extend (a := [c]) (.quoted hc .nil) ?_ ?_ hplace.symm
    · rw [List.singleton_append, Bracket.strayQuote?_within (by simp [place])]
      exact congrArg (fun q => (strayQuote? (c :: current) q text).map _) hplace.symm
    · rw [hkinds, openAfter?, Bracket.openNext?_within (by simp [place])]
      rfl
  | @escaped mark c below stack' current text _ ih =>
    refine (ih htop).extend (a := ['\\', c]) (.escaped .nil) ?_ rfl rfl
    · rw [List.cons_append, List.singleton_append, Bracket.strayQuote?_within (by simp [place]),
        Bracket.strayQuote?_within (by simp [place, QuoteState.next, QuoteState.within]), Option.map_map]
      rfl
  | @joins c equals equals' stack stack₁ stack' current text hout haccepts hpasses ih =>
    have hplace := Frame.place_of_outside hout
    by_cases hstray : isQuote c = true ∧ opensQuotes current = false
    · have hfirst : strayQuote? current (place stack) (c :: text) = some ([], c, text) := by
        rw [strayQuote?, if_pos ⟨hplace, hstray⟩]
      exact .upTo hfirst rfl hstray.1 .nil hout rfl hplace
    · obtain ⟨hopen, hnext, htop₁⟩ := haccepts.agrees hout htop fun hquote => by
        by_contra hno
        exact hstray ⟨hquote, by simpa using hno⟩
      refine (ih htop₁).extend (a := [c]) (.joins hout haccepts .nil) ?_ ?_ ?_
      · rw [List.singleton_append, strayQuote?, if_neg fun h => hstray h.2, hplace, hnext]
        rfl
      · rw [hplace, openAfter?, hopen]
        rfl
      · rw [hplace]
        exact hnext

end Token.Reader

namespace Token

/-- A token without a quote that stands for itself is balanced and leaves no quote open. One with such a
quote is balanced exactly if the text behind the first one, read as if in a string, closes the brackets
that are open in front of it; so, if that quote does not occur again, exactly if none is open. -/
theorem balanced_iff_of_ofText {text : List Char} {tokens : List Token} (h : ofText text = .ok tokens) :
    ∀ t ∈ tokens,
      (strayQuote? [] .outside t.text = none →
        balanced t.text = true ∧ quoteAfter .outside t.text = .outside) ∧
      ∀ front mark rest, strayQuote? [] .outside t.text = some (front, mark, rest) →
        t.text = front ++ mark :: rest ∧ ∃ stack, Passes [] [] front stack ∧
          (balanced t.text = true ↔ balancedFrom (kinds stack) (.inside mark) rest = true) ∧
          (mark ∉ rest → (balanced t.text = true ↔ stack = [])) := by
  intro t ht
  have hagrees := (closed_of_ofText h t ht).text.agrees Frame.onTop_nil
  cases hagrees with
  | throughout hstray hopen hquote =>
    refine ⟨fun _ => ⟨Bracket.balancedFrom_eq_true_iff.2 hopen, hquote⟩, fun front mark rest hsome => ?_⟩
    simp [place, hsome] at hstray
  | @upTo front rest mark stack hstray htext hmark hpasses hout hopen hquote =>
    refine ⟨fun hnone => by simp [place, hnone] at hstray, fun front' mark' rest' hsome => ?_⟩
    obtain ⟨rfl, rfl, rfl⟩ : front = front' ∧ mark = mark' ∧ rest = rest' := by
      simpa using hstray.symm.trans hsome
    have hbalanced : balanced t.text = balancedFrom (kinds stack) (.inside mark) rest := by
      have happend := Bracket.balancedFrom_append hopen (mark :: rest)
      rw [hquote, balancedFrom, if_pos hmark] at happend
      rw [htext]
      exact happend
    refine ⟨htext, stack, hpasses, by rw [hbalanced], fun hmem => ?_⟩
    rw [hbalanced, (Bracket.balancedFrom_of_not_mem hmem _).1, List.isEmpty_iff]
    exact ⟨Frame.eq_nil_of_kinds hout, fun hnil => by rw [hnil]; rfl⟩

/-- Apostrophes in words, in pairs inside of a bracket and alone outside of any, beside one in a string. -/
theorem balanced_iff_of_ofText_three_tokens :
    let tokens : List Token := [⟨"x=(a'b'c)".toList, some 1⟩, ⟨"don't".toList, none⟩,
      ⟨"[\"y'z\", w]".toList, none⟩]
    ofText "x=(a'b'c) don't [\"y'z\", w]".toList = .ok tokens ∧
      (∃ stack, Passes [] [] "x=(a".toList stack ∧ (balanced "x=(a'b'c)".toList = true ↔
        balancedFrom (kinds stack) (.inside '\'') "b'c)".toList = true)) ∧
      (∃ stack, Passes [] [] "don".toList stack ∧ (balanced "don't".toList = true ↔ stack = [])) ∧
      balanced "[\"y'z\", w]".toList = true := by
  intro tokens
  have htokens : ofText "x=(a'b'c) don't [\"y'z\", w]".toList = .ok tokens := by decide +kernel
  have hall := balanced_iff_of_ofText htokens
  obtain ⟨-, stack, hpasses, hiff, -⟩ :=
    (hall ⟨"x=(a'b'c)".toList, some 1⟩ (by simp [tokens])).2 "x=(a".toList '\'' "b'c)".toList (by decide)
  obtain ⟨-, stack', hpasses', -, hiff'⟩ :=
    (hall ⟨"don't".toList, none⟩ (by simp [tokens])).2 "don".toList '\'' "t".toList (by decide)
  have hthird := (hall ⟨"[\"y'z\", w]".toList, none⟩ (by simp [tokens])).1 (by decide)
  exact ⟨htokens, ⟨stack, hpasses, hiff⟩, ⟨stack', hpasses', hiff' (by decide)⟩, hthird.1⟩

/-- An apostrophe in a bracket: the token is accepted, and is not balanced. -/
theorem not_balanced_of_apostrophe :
    ofText "(don't)".toList = .ok [⟨"(don't)".toList, none⟩] ∧ balanced "(don't)".toList = false ∧
      ¬ ∀ text tokens, ofText text = .ok tokens → ∀ t ∈ tokens, balanced t.text = true := by
  have htokens : ofText "(don't)".toList = .ok [⟨"(don't)".toList, none⟩] := by decide +kernel
  have hbalanced : balanced "(don't)".toList = false := by decide
  refine ⟨htokens, hbalanced, fun hall => ?_⟩
  exact absurd (hall _ _ htokens _ List.mem_cons_self) (by rw [hbalanced]; decide)

end Token

end CommentBlocks
