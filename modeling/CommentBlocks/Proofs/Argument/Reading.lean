import CommentBlocks.Proofs.Argument.Coercing
import CommentBlocks.Proofs.Argument.Stepping

/-!
How the reader of tokens passes over the text of a value: all of it becomes part of the token at hand,
unless more brackets and quotes are open at once than may be.
-/

namespace CommentBlocks

namespace Value

mutual

/-- How many brackets and quotes are open at once in the text of a value. -/
def nesting : Value → Nat
  | string _ => 1
  | array items => 1 + itemsNesting items
  | object fields => 1 + fieldsNesting fields
  | null | bool _ | int _ | float _ => 0

def itemsNesting : List Value → Nat
  | [] => 0
  | v :: vs => max (nesting v) (itemsNesting vs)

/-- Every key is in quotes. -/
def fieldsNesting : List (String × Value) → Nat
  | [] => 0
  | (_, v) :: fs => max (max 1 (nesting v)) (fieldsNesting fs)

end

end Value

namespace Token.Reader

open Unicode (isBlank)
open Text (isQuote bytes)
open Value (escaped quoted print printItems printFields isWordChar WordText)

section Steps

variable {rest current : List Char} {stack stack' : List Frame} {equals equals' : Option Nat}
variable {tokens : List Token} {c : Char}

/-- Past the start of a line, what is neither a slash nor a line break joins the token. -/
lemma run_takes (hstack : Outside stack) (haccepts : Accepts stack current equals c stack' equals')
    (hslash : c ≠ '/') (hline : c ≠ '\n') :
    (⟨c :: rest, stack, current, equals, false, tokens⟩ : Reader).run =
      (⟨rest, stack', c :: current, equals', false, tokens⟩ : Reader).run := by
  have hbreak : (c == '\n' || (isBlank c && false)) = false := by simpa using hline
  rw [run_joins hstack haccepts (.inl rfl) (follows_of_ne hslash) tokens, hbreak]

lemma run_blank (hblank : isBlank c = true) {lineBlank : Bool} :
    (⟨c :: rest, [], current, equals, lineBlank, tokens⟩ : Reader).run =
      (⟨rest, [], current, equals, c == '\n' || lineBlank, tokens⟩ : Reader).finish.run := by
  have hne : c ≠ '#' ∧ c ≠ '/' := by constructor <;> rintro rfl <;> exact absurd hblank (by decide)
  have hskip : (⟨c :: rest, [], current, equals, lineBlank, tokens⟩ : Reader).skipComment? c rest =
      none := skipComment?_eq_none_iff.2 ⟨.inr hne.1, fun hc => absurd hc hne.2⟩
  refine run_of_step rfl ?_
  rw [step_eq_accept outside_nil hskip]
  simp [accept, advance, hblank]

/-- The first equals sign outside of brackets ends the key. -/
lemma run_equals {lineBlank : Bool} :
    (⟨'=' :: rest, [], current, none, lineBlank, tokens⟩ : Reader).run =
      (⟨rest, [], '=' :: current, some (bytes current), false, tokens⟩ : Reader).run :=
  run_joins outside_nil (.equalsSign rfl rfl rfl) (.inr (by decide)) (follows_of_ne (by decide)) tokens

/-- Neither a quote nor a bracket opens one more frame than may be open. -/
lemma run_tooDeep (hstack : Outside stack)
    (hopens : isQuote c = true ∧ opensQuotes current = true ∨ ∃ k, BracketKind.ofOpening? c = some k)
    (hdeep : maxNesting ≤ stack.length) :
    (⟨c :: rest, stack, current, equals, false, tokens⟩ : Reader).run = .error .tooDeep := by
  have hplain : isBlank c = false ∧ c ≠ '/' := by
    rcases hopens with ⟨hquote, -⟩ | ⟨k, hk⟩
    · exact ⟨(plain_of_isQuote hquote).1, (plain_of_isQuote hquote).2.2.1⟩
    · exact ⟨(plain_of_opening hk).1, (plain_of_opening hk).2.2.1⟩
  have hskip : (⟨c :: rest, stack, current, equals, false, tokens⟩ : Reader).skipComment? c rest =
      none := skipComment?_eq_none_iff.2 ⟨.inl rfl, fun hc => absurd hc hplain.2⟩
  refine run_of_error rfl ?_
  rw [step_eq_accept hstack hskip]
  simp only [accept, advance, hplain.1, Bool.false_and, Bool.false_eq_true, if_false]
  rcases hopens with ⟨hquote, hopens⟩ | ⟨k, hk⟩
  · have hboundary : (⟨rest, stack, current, equals, c == '\n' || false, tokens⟩ :
        Reader).atBoundary = true := hopens
    simp only [hquote, hboundary, Bool.and_self, if_true, openFrame, hdeep]
  · simp only [(plain_of_opening hk).2.2.2.2, hk, Bool.false_and, Bool.false_eq_true, if_false,
      openFrame, hdeep, if_true]

lemma run_openQuote (hstack : Outside stack) (hopens : opensQuotes current = true) :
    (⟨'"' :: rest, stack, current, equals, false, tokens⟩ : Reader).run =
      if maxNesting ≤ stack.length then .error .tooDeep
      else (⟨rest, .quote '"' :: stack, '"' :: current, equals, false, tokens⟩ : Reader).run := by
  split
  · next hdeep => exact run_tooDeep hstack (.inl ⟨rfl, hopens⟩) hdeep
  · next hdeep =>
    exact run_takes hstack (.openQuote rfl hopens (Nat.lt_of_not_le hdeep)) (by decide) (by decide)

lemma run_openBracket (hstack : Outside stack) (k : BracketKind) :
    (⟨k.opening :: rest, stack, current, equals, false, tokens⟩ : Reader).run =
      if maxNesting ≤ stack.length then .error .tooDeep
      else (⟨rest, .bracket k (stack.length + 1) :: stack, k.opening :: current, equals, false,
        tokens⟩ : Reader).run := by
  have hkind : BracketKind.ofOpening? k.opening = some k := BracketKind.ofOpening?_eq_some_iff.2 rfl
  split
  · next hdeep => exact run_tooDeep hstack (.inr ⟨k, hkind⟩) hdeep
  · next hdeep =>
    exact run_takes hstack (.openBracket hkind (Nat.lt_of_not_le hdeep)) (by cases k <;> decide)
      (by cases k <;> decide)

lemma run_closeBracket (k : BracketKind) (depth : Nat) :
    (⟨k.closing :: rest, .bracket k depth :: stack, current, equals, false, tokens⟩ : Reader).run =
      (⟨rest, stack, k.closing :: current, equals, false, tokens⟩ : Reader).run := by
  have hkind : BracketKind.ofClosing? k.closing = some k := BracketKind.ofClosing?_eq_some_iff.2 rfl
  exact run_takes (outside_bracket k depth) (.closeBracket hkind rfl (by simp [Frame.closedBy]))
    (by cases k <;> decide) (by cases k <;> decide)

/-! ### Values -/

lemma run_word (hstack : Outside stack) {text : List Char} (htext : WordText text) :
    (⟨text ++ rest, stack, current, equals, false, tokens⟩ : Reader).run =
      (⟨rest, stack, text.reverse ++ current, equals, false, tokens⟩ : Reader).run := by
  induction text generalizing current with
  | nil => rfl
  | cons c cs ih =>
    have hc : isWordChar c = true := htext c (by simp)
    have hne : ∀ d, isWordChar d = false → c ≠ d := fun d hd => Value.ne_of_isWordChar hc hd
    obtain ⟨hquote, hopen, hclose⟩ := Value.plain_of_isWordChar hc
    have hblank := Value.not_isBlank_of_isWordChar hc
    rw [List.cons_append, run_takes hstack (.put (.inl hblank) (.inl hquote) hopen hclose
      (.inl (hne '=' rfl))) (hne '/' rfl) (hne '\n' rfl),
      ih fun d hd => htext d (List.mem_cons_of_mem _ hd)]
    simp

lemma run_escaped (c : Char) :
    (⟨escaped c ++ rest, .quote '"' :: stack, current, equals, false, tokens⟩ : Reader).run =
      (⟨rest, .quote '"' :: stack, (escaped c).reverse ++ current, equals, false,
        tokens⟩ : Reader).run := by
  have hpair : ∀ (d : Char) (tail current : List Char),
      (⟨'\\' :: d :: tail, .quote '"' :: stack, current, equals, false, tokens⟩ : Reader).run =
        (⟨tail, .quote '"' :: stack, d :: '\\' :: current, equals, false, tokens⟩ : Reader).run :=
    fun d tail current => run_of_step rfl rfl
  have hplain : ∀ (d : Char) (tail current : List Char), d ≠ '"' → d ≠ '\\' →
      (⟨d :: tail, .quote '"' :: stack, current, equals, false, tokens⟩ : Reader).run =
        (⟨tail, .quote '"' :: stack, d :: current, equals, false, tokens⟩ : Reader).run :=
    fun d tail current hquote hslash => run_of_step rfl (by simp [step, stepQuoted, hquote, hslash])
  have htail : ∀ (tail current : List Char), (∀ e ∈ tail, e ≠ '"' ∧ e ≠ '\\' ∧ e ≠ '\n') →
      (⟨tail ++ rest, .quote '"' :: stack, current, equals, false, tokens⟩ : Reader).run =
        (⟨rest, .quote '"' :: stack, tail.reverse ++ current, equals, false, tokens⟩ : Reader).run := by
    intro tail
    induction tail with
    | nil => exact fun current _ => rfl
    | cons e tail ih =>
      intro current hplains
      obtain ⟨hquote, hslash, -⟩ := hplains e (by simp)
      rw [List.cons_append, hplain _ _ _ hquote hslash,
        ih _ fun d hd => hplains d (List.mem_cons_of_mem _ hd)]
      simp
  rcases Value.escaped_cases c with ⟨d, tail, heq, -, -, hplains⟩ | ⟨heq, hquote, hslash, -⟩
  · rw [heq, List.cons_append, List.cons_append, hpair, htail _ _ hplains]
    simp
  · rw [heq]
    exact hplain c rest current hquote hslash

lemma run_quoted (hstack : Outside stack) (hopens : opensQuotes current = true) (s : String) :
    (⟨quoted s ++ rest, stack, current, equals, false, tokens⟩ : Reader).run =
      if maxNesting ≤ stack.length then .error .tooDeep
      else (⟨rest, stack, (quoted s).reverse ++ current, equals, false, tokens⟩ : Reader).run := by
  have hbody : ∀ (cs current : List Char),
      (⟨cs.flatMap escaped ++ '"' :: rest, .quote '"' :: stack, current, equals, false,
        tokens⟩ : Reader).run =
      (⟨rest, stack, '"' :: (cs.flatMap escaped).reverse ++ current, equals, false,
        tokens⟩ : Reader).run := by
    intro cs
    induction cs with
    | nil => exact fun current => run_of_step rfl (by simp [step, stepQuoted])
    | cons c cs ih =>
      intro current
      rw [List.flatMap_cons, List.append_assoc, run_escaped, ih]
      simp
  have hquoted : quoted s ++ rest = '"' :: (s.toList.flatMap escaped ++ '"' :: rest) := by
    simp [quoted]
  rw [hquoted, run_openQuote hstack hopens, hbody]
  simp [quoted]

end Steps

/-- The reader takes all of `text` into the token at hand, starting where quotes can stand, unless it
meets more than the allowed number of open frames; `depth` of them are opened by the text. -/
def PassesOver (text : List Char) (depth : Nat) : Prop :=
  ∀ ⦃rest current : List Char⦄ ⦃stack : List Frame⦄ ⦃equals : Option Nat⦄ ⦃tokens : List Token⦄,
    Outside stack → stack.length ≤ maxNesting → opensQuotes current = true →
    (⟨text ++ rest, stack, current, equals, false, tokens⟩ : Reader).run =
      if stack.length + depth ≤ maxNesting then
        (⟨rest, stack, text.reverse ++ current, equals, false, tokens⟩ : Reader).run
      else .error .tooDeep

lemma passesOver_word {text : List Char} (h : WordText text) : PassesOver text 0 := by
  intro rest current stack equals tokens hstack hlength _
  rw [if_pos (by omega), run_word hstack h]

lemma passesOver_quoted (s : String) : PassesOver (quoted s) 1 := by
  intro rest current stack equals tokens hstack hlength hopens
  rw [run_quoted hstack hopens]
  split
  · rw [if_neg (by omega)]
  · rw [if_pos (by omega)]

/-- A part in brackets, which may start with a blank. -/
lemma PassesOver.bracket {text : List Char} {depth : Nat} (h : PassesOver text depth)
    (k : BracketKind) (lead : List Char) (hlead : lead = [] ∨ lead = [' ']) :
    PassesOver (k.opening :: lead ++ text ++ [k.closing]) (1 + depth) := by
  intro rest current stack equals tokens hstack hlength _
  have hopens : opensQuotes (lead.reverse ++ k.opening :: current) = true := by
    rcases hlead with rfl | rfl
    · cases k <;> rfl
    · rfl
  have hpast : ∀ tail, (⟨lead ++ tail, .bracket k (stack.length + 1) :: stack, k.opening :: current,
      equals, false, tokens⟩ : Reader).run = (⟨tail, .bracket k (stack.length + 1) :: stack,
      lead.reverse ++ k.opening :: current, equals, false, tokens⟩ : Reader).run := by
    intro tail
    rcases hlead with rfl | rfl
    · rfl
    · exact run_takes (outside_bracket k _)
        (.put (.inr (by simp)) (.inl rfl) rfl rfl (.inl (by decide))) (by decide) (by decide)
  have htext : k.opening :: lead ++ text ++ [k.closing] ++ rest =
      k.opening :: (lead ++ (text ++ k.closing :: rest)) := by simp
  rw [htext, run_openBracket hstack]
  split
  · rw [if_neg (by omega)]
  · rw [hpast, h (outside_bracket k _) (by simp; omega) hopens, List.length_cons]
    split
    · rw [if_pos (by omega), run_closeBracket]
      simp
    · rw [if_neg (by omega)]

lemma PassesOver.append {a b : List Char} {m n : Nat} (ha : PassesOver a m) (hb : PassesOver b n)
    {c : Char} (hc : c = ',' ∨ c = ':') : PassesOver (a ++ c :: b) (max m n) := by
  intro rest current stack equals tokens hstack hlength hopens
  have hmark : opensQuotes (c :: (a.reverse ++ current)) = true := by
    rcases hc with rfl | rfl <;> rfl
  have hput : (⟨c :: (b ++ rest), stack, a.reverse ++ current, equals, false, tokens⟩ : Reader).run =
      (⟨b ++ rest, stack, c :: (a.reverse ++ current), equals, false, tokens⟩ : Reader).run := by
    rcases hc with rfl | rfl <;>
      exact run_takes hstack (.put (.inl (by decide)) (.inl rfl) rfl rfl (.inl (by decide)))
        (by decide) (by decide)
  rw [List.append_assoc, List.cons_append, ha hstack hlength hopens]
  split
  · rw [hput, hb hstack hlength hmark]
    split
    · rw [if_pos (by omega)]
      simp
    · rw [if_neg (by omega)]
  · rw [if_neg (by omega)]

mutual

theorem passesOver_print : ∀ v : Value, PassesOver (print v) v.nesting
  | .null => passesOver_word (by decide)
  | .bool true => passesOver_word (by decide)
  | .bool false => passesOver_word (by decide)
  | .int i => passesOver_word (Value.wordText_scalarText (v := .int i) rfl)
  | .float x => passesOver_word (Value.wordText_scalarText (v := .float x) rfl)
  | .string s => passesOver_quoted s
  | .array items => (passesOver_printItems items).bracket .square [] (.inl rfl)
  | .object fields => (passesOver_printFields fields).bracket .curly [] (.inl rfl)

theorem passesOver_printItems :
    ∀ items : List Value, PassesOver (printItems items) (Value.itemsNesting items)
  | [] => passesOver_word (by decide)
  | [v] => by
    rw [Value.itemsNesting, Value.itemsNesting, Nat.max_zero]
    exact passesOver_print v
  | v :: w :: vs => (passesOver_print v).append (passesOver_printItems (w :: vs)) (.inl rfl)

theorem passesOver_printFields : ∀ fields : List (String × Value),
    PassesOver (printFields fields) (Value.fieldsNesting fields)
  | [] => passesOver_word (by decide)
  | [(k, v)] => by
    rw [Value.fieldsNesting, Value.fieldsNesting, Nat.max_zero]
    exact (passesOver_quoted k).append (passesOver_print v) (.inr rfl)
  | (k, v) :: f :: fs => by
    have hfield := (passesOver_quoted k).append (passesOver_print v) (.inr rfl)
    exact hfield.append (passesOver_printFields (f :: fs)) (.inl rfl)

end

theorem passesOver_valueText (v : Value) : PassesOver (Options.valueText v) v.nesting := by
  rcases Coerce.valueText_cases v with ⟨heq, -⟩ | ⟨items, t, rfl, -, heq⟩
  · rw [heq]
    exact passesOver_print v
  · rw [heq]
    simpa [Value.nesting, BracketKind.opening, BracketKind.closing] using
      (passesOver_printItems items).bracket .square [' '] (.inr rfl)

end Token.Reader

end CommentBlocks
