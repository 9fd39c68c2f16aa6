import CommentBlocks.Proofs.Argument.Balance
import CommentBlocks.Proofs.Argument.Enclosing
import Mathlib.Data.List.Induction

/-!
The language of balanced texts.

Without its quoted spans a text leaves some characters, and those among them that are brackets make up a
word. The text is balanced exactly if the grammar of nested brackets derives that word. The reader of
brackets keeps the open ones on a stack; the grammar is met again in what closes a whole stack, `Closes`.
-/

namespace CommentBlocks.Bracket

open Text (isQuote)

/-! ### Quoted spans -/

/-- The text ends in a backslash that has no partner. -/
def EndsUnpaired (text : List Char) : Prop := (text.reverse.takeWhile (· == '\\')).length % 2 = 1

instance (text : List Char) : Decidable (EndsUnpaired text) := inferInstanceAs (Decidable (_ = _))

/-- What stands inside quotes: the quote character occurs behind unpaired backslashes only. -/
def Within (mark : Char) (body : List Char) : Prop :=
  ∀ front rest, body = front ++ mark :: rest → EndsUnpaired front

/-- What a text leaves without its quoted spans, and whether all of them end. One that does not end reaches
to the end of the text. -/
inductive Leaves : List Char → List Char → Bool → Prop where
  | nil : Leaves [] [] true
  | char {c : Char} {cs rest : List Char} {ended : Bool} (hc : isQuote c = false)
    (hcs : Leaves cs rest ended) : Leaves (c :: cs) (c :: rest) ended
  | span {mark : Char} {body cs rest : List Char} {ended : Bool} (hmark : isQuote mark = true)
    (hbody : Within mark body) (hend : ¬ EndsUnpaired body) (hcs : Leaves cs rest ended) :
    Leaves (mark :: (body ++ mark :: cs)) rest ended
  | unended {mark : Char} {body : List Char} (hmark : isQuote mark = true) (hbody : Within mark body) :
    Leaves (mark :: body) [] false

variable {mark c : Char} {text rest body : List Char} {ended : Bool}

lemma endsUnpaired_concat : EndsUnpaired (body ++ [c]) ↔ c = '\\' ∧ ¬ EndsUnpaired body := by
  unfold EndsUnpaired
  rw [List.reverse_concat, List.takeWhile_cons]
  by_cases hc : c = '\\'
  · simp only [hc, beq_self_eq_true, if_true, List.length_cons, true_and]
    omega
  · simp [hc]

lemma within_nil (mark : Char) : Within mark [] := fun front rest h => by simp at h

lemma within_concat_iff :
    Within mark (body ++ [c]) ↔ Within mark body ∧ (c = mark → EndsUnpaired body) := by
  constructor
  · intro h
    refine ⟨fun front rest heq => h front (rest ++ [c]) (by simp [heq]), ?_⟩
    rintro rfl
    exact h body [] rfl
  · rintro ⟨h, hlast⟩ front rest heq
    rcases List.eq_nil_or_concat' rest with rfl | ⟨rest, d, rfl⟩
    · obtain ⟨rfl, hc⟩ := List.append_inj' heq rfl
      exact hlast (List.singleton_inj.1 hc)
    · rw [← List.cons_append, ← List.append_assoc] at heq
      exact h front rest (List.append_inj_left' heq rfl)

/-- Behind a quote stands what is inside of it, up to its partner or up to the end of the text. -/
lemma within_or_exists (mark : Char) (text : List Char) : Within mark text ∨
    ∃ body rest, text = body ++ mark :: rest ∧ Within mark body ∧ ¬ EndsUnpaired body := by
  induction text using List.reverseRecOn with
  | nil => exact .inl (within_nil mark)
  | append_singleton text c ih =>
    rcases ih with h | ⟨body, rest, rfl, hbody, hend⟩
    · by_cases hlast : c = mark → EndsUnpaired text
      · exact .inl (within_concat_iff.2 ⟨h, hlast⟩)
      · obtain ⟨rfl, hend⟩ := Classical.not_imp.1 hlast
        exact .inr ⟨text, [], rfl, h, hend⟩
    · exact .inr ⟨body, rest ++ [c], by simp, hbody, hend⟩

lemma exists_leaves (text : List Char) : ∃ rest ended, Leaves text rest ended := by
  induction hlength : text.length using Nat.strong_induction_on generalizing text with
  | _ n ih =>
    subst hlength
    cases text with
    | nil => exact ⟨[], true, .nil⟩
    | cons c cs =>
      cases hc : isQuote c with
      | false =>
        obtain ⟨rest, ended, hrest⟩ := ih cs.length (by simp) cs rfl
        exact ⟨c :: rest, ended, .char hc hrest⟩
      | true =>
        rcases within_or_exists c cs with hbody | ⟨body, tail, rfl, hbody, hend⟩
        · exact ⟨[], false, .unended hc hbody⟩
        · obtain ⟨rest, ended, hrest⟩ := ih tail.length (by simp; omega) tail rfl
          exact ⟨rest, ended, .span hc hbody hend hrest⟩

/-! ### The reader of brackets over quoted spans -/

lemma ne_backslash_of_isQuote (hmark : isQuote mark = true) : mark ≠ '\\' := by
  rintro rfl
  simp [isQuote] at hmark

lemma quoteAfter_within (h : Within mark body) :
    quoteAfter (.inside mark) body = .escaped mark ∧ EndsUnpaired body ∨
      quoteAfter (.inside mark) body = .inside mark ∧ ¬ EndsUnpaired body := by
  induction body using List.reverseRecOn with
  | nil => exact .inr ⟨rfl, by simp [EndsUnpaired]⟩
  | append_singleton body c ih =>
    obtain ⟨hbody, hlast⟩ := within_concat_iff.1 h
    rw [endsUnpaired_concat, quoteAfter_append]
    rcases ih hbody with ⟨hstate, hend⟩ | ⟨hstate, hend⟩
    · rw [hstate]
      exact .inr ⟨rfl, fun h => h.2 hend⟩
    · have hmark : c ≠ mark := fun h => hend (hlast h)
      rw [hstate]
      by_cases hc : c = '\\'
      · subst hc
        exact .inl ⟨rfl, rfl, hend⟩
      · exact .inr ⟨by simp [QuoteState.next, QuoteState.within, hc, hmark], fun h => hc h.1⟩

lemma quoteAfter_ne_outside (h : Within mark body) :
    quoteAfter (.inside mark) body ≠ .outside := by
  rcases quoteAfter_within h with ⟨hstate, -⟩ | ⟨hstate, -⟩ <;> simp [hstate]

lemma openAfter?_within (h : Within mark body) (stack : List BracketKind) :
    openAfter? stack (.inside mark) body = some stack := by
  induction body using List.reverseRecOn with
  | nil => rfl
  | append_singleton body c ih =>
    obtain ⟨hbody, -⟩ := within_concat_iff.1 h
    rw [openAfter?_append (ih hbody), openAfter?,
      openNext?_within (quoteAfter_ne_outside hbody)]
    rfl

def isBracket (c : Char) : Bool := (BracketKind.ofOpening? c).isSome || (BracketKind.ofClosing? c).isSome

lemma isBracket_of_isQuote (h : isQuote c = true) : isBracket c = false := by
  simp only [isQuote, Bool.or_eq_true, beq_iff_eq] at h
  rcases h with (rfl | rfl) | rfl <;> rfl

lemma Leaves.read (h : Leaves text rest ended) :
    (ended = true → quoteAfter .outside text = .outside) ∧
      ∀ stack, openAfter? stack .outside text = openAfter? stack .outside (rest.filter isBracket) := by
  induction h with
  | nil => exact ⟨fun _ => rfl, fun _ => rfl⟩
  | @char c cs rest ended hc _ ih =>
    have hnext : QuoteState.outside.next c = .outside := if_neg (by rw [hc]; decide)
    refine ⟨fun hended => by rw [quoteAfter_cons, hnext, ih.1 hended], fun stack => ?_⟩
    rw [openAfter?, hnext]
    by_cases hbracket : isBracket c = true
    · rw [List.filter_cons_of_pos hbracket, openAfter?, hnext]
      simp only [ih.2]
    · have hplain : BracketKind.ofOpening? c = none ∧ BracketKind.ofClosing? c = none := by
        simpa [isBracket] using hbracket
      rw [List.filter_cons_of_neg hbracket, openNext?_plain hplain.1 hplain.2]
      exact ih.2 stack
  | @span mark body cs rest ended hmark hbody hend _ ih =>
    have hnext : QuoteState.outside.next mark = .inside mark := if_pos hmark
    have hinside : quoteAfter (.inside mark) body = .inside mark :=
      ((quoteAfter_within hbody).resolve_left fun h => hend h.2).1
    have hclose : (QuoteState.inside mark).next mark = .outside := by
      simp [QuoteState.next, QuoteState.within, ne_backslash_of_isQuote hmark]
    refine ⟨fun hended => ?_, fun stack => ?_⟩
    · rw [quoteAfter_cons, hnext, quoteAfter_append, hinside, quoteAfter_cons, hclose, ih.1 hended]
    · rw [openAfter?, openNext?_of_isQuote hmark, Option.bind_some, hnext,
        openAfter?_append (openAfter?_within hbody stack), hinside, openAfter?,
        openNext?_within (by simp), Option.bind_some, hclose, ih.2]
  | @unended mark body hmark hbody =>
    have hnext : QuoteState.outside.next mark = .inside mark := if_pos hmark
    refine ⟨fun hended => absurd hended (by decide), fun stack => ?_⟩
    rw [openAfter?, openNext?_of_isQuote hmark, Option.bind_some, hnext,
      openAfter?_within hbody stack]
    rfl

/-! ### The grammar -/

/-- The words that the grammar of nested brackets derives. -/
inductive Nested : List Char → Prop where
  | empty : Nested []
  | enclose (k : BracketKind) {x y : List Char} (hx : Nested x) (hy : Nested y) :
    Nested (k.opening :: (x ++ k.closing :: y))

/-- The word closes the brackets of the stack one after the other, with nested brackets in front of each
and at its end. -/
inductive Closes : List BracketKind → List Char → Prop where
  | all {x : List Char} (hx : Nested x) : Closes [] x
  | next {k : BracketKind} {stack : List BracketKind} {x y : List Char} (hx : Nested x)
    (hy : Closes stack y) : Closes (k :: stack) (x ++ k.closing :: y)

variable {k : BracketKind} {stack : List BracketKind}

lemma Closes.enclose (h : Closes (k :: stack) text) : Closes stack (k.opening :: text) := by
  cases h with
  | next hx hy =>
    cases hy with
    | all hy => exact .all (.enclose k hx hy)
    | @next k' stack x' y' hx' hy =>
      have hword := Closes.next (k := k') (.enclose k hx hx') hy
      simpa using hword

lemma openNext?_kind (k : BracketKind) (stack : List BracketKind) :
    openNext? stack .outside k.opening = some (k :: stack) ∧
      openNext? (k :: stack) .outside k.closing = some stack ∧
      QuoteState.outside.next k.opening = .outside ∧ QuoteState.outside.next k.closing = .outside := by
  cases k <;> exact ⟨rfl, rfl, rfl, rfl⟩

lemma Nested.openAfter? (h : Nested text) (stack : List BracketKind) :
    Bracket.openAfter? stack .outside text = some stack ∧ quoteAfter .outside text = .outside := by
  induction h generalizing stack with
  | empty => exact ⟨rfl, rfl⟩
  | @enclose k x y _ _ ihx ihy =>
    obtain ⟨hopen, hclose, hafter, hafter'⟩ := openNext?_kind k stack
    obtain ⟨hx, hquote⟩ := ihx (k :: stack)
    constructor
    · rw [Bracket.openAfter?, hopen, Option.bind_some, hafter, openAfter?_append hx, hquote,
        Bracket.openAfter?, hclose, Option.bind_some, hafter', (ihy stack).1]
    · rw [quoteAfter_cons, hafter, quoteAfter_append, hquote, quoteAfter_cons, hafter', (ihy stack).2]

/-- Where the reader is left with nothing open, the word closes all that was open before. -/
lemma closes_of_openAfter? (hword : ∀ c ∈ text, isBracket c = true)
    (h : openAfter? stack .outside text = some []) : Closes stack text := by
  induction text generalizing stack with
  | nil =>
    obtain rfl := Option.some.inj h
    exact .all .empty
  | cons c text ih =>
    obtain ⟨hc, htext⟩ := List.forall_mem_cons.1 hword
    obtain ⟨stack', hnext, hrest⟩ := openAfter?_cons_eq_some_iff.1 h
    rcases openNext?_cases hnext with ⟨rfl, hquote | ⟨-, hopen, hclose⟩⟩ | ⟨k, hopen, -, rfl⟩ |
      ⟨k, hclose, -, -, rfl⟩
    · simp [isBracket_of_isQuote hquote] at hc
    · simp [isBracket, hopen, hclose] at hc
    · obtain rfl := BracketKind.ofOpening?_eq_some_iff.1 hopen
      rw [(openNext?_kind k stack).2.2.1] at hrest
      exact (ih htext hrest).enclose
    · obtain rfl := BracketKind.ofClosing?_eq_some_iff.1 hclose
      rw [(openNext?_kind k stack').2.2.2] at hrest
      exact .next .empty (ih htext hrest)

lemma nested_iff (hword : ∀ c ∈ text, isBracket c = true) :
    openAfter? [] .outside text = some [] ↔ Nested text := by
  refine ⟨fun h => ?_, fun h => (h.openAfter? []).1⟩
  cases closes_of_openAfter? hword h with
  | all hx => exact hx

/-- A text is balanced exactly if the grammar derives the brackets that are left of it without its quoted
spans. Around a balanced text that leaves no quote open, the partner of an opening bracket is the closing
one behind the text. -/
theorem balanced_iff_nested :
    (∀ text, (∃ rest ended, Leaves text rest ended) ∧ ∀ rest ended, Leaves text rest ended →
      (balanced text = true ↔ Nested (rest.filter isBracket))) ∧
      ∀ (k : BracketKind) (x y rest : List Char), balanced x = true → Leaves x rest true →
        close? (k.opening :: (x ++ k.closing :: y)) = some (k.opening :: x).length := by
  refine ⟨fun text => ⟨exists_leaves text, fun rest ended h => ?_⟩, fun k x y rest hx hrest => ?_⟩
  · have hword : ∀ c ∈ rest.filter isBracket, isBracket c = true := fun c hc => (List.mem_filter.1 hc).2
    calc balanced text = true
      _ ↔ openAfter? [] .outside text = some [] := balancedFrom_eq_true_iff
      _ ↔ openAfter? [] .outside (rest.filter isBracket) = some [] := by rw [h.read.2]
      _ ↔ Nested (rest.filter isBracket) := nested_iff hword
  · exact close?_enclosed (paired_of_balanced hx (hrest.read.1 rfl)) k y

/-- A bracket between quotes, behind a quote character with a backslash. -/
theorem balanced_iff_nested_escape :
    let x := "[a '\\')']".toList
    Leaves x "[a ]".toList true ∧ balanced x = true ∧ Nested "[]".toList ∧
      close? ('(' :: (x ++ ')' :: "]".toList)) = some 10 := by
  intro x
  have hbody : Within '\'' ['\\', '\'', ')'] := by
    have hslash : Within '\'' ['\\'] := within_concat_iff.2 ⟨within_nil _, by decide⟩
    have hquote : Within '\'' ['\\', '\''] := within_concat_iff.2 ⟨hslash, by decide⟩
    exact within_concat_iff.2 ⟨hquote, by decide⟩
  have hleaves : Leaves x "[a ]".toList true :=
    .char rfl (.char rfl (.char rfl (.span rfl hbody (by decide) (.char rfl .nil))))
  have hbalanced : balanced x = true := by decide
  exact ⟨hleaves, hbalanced, ((balanced_iff_nested.1 x).2 _ _ hleaves).1 hbalanced,
    balanced_iff_nested.2 .round x "]".toList _ hbalanced hleaves⟩

end CommentBlocks.Bracket
