import CommentBlocks.Proofs.Argument.Bracketing
import CommentBlocks.Proofs.Argument.Wrapping

/-!
What stands around a text whose brackets come off. The reader of the partner of a bracket only counts, so
the partner that it finds can be of another kind, and there can be brackets of different kinds in pairs in
between: it stops behind a text that is level. So doubled brackets come off level text, and an opening brace
with any closing bracket comes off balanced text; the brackets are genuine exactly if the whole text is
balanced.
-/

namespace CommentBlocks

open Text (trim)
open Relaxed (Blanks)

namespace Bracket

variable {stack stack' : List BracketKind} {depth place n : Nat} {q : QuoteState} {k : BracketKind}
  {text cs rest : List Char}

lemma exists_of_closeFrom? (h : closeFrom? place (depth + 1) q cs = some n) :
    ∃ x k y, cs = x ++ BracketKind.closing k :: y ∧ n = place + x.length ∧
      depthAfter? depth q x = some 0 ∧ quoteAfter q x = .outside := by
  induction cs generalizing place depth q with
  | nil => simp [closeFrom?] at h
  | cons c cs ih =>
    cases hnext : depthNext? depth q c with
    | some depth₁ =>
      rw [closeFrom?_cons hnext] at h
      obtain ⟨x, k, y, rfl, rfl, hdepth, hquote⟩ := ih h
      refine ⟨c :: x, k, y, rfl, ?_, depthAfter?_cons_eq_some_iff.2 ⟨depth₁, hnext, hdepth⟩, hquote⟩
      rw [List.length_cons]
      omega
    | none =>
      -- the reader has no count to take off: this is the bracket
      obtain ⟨rfl, hopen, ⟨k, hclose⟩, rfl⟩ := depthNext?_eq_none_iff.1 hnext
      have hquote : Text.isQuote c = false := by
        by_contra hquote
        rw [Bool.not_eq_false] at hquote
        simp [depthNext?_of_isQuote hquote] at hnext
      obtain rfl : place = n := by simpa [closeFrom?, hquote, hopen, hclose] using h
      exact ⟨[], k, cs, by rw [BracketKind.ofClosing?_eq_some_iff.1 hclose]; rfl, rfl, rfl, rfl⟩

/-- The partner of a bracket is the first closing one behind level text, of whatever kind. -/
lemma close?_eq_some_iff : close? (k.opening :: rest) = some n ↔
    ∃ x k' y, rest = x ++ BracketKind.closing k' :: y ∧ n = x.length + 1 ∧ Level x := by
  have hopening : Text.isQuote k.opening = false ∧ (BracketKind.ofOpening? k.opening).isSome = true := by
    cases k <;> decide
  have hstart : close? (k.opening :: rest) = closeFrom? 1 1 .outside rest := by
    simp [close?, closeFrom?, hopening]
  rw [hstart]
  constructor
  · intro h
    obtain ⟨x, k', y, hrest, hn, hlevel⟩ := exists_of_closeFrom? h
    exact ⟨x, k', y, hrest, by omega, hlevel⟩
  · rintro ⟨x, k', y, rfl, rfl, hlevel⟩
    have hclosing : Text.isQuote k'.closing = false ∧ BracketKind.ofOpening? k'.closing = none ∧
        (BracketKind.ofClosing? k'.closing).isSome = true := by
      cases k' <;> decide
    rw [hlevel.closeFrom? 1 0, closeFrom?]
    simp [hclosing, Nat.add_comm]

example : close? "(a[b)c\x7dd".toList = some 6 := by decide

lemma depthNext?_kind (k : BracketKind) (depth : Nat) :
    depthNext? depth .outside k.opening = some (depth + 1) ∧
      depthNext? (depth + 1) .outside k.closing = some depth := by
  cases k <;> exact ⟨rfl, rfl⟩

lemma Level.enclose (h : Level text) (k : BracketKind) : Level (k.opening :: (text ++ [k.closing])) := by
  obtain ⟨hopen, hclose⟩ := depthNext?_kind k 0
  obtain ⟨-, -, hafter, hafter'⟩ := openNext?_kind k []
  have htext := depthAfter?_add h.1 1
  constructor
  · rw [depthAfter?, hopen, Option.bind_some, hafter, depthAfter?_append htext, h.2, depthAfter?, hclose]
    rfl
  · rw [quoteAfter_cons, hafter, quoteAfter_append, h.2, quoteAfter_cons, hafter', quoteAfter_nil]

lemma openAfter?_of_below (stack below : List BracketKind) {n : Nat}
    (h : openAfter? (stack ++ below) q text = some stack')
    (hdepth : depthAfter? stack.length q text = some n) :
    ∃ above, stack' = above ++ below ∧ openAfter? stack q text = some above := by
  induction text generalizing stack q with
  | nil => exact ⟨stack, (Option.some.inj h).symm, rfl⟩
  | cons c text ih =>
    obtain ⟨stack₁, hnext, htext⟩ := openAfter?_cons_eq_some_iff.1 h
    obtain ⟨n₁, hdepthNext, hdepthText⟩ := depthAfter?_cons_eq_some_iff.1 hdepth
    obtain ⟨above, rfl, habove⟩ :
        ∃ above, stack₁ = above ++ below ∧ openNext? stack q c = some above := by
      by_cases hq : q = .outside
      · subst hq
        rcases openNext?_cases hnext with ⟨rfl, hquote | ⟨-, hopen, hclose⟩⟩ | ⟨k, hopen, -, rfl⟩ |
          ⟨k, hclose, -, hopen, hstack⟩
        · exact ⟨stack, rfl, openNext?_of_isQuote hquote⟩
        · exact ⟨stack, rfl, openNext?_plain hopen hclose⟩
        · exact ⟨k :: stack, rfl, openNext?_opening hopen⟩
        · cases stack with
          | nil => simp [depthNext?_eq_none_iff.2 ⟨rfl, hopen, ⟨k, hclose⟩, rfl⟩] at hdepthNext
          | cons top stack =>
            obtain ⟨rfl, rfl⟩ := List.cons.inj hstack
            exact ⟨stack, rfl, openNext?_closing hopen hclose⟩
      · rw [openNext?_within hq, Option.some.injEq] at hnext
        exact ⟨stack, hnext.symm, openNext?_within hq c⟩
    obtain rfl : above.length = n₁ :=
      Option.some.inj ((depthNext?_of_openNext? habove).symm.trans hdepthNext)
    obtain ⟨above', hstack', hopen⟩ := ih above htext hdepthText
    exact ⟨above', hstack', openAfter?_cons_eq_some_iff.2 ⟨above, habove, hopen⟩⟩

lemma balanced_enclose_iff (k k' : BracketKind) (h : Level text) :
    balanced (k.opening :: (text ++ [k'.closing])) = true ↔ k = k' ∧ balanced text = true := by
  obtain ⟨hopening, -, hafter, -⟩ := openNext?_kind k []
  constructor
  · intro hbalanced
    rw [balanced, balancedFrom_eq_true_iff, openAfter?, hopening, Option.bind_some, hafter] at hbalanced
    obtain ⟨stack₁, hstack⟩ := exists_openAfter?_of_append hbalanced
    obtain ⟨above, rfl, habove⟩ := openAfter?_of_below [] [k] hstack h.1
    have hlength := (depthAfter?_of_openAfter? habove).symm.trans h.1
    obtain rfl := List.length_eq_zero_iff.1 (Option.some.inj hlength)
    rw [openAfter?_append hstack, h.2] at hbalanced
    refine ⟨?_, balancedFrom_eq_true_iff.2 habove⟩
    cases k <;> cases k' <;> first | rfl | cases hbalanced
  · rintro ⟨rfl, hbalanced⟩
    exact ((paired_of_balanced hbalanced h.2).enclose k).balanced_eq

end Bracket

namespace Coerce

variable {k : BracketKind} {cs r x : List Char}

/-- Where the partner of the inner one of two brackets is the last but one character, level text stands
between the two pairs. -/
lemma exists_enclosed_of_close? {rest front : List Char} (hfront : cs = k.opening :: k.opening :: rest)
    (hback : cs = front ++ [k.closing, k.closing]) (hlength : 4 ≤ cs.length)
    (hclose : Bracket.close? (cs.drop 1) = some (cs.length - 3)) :
    ∃ x, cs = enclosed k 2 x ∧ Bracket.Level x := by
  rw [hfront, List.drop_succ_cons, List.drop_zero] at hclose
  obtain ⟨x, k', y, rfl, hplace, hlevel⟩ := Bracket.close?_eq_some_iff.1 hclose
  have hy : y.length = 1 := by
    simp only [hfront, List.length_cons, List.length_append] at hplace hlength
    omega
  have hsame : k.opening :: k.opening :: x ++ k'.closing :: y = front ++ [k.closing, k.closing] := by
    rw [← hback, hfront]
    rfl
  obtain ⟨-, htail⟩ := List.append_inj' hsame (by simp [hy])
  exact ⟨x, by rw [hfront, htail]; simp [enclosed_succ], hlevel⟩

lemma inner_enclosed_succ (k : BracketKind) (n : Nat) (x : List Char) :
    inner (enclosed k (n + 1) x) = enclosed k n x := by
  rw [enclosed_succ, ← List.cons_append, inner_enclosed]

lemma unwrapDouble?_eq_some_iff : unwrapDouble? cs = some r ↔ ∃ k x,
    (k = BracketKind.curly ∨ k = BracketKind.square) ∧ cs = enclosed k 2 x ∧ Bracket.Level x ∧
      r = enclosed k 1 x := by
  constructor
  · intro h
    simp only [unwrapDouble?] at h
    split at h
    · next hc =>
      simp only [Bool.and_eq_true, Bool.or_eq_true, Option.isSome_iff_exists, Text.after?_eq_some_iff,
        Text.before?_eq_some_iff, beq_iff_eq, decide_eq_true_eq] at hc
      obtain ⟨⟨⟨hdoubled, hlength⟩, -⟩, hclose⟩ := hc
      have henclosed : ∃ k x, (k = BracketKind.curly ∨ k = BracketKind.square) ∧ cs = enclosed k 2 x ∧
          Bracket.Level x := by
        rcases hdoubled with ⟨⟨rest, hfront⟩, front, hback⟩ | ⟨⟨rest, hfront⟩, front, hback⟩
        · obtain ⟨x, hcs, hlevel⟩ := exists_enclosed_of_close? hfront hback hlength hclose
          exact ⟨.curly, x, .inl rfl, hcs, hlevel⟩
        · obtain ⟨x, hcs, hlevel⟩ := exists_enclosed_of_close? hfront hback hlength hclose
          exact ⟨.square, x, .inr rfl, hcs, hlevel⟩
      obtain ⟨k, x, hk, rfl, hlevel⟩ := henclosed
      exact ⟨k, x, hk, rfl, hlevel, by rw [← Option.some.inj h, inner_enclosed_succ]⟩
    · simp at h
  · rintro ⟨k, x, hk, rfl, hlevel, rfl⟩
    have hinner := (Bracket.close?_eq_some_iff (k := k)).2 ⟨x, k, [k.closing], rfl, rfl, hlevel⟩
    refine unwrapDouble?_of_close? hk ?_ hinner
    rw [enclosed_succ, enclosed_one]
    exact Bracket.close?_eq_some_iff.2 ⟨k.opening :: (x ++ [k.closing]), k, [], rfl, by simp,
      hlevel.enclose k⟩

/-- A brace and any closing bracket come off exactly from around text that is balanced, leaves no quote
open, is not blank and does not start like a field. -/
lemma unwrapBraces?_eq_some_iff : unwrapBraces? cs = some r ↔ ∃ (k : BracketKind) (x : List Char),
    cs = '\x7b' :: (x ++ [k.closing]) ∧ Bracket.balanced x = true ∧
      Bracket.quoteAfter .outside x = .outside ∧ r = trim x ∧ r ≠ [] ∧ hasKeyShape r = false := by
  have hshape : ∀ (k : BracketKind) (x : List Char),
      ('\x7b' :: (x ++ [k.closing])).length - 1 = x.length + 1 ∧
        inner ('\x7b' :: (x ++ [k.closing])) = x := fun k x =>
    ⟨by simp, inner_enclosed '\x7b' k.closing x⟩
  constructor
  · intro h
    simp only [unwrapBraces?] at h
    split at h
    · next hc =>
      simp only [Bool.and_eq_true, beq_iff_eq] at hc
      obtain ⟨rest, rfl⟩ := List.head?_eq_some_iff.1 hc.1
      obtain ⟨x, k, y, rfl, hplace, hlevel⟩ := (Bracket.close?_eq_some_iff (k := .curly)).1 hc.2
      obtain rfl : y = [] := by
        simp only [List.length_cons, List.length_append] at hplace
        exact List.length_eq_zero_iff.1 (by omega)
      rw [(hshape k x).2] at h
      split at h
      · simp at h
      · next hne =>
        simp only [Bool.or_eq_true, List.isEmpty_iff, Bool.not_eq_true', not_or, Bool.not_eq_true,
          Bool.not_eq_false, Bracket.balanced_trim] at hne
        cases h
        exact ⟨k, x, rfl, hne.2, hlevel.2, rfl, hne.1.1, hne.1.2⟩
    · simp at h
  · rintro ⟨k, x, rfl, hbalanced, hquote, rfl, hne, hkey⟩
    have hlevel := Bracket.level_of_balanced hbalanced hquote
    have hclose := (Bracket.close?_eq_some_iff (k := .curly)).2 ⟨x, k, [], rfl, rfl, hlevel⟩
    simp only [BracketKind.opening] at hclose
    simp only [unwrapBraces?, (hshape k x).1, (hshape k x).2, hclose, hkey, Bracket.balanced_trim, hbalanced,
      List.isEmpty_eq_false_iff.2 hne, List.head?_cons, beq_self_eq_true, Bool.and_self, Bool.or_self,
      Bool.not_true, if_true]
    rfl

/-- The text stands between braces, with white space around it. -/
def InBraces (cs r : List Char) : Prop :=
  ∃ a b, Blanks a ∧ Blanks b ∧ cs = '\x7b' :: (a ++ r ++ b ++ ['\x7d'])

/-- An opening brace comes off with the bracket at the end of the text, whatever its kind, and doubled
brackets come off whatever the kinds of those in between: what is in between need only be balanced in the
one case, and level in the other. Only where the whole text is balanced the brackets are genuine ones. -/
theorem unwrap_iff (cs r : List Char) :
    (unwrapBraces? cs = some r ↔ ∃ (k : BracketKind) (x : List Char),
      cs = '\x7b' :: (x ++ [k.closing]) ∧ Bracket.balanced x = true ∧
        Bracket.quoteAfter .outside x = .outside ∧ r = trim x ∧ r ≠ [] ∧ hasKeyShape r = false) ∧
    (unwrapBraces? cs = some r → (InBraces cs r ↔ Bracket.balanced cs = true)) ∧
    (unwrapDouble? cs = some r ↔ ∃ (k : BracketKind) (x : List Char),
      (k = .curly ∨ k = .square) ∧ cs = enclosed k 2 x ∧ Bracket.Level x ∧ r = enclosed k 1 x) ∧
    (unwrapDouble? cs = some r →
      r = inner cs ∧ (Bracket.balanced cs = true ↔ Bracket.balanced (inner r) = true)) := by
  refine ⟨unwrapBraces?_eq_some_iff, fun h => ?_, unwrapDouble?_eq_some_iff, fun h => ?_⟩
  · obtain ⟨k, x, rfl, hbalanced, hquote, rfl, -⟩ := unwrapBraces?_eq_some_iff.1 h
    have hiff := Bracket.balanced_enclose_iff .curly k (Bracket.level_of_balanced hbalanced hquote)
    refine Iff.trans ⟨?_, ?_⟩ hiff.symm
    · rintro ⟨a, b, -, -, heq⟩
      obtain ⟨-, hlast⟩ := List.append_inj' (List.cons.inj heq).2 rfl
      refine ⟨?_, hbalanced⟩
      cases k <;> first | rfl | simp [BracketKind.closing] at hlast
    · rintro ⟨rfl, -⟩
      obtain ⟨a, b, ha, hb, hx⟩ := Relaxed.exists_blanks_around x
      exact ⟨a, b, ha, hb, by rw [← hx]; rfl⟩
  · obtain ⟨k, x, -, rfl, hlevel, rfl⟩ := unwrapDouble?_eq_some_iff.1 h
    refine ⟨(inner_enclosed_succ k 1 x).symm, ?_⟩
    rw [inner_enclosed_succ, enclosed_zero, enclosed_succ, enclosed_one,
      Bracket.balanced_enclose_iff k k (hlevel.enclose k), Bracket.balanced_enclose_iff k k hlevel]
    simp

/-- A brace with a round bracket comes off, and so do doubled braces around brackets of two kinds. -/
theorem unwrap_other_kind :
    (unwrapBraces? "\x7ba)".toList = some "a".toList ∧ ¬ InBraces "\x7ba)".toList "a".toList) ∧
      value "\x7ba)".toList = .string "a" ∧
      unwrapDouble? "\x7b\x7b(]\x7d\x7d".toList = some "\x7b(]\x7d".toList ∧
      Bracket.balanced "\x7b\x7b(]\x7d\x7d".toList = false := by
  refine ⟨⟨by decide, ?_⟩, by decide +kernel, by decide, by decide⟩
  rintro ⟨a, b, -, -, heq⟩
  have hlast := congrArg List.getLast? heq
  rw [← List.cons_append, List.getLast?_concat] at hlast
  exact absurd hlast (by decide)

/-- Braces with a list, a quoted brace and white space in them, and doubled square brackets. -/
theorem unwrap_iff_genuine :
    (unwrapBraces? "\x7b ['\x7d', b]\t\x7d".toList = some "['\x7d', b]".toList ∧
      InBraces "\x7b ['\x7d', b]\t\x7d".toList "['\x7d', b]".toList) ∧
      unwrapDouble? "[[(a), b]]".toList = some (inner "[[(a), b]]".toList) ∧
      Bracket.balanced (inner (inner "[[(a), b]]".toList)) = true := by
  have hbraces : unwrapBraces? "\x7b ['\x7d', b]\t\x7d".toList = some "['\x7d', b]".toList := by decide
  have hdouble : unwrapDouble? "[[(a), b]]".toList = some "[(a), b]".toList := by decide
  obtain ⟨hinner, hbalanced⟩ := (unwrap_iff _ _).2.2.2 hdouble
  rw [hinner] at hbalanced hdouble
  exact ⟨⟨hbraces, ((unwrap_iff _ _).2.1 hbraces).2 (by decide)⟩, hdouble, hbalanced.1 (by decide)⟩

end Coerce

end CommentBlocks
