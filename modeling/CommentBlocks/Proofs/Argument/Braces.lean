import CommentBlocks.Proofs.Argument.Coercing

/-!
An object whose first key does not look like one in its text loses its braces: the brackets of a printed
value are in pairs, so its braces enclose the whole text, and what is left of it is a string.
-/

namespace CommentBlocks

open Value (escaped quoted print printItems printFields WordText)
open Text (isQuote)

namespace Bracket

/-- Brackets and quotes are in pairs, so that what looks for the partner of a bracket in front passes
over the text. -/
structure Paired (text : List Char) : Prop where
  balanced : ∀ stack rest,
    balancedFrom stack .outside (text ++ rest) = balancedFrom stack .outside rest
  close : ∀ place depth rest, closeFrom? place (depth + 1) .outside (text ++ rest) =
    closeFrom? (place + text.length) (depth + 1) .outside rest

lemma Paired.balanced_eq {text : List Char} (h : Paired text) : Bracket.balanced text = true := by
  have hbalanced := h.balanced [] []
  rw [List.append_nil] at hbalanced
  exact hbalanced

lemma paired_nil : Paired [] := ⟨fun _ _ => rfl, fun _ _ _ => rfl⟩

lemma Paired.append {a b : List Char} (ha : Paired a) (hb : Paired b) : Paired (a ++ b) where
  balanced := by
    intro stack rest
    rw [List.append_assoc, ha.balanced, hb.balanced]
  close := by
    intro place depth rest
    rw [List.append_assoc, ha.close, hb.close, List.length_append, Nat.add_assoc]

lemma paired_char {c : Char} (hquote : isQuote c = false) (hopen : BracketKind.ofOpening? c = none)
    (hclose : BracketKind.ofClosing? c = none) : Paired [c] where
  balanced := by
    intro stack rest
    simp only [List.singleton_append, balancedFrom, hquote, hopen, hclose, Bool.false_eq_true, if_false]
  close := by
    intro place depth rest
    simp only [List.singleton_append, closeFrom?, hquote, hopen, hclose, Bool.false_eq_true,
      Option.isSome_none, if_false, List.length_singleton]

lemma paired_word {text : List Char} (h : WordText text) : Paired text := by
  induction text with
  | nil => exact paired_nil
  | cons c cs ih =>
    obtain ⟨hquote, hopen, hclose⟩ := Value.plain_of_isWordChar (h c (by simp))
    exact (paired_char hquote hopen hclose).append (ih fun d hd => h d (List.mem_cons_of_mem _ hd))

lemma Paired.enclose {text : List Char} (h : Paired text) (k : BracketKind) :
    Paired (k.opening :: text ++ [k.closing]) := by
  have hopening : isQuote k.opening = false ∧ BracketKind.ofOpening? k.opening = some k := by
    cases k <;> decide
  have hclosing : isQuote k.closing = false ∧ BracketKind.ofOpening? k.closing = none ∧
      BracketKind.ofClosing? k.closing = some k := by
    cases k <;> decide
  have htext : ∀ rest, k.opening :: text ++ [k.closing] ++ rest =
      k.opening :: (text ++ k.closing :: rest) := by simp
  constructor
  · intro stack rest
    simp only [htext, balancedFrom, hopening, h.balanced, hclosing, Bool.false_eq_true, if_false,
      if_true]
  · intro place depth rest
    simp only [htext, closeFrom?, hopening, h.close, hclosing, Bool.false_eq_true, Option.isSome_some,
      Option.isSome_none, if_false, if_true]
    simp
    congr 1
    omega

lemma inside_escaped (c : Char) :
    (∀ stack rest, balancedFrom stack (.inside '"') (escaped c ++ rest) =
      balancedFrom stack (.inside '"') rest) ∧
    ∀ place depth rest, closeFrom? place depth (.inside '"') (escaped c ++ rest) =
      closeFrom? (place + (escaped c).length) depth (.inside '"') rest := by
  have htail : ∀ tail : List Char, (∀ e ∈ tail, e ≠ '"' ∧ e ≠ '\\' ∧ e ≠ '\n') →
      (∀ stack rest, balancedFrom stack (.inside '"') (tail ++ rest) =
        balancedFrom stack (.inside '"') rest) ∧
      ∀ place depth rest, closeFrom? place depth (.inside '"') (tail ++ rest) =
        closeFrom? (place + tail.length) depth (.inside '"') rest := by
    intro tail
    induction tail with
    | nil => exact fun _ => ⟨fun _ _ => rfl, fun _ _ _ => rfl⟩
    | cons e tail ih =>
      intro hplains
      obtain ⟨hquote, hslash, -⟩ := hplains e (by simp)
      obtain ⟨ihbalanced, ihclose⟩ := ih fun d hd => hplains d (List.mem_cons_of_mem _ hd)
      have hwithin : QuoteState.within '"' e = .inside '"' := by
        simp [QuoteState.within, hquote, hslash]
      refine ⟨fun stack rest => ?_, fun place depth rest => ?_⟩
      · rw [List.cons_append, balancedFrom, hwithin, ihbalanced]
      · rw [List.cons_append, closeFrom?, hwithin, ihclose, List.length_cons]
        congr 1
        omega
  rcases Value.escaped_cases c with ⟨d, tail, heq, -, -, hplains⟩ | ⟨heq, hquote, hslash, hline⟩
  · obtain ⟨hbalanced, hclose⟩ := htail tail hplains
    have hwithin : QuoteState.within '"' '\\' = .escaped '"' := rfl
    refine ⟨fun stack rest => ?_, fun place depth rest => ?_⟩
    · simp only [heq, List.cons_append, balancedFrom, hwithin, hbalanced]
    · simp only [heq, List.cons_append, closeFrom?, hwithin, hclose, List.length_cons]
      congr 1
      omega
  · rw [heq]
    exact htail [c] (by simp [hquote, hslash, hline])

lemma paired_quoted (s : String) : Paired (quoted s) := by
  have hbody : ∀ cs : List Char,
      (∀ stack rest, balancedFrom stack (.inside '"') (cs.flatMap escaped ++ '"' :: rest) =
        balancedFrom stack .outside rest) ∧
      ∀ place depth rest, closeFrom? place depth (.inside '"') (cs.flatMap escaped ++ '"' :: rest) =
        closeFrom? (place + (cs.flatMap escaped).length + 1) depth .outside rest := by
    intro cs
    induction cs with
    | nil => exact ⟨fun _ _ => rfl, fun _ _ _ => rfl⟩
    | cons c cs ih =>
      obtain ⟨hbalanced, hclose⟩ := inside_escaped c
      refine ⟨fun stack rest => ?_, fun place depth rest => ?_⟩
      · rw [List.flatMap_cons, List.append_assoc, hbalanced, ih.1]
      · rw [List.flatMap_cons, List.append_assoc, hclose, ih.2, List.length_append]
        congr 1
        omega
  obtain ⟨hbalanced, hclose⟩ := hbody s.toList
  have hquote : isQuote '"' = true := rfl
  have htext : ∀ rest, quoted s ++ rest = '"' :: (s.toList.flatMap escaped ++ '"' :: rest) := by
    simp [quoted]
  constructor
  · intro stack rest
    simp only [htext, balancedFrom, hquote, if_true, hbalanced]
  · intro place depth rest
    simp only [htext, closeFrom?, hquote, if_true, hclose]
    simp [quoted]
    congr 1
    omega

lemma paired_mark {c : Char} (hc : c = ',' ∨ c = ':') : Paired [c] := by
  rcases hc with rfl | rfl
  · exact paired_char rfl rfl rfl
  · exact paired_char rfl rfl rfl

mutual

theorem paired_print : ∀ v : Value, Paired (print v)
  | .null => paired_word (by decide)
  | .bool true => paired_word (by decide)
  | .bool false => paired_word (by decide)
  | .int i => paired_word (Value.wordText_scalarText (v := .int i) rfl)
  | .float x => paired_word (Value.wordText_scalarText (v := .float x) rfl)
  | .string s => paired_quoted s
  | .array items => (paired_printItems items).enclose .square
  | .object fields => (paired_printFields fields).enclose .curly

theorem paired_printItems : ∀ items : List Value, Paired (printItems items)
  | [] => paired_nil
  | [v] => paired_print v
  | v :: w :: vs => (paired_print v).append ((paired_mark (.inl rfl)).append
      (paired_printItems (w :: vs)))

theorem paired_printFields : ∀ fields : List (String × Value), Paired (printFields fields)
  | [] => paired_nil
  | [(k, v)] => (paired_quoted k).append ((paired_mark (.inr rfl)).append (paired_print v))
  | (k, v) :: f :: fs => by
    have hfield := (paired_quoted k).append ((paired_mark (.inr rfl)).append (paired_print v))
    have hall := hfield.append ((paired_mark (.inl rfl)).append (paired_printFields (f :: fs)))
    simpa [printFields] using hall

end

lemma close?_object (fields : Fields) :
    close? (print (.object fields)) = some ((print (.object fields)).length - 1) := by
  have hclose := (paired_printFields fields).close 1 0 ['\x7d']
  have htext : print (.object fields) = '\x7b' :: (printFields fields ++ ['\x7d']) := rfl
  have hlength : (print (.object fields)).length - 1 = 1 + (printFields fields).length := by
    simp [htext, Nat.add_comm]
  rw [hlength]
  exact hclose

lemma balanced_printFields (fields : Fields) : balanced (printFields fields) = true :=
  (paired_printFields fields).balanced_eq

end Bracket

namespace Coerce

open Options (valueText)

lemma value_of_quote {cs : List Char} (htrim : Text.trim ('"' :: cs) = '"' :: cs)
    (htidy : tidy ('"' :: cs) = '"' :: cs) : ∃ s, value ('"' :: cs) = .string s := by
  have hk : keyword? (tidy ('"' :: cs)) = none := by
    rw [htidy]
    exact keyword?_of_opens rfl cs
  have hn : Numeral.value? (tidy ('"' :: cs)) = none := by
    rw [htidy]
    exact number?_of_opens rfl htrim
  have hd : unwrapDouble? (tidy ('"' :: cs)) = none := by
    rw [htidy]
    simp [unwrapDouble?, Text.after?, BracketKind.opening]
  have hb : unwrapBraces? (tidy ('"' :: cs)) = none := by
    rw [htidy]
    simp [unwrapBraces?]
  cases hl : Relaxed.literal? (tidy ('"' :: cs)) with
  | some v =>
    refine (?_ : ∃ s, v = .string s).imp fun s hs => (value_of_literal hk hn hd hb hl).trans hs
    rw [htidy] at hl
    have hskip : Relaxed.skipBlank ('"' :: cs) = '"' :: cs := Relaxed.skipBlank_eq_self rfl
    have hquote : isQuote '"' = true := rfl
    simp only [Relaxed.literal?, hskip, hquote, or_true, if_true] at hl
    split at hl
    · next w rest hread =>
      rw [Relaxed.element?] at hread
      simp only [hskip, hquote, if_true, show '"' ≠ '\x7b' by decide, show '"' ≠ '[' by decide,
        if_false] at hread
      obtain ⟨⟨s, tail⟩, -, hs⟩ := Option.map_eq_some_iff.1 hread
      split at hl
      · cases hl
        exact ⟨s, (congrArg Prod.fst hs).symm⟩
      · simp at hl
    · simp at hl
  | none =>
    rcases value_of_rest hk hn hd hb hl with hs | ⟨items, hitems, -⟩
    · exact hs
    · rw [htidy] at hitems
      simp [listItems?, Text.after?] at hitems

/-- The braces of an object come off where its first key does not look like one. -/
theorem exists_value_eq_string {v : Value} (h : keepsBraces v = false) :
    ∃ s, value (valueText v) = .string s := by
  match v, h with
  | .object (f :: fs), h =>
    obtain ⟨cs, hcs⟩ := exists_printFields_eq_cons f fs
    have hword : (Value.object (f :: fs)).isWord = false := rfl
    have hinner : inner (print (.object (f :: fs))) = printFields (f :: fs) :=
      inner_enclosed '\x7b' '\x7d' _
    have hbraces : unwrapBraces? (print (.object (f :: fs))) = some (printFields (f :: fs)) := by
      have hhead : (print (.object (f :: fs))).head? = some '\x7b' := rfl
      have hshape : hasKeyShape (printFields (f :: fs)) = false := h
      have hempty : (printFields (f :: fs)).isEmpty = false := by rw [hcs]; rfl
      simp only [unwrapBraces?, hhead, Bracket.close?_object, hinner, trim_printFields, hempty, hshape,
        Bracket.balanced_printFields, beq_self_eq_true, Bool.and_self, Bool.not_true, Bool.or_self,
        Bool.false_eq_true, if_true, if_false]
    have htidy := tidy_valueText (.object (f :: fs))
    have hopens : opens '\x7b' = true := rfl
    have hvalue : value (valueText (.object (f :: fs))) = value (printFields (f :: fs)) := by
      refine value_of_braces ?_ ?_ ?_ ?_
      · rw [htidy]; exact keyword?_of_opens hopens _
      · rw [htidy]; exact number?_of_opens hopens (trim_valueText (.object (f :: fs)))
      · rw [htidy]; exact unwrapDouble?_valueText hword
      · rw [htidy]; exact hbraces
    have htrim := trim_printFields (f :: fs)
    have hbody := tidy_eq_self htrim (endsValue_of_printFields (f :: fs))
    rw [hvalue, hcs]
    rw [hcs] at htrim hbody
    exact value_of_quote htrim hbody

end Coerce

end CommentBlocks
