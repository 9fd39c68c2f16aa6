import CommentBlocks.Proofs.Value.Json

/-!
The reader of relaxed literals takes JSON texts for what they denote, unless a string in them writes a
character in two halves: then the whole text is no literal.
-/

namespace CommentBlocks

namespace Json

open Relaxed
open Unicode (isBlank)

/-! ### Texts without halves of characters -/

lemma Space.blanks {cs : List Char} (h : Space cs) : Blanks cs := by
  intro c hc
  have := h c hc
  simp only [List.mem_cons, List.not_mem_nil, or_false] at this
  rcases this with rfl | rfl | rfl | rfl <;> decide

lemma Digits.wordText {cs : List Char} (h : Digits cs) : Value.WordText cs :=
  Value.wordText_digits fun c hc => by rw [Numeral.isDigit_eq]; exact h.2 c hc

lemma IsNumber.wordText {cs : List Char} (h : IsNumber cs) : Value.WordText cs := by
  obtain ⟨minus, whole, fraction, exponent, rfl, hminus, hwhole, hfraction, hexponent⟩ := h
  refine .append ?_ (.append ?_ (.append ?_ ?_))
  · rcases hminus with rfl | rfl <;> decide
  · rcases hwhole with rfl | ⟨hwhole, -⟩
    · decide
    · exact hwhole.wordText
  · rcases hfraction with rfl | ⟨ds, rfl, hds⟩
    · decide
    · exact Value.WordText.append (a := ['.']) (by decide) hds.wordText
  · rcases hexponent with rfl | ⟨mark, sg, ds, rfl, hmark, hsg, hds⟩
    · decide
    · refine Value.WordText.append (a := [mark]) ?_ (.append ?_ hds.wordText)
      · rcases hmark with rfl | rfl <;> decide
      · rcases hsg with rfl | rfl | rfl <;> decide

lemma IsNumber.exists_cons {cs : List Char} (h : IsNumber cs) :
    ∃ c rest, cs = c :: rest ∧ (c = '-' ∨ c.isDigit = true) := by
  obtain ⟨minus, whole, fraction, exponent, rfl, hminus, hwhole, -, -⟩ := h
  rcases hminus with rfl | rfl
  · rcases hwhole with rfl | ⟨⟨hne, hdigits⟩, -⟩
    · exact ⟨'0', _, rfl, .inr rfl⟩
    · obtain ⟨d, ds, rfl⟩ := List.exists_cons_of_ne_nil hne
      exact ⟨d, _, rfl, .inr (hdigits d List.mem_cons_self)⟩
  · exact ⟨'-', _, rfl, .inl rfl⟩

lemma IsNumber.wordValue {cs : List Char} (h : IsNumber cs) :
    wordValue cs = (Numeral.value? cs).getD (.string (String.ofList cs)) := by
  obtain ⟨c, rest, rfl, hc⟩ := h.exists_cons
  have hne : ∀ d, (d = '-' ∨ d.isDigit = true → False) → ∀ ds, c :: rest ≠ d :: ds := by
    rintro d hd ds heq
    exact hd ((List.cons.inj heq).1 ▸ hc)
  have htrue : c :: rest ≠ "true".toList := hne 't' (by decide) _
  have hfalse : c :: rest ≠ "false".toList := hne 'f' (by decide) _
  have hnull : c :: rest ≠ "null".toList := hne 'n' (by decide) _
  have hundefined : c :: rest ≠ "undefined".toList := hne 'u' (by decide) _
  simp only [Relaxed.wordValue, htrue, hfalse, hnull, hundefined, or_self, if_false]

def Part.strings : Part → List (List Piece)
  | value j => j.strings
  | items js => stringsOfItems js
  | members ms => stringsOfMembers ms

def Part.Plain (part : Part) : Prop := ∀ s ∈ part.strings, ∀ p ∈ s, p.isSurrogate = false

lemma namesSurrogate_eq_false {j : Json} : j.namesSurrogate = false ↔ (Part.value j).Plain := by
  simp [namesSurrogate, Part.Plain, Part.strings]

/-- The grammar of relaxed literals derives the text for what it denotes. -/
def Part.Derived : Part → List Char → Prop
  | value j, text => ∃ v, j.value? = some v ∧
      (∀ holder, Derives .reader (.element holder v) text) ∧
      (j.isWord = false → Derives .reader (.literal v) text)
  | items js, text => ∃ vs, values? js = some vs ∧ Derives .reader (.items vs) text
  | members ms, text => ∃ es, entries? ms = some es ∧ Derives .reader (.fields es) text

lemma Part.Derived.of_literal {j : Json} {v : Value} {text : List Char} (hv : j.value? = some v)
    (h : Derives .reader (.literal v) text) : (Part.value j).Derived text :=
  ⟨v, hv, fun _ => .nested h, fun _ => h⟩

lemma Part.Derived.of_word {j : Json} {v : Value} {text : List Char} (hj : j.isWord = true)
    (hv : j.value? = some v) (hne : text ≠ []) (hword : Value.WordText text)
    (h : Relaxed.wordValue text = v) : (Part.value j).Derived text :=
  ⟨v, hv, fun _ => .word ⟨isBareWord_of_wordText hne hword, h⟩, by simp [hj]⟩

lemma names_quoted {name : List Piece} {cs : List Char}
    (h : Spells '"' (name.flatMap Piece.text) cs) :
    Names .reader (String.ofList cs) (quoted name) :=
  .quoted rfl h

/-- Without halves of characters every text is derived for what it denotes. -/
theorem Written.derived {part : Part} {text : List Char} (h : Written part text)
    (hplain : part.Plain) : part.Derived text := by
  induction h with
  | null => exact .of_word rfl rfl (by decide) (by decide) (by decide)
  | yes => exact .of_word rfl rfl (by decide) (by decide) (by decide)
  | no => exact .of_word rfl rfl (by decide) (by decide) (by decide)
  | number h =>
    obtain ⟨c, rest, hcons, -⟩ := h.exists_cons
    exact .of_word rfl rfl (by simp [hcons]) h.wordText h.wordValue
  | @string s h =>
    obtain ⟨cs, hcs, hspells⟩ := exists_denoted h (hplain s (by simp [Part.strings, strings]))
    exact .of_literal (by simp only [value?, hcs, Option.map_some]) (.string rfl hspells)
  | noItems ha => exact .of_literal rfl (.array (.noItems ha.blanks))
  | array _ ih =>
    obtain ⟨vs, hvs, hderives⟩ := ih hplain
    exact .of_literal (by simp only [value?, hvs, Option.map_some]) (.array hderives)
  | lastItem ha _ hb ih =>
    obtain ⟨v, hv, hderives, -⟩ := ih (by simpa [Part.Plain, Part.strings, stringsOfItems] using hplain)
    exact ⟨[v], by simp [values?, hv], .lastItem ha.blanks (hderives .array) hb.blanks⟩
  | item ha _ hb _ ih ihmore =>
    simp only [Part.Plain, Part.strings, stringsOfItems, List.forall_mem_append] at hplain
    obtain ⟨v, hv, hderives, -⟩ := ih hplain.1
    obtain ⟨vs, hvs, hmore⟩ := ihmore hplain.2
    exact ⟨v :: vs, by simp [values?, hv, hvs],
      .item ha.blanks (hderives .array) hb.blanks hmore⟩
  | noMembers ha => exact .of_literal rfl (.object (.noFields ha.blanks) (Fields.collects_ofList []))
  | object _ ih =>
    obtain ⟨es, hes, hderives⟩ := ih hplain
    exact .of_literal (by simp only [value?, hes, Option.map_some])
      (.object hderives (Fields.collects_ofList es))
  | lastMember ha hname hb hc _ hd ih =>
    simp only [Part.Plain, Part.strings, stringsOfMembers, List.append_nil, List.forall_mem_cons] at hplain
    obtain ⟨cs, hcs, hspells⟩ := exists_denoted hname hplain.1
    obtain ⟨v, hv, hderives, -⟩ := ih hplain.2
    exact ⟨_, by simp [entries?, hcs, hv], .lastField ha.blanks (names_quoted hspells) hb.blanks
      hc.blanks (hderives .object) hd.blanks⟩
  | member ha hname hb hc _ hd _ ih ihmore =>
    simp only [Part.Plain, Part.strings, stringsOfMembers, List.forall_mem_cons, List.forall_mem_append] at hplain
    obtain ⟨cs, hcs, hspells⟩ := exists_denoted hname hplain.1
    obtain ⟨v, hv, hderives, -⟩ := ih hplain.2.1
    obtain ⟨es, hes, hmore⟩ := ihmore hplain.2.2
    exact ⟨_, by simp [entries?, hcs, hv, hes], .field ha.blanks (names_quoted hspells) hb.blanks
      hc.blanks (hderives .object) hd.blanks hmore⟩

/-! ### Texts with halves of characters -/

/-- With fuel for the length of the text, the reader of the part gives nothing. -/
def Part.Refused : Part → List Char → Prop
  | value _, text => ∀ ⦃fuel : Nat⦄ ⦃holder : Holder⦄ ⦃rest : List Char⦄, 2 * text.length ≤ fuel →
      element? fuel holder (text ++ rest) = none
  | items _, text => ∀ ⦃fuel : Nat⦄ ⦃rest : List Char⦄, 2 * text.length + 1 ≤ fuel →
      Relaxed.items? fuel (text ++ ']' :: rest) = none
  | members _, text => ∀ ⦃fuel : Nat⦄ ⦃found : Fields⦄ ⦃rest : List Char⦄,
      2 * text.length + 1 ≤ fuel → fields? fuel found (text ++ '\x7d' :: rest) = none

lemma Written.exists_cons {j : Json} {text : List Char} (h : Written (.value j) text) :
    ∃ c cs, text = c :: cs ∧ isBlank c = false ∧ c ≠ ']' := by
  cases h with
  | null => exact ⟨'n', _, rfl, by decide⟩
  | yes => exact ⟨'t', _, rfl, by decide⟩
  | no => exact ⟨'f', _, rfl, by decide⟩
  | number h =>
    obtain ⟨c, rest, rfl, -⟩ := h.exists_cons
    have hword := h.wordText c List.mem_cons_self
    exact ⟨c, rest, rfl, Value.not_isBlank_of_isWordChar hword, Value.ne_of_isWordChar hword rfl⟩
  | string _ => exact ⟨'"', _, rfl, by decide⟩
  | noItems _ | array _ => exact ⟨'[', _, rfl, by decide⟩
  | noMembers _ | object _ => exact ⟨'\x7b', _, rfl, by decide⟩

lemma refused_string {s : List Piece} (h : ∀ p ∈ s, p.Valid)
    (hs : s.any Piece.isSurrogate = true) : (Part.value (.string s)).Refused (quoted s) := by
  intro fuel holder rest hfuel
  obtain ⟨fuel, rfl⟩ : ∃ n, fuel = n + 1 := ⟨fuel - 1, by simp [quoted] at hfuel; omega⟩
  have hbody := stringBody?_eq_none h hs ('"' :: rest)
  simp only [quoted, List.cons_append, List.append_assoc, List.nil_append, element?,
    skipBlank_eq_self (show isBlank '"' = false by decide), quoted?, hbody]
  rfl

/-- A name with half of a character ends the reading of fields. -/
lemma fields?_of_name {fuel : Nat} {found : Fields} {a rest : List Char} {name : List Piece}
    (ha : Space a) (h : ∀ p ∈ name, p.Valid) (hname : name.any Piece.isSurrogate = true) :
    fields? (fuel + 1) found (a ++ (quoted name ++ rest)) = none := by
  have hkey : key? (quoted name ++ rest) = none := by
    have hbody := stringBody?_eq_none h hname ('"' :: rest)
    simp only [quoted, List.cons_append, List.append_assoc, List.nil_append, key?, quoted?, hbody]
    rfl
  have hskip : skipBlank (quoted name ++ rest) = quoted name ++ rest := skipBlank_eq_self (by decide)
  simp only [fields?, skipBlank_append ha.blanks, hskip]
  split
  · rfl
  · next heq => simp [quoted] at heq
  · simp only [hkey]

theorem Written.refused {part : Part} {text : List Char} (h : Written part text)
    (hplain : ¬ part.Plain) : part.Refused text := by
  induction h with
  | null | yes | no | number _ | noItems _ | noMembers _ =>
    simp [Part.Plain, Part.strings, strings, stringsOfItems, stringsOfMembers] at hplain
  | string h => exact refused_string h (by simpa [Part.Plain, Part.strings, strings] using hplain)
  | array _ ih =>
    intro fuel holder rest hfuel
    simp only [List.length_cons, List.length_append, List.length_nil] at hfuel
    obtain ⟨fuel, rfl⟩ : ∃ n, fuel = n + 1 := ⟨fuel - 1, by omega⟩
    have hread := @ih hplain fuel rest (by omega)
    simp only [List.cons_append, List.append_assoc, List.nil_append, element?,
      skipBlank_eq_self (show isBlank '[' = false by decide), hread]
    rfl
  | object _ ih =>
    intro fuel holder rest hfuel
    simp only [List.length_cons, List.length_append, List.length_nil] at hfuel
    obtain ⟨fuel, rfl⟩ : ∃ n, fuel = n + 1 := ⟨fuel - 1, by omega⟩
    have hread := @ih hplain fuel [] rest (by omega)
    simp only [List.cons_append, List.append_assoc, List.nil_append, element?,
      skipBlank_eq_self (show isBlank '\x7b' = false by decide), hread]
    rfl
  | lastItem ha h hb ih =>
    intro fuel rest hfuel
    simp only [List.length_append] at hfuel
    obtain ⟨fuel, rfl⟩ : ∃ n, fuel = n + 1 := ⟨fuel - 1, by omega⟩
    have hread := ih (by simpa [Part.Plain, Part.strings, stringsOfItems] using hplain)
    obtain ⟨c, cs, rfl, hblank, hc⟩ := h.exists_cons
    simp only [List.append_assoc, List.cons_append]
    rw [items?_start ha.blanks hblank hc, ← List.cons_append, hread (by omega)]
  | @item j js a text b more ha h hb hmore ih ihmore =>
    intro fuel rest hfuel
    simp only [List.length_append, List.length_cons] at hfuel
    obtain ⟨fuel, rfl⟩ : ∃ n, fuel = n + 1 := ⟨fuel - 1, by omega⟩
    simp only [List.append_assoc, List.cons_append]
    by_cases hj : (Part.value j).Plain
    · -- the first item is read, so that the fault is in a later one
      have hjs : ¬ (Part.items js).Plain := fun hjs => hplain <| by
        simpa only [Part.Plain, Part.strings, stringsOfItems, List.forall_mem_append] using ⟨hj, hjs⟩
      obtain ⟨v, -, hderives, -⟩ := h.derived hj
      rw [items?_first ha.blanks (hderives .array) (hderives .array).reads hb.blanks rfl (by omega)]
      simp only [ihmore hjs (show _ ≤ fuel by omega), Option.map_none]
    · obtain ⟨c, cs, rfl, hblank, hc⟩ := h.exists_cons
      rw [List.cons_append, items?_start ha.blanks hblank hc, ← List.cons_append,
        ih hj (by omega)]
  | @lastMember name j a b c text d ha hname hb hc h hd ih =>
    intro fuel found rest hfuel
    simp only [List.length_append, List.length_cons] at hfuel
    obtain ⟨fuel, rfl⟩ : ∃ n, fuel = n + 1 := ⟨fuel - 1, by omega⟩
    simp only [List.append_assoc, List.cons_append]
    by_cases hs : name.any Piece.isSurrogate = true
    · exact fields?_of_name ha hname hs
    · have hname' : ∀ p ∈ name, p.isSurrogate = false := by simpa using hs
      have hj : ¬ (Part.value j).Plain := fun hj => hplain <| by
        simpa only [Part.Plain, Part.strings, stringsOfMembers, List.append_nil,
          List.forall_mem_cons] using ⟨hname', hj⟩
      -- the name is read, so that the fault is in its value
      obtain ⟨cs, -, hspells⟩ := exists_denoted hname hname'
      rw [fields?_start ha.blanks (names_quoted hspells) hb.blanks, element?_append hc.blanks,
        ih hj (by omega)]
  | @member name j ms a b c text d more ha hname hb hc h hd hmore ih ihmore =>
    intro fuel found rest hfuel
    simp only [List.length_append, List.length_cons] at hfuel
    obtain ⟨fuel, rfl⟩ : ∃ n, fuel = n + 1 := ⟨fuel - 1, by omega⟩
    simp only [List.append_assoc, List.cons_append]
    by_cases hs : name.any Piece.isSurrogate = true
    · exact fields?_of_name ha hname hs
    · have hname' : ∀ p ∈ name, p.isSurrogate = false := by simpa using hs
      -- the name is read, so that the fault is in its value or in a later member
      obtain ⟨cs, -, hspells⟩ := exists_denoted hname hname'
      by_cases hj : (Part.value j).Plain
      · have hms : ¬ (Part.members ms).Plain := fun hms => hplain <| by
          simpa only [Part.Plain, Part.strings, stringsOfMembers, List.forall_mem_cons,
            List.forall_mem_append] using ⟨hname', hj, hms⟩
        obtain ⟨v, -, hderives, -⟩ := h.derived hj
        rw [fields?_first ha.blanks (names_quoted hspells) hb.blanks hc.blanks
          (hderives .object).reads hd.blanks rfl (by omega)]
        simp only [ihmore hms (show _ ≤ fuel by omega)]
      · rw [fields?_start ha.blanks (names_quoted hspells) hb.blanks, element?_append hc.blanks,
          ih hj (by omega)]

end Json

namespace Relaxed

open Json (IsText Space)

/-- A JSON text whose top level is an object, an array or a string is a literal for what it denotes,
but for halves of characters: with one of them in a string or name the text is no literal. -/
theorem literal?_json {j : Json} {text : List Char} (h : IsText j text) (htop : j.isWord = false) :
    if j.namesSurrogate then literal? text = none
    else ∃ v, j.value? = some v ∧ literal? text = some v := by
  obtain ⟨a, core, b, rfl, ha, hb, hwritten⟩ := h
  split
  · next hs =>
    have hplain : ¬ (Json.Part.value j).Plain := fun hplain => by
      simp [Json.namesSurrogate_eq_false.2 hplain] at hs
    have hrefused := hwritten.refused hplain
    obtain ⟨c, cs, rfl, hblank, -⟩ := hwritten.exists_cons
    have hread : element? (2 * (a ++ (c :: cs ++ b)).length + 2) .array (c :: (cs ++ b)) = none :=
      hrefused (by simp only [List.length_append]; omega)
    have hskip : skipBlank (a ++ (c :: cs ++ b)) = c :: (cs ++ b) := by
      rw [skipBlank_append ha.blanks, List.cons_append, skipBlank_eq_self hblank]
    simp only [literal?, hskip, hread, ite_self]
  · next hs =>
    have hplain := Json.namesSurrogate_eq_false.1 (Bool.eq_false_iff.2 hs)
    obtain ⟨v, hv, -, hderives⟩ := hwritten.derived hplain
    exact ⟨v, hv, literal?_eq_some_iff.2 ⟨a, core, b, rfl, ha.blanks, hb.blanks, hderives htop⟩⟩

/-- Escapes of both kinds stand for their characters. -/
theorem literal?_json_escapes :
    literal? "[ \"\\u00e9\\/\", 12 ]".toList = some (.array [.string "\u00e9/", .int 12]) := by
  have hnone : Space [] := by simp [Space]
  have hone : Space [' '] := by simp [Space]
  have hstring : ∀ p ∈ [Json.Piece.code '0' '0' 'e' '9', .short '/'], p.Valid := by
    exact List.forall_mem_cons.2 ⟨List.all_eq_true.1 (by decide), List.forall_mem_singleton.2 rfl⟩
  have hdigits : Json.Digits ['1', '2'] := ⟨by simp, List.all_eq_true.1 (by decide)⟩
  have hnumber : Json.IsNumber ['1', '2'] :=
    ⟨[], ['1', '2'], [], [], rfl, .inl rfl, .inr ⟨hdigits, by decide⟩, .inl rfl, .inl rfl⟩
  have htext : IsText (.array [.string [.code '0' '0' 'e' '9', .short '/'], .number ['1', '2']])
      "[ \"\\u00e9\\/\", 12 ]".toList :=
    ⟨[], _, [], rfl, hnone, hnone,
      .array (.item hone (.string hstring) hnone (.lastItem hone (.number hnumber) hone))⟩
  have h := literal?_json htext rfl
  rw [if_neg (by decide)] at h
  obtain ⟨v, hv, hread⟩ := h
  rw [hread, ← hv]
  decide +kernel

/-- A character beyond 16 bits is lost where JSON writes it in two halves. -/
theorem literal?_json_pair :
    IsText (.string [.code 'd' '8' '3' 'd', .code 'd' 'e' '0' '0']) "\"\\ud83d\\ude00\"".toList ∧
      Json.value? (.string [.code 'd' '8' '3' 'd', .code 'd' 'e' '0' '0']) = some (.string "😀") ∧
      literal? "\"\\ud83d\\ude00\"".toList = none := by
  have hnone : Space [] := by simp [Space]
  have hvalid : ∀ p ∈ [Json.Piece.code 'd' '8' '3' 'd', .code 'd' 'e' '0' '0'], p.Valid := by
    exact List.forall_mem_cons.2
      ⟨List.all_eq_true.1 (by decide), List.forall_mem_singleton.2 (List.all_eq_true.1 (by decide))⟩
  exact ⟨⟨[], _, [], rfl, hnone, hnone, .string hvalid⟩, by decide +kernel, by decide +kernel⟩

end Relaxed

end CommentBlocks
