import CommentBlocks.Proofs.Value.Numerals
import CommentBlocks.Proofs.Value.Storable

/-!
The text of a value is read back as the same value by the reader of relaxed literals.
-/

namespace CommentBlocks

namespace Value

open Unicode (isBlank)
open Numeral (written)

/-! ### Words -/

def isWord : Value → Bool
  | null | bool _ | int _ | float _ => true
  | string _ | array _ | object _ => false

def isWordChar (c : Char) : Bool := c.isAlphanum || c == '-' || c == '+' || c == '.'

lemma ne_of_isWordChar {c d : Char} (h : isWordChar c = true) (hd : isWordChar d = false) :
    c ≠ d := by
  rintro rfl
  simp [h] at hd

lemma toNat_of_isAlphanum {c : Char} (h : c.isAlphanum = true) : 48 ≤ c.toNat ∧ c.toNat ≤ 122 := by
  delta Char.isAlphanum Char.isAlpha Char.isUpper Char.isLower Char.isDigit at h
  simp only [Bool.or_eq_true, Bool.and_eq_true, decide_eq_true_eq, UInt32.le_iff_toNat_le,
    ge_iff_le] at h
  have : c.toNat = c.val.toNat := rfl
  simp at h
  omega

lemma not_isBlank_of_isWordChar {c : Char} (h : isWordChar c = true) : isBlank c = false := by
  simp only [isWordChar, Bool.or_eq_true, beq_iff_eq] at h
  rcases h with ((h | rfl) | rfl) | rfl
  · have := toNat_of_isAlphanum h
    exact Text.not_isBlank_of_ascii (by omega) (by omega)
  · decide
  · decide
  · decide

lemma plain_of_isWordChar {c : Char} (h : isWordChar c = true) :
    Text.isQuote c = false ∧ BracketKind.ofOpening? c = none ∧ BracketKind.ofClosing? c = none := by
  have hne : ∀ d, isWordChar d = false → c ≠ d := fun d hd => ne_of_isWordChar h hd
  refine ⟨?_, ?_, ?_⟩
  · simp [Text.isQuote, hne '"' rfl, hne '\'' rfl, hne '\x60' rfl]
  · simp [BracketKind.ofOpening?, hne '(' rfl, hne '[' rfl, hne '\x7b' rfl]
  · simp [BracketKind.ofClosing?, hne ')' rfl, hne ']' rfl, hne '\x7d' rfl]

def WordText (cs : List Char) : Prop := ∀ c ∈ cs, isWordChar c = true

instance (cs : List Char) : Decidable (WordText cs) :=
  decidable_of_iff (cs.all isWordChar = true) List.all_eq_true

lemma WordText.append {a b : List Char} (ha : WordText a) (hb : WordText b) : WordText (a ++ b) :=
  fun c hc => (List.mem_append.1 hc).elim (ha c) (hb c)

lemma WordText.ite {p : Prop} [Decidable p] {a b : List Char} (ha : WordText a) (hb : WordText b) :
    WordText (if p then a else b) := by
  split <;> assumption

lemma wordText_digits {cs : List Char} (h : ∀ c ∈ cs, Numeral.isDigit c = true) : WordText cs :=
  fun c hc => by
    have := h c hc
    rw [Numeral.isDigit_eq] at this
    simp [isWordChar, Char.isAlphanum, this]

lemma wordText_toDigits (n : Nat) : WordText (Nat.toDigits 10 n) :=
  wordText_digits fun _ hc => Numeral.isDigit_of_mem_toDigits hc

lemma wordText_zeros (n : Nat) : WordText (List.replicate n '0') :=
  wordText_digits fun c hc => by rw [List.eq_of_mem_replicate hc]; rfl

lemma wordText_plain {digits : List Char} (h : WordText digits) (first : Int) :
    WordText (numberLayout.plain digits first).toList := by
  have hpoint : WordText ['.'] := by decide
  simp only [NumberLayout.plain, numberLayout]
  split
  · simpa using (show WordText ['0', '.'] by decide).append ((wordText_zeros _).append h)
  · split
    · simpa using h.append ((wordText_zeros _).append (show WordText ['.', '0'] by decide))
    · have htake : WordText (digits.take (first.toNat + 1)) := fun c hc => h c (List.mem_of_mem_take hc)
      have hdrop : WordText (digits.drop (first.toNat + 1)) := fun c hc => h c (List.mem_of_mem_drop hc)
      simpa using htake.append (hpoint.append hdrop)

lemma wordText_scientific {digits : List Char} (h : WordText digits) (first : Int) :
    WordText (numberLayout.scientific digits first).toList := by
  have hpoint : WordText ['.'] := by decide
  have hsign : WordText (if first < 0 then "-" else numberLayout.positiveExponent).toList := by
    split <;> decide
  have hplace : WordText (toString first.natAbs).toList := by
    rw [show (toString first.natAbs).toList = Nat.toDigits 10 first.natAbs from Nat.toList_repr]
    exact wordText_toDigits _
  have hmark : WordText numberLayout.exponentMark.toList := by decide
  simp only [NumberLayout.scientific, String.toList_append]
  refine ((WordText.append ?_ hmark).append hsign).append hplace
  split
  · decide
  · simpa using h
  · next c cs _ =>
    have hc : WordText [c] := fun x hx => h x (by simp at hx; simp [hx])
    have hcs : WordText cs := fun x hx => h x (List.mem_cons_of_mem _ hx)
    simpa using hc.append (hpoint.append hcs)

lemma wordText_number (x : Binary64) : WordText (numberLayout.text x).toList := by
  have hsign : WordText (if x.negative then "-" else "").toList := by
    split <;> decide
  have hdigits : WordText ((Nat.toDigits 10 x.shortest.1).reverse.dropWhile (· == '0')).reverse :=
    fun c hc => wordText_toDigits x.shortest.1 c <| by
      have := (List.dropWhile_suffix _).mem (List.mem_reverse.1 hc)
      exact List.mem_reverse.1 this
  simp only [NumberLayout.text]
  split
  · simpa [numberLayout] using hsign.append (show WordText ['0', '.', '0'] by decide)
  · split
    · simpa using hsign.append (wordText_plain hdigits _)
    · simpa using hsign.append (wordText_scientific hdigits _)

lemma wordText_scalarText {v : Value} (h : v.isWord = true) : WordText (scalarText v) := by
  cases v with
  | null => decide
  | bool b => cases b <;> decide
  | int i =>
    rw [scalarText, Numeral.toList_toString]
    refine ((WordText.ite (by decide) (by decide)).append (wordText_toDigits _)).append ?_
    exact fun c hc => by simp at hc
  | float x => exact wordText_number x
  | string _ | array _ | object _ => simp [isWord] at h

lemma numberText_ne_nil (x : Binary64) : (numberLayout.text x).toList ≠ [] := by
  have hplain : ∀ digits first, (numberLayout.plain digits first).toList ≠ [] := fun digits first => by
    simp only [NumberLayout.plain, numberLayout]
    split
    · simp
    · split <;> simp
  have hscientific : ∀ digits first, (numberLayout.scientific digits first).toList ≠ [] :=
    fun digits first => by simp [NumberLayout.scientific, numberLayout]
  simp only [NumberLayout.text]
  split
  · simp
  · split
    · rw [String.toList_append]
      exact List.append_ne_nil_of_right_ne_nil _ (hplain _ _)
    · rw [String.toList_append]
      exact List.append_ne_nil_of_right_ne_nil _ (hscientific _ _)

lemma scalarText_ne_nil {v : Value} (h : v.isWord = true) : scalarText v ≠ [] := by
  cases v with
  | null => decide
  | bool b => cases b <;> decide
  | int i =>
    rw [scalarText, Numeral.toList_toString]
    simp [written, Nat.toDigits_ne_nil]
  | float x => exact numberText_ne_nil x
  | string _ | array _ | object _ => simp [isWord] at h

lemma print_of_isWord {v : Value} (h : v.isWord = true) : print v = scalarText v := by
  cases v <;> first | rfl | simp [isWord] at h

/-! ### Escapes -/

/-- Inside quotes a character stands for itself, or a backslash stands in front of a letter that may
be followed by digits. No line ends in quotes. -/
lemma escaped_cases (c : Char) :
    (∃ d tail, escaped c = '\\' :: d :: tail ∧ (d = '"' → c = '"') ∧ d ≠ '\n' ∧
        ∀ e ∈ tail, e ≠ '"' ∧ e ≠ '\\' ∧ e ≠ '\n') ∨
      escaped c = [c] ∧ c ≠ '"' ∧ c ≠ '\\' ∧ c ≠ '\n' := by
  have hletter : ∀ d : Char, d ≠ '"' → d ≠ '\n' → escaped c = ['\\', d] →
      ∃ d tail, escaped c = '\\' :: d :: tail ∧ (d = '"' → c = '"') ∧ d ≠ '\n' ∧
        ∀ e ∈ tail, e ≠ '"' ∧ e ≠ '\\' ∧ e ≠ '\n' :=
    fun d hquote hline h => ⟨d, [], h, fun hd => absurd hd hquote, hline, by simp⟩
  have hdigit : ∀ n, Nat.digitChar n ≠ '"' ∧ Nat.digitChar n ≠ '\\' ∧ Nat.digitChar n ≠ '\n' :=
    fun n => ⟨Nat.digitChar_ne _ (by decide), Nat.digitChar_ne _ (by decide),
      Nat.digitChar_ne _ (by decide)⟩
  by_cases hquote : c = '"'
  · exact .inl ⟨'"', [], by rw [escaped, if_pos hquote], fun _ => hquote, by decide, by simp⟩
  by_cases hslash : c = '\\'
  · exact .inl (hletter '\\' (by decide) (by decide) (by rw [hslash]; rfl))
  by_cases hline : c = '\n'
  · exact .inl (hletter 'n' (by decide) (by decide) (by rw [hline]; rfl))
  by_cases hreturn : c = '\r'
  · exact .inl (hletter 'r' (by decide) (by decide) (by rw [hreturn]; rfl))
  by_cases htab : c = '\t'
  · exact .inl (hletter 't' (by decide) (by decide) (by rw [htab]; rfl))
  by_cases hback : c = '\x08'
  · exact .inl (hletter 'b' (by decide) (by decide) (by rw [hback]; rfl))
  by_cases hfeed : c = '\x0c'
  · exact .inl (hletter 'f' (by decide) (by decide) (by rw [hfeed]; rfl))
  simp only [escaped, hquote, hslash, hline, hreturn, htab, hback, hfeed, if_false]
  by_cases hcontrol : c.toNat < 32
  · rw [if_pos hcontrol]
    refine .inl ⟨'u', _, rfl, by simp, by decide, ?_⟩
    simp only [List.mem_cons, List.not_mem_nil, or_false, forall_eq_or_imp, forall_eq]
    exact ⟨by decide, by decide, hdigit _, hdigit _⟩
  · rw [if_neg hcontrol]
    exact .inr ⟨rfl, hquote, hslash, hline⟩

lemma quote_not_mem_escaped {c : Char} (h : c ≠ '"') : '"' ∉ escaped c := by
  rcases escaped_cases c with ⟨d, tail, heq, hd, -, htail⟩ | ⟨heq, hquote, -, -⟩
  · rw [heq]
    intro hmem
    rcases List.mem_cons.1 hmem with hslash | hmem
    · exact absurd hslash (by decide)
    · rcases List.mem_cons.1 hmem with hd' | hmem
      · exact h (hd hd'.symm)
      · exact (htail _ hmem).1 rfl
  · rw [heq]
    simpa using hquote.symm

/-! ### The ends of a text -/

/-- The first character of a value opens it or belongs to a word. -/
def startsValue (c : Char) : Bool := isWordChar c || c == '"' || c == '[' || c == '\x7b'

/-- The last character of a value closes it or belongs to a word. -/
def endsValue (c : Char) : Bool := isWordChar c || c == '"' || c == ']' || c == '\x7d'

lemma not_isBlank_of_startsValue {c : Char} (h : startsValue c = true) : isBlank c = false := by
  simp only [startsValue, Bool.or_eq_true, beq_iff_eq] at h
  rcases h with ((h | rfl) | rfl) | rfl
  · exact not_isBlank_of_isWordChar h
  · decide
  · decide
  · decide

lemma not_isBlank_of_endsValue {c : Char} (h : endsValue c = true) : isBlank c = false := by
  simp only [endsValue, Bool.or_eq_true, beq_iff_eq] at h
  rcases h with ((h | rfl) | rfl) | rfl
  · exact not_isBlank_of_isWordChar h
  · decide
  · decide
  · decide

lemma exists_print_eq_cons (v : Value) : ∃ c cs, print v = c :: cs ∧ startsValue c = true := by
  by_cases hword : v.isWord = true
  · obtain ⟨c, cs, hcs⟩ := List.exists_cons_of_ne_nil (scalarText_ne_nil hword)
    refine ⟨c, cs, (print_of_isWord hword).trans hcs, ?_⟩
    have : isWordChar c = true := wordText_scalarText hword c (by simp [hcs])
    simp [startsValue, this]
  · cases v with
    | string s => exact ⟨'"', _, rfl, rfl⟩
    | array items => exact ⟨'[', _, rfl, rfl⟩
    | object fields => exact ⟨'\x7b', _, rfl, rfl⟩
    | null | bool _ | int _ | float _ => simp [isWord] at hword

lemma exists_print_eq_concat (v : Value) : ∃ cs c, print v = cs ++ [c] ∧ endsValue c = true := by
  by_cases hword : v.isWord = true
  · obtain ⟨cs, c, hcs⟩ := (List.eq_nil_or_concat (scalarText v)).resolve_left
      (scalarText_ne_nil hword)
    rw [List.concat_eq_append] at hcs
    refine ⟨cs, c, (print_of_isWord hword).trans hcs, ?_⟩
    have : isWordChar c = true := wordText_scalarText hword c (by simp [hcs])
    simp [endsValue, this]
  · cases v with
    | string s => exact ⟨'"' :: s.toList.flatMap escaped, '"', rfl, rfl⟩
    | array items => exact ⟨'[' :: printItems items, ']', rfl, rfl⟩
    | object fields => exact ⟨'\x7b' :: printFields fields, '\x7d', rfl, rfl⟩
    | null | bool _ | int _ | float _ => simp [isWord] at hword

end Value

namespace Relaxed

open Unicode (isBlank)
open Value (escaped quoted print printItems printFields isWordChar WordText startsValue)

/-! ### Strings -/

lemma hexValue?_digitChar {n : Nat} (h : n < 16) : hexValue? (Nat.digitChar n) = some n := by
  have : ∀ n : Fin 16, hexValue? (Nat.digitChar n) = some n.val := by decide
  exact this ⟨n, h⟩

lemma unicodeEscape?_control {c : Char} (h : c.toNat < 32) :
    unicodeEscape? ['0', '0', Nat.digitChar (c.toNat / 16), Nat.digitChar (c.toNat % 16)] =
      some c := by
  have hzero : hexValue? '0' = some 0 := by decide
  have hcode : ((0 * 16 + 0) * 16 + c.toNat / 16) * 16 + c.toNat % 16 = c.toNat := by omega
  simp only [unicodeEscape?, hzero, hexValue?_digitChar (show c.toNat / 16 < 16 by omega),
    hexValue?_digitChar (show c.toNat % 16 < 16 by omega), hcode]
  rw [charOf?, dif_pos (show c.toNat.isValidChar from c.valid)]
  rfl

lemma stringBody?_plain {quote c : Char} (hquote : c ≠ quote) (hslash : c ≠ '\\')
    (cs : List Char) :
    stringBody? quote (c :: cs) = (stringBody? quote cs).map fun (s, rest) => (c :: s, rest) := by
  rw [stringBody?.eq_def]
  simp [hquote, hslash]

lemma stringBody?_escaped (c : Char) (rest : List Char) :
    stringBody? '"' (escaped c ++ rest) =
      (stringBody? '"' rest).map fun (s, rest) => (c :: s, rest) := by
  simp only [escaped]
  split
  · subst_vars; simp [stringBody?, escape]
  split
  · subst_vars; simp [stringBody?, escape]
  split
  · subst_vars; simp [stringBody?, escape]
  split
  · subst_vars; simp [stringBody?, escape]
  split
  · subst_vars; simp [stringBody?, escape]
  split
  · subst_vars; simp [stringBody?, escape]
  split
  · subst_vars; simp [stringBody?, escape]
  split
  · next hcontrol =>
    simp [stringBody?, unicodeEscape?_control hcontrol]
  · next hquote hslash _ _ _ _ _ _ => exact stringBody?_plain hquote hslash rest

lemma quoted?_quoted (s : String) (rest : List Char) : quoted? (quoted s ++ rest) = some (s, rest) := by
  have hbody : ∀ cs : List Char,
      stringBody? '"' (cs.flatMap escaped ++ '"' :: rest) = some (cs, rest) := by
    intro cs
    induction cs with
    | nil => rw [stringBody?.eq_def]; simp
    | cons c cs ih => rw [List.flatMap_cons, List.append_assoc, stringBody?_escaped, ih]; rfl
  simp [quoted?, quoted, hbody]

/-! ### Words -/

lemma skipBlank_eq_self {c : Char} {cs : List Char} (h : isBlank c = false) :
    skipBlank (c :: cs) = c :: cs := by
  simp [skipBlank, h]

lemma skipBlank_print (v : Value) (rest : List Char) :
    skipBlank (print v ++ rest) = print v ++ rest := by
  obtain ⟨c, cs, hprint, hstart⟩ := v.exists_print_eq_cons
  rw [hprint, List.cons_append]
  exact skipBlank_eq_self (Value.not_isBlank_of_startsValue hstart)

lemma wordValue_of_value? {cs : List Char} {v : Value} (h : Numeral.value? cs = some v) :
    wordValue cs = v := by
  have hnot : ∀ w : List Char, Numeral.value? w = none → cs ≠ w := by
    rintro w hw rfl
    simp [hw] at h
  have htrue : cs ≠ "true".toList := hnot _ (by decide +kernel)
  have hfalse : cs ≠ "false".toList := hnot _ (by decide +kernel)
  have hnull : cs ≠ "null".toList := hnot _ (by decide +kernel)
  have hundefined : cs ≠ "undefined".toList := hnot _ (by decide +kernel)
  simp only [wordValue, htrue, hfalse, hnull, hundefined, or_self, if_false, h, Option.getD_some]

lemma wordValue_scalarText {v : Value} (hword : v.isWord = true) (h : v.Storable) :
    wordValue v.scalarText = v := by
  cases h with
  | null => decide
  | bool b => cases b <;> decide
  | int hi => exact wordValue_of_value? (Numeral.value?_toString hi)
  | float hx => exact wordValue_of_value? (Numeral.value?_text hx)
  | string _ | array _ | object _ _ => simp [Value.isWord] at hword

lemma word?_scalarText {v : Value} (hword : v.isWord = true) (h : v.Storable) {holder : Holder}
    {c : Char} (hc : holder.endsWord c = true) (rest : List Char) :
    word? holder (v.scalarText ++ c :: rest) = some (v, c :: rest) := by
  have htext := Value.wordText_scalarText hword
  have hall : ∀ d ∈ v.scalarText, (!holder.endsWord d) = true := fun d hd => by
    have hne : ∀ e, isWordChar e = false → (d == e) = false := fun e he =>
      beq_eq_false_iff_ne.2 (Value.ne_of_isWordChar (htext d hd) he)
    cases holder <;> simp [Holder.endsWord, hne ',' rfl, hne '\x7b' rfl, hne '[' rfl, hne ']' rfl,
      hne '\x7d' rfl]
  have htake : (v.scalarText ++ c :: rest).takeWhile (!holder.endsWord ·) = v.scalarText := by
    simp [List.takeWhile_append_of_pos hall, hc]
  have hdrop : (v.scalarText ++ c :: rest).dropWhile (!holder.endsWord ·) = c :: rest := by
    simp [List.dropWhile_append_of_pos hall, hc]
  have htrim : Text.trim v.scalarText = v.scalarText :=
    Text.trim_of_not_isBlank fun d hd => Value.not_isBlank_of_isWordChar (htext d hd)
  have hne : v.scalarText.isEmpty = false := by
    simpa using Value.scalarText_ne_nil hword
  simp only [word?, htake, hdrop, htrim, hne, Bool.false_eq_true, if_false,
    wordValue_scalarText hword h]

/-! ### Elements -/

/-- The text of the value is read back with enough fuel, whatever stands behind it; words need
something there that ends them. -/
def ReadsBack (v : Value) : Prop :=
  ∀ ⦃fuel : Nat⦄ ⦃holder : Holder⦄ ⦃rest : List Char⦄, 2 * (print v).length ≤ fuel →
    (v.isWord = true → ∃ c ∈ rest.head?, holder.endsWord c = true) →
    element? fuel holder (print v ++ rest) = some (v, rest)

lemma items?_element {v : Value} {fuel : Nat} {cs rest : List Char}
    (hskip : skipBlank cs = print v ++ rest)
    (hv : element? fuel .array (print v ++ rest) = some (v, rest)) :
    items? (fuel + 1) cs =
      match skipBlank rest with
      | ',' :: cs => (items? fuel cs).map fun (vs, rest) => (v :: vs, rest)
      | ']' :: cs => some ([v], cs)
      | _ => none := by
  obtain ⟨c, text, hprint, hstart⟩ := v.exists_print_eq_cons
  simp only [items?, hskip]
  split
  · next heq => simp [hprint] at heq
  · next heq =>
    rw [hprint, List.cons_append] at heq
    cases heq
    simp [startsValue] at hstart
    exact absurd hstart (by decide)
  · generalize element? fuel .array (print v ++ rest) = read at hv
    subst hv
    rfl

lemma skipBlank_printItems (items : List Value) (rest : List Char) :
    skipBlank (printItems items ++ ']' :: rest) = printItems items ++ ']' :: rest := by
  match items with
  | [] => exact skipBlank_eq_self (by decide)
  | [v] => exact skipBlank_print v _
  | v :: w :: vs =>
    simp only [printItems, List.append_assoc]
    exact skipBlank_print v _

lemma items?_printItems : ∀ {items : List Value} {fuel : Nat} {cs rest : List Char},
    (∀ v ∈ items, ReadsBack v) → 2 * (printItems items).length + 1 ≤ fuel →
    skipBlank cs = printItems items ++ ']' :: rest → items? fuel cs = some (items, rest)
  | [], fuel + 1, cs, rest, _, _, hskip => by
    simp only [items?, hskip, printItems, List.nil_append]
  | [v], fuel + 1, cs, rest, h, hfuel, hskip => by
    simp only [printItems] at hfuel hskip
    have hv : element? fuel .array (print v ++ ']' :: rest) = some (v, ']' :: rest) :=
      h v (by simp) (by omega) fun _ => ⟨']', rfl, rfl⟩
    rw [items?_element hskip hv]
    simp only [skipBlank_eq_self (show isBlank ']' = false by decide)]
  | v :: w :: vs, fuel + 1, cs, rest, h, hfuel, hskip => by
    simp only [printItems, List.append_assoc, List.cons_append, List.length_append,
      List.length_cons] at hfuel hskip
    have hv : element? fuel .array (print v ++ ',' :: (printItems (w :: vs) ++ ']' :: rest)) =
        some (v, ',' :: (printItems (w :: vs) ++ ']' :: rest)) :=
      h v (by simp) (by omega) fun _ => ⟨',', rfl, rfl⟩
    have hvs : items? fuel (printItems (w :: vs) ++ ']' :: rest) = some (w :: vs, rest) :=
      items?_printItems (fun u hu => h u (List.mem_cons_of_mem _ hu)) (by omega)
        (skipBlank_printItems _ _)
    rw [items?_element hskip hv]
    simp only [skipBlank_eq_self (show isBlank ',' = false by decide), hvs, Option.map_some]

lemma fields?_field {k : String} {v : Value} {fuel : Nat} {found : Fields} {rest : List Char}
    (hv : element? fuel .object (print v ++ rest) = some (v, rest)) :
    fields? (fuel + 1) found (quoted k ++ ':' :: (print v ++ rest)) =
      match skipBlank rest with
      | ',' :: cs => fields? fuel (found.insert k v) cs
      | '\x7d' :: cs => some (found.insert k v, cs)
      | _ => none := by
  have hskip : skipBlank (quoted k ++ ':' :: (print v ++ rest)) =
      quoted k ++ ':' :: (print v ++ rest) := skipBlank_eq_self (by decide)
  have hkey : key? (quoted k ++ ':' :: (print v ++ rest)) = some (k, ':' :: (print v ++ rest)) :=
    quoted?_quoted k _
  simp only [fields?, hskip]
  split
  · next heq => simp [quoted] at heq
  · next heq => simp [quoted] at heq
  · simp only [hkey, skipBlank_eq_self (show isBlank ':' = false by decide)]
    generalize element? fuel .object (print v ++ rest) = read at hv
    subst hv
    rfl

/-- Fields one after the other, the keys of those found before being smaller. -/
lemma fields?_printFields : ∀ {fields found : Fields} {fuel : Nat} {rest : List Char},
    Fields.Sorted (found ++ fields) → (∀ f ∈ fields, ReadsBack f.2) →
    2 * (printFields fields).length + 1 ≤ fuel →
    fields? fuel found (printFields fields ++ '\x7d' :: rest) = some (found ++ fields, rest)
  | [], found, fuel + 1, rest, _, _, _ => by
    simp [fields?, printFields, skipBlank_eq_self (show isBlank '\x7d' = false by decide)]
  | [(k, v)], found, fuel + 1, rest, hsorted, h, hfuel => by
    simp only [printFields, List.append_assoc, List.cons_append, List.length_append,
      List.length_cons] at hfuel ⊢
    have hv : element? fuel .object (print v ++ '\x7d' :: rest) = some (v, '\x7d' :: rest) :=
      h (k, v) (by simp) (by dsimp only; omega) fun _ => ⟨'\x7d', rfl, rfl⟩
    have hset := Fields.insert_last hsorted
    rw [fields?_field hv]
    simp only [skipBlank_eq_self (show isBlank '\x7d' = false by decide), hset]
  | (k, v) :: g :: fs, found, fuel + 1, rest, hsorted, h, hfuel => by
    simp only [printFields, List.append_assoc, List.cons_append, List.length_append,
      List.length_cons] at hfuel ⊢
    have hv : element? fuel .object (print v ++ ',' :: (printFields (g :: fs) ++ '\x7d' :: rest)) =
        some (v, ',' :: (printFields (g :: fs) ++ '\x7d' :: rest)) :=
      h (k, v) (by simp) (by dsimp only; omega) fun _ => ⟨',', rfl, rfl⟩
    have hset := Fields.insert_last hsorted
    rw [fields?_field hv]
    simp only [skipBlank_eq_self (show isBlank ',' = false by decide), hset]
    rw [fields?_printFields (by simpa using hsorted) (fun f hf => h f (List.mem_cons_of_mem _ hf))
      (by omega)]
    simp

lemma readsBack_word {v : Value} (hword : v.isWord = true) (hstorable : v.Storable) :
    ReadsBack v := by
  intro fuel holder rest hfuel hrest
  obtain ⟨c, cs, hprint, hstart⟩ := v.exists_print_eq_cons
  have hskip := skipBlank_print v rest
  obtain ⟨d, hd, hends⟩ := hrest hword
  obtain ⟨tail, rfl⟩ : ∃ tail, rest = d :: tail := by
    cases rest with
    | nil => simp at hd
    | cons e tail => simp at hd; exact ⟨tail, by rw [hd]⟩
  obtain ⟨fuel, rfl⟩ : ∃ n, fuel = n + 1 :=
    ⟨fuel - 1, by rw [hprint] at hfuel; simp at hfuel; omega⟩
  have hread := word?_scalarText hword hstorable hends tail
  have hchar : isWordChar c = true :=
    Value.wordText_scalarText hword c (by rw [← Value.print_of_isWord hword, hprint]; simp)
  rw [← Value.print_of_isWord hword, hprint, List.cons_append] at hread
  rw [hprint, List.cons_append] at hskip ⊢
  simp only [element?, hskip, Value.ne_of_isWordChar hchar (show isWordChar '\x7b' = false by rfl),
    Value.ne_of_isWordChar hchar (show isWordChar '[' = false by rfl),
    (Value.plain_of_isWordChar hchar).1, if_false, Bool.false_eq_true, hread]

/-- Every value that can be stored is read back from its text. -/
theorem readsBack {v : Value} (h : v.Storable) : ReadsBack v := by
  induction h with
  | null => exact readsBack_word rfl .null
  | bool b => exact readsBack_word rfl (.bool b)
  | int hi => exact readsBack_word rfl (.int hi)
  | float hx => exact readsBack_word rfl (.float hx)
  | string s =>
    intro fuel holder rest hfuel _
    simp only [print, Value.scalarText, quoted, List.length_append, List.length_cons] at hfuel
    obtain ⟨fuel, rfl⟩ : ∃ n, fuel = n + 1 := ⟨fuel - 1, by omega⟩
    have hskip : skipBlank (quoted s ++ rest) = quoted s ++ rest := skipBlank_eq_self (by decide)
    have hread := quoted?_quoted s rest
    simp only [quoted, List.cons_append] at hskip hread
    simp only [element?, print, Value.scalarText, quoted, List.cons_append, hskip, hread]
    rfl
  | @array items _ ih =>
    intro fuel holder rest hfuel _
    simp only [print, List.length_cons, List.length_append, List.length_nil] at hfuel
    obtain ⟨fuel, rfl⟩ : ∃ n, fuel = n + 1 := ⟨fuel - 1, by omega⟩
    have hread : items? fuel (printItems items ++ ']' :: rest) = some (items, rest) :=
      items?_printItems ih (by omega) (skipBlank_printItems _ _)
    have hskip : skipBlank ('[' :: (printItems items ++ ']' :: rest)) =
        '[' :: (printItems items ++ ']' :: rest) := skipBlank_eq_self (by decide)
    simp only [element?, print, List.cons_append, List.append_assoc, List.nil_append, hskip, hread]
    rfl
  | @object fields hsorted _ ih =>
    intro fuel holder rest hfuel _
    simp only [print, List.length_cons, List.length_append, List.length_nil] at hfuel
    obtain ⟨fuel, rfl⟩ : ∃ n, fuel = n + 1 := ⟨fuel - 1, by omega⟩
    have hread : fields? fuel [] (printFields fields ++ '\x7d' :: rest) = some (fields, rest) :=
      fields?_printFields hsorted ih (by omega)
    have hskip : skipBlank ('\x7b' :: (printFields fields ++ '\x7d' :: rest)) =
        '\x7b' :: (printFields fields ++ '\x7d' :: rest) := skipBlank_eq_self (by decide)
    simp only [element?, print, List.cons_append, List.append_assoc, List.nil_append, hskip, hread]
    rfl

end Relaxed

end CommentBlocks
