import CommentBlocks.Argument.Options
import CommentBlocks.Proofs.Value.Printed

/-!
The text of a value as an argument is read as that value: it is taken neither for a keyword, a number
or a doubled pair of brackets, nor, for an object whose first key looks like one, for a text in
redundant braces.
-/

namespace CommentBlocks.Coerce

open Value (print printItems printFields startsValue endsValue)
open Options (valueText)
open Unicode (isBlank)

/-! ### The text of an argument -/

/-- The text is the printed value, but for a blank in an array that starts with an array. -/
lemma valueText_cases (v : Value) :
    (valueText v = print v ∧ ∀ t, print v ≠ '[' :: '[' :: t) ∨
      ∃ items t, v = .array items ∧ printItems items ++ [']'] = '[' :: t ∧
        valueText v = '[' :: ' ' :: (printItems items ++ [']']) := by
  simp only [valueText]
  split
  · next t h =>
    have hword : ∀ {v : Value}, v.isWord = true → print v = '[' :: '[' :: t →
        Value.isWordChar '[' = true := fun hv hprint =>
      Value.wordText_scalarText hv '[' (by rw [← Value.print_of_isWord hv, hprint]; simp)
    match v, h with
    | .array items, h =>
      have hitems : printItems items ++ [']'] = '[' :: t := by simpa [print] using h
      exact .inr ⟨items, t, rfl, hitems, by rw [hitems]⟩
    | .string s, h => simp [print, Value.scalarText, Value.quoted] at h
    | .object fields, h => simp [print] at h
    | .null, h | .bool true, h | .bool false, h => simp [print, Value.scalarText] at h
    | .int i, h =>
      exact absurd (hword (v := .int i) rfl h) (by decide)
    | .float x, h =>
      exact absurd (hword (v := .float x) rfl h) (by decide)
  · next h => exact .inl ⟨rfl, h⟩

lemma valueText_of_isWord {v : Value} (h : v.isWord = true) : valueText v = v.scalarText := by
  rcases valueText_cases v with ⟨heq, -⟩ | ⟨items, t, rfl, -, -⟩
  · rw [heq, Value.print_of_isWord h]
  · simp [Value.isWord] at h

lemma exists_valueText_eq_cons (v : Value) :
    ∃ c cs, valueText v = c :: cs ∧ startsValue c = true := by
  rcases valueText_cases v with ⟨heq, -⟩ | ⟨items, t, -, -, heq⟩
  · rw [heq]; exact v.exists_print_eq_cons
  · exact ⟨'[', _, heq, rfl⟩

lemma exists_valueText_eq_concat (v : Value) :
    ∃ cs c, valueText v = cs ++ [c] ∧ endsValue c = true := by
  rcases valueText_cases v with ⟨heq, -⟩ | ⟨items, t, -, -, heq⟩
  · rw [heq]; exact v.exists_print_eq_concat
  · exact ⟨'[' :: ' ' :: printItems items, ']', by rw [heq]; simp, rfl⟩

lemma valueText_ne_nil (v : Value) : valueText v ≠ [] := by
  obtain ⟨c, cs, h, -⟩ := exists_valueText_eq_cons v
  simp [h]

lemma trim_valueText (v : Value) : Text.trim (valueText v) = valueText v := by
  obtain ⟨c, cs, hfirst, hstarts⟩ := exists_valueText_eq_cons v
  obtain ⟨ds, d, hlast, hends⟩ := exists_valueText_eq_concat v
  refine Text.trim_eq_self (fun e he => ?_) (fun e he => ?_)
  · obtain rfl : c = e := by simpa [hfirst] using he
    exact Value.not_isBlank_of_startsValue hstarts
  · obtain rfl : d = e := by simpa [hlast] using he
    exact Value.not_isBlank_of_endsValue hends

lemma tidy_of_last {cs : List Char} (htrim : Text.trim cs = cs) (hlast : cs.getLast? ≠ some ',') :
    tidy cs = cs := by
  have hcomma : Text.before? [','] cs = none := by
    rw [Option.eq_none_iff_forall_ne_some]
    intro rest h
    rw [Text.before?_eq_some_iff] at h
    exact hlast (by simp [h])
  simp only [tidy, htrim, hcomma]

lemma tidy_eq_self {cs : List Char} (htrim : Text.trim cs = cs)
    (hends : ∀ c ∈ cs.getLast?, endsValue c = true) : tidy cs = cs :=
  tidy_of_last htrim fun hlast => absurd (hends ',' hlast) (by decide)

lemma tidy_valueText (v : Value) : tidy (valueText v) = valueText v := by
  obtain ⟨ds, d, hlast, hends⟩ := exists_valueText_eq_concat v
  refine tidy_eq_self (trim_valueText v) fun c hc => ?_
  obtain rfl : d = c := by simpa [hlast] using hc
  exact hends

/-! ### The stages pass over brackets and quotes -/

/-- The characters that the text of a string, an array or an object starts with. -/
def opens (c : Char) : Bool := c == '"' || c == '[' || c == '\x7b'

lemma exists_valueText_of_not_isWord {v : Value} (h : v.isWord = false) :
    ∃ c cs, valueText v = c :: cs ∧ opens c = true := by
  obtain ⟨c, cs, hcons, hc⟩ : ∃ c cs, print v = c :: cs ∧ opens c = true := by
    cases v with
    | string s => exact ⟨'"', _, rfl, rfl⟩
    | array items => exact ⟨'[', _, rfl, rfl⟩
    | object fields => exact ⟨'\x7b', _, rfl, rfl⟩
    | null | bool _ | int _ | float _ => simp [Value.isWord] at h
  rcases valueText_cases v with ⟨heq, -⟩ | ⟨items, t, -, -, heq⟩
  · exact ⟨c, cs, heq.trans hcons, hc⟩
  · exact ⟨'[', _, heq, rfl⟩

lemma keyword?_of_first {c : Char} (h : c ∉ ['t', 'f', 'n']) (cs : List Char) :
    keyword? (c :: cs) = none := by
  simp only [List.mem_cons, List.not_mem_nil, or_false, not_or] at h
  simp [keyword?, h]

lemma number?_of_first {c : Char} (hdigit : Numeral.isDigit c = false)
    (hc : c ∉ ['.', '-', '+', 'e', 'E']) {cs : List Char} (htrim : Text.trim (c :: cs) = c :: cs) :
    Numeral.value? (c :: cs) = none := by
  simp only [List.mem_cons, List.not_mem_nil, or_false, not_or] at hc
  obtain ⟨hpoint, hminus, hplus, hsmall, hcapital⟩ := hc
  have hmantissa : ∀ rest, Numeral.isMantissa (c :: rest) = false := fun rest => by
    simp [Numeral.isMantissa, hdigit, hpoint]
  have hsign : Numeral.sign (c :: cs) = (false, c :: cs) :=
    Numeral.sign_of_ne fun d hd => by
      obtain rfl : c = d := by simpa using hd
      exact ⟨hminus, hplus⟩
  have hmark : Numeral.isExponentMark c = false := by simp [Numeral.isExponentMark, hsmall, hcapital]
  have hcut : ∃ rest, (Numeral.cutExponent (c :: cs)).1 = c :: rest := by
    simp only [Numeral.cutExponent]
    split
    · exact ⟨cs, rfl⟩
    · exact ⟨_, by rw [List.takeWhile_cons_of_pos (by simp [hmark])]⟩
  obtain ⟨rest, hrest⟩ := hcut
  have hnot : Numeral.isNumeral (c :: cs) = false := by
    simp only [Numeral.isNumeral, hsign, hrest, hmantissa, Bool.false_and]
  simp only [Numeral.value?, htrim, hnot, Bool.not_false, if_true]

lemma keyword?_of_opens {c : Char} (h : opens c = true) (cs : List Char) :
    keyword? (c :: cs) = none := by
  simp only [opens, Bool.or_eq_true, beq_iff_eq] at h
  refine keyword?_of_first ?_ cs
  rcases h with (rfl | rfl) | rfl <;> decide

lemma number?_of_opens {c : Char} (h : opens c = true) {cs : List Char}
    (htrim : Text.trim (c :: cs) = c :: cs) : Numeral.value? (c :: cs) = none := by
  simp only [opens, Bool.or_eq_true, beq_iff_eq] at h
  refine number?_of_first ?_ ?_ htrim <;> rcases h with (rfl | rfl) | rfl <;> decide

lemma unwrapDouble?_valueText {v : Value} (h : v.isWord = false) :
    unwrapDouble? (valueText v) = none := by
  have hround : ∀ k ∈ [BracketKind.curly, BracketKind.square],
      Text.after? [k.opening, k.opening] (valueText v) = none := by
    intro k hk
    rw [Option.eq_none_iff_forall_ne_some]
    intro rest hafter
    rw [Text.after?_eq_some_iff] at hafter
    rcases valueText_cases v with ⟨heq, hnot⟩ | ⟨items, t, -, -, heq⟩
    · rw [heq] at hafter
      simp only [List.mem_cons, List.not_mem_nil, or_false] at hk
      rcases hk with rfl | rfl
      · match v, h with
        | .object [], _ => simp [print, printFields, BracketKind.opening] at hafter
        | .object [(k, w)], _ =>
          simp [print, printFields, Value.quoted, BracketKind.opening] at hafter
        | .object ((k, w) :: f :: fs), _ =>
          simp [print, printFields, Value.quoted, BracketKind.opening] at hafter
        | .array items, _ => simp [print, BracketKind.opening] at hafter
        | .string s, _ => simp [print, Value.scalarText, Value.quoted, BracketKind.opening] at hafter
      · exact hnot rest hafter
    · rw [heq] at hafter
      simp only [List.mem_cons, List.not_mem_nil, or_false] at hk
      rcases hk with rfl | rfl <;> simp [BracketKind.opening] at hafter
  simp only [unwrapDouble?, hround .curly (by simp), hround .square (by simp), Option.isSome_none,
    Bool.false_and, Bool.or_self, Bool.false_eq_true, if_false]

/-- What stands in the braces of an object starts like fields, so that the braces stay. -/
def keepsBraces : Value → Bool
  | .object [] => true
  | .object fields => hasKeyShape (printFields fields)
  | _ => true

lemma inner_enclosed (a b : Char) (cs : List Char) : inner (a :: cs ++ [b]) = cs := by
  simp [inner]

lemma endsValue_of_printFields : ∀ (fields : Fields), ∀ c ∈ (printFields fields).getLast?,
    endsValue c = true := by
  intro fields
  induction fields with
  | nil => simp [printFields]
  | cons f fs ih =>
    intro c hc
    obtain ⟨k, v⟩ := f
    cases fs with
    | nil =>
      obtain ⟨ds, d, hlast, hd⟩ := v.exists_print_eq_concat
      obtain rfl : d = c := by simpa [printFields, hlast, List.getLast?_cons] using hc
      exact hd
    | cons g gs =>
      refine ih c ?_
      obtain ⟨x, xs, hx⟩ : ∃ x xs, printFields (g :: gs) = x :: xs := by
        cases gs <;> exact ⟨_, _, rfl⟩
      simpa [printFields, hx, List.getLast?_append, List.getLast?_cons] using hc

lemma exists_printFields_eq_cons (f : String × Value) (fs : Fields) :
    ∃ cs, printFields (f :: fs) = '"' :: cs := by
  obtain ⟨k, v⟩ := f
  cases fs <;> exact ⟨_, rfl⟩

lemma trim_printFields (fields : Fields) : Text.trim (printFields fields) = printFields fields := by
  refine Text.trim_eq_self (fun c hc => ?_)
    fun c hc => Value.not_isBlank_of_endsValue (endsValue_of_printFields fields c hc)
  match fields, hc with
  | f :: fs, hc =>
    obtain ⟨cs, hcs⟩ := exists_printFields_eq_cons f fs
    obtain rfl : '"' = c := by simpa [hcs] using hc
    decide

lemma unwrapBraces?_valueText {v : Value} (h : v.isWord = false) (hkeeps : keepsBraces v = true) :
    unwrapBraces? (valueText v) = none := by
  cases v with
  | string s => simp [unwrapBraces?, valueText, print, Value.scalarText, Value.quoted]
  | array items =>
    rcases valueText_cases (.array items) with ⟨heq, -⟩ | ⟨items', t, -, -, heq⟩
    · simp [unwrapBraces?, heq, print]
    · simp [unwrapBraces?, heq]
  | object fields =>
    have hinner : inner (valueText (.object fields)) = printFields fields :=
      inner_enclosed '\x7b' '\x7d' _
    have hstays : ((printFields fields).isEmpty || hasKeyShape (printFields fields)) = true := by
      cases fields with
      | nil => rfl
      | cons f fs => simp only [keepsBraces] at hkeeps; simp [hkeeps]
    simp only [unwrapBraces?, hinner, trim_printFields, hstays, Bool.true_or, if_true, ite_self]
  | null | bool _ | int _ | float _ => simp [Value.isWord] at h

lemma literal?_valueText {v : Value} (hword : v.isWord = false) (h : v.Storable) :
    Relaxed.literal? (valueText v) = some v := by
  obtain ⟨c, cs, hcons, hopens⟩ := exists_valueText_of_not_isWord hword
  have hblank : isBlank c = false := by
    simp only [opens, Bool.or_eq_true, beq_iff_eq] at hopens
    rcases hopens with (rfl | rfl) | rfl <;> decide
  have hstart : c = '\x7b' ∨ c = '[' ∨ Text.isQuote c = true := by
    simp only [opens, Bool.or_eq_true, beq_iff_eq] at hopens
    rcases hopens with (rfl | rfl) | rfl <;> decide
  have hread : Relaxed.element? (2 * (valueText v).length + 2) .array (valueText v) =
      some (v, []) := by
    rcases valueText_cases v with ⟨heq, -⟩ | ⟨items, t, rfl, hbracket, heq⟩
    · have hprint : Relaxed.element? (2 * (print v).length + 2) .array (print v ++ []) =
          some (v, []) := Relaxed.readsBack h (by omega) (by simp [hword])
      rw [heq]
      simpa using hprint
    · -- the blank stands in front of the first item, where it does not count
      cases h with
      | array hitems =>
        have hread : Relaxed.items? (2 * (valueText (.array items)).length + 1)
            (' ' :: (printItems items ++ [']'])) = some (items, []) :=
          Relaxed.items?_printItems (fun v hv => Relaxed.readsBack (hitems v hv))
            (by simp [heq]; omega) (by rw [hbracket]; rfl)
        simp only [Relaxed.element?, heq] at hread ⊢
        simp only [Relaxed.skipBlank_eq_self (show isBlank '[' = false by decide), hread]
        rfl
  have hskip : Relaxed.skipBlank (valueText v) = valueText v := by
    rw [hcons]; exact Relaxed.skipBlank_eq_self hblank
  simp only [Relaxed.literal?, hskip]
  rw [hcons] at hread ⊢
  simp only [hstart, if_true, hread]
  rfl

lemma keyword?_of_number {cs : List Char} {v : Value} (h : Numeral.value? cs = some v) :
    keyword? cs = none := by
  have hnot : ∀ w : List Char, Numeral.value? w = none → cs ≠ w := by
    rintro w hw rfl
    simp [hw] at h
  simp only [keyword?, hnot "true".toList (by decide +kernel), hnot "false".toList (by decide +kernel),
    hnot "null".toList (by decide +kernel), if_false]

/-- A value comes back from its text as an argument. -/
theorem value_valueText {v : Value} (h : v.Storable) (hkeeps : keepsBraces v = true) :
    value (valueText v) = v := by
  have htidy := tidy_valueText v
  by_cases hword : v.isWord = true
  · have htext := valueText_of_isWord hword
    rw [htext] at htidy ⊢
    have hnumber : Numeral.value? v.scalarText = some v → value v.scalarText = v := fun hn =>
      value_of_number (by rw [htidy]; exact keyword?_of_number hn) (by rw [htidy]; exact hn)
    cases h with
    | null => exact value_of_keyword (by decide)
    | bool b => cases b <;> exact value_of_keyword (by decide)
    | int hi => exact hnumber (Numeral.value?_toString hi)
    | float hx => exact hnumber (Numeral.value?_text hx)
    | string _ | array _ | object _ _ => simp [Value.isWord] at hword
  · have hword := Bool.eq_false_iff.2 hword
    obtain ⟨c, cs, hcons, hopens⟩ := exists_valueText_of_not_isWord hword
    have hkeyword : keyword? (valueText v) = none := by
      rw [hcons]; exact keyword?_of_opens hopens cs
    have hnumber : Numeral.value? (valueText v) = none := by
      rw [hcons]; exact number?_of_opens hopens (by rw [← hcons]; exact trim_valueText v)
    exact value_of_literal (by rw [htidy]; exact hkeyword) (by rw [htidy]; exact hnumber)
      (by rw [htidy]; exact unwrapDouble?_valueText hword)
      (by rw [htidy]; exact unwrapBraces?_valueText hword hkeeps)
      (by rw [htidy]; exact literal?_valueText hword h)

end CommentBlocks.Coerce
