import CommentBlocks.Proofs.Value.Derived

/-!
The relaxed literals that users are told of: strings in three kinds of quotes, keys without quotes, and
words that stand for a keyword, an integer of 64 bits or themselves. The reader takes all of them, for
the value that they denote.
-/

namespace CommentBlocks

namespace Numeral

open Unicode (isBlank)
open Text (not_isBlank_of_ascii)

/-- The text is a sign, or none; `true` stands for minus. -/
inductive IsSign : Bool → List Char → Prop
  | none : IsSign false []
  | plus : IsSign false ['+']
  | minus : IsSign true ['-']

/-- The text is a row of digits with a sign in front, for the integer. -/
inductive IsInteger : List Char → Int → Prop
  | digits {negative : Bool} {sg ds : List Char} (hsign : IsSign negative sg) (hne : ds ≠ [])
      (hds : ∀ c ∈ ds, c.isDigit = true) :
      IsInteger (sg ++ ds)
        (if negative then -(Nat.ofDigitChars 10 ds 0 : Int) else Nat.ofDigitChars 10 ds 0)

def IsExponent (cs : List Char) : Prop :=
  ∃ mark cs' i, cs = mark :: cs' ∧ (mark = 'e' ∨ mark = 'E') ∧ IsInteger cs' i

/-- The text is written like a number: a sign, digits with a point in front, behind or among them, and
an exponent. All but one of the digits can be missing. -/
def IsNumber (cs : List Char) : Prop :=
  ∃ negative sg whole places exponent, cs = sg ++ (whole ++ places ++ exponent) ∧
    IsSign negative sg ∧ (∀ c ∈ whole, c.isDigit = true) ∧
    (places = [] ∨ ∃ ds, places = '.' :: ds ∧ ∀ c ∈ ds, c.isDigit = true) ∧
    (∃ c ∈ whole ++ places, c.isDigit = true) ∧ (exponent = [] ∨ IsExponent exponent)

lemma exists_sign (cs : List Char) : ∃ sg, IsSign (sign cs).1 sg ∧ cs = sg ++ (sign cs).2 := by
  simp only [sign]
  split
  · exact ⟨['-'], .minus, rfl⟩
  · exact ⟨['+'], .plus, rfl⟩
  · exact ⟨[], .none, rfl⟩

lemma sign_append {negative : Bool} {sg rest : List Char} (h : IsSign negative sg)
    (hrest : ∀ c ∈ rest.head?, c ≠ '-' ∧ c ≠ '+') : sign (sg ++ rest) = (negative, rest) := by
  cases h with
  | none => exact sign_of_ne hrest
  | plus => rfl
  | minus => rfl

lemma isInteger_of_digits {cs : List Char} (hne : (sign cs).2 ≠ [])
    (h : (sign cs).2.all isDigit = true) : ∃ i, IsInteger cs i := by
  obtain ⟨sg, hsg, hcs⟩ := exists_sign cs
  rw [hcs]
  refine ⟨_, .digits hsg hne fun c hc => ?_⟩
  rw [← isDigit_eq]
  exact List.all_eq_true.1 h c hc

lemma isNumber_of_isNumeral {cs : List Char} (h : isNumeral cs = true) : IsNumber cs := by
  obtain ⟨sg, hsg, hcs⟩ := exists_sign cs
  obtain ⟨mantissa, exponent, hcut⟩ : ∃ m e, cutExponent (sign cs).2 = (m, e) := ⟨_, _, rfl⟩
  simp only [isNumeral, hcut, isMantissa, Bool.and_eq_true, List.all_eq_true, Bool.or_eq_true,
    beq_iff_eq, List.any_eq_true, decide_eq_true_eq] at h
  obtain ⟨⟨⟨hchars, c, hc, hdigit⟩, hcount⟩, hexponent⟩ := h
  -- the exponent
  obtain ⟨tail, htail, hunsigned⟩ : ∃ tail, (tail = [] ∨ IsExponent tail) ∧
      (sign cs).2 = mantissa ++ tail := by
    simp only [cutExponent] at hcut
    split at hcut
    · obtain ⟨rfl, rfl⟩ := Prod.mk.inj hcut
      exact ⟨[], .inl rfl, (List.append_nil _).symm⟩
    · next mark e hdrop =>
      obtain ⟨rfl, rfl⟩ := Prod.mk.inj hcut
      refine ⟨mark :: e, .inr ?_, by rw [← hdrop, List.takeWhile_append_dropWhile]⟩
      have hmark := List.head?_dropWhile_not (!isExponentMark ·) (sign cs).2
      rw [hdrop] at hmark
      simp only [Option.all_some, isExponent, Bool.and_eq_true, Bool.not_eq_true',
        List.isEmpty_eq_false_iff] at hexponent
      obtain ⟨i, hi⟩ := isInteger_of_digits hexponent.1 hexponent.2
      exact ⟨mark, e, i, rfl, by simpa [isExponentMark, or_iff_not_imp_left] using hmark, hi⟩
  -- the point
  have hsplit := List.takeWhile_append_dropWhile (p := (· != '.')) (l := mantissa)
  refine ⟨_, sg, mantissa.takeWhile (· != '.'), mantissa.dropWhile (· != '.'), tail, ?_, hsg, ?_, ?_,
    ⟨c, by rwa [hsplit], by rwa [← isDigit_eq]⟩, htail⟩
  · rw [hsplit, ← hunsigned]
    exact hcs
  · intro d hd
    have hne := List.mem_takeWhile_imp hd
    rw [← isDigit_eq]
    exact (hchars d ((List.takeWhile_prefix _).subset hd)).resolve_right (by simpa using hne)
  · cases hdrop : mantissa.dropWhile (· != '.') with
    | nil => exact .inl rfl
    | cons d ds =>
      have hpoint := List.head?_dropWhile_not (· != '.') mantissa
      rw [hdrop] at hpoint
      obtain rfl : d = '.' := by simpa using hpoint
      refine .inr ⟨ds, rfl, fun e he => ?_⟩
      rw [hdrop] at hsplit
      have hnot : '.' ∉ ds := fun hmem => by
        have := List.one_le_count_iff.2 hmem
        rw [← hsplit, List.count_append, List.count_cons_self] at hcount
        omega
      rw [← isDigit_eq]
      refine (hchars e ?_).resolve_right fun heq => hnot (heq ▸ he)
      rw [← hsplit]
      exact List.mem_append_right _ (List.mem_cons_of_mem _ he)

namespace IsInteger

variable {cs : List Char} {i : Int}

lemma trim (h : IsInteger cs i) : Text.trim cs = cs := by
  obtain ⟨hsign, hne, hds⟩ := h
  have hdigit : ∀ c, c.isDigit = true → isBlank c = false := fun c hc =>
    not_isBlank_of_isDigit (by rwa [isDigit_eq])
  refine Text.trim_eq_self (fun c hc => ?_) fun c hc => ?_
  · cases hsign with
    | none => exact hdigit c (hds c (List.mem_of_mem_head? hc))
    | plus | minus => cases hc; decide
  · rw [List.getLast?_append_of_ne_nil _ hne] at hc
    exact hdigit c (hds c (List.mem_of_getLast? hc))

lemma exists_digits (h : IsInteger cs i) : ∃ negative ds, sign cs = (negative, ds) ∧ ds ≠ [] ∧
    (∀ c ∈ ds, isDigit c = true) ∧ withSign negative (ofDigits ds) = i := by
  obtain ⟨hsign, hne, hds⟩ := h
  have hdigits : ∀ c ∈ _, isDigit c = true := fun c hc => by rw [isDigit_eq]; exact hds c hc
  exact ⟨_, _, sign_append hsign fun c hc => ne_sign (.inl (hdigits c (List.mem_of_mem_head? hc))), hne,
    hdigits, rfl⟩

lemma isNumeral (h : IsInteger cs i) : isNumeral cs = true := by
  obtain ⟨negative, ds, hcut, hne, hdigits, -⟩ := h.exists_digits
  have hmantissa := isMantissa_digits hdigits hne
  have hnone := cutExponent_mantissa hmantissa [] (by simp)
  rw [List.append_nil] at hnone
  simp only [Numeral.isNumeral, hcut, hnone, hmantissa, List.tail?_nil, Option.all_none, Bool.and_self]

lemma integer?_eq (h : IsInteger cs i) : integer? cs = if inRange i then some i else none := by
  obtain ⟨negative, ds, hcut, hne, hdigits, rfl⟩ := h.exists_digits
  simp only [integer?, hcut]
  rw [if_neg (by simpa [hne] using hdigits)]

end IsInteger

lemma inRange_iff {i : Int} : inRange i = true ↔ -2 ^ 63 ≤ i ∧ i < 2 ^ 63 := by
  rw [inRange, Bool.and_eq_true, decide_eq_true_eq, decide_eq_true_eq]
  exact and_congr_right fun _ => Int.le_sub_one_iff

/-- An integer that fits 64 bits is read as such, with either sign and any zeros in front. -/
lemma value?_of_isInteger {cs : List Char} {i : Int} (h : IsInteger cs i) (hlow : -2 ^ 63 ≤ i)
    (hhigh : i < 2 ^ 63) : value? cs = some (.int i) := by
  have hinteger : integer? cs = some i := by rw [h.integer?_eq, if_pos (inRange_iff.2 ⟨hlow, hhigh⟩)]
  simp only [value?, h.trim, h.isNumeral, hinteger, Bool.not_true, Bool.false_eq_true, if_false]

example : value? "-007".toList = some (.int (-7)) := by decide +kernel

end Numeral

namespace Relaxed

open Numeral (IsInteger IsNumber)
open Unicode (isBlank)
open Text (isQuote)

/-- What is written between such quotes for a character of the string. -/
def writtenIn (quote c : Char) : List Char := if c = quote ∨ c = '\\' then ['\\', c] else [c]

structure IsPlainKey (name : List Char) : Prop where
  ne_nil : name ≠ []
  not_blank : ∀ c ∈ name, isBlank c = false
  inside : ∀ c ∈ name, c ∉ [':', ',', '[', ']', '\x7b', '\x7d', '"', '\'', '\x60']

structure IsPlainWord (text : List Char) : Prop where
  ne_nil : text ≠ []
  trimmed : ∀ c, c ∈ text.head? ∨ c ∈ text.getLast? → isBlank c = false
  first : ∀ c ∈ text.head?, c ∉ ['"', '\'', '\x60']
  inside : ∀ c ∈ text, c ∉ [',', '[', ']', '\x7b', '\x7d']
  not_number : ¬ IsNumber text
  not_keyword : String.ofList text ∉ ["true", "false", "null", "undefined"]

/-- What a text without quotes and brackets denotes. -/
inductive Denotes : List Char → Value → Prop
  | yes : Denotes "true".toList (.bool true)
  | no : Denotes "false".toList (.bool false)
  | null : Denotes "null".toList .null
  | integer {text : List Char} {i : Int} (h : IsInteger text i) (hlow : -2 ^ 63 ≤ i)
      (hhigh : i < 2 ^ 63) : Denotes text (.int i)
  | word {text : List Char} (h : IsPlainWord text) : Denotes text (.string (String.ofList text))

def Dialect.documented : Dialect where
  spells quote text s := text = s.flatMap (writtenIn quote)
  key := IsPlainKey
  word _ := Denotes

lemma spells_flatMap {quote : Char} (hquote : isQuote quote = true) (s : List Char) :
    Spells quote (s.flatMap (writtenIn quote)) s := by
  induction s with
  | nil => exact .nil
  | cons c s ih =>
    rw [List.flatMap_cons, writtenIn]
    split
    · next hc =>
      have hescape : escape c = c ∧ c ≠ 'u' := by
        simp only [isQuote, Bool.or_eq_true, beq_iff_eq] at hquote
        rcases hc with rfl | rfl
        · rcases hquote with (rfl | rfl) | rfl <;> decide
        · decide
      have := Spells.escaped hescape.2 ih
      rwa [hescape.1] at this
    · next hc =>
      rw [not_or] at hc
      exact .plain hc.1 hc.2 ih

lemma IsPlainKey.isBareKey {name : List Char} (h : IsPlainKey name) : IsBareKey name := by
  refine ⟨h.ne_nil, fun c hc => ?_⟩
  have hinside := h.inside c hc
  simp only [List.mem_cons, List.not_mem_nil, or_false, not_or] at hinside
  simp [endsKey, isQuote, h.not_blank c hc, hinside]

lemma not_endsWord {holder : Holder} {c : Char} (h : c ∉ [',', '[', ']', '\x7b', '\x7d']) :
    holder.endsWord c = false := by
  simp only [List.mem_cons, List.not_mem_nil, or_false, not_or] at h
  cases holder <;> simp [Holder.endsWord, h]

lemma IsPlainWord.isBareWord {holder : Holder} {text : List Char} (h : IsPlainWord text) :
    IsBareWord holder text where
  ne_nil := h.ne_nil
  first := by
    intro c hc
    have hfirst := h.first c hc
    simp only [List.mem_cons, List.not_mem_nil, or_false, not_or] at hfirst
    exact ⟨h.trimmed c (.inl hc), by simp [isQuote, hfirst]⟩
  last c hc := h.trimmed c (.inr hc)
  inside c hc := not_endsWord (h.inside c hc)

lemma IsPlainWord.wordValue {text : List Char} (h : IsPlainWord text) :
    wordValue text = .string (String.ofList text) := by
  have hne : ∀ w : String, w ∈ ["true", "false", "null", "undefined"] → text ≠ w.toList := by
    rintro w hw rfl
    exact h.not_keyword (by rwa [String.ofList_toList])
  have htrim : Text.trim text = text :=
    Text.trim_eq_self (fun c hc => h.trimmed c (.inl hc)) fun c hc => h.trimmed c (.inr hc)
  have hnumeral : Numeral.isNumeral text = false := by
    rw [Bool.eq_false_iff]
    exact fun hnumeral => h.not_number (Numeral.isNumber_of_isNumeral hnumeral)
  have hvalue : Numeral.value? text = none := by
    simp only [Numeral.value?, htrim, hnumeral, Bool.not_false, if_true]
  simp only [Relaxed.wordValue, hne "true" (by simp), hne "false" (by simp), hne "null" (by simp),
    hne "undefined" (by simp), or_self, if_false, hvalue, Option.getD_none]

lemma isBareWord_of_isInteger {holder : Holder} {text : List Char} {i : Int} (h : IsInteger text i) :
    IsBareWord holder text := by
  cases h with
  | @digits negative sg ds hsign hne hds =>
    have hsign : Value.WordText sg := by cases hsign <;> decide
    refine isBareWord_of_wordText (by simp [hne]) (hsign.append (Value.wordText_digits fun c hc => ?_))
    rw [Numeral.isDigit_eq]
    exact hds c hc

lemma isBareWord_of_denotes {holder : Holder} {text : List Char} {v : Value} (h : Denotes text v) :
    IsBareWord holder text ∧ wordValue text = v := by
  cases h with
  | yes => exact ⟨isBareWord_of_wordText (by decide) (by decide), by decide⟩
  | no => exact ⟨isBareWord_of_wordText (by decide) (by decide), by decide⟩
  | null => exact ⟨isBareWord_of_wordText (by decide) (by decide), by decide⟩
  | integer h hlow hhigh =>
    exact ⟨isBareWord_of_isInteger h, wordValue_of_value? (Numeral.value?_of_isInteger h hlow hhigh)⟩
  | word h => exact ⟨h.isBareWord, h.wordValue⟩

lemma Dialect.documented_within : Dialect.documented.Within .reader where
  spells := by
    rintro quote _ s hquote rfl
    exact spells_flatMap hquote s
  key h := h.isBareKey
  word h := isBareWord_of_denotes h

/-- The reader takes every literal that users are told of, for the value that it denotes. -/
theorem literal?_documented {text : List Char} {v : Value} (h : IsLiteral .documented v text) :
    literal? text = some v :=
  literal?_eq_some_iff.2 (h.mono Dialect.documented_within)

/-- Of two fields with one key the later one counts, and escaped quotes stand for themselves. -/
theorem literal?_documented_mixed :
    literal? " [ 'it\\'s', \x7ba: 1, \"b\": two words, a: -2,\x7d, true ] ".toList =
      some (.array [.string "it's",
        .object [("a", .int (-2)), ("b", .string "two words")], .bool true]) := by
  have hnone : Blanks [] := blanks_nil
  have hone : Blanks [' '] := List.forall_mem_singleton.2 (by decide)
  have hkey : IsPlainKey ['a'] :=
    ⟨by simp, List.forall_mem_singleton.2 (by decide), List.forall_mem_singleton.2 (by decide)⟩
  have hletters : ∀ c ∈ "two words".toList,
      c.isDigit = false ∧ c ∉ [',', '[', ']', '\x7b', '\x7d'] := by
    simp
  have hnumber : ¬ IsNumber "two words".toList := by
    rintro ⟨_, sg, whole, places, exponent, htext, -, -, -, ⟨c, hc, hdigit⟩, -⟩
    have hmem : c ∈ "two words".toList := by
      rw [htext]
      exact List.mem_append_right _ (List.mem_append_left _ hc)
    simp [(hletters c hmem).1] at hdigit
  have hword : IsPlainWord "two words".toList :=
    ⟨by decide, by rintro c (hc | hc) <;> cases hc <;> decide, by rintro c hc; cases hc; decide,
      fun c hc => (hletters c hc).2, hnumber, by decide⟩
  have hplus : IsInteger ['1'] 1 :=
    .digits .none (show ['1'] ≠ [] by simp) (List.forall_mem_singleton.2 (by decide))
  have hminus : IsInteger ['-', '2'] (-2) :=
    .digits .minus (show ['2'] ≠ [] by simp) (List.forall_mem_singleton.2 (by decide))
  have hb : Dialect.documented.spells '"' ['b'] ['b'] := rfl
  have hit : Dialect.documented.spells '\'' "it\\'s".toList "it's".toList := rfl
  have hfields := Derives.field (D := .documented) hnone (.bare hkey) hnone hone
    (.word (.integer hplus (by decide) (by decide))) hnone
    (.field hone (.quoted rfl hb) hnone hone (.word (.word hword)) hnone
      (.field hone (.bare hkey) hnone hone
        (.word (.integer hminus (by decide) (by decide))) hnone (.noFields hnone)))
  have hitems := Derives.item (D := .documented) hone
    (.nested (.string rfl hit)) hnone
    (.item hone (.nested (.object hfields (Fields.collects_ofList _))) hnone
      (.lastItem hone (.word .yes) hone))
  exact literal?_documented ⟨[' '], _, [' '], rfl, hone, hone, .array hitems⟩

end Relaxed

end CommentBlocks
