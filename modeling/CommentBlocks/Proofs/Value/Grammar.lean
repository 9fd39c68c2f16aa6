import CommentBlocks.Proofs.Value.Storable
import Mathlib.Data.List.Basic

/-!
The grammar of relaxed literals.

A literal is a string, an array or an object. Its rules are the same for every dialect; a dialect says
which texts stand for a string between quotes, for a key and for a value without quotes. The widest
dialect is the one that the reader of literals knows.
-/

namespace CommentBlocks

namespace Fields

/-- The fields that entries set one after the other: of two with one key the later one counts. -/
def Collects (entries : List (String × Value)) (fields : Fields) : Prop :=
  Sorted fields ∧ ∀ k, get? k fields = entries.reverse.lookup k

lemma get?_eq_none {k : String} {fs : Fields} (h : ∀ f ∈ fs, k < f.1) : get? k fs = none := by
  induction fs with
  | nil => rfl
  | cons f fs ih =>
    obtain ⟨hf, hfs⟩ := List.forall_mem_cons.1 h
    rw [get?, if_neg (ne_of_gt hf), ih hfs]

/-- Sorted fields are known by what their keys have for values. -/
lemma Sorted.ext {fs gs : Fields} (hf : Sorted fs) (hg : Sorted gs)
    (h : ∀ k, get? k fs = get? k gs) : fs = gs := by
  induction fs generalizing gs with
  | nil =>
    cases gs with
    | nil => rfl
    | cons g gs =>
      have := h g.1
      simp [get?] at this
  | cons f fs ih =>
    obtain ⟨k, v⟩ := f
    rw [sorted_cons] at hf
    cases gs with
    | nil =>
      have := h k
      simp [get?] at this
    | cons g gs =>
      obtain ⟨l, w⟩ := g
      rw [sorted_cons] at hg
      -- the smaller one of the first keys would be missing on the other side
      have hkey : k = l := by
        rcases lt_trichotomy k l with hlt | heq | hgt
        · have hnone : get? k ((l, w) :: gs) = none := get?_eq_none <| List.forall_mem_cons.2
            ⟨hlt, fun g hmem => lt_trans hlt (hg.1 g hmem)⟩
          have := h k
          rw [hnone] at this
          simp [get?] at this
        · exact heq
        · have hnone : get? l ((k, v) :: fs) = none := get?_eq_none <| List.forall_mem_cons.2
            ⟨hgt, fun f hmem => lt_trans hgt (hf.1 f hmem)⟩
          have := h l
          rw [hnone] at this
          simp [get?] at this
      subst hkey
      have hvalue : v = w := by simpa [get?] using h k
      rw [hvalue, ih hf.2 hg.2 fun m => ?_]
      by_cases hm : m = k
      · rw [hm, get?_eq_none hf.1, get?_eq_none hg.1]
      · simpa [get?, Ne.symm hm] using h m

lemma sorted_insertAll {fs : Fields} (h : Sorted fs) (entries : List (String × Value)) :
    Sorted (insertAll fs entries) := by
  induction entries generalizing fs with
  | nil => exact h
  | cons e entries ih => exact ih (h.insert e.1 e.2)

lemma get?_insertAll (k : String) (fs : Fields) (entries : List (String × Value)) :
    get? k (insertAll fs entries) = (entries.reverse.lookup k).or (get? k fs) := by
  induction entries generalizing fs with
  | nil => simp [insertAll]
  | cons e entries ih =>
    obtain ⟨l, w⟩ := e
    have hstep : insertAll fs ((l, w) :: entries) = insertAll (insert l w fs) entries := rfl
    rw [hstep, ih, List.reverse_cons, List.lookup_append, Option.or_assoc]
    by_cases hk : k = l
    · subst hk; simp
    · have : (k == l) = false := beq_eq_false_iff_ne.2 hk
      simp [List.lookup_cons, this, get?_insert_of_ne hk]

lemma collects_ofList (entries : List (String × Value)) : Collects entries (ofList entries) :=
  ⟨sorted_insertAll sorted_nil entries, fun k => by simp [ofList, get?_insertAll, get?]⟩

lemma Collects.eq_ofList {entries : List (String × Value)} {fs : Fields} (h : Collects entries fs) :
    fs = ofList entries :=
  h.1.ext (collects_ofList entries).1 fun k => (h.2 k).trans ((collects_ofList entries).2 k).symm

lemma Collects.mem {entries : List (String × Value)} {fs : Fields} (h : Collects entries fs)
    {f : String × Value} (hf : f ∈ fs) : f ∈ entries := by
  rw [h.eq_ofList] at hf
  have hall : ∀ (es : List (String × Value)) (gs : Fields), f ∈ insertAll gs es → f ∈ gs ∨ f ∈ es := by
    intro es
    induction es with
    | nil => exact fun gs hmem => .inl hmem
    | cons e es ih =>
      intro gs hmem
      rcases ih (insert e.1 e.2 gs) hmem with hmem | hmem
      · rcases mem_insert hmem with rfl | hmem
        · exact .inr List.mem_cons_self
        · exact .inl hmem
      · exact .inr (List.mem_cons_of_mem _ hmem)
  exact (hall entries [] hf).resolve_left List.not_mem_nil

end Fields

namespace Relaxed

open Unicode (isBlank)
open Text (isQuote)

def Blanks (cs : List Char) : Prop := ∀ c ∈ cs, isBlank c = true

/-- What a dialect leaves open. -/
structure Dialect where
  /-- The text between two such quotes stands for the string. -/
  spells (quote : Char) (text s : List Char) : Prop
  /-- The text is a key without quotes. -/
  key (text : List Char) : Prop
  /-- The text without quotes or brackets stands for the value, as an element of the holder. -/
  word (holder : Holder) (text : List Char) (v : Value) : Prop

/-- What a piece of text is read as. -/
inductive Part where
  | literal (v : Value)
  | element (holder : Holder) (v : Value)
  /-- All that stands between the brackets of an array. -/
  | items (vs : List Value)
  /-- All that stands between the brackets of an object. -/
  | fields (entries : List (String × Value))

variable (D : Dialect)

inductive Names : String → List Char → Prop
  | bare {name : List Char} (h : D.key name) : Names (String.ofList name) name
  | quoted {quote : Char} {text s : List Char} (hquote : isQuote quote = true)
      (h : D.spells quote text s) : Names (String.ofList s) (quote :: (text ++ [quote]))

/-- The rules of the grammar. White space may stand around elements, keys and punctuation, and a comma
after the last element. -/
inductive Derives : Part → List Char → Prop
  | string {quote : Char} {text s : List Char} (hquote : isQuote quote = true)
      (h : D.spells quote text s) :
      Derives (.literal (.string (String.ofList s))) (quote :: (text ++ [quote]))
  | array {vs : List Value} {text : List Char} (h : Derives (.items vs) text) :
      Derives (.literal (.array vs)) ('[' :: (text ++ [']']))
  | object {entries : List (String × Value)} {fs : Fields} {text : List Char}
      (h : Derives (.fields entries) text) (hfs : Fields.Collects entries fs) :
      Derives (.literal (.object fs)) ('\x7b' :: (text ++ ['\x7d']))
  | nested {holder : Holder} {v : Value} {text : List Char} (h : Derives (.literal v) text) :
      Derives (.element holder v) text
  | word {holder : Holder} {v : Value} {text : List Char} (h : D.word holder text v) :
      Derives (.element holder v) text
  | noItems {a : List Char} (ha : Blanks a) : Derives (.items []) a
  | lastItem {v : Value} {a text b : List Char} (ha : Blanks a)
      (h : Derives (.element .array v) text) (hb : Blanks b) :
      Derives (.items [v]) (a ++ (text ++ b))
  | item {v : Value} {vs : List Value} {a text b more : List Char} (ha : Blanks a)
      (h : Derives (.element .array v) text) (hb : Blanks b) (hmore : Derives (.items vs) more) :
      Derives (.items (v :: vs)) (a ++ (text ++ (b ++ ',' :: more)))
  | noFields {a : List Char} (ha : Blanks a) : Derives (.fields []) a
  | lastField {k : String} {v : Value} {a name b c text d : List Char} (ha : Blanks a)
      (hname : Names D k name) (hb : Blanks b) (hc : Blanks c)
      (h : Derives (.element .object v) text) (hd : Blanks d) :
      Derives (.fields [(k, v)]) (a ++ (name ++ (b ++ ':' :: (c ++ (text ++ d)))))
  | field {k : String} {v : Value} {es : List (String × Value)} {a name b c text d more : List Char}
      (ha : Blanks a) (hname : Names D k name) (hb : Blanks b) (hc : Blanks c)
      (h : Derives (.element .object v) text) (hd : Blanks d) (hmore : Derives (.fields es) more) :
      Derives (.fields ((k, v) :: es))
        (a ++ (name ++ (b ++ ':' :: (c ++ (text ++ (d ++ ',' :: more))))))

def IsLiteral (v : Value) (text : List Char) : Prop :=
  ∃ a core b, text = a ++ (core ++ b) ∧ Blanks a ∧ Blanks b ∧ Derives D (.literal v) core

variable {D}

structure Dialect.Within (D E : Dialect) : Prop where
  spells : ∀ {quote text s}, isQuote quote = true → D.spells quote text s → E.spells quote text s
  key : ∀ {text}, D.key text → E.key text
  word : ∀ {holder text v}, D.word holder text v → E.word holder text v

lemma Dialect.Within.refl : D.Within D := ⟨fun _ h => h, id, id⟩

lemma Names.mono {E : Dialect} (hDE : D.Within E) {k : String} {text : List Char}
    (h : Names D k text) : Names E k text := by
  cases h with
  | bare h => exact .bare (hDE.key h)
  | quoted hquote h => exact .quoted hquote (hDE.spells hquote h)

lemma Derives.mono {E : Dialect} (hDE : D.Within E) {part : Part} {text : List Char}
    (h : Derives D part text) : Derives E part text := by
  induction h with
  | string hquote h => exact .string hquote (hDE.spells hquote h)
  | array _ ih => exact .array ih
  | object _ hfs ih => exact .object ih hfs
  | nested _ ih => exact .nested ih
  | word h => exact .word (hDE.word h)
  | noItems ha => exact .noItems ha
  | lastItem ha _ hb ih => exact .lastItem ha ih hb
  | item ha _ hb _ ih ihmore => exact .item ha ih hb ihmore
  | noFields ha => exact .noFields ha
  | lastField ha hname hb hc _ hd ih => exact .lastField ha (hname.mono hDE) hb hc ih hd
  | field ha hname hb hc _ hd _ ih ihmore =>
    exact .field ha (hname.mono hDE) hb hc ih hd ihmore

lemma IsLiteral.mono {E : Dialect} (hDE : D.Within E) {v : Value} {text : List Char}
    (h : IsLiteral D v text) : IsLiteral E v text := by
  obtain ⟨a, core, b, htext, ha, hb, hderives⟩ := h
  exact ⟨a, core, b, htext, ha, hb, hderives.mono hDE⟩

/-! ### The dialect of the reader -/

/-- The text between quotes as the reader takes it: a backslash takes the next character along, and
four hexadecimal digits behind the letter `u`. -/
inductive Spells (quote : Char) : List Char → List Char → Prop
  | nil : Spells quote [] []
  | plain {c : Char} {text s : List Char} (hquote : c ≠ quote) (hslash : c ≠ '\\')
      (h : Spells quote text s) : Spells quote (c :: text) (c :: s)
  | escaped {c : Char} {text s : List Char} (hc : c ≠ 'u') (h : Spells quote text s) :
      Spells quote ('\\' :: c :: text) (escape c :: s)
  | code {a b c d x : Char} {text s : List Char} (hx : unicodeEscape? [a, b, c, d] = some x)
      (h : Spells quote text s) : Spells quote ('\\' :: 'u' :: a :: b :: c :: d :: text) (x :: s)

/-- A key without quotes, as the reader takes it. -/
def IsBareKey (name : List Char) : Prop := name ≠ [] ∧ ∀ c ∈ name, endsKey c = false

structure IsBareWord (holder : Holder) (text : List Char) : Prop where
  ne_nil : text ≠ []
  first : ∀ c ∈ text.head?, isBlank c = false ∧ isQuote c = false
  last : ∀ c ∈ text.getLast?, isBlank c = false
  inside : ∀ c ∈ text, holder.endsWord c = false

/-- All that the reader of literals takes. -/
def Dialect.reader : Dialect where
  spells := Spells
  key := IsBareKey
  word holder text v := IsBareWord holder text ∧ wordValue text = v

end Relaxed

end CommentBlocks
