import CommentBlocks.Proofs.Argument.Braces
import CommentBlocks.Proofs.Argument.Staged

/-!
Literals whose keys and bare words hold neither quotes nor brackets: all brackets and quotes of their
text are in pairs, so that what looks for the partner of a bracket finds the one that the grammar
closes it with.
-/

namespace CommentBlocks

open Text (isQuote)
open Unicode (isBlank)

namespace Relaxed

def Still (text : List Char) : Prop :=
  ∀ c ∈ text, isQuote c = false ∧ BracketKind.ofOpening? c = none ∧ BracketKind.ofClosing? c = none

/-- What the reader takes, but for keys and bare words with quotes or brackets. -/
def Dialect.still : Dialect where
  spells := Spells
  key name := IsBareKey name ∧ Still name
  word holder text v := Dialect.reader.word holder text v ∧ Still text

lemma Dialect.still_within : Dialect.still.Within .reader where
  spells _ h := h
  key h := h.1
  word h := h.1

lemma Blanks.still {a : List Char} (h : Blanks a) : Still a := by
  intro c hc
  have hne : ∀ d, isBlank d = false → c ≠ d := by
    rintro d hd rfl
    simp [h c hc] at hd
  refine ⟨?_, ?_, ?_⟩
  · simp [isQuote, hne '"' (by decide), hne '\'' (by decide), hne '\x60' (by decide)]
  · simp [BracketKind.ofOpening?, hne '(' (by decide), hne '[' (by decide), hne '\x7b' (by decide)]
  · simp [BracketKind.ofClosing?, hne ')' (by decide), hne ']' (by decide), hne '\x7d' (by decide)]

/-- What can stand between two such quotes: a backslash takes the next character along. -/
inductive Quoted (quote : Char) : List Char → Prop
  | nil : Quoted quote []
  | plain {c : Char} {text : List Char} (hquote : c ≠ quote) (hslash : c ≠ '\\')
      (h : Quoted quote text) : Quoted quote (c :: text)
  | escaped {c : Char} {text : List Char} (h : Quoted quote text) : Quoted quote ('\\' :: c :: text)

lemma Spells.quoted {quote : Char} {text s : List Char} (hquote : isQuote quote = true)
    (h : Spells quote text s) : Quoted quote text := by
  induction h with
  | nil => exact .nil
  | plain hc hslash _ ih => exact .plain hc hslash ih
  | escaped _ _ ih => exact .escaped ih
  | @code a b c d x _ _ hx _ ih =>
    have hplain := plain_of_unicodeEscape? hquote hx
    have hdigit : ∀ e ∈ [a, b, c, d], ∀ {text}, Quoted quote text → Quoted quote (e :: text) :=
      fun e he _ => .plain (hplain e he).1 (hplain e he).2
    exact .escaped <| hdigit a (by simp) <| hdigit b (by simp) <| hdigit c (by simp) <|
      hdigit d (by simp) ih

end Relaxed

open Relaxed

namespace Bracket

lemma paired_still {text : List Char} (h : Still text) : Paired text := by
  induction text with
  | nil => exact paired_nil
  | cons c cs ih =>
    obtain ⟨⟨hquote, hopen, hclose⟩, hcs⟩ := List.forall_mem_cons.1 h
    exact (paired_char hquote hopen hclose).append (ih hcs)

/-- Over the text both readers go from one place with respect to quotes to the other. -/
structure Stays (q : QuoteState) (text : List Char) (q' : QuoteState) : Prop where
  balanced : ∀ stack rest, balancedFrom stack q (text ++ rest) = balancedFrom stack q' rest
  close : ∀ place depth rest, closeFrom? place (depth + 1) q (text ++ rest) =
    closeFrom? (place + text.length) (depth + 1) q' rest

lemma Stays.trans {q q' q'' : QuoteState} {a b : List Char} (ha : Stays q a q')
    (hb : Stays q' b q'') : Stays q (a ++ b) q'' where
  balanced := by
    intro stack rest
    rw [List.append_assoc, ha.balanced, hb.balanced]
  close := by
    intro place depth rest
    rw [List.append_assoc, ha.close, hb.close, List.length_append, Nat.add_assoc]

lemma Stays.paired {text : List Char} (h : Stays .outside text .outside) : Paired text :=
  ⟨h.balanced, h.close⟩

variable {quote : Char}

lemma stays_opening (h : isQuote quote = true) : Stays .outside [quote] (.inside quote) :=
  ⟨by simp [balancedFrom, h], by simp [closeFrom?, h]⟩

lemma stays_within (c : Char) : Stays (.inside quote) [c] (QuoteState.within quote c) :=
  ⟨by simp [balancedFrom], by simp [closeFrom?]⟩

lemma stays_taken (c : Char) : Stays (.escaped quote) [c] (.inside quote) :=
  ⟨by simp [balancedFrom], by simp [closeFrom?]⟩

lemma stays_plain {c : Char} (hquote : c ≠ quote) (hslash : c ≠ '\\') :
    Stays (.inside quote) [c] (.inside quote) := by
  have hwithin : QuoteState.within quote c = .inside quote := by
    rw [QuoteState.within, if_neg hslash, if_neg hquote]
  exact hwithin ▸ stays_within c

lemma stays_escape (c : Char) : Stays (.inside quote) ['\\', c] (.inside quote) :=
  (stays_within '\\').trans (stays_taken c)

lemma stays_quoted {text : List Char} (h : Quoted quote text) :
    Stays (.inside quote) text (.inside quote) := by
  induction h with
  | nil => exact ⟨by simp, by simp⟩
  | plain hc hslash _ ih => exact (stays_plain hc hslash).trans ih
  | escaped _ ih => exact (stays_escape _).trans ih

lemma paired_spells {text s : List Char} (hquote : isQuote quote = true) (h : Spells quote text s) :
    Paired (quote :: (text ++ [quote])) := by
  have hwithin : QuoteState.within quote quote = .outside := by
    rw [QuoteState.within, if_neg (ne_slash_of_isQuote hquote).symm, if_pos rfl]
  have hclosing : Stays (.inside quote) [quote] .outside := hwithin ▸ stays_within quote
  exact ((stays_opening hquote).trans ((stays_quoted (h.quoted hquote)).trans hclosing)).paired

lemma paired_names {k : String} {name : List Char} (h : Names .still k name) : Paired name := by
  cases h with
  | bare h => exact paired_still h.2
  | quoted hquote h => exact paired_spells hquote h

lemma paired_blanks {a : List Char} (h : Blanks a) : Paired a := paired_still h.still

/-- The brackets and quotes of a text without any in its keys and words are in pairs. -/
theorem paired_of_derives {part : Part} {text : List Char} (h : Derives .still part text) :
    Paired text := by
  induction h with
  | string hquote h => exact paired_spells hquote h
  | array _ ih => exact ih.enclose .square
  | object _ _ ih => exact ih.enclose .curly
  | nested _ ih => exact ih
  | word h => exact paired_still h.2
  | noItems ha | noFields ha => exact paired_blanks ha
  | lastItem ha _ hb ih => exact (paired_blanks ha).append (ih.append (paired_blanks hb))
  | item ha _ hb _ ih ihmore =>
    exact (paired_blanks ha).append (ih.append ((paired_blanks hb).append
      ((paired_mark (.inl rfl)).append ihmore)))
  | lastField ha hname hb hc _ hd ih =>
    exact (paired_blanks ha).append ((paired_names hname).append ((paired_blanks hb).append
      ((paired_mark (.inr rfl)).append ((paired_blanks hc).append (ih.append (paired_blanks hd))))))
  | field ha hname hb hc _ hd _ ih ihmore =>
    exact (paired_blanks ha).append ((paired_names hname).append ((paired_blanks hb).append
      ((paired_mark (.inr rfl)).append ((paired_blanks hc).append (ih.append ((paired_blanks hd).append
        ((paired_mark (.inl rfl)).append ihmore)))))))

lemma close?_enclosed {text : List Char} (h : Paired text) (k : BracketKind) (rest : List Char) :
    close? (k.opening :: (text ++ k.closing :: rest)) = some (text.length + 1) := by
  have hclose := h.close 1 0 (k.closing :: rest)
  have hopening : isQuote k.opening = false ∧ (BracketKind.ofOpening? k.opening).isSome = true := by
    cases k <;> decide
  have hclosing : isQuote k.closing = false ∧ BracketKind.ofOpening? k.closing = none ∧
      (BracketKind.ofClosing? k.closing).isSome = true := by
    cases k <;> decide
  rw [close?, closeFrom?]
  simp only [hopening, Bool.false_eq_true, if_false, if_true, Nat.zero_add]
  rw [hclose, closeFrom?]
  simp [hclosing, Nat.add_comm]

lemma balancedFrom_blanks {b : List Char} (hb : Blanks b) (stack : List BracketKind)
    (q : QuoteState) : balancedFrom stack q b = stack.isEmpty := by
  induction b generalizing q with
  | nil => simp [balancedFrom]
  | cons c b ih =>
    obtain ⟨hquote, hopen, hclose⟩ := hb.still c List.mem_cons_self
    have ih := ih fun d hd => hb d (List.mem_cons_of_mem _ hd)
    cases q <;> simp only [balancedFrom, hquote, hopen, hclose, ih, Bool.false_eq_true, if_false]

lemma balanced_trim (cs : List Char) : balanced (Text.trim cs) = balanced cs := by
  have hend : ∀ {b : List Char}, Blanks b → ∀ (text : List Char) (stack : List BracketKind)
      (q : QuoteState), balancedFrom stack q (text ++ b) = balancedFrom stack q text := by
    intro b hb text
    induction text with
    | nil =>
      intro stack q
      rw [List.nil_append, balancedFrom_blanks hb]
      simp [balancedFrom]
    | cons c text ih =>
      intro stack q
      cases q <;> simp only [List.cons_append, balancedFrom, ih]
  obtain ⟨a, b, ha, hb, hcs⟩ := exists_blanks_around cs
  rw [balanced, balanced]
  conv_rhs => rw [hcs, List.append_assoc, (paired_blanks ha).balanced, hend hb]

end Bracket

namespace Coerce

variable {cs : List Char}

lemma unwrapDouble?_array {vs : List Value} (h : Derives .still (.literal (.array vs)) cs)
    (hlength : vs.length ≠ 1) : unwrapDouble? cs = none := by
  refine Option.eq_none_iff_forall_ne_some.2 fun r hr => ?_
  obtain ⟨-, hclose, k, rest, -, hcs⟩ := eq_of_unwrapDouble? hr
  cases h with
  | @array _ text h =>
    obtain ⟨hk, hrest⟩ := List.cons.inj hcs
    rw [← hk] at hrest
    -- the inner bracket stands right in front of the first item
    have hstart : ∀ {a tail : List Char}, Blanks a → a ++ tail = '[' :: rest → a = [] := by
      intro a tail ha heq
      cases a with
      | nil => rfl
      | cons d a =>
        obtain ⟨rfl, -⟩ := List.cons.inj heq
        exact absurd (ha '[' List.mem_cons_self) (by decide)
    cases h with
    | noItems ha =>
      obtain rfl := hstart ha hrest
      simp at hrest
    | lastItem => simp at hlength
    | @item v vs a text b more ha h hb hmore =>
      simp only [List.append_assoc] at hrest
      obtain rfl := hstart ha hrest
      obtain ⟨c, ds, rfl, -⟩ := (h.mono Dialect.still_within).exists_cons
      obtain ⟨rfl, -⟩ := List.cons.inj hrest
      obtain ⟨us, inside, -, rfl, hinside⟩ :=
        (h.literal_of_element Dialect.still_within (.inr (.inl rfl))).items_of_bracket
      have hpartner := Bracket.close?_enclosed (Bracket.paired_of_derives hinside) .square
        (b ++ (',' :: more ++ [']']))
      simp only [BracketKind.opening, BracketKind.closing, List.nil_append, List.append_assoc,
        List.cons_append, List.drop_succ_cons, List.drop_zero] at hclose hpartner
      rw [hpartner] at hclose
      simp only [Option.some.injEq, List.length_cons, List.length_append, List.length_nil] at hclose
      omega

/-- Braces come off paired text, unless it is blank or starts like a field. -/
lemma unwrapBraces?_enclosed {text : List Char} (h : Bracket.Paired text) (hblanks : ¬ Blanks text) :
    unwrapBraces? ('\x7b' :: (text ++ ['\x7d'])) =
      if hasKeyShape (Text.trim text) then none else some (Text.trim text) := by
  have hclose := Bracket.close?_enclosed h .curly []
  have hinner : inner ('\x7b' :: (text ++ ['\x7d'])) = text := inner_enclosed '\x7b' '\x7d' text
  have hbalanced : Bracket.balanced (Text.trim text) = true := by rw [Bracket.balanced_trim, h.balanced_eq]
  have hne : (Text.trim text).isEmpty = false :=
    List.isEmpty_eq_false_iff.2 fun hnil => hblanks (Relaxed.blanks_of_trim hnil)
  simp only [BracketKind.opening, BracketKind.closing] at hclose
  have hlength : ('\x7b' :: (text ++ ['\x7d'])).length - 1 = text.length + 1 := by simp
  simp only [unwrapBraces?, hclose, hinner, hlength, hne, hbalanced, List.head?_cons,
    beq_self_eq_true, Bool.and_self, Bool.false_or, Bool.not_true, Bool.or_false, if_true]

lemma unwrapBraces?_object {f : String × Value} {fs : Fields}
    (h : Derives .still (.literal (.object (f :: fs))) cs) :
    unwrapBraces? cs =
      if hasKeyShape (Text.trim (inner cs)) then none else some (Text.trim (inner cs)) := by
  cases h with
  | @object es _ text h hfs =>
    have hinner : inner ('\x7b' :: (text ++ ['\x7d'])) = text := inner_enclosed '\x7b' '\x7d' text
    have hcolon : ':' ∈ text := by
      have hmem := hfs.mem List.mem_cons_self
      cases h with
      | noFields => simp at hmem
      | lastField | field => simp
    have hblanks : ¬ Blanks text := fun hall => absurd (hall ':' hcolon) (by decide)
    rw [hinner, unwrapBraces?_enclosed (Bracket.paired_of_derives h) hblanks]

end Coerce

end CommentBlocks
