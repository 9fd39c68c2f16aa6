import CommentBlocks.Proofs.Argument.Enclosing
import CommentBlocks.Proofs.Text.Splitting

/-!
Which literals an argument keeps: those from which neither doubled nor redundant brackets come off.
Brackets that come off leave another value behind, an array with less arrays in front, or no object.
-/

namespace CommentBlocks

namespace Value

/-- How many arrays are inside each other, each the first item of the one around it. -/
def chain : Value → Nat
  | array [] => 1
  | array (v :: _) => chain v + 1
  | _ => 0

lemma chain_of_depth {v : Value} (h : v.depth = 0) : v.chain = 0 := by
  cases v with
  | array items => simp [depth] at h
  | null | bool _ | int _ | float _ | string _ | object _ => simp [chain]

end Value

namespace Coerce

open Text (trim isQuote)
open Unicode (isBlank)
open Relaxed (skipBlank Blanks Part Derives Dialect IsLiteral)

/-! ### The brackets in front -/

/-- The square brackets among the white space, commas and opening brackets in front. -/
def lead : List Char → Nat
  | [] => 0
  | c :: cs =>
    if c = '[' then lead cs + 1
    else if isBlank c || c == ',' || c == '\x7b' then lead cs
    else 0

lemma lead_append_le (a b : List Char) : lead a ≤ lead (a ++ b) := by
  induction a with
  | nil => simp [lead]
  | cons c a ih =>
    simp only [List.cons_append, lead]
    split
    · omega
    · split <;> omega

lemma lead_of_isPrefix {a b : List Char} (h : a <+: b) : lead a ≤ lead b := by
  obtain ⟨tail, rfl⟩ := h
  exact lead_append_le a tail

lemma lead_cons_of_isBlank {c : Char} (h : isBlank c = true) (cs : List Char) :
    lead (c :: cs) = lead cs := by
  have hne : c ≠ '[' := by rintro rfl; exact absurd h (by decide)
  simp [lead, hne, h]

lemma lead_append_of_blanks {a : List Char} (h : Blanks a) (cs : List Char) :
    lead (a ++ cs) = lead cs := by
  induction a with
  | nil => rfl
  | cons c a ih =>
    obtain ⟨hc, ha⟩ := List.forall_mem_cons.1 h
    rw [List.cons_append, lead_cons_of_isBlank hc, ih ha]

lemma lead_skipBlank (cs : List Char) : lead (skipBlank cs) = lead cs := by
  obtain ⟨a, ha, hcs⟩ := Relaxed.exists_blanks cs
  conv_rhs => rw [hcs]
  exact (lead_append_of_blanks ha _).symm

lemma lead_tidy_le (raw : List Char) : lead (tidy raw) ≤ lead raw := by
  rw [← lead_skipBlank raw]
  exact lead_of_isPrefix (tidy_isPrefix raw)

lemma lead_trim_le (cs : List Char) : lead (trim cs) ≤ lead cs := by
  rw [← lead_skipBlank cs]
  exact lead_of_isPrefix (Text.trimEndBy_isPrefix isBlank _)

lemma lead_of_first {c : Char} (hblank : isBlank c = false) (hc : c ∉ ['[', ',', '\x7b'])
    (cs : List Char) : lead (c :: cs) = 0 := by
  simp only [List.mem_cons, List.not_mem_nil, or_false, not_or] at hc
  simp [lead, hblank, hc]

def Leads : Part → List Char → Prop
  | .literal v, text | .element _ v, text => ∀ rest, lead (text ++ rest) = v.chain
  | .items vs, text => ∀ rest, lead (text ++ ']' :: rest) + 1 = (Value.array vs).chain
  | .fields _, text => ∀ rest, lead (text ++ '\x7d' :: rest) = 0

lemma lead_of_names {k : String} {name : List Char} (h : Relaxed.Names .reader k name)
    (rest : List Char) : lead (name ++ rest) = 0 := by
  obtain ⟨c, cs, rfl, hblank, hc⟩ := h.exists_cons
  refine lead_of_first hblank ?_ _
  simp only [List.mem_cons, List.not_mem_nil, or_false, not_or]
  refine ⟨?_, ?_, ?_⟩ <;> (rintro rfl; rcases hc with hc | hc <;> exact absurd hc (by decide))

lemma leads_of_derives {part : Part} {text : List Char} (h : Derives .reader part text) :
    Leads part text := by
  induction h with
  | @string quote text s hquote _ =>
    intro rest
    have hfirst : quote ∉ ['[', ',', '\x7b'] := by
      simp only [isQuote, Bool.or_eq_true, beq_iff_eq] at hquote
      rcases hquote with (rfl | rfl) | rfl <;> decide
    rw [List.cons_append, lead_of_first (Relaxed.not_isBlank_of_isQuote hquote) hfirst,
      Value.chain_of_depth rfl]
  | array _ ih =>
    intro rest
    rw [← ih rest]
    simp [lead]
  | object _ _ ih =>
    intro rest
    simpa [lead, Value.chain] using ih rest
  | nested _ ih => exact ih
  | @word holder v text h =>
    intro rest
    obtain ⟨hword, rfl⟩ := h
    obtain ⟨c, cs, rfl⟩ := List.exists_cons_of_ne_nil hword.ne_nil
    have hinside := hword.inside c List.mem_cons_self
    rw [Value.chain_of_depth (Relaxed.depth_wordValue _), List.cons_append,
      lead_of_first (hword.first c rfl).1]
    simp only [List.mem_cons, List.not_mem_nil, or_false, not_or]
    refine ⟨?_, ?_, ?_⟩ <;> (rintro rfl; simp [Relaxed.Holder.endsWord] at hinside)
  | noItems ha =>
    intro rest
    rw [lead_append_of_blanks ha, lead_of_first (by decide) (by decide), Value.chain]
  | lastItem ha _ _ ih | item ha _ _ _ ih =>
    intro rest
    rw [List.append_assoc, lead_append_of_blanks ha, List.append_assoc, ih, Value.chain]
  | noFields ha =>
    intro rest
    rw [lead_append_of_blanks ha, lead_of_first (by decide) (by decide)]
  | lastField ha hname | field ha hname =>
    intro rest
    rw [List.append_assoc, lead_append_of_blanks ha, List.append_assoc, lead_of_names hname]

lemma lead_of_literal? {cs : List Char} {v : Value} (h : Relaxed.literal? cs = some v) :
    lead cs = v.chain := by
  obtain ⟨a, core, b, rfl, ha, -, hderives⟩ := Relaxed.literal?_eq_some_iff.1 h
  rw [lead_append_of_blanks ha]
  exact leads_of_derives hderives b

/-! ### What the stages leave in front -/

lemma lead_inner_le {cs rest : List Char} (hcs : cs = '[' :: rest ∨ cs = '\x7b' :: rest) :
    lead (inner cs) ≤ lead cs := by
  rcases hcs with rfl | rfl
  · have := lead_of_isPrefix (inner_cons_isPrefix '[' rest)
    simp only [lead, if_true]
    omega
  · simpa [lead] using lead_of_isPrefix (inner_cons_isPrefix '\x7b' rest)

/-- The first of the items between commas is as far in front as the text. -/
lemma lead_of_items {pieces items : List (List Char)} {item : List Char}
    (h : (pieces.map trim).filter (!·.isEmpty) = item :: items) :
    lead item ≤ lead (Text.joinWith [','] pieces) := by
  induction pieces with
  | nil => simp at h
  | cons piece pieces ih =>
    have hprefix : piece <+: Text.joinWith [','] (piece :: pieces) := by
      cases pieces with
      | nil => exact List.prefix_refl _
      | cons q ps => exact ⟨[','] ++ Text.joinWith [','] (q :: ps), by simp [Text.joinWith]⟩
    by_cases hempty : (trim piece).isEmpty = true
    · rw [List.map_cons, List.filter_cons_of_neg (by simp [hempty])] at h
      cases pieces with
      | nil => simp at h
      | cons q ps =>
        have hblanks : Blanks piece := Relaxed.blanks_of_trim (List.isEmpty_iff.1 hempty)
        rw [Text.joinWith_cons (by simp), lead_append_of_blanks hblanks]
        simpa [lead] using ih h
    · rw [List.map_cons, List.filter_cons_of_pos (by simpa using hempty)] at h
      obtain ⟨rfl, -⟩ := List.cons.inj h
      exact (lead_trim_le piece).trans (lead_of_isPrefix hprefix)

/-- The value of an argument has no more arrays in front than its text has square brackets. -/
lemma chain_le_of_gives {raw : List Char} {v : Value} (h : Gives raw v) : v.chain ≤ lead raw := by
  induction h with
  | flat h => rw [Value.chain_of_depth h]; exact Nat.zero_le _
  | @double raw r v hr _ ih =>
    obtain ⟨rfl, -, k, rest, hk, hcs⟩ := eq_of_unwrapDouble? hr
    have hfirst : tidy raw = '[' :: k.opening :: rest ∨ tidy raw = '\x7b' :: k.opening :: rest := by
      rcases hk with rfl | rfl
      · exact .inr hcs
      · exact .inl hcs
    exact ih.trans ((lead_inner_le hfirst).trans (lead_tidy_le raw))
  | @braces raw r v hr _ ih =>
    obtain ⟨rfl, -, rest, hcs⟩ := eq_of_unwrapBraces? hr
    exact ih.trans ((lead_trim_le _).trans ((lead_inner_le (.inr hcs)).trans (lead_tidy_le raw)))
  | @literal raw v h => exact (lead_of_literal? h).symm.le.trans (lead_tidy_le raw)
  | @items raw items hitems _ ih =>
    obtain ⟨body, hcs, heq⟩ := eq_of_listItems? hitems
    have htext : lead body + 1 ≤ lead (tidy raw) := by
      rw [hcs, lead, if_pos rfl]
      exact Nat.succ_le_succ (lead_append_le body [']'])
    refine le_trans ?_ (htext.trans (lead_tidy_le raw))
    cases items with
    | nil => simp [Value.chain]
    | cons item items =>
      have hitem := lead_of_items heq.symm
      rw [Text.joinWith_splitAt] at hitem
      rw [List.map_cons, Value.chain]
      exact Nat.succ_le_succ ((ih item List.mem_cons_self).trans hitem)

/-! ### Objects -/

lemma exists_skipBlank_of_tidy {raw cs : List Char} {c : Char} (h : tidy raw = c :: cs) :
    ∃ rest, skipBlank raw = c :: rest := by
  obtain ⟨tail, htail⟩ := tidy_isPrefix raw
  rw [h] at htail
  exact ⟨cs ++ tail, htail.symm⟩

lemma eq_nil_of_tidy {raw a cs : List Char} {c : Char} (h : tidy raw = a ++ c :: cs)
    (ha : Blanks a) : a = [] := by
  cases a with
  | nil => rfl
  | cons d a =>
    obtain ⟨rest, hrest⟩ := exists_skipBlank_of_tidy h
    have := Relaxed.not_isBlank_of_skipBlank hrest
    rw [ha d List.mem_cons_self] at this
    simp at this

lemma exists_skipBlank_of_object {raw : List Char} {v : Value} (h : Gives raw v) :
    ∀ fields, v = .object fields → ∃ rest, skipBlank raw = '\x7b' :: rest := by
  induction h with
  | flat h =>
    rintro fields rfl
    simp [Value.depth] at h
  | @double raw r v hr _ ih =>
    intro fields hv
    obtain ⟨rfl, -, k, rest, hk, hcs⟩ := eq_of_unwrapDouble? hr
    rcases hk with rfl | rfl
    · exact exists_skipBlank_of_tidy hcs
    · -- square brackets are still in front when the outer ones are off
      obtain ⟨tail, htail⟩ := ih fields hv
      rw [hcs] at htail
      cases rest with
      | nil => simp [inner, skipBlank] at htail
      | cons c rest =>
        have hinner : inner ('[' :: '[' :: c :: rest) = '[' :: (c :: rest).dropLast := rfl
        rw [show BracketKind.square.opening = '[' from rfl, hinner,
          Relaxed.skipBlank_eq_self (by decide)] at htail
        simp at htail
  | braces hr _ _ =>
    intro fields _
    obtain ⟨-, -, rest, hcs⟩ := eq_of_unwrapBraces? hr
    exact exists_skipBlank_of_tidy hcs
  | literal h =>
    rintro fields rfl
    obtain ⟨a, core, b, htext, ha, -, hderives⟩ := Relaxed.literal?_eq_some_iff.1 h
    cases hderives with
    | object _ _ =>
      obtain rfl := eq_nil_of_tidy htext ha
      exact exists_skipBlank_of_tidy htext
  | items _ _ _ => simp

/-! ### Literals -/

section Literal

variable {cs : List Char} {v : Value} (htrim : trim cs = cs) (h : Relaxed.literal? cs = some v)

include htrim h

lemma plain_of_literal? :
    tidy cs = cs ∧ keyword? cs = none ∧ Numeral.value? cs = none := by
  have hderives := Relaxed.derives_of_literal? htrim h
  obtain ⟨c, rest, rfl, hc⟩ := hderives.exists_opening
  obtain ⟨front, d, hconcat, hd⟩ := hderives.exists_closing
  have hopens : Numeral.isDigit c = false ∧ c ∉ ['.', '-', '+', 'e', 'E'] ∧ c ∉ ['t', 'f', 'n'] := by
    simp only [Relaxed.opensLiteral, isQuote, Bool.or_eq_true, beq_iff_eq] at hc
    rcases hc with rfl | rfl | (rfl | rfl) | rfl <;> decide
  have hcloses : d ≠ ',' := by
    rintro rfl
    simp [isQuote] at hd
  exact ⟨tidy_of_last htrim (by simpa [hconcat] using hcloses), keyword?_of_first hopens.2.2 rest,
    number?_of_first hopens.1 hopens.2.1 htrim⟩

lemma value_of_stays (hd : unwrapDouble? cs = none) (hb : unwrapBraces? cs = none) :
    value cs = v := by
  obtain ⟨htidy, hk, hn⟩ := plain_of_literal? htrim h
  exact value_of_literal (by rwa [htidy]) (by rwa [htidy]) (by rwa [htidy]) (by rwa [htidy])
    (by rwa [htidy])

lemma value_ne_of_double {r : List Char} (hd : unwrapDouble? cs = some r) : value cs ≠ v := by
  obtain ⟨htidy, hk, hn⟩ := plain_of_literal? htrim h
  have hvalue : value cs = value r :=
    value_of_double (by rwa [htidy]) (by rwa [htidy]) (by rwa [htidy])
  have hchain := chain_le_of_gives (gives_value r)
  have hlead := lead_of_literal? h
  obtain ⟨rfl, -, k, rest, hk', rfl⟩ := eq_of_unwrapDouble? hd
  rintro rfl
  rw [hvalue] at hlead
  rcases hk' with rfl | rfl
  · obtain ⟨es, fs, text, -, hrest, -, hfields⟩ :=
      (Relaxed.derives_of_literal? htrim h).fields_of_brace
    have hnone := unwrapDouble?_of_fields hfields
    rw [← hrest] at hnone
    exact absurd (hd.symm.trans hnone) (by simp)
  · have := lead_of_isPrefix (inner_cons_isPrefix '[' ('[' :: rest))
    simp only [BracketKind.opening, lead, if_true] at hlead hchain this
    omega

lemma value_ne_of_braces {r : List Char} (hd : unwrapDouble? cs = none)
    (hb : unwrapBraces? cs = some r) : value cs ≠ v := by
  obtain ⟨htidy, hk, hn⟩ := plain_of_literal? htrim h
  have hvalue : value cs = value r :=
    value_of_braces (by rwa [htidy]) (by rwa [htidy]) (by rwa [htidy]) (by rwa [htidy])
  obtain ⟨hr, hne, rest, rfl⟩ := eq_of_unwrapBraces? hb
  obtain ⟨es, fs, text, rfl, rfl, -, hfields⟩ :=
    (Relaxed.derives_of_literal? htrim h).fields_of_brace
  rw [← List.cons_append, inner_enclosed] at hr
  intro hv
  obtain ⟨tail, htail⟩ := exists_skipBlank_of_object (gives_value r) fs (hvalue.symm.trans hv)
  -- what is left starts where the first key does, and no key starts with a brace
  obtain ⟨c, cs, rfl⟩ := List.exists_cons_of_ne_nil hne
  obtain ⟨more, hskip⟩ : ∃ more, skipBlank text = c :: more := by
    obtain ⟨tail', htail'⟩ := Text.trimEndBy_isPrefix isBlank (skipBlank text)
    rw [show Text.trimEndBy isBlank (skipBlank text) = c :: cs from hr.symm] at htail'
    exact ⟨cs ++ tail', htail'.symm⟩
  have hblank := Relaxed.not_isBlank_of_skipBlank hskip
  rw [Relaxed.skipBlank_eq_self hblank] at htail
  obtain ⟨rfl, -⟩ := List.cons.inj htail
  obtain ⟨a, ha, htext⟩ := Relaxed.exists_blanks text
  have hfront : skipBlank (text ++ ['\x7d']) = '\x7b' :: (more ++ ['\x7d']) := by
    rw [htext, hskip, List.append_assoc, Relaxed.skipBlank_append ha]
    exact Relaxed.skipBlank_eq_self hblank
  exact hfields.fields_front hfront

lemma value_eq_iff : value cs = v ↔ unwrapDouble? cs = none ∧ unwrapBraces? cs = none := by
  constructor
  · intro hv
    have hdouble : unwrapDouble? cs = none :=
      Option.eq_none_iff_forall_ne_some.2 fun r hd => value_ne_of_double htrim h hd hv
    exact ⟨hdouble, Option.eq_none_iff_forall_ne_some.2 fun r hb =>
      value_ne_of_braces htrim h hdouble hb hv⟩
  · exact fun hnone => value_of_stays htrim h hnone.1 hnone.2

end Literal

/-! ### Keys that are known for such -/

/-- A key of ASCII letters, digits and few marks, or one in single or double quotes without such a quote
inside. -/
inductive IsKnownKey : List Char → Prop
  | bare {name : List Char} (hne : name ≠ []) (h : ∀ c ∈ name, isPlainKeyChar c = true) :
      IsKnownKey name
  | quoted {quote : Char} {text : List Char} (hquote : quote = '"' ∨ quote = '\'')
      (h : quote ∉ text) : IsKnownKey (quote :: (text ++ [quote]))

def StartsKnown (cs : List Char) : Prop :=
  ∃ a name b more, cs = a ++ (name ++ (b ++ ':' :: more)) ∧ Blanks a ∧ IsKnownKey name ∧ Blanks b

lemma not_isBlank_of_isPlainKeyChar {c : Char} (h : isPlainKeyChar c = true) : isBlank c = false := by
  simp only [isPlainKeyChar, Bool.or_eq_true, beq_iff_eq] at h
  rcases h with (((h | h) | rfl) | rfl) | rfl
  · exact Value.not_isBlank_of_isWordChar (by simp [Value.isWordChar, Char.isAlphanum, h])
  · exact Value.not_isBlank_of_isWordChar (by simp [Value.isWordChar, Char.isAlphanum, h])
  · decide
  · decide
  · decide

lemma not_isPlainKeyChar {b more : List Char} (hb : Blanks b) :
    ∀ c ∈ (b ++ ':' :: more).head?, isPlainKeyChar c = false := by
  intro c hc
  cases b with
  | nil =>
    obtain rfl : ':' = c := by simpa using hc
    decide
  | cons d b =>
    obtain rfl : d = c := by simpa using hc
    rw [Bool.eq_false_iff]
    intro hplain
    have := not_isBlank_of_isPlainKeyChar hplain
    rw [hb d List.mem_cons_self] at this
    simp at this

lemma IsKnownKey.afterKey?_eq {name b : List Char} (h : IsKnownKey name) (hb : Blanks b)
    (more : List Char) : afterKey? (name ++ (b ++ ':' :: more)) = some (b ++ ':' :: more) := by
  cases h with
  | bare hne h =>
    have hstop : (b ++ ':' :: more).dropWhile isPlainKeyChar = b ++ ':' :: more := by
      have hhead : ∀ c ∈ (b ++ ':' :: more).head?, isPlainKeyChar c = false := not_isPlainKeyChar hb
      cases htail : b ++ ':' :: more with
      | nil => rfl
      | cons c cs => simp [hhead c (by simp [htail])]
    obtain ⟨c, cs, rfl⟩ := List.exists_cons_of_ne_nil hne
    have hc := h c List.mem_cons_self
    have hquote : (c == '"' || c == '\'') = false := by
      rw [Bool.or_eq_false_iff]
      constructor <;> (rw [beq_eq_false_iff_ne]; rintro rfl; exact absurd hc (by decide))
    have hdrop : (cs ++ (b ++ ':' :: more)).dropWhile isPlainKeyChar = b ++ ':' :: more := by
      rw [List.dropWhile_append_of_pos fun d hd => h d (List.mem_cons_of_mem c hd), hstop]
    rw [List.cons_append]
    simp only [afterKey?, hquote, hc, Bool.false_eq_true, if_false, if_true, hdrop]
  | @quoted quote text hquote h =>
    have hdrop : (text ++ quote :: (b ++ ':' :: more)).dropWhile (· != quote) =
        quote :: (b ++ ':' :: more) := by
      rw [List.dropWhile_append_of_pos fun c hc => by
        rw [bne_iff_ne]
        rintro rfl
        exact h hc]
      simp
    have hquote : (quote == '"' || quote == '\'') = true := by simpa using hquote
    simp only [List.cons_append, List.append_assoc, List.nil_append, afterKey?, hquote, if_true, hdrop]

lemma StartsKnown.hasKeyShape_trim {cs : List Char} (h : StartsKnown cs) :
    hasKeyShape (trim cs) = true := by
  obtain ⟨a, name, b, more, rfl, ha, hname, hb⟩ := h
  obtain ⟨c, ds, hcons, hblank⟩ : ∃ c ds, name = c :: ds ∧ isBlank c = false := by
    cases hname with
    | bare hne h =>
      obtain ⟨c, ds, rfl⟩ := List.exists_cons_of_ne_nil hne
      exact ⟨c, ds, rfl, not_isBlank_of_isPlainKeyChar (h c List.mem_cons_self)⟩
    | quoted hquote _ => exact ⟨_, _, rfl, by rcases hquote with rfl | rfl <;> decide⟩
  have hstart : Text.trimStart (a ++ (name ++ (b ++ ':' :: more))) = name ++ (b ++ ':' :: more) := by
    have hskip := Relaxed.skipBlank_append ha (name ++ (b ++ ':' :: more))
    rw [hcons, List.cons_append, Relaxed.skipBlank_eq_self hblank] at hskip
    rw [hcons]
    exact hskip
  obtain ⟨more', hend⟩ : ∃ more',
      Text.trimEnd (name ++ (b ++ ':' :: more)) = name ++ (b ++ ':' :: more') := by
    have := Relaxed.trimEnd_append (name ++ b) (c := ':') (by decide) more
    exact ⟨_, by simpa using this⟩
  have hblanks : (name ++ (b ++ ':' :: more')).dropWhile isBlank = name ++ (b ++ ':' :: more') := by
    rw [hcons]
    exact Relaxed.skipBlank_eq_self hblank
  have hcolon : (b ++ ':' :: more').dropWhile isBlank = ':' :: more' :=
    (Relaxed.skipBlank_append hb _).trans (Relaxed.skipBlank_eq_self (by decide))
  rw [trim, hstart, hend]
  simp only [hasKeyShape, hblanks, hname.afterKey?_eq hb, hcolon, List.head?_cons, beq_self_eq_true]

/-- A literal is kept exactly if no brackets come off it. Without quotes and brackets in keys and bare
words this is so for all arrays but those of one item, and for objects with fields exactly if the text
in the braces starts like fields. -/
theorem value_eq_literal_iff {cs : List Char} {v : Value} (htrim : trim cs = cs)
    (h : Relaxed.literal? cs = some v) :
    (value cs = v ↔ unwrapDouble? cs = none ∧ unwrapBraces? cs = none) ∧
      (IsLiteral .still v cs →
        (∀ items, v = .array items → items.length ≠ 1 → value cs = v) ∧
        ∀ f fs, v = .object (f :: fs) →
          (value cs = v ↔ hasKeyShape (trim (inner cs)) = true) ∧
          (StartsKnown (inner cs) → value cs = v)) := by
  have hiff := value_eq_iff htrim h
  refine ⟨hiff, fun hstill => ⟨?_, ?_⟩⟩
  · rintro items rfl hlength
    have hderives := hstill.derives htrim
    refine hiff.2 ⟨unwrapDouble?_array hderives hlength, ?_⟩
    cases hderives with
    | array _ => simp [unwrapBraces?]
  · rintro f fs rfl
    have hderives := hstill.derives htrim
    have hbraces := unwrapBraces?_object hderives
    have hdouble : unwrapDouble? cs = none := by
      cases hderives with
      | object hfields _ => exact unwrapDouble?_of_fields (hfields.mono Relaxed.Dialect.still_within)
    have hshape : value cs = .object (f :: fs) ↔ hasKeyShape (trim (inner cs)) = true := by
      rw [hiff, hbraces]
      simp [hdouble]
    exact ⟨hshape, fun hknown => hshape.2 hknown.hasKeyShape_trim⟩

/-- A quote that stands in a key in other quotes leaves the braces where they are. -/
theorem value_literal_quoted_key :
    value "\x7b\"it's\": x\x7d".toList = .object [("it's", .string "x")] := by
  have hread : Relaxed.literal? "\x7b\"it's\": x\x7d".toList = some (.object [("it's", .string "x")]) := by
    decide +kernel
  have hnone : Blanks [] := Relaxed.blanks_nil
  have hone : Blanks [' '] := List.forall_mem_singleton.2 (by decide)
  have hspells : Relaxed.Spells '"' "it's".toList "it's".toList :=
    .plain (by decide) (by decide) <| .plain (by decide) (by decide) <|
      .plain (by decide) (by decide) <| .plain (by decide) (by decide) .nil
  have hword : Relaxed.Dialect.still.word .object ['x'] (.string "x") :=
    ⟨⟨Relaxed.isBareWord_of_wordText (by decide) (by decide), by decide +kernel⟩,
      List.forall_mem_singleton.2 (by decide)⟩
  have hfields := Derives.lastField (D := .still) hnone (.quoted rfl hspells) hnone hone
    (.word hword) hnone
  have hstill : IsLiteral .still (.object [("it's", .string "x")]) "\x7b\"it's\": x\x7d".toList :=
    ⟨[], _, [], rfl, hnone, hnone, .object hfields (Fields.collects_ofList _)⟩
  have hknown : StartsKnown (inner "\x7b\"it's\": x\x7d".toList) :=
    ⟨[], _, [], " x".toList, rfl, hnone,
      .quoted (.inl rfl) (show '"' ∉ "it's".toList by decide), hnone⟩
  exact (((value_eq_literal_iff (by decide +kernel) hread).2 hstill).2 _ _ rfl).2 hknown

/-- Braces come off an object whose first key is not of ASCII, and doubled brackets off an array of two
whose items hold a quote each. -/
theorem value_ne_literal :
    (Relaxed.literal? "\x7bé: 1\x7d".toList = some (.object [("é", .int 1)]) ∧
      value "\x7bé: 1\x7d".toList = .string "é: 1") ∧
    Relaxed.literal? "[[a'b], [c'd]]".toList =
        some (.array [.array [.string "a'b"], .array [.string "c'd"]]) ∧
      value "[[a'b], [c'd]]".toList = .array [.string "a'b]", .string "[c'd"] := by
  decide +kernel

end Coerce

end CommentBlocks
