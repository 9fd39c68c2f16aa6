import CommentBlocks.Proofs.Value.Grammar
import CommentBlocks.Proofs.Value.Printed

/-!
The pieces of relaxed literals: white space, strings between quotes, keys and bare words. What the
grammar says of each of them and what its reader takes are the same.
-/

namespace CommentBlocks.Relaxed

open Unicode (isBlank)
open Text (isQuote)

/-! ### White space -/

lemma blanks_nil : Blanks [] := by simp [Blanks]

lemma skipBlank_append {a : List Char} (ha : Blanks a) (cs : List Char) :
    skipBlank (a ++ cs) = skipBlank cs := by
  simp [skipBlank, List.dropWhile_append_of_pos ha]

lemma Blanks.append {a b : List Char} (ha : Blanks a) (hb : Blanks b) : Blanks (a ++ b) :=
  fun c hc => (List.mem_append.1 hc).elim (ha c) (hb c)

lemma exists_blanks (cs : List Char) : ∃ a, Blanks a ∧ cs = a ++ skipBlank cs :=
  ⟨cs.takeWhile isBlank, fun _ hc => List.mem_takeWhile_imp hc,
    (List.takeWhile_append_dropWhile (p := isBlank)).symm⟩

lemma not_isBlank_of_skipBlank {cs rest : List Char} {c : Char} (h : skipBlank cs = c :: rest) :
    isBlank c = false := by
  have := List.head?_dropWhile_not isBlank cs
  rw [show cs.dropWhile isBlank = c :: rest from h] at this
  simpa using this

lemma blanks_of_skipBlank {cs : List Char} (h : skipBlank cs = []) : Blanks cs :=
  List.dropWhile_eq_nil_iff.1 h

/-! ### Strings -/

variable {quote : Char}

lemma ne_slash_of_isQuote (h : isQuote quote = true) : '\\' ≠ quote := by
  rintro rfl
  exact absurd h (by decide)

lemma plain_of_unicodeEscape? {a b c d x : Char} (hquote : isQuote quote = true)
    (hx : unicodeEscape? [a, b, c, d] = some x) : ∀ e ∈ [a, b, c, d], e ≠ quote ∧ e ≠ '\\' := by
  have hdigits : ∀ e ∈ [a, b, c, d], (hexValue? e).isSome = true := by
    simp only [unicodeEscape?] at hx
    split at hx
    · simp_all
    · simp at hx
  intro e he
  have hdigit := hdigits e he
  refine ⟨?_, ?_⟩
  · rintro rfl
    simp only [isQuote, Bool.or_eq_true, beq_iff_eq] at hquote
    rcases hquote with (rfl | rfl) | rfl <;> exact absurd hdigit (by decide)
  · rintro rfl
    exact absurd hdigit (by decide)

lemma stringBody?_escape {c : Char} (hquote : isQuote quote = true) (hc : c ≠ 'u') (cs : List Char) :
    stringBody? quote ('\\' :: c :: cs) =
      (stringBody? quote cs).map fun (s, rest) => (escape c :: s, rest) := by
  rw [stringBody?.eq_def]
  simp only [ne_slash_of_isQuote hquote, if_false, if_true]
  split
  · next heq => simp at heq
  · next heq => exact absurd (List.cons.inj heq).1 hc
  · next heq => exact absurd (List.cons.inj heq).1 hc
  · next heq =>
    obtain ⟨rfl, rfl⟩ := List.cons.inj heq
    rfl

lemma stringBody?_code {a b c d : Char} (hquote : isQuote quote = true) (cs : List Char) :
    stringBody? quote ('\\' :: 'u' :: a :: b :: c :: d :: cs) =
      (unicodeEscape? [a, b, c, d]).bind fun x =>
        (stringBody? quote cs).map fun (s, rest) => (x :: s, rest) := by
  rw [stringBody?.eq_def]
  simp only [ne_slash_of_isQuote hquote, if_false, if_true]
  split
  · next heq => rw [heq]; rfl
  · next heq => rw [heq]; rfl

lemma stringBody?_of_spells {text s : List Char} (hquote : isQuote quote = true)
    (h : Spells quote text s) (rest : List Char) :
    stringBody? quote (text ++ quote :: rest) = some (s, rest) := by
  induction h with
  | nil => rw [List.nil_append, stringBody?.eq_def]; simp
  | plain hc hc' _ ih => rw [List.cons_append, stringBody?_plain hc hc', ih]; rfl
  | escaped hc _ ih =>
    rw [List.cons_append, List.cons_append, stringBody?_escape hquote hc, ih]
    rfl
  | code hx _ ih =>
    simp only [List.cons_append]
    rw [stringBody?_code hquote, hx, ih]
    rfl

lemma spells_of_stringBody? {cs s rest : List Char} (h : stringBody? quote cs = some (s, rest)) :
    ∃ text, cs = text ++ quote :: rest ∧ Spells quote text s := by
  fun_induction stringBody? quote cs generalizing s with
  | case1 | case3 | case4 | case6 => simp at h
  | case2 cs => cases h; exact ⟨[], rfl, .nil⟩
  | case5 a b d e cs x hx hne ih =>
    obtain ⟨⟨s', rest'⟩, hs, heq⟩ := Option.map_eq_some_iff.1 h
    cases heq
    obtain ⟨text, rfl, hspells⟩ := ih hs
    exact ⟨_, rfl, .code hx hspells⟩
  | case7 e cs _ hu _ ih =>
    obtain ⟨⟨s', rest'⟩, hs, heq⟩ := Option.map_eq_some_iff.1 h
    cases heq
    obtain ⟨text, rfl, hspells⟩ := ih hs
    exact ⟨_, rfl, .escaped hu hspells⟩
  | case8 c cs hquote hslash ih =>
    obtain ⟨⟨s', rest'⟩, hs, heq⟩ := Option.map_eq_some_iff.1 h
    cases heq
    obtain ⟨text, rfl, hspells⟩ := ih hs
    exact ⟨_, rfl, .plain hquote hslash hspells⟩

lemma quoted?_of_spells {text s : List Char} (hquote : isQuote quote = true)
    (h : Spells quote text s) (rest : List Char) :
    quoted? (quote :: (text ++ quote :: rest)) = some (String.ofList s, rest) := by
  simp [quoted?, stringBody?_of_spells hquote h]

lemma spells_of_quoted? {cs rest : List Char} {s : String}
    (h : quoted? (quote :: cs) = some (s, rest)) :
    ∃ text t, cs = text ++ quote :: rest ∧ Spells quote text t ∧ String.ofList t = s := by
  obtain ⟨⟨t, rest'⟩, hbody, heq⟩ := Option.map_eq_some_iff.1 h
  cases heq
  obtain ⟨text, rfl, hspells⟩ := spells_of_stringBody? hbody
  exact ⟨text, t, rfl, hspells, rfl⟩

/-! ### Keys -/

lemma endsKey_of_isBlank {c : Char} (h : isBlank c = true) : endsKey c = true := by
  simp [endsKey, h]

lemma endsKey_of_isQuote {c : Char} (h : isQuote c = true) : endsKey c = true := by
  simp [endsKey, h]

lemma key?_of_names {k : String} {name rest : List Char} (h : Names .reader k name)
    (hrest : ∀ c ∈ rest.head?, endsKey c = true) : key? (name ++ rest) = some (k, rest) := by
  cases h with
  | @bare name h =>
    obtain ⟨hne, hall⟩ := h
    have hall : ∀ c ∈ name, (!endsKey c) = true := fun c hc => by simp [hall c hc]
    have htake : (name ++ rest).takeWhile (!endsKey ·) = name := by
      rw [List.takeWhile_append_of_pos hall]
      cases rest with
      | nil => simp
      | cons c rest => simp [hrest c rfl]
    have hdrop : (name ++ rest).dropWhile (!endsKey ·) = rest := by
      rw [List.dropWhile_append_of_pos hall]
      cases rest with
      | nil => simp
      | cons c rest => simp [hrest c rfl]
    obtain ⟨c, cs, rfl⟩ := List.exists_cons_of_ne_nil hne
    have hquote : isQuote c = false := by
      have := hall c List.mem_cons_self
      rw [Bool.eq_false_iff]
      intro hq
      simp [endsKey_of_isQuote hq] at this
    rw [List.cons_append] at htake hdrop ⊢
    simp only [key?, hquote, htake, hdrop, Bool.false_eq_true, if_false, List.isEmpty_cons]
  | quoted hquote h =>
    rw [List.cons_append, List.append_assoc, List.singleton_append, key?, if_pos hquote]
    exact quoted?_of_spells hquote h rest

lemma names_of_key? {k : String} {cs rest : List Char} (h : key? cs = some (k, rest)) :
    ∃ name, cs = name ++ rest ∧ Names .reader k name := by
  match cs with
  | [] => simp [key?] at h
  | c :: cs =>
    simp only [key?] at h
    split at h
    · next hquote =>
      obtain ⟨text, t, rfl, hspells, rfl⟩ := spells_of_quoted? h
      exact ⟨c :: (text ++ [c]), by simp, .quoted hquote hspells⟩
    · split at h
      · simp at h
      · next hne =>
        cases h
        refine ⟨_, (List.takeWhile_append_dropWhile (p := (!endsKey ·))).symm, .bare ⟨?_, ?_⟩⟩
        · simpa using hne
        · intro d hd
          simpa using List.mem_takeWhile_imp hd

/-! ### Bare words -/

lemma endsWord_of_isBlank {c : Char} (h : isBlank c = true) (holder : Holder) :
    holder.endsWord c = false := by
  rw [Bool.eq_false_iff]
  intro hends
  have hne : ∀ d, isBlank d = false → (c == d) = false := fun d hd => by
    rw [beq_eq_false_iff_ne]
    rintro rfl
    simp [h] at hd
  cases holder <;> simp [Holder.endsWord, hne ',' (by decide), hne '\x7b' (by decide),
    hne '[' (by decide), hne ']' (by decide), hne '\x7d' (by decide)] at hends

lemma isBareWord_of_wordText {holder : Holder} {text : List Char} (hne : text ≠ [])
    (h : Value.WordText text) : IsBareWord holder text := by
  have hplain : ∀ c ∈ text, isBlank c = false ∧ isQuote c = false ∧ holder.endsWord c = false := by
    intro c hc
    have hword := h c hc
    have hpunctuation : ∀ d, Value.isWordChar d = false → (c == d) = false := fun d hd =>
      beq_eq_false_iff_ne.2 (Value.ne_of_isWordChar hword hd)
    refine ⟨Value.not_isBlank_of_isWordChar hword, (Value.plain_of_isWordChar hword).1, ?_⟩
    cases holder <;> simp [Holder.endsWord, hpunctuation ',' rfl, hpunctuation '[' rfl,
      hpunctuation ']' rfl, hpunctuation '\x7b' rfl, hpunctuation '\x7d' rfl]
  exact ⟨hne, fun c hc => ⟨(hplain c (List.mem_of_head? hc)).1, (hplain c (List.mem_of_head? hc)).2.1⟩,
    fun c hc => (hplain c (List.mem_of_getLast? hc)).1, fun c hc => (hplain c hc).2.2⟩

lemma exists_blanks_trimEnd (cs : List Char) : ∃ b, Blanks b ∧ cs = Text.trimEnd cs ++ b := by
  refine ⟨(cs.reverse.takeWhile isBlank).reverse, fun c hc => ?_, ?_⟩
  · exact List.mem_takeWhile_imp (List.mem_reverse.1 hc)
  · rw [Text.trimEnd, Text.trimEndBy, ← List.reverse_append, List.takeWhile_append_dropWhile,
      List.reverse_reverse]

lemma exists_blanks_around (cs : List Char) :
    ∃ a b, Blanks a ∧ Blanks b ∧ cs = a ++ Text.trim cs ++ b := by
  obtain ⟨a, ha, hcs⟩ := exists_blanks cs
  obtain ⟨b, hb, hskip⟩ := exists_blanks_trimEnd (skipBlank cs)
  refine ⟨a, b, ha, hb, ?_⟩
  conv_lhs => rw [hcs, hskip]
  exact (List.append_assoc _ _ _).symm

lemma blanks_of_trim {cs : List Char} (h : Text.trim cs = []) : Blanks cs := by
  obtain ⟨a, b, ha, hb, hcs⟩ := exists_blanks_around cs
  rw [h, List.append_nil] at hcs
  rw [hcs]
  exact ha.append hb

lemma trimEnd_append (a : List Char) {c : Char} (h : isBlank c = false) (b : List Char) :
    Text.trimEnd (a ++ c :: b) = a ++ c :: Text.trimEnd b := by
  simp only [Text.trimEnd, Text.trimEndBy, List.reverse_append, List.reverse_cons, List.append_assoc,
    List.dropWhile_append]
  split
  · next hempty =>
    rw [List.isEmpty_iff.1 hempty]
    simp [h]
  · simp

lemma trim_between {a text b : List Char} (ha : Blanks a) (hb : Blanks b) (hne : text ≠ [])
    (hfirst : ∀ c ∈ text.head?, isBlank c = false) (hlast : ∀ c ∈ text.getLast?, isBlank c = false) :
    Text.trim (a ++ (text ++ b)) = text := by
  have hstart : Text.trimStart (a ++ (text ++ b)) = text ++ b := by
    obtain ⟨c, cs, rfl⟩ := List.exists_cons_of_ne_nil hne
    exact (skipBlank_append ha _).trans (skipBlank_eq_self (hfirst c rfl))
  have hrev : b.reverse.dropWhile isBlank = [] :=
    List.dropWhile_eq_nil_iff.2 fun d hd => hb d (List.mem_reverse.1 hd)
  have hend : text.reverse.dropWhile isBlank = text.reverse := by
    simpa [Text.trimEndBy] using congrArg List.reverse (Text.trimEndBy_eq_self hlast)
  rw [Text.trim, hstart, Text.trimEnd, Text.trimEndBy, List.reverse_append, List.dropWhile_append,
    hrev]
  simp [hend]

lemma word?_of_isBareWord {holder : Holder} {text b rest : List Char}
    (h : IsBareWord holder text) (hb : Blanks b) (hrest : ∀ c ∈ rest.head?, holder.endsWord c = true) :
    word? holder (text ++ (b ++ rest)) = some (wordValue text, rest) := by
  have hall : ∀ c ∈ text ++ b, (!holder.endsWord c) = true := fun c hc => by
    rcases List.mem_append.1 hc with hc | hc
    · simp [h.inside c hc]
    · simp [endsWord_of_isBlank (hb c hc)]
  have htake : (text ++ (b ++ rest)).takeWhile (!holder.endsWord ·) = text ++ b := by
    rw [← List.append_assoc, List.takeWhile_append_of_pos hall]
    cases rest with
    | nil => simp
    | cons c rest => simp [hrest c rfl]
  have hdrop : (text ++ (b ++ rest)).dropWhile (!holder.endsWord ·) = rest := by
    rw [← List.append_assoc, List.dropWhile_append_of_pos hall]
    cases rest with
    | nil => simp
    | cons c rest => simp [hrest c rfl]
  have htrim : Text.trim (text ++ b) = text :=
    trim_between blanks_nil hb h.ne_nil (fun c hc => (h.first c hc).1) h.last
  have hempty : text.isEmpty = false := by simpa using h.ne_nil
  simp only [word?, htake, hdrop, htrim, hempty, Bool.false_eq_true, if_false]

lemma isBareWord_of_word? {holder : Holder} {c : Char} {cs rest : List Char} {v : Value}
    (hblank : isBlank c = false) (hquote : isQuote c = false)
    (h : word? holder (c :: cs) = some (v, rest)) :
    ∃ text b, c :: cs = text ++ (b ++ rest) ∧ Blanks b ∧ IsBareWord holder text ∧
      wordValue text = v := by
  obtain ⟨name, hname⟩ : ∃ name, name = (c :: cs).takeWhile (!holder.endsWord ·) := ⟨_, rfl⟩
  have hsplit : c :: cs = name ++ (c :: cs).dropWhile (!holder.endsWord ·) := by
    rw [hname]
    exact List.takeWhile_append_dropWhile.symm
  have hfirst : ∀ d ∈ name.head?, d = c := by
    intro d hd
    have hhead := congrArg List.head? hsplit
    rw [List.head?_append, Option.mem_def.1 hd] at hhead
    simpa using hhead.symm
  have htrim : Text.trim name = Text.trimEnd name := by
    rw [Text.trim, Text.trimStart_eq_self fun d hd => by rw [hfirst d hd, hblank]]
  obtain ⟨b, hb, htail⟩ := exists_blanks_trimEnd name
  simp only [word?, ← hname, htrim] at h
  split at h
  · simp at h
  · next hne =>
    cases h
    have hne : Text.trimEnd name ≠ [] := by simpa using hne
    refine ⟨Text.trimEnd name, b, ?_, hb, ⟨hne, ?_, ?_, ?_⟩, rfl⟩
    · rw [← List.append_assoc, ← htail]
      exact hsplit
    · intro d hd
      have hd' : d ∈ name.head? := by
        rw [htail]
        obtain ⟨e, es, he⟩ := List.exists_cons_of_ne_nil hne
        simpa [he] using hd
      rw [hfirst d hd']
      exact ⟨hblank, hquote⟩
    · intro d hd
      exact Text.not_isBlank_getLast?_trim name d (by rwa [htrim])
    · intro d hd
      have hmem : d ∈ name := by
        rw [htail]
        exact List.mem_append_left _ hd
      rw [hname] at hmem
      simpa using List.mem_takeWhile_imp hmem

end CommentBlocks.Relaxed
