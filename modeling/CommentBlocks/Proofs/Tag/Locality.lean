import CommentBlocks.Proofs.Tag.Reading

/-!
A tag is found again when the text behind it changes.

`Regular` collects what this needs of a pattern, and `Alike` what the two texts behind the tag must
have in common. The main statement is `read?_swap`.
-/

namespace CommentBlocks.TagPattern

open Text (after? cut?)

variable {p : TagPattern}

/-- A pattern that cannot be read in two ways which only the text behind the tag tells apart. -/
structure Regular (p : TagPattern) : Prop where
  /-- No spelling of the word lies inside another one. -/
  apart : ∀ w ∈ p.words, ∀ v ∈ p.words, v <:+: w → v = w
  /-- All spellings start with the same blanks. -/
  lead : ∀ w ∈ p.words, ∀ v ∈ p.words, v.takeWhile isSpace = w.takeWhile isSpace
  /-- The blanks of a word do not run into the closing delimiter. -/
  solid : (∀ w ∈ p.words, ∃ c ∈ w, isSpace c = false) ∨ ∀ c ∈ p.closing.head?, isSpace c = false

/-- Two texts behind a tag that make no difference to it. -/
def Alike (p : TagPattern) (after after' : List Char) : Prop :=
  after = after' ∨ if p.closing = [] then after.head? = after'.head? else p.closing <:+: after

lemma findSome?_eq_of_only {α β : Type} {f : α → Option β} {l : List α} {a : α} (ha : a ∈ l)
    (h : ∀ b ∈ l, b ≠ a → f b = none) : l.findSome? f = f a := by
  induction l with
  | nil => exact absurd ha (by simp)
  | cons b l ih =>
    have hl : ∀ d ∈ l, d ≠ a → f d = none := fun d hd => h d (List.mem_cons_of_mem _ hd)
    rw [List.findSome?_cons]
    by_cases hb : b = a
    · subst hb
      cases hf : f b with
      | some y => rfl
      | none =>
        refine List.findSome?_eq_none_iff.2 fun d hd => ?_
        by_cases hdb : d = b
        · rw [hdb, hf]
        · exact hl d hd hdb
    · rw [h b List.mem_cons_self hb]
      exact ih ((List.mem_cons.1 ha).resolve_left fun e => hb e.symm) hl

/-- Only one spelling can stand at a place. -/
lemma readWord?_of_word (hp : p.Regular) {w : List Char} (hw : w ∈ p.words) (rest : List Char) :
    p.readWord? (w ++ rest) = (p.readEnd? rest).map fun (inner, after) => ⟨[], w, inner, after⟩ := by
  unfold readWord?
  rw [findSome?_eq_of_only hw]
  · simp only [Text.after?_eq_some_iff.2 (rfl : w ++ rest = w ++ rest)]
  · intro v hv hne
    have hn : after? v (w ++ rest) = none := by
      rw [← Option.not_isSome_iff_eq_none, Text.isSome_after?_iff]
      intro hpre
      rcases List.prefix_or_prefix_of_prefix hpre ⟨rest, rfl⟩ with h | h
      · exact hne (hp.apart w hw v hv h.isInfix)
      · exact hne (hp.apart v hv w hw h.isInfix).symm
    simp only [hn]

lemma endsWord_of_isSpace {c : Char} (h : isSpace c = true) : endsWord c = true ∧ c ≠ '\n' := by
  simp only [isSpace, Bool.or_eq_true, beq_iff_eq] at h
  rcases h with rfl | rfl <;> exact ⟨by decide +kernel, by decide⟩

lemma head?_of_readLine {cs inner after : List Char} (h : readLine cs = (inner, after)) :
    (inner = [] → ∀ c ∈ after.head?, endsWord c = false ∨ c = '\n') ∧
      (inner ≠ [] → ∀ c ∈ after.head?, c = '\n') := by
  cases cs with
  | nil =>
    simp only [readLine, Prod.mk.injEq] at h
    simp [← h.1, ← h.2]
  | cons c rest =>
    simp only [readLine] at h
    split at h
    · simp only [Prod.mk.injEq] at h
      refine ⟨fun hi => by simp [← h.1] at hi, fun _ d hd => ?_⟩
      rw [← h.2] at hd
      have := List.head?_dropWhile_not (fun x => x != '\n') rest
      rw [Option.mem_def.1 hd] at this
      simpa using this
    · next hc =>
      simp only [Prod.mk.injEq] at h
      refine ⟨fun _ d hd => ?_, fun hi => absurd h.1.symm hi⟩
      rw [← h.2, List.head?_cons, Option.mem_some_iff] at hd
      subst hd
      by_cases hw : endsWord c = true
      · right; simpa [hw] using hc
      · left; simpa using hw

lemma readLine_swap {inner after after' : List Char} (h : readLine (inner ++ after) = (inner, after))
    (hh : after.head? = after'.head?) : readLine (inner ++ after') = (inner, after') := by
  obtain ⟨h0, h1⟩ := head?_of_readLine h
  rw [hh] at h0 h1
  cases inner with
  | nil =>
    cases after' with
    | nil => rfl
    | cons c rest =>
      have : ¬ ((endsWord c && c != '\n') = true) := by
        rcases h0 rfl c rfl with hc | rfl <;> simp [*]
      simp only [List.nil_append, readLine, this]
      rfl
  | cons c inner =>
    simp only [List.cons_append, readLine] at h ⊢
    split at h
    · next hc =>
      rw [if_pos hc]
      simp only [Prod.mk.injEq, List.cons.injEq, true_and] at h
      have hall : ∀ d ∈ inner, (d != '\n') = true := by
        rw [← h.1]
        exact fun d hd => List.mem_takeWhile_imp (p := (· != '\n')) hd
      have hstop : after'.takeWhile (· != '\n') = [] ∧ after'.dropWhile (· != '\n') = after' := by
        cases after' with
        | nil => exact ⟨rfl, rfl⟩
        | cons d ds => rw [h1 (by simp) d rfl]; simp
      rw [List.takeWhile_append_of_pos hall, List.dropWhile_append_of_pos hall, hstop.1, hstop.2,
        List.append_nil]
    · exact absurd (congrArg Prod.fst h) (by simp)

lemma readEnd?_swap {inner after after' : List Char}
    (h : p.readEnd? (inner ++ p.closing ++ after) = some (inner, after))
    (hs : p.Alike after after') :
    p.readEnd? (inner ++ p.closing ++ after') = some (inner, after') := by
  rcases hs with rfl | hs
  · exact h
  unfold readEnd? at h ⊢
  by_cases hc : p.closing = []
  · simp only [hc, if_true, List.append_nil, Option.some.injEq] at h hs ⊢
    exact readLine_swap h hs
  · rw [if_neg hc] at h hs ⊢
    cases inner with
    | nil =>
      cases hcl : p.closing with
      | nil => exact absurd hcl hc
      | cons d ds =>
        have hafter' : after? (d :: ds) (d :: (ds ++ after')) = some after' :=
          Text.after?_eq_some_iff.2 rfl
        simp only [List.nil_append, hcl, List.cons_append, readInner?] at h ⊢
        by_cases hd : endsWord d = true
        · -- the reader tried to find a later delimiter first, and there is one in `after`
          have hin : (cut? (d :: ds) (ds ++ after)).isSome :=
            Text.isSome_cut?_iff.2 (hcl ▸ List.infix_append_of_infix_right hs)
          obtain ⟨⟨i, r⟩, hi⟩ := Option.isSome_iff_exists.1 hin
          simp [hd, hi] at h
        · simp only [hd, hafter']
          rfl
    | cons c inner =>
      simp only [List.cons_append, readInner?] at h ⊢
      by_cases hd : endsWord c = true
      · simp only [hd, if_true] at h ⊢
        split at h
        · next i r hi =>
          simp only [Option.some.injEq, Prod.mk.injEq, List.cons.injEq, true_and] at h
          rw [h.1, h.2] at hi
          rw [Text.cut?_append hi]
        · obtain ⟨r, -, hr⟩ := Option.map_eq_some_iff.1 h
          exact absurd (congrArg Prod.fst hr) (by simp)
      · simp only [hd] at h
        obtain ⟨r, -, hr⟩ := Option.map_eq_some_iff.1 h
        exact absurd (congrArg Prod.fst hr) (by simp)

/-! ### Reading the tag itself -/

lemma text_append (t : Tag) (after : List Char) : p.text t ++ after =
    p.opening ++ (t.blanks ++ (t.word ++ (t.inner ++ p.closing ++ after))) := by
  simp [text]

lemma readWord?_spec {cs : List Char} {t : Tag} (h : p.readWord? cs = some t) :
    t.word ∈ p.words ∧ p.readEnd? (t.inner ++ p.closing ++ t.after) = some (t.inner, t.after) := by
  obtain ⟨w, hw, h⟩ := List.exists_of_findSome?_eq_some h
  split at h
  · simp at h
  · next rest hr =>
    obtain ⟨⟨inner, after⟩, he, rfl⟩ := Option.map_eq_some_iff.1 h
    exact ⟨hw, by rw [← eq_of_readEnd? he]; exact he⟩

lemma readBlanks?_eq {cs : List Char} (h : ∀ c rest, cs = c :: rest → isSpace c = true →
    p.readBlanks? rest = none) : p.readBlanks? cs = p.readWord? cs := by
  cases cs with
  | nil => rfl
  | cons c rest =>
    simp only [readBlanks?]
    split
    · next hc => rw [h c rest rfl hc]
    · rfl

lemma readBlanks?_nil {cs : List Char} {t : Tag} (h : p.readBlanks? cs = some t)
    (hb : t.blanks = []) : p.readWord? cs = some t ∧
      ∀ c rest, cs = c :: rest → isSpace c = true → p.readBlanks? rest = none := by
  cases cs with
  | nil => exact ⟨h, by simp⟩
  | cons c rest =>
    simp only [readBlanks?] at h
    split at h
    · next hc =>
      split at h
      · next u hu => rw [← Option.some.inj h] at hb; simp at hb
      · next hu =>
        refine ⟨h, fun d ds he _ => ?_⟩
        rw [← (List.cons.inj he).2, hu]
    · next hc =>
      refine ⟨h, fun d ds he hd => ?_⟩
      rw [(List.cons.inj he).1] at hc
      exact absurd hd hc

lemma readBlanks?_cons {cs blanks : List Char} {b : Char} {t : Tag}
    (h : p.readBlanks? (b :: cs) = some t) (hb : t.blanks = b :: blanks) :
    isSpace b = true ∧ p.readBlanks? cs = some { t with blanks } := by
  simp only [readBlanks?] at h
  split at h
  · next hc =>
    split at h
    · next u hu =>
      rw [← Option.some.inj h] at hb ⊢
      rw [hu, ← (List.cons.inj hb).2]
      exact ⟨hc, rfl⟩
    · rw [(eq_of_readWord? h).1] at hb
      simp at hb
  · rw [(eq_of_readWord? h).1] at hb
    simp at hb

lemma Ends.swap {front after after' : List Char} (h : p.Ends (front ++ p.closing ++ after)) :
    p.Ends (front ++ p.closing ++ after') := by
  rcases h with h | h | ⟨c, cs, hcs, hc, h⟩
  · exact .inl h
  · have : p.closing <+: front ++ p.closing :=
      List.prefix_of_prefix_length_le h ⟨after, rfl⟩ (by simp)
    exact .inr (.inl (this.trans ⟨after', rfl⟩))
  · cases front with
    | nil => exact .inr (.inl ⟨after', by simp⟩)
    | cons d front =>
      obtain ⟨rfl, -⟩ := List.cons.inj hcs
      exact .inr (.inr ⟨d, front ++ p.closing ++ after', rfl, hc, front, after', rfl⟩)

/-- A word that stands within the text of a tag ends there whatever follows the tag. -/
lemma Ends.within {front start tail after' : List Char} (h : p.Ends tail)
    (htext : front ++ (p.closing ++ after') = start ++ tail) (hle : start.length ≤ front.length)
    (after : List Char) : ∃ z, start ++ z = front ∧ p.Ends (z ++ p.closing ++ after) := by
  obtain ⟨z, rfl⟩ : start <+: front :=
    List.prefix_of_prefix_length_le ⟨tail, htext.symm⟩ ⟨_, rfl⟩ hle
  have htail : tail = z ++ p.closing ++ after' := by
    rw [List.append_assoc, List.append_cancel_left_eq] at htext
    simpa using htext.symm
  exact ⟨z, rfl, Ends.swap (htail ▸ h)⟩

lemma head?_append_takeWhile {w rest : List Char} (h : ∃ c ∈ w, isSpace c = false) :
    (w ++ rest).takeWhile isSpace = w.takeWhile isSpace := by
  rw [List.takeWhile_append, if_neg]
  intro hl
  obtain ⟨c, hc, hs⟩ := h
  have := List.takeWhile_eq_self_iff.1 ((List.takeWhile_prefix _).eq_of_length hl) c hc
  rw [hs] at this
  exact absurd this (by decide)

lemma append_cons_takeWhile {w rest : List Char} {c : Char} (hc : isSpace c = false) :
    (w ++ c :: rest).takeWhile isSpace = w.takeWhile isSpace := by
  rw [List.takeWhile_append]
  split
  · next hl => simp [hc, (List.takeWhile_prefix isSpace).eq_of_length hl]
  · rfl

/-- A reading that starts in the blanks in front of a word does not take that word for another one
with fewer blanks in front. -/
lemma false_of_longer_lead (hp : p.Regular) {w v blanks rest tail : List Char} {c : Char}
    (hw : w ∈ p.words) (hv : v ∈ p.words)
    (hword : (w ++ rest).takeWhile isSpace = w.takeWhile isSpace)
    (hblank : ∀ d ∈ c :: blanks, isSpace d = true)
    (h : w ++ rest = c :: blanks ++ (v ++ tail)) : False := by
  have hlead : (w ++ rest).takeWhile isSpace = c :: blanks ++ (v ++ tail).takeWhile isSpace := by
    rw [h, List.takeWhile_append_of_pos hblank]
  rw [hword, hp.lead v hv w hw] at hlead
  have hle : (v.takeWhile isSpace).length ≤ ((v ++ tail).takeWhile isSpace).length := by
    rw [List.takeWhile_append]
    split
    · next hl => rw [List.length_append, hl]; omega
    · exact le_rfl
  have := congrArg List.length hlead
  simp only [List.length_append, List.length_cons] at this
  omega

lemma not_isSpace_of_blank_word (hp : p.Regular) {w inner after after' : List Char} (hw : w ∈ p.words)
    (hall : ∀ d ∈ w, isSpace d = true)
    (he : p.readEnd? (inner ++ p.closing ++ after) = some (inner, after))
    (hs : p.Alike after after') : ∀ d ∈ (p.closing ++ after').head?, isSpace d = false := by
  intro d hd
  rcases hp.solid with hsol | hsol
  · obtain ⟨e, hm, hns⟩ := hsol w hw
    rw [hall e hm] at hns
    exact absurd hns (by decide)
  cases hcl : p.closing with
  | cons e es =>
    rw [hcl] at hd hsol
    obtain rfl : e = d := by simpa using hd
    exact hsol e rfl
  | nil =>
    have hline : readLine (inner ++ after) = (inner, after) := by
      simpa [readEnd?, hcl] using he
    have hhead : after.head? = after'.head? := by
      rcases hs with rfl | hs
      · rfl
      · simpa [hcl] using hs
    rw [hcl, List.nil_append, ← hhead] at hd
    by_contra hblank
    obtain ⟨hew, hnl⟩ := endsWord_of_isSpace (eq_true_of_ne_false hblank)
    obtain ⟨h0, h1⟩ := head?_of_readLine hline
    by_cases hi : inner = []
    · rcases h0 hi d hd with h | h
      · rw [hew] at h
        exact absurd h (by decide)
      · exact hnl h
    · exact hnl (h1 hi d hd)

/-- Where a tag without blanks was read, nothing can be read after some blanks either when the text
behind the tag is changed. -/
lemma readBlanks?_none_swap (hp : p.Regular) {w inner after after' : List Char} (hw : w ∈ p.words)
    (he : p.readEnd? (inner ++ p.closing ++ after) = some (inner, after))
    (hs : p.Alike after after')
    (hn : ∀ c rest, w ++ (inner ++ p.closing ++ after) = c :: rest → isSpace c = true →
      p.readBlanks? rest = none) (c : Char) (rest : List Char)
    (hc : w ++ (inner ++ p.closing ++ after') = c :: rest) (hcs : isSpace c = true) :
    p.readBlanks? rest = none := by
  rw [← Option.not_isSome_iff_eq_none, isSome_readBlanks?_iff]
  rintro ⟨blanks, hb, v, hv, tail, rfl, hends⟩
  have hblank : ∀ d ∈ c :: blanks, isSpace d = true := by simpa [hcs] using hb
  have htext : (w ++ inner) ++ (p.closing ++ after') = (c :: blanks ++ v) ++ tail := by
    simpa using hc
  by_cases hlen : (c :: blanks ++ v).length ≤ (w ++ inner).length
  · -- the other reading ends within the tag, so it was there before
    obtain ⟨z, hz, hold_ends⟩ := hends.within htext hlen after
    have hold : w ++ (inner ++ p.closing ++ after) =
        c :: (blanks ++ (v ++ (z ++ p.closing ++ after))) := by
      have := congrArg (· ++ (p.closing ++ after)) hz
      simpa using this.symm
    have hread : (p.readBlanks? (blanks ++ (v ++ (z ++ p.closing ++ after)))).isSome :=
      isSome_readBlanks?_iff.2 ⟨blanks, hb, v, hv, _, rfl, hold_ends⟩
    rw [hn c _ hold hcs] at hread
    exact absurd hread (by decide)
  by_cases hword : ∃ d ∈ w, isSpace d = false
  · exact false_of_longer_lead hp hw hv (head?_append_takeWhile hword) hblank (by simpa using hc)
  -- the word is blank, and so is whatever the other reading takes
  have hall : ∀ d ∈ w, isSpace d = true := fun d hd => by
    by_contra hns
    exact hword ⟨d, hd, by simpa using hns⟩
  have hvw : v = w := by
    have : w <+: v := by
      have h := hp.lead w hw v hv
      rw [List.takeWhile_eq_self_iff.2 hall] at h
      exact h ▸ List.takeWhile_prefix _
    exact (hp.apart v hv w hw this.isInfix).symm
  obtain ⟨z, hz⟩ : w ++ inner <+: c :: blanks ++ v :=
    List.prefix_of_prefix_length_le ⟨_, rfl⟩ ⟨tail, htext.symm⟩ (by omega)
  rw [← hz, List.append_assoc (w ++ inner), List.append_cancel_left_eq] at htext
  cases z with
  | nil =>
    rw [← hz, List.append_nil] at hlen
    exact hlen le_rfl
  | cons d z =>
    have hd : d ∈ (p.closing ++ after').head? := by
      rw [htext]
      rfl
    have hspace : isSpace d = true := by
      rcases List.mem_append.1 (hz ▸ by simp : d ∈ c :: blanks ++ v) with hm | hm
      · exact hblank d hm
      · exact hall d (hvw ▸ hm)
    rw [not_isSpace_of_blank_word hp hw hall he hs d hd] at hspace
    exact absurd hspace (by decide)

lemma readBlanks?_swap (hp : p.Regular) {t : Tag} {after' : List Char}
    (h : p.readBlanks? (t.blanks ++ (t.word ++ (t.inner ++ p.closing ++ t.after))) = some t)
    (hs : p.Alike t.after after') :
    p.readBlanks? (t.blanks ++ (t.word ++ (t.inner ++ p.closing ++ after'))) =
      some { t with after := after' } := by
  obtain ⟨blanks, w, inner, after⟩ := t
  simp only at h hs ⊢
  induction blanks with
  | nil =>
    obtain ⟨hword, hn⟩ := readBlanks?_nil h rfl
    obtain ⟨hw, he⟩ := readWord?_spec hword
    rw [List.nil_append] at h hn ⊢
    rw [readBlanks?_eq (readBlanks?_none_swap hp hw he hs hn), readWord?_of_word hp hw,
      readEnd?_swap he hs]
    rfl
  | cons b blanks ih =>
    obtain ⟨hb, hrest⟩ := readBlanks?_cons h rfl
    simp only [List.cons_append, readBlanks?, hb, if_true, ih hrest]

lemma readBlanks?_spec {cs : List Char} {t : Tag} (h : p.readBlanks? cs = some t) :
    (∀ c ∈ t.blanks, isSpace c = true) ∧ t.word ∈ p.words ∧
      p.readEnd? (t.inner ++ p.closing ++ t.after) = some (t.inner, t.after) := by
  induction cs generalizing t with
  | nil =>
    have hb : t.blanks = [] := (eq_of_readWord? h).1
    exact ⟨by simp [hb], readWord?_spec h⟩
  | cons c cs ih =>
    cases hb : t.blanks with
    | nil => exact ⟨by simp, readWord?_spec (readBlanks?_nil h hb).1⟩
    | cons b blanks =>
      obtain rfl : c = b := by
        have := eq_of_readBlanks? h
        rw [hb] at this
        exact (List.cons.inj this).1
      obtain ⟨hc, hcs⟩ := readBlanks?_cons h hb
      obtain ⟨hb', hw, he⟩ := ih hcs
      exact ⟨by simpa [hc] using hb', hw, he⟩

lemma read?_spec {cs : List Char} {t : Tag} (h : p.read? cs = some t) :
    (∀ c ∈ t.blanks, isSpace c = true) ∧ t.word ∈ p.words ∧
      p.readEnd? (t.inner ++ p.closing ++ t.after) = some (t.inner, t.after) := by
  unfold read? at h
  split at h
  · simp at h
  · exact readBlanks?_spec h

/-- A tag is read again when the text behind it changes. -/
lemma read?_swap (hp : p.Regular) {t : Tag} {after' : List Char}
    (h : p.read? (p.text t ++ t.after) = some t) (hs : p.Alike t.after after') :
    p.read? (p.text t ++ after') = some { t with after := after' } := by
  rw [text_append] at h ⊢
  unfold read? at h ⊢
  rw [Text.after?_eq_some_iff.2 rfl] at h ⊢
  exact readBlanks?_swap hp h hs

/-- No tag appears in front of a tag when the text behind that tag changes. -/
lemma read?_none_swap (hp : p.Regular) {t : Tag} (h : p.read? (p.text t ++ t.after) = some t)
    {s : List Char} (hn : p.read? (s ++ (p.text t ++ t.after)) = none)
    (after' : List Char) : p.read? (s ++ (p.text t ++ after')) = none := by
  obtain ⟨htb, htw, hte⟩ := read?_spec h
  have hends : p.Ends (t.inner ++ p.closing ++ t.after) :=
    isSome_readEnd?_iff.1 (by rw [hte]; rfl)
  by_contra hsome
  rw [← ne_eq, Option.ne_none_iff_isSome, isSome_read?_iff] at hsome
  obtain ⟨blanks, hb, w, hw, rest, heq, hrest⟩ := hsome
  refine absurd (isSome_read?_iff.2 ?_) (by rw [hn]; decide :
    ¬ (p.read? (s ++ (p.text t ++ t.after))).isSome)
  rw [text_append] at heq ⊢
  -- `front` stands before the word of the tag, `start` before the word of the other reading
  set front := s ++ (p.opening ++ t.blanks) with hfront
  set start := p.opening ++ blanks with hstart
  have htext : front ++ (t.word ++ (t.inner ++ p.closing ++ after')) = start ++ (w ++ rest) := by
    rw [hfront, hstart]
    simpa using heq
  have hpre : front <+: start ∨ start <+: front :=
    List.prefix_or_prefix_of_prefix ⟨_, rfl⟩ ⟨_, htext.symm⟩
  by_cases hle : front.length ≤ start.length
  · -- its blanks reach the word of the tag, so that tag could start further in front
    have hfs : front <+: start := hpre.elim id fun h' => by rw [h'.eq_of_length_le hle]
    obtain ⟨more, hmore⟩ : p.opening <+: front :=
      List.prefix_of_prefix_length_le (hstart ▸ ⟨blanks, rfl⟩ : p.opening <+: start) hfs
        (by rw [hfront]; simp; omega)
    have hsub : more <+: blanks := by
      rw [hstart, ← hmore] at hfs
      exact (List.prefix_append_right_inj _).1 hfs
    refine ⟨more, fun c hc => hb c (hsub.subset hc), t.word, htw, _, ?_, hends⟩
    have := congrArg (· ++ (t.word ++ (t.inner ++ p.closing ++ t.after))) (hmore.trans hfront)
    simpa using this.symm
  by_cases hend : (start ++ w).length ≤ (front ++ (t.word ++ t.inner)).length
  · -- its word ends within the tag, so it was there before
    obtain ⟨z, hz, hold⟩ := hrest.within (by simpa using htext) hend t.after
    refine ⟨blanks, hb, w, hw, z ++ p.closing ++ t.after, ?_, hold⟩
    have := congrArg (· ++ (p.closing ++ t.after)) hz
    rw [hfront, hstart] at this
    simpa using this.symm
  · -- its word holds that of the tag and more
    exfalso
    obtain ⟨x, hx⟩ : start <+: front := hpre.elim (fun h' => absurd h'.length_le hle) id
    rw [← hx, List.append_assoc, List.append_cancel_left_eq] at htext
    have hin : x ++ t.word <+: w := by
      refine List.prefix_of_prefix_length_le ⟨_, by rw [List.append_assoc, htext]⟩ ⟨rest, rfl⟩ ?_
      rw [← hx] at hend
      simp only [List.length_append] at hend ⊢
      omega
    have hsame : t.word = w :=
      hp.apart w hw t.word htw ((List.infix_append_right).trans hin.isInfix)
    have hlen := hin.length_le
    rw [hsame, List.length_append] at hlen
    rw [← hx, List.length_append] at hle
    omega

end CommentBlocks.TagPattern
