import CommentBlocks.Proofs.Tag.Search

/-!
The two ends of what follows the word of a tag: the character behind the word, and the closing
delimiter.

The reader tries further text before none. So a delimiter right behind the word is passed over when its
first character may open further text and another delimiter follows; and with no closing delimiter
nothing keeps the word from being the front part of a longer one.
-/

namespace CommentBlocks

namespace Text

lemma length_le_of_cut? {piece cs front rest a b : List Char} (h : cut? piece cs = some (front, rest))
    (hab : cs = a ++ (piece ++ b)) : front.length ≤ a.length := by
  induction cs generalizing front a with
  | nil =>
    have hnil := eq_of_cut? h
    have hfront : front = [] := by
      rw [List.append_assoc] at hnil
      exact (List.append_eq_nil_iff.1 hnil.symm).1
    simp [hfront]
  | cons c cs ih =>
    rw [cut?] at h
    split at h
    · rw [← (Prod.mk.inj (Option.some.inj h)).1]
      exact Nat.zero_le _
    · next hn =>
      obtain ⟨⟨front', rest'⟩, hcut, he⟩ := Option.map_eq_some_iff.1 h
      obtain ⟨rfl, rfl⟩ := Prod.mk.inj he
      cases a with
      | nil =>
        rw [List.nil_append] at hab
        rw [after?_eq_some_iff.2 hab] at hn
        simp at hn
      | cons d a =>
        obtain ⟨-, hcs⟩ := List.cons.inj hab
        exact Nat.succ_le_succ (ih hcut hcs)

end Text

namespace TagPattern

open Text (cut?)

variable {p : TagPattern} {cs : List Char} {t : Tag}

def behindWord (p : TagPattern) (t : Tag) : List Char := t.inner ++ (p.closing ++ t.after)

/-- The tag ends with the first closing delimiter behind its word. -/
def ClosesFirst (p : TagPattern) (t : Tag) : Prop :=
  ∀ a b, p.behindWord t = a ++ (p.closing ++ b) → t.inner.length ≤ a.length

/-- The tag ends with the first closing delimiter behind the character after its word. -/
def ClosesSecond (p : TagPattern) (t : Tag) : Prop :=
  ∃ c inner, t.inner = c :: inner ∧
    ∀ a b, inner ++ (p.closing ++ t.after) = a ++ (p.closing ++ b) → inner.length ≤ a.length

/-- The closing delimiter stands right behind the word, its first character may follow a word, and
the delimiter stands once more behind that character. -/
def RunsOver (p : TagPattern) (t : Tag) : Prop :=
  p.closing <+: p.behindWord t ∧
    ∃ c cs, p.behindWord t = c :: cs ∧ endsWord c = true ∧ p.closing <:+: cs

/-- The word ends where it was read: no word character and no hyphen follows, unless they open the
closing delimiter. -/
def WholeWord (p : TagPattern) (t : Tag) : Prop :=
  (∀ c ∈ (p.behindWord t).head?, endsWord c = true) ∨ p.closing ≠ [] ∧ p.closing <+: p.behindWord t

/-- Wherever the opening delimiter, blanks and the word stand, the word runs on into a longer one. -/
def RunsOn (p : TagPattern) (cs : List Char) : Prop :=
  ∀ a blanks w rest, cs = a ++ (p.opening ++ (blanks ++ (w ++ rest))) →
    (∀ c ∈ blanks, isSpace c = true) → w ∈ p.words →
    (∃ c ∈ rest.head?, endsWord c = false) ∧ ¬ p.closing <+: rest

/-- With a closing delimiter, what follows the word is nothing but the delimiter, where no delimiter
could be reached through further text, or further text up to the first delimiter in it. -/
lemma readInner?_cases {closing rest inner after : List Char}
    (h : readInner? closing rest = some (inner, after)) :
    (inner = [] ∧ rest = closing ++ after ∧
        ∀ c cs, rest = c :: cs → endsWord c = true → ¬ closing <:+: cs) ∨
      ∃ c cs front, rest = c :: cs ∧ endsWord c = true ∧ inner = c :: front ∧
        cut? closing cs = some (front, after) := by
  have direct (hd : ((Text.after? closing rest).map fun r => (([] : List Char), r)) =
      some (inner, after)) : inner = [] ∧ rest = closing ++ after := by
    obtain ⟨r, hr, he⟩ := Option.map_eq_some_iff.1 hd
    obtain ⟨rfl, rfl⟩ := Prod.mk.inj he
    exact ⟨rfl, Text.after?_eq_some_iff.1 hr⟩
  unfold readInner? at h
  cases rest with
  | nil =>
    obtain ⟨hi, hr⟩ := direct h
    exact .inl ⟨hi, hr, by simp⟩
  | cons c cs =>
    by_cases hc : endsWord c = true
    · simp only [hc, if_true] at h
      split at h
      · next front tail hcut =>
        obtain ⟨rfl, rfl⟩ := Prod.mk.inj (Option.some.inj h)
        exact .inr ⟨c, cs, front, rfl, hc, rfl, hcut⟩
      · next hcut =>
        obtain ⟨hi, hr⟩ := direct h
        refine .inl ⟨hi, hr, fun d ds hd _ hin => ?_⟩
        obtain ⟨-, rfl⟩ := List.cons.inj hd
        rw [← Text.isSome_cut?_iff, hcut] at hin
        exact absurd hin (by decide)
    · simp only [hc] at h
      obtain ⟨hi, hr⟩ := direct h
      refine .inl ⟨hi, hr, fun d ds hd hends => ?_⟩
      rw [← (List.cons.inj hd).1] at hends
      exact absurd hends hc

lemma readInner?_of_read? (hclosing : p.closing ≠ []) (h : p.read? cs = some t) :
    readInner? p.closing (p.behindWord t) = some (t.inner, t.after) := by
  obtain ⟨-, -, he⟩ := read?_spec h
  rwa [readEnd?, if_neg hclosing, List.append_assoc] at he

/-- Where a tag ends: with the first delimiter behind its word, unless it runs over that one. -/
lemma closesFirst_iff_of_read? (hclosing : p.closing ≠ []) (h : p.read? cs = some t) :
    (p.ClosesFirst t ↔ ¬ p.RunsOver t) ∧ (p.RunsOver t → p.ClosesSecond t) := by
  rcases readInner?_cases (readInner?_of_read? hclosing h) with
    ⟨hinner, -, hlast⟩ | ⟨c, rest, front, hbehind, hc, hinner, hcut⟩
  · -- nothing but the delimiter follows the word
    have hnot : ¬ p.RunsOver t := fun ⟨_, c, rest, he, hc, hin⟩ => hlast c rest he hc hin
    refine ⟨iff_of_true (fun a b _ => ?_) hnot, fun ho => absurd ho hnot⟩
    rw [hinner]
    exact Nat.zero_le _
  · have hrest : rest = front ++ (p.closing ++ t.after) := by
      rw [Text.eq_of_cut? hcut, List.append_assoc]
    have hsecond : p.ClosesSecond t :=
      ⟨c, front, hinner, fun a b hab => Text.length_le_of_cut? hcut (hrest.trans hab)⟩
    refine ⟨⟨fun hfirst ⟨⟨b, hb⟩, _⟩ => ?_, fun hnot a b hab => ?_⟩, fun _ => hsecond⟩
    · have := hfirst [] b hb.symm
      rw [hinner] at this
      simp at this
    · cases a with
      | nil =>
        have hin : p.closing <:+: rest := Text.isSome_cut?_iff.1 (by rw [hcut]; rfl)
        exact absurd ⟨⟨b, hab.symm⟩, c, rest, hbehind, hc, hin⟩ hnot
      | cons d a =>
        rw [hbehind] at hab
        rw [hinner]
        exact Nat.succ_le_succ (Text.length_le_of_cut? hcut (List.cons.inj hab).2)

lemma wholeWord_of_read? (hclosing : p.closing ≠ []) (h : p.read? cs = some t) : p.WholeWord t := by
  rcases readInner?_cases (readInner?_of_read? hclosing h) with
    ⟨-, hbehind, -⟩ | ⟨c, rest, front, hbehind, hc, -⟩
  · exact .inr ⟨hclosing, t.after, hbehind.symm⟩
  · refine .inl fun d hd => ?_
    rw [hbehind, List.head?_cons, Option.mem_some_iff] at hd
    rwa [← hd]

lemma find?_of_read? (h : p.read? cs = some t) : p.find? cs = some ([], t) := by
  refine find?_eq_some_iff.2 ⟨eq_of_read? h, ?_, not_startsIn_nil _⟩
  rwa [← eq_of_read? h]

lemma find?_eq_none_of_read? (h : ∀ s, s <:+ cs → p.read? s = none) : p.find? cs = none := by
  induction cs with
  | nil => rw [find?, h [] List.suffix_rfl, Option.map_none]
  | cons c cs ih =>
    rw [find?, h _ List.suffix_rfl]
    simp only
    rw [ih fun s hs => h s (hs.trans (List.suffix_cons c cs)), Option.map_none]

lemma RunsOn.find?_eq_none (hclosing : p.closing ≠ []) (h : p.RunsOn cs) : p.find? cs = none := by
  refine find?_eq_none_of_read? fun s ⟨a, hs⟩ => ?_
  rw [← Option.not_isSome_iff_eq_none, isSome_read?_iff]
  rintro ⟨blanks, hblanks, w, hw, rest, rfl, hends⟩
  obtain ⟨⟨c, hc, hcends⟩, hnot⟩ := h a blanks w rest hs.symm hblanks hw
  rcases hends with hnil | hpre | ⟨d, ds, rfl, hd, -⟩
  · exact hclosing hnil
  · exact hnot hpre
  · obtain rfl : d = c := by simpa using hc
    rw [hd] at hcends
    exact absurd hcends (by decide)

/-! ### Tags without a closing delimiter -/

lemma mem_spellings_self (word : String) : word.toList ∈ spellings word := by
  simp only [spellings]
  split <;> simp

lemma not_isSpace_of_not_endsWord {c : Char} (hc : endsWord c = false) : isSpace c = false :=
  Bool.eq_false_iff.2 fun hs => by
    rw [(endsWord_of_isSpace hs).1] at hc
    exact absurd hc (by decide)

/-- Where no delimiter closes a tag, a word is read as a tag although it runs on. -/
lemma read?_of_longer_word (hp : p.Regular) (hclosing : p.closing = []) {w : List Char}
    (hw : w ∈ p.words) {c : Char} (hc : endsWord c = false) (rest : List Char) :
    p.read? (p.opening ++ (w ++ c :: rest)) = some ⟨[], w, [], c :: rest⟩ := by
  have hend : p.readEnd? (c :: rest) = some ([], c :: rest) := by
    rw [readEnd?, if_pos hclosing, readLine, hc]
    rfl
  have hfirst : ∀ d ds, w ++ c :: rest = d :: ds → isSpace d = true → p.readBlanks? ds = none := by
    intro d ds hd hspace
    rw [← Option.not_isSome_iff_eq_none, isSome_readBlanks?_iff]
    rintro ⟨blanks, hblanks, v, hv, tail, rfl, -⟩
    exact false_of_longer_lead hp hw hv (append_cons_takeWhile (not_isSpace_of_not_endsWord hc))
      (List.forall_mem_cons.2 ⟨hspace, hblanks⟩) hd
  rw [read?, Text.after?_eq_some_iff.2 rfl]
  simp only
  rw [readBlanks?_eq hfirst, readWord?_of_word hp hw, hend]
  rfl

end TagPattern

end CommentBlocks
