import CommentBlocks.Proofs.Tag.Search

/-!
Blanks and marks. A mark is a character that is no blank; it keeps white space on its two sides
apart. `Steady` collects what a vocabulary needs for its tags to be told from the white space around
them.
-/

namespace CommentBlocks

namespace TagPattern

def AllSpace (cs : List Char) : Prop := ∀ c ∈ cs, isSpace c = true

def HasMark (cs : List Char) : Prop := ∃ c ∈ cs, isSpace c = false

/-- Blanks and a mark that is no line break stand at the start of a text. -/
def StartsMarked (cs : List Char) : Prop :=
  ∃ front d rest, cs = front ++ d :: rest ∧ AllSpace front ∧ isSpace d = false ∧ d ≠ '\n' ∧ d ≠ '\r'

lemma isSpace_ne {c : Char} (h : isSpace c = true) : c ≠ '\n' ∧ c ≠ '\r' := by
  simp only [isSpace, Bool.or_eq_true, beq_iff_eq] at h
  rcases h with rfl | rfl <;> exact ⟨by decide, by decide⟩

lemma AllSpace.not_mem {cs : List Char} (h : AllSpace cs) : '\n' ∉ cs :=
  fun hm => (isSpace_ne (h _ hm)).1 rfl

lemma AllSpace.reverse {cs : List Char} (h : AllSpace cs) : AllSpace cs.reverse :=
  fun c hc => h c (List.mem_reverse.1 hc)

lemma AllSpace.append {a b : List Char} (ha : AllSpace a) (hb : AllSpace b) : AllSpace (a ++ b) :=
  fun c hc => (List.mem_append.1 hc).elim (ha c) (hb c)

lemma AllSpace.all {cs : List Char} (h : AllSpace cs) : cs.all isSpace = true :=
  List.all_eq_true.2 h

lemma HasMark.mono {a b : List Char} (h : HasMark a) (hs : ∀ c ∈ a, c ∈ b) : HasMark b :=
  let ⟨c, hc, hm⟩ := h
  ⟨c, hs c hc, hm⟩

lemma StartsMarked.hasMark {cs : List Char} (h : StartsMarked cs) : HasMark cs := by
  obtain ⟨front, d, rest, rfl, -, hd, -⟩ := h
  exact ⟨d, by simp, hd⟩

lemma StartsMarked.append {cs : List Char} (h : StartsMarked cs) (rest : List Char) :
    StartsMarked (cs ++ rest) := by
  obtain ⟨front, d, tail, rfl, hf, hd⟩ := h
  exact ⟨front, d, tail ++ rest, by simp, hf, hd⟩

lemma StartsMarked.prepend {cs front : List Char} (h : StartsMarked cs) (hf : AllSpace front) :
    StartsMarked (front ++ cs) := by
  obtain ⟨front', d, rest, rfl, hf', hd⟩ := h
  exact ⟨front ++ front', d, rest, by simp, hf.append hf', hd⟩

lemma startsMarked_of_hasMark {cs : List Char} (h : HasMark cs) (hn : '\n' ∉ cs) (hr : '\r' ∉ cs) :
    StartsMarked cs := by
  induction cs with
  | nil =>
    obtain ⟨c, hc, -⟩ := h
    simp at hc
  | cons c cs ih =>
    by_cases hc : isSpace c = true
    · have hcs : HasMark cs := by
        obtain ⟨d, hd, hs⟩ := h
        rcases List.mem_cons.1 hd with rfl | hd
        · rw [hc] at hs
          exact absurd hs (by decide)
        · exact ⟨d, hd, hs⟩
      obtain ⟨front, d, rest, rfl, hf, hd⟩ :=
        ih hcs (fun hm => hn (List.mem_cons_of_mem c hm)) fun hm => hr (List.mem_cons_of_mem c hm)
      exact ⟨c :: front, d, rest, rfl, by simpa [AllSpace, hc] using hf, hd⟩
    · refine ⟨[], c, cs, rfl, by simp [AllSpace], by simpa using hc, ?_, ?_⟩
      · rintro rfl
        exact hn List.mem_cons_self
      · rintro rfl
        exact hr List.mem_cons_self

/-- Further blanks between a delimiter and a word leave the first mark in place. -/
lemma StartsMarked.insert {a b blanks : List Char} (h : StartsMarked (a ++ b))
    (hb : AllSpace blanks) : StartsMarked (a ++ (blanks ++ b)) := by
  obtain ⟨front, d, rest, he, hf, hd⟩ := h
  rcases List.append_eq_append_iff.1 he with ⟨z, rfl, rfl⟩ | ⟨z, rfl, hz⟩
  · refine ⟨a ++ blanks ++ z, d, rest, by simp, ?_, hd⟩
    have ha : AllSpace a := fun c hc => hf c (List.mem_append_left _ hc)
    exact (ha.append hb).append fun c hc => hf c (List.mem_append_right _ hc)
  · cases z with
    | nil =>
      refine ⟨front ++ blanks, d, rest, ?_, hf.append hb, hd⟩
      rw [List.nil_append] at hz
      simp [hz]
    | cons e z =>
      obtain ⟨rfl, rfl⟩ := List.cons.inj hz
      exact ⟨front, d, z ++ (blanks ++ b), by simp, hf, hd⟩

section Read

variable {p : TagPattern} {cs : List Char} {t : Tag}

lemma hasMark_text (h : ∀ w ∈ p.words, HasMark (p.opening ++ w)) (hr : p.read? cs = some t) :
    HasMark (p.text t) := by
  obtain ⟨-, hw, -⟩ := read?_spec hr
  refine (h t.word hw).mono fun c hc => ?_
  rcases List.mem_append.1 hc with hc | hc <;> simp [text, hc]

lemma startsMarked_text (h : ∀ w ∈ p.words, StartsMarked (p.opening ++ w))
    (hr : p.read? cs = some t) : StartsMarked (p.text t) := by
  obtain ⟨hb, hw, -⟩ := read?_spec hr
  have := ((h t.word hw).insert hb).append (t.inner ++ p.closing)
  simpa [text] using this

lemma not_mem_inner (hc : p.closing = []) (hr : p.read? cs = some t) : '\n' ∉ t.inner := by
  obtain ⟨-, -, he⟩ := read?_spec hr
  unfold readEnd? at he
  rw [if_pos hc, hc, List.append_nil] at he
  cases hcs : t.inner ++ t.after with
  | nil => simp [(List.append_eq_nil_iff.1 hcs).1]
  | cons d ds =>
    rw [hcs] at he
    simp only [readLine, Option.some.injEq] at he
    split at he
    · next hd =>
      rw [← (Prod.mk.inj he).1]
      rintro hm
      rcases List.mem_cons.1 hm with rfl | hm
      · simp at hd
      · have := List.mem_takeWhile_imp hm
        simp at this
    · rw [← (Prod.mk.inj he).1]
      simp

end Read

end TagPattern

open TagPattern (isSpace HasMark StartsMarked opensBlock closesBlock)
open Unicode (isFiller)

/-- Tags that are told from the text around them. -/
structure Vocabulary.Steady (v : Vocabulary) : Prop where
  opens : (opensBlock v).Regular
  closes : (closesBlock v).Regular
  openMark : ∀ w ∈ (opensBlock v).words, HasMark (v.commentOpen.toList ++ w)
  closeMark : ∀ w ∈ (closesBlock v).words, StartsMarked (v.commentOpen.toList ++ w)
  lastMark : v.commentClose.toList.getLast? ≠ some '\n'

end CommentBlocks
