import CommentBlocks.Text.Basic
import Mathlib.Tactic.Lemma

/-!
Splitting a text at a character and joining the pieces again.

A word that does not hold the character lies in a joined text just where it lies in one of the pieces.
-/

namespace CommentBlocks.Text

section Pieces

variable {α : Type} {sep : α}

lemma joinWith_cons {p : List α} {ps : List (List α)} (h : ps ≠ []) :
    joinWith [sep] (p :: ps) = p ++ sep :: joinWith [sep] ps := by
  cases ps with
  | nil => exact absurd rfl h
  | cons q qs => simp [joinWith]

lemma joinWith_concat {p : List α} {ps : List (List α)} (h : ps ≠ []) :
    joinWith [sep] (ps ++ [p]) = joinWith [sep] ps ++ sep :: p := by
  induction ps with
  | nil => exact absurd rfl h
  | cons q ps ih =>
    by_cases hps : ps = []
    · subst hps
      simp [joinWith]
    · rw [List.cons_append, joinWith_cons (by simp), joinWith_cons hps, ih hps, List.append_assoc,
        List.cons_append]

lemma joinWith_eq_intercalate (sep : List α) (ps : List (List α)) :
    joinWith sep ps = sep.intercalate ps := by
  induction ps using joinWith.induct with
  | case1 => rfl
  | case2 p => simp [joinWith, List.intercalate]
  | case3 p q ps ih => rw [joinWith, ih, List.intercalate_cons_cons]

variable [DecidableEq α]

lemma joinWith_splitAt (sep : α) (cs : List α) : joinWith [sep] (splitAt sep cs) = cs := by
  induction cs with
  | nil => rfl
  | cons c cs ih =>
    obtain ⟨piece, pieces, hsplit⟩ := List.exists_cons_of_ne_nil (splitAt_ne_nil sep cs)
    by_cases hc : c = sep
    · subst hc
      rw [splitAt_sep, joinWith_cons (splitAt_ne_nil _ _), ih, List.nil_append]
    · rw [hsplit] at ih
      rw [splitAt, hsplit]
      simp only [hc, if_false]
      cases pieces with
      | nil =>
        rw [joinWith] at ih ⊢
        rw [ih]
      | cons q qs =>
        rw [joinWith_cons (by simp)] at ih ⊢
        rw [List.cons_append, ih]

lemma sublist_of_mem_splitAt {cs piece : List α} (h : piece ∈ splitAt sep cs) :
    piece.Sublist cs := by
  have hjoined : ∀ ps : List (List α), piece ∈ ps → piece.Sublist (joinWith [sep] ps) := by
    intro ps
    induction ps with
    | nil => simp
    | cons p ps ih =>
      intro hmem
      by_cases hps : ps = []
      · subst hps
        obtain rfl : piece = p := by simpa using hmem
        exact List.Sublist.refl piece
      · rw [joinWith_cons hps]
        rcases List.mem_cons.1 hmem with rfl | hmem
        · exact List.sublist_append_left piece _
        · exact ((ih hmem).cons sep).trans (List.sublist_append_right p _)
  simpa [joinWith_splitAt] using hjoined _ h

lemma splitAt_of_not_mem {cs : List α} (h : sep ∉ cs) : splitAt sep cs = [cs] := by
  induction cs with
  | nil => rfl
  | cons c cs ih =>
    have hc : c ≠ sep := fun e => h (by simp [e])
    have hcs : sep ∉ cs := fun hm => h (List.mem_cons_of_mem c hm)
    rw [splitAt, ih hcs]
    simp [hc]

lemma not_mem_of_mem_splitAt {cs piece : List α} (h : piece ∈ splitAt sep cs) : sep ∉ piece := by
  induction cs generalizing piece with
  | nil => simp_all
  | cons c cs ih =>
    obtain ⟨first, others, hsplit⟩ := List.exists_cons_of_ne_nil (splitAt_ne_nil sep cs)
    rw [hsplit] at ih
    by_cases hc : c = sep
    · subst hc
      rw [splitAt_sep, hsplit] at h
      rcases List.mem_cons.1 h with rfl | h
      · simp
      · exact ih h
    · rw [splitAt, hsplit] at h
      simp only [hc, if_false] at h
      rcases List.mem_cons.1 h with rfl | h
      · simpa [Ne.symm hc] using ih List.mem_cons_self
      · exact ih (List.mem_cons_of_mem _ h)

/-- The character parts the pieces before it from those behind. -/
lemma splitAt_append_sep (a b : List α) :
    splitAt sep (a ++ sep :: b) = splitAt sep a ++ splitAt sep b := by
  induction a with
  | nil => rw [List.nil_append, splitAt_sep, splitAt_nil, List.singleton_append]
  | cons c a ih =>
    obtain ⟨first, others, hsplit⟩ := List.exists_cons_of_ne_nil (splitAt_ne_nil sep a)
    rw [List.cons_append, splitAt, splitAt, ih, hsplit, List.cons_append]
    by_cases hc : c = sep <;> simp [hc]

lemma splitAt_joinWith {ps : List (List α)} (h0 : ps ≠ []) (h : ∀ p ∈ ps, sep ∉ p) :
    splitAt sep (joinWith [sep] ps) = ps := by
  induction ps with
  | nil => exact absurd rfl h0
  | cons p ps ih =>
    obtain ⟨hp, hps⟩ := List.forall_mem_cons.1 h
    by_cases hnil : ps = []
    · rw [hnil, joinWith, splitAt_of_not_mem hp]
    · rw [joinWith_cons hnil, splitAt_append_sep, splitAt_of_not_mem hp, ih hnil hps,
        List.singleton_append]

/-- Changing the pieces of a text changes the text. -/
lemma joinWith_map_splitAt_eq_iff {cs : List α} {f : List α → List α}
    (hf : ∀ p ∈ splitAt sep cs, sep ∉ f p) :
    joinWith [sep] ((splitAt sep cs).map f) = cs ↔ ∀ p ∈ splitAt sep cs, f p = p := by
  constructor
  · intro h
    have hsplit := splitAt_joinWith (by simpa using splitAt_ne_nil sep cs) (List.forall_mem_map.2 hf)
    rw [h] at hsplit
    exact List.map_inj_left.1 (hsplit.symm.trans (List.map_id' _).symm)
  · intro h
    rw [List.map_congr_left h, List.map_id', joinWith_splitAt]

end Pieces

variable {sep : Char}

/-! ### The first occurrence -/

lemma cut?_of_not_mem {p : Char} {ps front : List Char} (h : p ∉ front) (rest : List Char) :
    cut? (p :: ps) (front ++ (p :: ps ++ rest)) = some (front, rest) := by
  induction front with
  | nil =>
    have hafter : after? (p :: ps) (p :: ps ++ rest) = some rest := after?_eq_some_iff.2 rfl
    rw [List.nil_append, List.cons_append] at *
    rw [cut?, hafter]
  | cons c front ih =>
    obtain ⟨hc, hfront⟩ := List.ne_and_not_mem_of_not_mem_cons h
    rw [List.cons_append, cut?, after?, if_neg hc, ih hfront]
    rfl

lemma splitOnce?_append {front : List Char} (h : sep ∉ front) (rest : List Char) :
    splitOnce? sep (front ++ sep :: rest) = some (front, rest) :=
  cut?_of_not_mem h rest

lemma splitOnce?_of_not_mem {cs : List Char} (h : sep ∉ cs) : splitOnce? sep cs = none := by
  cases hcut : splitOnce? sep cs with
  | none => rfl
  | some parts => exact absurd (by simp [eq_of_cut? hcut]) h

/-! ### Words in joined pieces -/

/-- A word that does not hold `d` lies on one side of it. -/
lemma infix_or_infix_of_cons {word a b : List Char} {d : Char} (hd : d ∉ word)
    (h : word <:+: a ++ d :: b) : word <:+: a ∨ word <:+: b := by
  obtain ⟨front, back, h⟩ := h
  rcases List.append_eq_append_iff.1 h with ⟨z, rfl, -⟩ | ⟨z, hz, hback⟩
  · exact .inl ⟨front, z, rfl⟩
  cases z with
  | nil =>
    rw [List.append_nil] at hz
    exact .inl ⟨front, [], by rw [List.append_nil, hz]⟩
  | cons e z =>
    obtain ⟨rfl, rfl⟩ := List.cons.inj hback
    rcases List.append_eq_append_iff.1 hz with ⟨y, -, rfl⟩ | ⟨y, rfl, hy⟩
    · exact absurd (List.mem_append_right y List.mem_cons_self) hd
    · cases y with
      | nil =>
        rw [List.nil_append] at hy
        exact absurd (hy ▸ List.mem_cons_self) hd
      | cons e y =>
        obtain ⟨-, rfl⟩ := List.cons.inj hy
        exact .inr ⟨y, back, rfl⟩

/-- A word lies behind a margin if it does not start in it. -/
lemma infix_of_margin {word margin cs : List Char} (hm : ∀ d ∈ margin, d ∉ word.head?)
    (h : word <:+: margin ++ cs) : word <:+: cs := by
  induction margin with
  | nil => exact h
  | cons d margin ih =>
    obtain ⟨hd, hrest⟩ := List.forall_mem_cons.1 hm
    rcases List.infix_cons_iff.1 h with ⟨rest, hprefix⟩ | h
    · cases word with
      | nil => exact List.nil_infix
      | cons c word =>
        obtain ⟨rfl, -⟩ := List.cons.inj hprefix
        exact absurd rfl hd
    · exact ih hrest h

lemma infix_of_margin_right {word margin cs : List Char} (hm : ∀ d ∈ margin, d ∉ word.getLast?)
    (h : word <:+: cs ++ margin) : word <:+: cs := by
  rw [← List.reverse_infix, List.reverse_append] at h
  rw [← List.reverse_infix]
  refine infix_of_margin (fun d hd => ?_) h
  rw [List.head?_reverse]
  exact hm d (List.mem_reverse.1 hd)

lemma infix_joinWith_iff {word : List Char} (hs : sep ∉ word) (h0 : word ≠ [])
    {ps : List (List Char)} : word <:+: joinWith [sep] ps ↔ ∃ p ∈ ps, word <:+: p := by
  induction ps with
  | nil => simpa [joinWith] using h0
  | cons p ps ih =>
    simp only [List.mem_cons, exists_eq_or_imp, ← ih]
    by_cases hps : ps = []
    · subst hps
      simpa [joinWith] using fun h => absurd h h0
    · rw [joinWith_cons hps]
      exact ⟨infix_or_infix_of_cons hs, fun h => h.elim
        (fun h => List.infix_append_of_infix_left h)
        fun h => List.infix_append_of_infix_right (h.trans (List.suffix_cons _ _).isInfix)⟩

end CommentBlocks.Text
