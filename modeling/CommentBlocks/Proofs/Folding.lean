import Mathlib.Data.List.Forall2

/-!
Loops that can stop early, as folds in `Except`, and lists that go in step.
-/

namespace CommentBlocks

variable {α α' β β' ε : Type} {f : β → α → Except ε β} {f' : β' → α' → Except ε β'}

lemma foldlM_cons_eq_ok {a : α} {l : List α} {b c : β} :
    (a :: l).foldlM f b = .ok c ↔ ∃ b', f b a = .ok b' ∧ l.foldlM f b' = .ok c := by
  rw [List.foldlM_cons]
  cases h : f b a with
  | error e => simp [bind, Except.bind]
  | ok b' => simp [bind, Except.bind]

lemma foldlM_isOk {l : List α} (h : ∀ a ∈ l, ∀ b, ∃ b', f b a = .ok b') (b : β) :
    ∃ c, l.foldlM f b = .ok c := by
  induction l generalizing b with
  | nil => exact ⟨b, rfl⟩
  | cons a l ih =>
    obtain ⟨b', hb'⟩ := h a List.mem_cons_self b
    obtain ⟨c, hc⟩ := ih (fun a ha => h a (List.mem_cons_of_mem _ ha)) b'
    exact ⟨c, foldlM_cons_eq_ok.2 ⟨b', hb', hc⟩⟩

lemma exists_of_foldlM_eq_error {l : List α} {b : β} {e : ε} (h : l.foldlM f b = .error e) :
    ∃ a ∈ l, ∃ b', f b' a = .error e := by
  induction l generalizing b with
  | nil => cases h
  | cons a l ih =>
    rw [List.foldlM_cons] at h
    cases hturn : f b a with
    | error e' =>
      rw [hturn] at h
      exact ⟨a, List.mem_cons_self, b, hturn.trans h⟩
    | ok b' =>
      rw [hturn] at h
      obtain ⟨a', ha', hstop⟩ := ih h
      exact ⟨a', List.mem_cons_of_mem _ ha', hstop⟩

lemma foldlM_preserves {P : β → Prop} {l : List α}
    (h : ∀ a ∈ l, ∀ b b', P b → f b a = .ok b' → P b') {b c : β} (hb : P b)
    (hok : l.foldlM f b = .ok c) : P c := by
  induction l generalizing b with
  | nil =>
    obtain rfl := Except.ok.inj hok
    exact hb
  | cons a l ih =>
    obtain ⟨b', hb', hc⟩ := foldlM_cons_eq_ok.1 hok
    exact ih (fun a ha => h a (List.mem_cons_of_mem _ ha)) (h a List.mem_cons_self b b' hb hb') hc

/-- A loop collects what its turns add one after the other. -/
lemma foldlM_collects {γ : Type} {field : β → List γ} {g : α → Option γ}
    (h : ∀ a b b', f b a = .ok b' → field b' = field b ++ (g a).toList) {l : List α} {b c : β}
    (hok : l.foldlM f b = .ok c) : field c = field b ++ l.filterMap g := by
  induction l generalizing b with
  | nil =>
    obtain rfl := Except.ok.inj hok
    simp
  | cons a l ih =>
    obtain ⟨b', hb', hc⟩ := foldlM_cons_eq_ok.1 hok
    rw [ih hc, h a b b' hb', List.append_assoc]
    cases hg : g a <;> simp [hg]

/-- A loop whose turns take an invariant about the turns so far from each place to the next one. -/
lemma foldlM_reaches {P : List α → β → Prop} {l : List α}
    (hstep : ∀ before a after b, l = before ++ a :: after → P before b →
      ∃ b', f b a = .ok b' ∧ P (before ++ [a]) b') {b : β} (hb : P [] b) :
    ∃ c, l.foldlM f b = .ok c ∧ P l c := by
  suffices h : ∀ after before b, l = before ++ after → P before b →
      ∃ c, after.foldlM f b = .ok c ∧ P l c from h l [] b rfl hb
  intro after
  induction after with
  | nil =>
    intro before b hl hP
    rw [List.append_nil] at hl
    exact ⟨b, rfl, hl ▸ hP⟩
  | cons a after ih =>
    intro before b hl hP
    obtain ⟨b', hb', hP'⟩ := hstep before a after b hl hP
    obtain ⟨c, hc, hPc⟩ := ih (before ++ [a]) b' (by rw [hl, List.append_assoc]; rfl) hP'
    exact ⟨c, foldlM_cons_eq_ok.2 ⟨b', hb', hc⟩, hPc⟩

/-- A loop that follows another one turn by turn. -/
lemma foldlM_simulates {Q : α → α' → Prop} {R : β → β' → Prop} {l : List α} {l' : List α'}
    (hl : List.Forall₂ Q l l')
    (hstep : ∀ a a' b b' c, Q a a' → R b b' → f b a = .ok c → ∃ c', f' b' a' = .ok c' ∧ R c c')
    {b c : β} {b' : β'} (hb : R b b') (h : l.foldlM f b = .ok c) :
    ∃ c', l'.foldlM f' b' = .ok c' ∧ R c c' := by
  induction hl generalizing b b' with
  | nil =>
    obtain rfl := Except.ok.inj h
    exact ⟨b', rfl, hb⟩
  | cons ha _ ih =>
    obtain ⟨d, hd, hc⟩ := foldlM_cons_eq_ok.1 h
    obtain ⟨d', hd', hR⟩ := hstep _ _ _ _ _ ha hb hd
    obtain ⟨c', hc', hR'⟩ := ih hR hc
    exact ⟨c', foldlM_cons_eq_ok.2 ⟨d', hd', hc'⟩, hR'⟩

lemma map_eq_ok_iff {γ : Type} {r : Except ε α} {g : α → γ} {c : γ} :
    r.map g = .ok c ↔ ∃ a, r = .ok a ∧ g a = c := by
  cases r <;> simp [Except.map]

lemma map_eq_error_iff {γ : Type} {r : Except ε α} {g : α → γ} {e : ε} :
    r.map g = .error e ↔ r = .error e := by
  cases r <;> simp [Except.map]

/-- A loop over a list gives a result for each item, or it stops at the first one that has none. -/
lemma mapM_cases (g : α → Except ε β) (l : List α) :
    (∃ bs, l.mapM g = .ok bs ∧ List.Forall₂ (fun a b => g a = .ok b) l bs) ∨
      ∃ before a after e, l = before ++ a :: after ∧ (∀ a' ∈ before, ∃ b, g a' = .ok b) ∧
        g a = .error e ∧ l.mapM g = .error e := by
  induction l with
  | nil => exact .inl ⟨[], rfl, .nil⟩
  | cons a l ih =>
    rw [List.mapM_cons]
    cases ha : g a with
    | error e => exact .inr ⟨[], a, l, e, rfl, by simp, ha, rfl⟩
    | ok b =>
      rcases ih with ⟨bs, hbs, hall⟩ | ⟨before, a', after, e, rfl, hbefore, ha', hstop⟩
      · exact .inl ⟨b :: bs, by rw [hbs]; rfl, .cons ha hall⟩
      · refine .inr ⟨a :: before, a', after, e, rfl, ?_, ha', by rw [hstop]; rfl⟩
        exact List.forall_mem_cons.2 ⟨⟨b, ha⟩, hbefore⟩

variable {R : α → β → Prop} {l : List α} {l' : List β}

lemma map_eq_of_forall₂ {γ : Type} {g : α → γ} {g' : β → γ} (h : List.Forall₂ R l l')
    (hg : ∀ a b, R a b → g' b = g a) : l'.map g' = l.map g := by
  induction h with
  | nil => rfl
  | cons hab _ ih => rw [List.map_cons, List.map_cons, hg _ _ hab, ih]

lemma forall₂_trans {γ : Type} {S : β → γ → Prop} {T : α → γ → Prop} {l'' : List γ}
    (h : List.Forall₂ R l l') (h' : List.Forall₂ S l' l'') (ht : ∀ a b c, R a b → S b c → T a c) :
    List.Forall₂ T l l'' := by
  induction h generalizing l'' with
  | nil => cases h' with | nil => exact .nil
  | cons hab _ ih => cases h' with | cons hbc hrest => exact .cons (ht _ _ _ hab hbc) (ih hrest)

/-- Looking for the same thing finds it in both lists or in neither. -/
lemma find?_cases (h : List.Forall₂ R l l') {q : α → Bool} {q' : β → Bool}
    (hq : ∀ a b, R a b → q' b = q a) : l.find? q = none ∧ l'.find? q' = none ∨
      ∃ a b, l.find? q = some a ∧ l'.find? q' = some b ∧ R a b := by
  induction h with
  | nil => exact .inl ⟨rfl, rfl⟩
  | @cons a b l l' hab _ ih =>
    rw [List.find?_cons, List.find?_cons, hq a b hab]
    cases q a with
    | true => exact .inr ⟨a, b, rfl, rfl, hab⟩
    | false => exact ih

lemma exists_getElem?_right (h : List.Forall₂ R l l') {i : Nat} {a : α} (hi : l[i]? = some a) :
    ∃ b, l'[i]? = some b ∧ R a b := by
  obtain ⟨hlt, rfl⟩ := List.getElem?_eq_some_iff.1 hi
  have hlt' : i < l'.length := h.length_eq ▸ hlt
  exact ⟨l'[i], List.getElem?_eq_getElem hlt', h.get hlt hlt'⟩

lemma exists_getElem?_left (h : List.Forall₂ R l l') {i : Nat} {b : β} (hi : l'[i]? = some b) :
    ∃ a, l[i]? = some a ∧ R a b := by
  obtain ⟨hlt, rfl⟩ := List.getElem?_eq_some_iff.1 hi
  have hlt' : i < l.length := h.length_eq ▸ hlt
  exact ⟨l[i], List.getElem?_eq_getElem hlt', h.get hlt' hlt⟩

end CommentBlocks
