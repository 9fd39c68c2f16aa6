import CommentBlocks.Dependency.File
import CommentBlocks.Proofs.Folding

/-!
The depth-first walk places no file twice.

While the files that a file depends on are being placed, the file is on the trail, and meeting it again
closes a cycle. So nothing that a visit places is on the trail.
-/

namespace CommentBlocks

namespace Path

variable {p q r : Path}

lemma same_iff : p.same q = true ↔ p.components = q.components := beq_iff_eq

@[simp] lemma same_self (p : Path) : p.same p = true := same_iff.2 rfl

lemma same_comm (p q : Path) : p.same q = q.same p := by
  rw [Bool.eq_iff_iff, same_iff, same_iff]
  exact eq_comm

lemma same_trans (hpq : p.same q = true) (hqr : q.same r = true) : p.same r = true :=
  same_iff.2 ((same_iff.1 hpq).trans (same_iff.1 hqr))

lemma same_congr (hpq : p.same q = true) (r : Path) : p.same r = q.same r := by
  rw [same, same, same_iff.1 hpq]

def Apart (ps : List Path) : Prop := ps.Pairwise fun p q => p.same q = false

lemma Apart.same_eq_false {before after : List Path} (h : Apart (before ++ p :: after)) :
    ∀ d ∈ before ++ after, d.same p = false := by
  have hfront := List.perm_middle.pairwise h fun hab => by rwa [same_comm]
  intro d hd
  rw [same_comm]
  exact (List.pairwise_cons.1 hfront).1 d hd

/-- Among things that stand for different files, one alone stands for a file. -/
lemma Apart.filter_eq {α : Type} {file : α → Path} {l : List α} (h : Apart (l.map file)) {a : α}
    (ha : a ∈ l) (hsame : (file a).same p = true) : l.filter (fun a => (file a).same p) = [a] := by
  obtain ⟨before, after, rfl⟩ := List.append_of_mem ha
  rw [List.map_append, List.map_cons] at h
  have hothers : ∀ b ∈ before ++ after, ¬ (file b).same p = true := by
    intro b hb
    have hne := h.same_eq_false (file b) (by rw [← List.map_append]; exact List.mem_map_of_mem hb)
    rw [same_comm, same_congr hsame, same_comm] at hne
    simp [hne]
  obtain ⟨hbefore, hafter⟩ := List.forall_mem_append.1 hothers
  have hself : (a :: after).filter (fun a => (file a).same p) =
      a :: after.filter fun a => (file a).same p := List.filter_cons_of_pos hsame
  rw [List.filter_append, hself, List.filter_eq_nil_iff.2 hbefore, List.filter_eq_nil_iff.2 hafter,
    List.nil_append]

lemma Apart.eq_of_same {α : Type} {file : α → Path} {l : List α} (h : Apart (l.map file)) {a b : α}
    (ha : a ∈ l) (hb : b ∈ l) (hsame : (file a).same (file b) = true) : a = b := by
  have hmem : a ∈ l.filter (fun a => (file a).same (file b)) := List.mem_filter.2 ⟨ha, hsame⟩
  rw [h.filter_eq hb (same_self _)] at hmem
  exact List.mem_singleton.1 hmem

end Path

namespace Dependency

variable {edges : List Edge}

/-- What a visit does to the placed files: it adds some that are not on the trail, and no file
twice. -/
structure Grows (trail placed placed' : List Path) : Prop where
  added : ∃ more, placed' = placed ++ more ∧ ∀ q ∈ more, ∀ t ∈ trail, q.same t = false
  apart : Path.Apart placed → Path.Apart placed'

namespace Grows

variable {trail placed placed₁ placed₂ : List Path}

lemma refl (trail placed : List Path) : Grows trail placed placed where
  added := ⟨[], by simp, by simp⟩
  apart h := h

lemma trans (h₁ : Grows trail placed placed₁) (h₂ : Grows trail placed₁ placed₂) :
    Grows trail placed placed₂ where
  added := by
    obtain ⟨more₁, rfl, htrail₁⟩ := h₁.added
    obtain ⟨more₂, rfl, htrail₂⟩ := h₂.added
    refine ⟨more₁ ++ more₂, List.append_assoc _ _ _, fun q hq => ?_⟩
    exact (List.mem_append.1 hq).elim (htrail₁ q) (htrail₂ q)
  apart h := h₂.apart (h₁.apart h)

lemma place {node : Path} (h : Grows (node :: trail) placed placed₁)
    (hplaced : placed.any (·.same node) = false) (htrail : trail.any (·.same node) = false) :
    Grows trail placed (placed₁ ++ [node]) where
  added := by
    obtain ⟨more, rfl, hmore⟩ := h.added
    refine ⟨more ++ [node], List.append_assoc _ _ _, fun q hq t ht => ?_⟩
    rcases List.mem_append.1 hq with hq | hq
    · exact hmore q hq t (List.mem_cons_of_mem _ ht)
    · obtain rfl := List.mem_singleton.1 hq
      rw [Path.same_comm]
      simpa using List.any_eq_false.1 htrail t ht
  apart ha := by
    refine List.pairwise_append.2 ⟨h.apart ha, List.pairwise_singleton _ _, fun q hq t ht => ?_⟩
    obtain rfl := List.mem_singleton.1 ht
    obtain ⟨more, rfl, hmore⟩ := h.added
    rcases List.mem_append.1 hq with hq | hq
    · simpa using List.any_eq_false.1 hplaced q hq
    · exact hmore q hq t List.mem_cons_self

end Grows

lemma foldlM_grows {visit : List Path → Path → Except (List Path) (List Path)} {trail : List Path}
    (h : ∀ placed node placed', visit placed node = .ok placed' → Grows trail placed placed')
    {nodes placed placed' : List Path} (hok : nodes.foldlM visit placed = .ok placed') :
    Grows trail placed placed' :=
  foldlM_preserves (P := Grows trail placed)
    (fun _ _ _ _ hgrows hvisit => hgrows.trans (h _ _ _ hvisit)) (.refl _ _) hok

/-- The induction is on the fuel, which bounds the length of the trail. -/
lemma visit_grows {fuel : Nat} {trail placed placed' : List Path} {node : Path}
    (h : visit edges fuel trail placed node = .ok placed') : Grows trail placed placed' := by
  induction fuel generalizing trail placed placed' node with
  | zero =>
    obtain rfl := Except.ok.inj h
    exact .refl _ _
  | succ fuel ih =>
    unfold visit at h
    split at h
    · obtain rfl := Except.ok.inj h
      exact .refl _ _
    · next hplaced =>
      split at h
      · simp at h
      · next htrail =>
        split at h
        · next placed₁ hfold =>
          obtain rfl := Except.ok.inj h
          exact (foldlM_grows (fun _ _ _ => ih) hfold).place (by simpa using hplaced)
            (by simpa using htrail)
        · simp at h

theorem executionOrder_apart {nodes order : List Path}
    (h : executionOrder nodes edges = .ok order) : Path.Apart order := by
  unfold executionOrder at h
  split at h
  · next files hfiles =>
    obtain rfl := Except.ok.inj h
    exact (foldlM_grows (fun _ _ _ => visit_grows) hfiles).apart .nil
  · simp at h

end Dependency

end CommentBlocks
