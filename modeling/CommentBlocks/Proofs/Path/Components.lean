import CommentBlocks.Path.Basic
import CommentBlocks.Proofs.Text.Splitting
import Mathlib.Tactic.ByContra

/-!
Joining a path, going up to its parent and working out its dots, seen on the components alone: none of
them can tell apart two paths that have the same components.
-/

namespace CommentBlocks

open Text (splitAt joinWith)

namespace Path

/-- The components of a text that does not stand at the start of a path. -/
def below (cs : List Char) : List Component :=
  (splitAt '/' cs).filterMap (Component.ofPiece? false)

@[simp] lemma below_nil : below [] = [] := rfl

lemma spansFrom_cons (place : Nat) (p : List Char) (ps : List (List Char)) :
    spansFrom place (p :: ps) =
      ((Component.ofPiece? (place == 0) p).map fun c => Span.mk c place (place + p.length)).toList ++
        spansFrom (place + p.length + 1) ps := by
  rw [spansFrom]
  cases Component.ofPiece? (place == 0) p <;> rfl

lemma map_spansFrom_of_pos {place : Nat} (h : 0 < place) (ps : List (List Char)) :
    (spansFrom place ps).map Span.component = ps.filterMap (Component.ofPiece? false) := by
  induction ps generalizing place with
  | nil => rfl
  | cons p ps ih =>
    have hplace : (place == 0) = false := by simp; omega
    rw [spansFrom_cons, List.map_append, ih (by omega), hplace, List.filterMap_cons]
    cases Component.ofPiece? false p <;> rfl

lemma map_spansFrom_append (place : Nat) {ps : List (List Char)} (h : ps ≠ [])
    (qs : List (List Char)) : (spansFrom place (ps ++ qs)).map Span.component =
      (spansFrom place ps).map Span.component ++ qs.filterMap (Component.ofPiece? false) := by
  induction ps generalizing place with
  | nil => exact absurd rfl h
  | cons p ps ih =>
    rw [List.cons_append, spansFrom_cons, spansFrom_cons, List.map_append, List.map_append,
      List.append_assoc]
    cases ps with
    | nil => rw [List.nil_append, map_spansFrom_of_pos (by omega)]; rfl
    | cons p' ps => rw [ih _ (by simp)]

lemma spans_of_relative {cs : List Char} (h : cs.head? ≠ some '/') :
    spans cs = spansFrom 0 (splitAt '/' cs) := by
  unfold spans
  split
  · simp at h
  · rfl

lemma spans_slash (cs : List Char) :
    spans ('/' :: cs) = ⟨.root, 0, 1⟩ :: spansFrom 0 (splitAt '/' ('/' :: cs)) := rfl

lemma map_spans_slash (cs : List Char) :
    (spans ('/' :: cs)).map Span.component = .root :: below cs := by
  rw [spans_slash, Text.splitAt_sep, spansFrom_cons, List.map_cons, List.map_append,
    map_spansFrom_of_pos (by simp)]
  rfl

/-- What follows a slash adds its components, unless the slash starts the path. -/
lemma map_spans_append {base : List Char} (h : base ≠ []) (cs : List Char) :
    (spans (base ++ '/' :: cs)).map Span.component =
      (spans base).map Span.component ++ below cs := by
  have happend := map_spansFrom_append 0 (Text.splitAt_ne_nil '/' base) (splitAt '/' cs)
  obtain ⟨c, base, rfl⟩ := List.exists_cons_of_ne_nil h
  by_cases hc : c = '/'
  · subst hc
    rw [List.cons_append, spans_slash, spans_slash, List.map_cons, List.map_cons, ← List.cons_append,
      Text.splitAt_append_sep, happend, List.cons_append]
    rfl
  · have hhead : (c :: base).head? ≠ some '/' := by simpa using hc
    rw [spans_of_relative hhead, spans_of_relative (by simpa using hc), Text.splitAt_append_sep,
      happend]
    rfl

lemma components_join {p q : Path} (hp : p.components ≠ []) (hq : q.isAbsolute = false) :
    (p.join q).components = p.components ++ below q.text.toList := by
  have hbase : p.text.toList ≠ [] := by
    intro hnil
    rw [components, hnil] at hp
    exact hp rfl
  rw [join, hq, if_neg (by simp), components, components, String.toList_ofList]
  simp only [hbase, false_or]
  split
  · next hlast =>
    obtain ⟨base, hsplit⟩ : ∃ base, p.text.toList = base ++ ['/'] := by
      rw [List.getLast?_eq_some_iff] at hlast
      exact hlast
    rw [hsplit, List.append_nil, List.append_assoc, List.singleton_append]
    by_cases hnil : base = []
    · rw [hnil, List.nil_append, List.nil_append, map_spans_slash, map_spans_slash, below_nil]
      rfl
    · rw [map_spans_append hnil, map_spans_append hnil, below_nil, List.append_nil]
  · rw [List.append_assoc, List.singleton_append, map_spans_append hbase]

lemma components_eq_nil_iff {p : Path} : p.components = [] ↔ p.text.toList = [] := by
  constructor
  · intro h
    by_contra hne
    obtain ⟨c, cs, hcs⟩ := List.exists_cons_of_ne_nil hne
    rw [components, hcs] at h
    by_cases hc : c = '/'
    · subst hc
      rw [map_spans_slash] at h
      simp at h
    · rw [spans_of_relative (by simpa using hc)] at h
      obtain ⟨piece, pieces, hsplit⟩ := List.exists_cons_of_ne_nil (Text.splitAt_ne_nil '/' cs)
      have hpieces : splitAt '/' (c :: cs) = (c :: piece) :: pieces := by
        rw [splitAt, hsplit]
        simp [hc]
      have hpiece : ∃ k, Component.ofPiece? true (c :: piece) = some k := by
        unfold Component.ofPiece?
        split <;> simp_all
      obtain ⟨k, hk⟩ := hpiece
      rw [hpieces, spansFrom_cons, beq_self_eq_true, hk] at h
      simp at h
  · intro h
    rw [components, h]
    rfl

lemma join_congr {p p' : Path} (h : p.same p' = true) (q : Path) :
    (p.join q).same (p'.join q) = true := by
  have heq : p.components = p'.components := beq_iff_eq.1 h
  refine beq_iff_eq.2 ?_
  by_cases hq : q.isAbsolute = true
  · rw [join, join, hq]
    rfl
  · rw [Bool.not_eq_true] at hq
    by_cases hp : p.components = []
    · have hp' : p'.components = [] := heq ▸ hp
      rw [join, join, components_eq_nil_iff.1 hp, components_eq_nil_iff.1 hp']
    · rw [components_join hp hq, components_join (heq ▸ hp) hq, heq]

lemma normalize_congr {p p' : Path} (h : p.same p' = true) : p.normalize = p'.normalize := by
  rw [normalize, normalize, (beq_iff_eq.1 h : p.components = p'.components)]

/-! ### The parent -/

/-- The text up to the end of a component has the components up to there. -/
lemma spansFrom_take {place : Nat} {ps : List (List Char)} (hps : ps ≠ [])
    (hslash : ∀ p ∈ ps, '/' ∉ p) {a b : List Span} {s : Span}
    (h : spansFrom place ps = a ++ s :: b) :
    place ≤ s.stop ∧
      spansFrom place (splitAt '/' ((joinWith ['/'] ps).take (s.stop - place))) = a ++ [s] := by
  induction ps generalizing place a with
  | nil => exact absurd rfl hps
  | cons p ps ih =>
    obtain ⟨hp, hlater⟩ := List.forall_mem_cons.1 hslash
    have hjoin : ∃ tail, joinWith ['/'] (p :: ps) = p ++ tail ∧
        (ps ≠ [] → tail = '/' :: joinWith ['/'] ps) := by
      by_cases hnil : ps = []
      · subst hnil
        exact ⟨[], by simp [joinWith], fun hne => absurd rfl hne⟩
      · exact ⟨_, Text.joinWith_cons hnil, fun _ => rfl⟩
    obtain ⟨tail, hjoin, htail⟩ := hjoin
    rw [hjoin]
    -- the span lies in a later piece, so the first piece is kept whole
    have later {a' : List Span} (hrest : spansFrom (place + p.length + 1) ps = a' ++ s :: b) :
        place ≤ s.stop ∧ spansFrom place (splitAt '/' ((p ++ tail).take (s.stop - place))) =
          ((Component.ofPiece? (place == 0) p).map fun c =>
            Span.mk c place (place + p.length)).toList ++ (a' ++ [s]) := by
      have hne : ps ≠ [] := by
        rintro rfl
        simp [spansFrom] at hrest
      obtain ⟨hle, hspans⟩ := ih hne hlater hrest
      have htake : (p ++ tail).take (s.stop - place) =
          p ++ '/' :: (joinWith ['/'] ps).take (s.stop - (place + p.length + 1)) := by
        rw [htail hne, show s.stop - place = p.length + (s.stop - (place + p.length + 1) + 1) by omega,
          List.take_length_add_append, List.take_succ_cons]
      refine ⟨by omega, ?_⟩
      rw [htake, Text.splitAt_append_sep, Text.splitAt_of_not_mem hp, List.singleton_append,
        spansFrom_cons, hspans]
    rw [spansFrom_cons] at h
    cases hfirst : Component.ofPiece? (place == 0) p with
    | none =>
      rw [hfirst] at h later
      exact later h
    | some c =>
      rw [hfirst] at h later
      cases a with
      | nil =>
        obtain ⟨rfl, -⟩ := List.cons.inj h
        refine ⟨by simp, ?_⟩
        rw [Nat.add_sub_cancel_left, List.take_left, Text.splitAt_of_not_mem hp, spansFrom_cons, hfirst]
        rfl
      | cons s' a =>
        obtain ⟨rfl, hrest⟩ := List.cons.inj h
        exact later hrest

lemma spans_take {cs : List Char} {a b : List Span} {s : Span} (h : spans cs = a ++ s :: b) :
    spans (cs.take s.stop) = a ++ [s] := by
  have hslash : ∀ p ∈ splitAt '/' cs, '/' ∉ p := fun p hp => Text.not_mem_of_mem_splitAt hp
  have htake {a' : List Span} (hspans : spansFrom 0 (splitAt '/' cs) = a' ++ s :: b) :
      spansFrom 0 (splitAt '/' (cs.take s.stop)) = a' ++ [s] := by
    have := (spansFrom_take (Text.splitAt_ne_nil _ _) hslash hspans).2
    rwa [Text.joinWith_splitAt, Nat.sub_zero] at this
  by_cases hroot : cs.head? = some '/'
  · obtain ⟨rest, rfl⟩ := List.head?_eq_some_iff.1 hroot
    rw [spans_slash] at h
    cases a with
    | nil =>
      obtain ⟨rfl, -⟩ := List.cons.inj h
      rfl
    | cons s' a =>
      obtain ⟨rfl, hrest⟩ := List.cons.inj h
      have hspans := htake hrest
      cases hstop : s.stop with
      | zero =>
        rw [hstop, List.take_zero] at hspans
        simp [spansFrom, Component.ofPiece?] at hspans
      | succ stop =>
        rw [hstop, List.take_succ_cons] at hspans
        rw [List.take_succ_cons, spans_slash, hspans]
        rfl
  · rw [spans_of_relative hroot] at h
    rw [spans_of_relative, htake h]
    cases hstop : s.stop with
    | zero => simp
    | succ stop =>
      rw [List.head?_take, if_neg (by omega)]
      exact hroot

lemma components_of_parent? {p q : Path} (h : p.parent? = some q) :
    ∃ last, p.components = q.components ++ [last] ∧ last ≠ .root := by
  unfold parent? at h
  split at h
  · simp at h
  · next last earlier hspans =>
    have hspans' : spans p.text.toList = earlier.reverse ++ [last] := by
      rw [← List.reverse_reverse (spans p.text.toList), hspans, List.reverse_cons]
    split at h
    · simp at h
    · next hlast =>
      refine ⟨last.component, ?_, hlast⟩
      obtain rfl := Option.some.inj h
      rw [components, components, hspans', List.map_append, String.toList_ofList]
      congr 1
      cases earlier with
      | nil => rfl
      | cons s earlier =>
        rw [List.reverse_cons, List.append_assoc, List.singleton_append] at hspans'
        rw [List.reverse_cons]
        rw [spans_take hspans']

example : (Path.mk "/a//b/.").parent? = some ⟨"/a"⟩ := by decide

lemma components_of_no_parent {p : Path} (h : p.parent? = none) :
    p.components = [] ∨ p.components.getLast? = some .root := by
  unfold parent? at h
  split at h
  · next hspans =>
    rw [components, List.reverse_eq_nil_iff.1 hspans]
    exact .inl rfl
  · next last earlier hspans =>
    have hspans' : spans p.text.toList = earlier.reverse ++ [last] := by
      rw [← List.reverse_reverse (spans p.text.toList), hspans, List.reverse_cons]
    split at h
    · next hlast =>
      rw [components, hspans', List.map_append, List.map_singleton, List.getLast?_concat, hlast]
      exact .inr rfl
    · simp at h

lemma parent?_congr {p p' q : Path} (h : p.same p' = true) (hq : p.parent? = some q) :
    ∃ q', p'.parent? = some q' ∧ q.same q' = true := by
  obtain ⟨last, hcomponents, hlast⟩ := components_of_parent? hq
  have heq : p.components = p'.components := beq_iff_eq.1 h
  cases hq' : p'.parent? with
  | none =>
    rcases components_of_no_parent hq' with hnil | hroot
    · rw [← heq, hcomponents] at hnil
      simp at hnil
    · rw [← heq, hcomponents, List.getLast?_concat] at hroot
      exact absurd (Option.some.inj hroot) hlast
  | some q' =>
    obtain ⟨last', hcomponents', -⟩ := components_of_parent? hq'
    rw [heq, hcomponents'] at hcomponents
    exact ⟨q', rfl, beq_iff_eq.2 (List.append_inj' hcomponents rfl).1.symm⟩

end Path

end CommentBlocks
