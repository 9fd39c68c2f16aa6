import CommentBlocks.Proofs.Dependency.Placing
import Mathlib.Data.List.Chain
import Mathlib.Data.List.Perm.Subperm
import Mathlib.Logic.Relation

/-!
The order of files: it holds every file once and after the files that it depends on, and there is one
unless the dependencies go in a circle.

The invariant of the walk is that the placed files are in order. A visit that succeeds has placed its
file, because the trail never gets as long as the fuel lasts; a visit that fails has met a file of the
trail again, and the trail between is the cycle.
-/

namespace CommentBlocks.Dependency

def DependsOn (edges : List Edge) (p q : Path) : Prop :=
  ∃ e ∈ edges, e.1.same p = true ∧ e.2.same q = true

/-- The way along the edges from some file leads back to it. -/
def Cyclic (edges : List Edge) : Prop := ∃ p, Relation.TransGen (DependsOn edges) p p

def given (nodes : List Path) (edges : List Edge) : List Path :=
  nodes ++ edges.flatMap fun (a, b) => [a, b]

def Precedes (order : List Path) (p q : Path) : Prop :=
  ∃ before q' after, order = before ++ q' :: after ∧ q'.same q = true ∧
    ∃ p' ∈ before, p'.same p = true

/-- Every given file once and nothing else, dependencies first. -/
structure IsOrder (nodes : List Path) (edges : List Edge) (order : List Path) : Prop where
  once : ∀ p ∈ given nodes edges, order.countP (·.same p) = 1
  only : ∀ p ∈ order, p ∈ given nodes edges
  before : ∀ e ∈ edges, Precedes order e.2 e.1

/-- Files each of which depends on the next one, the last one being the first one again. -/
structure IsCycle (edges : List Edge) (files : List Path) : Prop where
  length : 2 ≤ files.length
  closed : ∀ first ∈ files.head?, ∀ last ∈ files.getLast?, first.same last = true
  linked : files.IsChain (DependsOn edges)

variable {nodes : List Path} {edges : List Edge} {p q : Path}

lemma DependsOn.congr {p' q' : Path} (h : DependsOn edges p q) (hp : p.same p' = true)
    (hq : q.same q' = true) : DependsOn edges p' q' := by
  obtain ⟨e, he, hfrom, hto⟩ := h
  exact ⟨e, he, Path.same_trans hfrom hp, Path.same_trans hto hq⟩

lemma mem_given_of_edge {e : Edge} (he : e ∈ edges) :
    e.1 ∈ given nodes edges ∧ e.2 ∈ given nodes edges := by
  constructor <;>
    exact List.mem_append_right _ (List.mem_flatMap.2 ⟨e, he, by simp⟩)

/-! ### Successors and mentioned files -/

lemma exists_edge_of_mem_successors (h : q ∈ successors edges p) :
    ∃ e ∈ edges, e.1.same p = true ∧ e.2 = q := by
  obtain ⟨e, he, hq⟩ := List.mem_filterMap.1 h
  by_cases hsame : e.1.same p = true
  · exact ⟨e, he, hsame, by simpa [hsame] using hq⟩
  · simp [hsame] at hq

lemma dependsOn_of_mem_successors (h : q ∈ successors edges p) : DependsOn edges p q := by
  obtain ⟨e, he, hfrom, rfl⟩ := exists_edge_of_mem_successors h
  exact ⟨e, he, hfrom, Path.same_self _⟩

lemma DependsOn.exists_successor (h : DependsOn edges p q) :
    ∃ q' ∈ successors edges p, q'.same q = true := by
  obtain ⟨⟨a, b⟩, he, hfrom, hto⟩ := h
  exact ⟨b, List.mem_filterMap.2 ⟨_, he, if_pos hfrom⟩, hto⟩

lemma mem_given_of_mem_successors (h : q ∈ successors edges p) : q ∈ given nodes edges := by
  obtain ⟨e, he, -, rfl⟩ := exists_edge_of_mem_successors h
  exact (mem_given_of_edge he).2

lemma mem_of_mem_distinct {ps : List Path} (h : p ∈ distinct ps) : p ∈ ps := by
  induction ps with
  | nil => exact h
  | cons a ps ih =>
    rcases List.mem_cons.1 h with rfl | h
    · exact List.mem_cons_self
    · exact List.mem_cons_of_mem _ (ih (List.mem_filter.1 h).1)

lemma exists_mem_distinct {ps : List Path} (h : p ∈ ps) : ∃ q ∈ distinct ps, q.same p = true := by
  induction ps with
  | nil => simp at h
  | cons a ps ih =>
    by_cases ha : a.same p = true
    · exact ⟨a, List.mem_cons_self, ha⟩
    · rcases List.mem_cons.1 h with rfl | h
      · exact absurd (Path.same_self p) ha
      · obtain ⟨q, hq, hsame⟩ := ih h
        refine ⟨q, List.mem_cons_of_mem _ (List.mem_filter.2 ⟨hq, ?_⟩), hsame⟩
        simp only [Bool.not_eq_true']
        exact Bool.eq_false_iff.2 fun haq => ha (Path.same_trans haq hsame)

/-! ### Files in order -/

def Ordered (edges : List Edge) (placed : List Path) : Prop :=
  ∀ before p after, placed = before ++ p :: after → ∀ q, DependsOn edges p q →
    ∃ d ∈ before, d.same q = true

lemma ordered_nil : Ordered edges [] := by
  intro before p after h
  simp at h

lemma Ordered.concat {placed : List Path} {node : Path} (h : Ordered edges placed)
    (hnode : ∀ q, DependsOn edges node q → ∃ d ∈ placed, d.same q = true) :
    Ordered edges (placed ++ [node]) := by
  intro before p after heq q hq
  rcases List.eq_nil_or_concat after with rfl | ⟨after, last, rfl⟩
  · obtain ⟨rfl, hp⟩ := List.append_inj' heq rfl
    obtain rfl : node = p := by simpa using hp
    exact hnode q hq
  · have hsplit : placed ++ [node] = (before ++ p :: after) ++ [last] := by simpa using heq
    exact h before p after (List.append_inj' hsplit rfl).1 q hq

lemma Ordered.precedes {placed : List Path} (h : Ordered edges placed)
    (hp : ∃ p' ∈ placed, p'.same p = true) (hq : DependsOn edges p q) : Precedes placed q p := by
  obtain ⟨p', hmem, hsame⟩ := hp
  obtain ⟨before, after, rfl⟩ := List.append_of_mem hmem
  rw [Path.same_comm] at hsame
  obtain ⟨d, hd, hdq⟩ := h before p' after rfl q (hq.congr hsame (Path.same_self q))
  rw [Path.same_comm] at hsame
  exact ⟨before, p', after, rfl, hsame, d, hd, hdq⟩

def place (order : List Path) (p : Path) : Nat := order.findIdx (·.same p)

lemma Precedes.place_lt {order : List Path} (happart : Path.Apart order) (h : Precedes order p q) :
    place order p < place order q := by
  obtain ⟨before, q', after, rfl, hq, p', hp', hp⟩ := h
  have hnone : ∀ d ∈ before, ¬ d.same q = true := by
    intro d hd
    rw [Path.same_comm, ← Path.same_congr hq, Path.same_comm,
      happart.same_eq_false d (List.mem_append_left _ hd)]
    decide
  have hfirst : before.findIdx (·.same p) < before.length :=
    List.findIdx_lt_length_of_exists ⟨p', hp', hp⟩
  have hlast : before.findIdx (·.same q) = before.length :=
    List.findIdx_eq_length.2 fun d hd => Bool.eq_false_iff.2 (hnone d hd)
  rw [place, place, List.findIdx_append, List.findIdx_append, if_pos hfirst, hlast,
    if_neg (lt_irrefl _)]
  omega

lemma pairwise_place {order : List Path} (happart : Path.Apart order) :
    order.Pairwise fun p q => place order p < place order q := by
  refine List.pairwise_iff_getElem.2 fun i j hi hj hij => Precedes.place_lt happart ?_
  refine ⟨order.take j, order[j], order.drop (j + 1), by simp, Path.same_self _, order[i], ?_,
    Path.same_self _⟩
  exact List.mem_take_iff_getElem.2 ⟨i, by omega, rfl⟩

lemma Ordered.not_cyclic {order : List Path} (h : Ordered edges order) (happart : Path.Apart order)
    (hall : ∀ e ∈ edges, ∃ p' ∈ order, p'.same e.1 = true) : ¬ Cyclic edges := by
  rintro ⟨p, hcycle⟩
  have hstep {a b : Path} (hab : DependsOn edges a b) : place order b < place order a := by
    obtain ⟨e, he, hfrom, -⟩ := id hab
    obtain ⟨p', hp', hsame⟩ := hall e he
    exact (h.precedes ⟨p', hp', Path.same_trans hsame hfrom⟩ hab).place_lt happart
  have hwalk : ∀ {a b : Path}, Relation.TransGen (DependsOn edges) a b →
      place order b < place order a := by
    intro a b hab
    induction hab with
    | single hab => exact hstep hab
    | tail _ hbc ih => exact (hstep hbc).trans ih
  exact lt_irrefl _ (hwalk hcycle)

/-! ### Cycles -/

lemma transGen_of_isChain {r : Path → Path → Prop} {a : Path} {l : List Path}
    (h : (a :: l).IsChain r) : ∀ b ∈ l.getLast?, Relation.TransGen r a b := by
  induction l generalizing a with
  | nil => simp
  | cons c l ih =>
    obtain ⟨hac, hrest⟩ := List.isChain_cons_cons.1 h
    intro b hb
    cases l with
    | nil =>
      obtain rfl : c = b := by simpa using hb
      exact .single hac
    | cons d l => exact .head hac (ih hrest b (by simpa using hb))

lemma IsCycle.cyclic {files : List Path} (h : IsCycle edges files) : Cyclic edges := by
  obtain ⟨hlength, hclosed, hlinked⟩ := h
  match files, hlength with
  | a :: b :: l, _ =>
    obtain ⟨last, hlast⟩ : ∃ last, (b :: l).getLast? = some last :=
      Option.ne_none_iff_exists'.1 (by simp)
    have hsame := hclosed a rfl last (by simpa using hlast)
    refine ⟨a, ?_⟩
    have hwalk := transGen_of_isChain hlinked last hlast
    rw [Path.same_comm] at hsame
    obtain ⟨c, hac, hc⟩ := Relation.TransGen.tail'_iff.1 hwalk
    exact Relation.TransGen.tail' hac (hc.congr (Path.same_self c) hsame)

/-- The files whose dependencies are being placed, the last one first. -/
structure IsTrail (edges : List Edge) (files trail : List Path) : Prop where
  apart : Path.Apart trail
  known : ∀ t ∈ trail, ∃ f ∈ files, f.same t = true
  linked : trail.IsChain fun p q => DependsOn edges q p

lemma IsTrail.length_le {files trail : List Path} (h : IsTrail edges files trail) :
    trail.length ≤ files.length := by
  have hnodup : (trail.map Path.components).Nodup := by
    rw [List.Nodup, List.pairwise_map]
    refine h.apart.imp fun hpq heq => ?_
    rw [Path.same_iff.2 heq] at hpq
    simp at hpq
  have hsub : trail.map Path.components ⊆ files.map Path.components := by
    intro c hc
    obtain ⟨t, ht, rfl⟩ := List.mem_map.1 hc
    obtain ⟨f, hf, hsame⟩ := h.known t ht
    exact List.mem_map.2 ⟨f, hf, Path.same_iff.1 hsame⟩
  simpa using (hnodup.subperm hsub).length_le

lemma isCycle_cycle {trail : List Path} {node : Path}
    (hlinked : (node :: trail).IsChain fun p q => DependsOn edges q p)
    (hmet : trail.any (·.same node) = true) : IsCycle edges (cycle trail node) := by
  obtain ⟨first, hfind⟩ := List.find?_isSome.2 (List.any_eq_true.1 hmet) |> Option.isSome_iff_exists.1
  obtain ⟨hfirst, later, rest, rfl, hlater⟩ := List.find?_eq_some_iff_append.1 hfind
  have hcycle : cycle (later ++ first :: rest) node = (node :: (later ++ [first])).reverse := by
    have htake : (later ++ first :: rest).takeWhile (!Path.same · node) = later := by
      rw [List.takeWhile_append_of_pos hlater, List.takeWhile_cons_of_neg (by simp [hfirst]),
        List.append_nil]
    simp [cycle, htake]
  rw [hcycle]
  refine ⟨by simp, ?_, ?_⟩
  · rw [List.head?_reverse, List.getLast?_reverse, ← List.cons_append, List.getLast?_concat]
    intro a ha b hb
    rw [← Option.mem_some.1 ha, ← Option.mem_some.1 hb]
    exact hfirst
  · rw [List.isChain_reverse]
    exact hlinked.prefix ⟨rest, by simp⟩

/-! ### The walk -/

/-- What a walk over `files` that succeeds has done. -/
structure Placed (nodes : List Path) (edges : List Edge) (files placed placed' : List Path) :
    Prop where
  grown : placed <+: placed'
  ordered : Ordered edges placed → Ordered edges placed'
  holds : ∀ node ∈ files, ∃ d ∈ placed', d.same node = true
  only : ∀ p ∈ placed', p ∈ placed ∨ p ∈ given nodes edges

/-- The result of a walk: all of `files` are placed, or the walk shows a cycle. -/
def Walks (nodes : List Path) (edges : List Edge) (files placed : List Path)
    (result : Except (List Path) (List Path)) : Prop :=
  (∀ placed', result = .ok placed' → Placed nodes edges files placed placed') ∧
    ∀ c, result = .error c → IsCycle edges c

lemma walks_foldlM {visit : List Path → Path → Except (List Path) (List Path)} {files : List Path}
    (hvisit : ∀ node ∈ files, ∀ placed, Walks nodes edges [node] placed (visit placed node))
    (placed : List Path) : Walks nodes edges files placed (files.foldlM visit placed) := by
  refine ⟨fun placed' h => ?_, fun c h => ?_⟩
  · induction files generalizing placed with
    | nil =>
      obtain rfl := Except.ok.inj h
      exact ⟨List.prefix_rfl, id, by simp, fun p hp => .inl hp⟩
    | cons node files ih =>
      obtain ⟨placed₁, hfirst, hrest⟩ := foldlM_cons_eq_ok.1 h
      have hone := (hvisit node List.mem_cons_self placed).1 _ hfirst
      have hall := ih (fun node hnode => hvisit node (List.mem_cons_of_mem _ hnode)) placed₁ hrest
      refine ⟨hone.grown.trans hall.grown, hall.ordered ∘ hone.ordered, ?_, fun p hp => ?_⟩
      · refine List.forall_mem_cons.2 ⟨?_, hall.holds⟩
        obtain ⟨d, hd, hsame⟩ := hone.holds node (by simp)
        exact ⟨d, hall.grown.subset hd, hsame⟩
      · exact (hall.only p hp).elim (hone.only p) .inr
  · obtain ⟨node, hnode, placed₁, hfail⟩ := exists_of_foldlM_eq_error h
    exact (hvisit node hnode placed₁).2 c hfail

lemma Placed.concat {node : Path} {placed placed' : List Path}
    (h : Placed nodes edges (successors edges node) placed placed') (hnode : node ∈ given nodes edges) :
    Placed nodes edges [node] placed (placed' ++ [node]) := by
  refine ⟨h.grown.trans (List.prefix_append _ _), fun hordered => ?_, by simp, fun p hp => ?_⟩
  · refine (h.ordered hordered).concat fun q hq => ?_
    obtain ⟨q', hq', hsame⟩ := hq.exists_successor
    obtain ⟨d, hd, hdq⟩ := h.holds q' hq'
    exact ⟨d, hd, Path.same_trans hdq hsame⟩
  · rcases List.mem_append.1 hp with hp | hp
    · exact h.only p hp
    · obtain rfl := List.mem_singleton.1 hp
      exact .inr hnode

/-- The induction is on the fuel. The trail holds known files only and no file twice, so it cannot
use the fuel up. -/
lemma walks_visit {files : List Path} (hall : ∀ p ∈ given nodes edges, ∃ f ∈ files, f.same p = true)
    {fuel : Nat} {trail : List Path} {node : Path} (htrail : IsTrail edges files trail)
    (hlinked : (node :: trail).IsChain fun p q => DependsOn edges q p)
    (hnode : node ∈ given nodes edges) (hfuel : files.length < fuel + trail.length)
    (placed : List Path) :
    Walks nodes edges [node] placed (visit edges fuel trail placed node) := by
  induction fuel generalizing trail placed node with
  | zero => exact absurd htrail.length_le (by omega)
  | succ fuel ih =>
    unfold visit
    split
    · next hplaced =>
      refine ⟨fun placed' h => ?_, by simp⟩
      obtain rfl := Except.ok.inj h
      exact ⟨List.prefix_rfl, id, by simpa using hplaced, fun p hp => .inl hp⟩
    · split
      · next hmet =>
        refine ⟨by simp, fun c h => ?_⟩
        obtain rfl := Except.error.inj h
        exact isCycle_cycle hlinked hmet
      · next hmet =>
        -- the file stands on the trail while its dependencies are placed
        have htrail' : IsTrail edges files (node :: trail) := by
          refine ⟨List.pairwise_cons.2 ⟨fun t ht => ?_, htrail.apart⟩, ?_, hlinked⟩
          · rw [Path.same_comm]
            simpa using List.any_eq_false.1 (by simpa using hmet) t ht
          · exact List.forall_mem_cons.2 ⟨hall node hnode, htrail.known⟩
        have hwalks : Walks nodes edges (successors edges node) placed
            ((successors edges node).foldlM (visit edges fuel (node :: trail)) placed) :=
          walks_foldlM (fun next hnext placed₁ =>
            ih htrail' (hlinked.cons_cons (dependsOn_of_mem_successors hnext))
              (mem_given_of_mem_successors hnext) (by simp; omega) placed₁) placed
        split
        · next placed' hfold =>
          refine ⟨fun placed'' h => ?_, by simp⟩
          obtain rfl := Except.ok.inj h
          exact (hwalks.1 placed' hfold).concat hnode
        · next c hfold =>
          refine ⟨by simp, fun c' h => ?_⟩
          obtain rfl := Except.error.inj h
          exact hwalks.2 _ hfold

lemma exists_mentioned {p : Path} (h : p ∈ given nodes edges) :
    ∃ f ∈ mentioned nodes edges, f.same p = true := exists_mem_distinct h

lemma mem_given_of_mentioned {p : Path} (h : p ∈ mentioned nodes edges) : p ∈ given nodes edges :=
  mem_of_mem_distinct h

/-- The walk over all files: where it succeeds, all of them are placed in order; where it fails, it
shows a cycle. -/
lemma order_spec (nodes : List Path) (edges : List Edge) :
    (∀ files, order nodes edges = .ok files → Ordered edges files ∧
      (∀ p ∈ given nodes edges, ∃ d ∈ files, d.same p = true) ∧
        ∀ p ∈ files, p ∈ given nodes edges) ∧
      ∀ c, order nodes edges = .error c → IsCycle edges c := by
  have htrail : IsTrail edges (mentioned nodes edges) [] := ⟨.nil, by simp, .nil⟩
  have hwalks : Walks nodes edges (mentioned nodes edges) [] (order nodes edges) :=
    walks_foldlM (fun node hnode => walks_visit (fun p => exists_mentioned) htrail (.singleton node)
      (mem_given_of_mentioned hnode) (by simp)) []
  refine ⟨fun files h => ?_, hwalks.2⟩
  have hplaced := hwalks.1 files h
  refine ⟨hplaced.ordered ordered_nil, fun p hp => ?_,
    fun p hp => (hplaced.only p hp).resolve_left (by simp)⟩
  obtain ⟨f, hf, hfp⟩ := exists_mentioned hp
  obtain ⟨d, hd, hdf⟩ := hplaced.holds f hf
  exact ⟨d, hd, Path.same_trans hdf hfp⟩

example : (order [] [(⟨"a"⟩, ⟨"b"⟩), (⟨"c"⟩, ⟨"a"⟩)]).toOption = some [⟨"b"⟩, ⟨"a"⟩, ⟨"c"⟩] := by
  decide +kernel

lemma executionOrder_eq_ok {files : List Path} (h : executionOrder nodes edges = .ok files) :
    order nodes edges = .ok files := by
  unfold executionOrder at h
  split at h
  · next files' hfiles =>
    obtain rfl := Except.ok.inj h
    exact hfiles
  · simp at h

lemma executionOrder_eq_error {fault : Fault} (h : executionOrder nodes edges = .error fault) :
    ∃ c, order nodes edges = .error c ∧ fault = .dependencyCycle (c.map Path.text) := by
  unfold executionOrder at h
  split at h
  · simp at h
  · next c hc => exact ⟨c, hc, (Except.error.inj h).symm⟩

lemma executionOrder_not_cyclic {files : List Path} (h : executionOrder nodes edges = .ok files) :
    ¬ Cyclic edges := by
  obtain ⟨hordered, hholds, -⟩ := (order_spec nodes edges).1 files (executionOrder_eq_ok h)
  exact hordered.not_cyclic (executionOrder_apart h) fun e he => hholds e.1 (mem_given_of_edge he).1

lemma executionOrder_isOk (h : ¬ Cyclic edges) : ∃ files, executionOrder nodes edges = .ok files := by
  cases hfiles : executionOrder nodes edges with
  | ok files => exact ⟨files, rfl⟩
  | error fault =>
    obtain ⟨c, hc, -⟩ := executionOrder_eq_error hfiles
    exact absurd ((order_spec nodes edges).2 c hc).cyclic h

theorem executionOrder_precedes {files : List Path} (h : executionOrder nodes edges = .ok files)
    (hpq : DependsOn edges p q) : Precedes files q p := by
  obtain ⟨hordered, hholds, -⟩ := (order_spec nodes edges).1 files (executionOrder_eq_ok h)
  obtain ⟨e, he, hfrom, -⟩ := id hpq
  obtain ⟨d, hd, hsame⟩ := hholds e.1 (mem_given_of_edge he).1
  exact hordered.precedes ⟨d, hd, Path.same_trans hsame hfrom⟩ hpq

lemma countP_same_eq_one {files : List Path} (h : Path.Apart files)
    (hp : ∃ d ∈ files, d.same p = true) : files.countP (·.same p) = 1 := by
  obtain ⟨d, hd, hsame⟩ := hp
  have happart : Path.Apart (files.map id) := by rwa [List.map_id]
  rw [List.countP_eq_length_filter]
  exact congrArg List.length (happart.filter_eq hd hsame)

/-- Files are put in an order in which each stands once and after those it depends on, or a cycle of
dependencies is shown; the latter exactly if there is one. -/
theorem executionOrder_spec (nodes : List Path) (edges : List Edge) :
    (∀ files, executionOrder nodes edges = .ok files → IsOrder nodes edges files) ∧
      (∀ fault, executionOrder nodes edges = .error fault →
        ∃ files, fault = .dependencyCycle (files.map Path.text) ∧ IsCycle edges files) ∧
      ((∃ fault, executionOrder nodes edges = .error fault) ↔ Cyclic edges) := by
  have herror : ∀ fault, executionOrder nodes edges = .error fault →
      ∃ files, fault = .dependencyCycle (files.map Path.text) ∧ IsCycle edges files := by
    intro fault h
    obtain ⟨c, hc, rfl⟩ := executionOrder_eq_error h
    exact ⟨c, rfl, (order_spec nodes edges).2 c hc⟩
  refine ⟨fun files h => ?_, herror, ⟨?_, fun hcyclic => ?_⟩⟩
  · obtain ⟨-, hholds, honly⟩ := (order_spec nodes edges).1 files (executionOrder_eq_ok h)
    exact ⟨fun p hp => countP_same_eq_one (executionOrder_apart h) (hholds p hp), honly,
      fun e he => executionOrder_precedes h ⟨e, he, Path.same_self _, Path.same_self _⟩⟩
  · rintro ⟨fault, h⟩
    obtain ⟨files, -, hcycle⟩ := herror fault h
    exact hcycle.cyclic
  · cases h : executionOrder nodes edges with
    | error fault => exact ⟨fault, rfl⟩
    | ok files => exact absurd hcyclic (executionOrder_not_cyclic h)

end CommentBlocks.Dependency
