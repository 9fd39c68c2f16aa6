import CommentBlocks.Proofs.Dependency.Ordering

/-!
The order of files keeps the order in which they are given, unless a dependency moves a file.

A visit places nothing but what its file leads to. So when the walk is through with a file, all placed
files are reached from this one or from one in front of it, and any other file comes later.
-/

namespace CommentBlocks.Dependency

variable {nodes : List Path} {edges : List Edge} {p q : Path}

/-! ### The place of a file among those that are given -/

lemma place_cons (a : Path) (ps : List Path) (p : Path) :
    place (a :: ps) p = if a.same p = true then 0 else place ps p + 1 := by
  rw [place, List.findIdx_cons, place]
  cases a.same p <;> rfl

lemma place_congr (ps : List Path) (h : p.same q = true) : place ps p = place ps q := by
  have hsame : (fun d : Path => d.same p) = fun d => d.same q := by
    funext d
    rw [Path.same_comm, Path.same_congr h, Path.same_comm]
  rw [place, place, hsame]

lemma pairwise_place_distinct (ps : List Path) :
    (distinct ps).Pairwise fun p q => place ps p < place ps q := by
  induction ps with
  | nil => exact .nil
  | cons a ps ih =>
    have hlater : ∀ b ∈ (distinct ps).filter (!a.same ·), place (a :: ps) b = place ps b + 1 := by
      intro b hb
      rw [place_cons, if_neg (by simpa using (List.mem_filter.1 hb).2)]
    refine List.pairwise_cons.2 ⟨fun b hb => ?_, ?_⟩
    · rw [hlater b hb, place_cons, if_pos (Path.same_self a)]
      exact Nat.succ_pos _
    · refine (ih.sublist List.filter_sublist).imp_of_mem fun hb hc hlt => ?_
      rw [hlater _ hb, hlater _ hc]
      exact Nat.succ_lt_succ hlt

/-! ### What a visit places -/

lemma foldlM_reached {visit : List Path → Path → Except (List Path) (List Path)}
    {files placed placed' : List Path}
    (hvisit : ∀ node ∈ files, ∀ placed placed', visit placed node = .ok placed' →
      ∀ q ∈ placed', q ∈ placed ∨ Relation.ReflTransGen (DependsOn edges) node q)
    (h : files.foldlM visit placed = .ok placed') :
    ∀ q ∈ placed', q ∈ placed ∨ ∃ node ∈ files, Relation.ReflTransGen (DependsOn edges) node q := by
  refine foldlM_preserves (P := fun found => ∀ q ∈ found, q ∈ placed ∨ ∃ node ∈ files,
    Relation.ReflTransGen (DependsOn edges) node q) ?_ (fun q hq => .inl hq) h
  intro node hnode found found' hfound hnext q hq
  rcases hvisit node hnode found found' hnext q hq with hq | hreach
  · exact hfound q hq
  · exact .inr ⟨node, hnode, hreach⟩

/-- The induction is on the fuel: what a successor leads to, the file leads to. -/
lemma visit_reached {fuel : Nat} {trail placed placed' : List Path} {node : Path}
    (h : visit edges fuel trail placed node = .ok placed') :
    ∀ q ∈ placed', q ∈ placed ∨ Relation.ReflTransGen (DependsOn edges) node q := by
  induction fuel generalizing trail placed placed' node with
  | zero =>
    obtain rfl := Except.ok.inj h
    exact fun q hq => .inl hq
  | succ fuel ih =>
    unfold visit at h
    split at h
    · obtain rfl := Except.ok.inj h
      exact fun q hq => .inl hq
    · split at h
      · simp at h
      · split at h
        · next placed₁ hfold =>
          obtain rfl := Except.ok.inj h
          intro q hq
          rcases List.mem_append.1 hq with hq | hq
          · rcases foldlM_reached (fun _ _ _ _ => ih) hfold q hq with hq | ⟨next, hnext, hreach⟩
            · exact .inl hq
            · exact .inr (.head (dependsOn_of_mem_successors hnext) hreach)
          · obtain rfl := List.mem_singleton.1 hq
            exact .inr .refl
        · simp at h

/-! ### The walk up to a file -/

/-- The walk is through with the first files before it comes to the others. -/
lemma exists_of_order_eq_ok {before after order : List Path}
    (hfiles : mentioned nodes edges = before ++ after)
    (h : Dependency.order nodes edges = .ok order) : ∃ placed, placed <+: order ∧
      (∀ node ∈ before, ∃ d ∈ placed, d.same node = true) ∧
      ∀ d ∈ placed, ∃ node ∈ before, Relation.ReflTransGen (DependsOn edges) node d := by
  have hwalks (files : List Path) (hsub : files ⊆ mentioned nodes edges) (placed : List Path) :
      Walks nodes edges files placed
        (files.foldlM (visit edges ((mentioned nodes edges).length + 1) []) placed) :=
    walks_foldlM (fun node hnode => walks_visit (fun p => exists_mentioned) ⟨.nil, by simp, .nil⟩
      (.singleton node) (mem_given_of_mentioned (hsub hnode)) (by simp)) placed
  simp only [Dependency.order] at h
  rw [hfiles, List.foldlM_append, ← hfiles] at h
  cases hplaced : before.foldlM (visit edges ((mentioned nodes edges).length + 1) []) [] with
  | error c => simp [hplaced, bind, Except.bind] at h
  | ok placed =>
    rw [hplaced] at h
    have hrest := (hwalks after (by simp [hfiles]) placed).1 order h
    have hfirst := (hwalks before (by simp [hfiles]) []).1 placed hplaced
    refine ⟨placed, hrest.grown, hfirst.holds, fun d hd => ?_⟩
    exact (foldlM_reached (fun _ _ _ _ => visit_reached) hplaced d hd).resolve_left (by simp)

/-- A file comes later than `p` if it is given later and neither `p` nor a file that is given before `p`
leads to it. -/
lemma order_precedes {order : List Path} (h : executionOrder nodes edges = .ok order)
    (hp : p ∈ given nodes edges) (hq : q ∈ given nodes edges)
    (hlt : place (given nodes edges) p < place (given nodes edges) q)
    (hreach : ∀ w ∈ given nodes edges, place (given nodes edges) w ≤ place (given nodes edges) p →
      ¬ Relation.TransGen (DependsOn edges) w q) : Precedes order p q := by
  obtain ⟨p', hp', hpp⟩ := exists_mentioned hp
  obtain ⟨before, after, hfiles⟩ := List.append_of_mem hp'
  have hordered : (before ++ p' :: after).Pairwise fun a b =>
      place (given nodes edges) a < place (given nodes edges) b :=
    hfiles ▸ pairwise_place_distinct (given nodes edges)
  have hearly : ∀ w ∈ before ++ [p'], place (given nodes edges) w ≤ place (given nodes edges) p := by
    intro w hw
    rw [← place_congr _ hpp]
    rcases List.mem_append.1 hw with hw | hw
    · exact Nat.le_of_lt ((List.pairwise_append.1 hordered).2.2 w hw p' List.mem_cons_self)
    · rw [List.mem_singleton.1 hw]
  obtain ⟨placed, ⟨more, rfl⟩, hholds, honly⟩ := exists_of_order_eq_ok
    (hfiles.trans (List.append_cons before p' after)) (executionOrder_eq_ok h)
  obtain ⟨d, hd, hdp⟩ := hholds p' (by simp)
  obtain ⟨q', hq', hqq⟩ := ((order_spec nodes edges).1 _ (executionOrder_eq_ok h)).2.1 q hq
  have hlate : q' ∉ placed := by
    intro hmem
    obtain ⟨w, hw, hwq⟩ := honly q' hmem
    have hgiven : w ∈ given nodes edges := mem_given_of_mentioned (hfiles ▸ by
      rw [List.append_cons]; exact List.mem_append_left _ hw)
    rcases Relation.reflTransGen_iff_eq_or_transGen.1 hwq with rfl | hwq
    · exact absurd (hearly _ hw) (by rw [place_congr _ hqq]; omega)
    · obtain ⟨r, hwr, hrq⟩ := Relation.TransGen.tail'_iff.1 hwq
      exact hreach w hgiven (hearly w hw) (.tail' hwr (hrq.congr (Path.same_self r) hqq))
  obtain ⟨front, back, rfl⟩ := List.append_of_mem ((List.mem_append.1 hq').resolve_left hlate)
  exact ⟨placed ++ front, q', back, by simp, hqq, d, List.mem_append_left _ hd,
    Path.same_trans hdp hpp⟩

/-! ### No dependencies -/

lemma apart_distinct (ps : List Path) : Path.Apart (distinct ps) := by
  induction ps with
  | nil => exact .nil
  | cons a ps ih =>
    refine List.pairwise_cons.2 ⟨fun b hb => ?_, ih.sublist List.filter_sublist⟩
    simpa using (List.mem_filter.1 hb).2

lemma foldlM_visit_nil {fuel : Nat} {files placed : List Path} (h : Path.Apart (placed ++ files)) :
    files.foldlM (visit [] (fuel + 1) []) placed = .ok (placed ++ files) := by
  induction files generalizing placed with
  | nil => simp [pure, Except.pure]
  | cons node files ih =>
    have hnew : placed.any (·.same node) = false := by
      rw [List.any_eq_false]
      intro d hd
      simpa using (List.pairwise_append.1 h).2.2 d hd node List.mem_cons_self
    have hvisit : visit [] (fuel + 1) [] placed node = .ok (placed ++ [node]) := by
      simp [visit, hnew, successors, pure, Except.pure]
    rw [List.append_cons] at h
    refine foldlM_cons_eq_ok.2 ⟨placed ++ [node], hvisit, ?_⟩
    rw [ih h, List.append_assoc, List.singleton_append]

/-- The order of files moves one in front of another only if something forces it: of two files the one
that is given first comes first, unless it or a file that is given before it leads to the other one.
Without edges the order is the list of the files without their repetitions. -/
theorem executionOrder_stable (nodes : List Path) (edges : List Edge) :
    (∀ order, executionOrder nodes edges = .ok order →
      ∀ p ∈ given nodes edges, ∀ q ∈ given nodes edges,
        place (given nodes edges) p < place (given nodes edges) q →
        (∀ w ∈ given nodes edges, place (given nodes edges) w ≤ place (given nodes edges) p →
          ¬ Relation.TransGen (DependsOn edges) w q) → Precedes order p q) ∧
      executionOrder nodes [] = .ok (distinct nodes) := by
  refine ⟨fun order h p hp q hq hlt hreach => order_precedes h hp hq hlt hreach, ?_⟩
  have hmentioned : mentioned nodes [] = distinct nodes := by simp [mentioned]
  have horder : Dependency.order nodes [] = .ok (distinct nodes) := by
    rw [Dependency.order, hmentioned]
    exact foldlM_visit_nil (by simpa using apart_distinct nodes)
  rw [executionOrder, horder]

/-- The first file depends on the last one, which is moved in front of it; the third file is the first
one again. -/
theorem executionOrder_stable_four_files :
    let nodes : List Path := [⟨"b"⟩, ⟨"c"⟩, ⟨"b/"⟩, ⟨"d"⟩]
    let edges : List Edge := [(⟨"b"⟩, ⟨"d"⟩)]
    let order : List Path := [⟨"d"⟩, ⟨"b"⟩, ⟨"c"⟩]
    executionOrder nodes edges = .ok order ∧
      place (given nodes edges) ⟨"b"⟩ < place (given nodes edges) ⟨"c"⟩ ∧
      (∀ w ∈ given nodes edges, place (given nodes edges) w ≤ place (given nodes edges) ⟨"b"⟩ →
        ¬ Relation.TransGen (DependsOn edges) w ⟨"c"⟩) ∧
      Precedes order ⟨"b"⟩ ⟨"c"⟩ ∧ executionOrder nodes [] = .ok [⟨"b"⟩, ⟨"c"⟩, ⟨"d"⟩] := by
  intro nodes edges order
  have horder : executionOrder nodes edges = .ok order := by decide +kernel
  have hlt : place (given nodes edges) ⟨"b"⟩ < place (given nodes edges) ⟨"c"⟩ := by decide +kernel
  have hreach : ∀ w ∈ given nodes edges, place (given nodes edges) w ≤ place (given nodes edges) ⟨"b"⟩ →
      ¬ Relation.TransGen (DependsOn edges) w ⟨"c"⟩ := by
    intro w _ _ hwalk
    obtain ⟨r, -, e, he, -, hto⟩ := Relation.TransGen.tail'_iff.1 hwalk
    obtain rfl : e = (⟨"b"⟩, ⟨"d"⟩) := by simpa [edges] using he
    exact absurd hto (by decide +kernel)
  have hdistinct : distinct nodes = [⟨"b"⟩, ⟨"c"⟩, ⟨"d"⟩] := by decide +kernel
  obtain ⟨hstable, hplain⟩ := executionOrder_stable nodes edges
  exact ⟨horder, hlt, hreach, hstable order horder ⟨"b"⟩ (by simp [given, nodes]) ⟨"c"⟩
    (by simp [given, nodes]) hlt hreach, hdistinct ▸ hplain⟩

end CommentBlocks.Dependency
