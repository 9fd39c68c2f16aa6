import CommentBlocks.Proofs.Dependency.Ordering
import CommentBlocks.Proofs.Project.Scanning

/-!
The references between the files of a project: a file that a block refers to is among the dependencies
that the scan finds, so an edge leads to it when it was scanned itself.
-/

namespace CommentBlocks

namespace Dependency

variable {id path : Path}

lemma add_subset (id : Path) (found : List Path) (file : Path) : found ⊆ add id found file := by
  unfold add
  split
  · exact List.Subset.refl _
  · exact List.subset_append_left _ _

lemma foldl_add_subset (id : Path) (files found : List Path) : found ⊆ files.foldl (add id) found := by
  induction files generalizing found with
  | nil => exact List.Subset.refl _
  | cons file files ih => exact List.Subset.trans (add_subset id found file) (ih _)

lemma exists_mem_add (h : path.same id = false) (found : List Path) :
    ∃ d ∈ add id found path, d.same path = true := by
  unfold add
  split
  · next hfound =>
    rw [h, Bool.false_or] at hfound
    exact List.any_eq_true.1 hfound
  · exact ⟨path, by simp, Path.same_self path⟩

lemma exists_mem_foldl_add {files : List Path} (hmem : path ∈ files) (h : path.same id = false)
    (found : List Path) : ∃ d ∈ files.foldl (add id) found, d.same path = true := by
  induction files generalizing found with
  | nil => simp at hmem
  | cons file files ih =>
    rcases List.mem_cons.1 hmem with rfl | hmem
    · obtain ⟨d, hd, hsame⟩ := exists_mem_add h found
      exact ⟨d, foldl_add_subset id files _ hd, hsame⟩
    · exact ih hmem _

lemma exists_mem_ofBlocks {blocks : List Block} {b : Block} (hb : b ∈ blocks) {src : String}
    (hsrc : b.src? = some src) (htarget : target? (id.parent?.getD ⟨""⟩) src = some path)
    (h : path.same id = false) : ∃ d ∈ ofBlocks id blocks, d.same path = true :=
  exists_mem_foldl_add (List.mem_filterMap.2 ⟨src, List.mem_filterMap.2 ⟨b, hb, hsrc⟩, htarget⟩) h []

end Dependency

namespace Project

variable {p : Project} {sources : List Source}

lemma scan_dependencies {o : ScanOutcome} (h : p.scan sources = .ok o) : ∀ item ∈ o.items,
    item.dependencies = (Dependency.ofBlocks item.id item.blocks).filter fun d =>
      (o.items.map FileItem.id).any (·.same d) := by
  obtain ⟨-, rfl⟩ := scan_eq_found_iff.1 h
  intro item hitem
  obtain ⟨s, -, blocks, -, hitem⟩ := mem_found_items_iff.1 hitem
  rw [hitem]
  rfl

/-- An edge leads from a scanned file to each scanned file that one of its blocks refers to. -/
lemma dependsOn_of_reference {o : ScanOutcome} (h : p.scan sources = .ok o) {item other : FileItem}
    (hitem : item ∈ o.items) (hother : other ∈ o.items) {b : Block} (hb : b ∈ item.blocks)
    {src : String} (hsrc : b.src? = some src) {path : Path}
    (htarget : Dependency.target? (item.id.parent?.getD ⟨""⟩) src = some path)
    (hpath : path.same other.id = true) (hne : other.id.same item.id = false) :
    Dependency.DependsOn (FileItem.edges o.items) item.id other.id := by
  have hpath_ne : path.same item.id = false := by
    refine Bool.eq_false_iff.2 fun hsame => ?_
    rw [Path.same_comm] at hpath
    rw [Path.same_trans hpath hsame] at hne
    simp at hne
  obtain ⟨d, hd, hdpath⟩ := Dependency.exists_mem_ofBlocks hb hsrc htarget hpath_ne
  have hdother : d.same other.id = true := Path.same_trans hdpath hpath
  have hknown : (o.items.map FileItem.id).any (·.same d) = true := by
    refine List.any_eq_true.2 ⟨other.id, List.mem_map_of_mem hother, ?_⟩
    rwa [Path.same_comm]
  have hdependency : d ∈ item.dependencies := by
    rw [scan_dependencies h item hitem]
    exact List.mem_filter.2 ⟨hd, hknown⟩
  refine ⟨(item.id, d), ?_, Path.same_self _, hdother⟩
  exact List.mem_flatMap.2
    ⟨item, hitem, List.mem_map.2 ⟨d, List.mem_filter.2 ⟨hdependency, hknown⟩, rfl⟩⟩

end Project

end CommentBlocks
