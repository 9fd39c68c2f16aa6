import CommentBlocks.Disk.Basic
import CommentBlocks.Proofs.Text.Bytes
import Mathlib.Data.List.Perm.Subperm

/-!
The directories of a disk: there are finitely many, and each lists its names once.
-/

namespace CommentBlocks.Disk

variable {d : Disk} {path : RawText} {place : Place}

/-! ### Directories by their paths -/

lemma isDirectory_iff :
    d.isDirectory path = true ↔ ∃ place, d.resolve path = .ok place ∧ d.isDirectoryAt place = true := by
  unfold isDirectory
  cases d.resolve path with
  | error e => simp
  | ok place => simp

lemma exists_of_list {names : List RawText} (h : d.list path = .ok names) :
    ∃ place, d.resolve path = .ok place ∧ d.isDirectoryAt place = true ∧ names = d.namesAt place := by
  unfold list at h
  cases hresolve : d.resolve path with
  | error e =>
    rw [hresolve] at h
    cases h
  | ok place =>
    rw [hresolve] at h
    simp only at h
    split at h
    · next hdirectory => exact ⟨place, rfl, hdirectory, (Except.ok.inj h).symm⟩
    · cases h

lemma list_eq (hresolve : d.resolve path = .ok place) (hdirectory : d.isDirectoryAt place = true) :
    d.list path = .ok (d.namesAt place) := by
  rw [list, hresolve]
  simp only [hdirectory, if_true]

lemma mem_of_isDirectoryAt (h : d.isDirectoryAt place = true) :
    place ∈ [] :: d.entries.map Prod.fst := by
  unfold isDirectoryAt entry? at h
  split at h
  · next heq =>
    split at heq
    · next hnil => exact hnil ▸ List.mem_cons_self
    · obtain ⟨before, after, hentries, -⟩ := List.lookup_eq_some_iff.1 heq
      simp [hentries]
  · cases h

/-- Different directories are at most one more than there are entries. -/
lemma length_le_of_nodup {places : List Place} (hnodup : places.Nodup)
    (h : ∀ place ∈ places, d.isDirectoryAt place = true) : places.length ≤ d.entries.length + 1 := by
  have hsub : places ⊆ [] :: d.entries.map Prod.fst := fun place hplace =>
    mem_of_isDirectoryAt (h place hplace)
  simpa using (hnodup.subperm hsub).length_le

/-! ### The names in a directory -/

lemma mem_of_list {name : RawText} {names : List RawText} (hlist : d.list path = .ok names)
    (h : ∃ names, d.list path = .ok names ∧ name ∈ names) : name ∈ names := by
  obtain ⟨names', hlist', hname⟩ := h
  exact Except.ok.inj (hlist'.symm.trans hlist) ▸ hname

lemma mem_insertName {name n : RawText} {names : List RawText} (h : n ∈ insertName name names) :
    n = name ∨ n ∈ names := by
  induction names with
  | nil => simpa [insertName] using h
  | cons m names ih =>
    rw [insertName] at h
    split at h
    · exact List.mem_cons.1 h
    split at h
    · exact .inr h
    · rcases List.mem_cons.1 h with rfl | h
      · exact .inr List.mem_cons_self
      · exact (ih h).imp_right (List.mem_cons_of_mem _)

lemma pairwise_insertName {name : RawText} {names : List RawText} (h : names.Pairwise (· < ·)) :
    (insertName name names).Pairwise (· < ·) := by
  induction names with
  | nil => simp [insertName]
  | cons m names ih =>
    obtain ⟨hm, hnames⟩ := List.pairwise_cons.1 h
    rw [insertName]
    split
    · next hlt =>
      refine List.pairwise_cons.2 ⟨fun n hn => ?_, h⟩
      rcases List.mem_cons.1 hn with rfl | hn
      · exact hlt
      · exact lt_trans hlt (hm n hn)
    · next hnlt =>
      split
      · exact h
      · next hne =>
        refine List.pairwise_cons.2 ⟨fun n hn => ?_, ih hnames⟩
        rcases mem_insertName hn with rfl | hn
        · exact lt_of_le_of_ne (not_lt.1 hnlt) (Ne.symm hne)
        · exact hm n hn

lemma exists_mem_entries {name : RawText} (h : name ∈ d.namesAt place) :
    ∃ e, (place ++ [name], e) ∈ d.entries := by
  suffices hall : ∀ n ∈ d.namesAt place, ∃ e, (place ++ [n], e) ∈ d.entries from hall name h
  rw [namesAt]
  refine List.foldlRecOn (motive := fun names => ∀ n ∈ names, ∃ e, (place ++ [n], e) ∈ d.entries)
    _ _ (by simp) ?_
  rintro names hnames ⟨p, e⟩ hmem
  simp only
  split
  · next name hlast =>
    split
    · next hplace =>
      intro n hn
      rcases mem_insertName hn with rfl | hn
      · obtain ⟨front, rfl⟩ := List.getLast?_eq_some_iff.1 hlast
        rw [List.dropLast_concat] at hplace
        exact ⟨e, hplace ▸ hmem⟩
      · exact hnames n hn
    · exact hnames
  · exact hnames

lemma nodup_namesAt (d : Disk) (place : Place) : (d.namesAt place).Nodup := by
  have hsorted : (d.namesAt place).Pairwise (· < ·) := by
    rw [namesAt]
    refine List.foldlRecOn (motive := List.Pairwise (· < ·)) _ _ List.Pairwise.nil ?_
    rintro names hnames ⟨entry, -⟩ -
    simp only
    split
    · split
      · exact pairwise_insertName hnames
      · exact hnames
    · exact hnames
  exact hsorted.imp ne_of_lt

end CommentBlocks.Disk
