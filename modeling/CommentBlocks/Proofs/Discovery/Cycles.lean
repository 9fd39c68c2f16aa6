import CommentBlocks.Proofs.Discovery.Walking

/-!
The search for the files of a project stops at a symbolic link exactly when two ways down from the root
lead to one directory.

A link that leads back to a directory around it makes two such ways. But two links to one directory, or
a link to a directory beside it, make them as well, and no directory lies inside of itself then.
-/

namespace CommentBlocks.Discovery

open Disk (pathTo)

variable (d : Disk) (f : Filter) (start : Place)

/-- Some way down from the root enters a directory that it is inside of. -/
def Loops : Prop :=
  ∃ outer inner, inner ≠ [] ∧ outer ++ inner ∈ ways d f start start ∧
    leads d start outer = leads d start (outer ++ inner)

/-- Two ways down from the root lead to the same directory. -/
def Meets : Prop :=
  ∃ way ∈ ways d f start start, ∃ way' ∈ ways d f start start, way ≠ way' ∧
    leads d start way = leads d start way'

variable {d f start}

lemma IsWay.of_append {dir outer inner : List RawText}
    (h : IsWay d f start dir (outer ++ inner)) : IsWay d f start dir outer := by
  induction outer generalizing dir with
  | nil => trivial
  | cons name outer ih => exact ⟨h.1, ih h.2⟩

lemma Loops.meets (h : Loops d f start) : Meets d f start := by
  obtain ⟨outer, inner, hne, hway, heq⟩ := h
  refine ⟨outer, IsWay.of_append hway, outer ++ inner, hway, fun h => hne ?_, heq⟩
  simpa using h

lemma clear_iff_not_meets :
    Clear (leads d start) (ways d f start start) (places []) ↔ ¬ Meets d f start := by
  constructor
  · rintro h ⟨way, hway, way', hway', hne, heq⟩
    exact hne (h.apart hway hway' heq)
  · intro h
    refine ⟨fun way hway way' hway' heq => ?_, fun way _ => by simp [places]⟩
    by_contra hne
    exact h ⟨way, hway, way', hway', hne, heq⟩

structure Reports (d : Disk) (root : Path) (start : Place) (choice : Choice) (f : Filter) : Prop where
  cycle : (∃ text, collect d root choice = .error (.symlinkCycle text)) ↔ Meets d f start
  files : ¬ Meets d f start → ∃ files, collect d root choice = .ok files
  /-- The walk comes to its end: any more fuel gives the same. -/
  fuel : ∀ fuel, d.entries.length + 2 ≤ fuel →
    walk d f start fuel start ⟨[], []⟩ = walk d f start (d.entries.length + 2) start ⟨[], []⟩

variable {root : Path} {choice : Choice}

lemma collect_cases (hroot : d.resolve root = .ok start)
    (hdirectory : d.isDirectory (pathTo start) = true) (hfilter : filter d start choice = .ok f) :
    (Meets d f start ∧ ∃ text, collect d root choice = .error (.symlinkCycle text)) ∨
      (¬ Meets d f start ∧ ∃ files, collect d root choice = .ok files) := by
  have hwalk : Settles d start (ways d f start start) []
      (walk d f start (d.entries.length + 2) start ⟨[], []⟩) :=
    settles_walk hdirectory ⟨[], []⟩ .nil (Nat.le_refl _)
  unfold collect find
  simp only [hroot, hfilter]
  cases hresult : walk d f start (d.entries.length + 2) start ⟨[], []⟩ with
  | error e =>
    rw [hresult] at hwalk
    cases hwalk with
    | stopped hnot => exact .inl ⟨not_not.1 fun h => hnot (clear_iff_not_meets.2 h), _, rfl⟩
  | ok found =>
    rw [hresult] at hwalk
    cases hwalk with
    | done hclear => exact .inr ⟨clear_iff_not_meets.1 hclear, _, rfl⟩

lemma walk_eq_of_le (hdirectory : d.isDirectory (pathTo start) = true) {fuel : Nat}
    (hfuel : d.entries.length + 2 ≤ fuel) : walk d f start fuel start ⟨[], []⟩ =
      walk d f start (d.entries.length + 2) start ⟨[], []⟩ := by
  induction fuel, hfuel using Nat.le_induction with
  | base => rfl
  | succ fuel hfuel ih => exact (walk_succ_eq hdirectory .nil hfuel).trans ih

/-- The search for files ends, and it gives files or reports a cycle. It reports one when two ways meet,
so it reports just the cycles exactly if ways do not meet without a cycle. -/
theorem collect_reports_loops_iff (hroot : d.resolve root = .ok start)
    (hdirectory : d.isDirectory (pathTo start) = true) (hfilter : filter d start choice = .ok f) :
    Reports d root start choice f ∧
      ((((∃ text, collect d root choice = .error (.symlinkCycle text)) ↔ Loops d f start) ∧
        (¬ Loops d f start → ∃ files, collect d root choice = .ok files)) ↔
          (Meets d f start → Loops d f start)) := by
  have hcases := collect_cases hroot hdirectory hfilter
  have hreports : Reports d root start choice f :=
    { cycle := by
        rcases hcases with ⟨hmeets, hstops⟩ | ⟨hnot, files, hfiles⟩
        · exact ⟨fun _ => hmeets, fun _ => hstops⟩
        · refine ⟨fun ⟨text, hstops⟩ => ?_, fun hmeets => absurd hmeets hnot⟩
          rw [hfiles] at hstops
          cases hstops
      files := fun hnot => (hcases.resolve_left fun h => hnot h.1).2
      fuel := fun _ hfuel => walk_eq_of_le hdirectory hfuel }
  refine ⟨hreports, fun h hmeets => h.1.1 (hreports.cycle.2 hmeets), fun h => ⟨?_, fun hnot => ?_⟩⟩
  · rw [hreports.cycle]
    exact ⟨h, Loops.meets⟩
  · exact hreports.files fun hmeets => hnot (h hmeets)

def linkToSelf : Disk := ⟨[(["a"], .link ".")], []⟩

/-- The link leads back to the root, and the search reports it. -/
theorem collect_reports_link_to_self :
    let choice : Choice := ⟨[], [], true⟩
    ∃ f, filter linkToSelf [] choice = .ok f ∧ Loops linkToSelf f [] ∧
      ∃ text, collect linkToSelf ⟨"/"⟩ choice = .error (.symlinkCycle text) := by
  intro choice
  have hroot : linkToSelf.resolve (Path.mk "/") = .ok [] := by decide +kernel
  obtain ⟨f, hfilter, hregarded⟩ : ∃ f, filter linkToSelf [] choice = .ok f ∧
      f.ignored "a" true = false := ⟨_, rfl, rfl⟩
  have henters : Enters linkToSelf f [] [] "a" :=
    ⟨⟨["a"], by decide +kernel, by decide⟩, by decide +kernel, by decide +kernel, hregarded⟩
  have hloops : Loops linkToSelf f [] :=
    ⟨[], ["a"], by decide, ⟨henters, trivial⟩, by decide +kernel⟩
  have hreports := collect_reports_loops_iff hroot (by decide +kernel) hfilter
  exact ⟨f, hfilter, hloops, (hreports.2.2 fun _ => hloops).1.2 hloops⟩

def linkBeside : Disk :=
  ⟨[(["a"], .directory), (["a", "x.md"], .file "hi".toUTF8), (["b"], .link "a")], []⟩

/-- The link leads to the directory beside it, and the search reports a cycle where there is none. -/
theorem collect_reports_link_beside :
    linkBeside.resolve (Path.mk "/") = .ok [] ∧ linkBeside.isDirectory (pathTo []) = true ∧
      (∃ f, filter linkBeside [] .standard = .ok f) ∧
      collect linkBeside ⟨"/"⟩ .standard = .error (.symlinkCycle "/b") ∧
      ∀ f, ¬ Loops linkBeside f [] := by
  have hroot : linkBeside.list (pathTo []) = .ok ["a", "b"] := by decide +kernel
  -- nothing below the directory is a directory
  have hleaf : ∀ name ∈ (["a", "b"] : List RawText), linkBeside.list (pathTo [name]) = .ok ["x.md"] ∧
      linkBeside.isDirectory (pathTo [name, "x.md"]) = false := by decide +kernel
  have hways (f : Filter) (way : List RawText) (h : IsWay linkBeside f [] [] way) :
      way = [] ∨ way = ["a"] ∨ way = ["b"] := by
    cases way with
    | nil => exact .inl rfl
    | cons name way =>
      obtain ⟨hlist, hfile⟩ := hleaf name (h.1.mem hroot)
      have hnil : way = [] := by
        cases way with
        | nil => rfl
        | cons name' way =>
          obtain rfl : name' = "x.md" := List.mem_singleton.1 (h.2.1.mem hlist)
          exact absurd (hfile.symm.trans h.2.1.directory) Bool.false_ne_true
      simpa [hnil] using h.1.mem hroot
  refine ⟨by decide +kernel, by decide +kernel, ⟨_, rfl⟩, by decide +kernel, fun f => ?_⟩
  rintro ⟨outer, inner, hne, hway, heq⟩
  rcases hways f _ hway with h | h | h
  · exact hne (List.append_eq_nil_iff.1 h).2
  all_goals
    obtain ⟨rfl, rfl⟩ := (List.append_eq_singleton_iff.1 h).resolve_right fun h => hne h.2
    exact absurd heq (by decide +kernel)

end CommentBlocks.Discovery
