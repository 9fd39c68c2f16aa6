import CommentBlocks.Proofs.Block.Naming
import CommentBlocks.Proofs.Path.Relative
import CommentBlocks.Proofs.Project.Accounting

/-!
Runs that stop at faults which other runs only report.

A project can be told to stop at the first source with a fault, and to fail when a transform is not
registered. Either turns what a run reports into the fault of the run, and a run that reports nothing
of the kind stays as it is.
-/

namespace CommentBlocks

open Text (splitAt joinWith)

/-! ### The report of what is missing -/

namespace MissingTransform

/-- What the fault of a run says about a transform that is missing. -/
def entry (m : MissingTransform) : List Char := "  - ".toList ++ m.describe.toList

/-- An entry is one line, unless the path has a line break. -/
lemma lineFeed_not_mem_entry {m : MissingTransform} (hname : Header.IsName m.transform.toList)
    (hfile : '\n' ∉ m.file.text.toList) : '\n' ∉ m.entry := by
  have hnumber : '\n' ∉ (toString m.line).toList := fun h =>
    absurd (Nat.isDigit_of_mem_toDigits (by decide) (by decide) (Nat.toList_repr ▸ h)) (by decide)
  simp only [entry, describe, String.toList_append, List.mem_append, not_or]
  exact ⟨by decide, ⟨⟨⟨⟨by decide, hname.lineFeed_not_mem⟩, by decide⟩, hfile⟩, by decide⟩, hnumber⟩

end MissingTransform

namespace Project

variable {p : Project} {sources : List Source} {settings : Value} {outcome : ScanOutcome}
  {order : List Path} {r : RunResult} {calls : List Context} {log : List FileRun}

lemma toList_details (missing : List MissingTransform) :
    (String.intercalate "\n" (missing.map fun m => "  - " ++ m.describe)).toList =
      joinWith ['\n'] (missing.map MissingTransform.entry) := by
  rw [String.toList_intercalate, ← Text.joinWith_eq_intercalate, List.map_map]
  refine congrArg _ (List.map_congr_left fun m _ => ?_)
  rw [Function.comp_apply, String.toList_append, MissingTransform.entry]

lemma RunsTo.exists_of_mem_missing (hr : p.RunsTo sources settings outcome order r calls log)
    {m : MissingTransform} (hm : m ∈ r.missing) : ∃ s ∈ sources, s.path.same m.file = true ∧
      ∃ blocks, p.scanned s = .ok blocks ∧ ∃ b ∈ blocks, b.transform = some m.transform := by
  rw [hr.renders.missing_eq] at hm
  obtain ⟨g, hg, hm⟩ := List.mem_flatMap.1 hm
  rw [Engine.run_missing (hr.renders.runs g hg)] at hm
  obtain ⟨b, hb, hm⟩ := List.mem_filterMap.1 hm
  obtain ⟨hname, hfile, -⟩ := Engine.missing?_eq_some hm
  have hjob := hr.renders.jobs g hg
  obtain ⟨hitem, hid⟩ := item?_eq_some hjob.item_eq
  obtain ⟨s, hs, hpath, hscan⟩ := scan_items hr.scan_eq g.item hitem
  exact ⟨s, hs, by rw [hfile, ← hpath]; exact hid, _, hscan, b, hjob.blocks ▸ hb, hname⟩

lemma RunsTo.lineFeed_not_mem_entry (hr : p.RunsTo sources settings outcome order r calls log)
    (hpaths : ∀ s ∈ sources, '\n' ∉ s.path.text.toList) :
    ∀ entry ∈ r.missing.map MissingTransform.entry, '\n' ∉ entry := by
  refine List.forall_mem_map.2 fun m hm => ?_
  obtain ⟨s, hs, hsame, blocks, hscan, b, hb, hname⟩ := hr.exists_of_mem_missing hm
  refine MissingTransform.lineFeed_not_mem_entry (Block.isName_transform hscan hb hname) ?_
  have hfile := hpaths s hs
  rwa [Path.mem_text_iff (by decide) (by decide), Path.same_iff.1 hsame,
    ← Path.mem_text_iff (by decide) (by decide)] at hfile

/-! ### Runs that stop -/

def failingFast (p : Project) : Project := { p with config := { p.config with failFast := true } }

def failingOnMissing (p : Project) : Project :=
  { p with config := { p.config with failOnMissingTransforms := true } }

/-- What becomes of a run when the project is told to stop at faults. -/
structure Escalates (p : Project) (sources : List Source) (r : RunResult) (calls : List Context) :
    Prop where
  /-- The first fault stops the run before any transform is shown anything. -/
  fast : ∀ fault, r.errors.head? = some fault → p.failingFast.run sources = .error ⟨fault, []⟩
  unharmed : r.errors = [] → p.failingFast.run sources = .ok (r, calls)
  /-- The run fails after all transforms that are registered, with an entry for each that is not. -/
  missing : r.missing ≠ [] → ∃ details, p.failingOnMissing.run sources =
      .error ⟨.missingTransforms r.missing.length details, calls⟩ ∧
    details.toList = joinWith ['\n'] (r.missing.map MissingTransform.entry) ∧
    ((∀ s ∈ sources, '\n' ∉ s.path.text.toList) →
      splitAt '\n' details.toList = r.missing.map MissingTransform.entry)
  registered : r.missing = [] → p.failingOnMissing.run sources = .ok (r, calls)

/-- A run that is told to stop at faults gives the faults that are reported without, and the same
result where there are none. -/
theorem run_escalates (h : p.run sources = .ok (r, calls)) : p.Escalates sources r calls := by
  obtain ⟨settings, outcome, order, hsettings, hscan, horder, hfold, hmissing⟩ :=
    exists_of_run_eq_ok h
  obtain ⟨_, _, _, log, hr⟩ := run_stages h
  have herrors := hr.errors_eq
  have houtcome := (scan_eq_found_iff.1 hscan).2
  have hrun := run_eq_of_stages (p := p.failingOnMissing) hsettings hscan horder hfold
  exact
    { fast := fun fault hfault => by
        have hstop : p.failingFast.scan sources = .error fault :=
          scan_eq_error rfl (by rw [← hfault, herrors]; rfl)
        exact run_eq_error_of_scan (p := p.failingFast) hsettings hstop
      unharmed := fun hnil => by
        have hnone : ∀ s ∈ sources, p.fault? s = none :=
          List.filterMap_eq_nil_iff.1 (herrors ▸ hnil)
        exact run_eq_ok (p := p.failingFast) hsettings
          (scan_eq_found_iff.2 ⟨fun _ => hnone, houtcome⟩) horder hfold hmissing
      missing := fun hne => by
        refine ⟨_, ?_, toList_details r.missing, fun hpaths => ?_⟩
        · rw [hrun, if_pos (by simp [failingOnMissing, hne])]
          rfl
        · rw [toList_details, Text.splitAt_joinWith (by simpa using hne)
            (hr.lineFeed_not_mem_entry hpaths)]
      registered := fun hnil => by
        rw [hrun, hnil, if_neg (by simp)] }

/-- Of three files one has a transform that is not registered and one has a fault. -/
theorem run_escalates_three_files :
    let p := inlining Disk.empty
    let sources : List Source := [⟨⟨"/a.c"⟩, "/*a y*//*z*/"⟩, ⟨⟨"/b.c"⟩, "/*a x*//*z*/"⟩,
      ⟨⟨"/c.c"⟩, "/*a x*/"⟩]
    p.config.failFast = false ∧ p.config.failOnMissingTransforms = false ∧
      ∃ r calls, p.run sources = .ok (r, calls) ∧ r.errors.length = 1 ∧ r.missing.length = 1 ∧
        calls.length = 1 ∧ p.Escalates sources r calls := by
  intro p sources
  obtain ⟨⟨r, calls⟩, hrun, herrors, hmissing, hcalls⟩ : ∃ x ∈ (p.run sources).toOption,
      x.1.errors.length = 1 ∧ x.1.missing.length = 1 ∧ x.2.length = 1 := by decide +kernel
  have hok := eq_ok_of_toOption hrun
  exact ⟨rfl, rfl, r, calls, hok, herrors, hmissing, hcalls, run_escalates hok⟩

end Project

end CommentBlocks
