import CommentBlocks.Proofs.Discovery.Walking
import CommentBlocks.Proofs.Disk.Following
import CommentBlocks.Proofs.Folding

/-!
The search for the files of a project gives the files that are selected, each once, in ascending order.

What the walk finds is told by names that lead down from the root, as its ways are. The walk reads the names
and the paths in its own way: only a text makes a directory hidden, and only a path that can be followed
makes one. So what is selected need not be what the entries by themselves would say.
-/

namespace CommentBlocks

/-- No entry of the disk has a slash in its name. -/
def Disk.Named (d : Disk) : Prop :=
  ∀ place e, (place, e) ∈ d.entries → ∀ name ∈ place, RawText.slash ∉ name.bytes

namespace Discovery

open Disk (pathTo)

/-! ### Order -/

section Order

variable {file : List RawText} {files : List (List RawText)}

lemma mem_dropRepeated_iff : file ∈ dropRepeated files ↔ file ∈ files := by
  fun_induction dropRepeated files with
  | case1 => rfl
  | case2 => rfl
  | case3 p ps ih => simp [ih]
  | case4 p q ps hne ih => rw [List.mem_cons, List.mem_cons, ih]

lemma pairwise_dropRepeated (h : files.Pairwise (· ≤ ·)) : (dropRepeated files).Pairwise (· < ·) := by
  fun_induction dropRepeated files with
  | case1 => exact .nil
  | case2 p => exact List.pairwise_singleton _ p
  | case3 p ps ih => exact ih (List.pairwise_cons.1 h).2
  | case4 p q ps hne ih =>
    obtain ⟨hp, h⟩ := List.pairwise_cons.1 h
    obtain ⟨hq, -⟩ := List.pairwise_cons.1 h
    have hpq : p < q := lt_of_le_of_ne (hp q List.mem_cons_self) hne
    refine List.pairwise_cons.2 ⟨fun r hr => ?_, ih h⟩
    rcases List.mem_cons.1 (mem_dropRepeated_iff.1 hr) with rfl | hr
    · exact hpq
    · exact hpq.trans_le (hq r hr)

lemma pairwise_arranged (files : List (List RawText)) :
    (dropRepeated (files.mergeSort fun a b => !decide (b < a))).Pairwise (· < ·) := by
  refine pairwise_dropRepeated ((List.pairwise_mergeSort ?_ ?_ files).imp fun h => by simpa using h)
  · simpa using fun a b c => le_trans
  · simpa using le_total

lemma arranged_eq (h : files.Pairwise (· < ·)) :
    dropRepeated (files.mergeSort fun a b => !decide (b < a)) = files := by
  have hsorted : files.Pairwise fun a b => (!decide (b < a)) = true :=
    h.imp fun hlt => by simpa using hlt.le
  rw [List.mergeSort_of_pairwise hsorted]
  clear hsorted
  fun_induction dropRepeated files with
  | case1 => rfl
  | case2 => rfl
  | case3 p ps ih => exact absurd ((List.pairwise_cons.1 h).1 p List.mem_cons_self) (lt_irrefl p)
  | case4 p q ps hne ih => rw [ih (List.pairwise_cons.1 h).2]

lemma mem_arranged_iff :
    file ∈ dropRepeated (files.mergeSort fun a b => !decide (b < a)) ↔ file ∈ files := by
  rw [mem_dropRepeated_iff, List.mem_mergeSort]

end Order

/-! ### What a walk finds -/

variable (d : Disk) (f : Filter) (root : Place)

/-- The names lead down from `dir` through directories that the walk enters to a file that it takes. -/
inductive Gathers : List RawText → List RawText → Prop
  | taken {dir : List RawText} {name : RawText} (h : Takes d f root dir name) : Gathers dir [name]
  | entered {dir : List RawText} {name : RawText} {rest : List RawText} (h : Enters d f root dir name)
      (hrest : Gathers (dir ++ [name]) rest) : Gathers dir (name :: rest)

def filesBelow (dir : List RawText) : Set (List RawText) :=
  {file | ∃ names, Gathers d f root dir names ∧ file = dir ++ names}

def filesBy (dir names : List RawText) : Set (List RawText) :=
  {file | ∃ name ∈ names, ∃ rest, Gathers d f root dir (name :: rest) ∧ file = dir ++ name :: rest}

variable {d f root} {dir names : List RawText} {name : RawText}

lemma Takes.not_enters (h : Takes d f root dir name) : ¬ Enters d f root dir name := fun henters => by
  have hfile := h.file
  rw [henters.directory] at hfile
  cases hfile

lemma filesBy_cons : filesBy d f root dir (name :: names) =
    {file | Enters d f root dir name ∧ file ∈ filesBelow d f root (dir ++ [name]) ∨
      Takes d f root dir name ∧ file = dir ++ [name]} ∪ filesBy d f root dir names := by
  ext file
  simp only [filesBy, filesBelow, Set.mem_union, Set.mem_ofPred_eq, List.exists_mem_cons_iff]
  refine or_congr_left ⟨?_, ?_⟩
  · rintro ⟨rest, hgathers, rfl⟩
    cases hgathers with
    | taken h => exact .inr ⟨h, rfl⟩
    | entered h hrest => exact .inl ⟨h, rest, hrest, List.append_cons dir name rest⟩
  · rintro (⟨h, rest, hrest, rfl⟩ | ⟨h, rfl⟩)
    · exact ⟨rest, .entered h hrest, (List.append_cons dir name rest).symm⟩
    · exact ⟨[], .taken h, rfl⟩

lemma filesBelow_eq (hlist : d.list (pathTo dir) = .ok names) :
    filesBelow d f root dir = filesBy d f root dir names := by
  ext file
  constructor
  · rintro ⟨_, h, rfl⟩
    cases h with
    | taken h => exact ⟨_, Disk.mem_of_list hlist h.listed, [], .taken h, rfl⟩
    | entered h hrest => exact ⟨_, Disk.mem_of_list hlist h.listed, _, .entered h hrest, rfl⟩
  · rintro ⟨name, -, rest, h, rfl⟩
    exact ⟨name :: rest, h, rfl⟩

variable {fuel : Nat}

lemma mem_files_foldlM (hwalk : ∀ dir found found', d.isDirectory (pathTo dir) = true →
      Proper d found.visited → d.entries.length + 2 ≤ fuel + found.visited.length →
      walk d f root fuel dir found = .ok found' → ∀ file,
        file ∈ found'.files ↔ file ∈ found.files ∨ file ∈ filesBelow d f root dir)
    (hlisted : ∀ name ∈ names, ∃ names, d.list (pathTo dir) = .ok names ∧ name ∈ names)
    {found found' : Found} (hproper : Proper d found.visited)
    (hfuel : d.entries.length + 2 ≤ fuel + found.visited.length)
    (h : names.foldlM (visit d f root dir (walk d f root fuel)) found = .ok found')
    (file : List RawText) :
    file ∈ found'.files ↔ file ∈ found.files ∨ file ∈ filesBy d f root dir names := by
  induction names generalizing found with
  | nil =>
    obtain rfl := Except.ok.inj h
    simp [filesBy]
  | cons name names ih =>
    obtain ⟨hlistedName, hlistedNames⟩ := List.forall_mem_cons.1 hlisted
    obtain ⟨found₁, hfirst, hrest⟩ := foldlM_cons_eq_ok.1 h
    rw [filesBy_cons, Set.mem_union, Set.mem_ofPred_eq, ← or_assoc]
    rcases visit_cases f root hlistedName found with
      ⟨henters, hvisit⟩ | ⟨henters, files, hfiles, hvisit⟩
    · rw [hvisit] at hfirst
      -- what has been visited stays so, and the fuel that is left is enough for the later names
      have hsettles : Settles d _ (ways d f root (dir ++ [name])) found.visited
        (walk d f root fuel _ found) := settles_walk henters.directory found hproper hfuel
      rw [hfirst] at hsettles
      obtain ⟨hproper₁, hlength⟩ := hsettles.keeps
      have htakes : ¬ Takes d f root dir name := fun h => h.not_enters henters
      rw [ih hlistedNames hproper₁ (by omega) hrest,
        hwalk _ found found₁ henters.directory hproper hfuel hfirst]
      simp only [henters, htakes, true_and, false_and, or_false]
    · obtain rfl := Except.ok.inj ((hvisit _).symm.trans hfirst)
      rw [@ih hlistedNames { found with files } hproper hfuel hrest, hfiles]
      simp only [henters, false_and, false_or]

theorem mem_files_walk (hdirectory : d.isDirectory (pathTo dir) = true) {found found' : Found}
    (hproper : Proper d found.visited) (hfuel : d.entries.length + 2 ≤ fuel + found.visited.length)
    (h : walk d f root fuel dir found = .ok found') (file : List RawText) :
    file ∈ found'.files ↔ file ∈ found.files ∨ file ∈ filesBelow d f root dir := by
  induction fuel generalizing dir found found' file with
  | zero =>
    have := Disk.length_le_of_nodup hproper.nodup hproper.directory
    omega
  | succ fuel ih =>
    obtain ⟨place, hresolve, hplace⟩ := Disk.isDirectory_iff.1 hdirectory
    have hlist := Disk.list_eq hresolve hplace
    rw [walk, hresolve] at h
    simp only [hlist] at h
    split at h
    · cases h
    · next hvisited =>
      rw [filesBelow_eq hlist]
      refine mem_files_foldlM (fun dir found found' hdirectory hproper hfuel h =>
          ih hdirectory hproper hfuel h)
        (fun name hname => ⟨_, hlist, hname⟩)
        (hproper.cons (fun h => hvisited (List.contains_iff_mem.2 h)) hplace) ?_ h file
      rw [List.length_cons]
      omega

/-! ### Entries below the root -/

variable {start : Place}

/-- The names lead down from `start`, each to an entry of the directory in front of it. -/
structure IsEntry (d : Disk) (start : Place) (names : List RawText) : Prop where
  ne_nil : names ≠ []
  listed : ∀ front name back, names = front ++ name :: back →
    ∃ listed, d.list (pathTo (start ++ front)) = .ok listed ∧ name ∈ listed

/-- Which names lead from the root to a directory, and which names of directories are hidden. -/
structure Reading where
  directory : List RawText → Prop
  hidden : RawText → Prop

/-- As the walk reads them: its path leads to a directory, and a hidden name is a text. -/
def Reading.ofWalk (d : Disk) (start : Place) : Reading where
  directory names := d.isDirectory (pathTo (start ++ names)) = true
  hidden name := name.text?.any isSkippedName = true

/-- As the entries are: a directory holds a directory or a link to one, and a hidden name starts with the
byte of a dot or is one of the two others. -/
def Reading.ofEntries (d : Disk) (start : Place) : Reading where
  directory names := ∃ front name place, names = front ++ [name] ∧
    d.resolve (pathTo (start ++ front)) = .ok place ∧ d.holdsDirectory place name = true
  hidden name := name.bytes.head? = some RawText.dot ∨ name = "node_modules" ∨ name = "target"

structure Selected (f : Filter) (r : Reading) (names : List RawText) : Prop where
  file : ¬ r.directory names
  wanted : f.wanted (.ofPieces names) = true
  regarded : f.ignored (.ofPieces names) false = false
  /-- No directory on the way is left out. -/
  entered : ∀ front name back, names = front ++ name :: back → back ≠ [] →
    ¬ r.hidden name ∧ f.ignored (.ofPieces (front ++ [name])) true = false

lemma seenFrom_append (start names : List RawText) : seenFrom start (start ++ names) = .ofPieces names := by
  rw [seenFrom, List.isPrefixOf?_eq_some_iff_append_eq.2 rfl, Option.getD_some]

lemma forall_split_cons_iff {P : List RawText → RawText → List RawText → Prop} :
    (∀ front n back, name :: names = front ++ n :: back → P front n back) ↔
      P [] name names ∧ ∀ front n back, names = front ++ n :: back → P (name :: front) n back := by
  constructor
  · exact fun h => ⟨h [] name names rfl, fun front n back heq =>
      h (name :: front) n back (by rw [heq, List.cons_append])⟩
  · rintro ⟨hfirst, hrest⟩ front n back heq
    cases front with
    | nil =>
      obtain ⟨rfl, rfl⟩ := List.cons.inj heq
      exact hfirst
    | cons m front =>
      obtain ⟨rfl, rfl⟩ := List.cons.inj heq
      exact hrest front n back rfl

/-- The last of the names is taken, and those in front of it are entered. -/
lemma gathers_iff : Gathers d f root dir names ↔ names ≠ [] ∧
    ∀ front name back, names = front ++ name :: back →
      if back = [] then Takes d f root (dir ++ front) name
      else Enters d f root (dir ++ front) name := by
  induction names generalizing dir with
  | nil =>
    refine ⟨fun h => ?_, fun h => absurd rfl h.1⟩
    cases h
  | cons name names ih =>
    have ih := @ih (dir ++ [name])
    simp only [List.append_assoc, List.singleton_append] at ih
    rw [forall_split_cons_iff, List.append_nil]
    constructor
    · intro h
      cases h with
      | taken h => exact ⟨by simp, h, by simp⟩
      | entered h hrest =>
        obtain ⟨hne, hall⟩ := ih.1 hrest
        exact ⟨by simp, by rwa [if_neg hne], hall⟩
    · rintro ⟨-, hfirst, hall⟩
      split at hfirst
      · next hnil => exact hnil ▸ .taken hfirst
      · next hne => exact .entered hfirst (ih.2 ⟨hne, hall⟩)

lemma Gathers.isEntry (h : Gathers d f start start names) : IsEntry d start names := by
  obtain ⟨hne, hall⟩ := gathers_iff.1 h
  refine ⟨hne, fun front name back heq => ?_⟩
  have hname := hall front name back heq
  split at hname
  · exact hname.listed
  · exact hname.listed

namespace IsEntry

lemma exists_place (h : IsEntry d start names) {front back : List RawText} (heq : names = front ++ back)
    (hback : back ≠ []) : ∃ place,
      d.resolve (pathTo (start ++ front)) = .ok place ∧ d.isDirectoryAt place = true := by
  obtain ⟨name, back, rfl⟩ := List.exists_cons_of_ne_nil hback
  obtain ⟨listed, hlist, -⟩ := h.listed front name back heq
  obtain ⟨place, hresolve, hplace, -⟩ := Disk.exists_of_list hlist
  exact ⟨place, hresolve, hplace⟩

lemma slash_not_mem (h : IsEntry d start names) (hnamed : d.Named) :
    ∀ name ∈ names, RawText.slash ∉ name.bytes := by
  intro name hname
  obtain ⟨front, back, heq⟩ := List.append_of_mem hname
  obtain ⟨listed, hlist, hmem⟩ := h.listed front name back heq
  obtain ⟨place, -, -, rfl⟩ := Disk.exists_of_list hlist
  obtain ⟨e, he⟩ := Disk.exists_mem_entries hmem
  exact hnamed _ e he name (by simp)

end IsEntry

lemma gathers_iff_selected (hentry : IsEntry d start names) :
    Gathers d f start start names ↔ Selected f (.ofWalk d start) names := by
  have hseen (front : List RawText) (name : RawText) :
      seenFrom start (start ++ front ++ [name]) = .ofPieces (front ++ [name]) := by
    rw [List.append_assoc, seenFrom_append]
  rw [gathers_iff]
  constructor
  · rintro ⟨hne, hall⟩
    obtain ⟨front, name, rfl⟩ := (List.eq_nil_or_concat' names).resolve_left hne
    have htakes : Takes d f start (start ++ front) name := by simpa using hall front name [] rfl
    refine ⟨?_, hseen front name ▸ htakes.wanted, hseen front name ▸ htakes.regarded,
      fun front name back heq hback => ?_⟩
    · simpa [Reading.ofWalk] using htakes.file
    · have henters : Enters d f start (start ++ front) name := by
        simpa [hback] using hall front name back heq
      exact ⟨by simpa [Reading.ofWalk] using henters.kept, hseen front name ▸ henters.regarded⟩
  · intro h
    refine ⟨hentry.ne_nil, fun front name back heq => ?_⟩
    have hlisted := hentry.listed front name back heq
    split
    · next hback =>
      subst hback heq
      refine ⟨hlisted, ?_, hseen front name ▸ h.regarded, hseen front name ▸ h.wanted⟩
      simpa [Reading.ofWalk] using h.file
    · next hback =>
      obtain ⟨hkept, hregarded⟩ := h.entered front name back heq hback
      refine ⟨hlisted, ?_, by simpa [Reading.ofWalk] using hkept, hseen front name ▸ hregarded⟩
      rw [List.append_assoc]
      exact Disk.isDirectory_iff.2 (hentry.exists_place (by rw [heq, List.append_cons]) hback)

/-! ### The two readings -/

lemma directory_ofEntries (hnamed : d.Named) (hentry : IsEntry d start names)
    (h : (Reading.ofWalk d start).directory names) : (Reading.ofEntries d start).directory names := by
  obtain ⟨front, name, rfl⟩ := (List.eq_nil_or_concat' names).resolve_left hentry.ne_nil
  obtain ⟨place, hplace, -⟩ := hentry.exists_place rfl (List.cons_ne_nil name [])
  refine ⟨front, name, place, rfl, hplace, Disk.holdsDirectory_of_isDirectory ?_ hplace ?_⟩
  · exact hentry.slash_not_mem hnamed name (by simp)
  · rw [List.append_assoc]
    exact h

/-- The walk takes a name for hidden if it is, unless the name starts with a dot and is no text. -/
lemma hidden_iff : (Reading.ofEntries d start).hidden name ↔
    (Reading.ofWalk d start).hidden name ∨ name.bytes.head? = some RawText.dot ∧ name.text? = none := by
  simp only [Reading.ofEntries, Reading.ofWalk]
  cases htext : name.text? with
  | none =>
    have hne (text : String) : name ≠ text := fun heq => by
      rw [heq, RawText.text?_ofText] at htext
      cases htext
    simp [hne]
  | some text =>
    obtain rfl := RawText.eq_ofText htext
    have hinj (other : String) : RawText.ofText text = other ↔ text = other :=
      RawText.ofText_injective.eq_iff
    have hdot : (RawText.ofText text).bytes.head? = some RawText.dot ↔ text.toList.head? = some '.' :=
      Text.head?_octets_eq_dot_iff
    simp [hdot, hinj, isSkippedName, or_assoc]

/-! ### The files of a search -/

lemma isDirectory_of_walk {fuel : Nat} {found found' : Found}
    (h : walk d f root (fuel + 1) dir found = .ok found') : d.isDirectory (pathTo dir) = true := by
  rw [walk] at h
  split at h
  · cases h
  split at h
  · cases h
  split at h
  · cases h
  next hlist =>
  obtain ⟨place, hresolve, hplace, -⟩ := Disk.exists_of_list hlist
  exact Disk.isDirectory_iff.2 ⟨place, hresolve, hplace⟩

variable {project : Path} {choice : Choice} {files : List (List RawText)}

lemma find_inv (h : find d project choice = .ok files) :
    ∃ start f found, d.resolve project = .ok start ∧ filter d start choice = .ok f ∧
      walk d f start (d.entries.length + 2) start ⟨[], []⟩ = .ok found ∧
      files = dropRepeated (found.files.mergeSort fun a b => !decide (b < a)) := by
  unfold find at h
  split at h
  · cases h
  next start hroot =>
  split at h
  · cases h
  next f hfilter =>
  split at h
  · cases h
  next found hwalk =>
  exact ⟨start, f, found, hroot, hfilter, hwalk, (Except.ok.inj h).symm⟩

structure Finds (d : Disk) (f : Filter) (start : Place) (r : Reading) (files : List (List RawText)) :
    Prop where
  ascending : files.Pairwise (· < ·)
  entries : ∀ file ∈ files, ∃ names, IsEntry d start names ∧ file = start ++ names
  selected : ∀ names, IsEntry d start names → (start ++ names ∈ files ↔ Selected f r names)

lemma exists_finds_of_find (h : find d project choice = .ok files) :
    ∃ start f, d.resolve project = .ok start ∧ filter d start choice = .ok f ∧
      Finds d f start (.ofWalk d start) files := by
  obtain ⟨start, f, found, hroot, hfilter, hwalk, rfl⟩ := find_inv h
  have hfound (file : List RawText) : file ∈ found.files ↔ file ∈ filesBelow d f start start := by
    simpa using mem_files_walk (isDirectory_of_walk hwalk) .nil (Nat.le_refl _) hwalk file
  refine ⟨start, f, hroot, hfilter, pairwise_arranged _, fun file hfile => ?_, fun names hentry => ?_⟩
  · obtain ⟨names, hgathers, rfl⟩ := (hfound file).1 (mem_arranged_iff.1 hfile)
    exact ⟨names, hgathers.isEntry, rfl⟩
  · rw [mem_arranged_iff, hfound, ← gathers_iff_selected hentry]
    constructor
    · rintro ⟨names', hgathers, heq⟩
      exact List.append_cancel_left heq ▸ hgathers
    · exact fun hgathers => ⟨names, hgathers, rfl⟩

/-- No file is an entry that is a directory, or was come to through a directory that is hidden. -/
def Plain (d : Disk) (start : Place) (files : List (List RawText)) : Prop :=
  ∀ names, start ++ names ∈ files → ¬ (Reading.ofEntries d start).directory names ∧
    ∀ front name back, names = front ++ name :: back → back ≠ [] →
      ¬ (name.bytes.head? = some RawText.dot ∧ name.text? = none)

/-- The search for files gives the selected entries below the root in ascending order, as the walk reads the
names. As the entries are it gives them exactly if no file is an entry that is a directory and none was come
to through a directory whose name starts with a dot and is no text. -/
theorem collect_selects (hnamed : d.Named) (hfiles : find d project choice = .ok files) :
    ∃ start f, d.resolve project = .ok start ∧ filter d start choice = .ok f ∧
      Finds d f start (.ofWalk d start) files ∧
      (Finds d f start (.ofEntries d start) files ↔ Plain d start files) := by
  obtain ⟨start, f, hroot, hfilter, hfinds⟩ := exists_finds_of_find hfiles
  refine ⟨start, f, hroot, hfilter, hfinds, fun h names hfile => ?_, fun hplain => ?_⟩
  · obtain ⟨names', hentry, heq⟩ := h.entries _ hfile
    obtain rfl := List.append_cancel_left heq
    have hselected := (h.selected names hentry).1 hfile
    refine ⟨hselected.file, fun front name back heq hback hname => ?_⟩
    exact (hselected.entered front name back heq hback).1 (hidden_iff.2 (.inr hname))
  · refine ⟨hfinds.ascending, hfinds.entries, fun names hentry => ⟨fun hfile => ?_, fun h => ?_⟩⟩
    · have hselected := (hfinds.selected names hentry).1 hfile
      obtain ⟨hdirectory, hnames⟩ := hplain names hfile
      refine ⟨hdirectory, hselected.wanted, hselected.regarded, fun front name back heq hback => ?_⟩
      obtain ⟨hhidden, hregarded⟩ := hselected.entered front name back heq hback
      exact ⟨fun h => (hidden_iff.1 h).elim hhidden (hnames front name back heq hback), hregarded⟩
    · refine (hfinds.selected names hentry).2 ⟨fun hdirectory => h.file ?_, h.wanted, h.regarded,
        fun front name back heq hback => ?_⟩
      · exact directory_ofEntries hnamed hentry hdirectory
      · obtain ⟨hhidden, hregarded⟩ := h.entered front name back heq hback
        exact ⟨fun h => hhidden (hidden_iff.2 (.inl h)), hregarded⟩

lemma find_eq_ok {start : Place} {f : Filter} (hroot : d.resolve project = .ok start)
    (hfilter : filter d start choice = .ok f)
    (hwalk : (walk d f start (d.entries.length + 2) start ⟨[], []⟩).map Found.files = .ok files)
    (hsorted : files.Pairwise (· < ·)) : find d project choice = .ok files := by
  obtain ⟨found, hfound, rfl⟩ := map_eq_ok_iff.1 hwalk
  rw [find]
  simp only [hroot, hfilter, hfound, arranged_eq hsorted]

def linkedProject : Disk :=
  ⟨[(["o"], .directory), (["o", "a.md"], .file "hi".toUTF8), (["p"], .directory),
    (["p", ".git"], .directory), (["p", ".git", "b.md"], .file "hi".toUTF8),
    (["p", "l"], .link "/o"), (["p", "l.md"], .file "hi".toUTF8), (["p", "s"], .directory),
    (["p", "s", "c.md"], .file "hi".toUTF8)], []⟩

/-- The search comes to the file behind the link, before the one in the root. -/
theorem collect_selects_linked_project :
    let choice : Choice := ⟨["**/*.md"], ["s/"], true⟩
    let files : List (List RawText) := [["p", "l", "a.md"], ["p", "l.md"]]
    linkedProject.Named ∧ find linkedProject ⟨"/p"⟩ choice = .ok files ∧
      ∃ start f, linkedProject.resolve (Path.mk "/p") = .ok start ∧
        filter linkedProject start choice = .ok f ∧
        Finds linkedProject f start (.ofWalk linkedProject start) files ∧
        (Finds linkedProject f start (.ofEntries linkedProject start) files ↔
          Plain linkedProject start files) := by
  intro choice files
  have hnamed : linkedProject.Named := by
    have h : ∀ entry ∈ linkedProject.entries, ∀ name ∈ entry.1, RawText.slash ∉ name.bytes := by
      decide +kernel
    exact fun place e he => h (place, e) he
  have hroot : linkedProject.resolve (Path.mk "/p") = .ok ["p"] := by decide +kernel
  obtain ⟨f, hfilter, hwalk⟩ : ∃ f, filter linkedProject ["p"] choice = .ok f ∧
      (walk linkedProject f ["p"] (linkedProject.entries.length + 2) ["p"] ⟨[], []⟩).map
        Found.files = .ok files := ⟨_, rfl, by decide +kernel⟩
  have hfiles : find linkedProject ⟨"/p"⟩ choice = .ok files :=
    find_eq_ok hroot hfilter hwalk (by decide +kernel)
  exact ⟨hnamed, hfiles, collect_selects hnamed hfiles⟩

/-- A directory whose name is a dot and a byte that is no text. -/
def strayHidden : Disk :=
  ⟨[([⟨[46, 255]⟩], .directory), ([⟨[46, 255]⟩, "a.md"], .file "hi".toUTF8)], []⟩

/-- A path that passes thirty links to the directory that they stand in. -/
def winding (start name : String) : RawText := start ++ String.join (List.replicate 30 "s/") ++ name

/-- A link to a directory that has a link to another one. Either of them can be followed, but not both, one
after the other. -/
def windingProject : Disk :=
  ⟨[(["d"], .directory), (["d", "s"], .link "."), (["d", "a"], .directory),
    (["d", "a", "x.md"], .link (winding "../" "b")), (["d", "b"], .directory), (["p"], .directory),
    (["p", "l"], .link (winding "../d/" "a"))], []⟩

/-- The search goes through a hidden directory whose name is no text, and it takes a link to a directory for
a file if too many links lead there. -/
theorem find_not_by_entries :
    (∃ f, filter strayHidden [] .standard = .ok f ∧ strayHidden.resolve (Path.mk "/") = .ok [] ∧
      find strayHidden ⟨"/"⟩ .standard = .ok [[⟨[46, 255]⟩, "a.md"]] ∧
      ¬ Finds strayHidden f [] (.ofEntries strayHidden []) [[⟨[46, 255]⟩, "a.md"]]) ∧
    ∃ f, filter windingProject ["p"] .standard = .ok f ∧
      windingProject.resolve (Path.mk "/p") = .ok ["p"] ∧
      find windingProject ⟨"/p"⟩ .standard = .ok [["p", "l", "x.md"]] ∧
      ¬ Finds windingProject f ["p"] (.ofEntries windingProject ["p"]) [["p", "l", "x.md"]] := by
  constructor
  · have hroot : strayHidden.resolve (Path.mk "/") = .ok [] := by decide +kernel
    obtain ⟨f, hfilter, hwalk⟩ : ∃ f, filter strayHidden [] .standard = .ok f ∧
        (walk strayHidden f [] (strayHidden.entries.length + 2) [] ⟨[], []⟩).map Found.files =
          .ok [[⟨[46, 255]⟩, "a.md"]] := ⟨_, rfl, by decide +kernel⟩
    refine ⟨f, hfilter, hroot, find_eq_ok hroot hfilter hwalk (List.pairwise_singleton _ _), fun h => ?_⟩
    obtain ⟨names, hentry, heq⟩ := h.entries _ List.mem_cons_self
    obtain rfl : ([⟨[46, 255]⟩, "a.md"] : List RawText) = names := heq
    have hselected := (h.selected _ hentry).1 List.mem_cons_self
    exact (hselected.entered [] _ ["a.md"] rfl (by simp)).1 (.inl rfl)
  · have hroot : windingProject.resolve (Path.mk "/p") = .ok ["p"] := by decide +kernel
    obtain ⟨f, hfilter, hwalk⟩ : ∃ f, filter windingProject ["p"] .standard = .ok f ∧
        (walk windingProject f ["p"] (windingProject.entries.length + 2) ["p"] ⟨[], []⟩).map Found.files =
          .ok [["p", "l", "x.md"]] := ⟨_, rfl, by decide +kernel⟩
    refine ⟨f, hfilter, hroot, find_eq_ok hroot hfilter hwalk (List.pairwise_singleton _ _), fun h => ?_⟩
    obtain ⟨names, hentry, heq⟩ := h.entries _ List.mem_cons_self
    obtain rfl : (["l", "x.md"] : List RawText) = names := (List.cons.inj heq).2
    have hselected := (h.selected _ hentry).1 List.mem_cons_self
    exact hselected.file ⟨["l"], "x.md", ["d", "a"], rfl, by decide +kernel, by decide +kernel⟩

end Discovery

end CommentBlocks
