import CommentBlocks.Project.Discovery
import CommentBlocks.Proofs.Disk.Directories
import CommentBlocks.Proofs.Folding
import Mathlib.Data.Set.Function

/-!
The walk over the directories of a project follows every way down from the root, as long as no two ways
lead to the same place.

A way is the list of the names that the walk goes down. What a walk comes to is told by the ways that it
goes, and the walk over the names in a directory goes the ways that start with one of them. So one
notion, `Settles`, says for a set of ways what the walk over them gives. The places it has visited are
different directories, of which there are finitely many; this bounds how deep the walk can go.
-/

namespace CommentBlocks.Discovery

open Disk (pathTo)

variable {R : Type} {g : List RawText → R} {S T : Set (List RawText)} {V : Set R}

/-! ### Ways that do not meet -/

/-- The ways lead to different places, and to none of those visited before. -/
structure Clear (g : List RawText → R) (S : Set (List RawText)) (V : Set R) : Prop where
  apart : Set.InjOn g S
  fresh : ∀ way ∈ S, g way ∉ V

lemma clear_empty : Clear g ∅ V := ⟨Set.injOn_empty g, fun _ h => h.elim⟩

lemma clear_singleton_iff {way : List RawText} : Clear g {way} V ↔ g way ∉ V :=
  ⟨fun h => h.fresh way rfl, fun h => ⟨Set.injOn_singleton g way, fun _ hway => hway ▸ h⟩⟩

/-- Ways are clear if those of a first part are, and then those of the rest when the first part has been
visited. -/
lemma clear_union_iff (hapart : ∀ way ∈ S, way ∉ T) :
    Clear g (S ∪ T) V ↔ Clear g S V ∧ Clear g T (V ∪ g '' S) := by
  have hdisjoint : Disjoint S T := Set.disjoint_left.2 hapart
  constructor
  · rintro ⟨hinj, hfresh⟩
    obtain ⟨hS, hT, hmeet⟩ := (Set.injOn_union hdisjoint).1 hinj
    refine ⟨⟨hS, fun way h => hfresh way (.inl h)⟩, hT, fun way h => ?_⟩
    rintro (hV | ⟨way', h', heq⟩)
    · exact hfresh way (.inr h) hV
    · exact hmeet way' h' way h heq
  · rintro ⟨hS, hT⟩
    refine ⟨(Set.injOn_union hdisjoint).2 ⟨hS.apart, hT.apart, fun way h way' h' heq => ?_⟩, ?_⟩
    · exact hT.fresh way' h' (.inr ⟨way, h, heq⟩)
    · rintro way (h | h)
      · exact hS.fresh way h
      · exact fun hV => hT.fresh way h (.inl hV)

lemma clear_image_cons_iff {name : RawText} :
    Clear g ((name :: ·) '' S) V ↔ Clear (fun way => g (name :: way)) S V := by
  constructor
  · rintro ⟨hapart, hfresh⟩
    refine ⟨fun way h way' h' heq => ?_, fun way h => hfresh _ ⟨way, h, rfl⟩⟩
    exact (List.cons.inj (hapart ⟨way, h, rfl⟩ ⟨way', h', rfl⟩ heq)).2
  · rintro ⟨hapart, hfresh⟩
    refine ⟨?_, ?_⟩
    · rintro _ ⟨way, h, rfl⟩ _ ⟨way', h', rfl⟩ heq
      exact congrArg _ (hapart h h' heq)
    · rintro _ ⟨way, h, rfl⟩
      exact hfresh way h

/-! ### The ways of a walk -/

variable (d : Disk) (f : Filter) (root : Place)

/-- Standing in the directory `dir`, the walk goes on into the directory `name`. -/
structure Enters (dir : List RawText) (name : RawText) : Prop where
  listed : ∃ names, d.list (pathTo dir) = .ok names ∧ name ∈ names
  directory : d.isDirectory (pathTo (dir ++ [name])) = true
  kept : name.text?.any isSkippedName = false
  regarded : f.ignored (seenFrom root (dir ++ [name])) true = false

/-- Standing in the directory `dir`, the walk takes the file `name`. -/
structure Takes (dir : List RawText) (name : RawText) : Prop where
  listed : ∃ names, d.list (pathTo dir) = .ok names ∧ name ∈ names
  file : d.isDirectory (pathTo (dir ++ [name])) = false
  regarded : f.ignored (seenFrom root (dir ++ [name])) false = false
  wanted : f.wanted (seenFrom root (dir ++ [name])) = true

/-- The names lead down from `dir`, each into a directory that the walk enters. -/
def IsWay (dir : List RawText) : List RawText → Prop
  | [] => True
  | name :: way => Enters d f root dir name ∧ IsWay (dir ++ [name]) way

def ways (dir : List RawText) : Set (List RawText) := {way | IsWay d f root dir way}

def waysBy (dir : List RawText) (names : List RawText) : Set (List RawText) :=
  {way | IsWay d f root dir way ∧ ∃ name ∈ names, ∃ rest, way = name :: rest}

def leads (dir way : List RawText) : Except DiskFault Place := d.resolve (pathTo (dir ++ way))

variable {d f root} {dir : List RawText} {name : RawText} {names : List RawText}

lemma leads_nil : leads d dir [] = d.resolve (pathTo dir) := by rw [leads, List.append_nil]

lemma leads_cons (way : List RawText) : leads d dir (name :: way) = leads d (dir ++ [name]) way := by
  rw [leads, leads, List.append_cons]

lemma Enters.mem (h : Enters d f root dir name) (hlist : d.list (pathTo dir) = .ok names) :
    name ∈ names := Disk.mem_of_list hlist h.listed

lemma ways_eq (hlist : d.list (pathTo dir) = .ok names) :
    ways d f root dir = {[]} ∪ waysBy d f root dir names := by
  ext way
  cases way with
  | nil => simp [ways, IsWay]
  | cons name way =>
    simp only [ways, waysBy, Set.mem_union, Set.mem_singleton_iff, Set.mem_ofPred_eq, reduceCtorEq,
      false_or, List.cons.injEq]
    exact ⟨fun h => ⟨h, name, h.1.mem hlist, way, rfl, rfl⟩, And.left⟩

lemma waysBy_nil : waysBy d f root dir [] = ∅ := by
  ext way
  simp [waysBy]

lemma waysBy_cons_of_enters (h : Enters d f root dir name) : waysBy d f root dir (name :: names) =
    (name :: ·) '' ways d f root (dir ++ [name]) ∪ waysBy d f root dir names := by
  ext way
  simp only [waysBy, ways, Set.mem_union, Set.mem_ofPred_eq, List.exists_mem_cons_iff, Set.mem_image]
  constructor
  · rintro ⟨hway, ⟨rest, rfl⟩ | hrest⟩
    · exact .inl ⟨rest, hway.2, rfl⟩
    · exact .inr ⟨hway, hrest⟩
  · rintro (⟨rest, hrest, rfl⟩ | ⟨hway, hrest⟩)
    · exact ⟨⟨h, hrest⟩, .inl ⟨rest, rfl⟩⟩
    · exact ⟨hway, .inr hrest⟩

lemma waysBy_cons_of_not_enters (h : ¬ Enters d f root dir name) :
    waysBy d f root dir (name :: names) = waysBy d f root dir names := by
  ext way
  simp only [waysBy, Set.mem_ofPred_eq, List.exists_mem_cons_iff]
  refine and_congr_right fun hway => ⟨?_, .inr⟩
  rintro (⟨rest, rfl⟩ | hrest)
  · exact absurd hway.1 h
  · exact hrest

lemma nil_not_mem_waysBy : [] ∉ waysBy d f root dir names := by
  rintro ⟨-, name, -, rest, hnil⟩
  cases hnil

lemma cons_not_mem_waysBy (h : name ∉ names) (way : List RawText) :
    name :: way ∉ waysBy d f root dir names := by
  rintro ⟨-, name', hname', rest, heq⟩
  exact h ((List.cons.inj heq).1 ▸ hname')

/-! ### What a walk gives -/

structure Proper (d : Disk) (visited : List Place) : Prop where
  nodup : visited.Nodup
  directory : ∀ place ∈ visited, d.isDirectoryAt place = true

lemma Proper.nil : Proper d [] := ⟨List.nodup_nil, fun _ h => absurd h List.not_mem_nil⟩

lemma Proper.cons {visited : List Place} {place : Place} (h : Proper d visited) (hnot : place ∉ visited)
    (hplace : d.isDirectoryAt place = true) : Proper d (place :: visited) :=
  ⟨List.nodup_cons.2 ⟨hnot, h.nodup⟩, List.forall_mem_cons.2 ⟨hplace, h.directory⟩⟩

def places (visited : List Place) : Set (Except DiskFault Place) := {r | ∃ p ∈ visited, r = .ok p}

/-- Going the ways `S` down from `dir` succeeds if they are clear, and visits the places to which they
lead. Otherwise it stops at a place that it has visited before. -/
inductive Settles (d : Disk) (dir : List RawText) (S : Set (List RawText)) (visited : List Place) :
    Except Fault Found → Prop where
  | done {found : Found} (hclear : Clear (leads d dir) S (places visited))
      (hproper : Proper d found.visited)
      (hplaces : places found.visited = places visited ∪ leads d dir '' S)
      (hlength : visited.length ≤ found.visited.length) : Settles d dir S visited (.ok found)
  | stopped {text : String} (hnot : ¬ Clear (leads d dir) S (places visited)) :
      Settles d dir S visited (.error (.symlinkCycle text))

namespace Settles

variable {visited : List Place} {result : Except Fault Found}

lemma keeps {found : Found} (h : Settles d dir S visited (.ok found)) :
    Proper d found.visited ∧ visited.length ≤ found.visited.length := by
  cases h with
  | done _ hproper _ hlength => exact ⟨hproper, hlength⟩

lemma image_cons (h : Settles d (dir ++ [name]) S visited result) :
    Settles d dir ((name :: ·) '' S) visited result := by
  have hclear : Clear (leads d dir) ((name :: ·) '' S) (places visited) ↔
      Clear (leads d (dir ++ [name])) S (places visited) := by
    simp only [clear_image_cons_iff, leads_cons]
  cases h with
  | done h hproper hplaces hlength =>
    refine .done (hclear.2 h) hproper ?_ hlength
    simp only [hplaces, Set.image_image, leads_cons]
  | stopped hnot => exact .stopped fun h => hnot (hclear.1 h)

lemma bind (h : Settles d dir S visited result) (hapart : ∀ way ∈ S, way ∉ T)
    {rest : Found → Except Fault Found}
    (hrest : ∀ found, result = .ok found → Proper d found.visited →
      visited.length ≤ found.visited.length → Settles d dir T found.visited (rest found)) :
    Settles d dir (S ∪ T) visited (result >>= rest) := by
  cases h with
  | @done found hclear hproper hplaces hlength =>
    have hunion := clear_union_iff (g := leads d dir) (V := places visited) hapart
    rw [← hplaces] at hunion
    have hrest := hrest found rfl hproper hlength
    rw [show (Except.ok found >>= rest : Except Fault Found) = rest found from rfl]
    cases hresult : rest found with
    | error e =>
      rw [hresult] at hrest
      cases hrest with
      | stopped hnot => exact .stopped fun h => hnot (hunion.1 h).2
    | ok found' =>
      rw [hresult] at hrest
      cases hrest with
      | done hclear' hproper' hplaces' hlength' =>
        refine .done (hunion.2 ⟨hclear, hclear'⟩) hproper' ?_ (hlength.trans hlength')
        rw [hplaces', hplaces, Set.image_union, Set.union_assoc]
  | stopped hnot => exact .stopped fun h => hnot ((clear_union_iff hapart).1 h).1

end Settles

/-- Looking at a name goes into its directory, or it only adds the file that it takes. -/
lemma visit_cases (f : Filter) (root : Place)
    (hlisted : ∃ names, d.list (pathTo dir) = .ok names ∧ name ∈ names) (found : Found) :
    (Enters d f root dir name ∧
      ∀ enter, visit d f root dir enter found name = enter (dir ++ [name]) found) ∨
    (¬ Enters d f root dir name ∧ ∃ files,
      (∀ file, file ∈ files ↔ file ∈ found.files ∨ Takes d f root dir name ∧ file = dir ++ [name]) ∧
      ∀ enter, visit d f root dir enter found name = .ok { found with files }) := by
  by_cases henters : Enters d f root dir name
  · refine .inl ⟨henters, fun enter => ?_⟩
    simp [visit, henters.directory, henters.kept, henters.regarded]
  refine .inr ⟨henters, ?_⟩
  by_cases htakes : Takes d f root dir name
  · refine ⟨found.files ++ [dir ++ [name]], fun path => by simp [htakes], fun enter => ?_⟩
    simp [visit, htakes.file, htakes.regarded, htakes.wanted]
  refine ⟨found.files, fun path => by simp [htakes], fun enter => ?_⟩
  unfold visit
  simp only
  split
  · rfl
  next hkept =>
  split
  · rfl
  next hregarded =>
  split
  · next hdirectory =>
    refine absurd ⟨hlisted, hdirectory, ?_, ?_⟩ henters
    · simpa [hdirectory] using hkept
    · simpa [hdirectory] using hregarded
  next hfile =>
  rw [Bool.not_eq_true] at hfile
  split
  · next hwanted => exact absurd ⟨hlisted, hfile, by simpa [hfile] using hregarded, hwanted⟩ htakes
  · rfl

variable {fuel : Nat}

/-- Going down by the names in a directory, given what the walk from each directory gives. -/
lemma settles_foldlM (hwalk : ∀ dir found, d.isDirectory (pathTo dir) = true → Proper d found.visited →
      d.entries.length + 2 ≤ fuel + found.visited.length →
      Settles d dir (ways d f root dir) found.visited (walk d f root fuel dir found))
    (hnodup : names.Nodup) (hlisted : ∀ name ∈ names, ∃ names, d.list (pathTo dir) = .ok names ∧ name ∈ names)
    {found : Found} (hproper : Proper d found.visited)
    (hfuel : d.entries.length + 2 ≤ fuel + found.visited.length) :
    Settles d dir (waysBy d f root dir names) found.visited
      (names.foldlM (visit d f root dir (walk d f root fuel)) found) := by
  induction names generalizing found with
  | nil =>
    rw [waysBy_nil]
    exact .done clear_empty hproper (by rw [Set.image_empty, Set.union_empty]) (Nat.le_refl _)
  | cons name names ih =>
    obtain ⟨hname, hnames⟩ := List.nodup_cons.1 hnodup
    obtain ⟨hlistedName, hlistedNames⟩ := List.forall_mem_cons.1 hlisted
    rw [List.foldlM_cons]
    rcases visit_cases f root hlistedName found with
      ⟨henters, hvisit⟩ | ⟨henters, files, -, hvisit⟩
    · rw [waysBy_cons_of_enters henters, hvisit]
      refine (hwalk _ found henters.directory hproper hfuel).image_cons.bind
        (Set.forall_mem_image.2 fun way _ => cons_not_mem_waysBy hname way)
        fun found' _ hproper' hlength => ?_
      exact ih hnames hlistedNames hproper' (by omega)
    · rw [waysBy_cons_of_not_enters henters, hvisit]
      exact @ih hnames hlistedNames { found with files } hproper hfuel

/-- Entering a directory is the empty way: it stops if the place has been visited. -/
lemma settles_enter {place : Place} (hresolve : d.resolve (pathTo dir) = .ok place)
    (hplace : d.isDirectoryAt place = true) {found : Found} (hproper : Proper d found.visited) :
    Settles d dir {[]} found.visited
      (if found.visited.contains place then .error (.symlinkCycle (Disk.pathOf dir).text)
        else .ok { found with visited := place :: found.visited }) := by
  have hleads : leads d dir [] = .ok place := leads_nil.trans hresolve
  have hmem : leads d dir [] ∈ places found.visited ↔ found.visited.contains place = true := by
    rw [hleads, List.contains_iff_mem]
    simp [places]
  split
  · next hvisited => exact .stopped fun h => clear_singleton_iff.1 h (hmem.2 hvisited)
  · next hvisited =>
    have hnot : place ∉ found.visited := fun h => hvisited (List.contains_iff_mem.2 h)
    refine .done (clear_singleton_iff.2 fun h => hvisited (hmem.1 h))
      (hproper.cons hnot hplace) ?_ (Nat.le_succ _)
    ext r
    simp [places, hleads]

theorem settles_walk (hdirectory : d.isDirectory (pathTo dir) = true) (found : Found)
    (hproper : Proper d found.visited)
    (hfuel : d.entries.length + 2 ≤ fuel + found.visited.length) :
    Settles d dir (ways d f root dir) found.visited (walk d f root fuel dir found) := by
  induction fuel generalizing dir found with
  | zero =>
    -- there are not so many directories as would have been visited
    have := Disk.length_le_of_nodup hproper.nodup hproper.directory
    omega
  | succ fuel ih =>
    obtain ⟨place, hresolve, hplace⟩ := Disk.isDirectory_iff.1 hdirectory
    have hlist := Disk.list_eq hresolve hplace
    have hwalk : walk d f root (fuel + 1) dir found =
        (if found.visited.contains place then .error (.symlinkCycle (Disk.pathOf dir).text)
          else .ok { found with visited := place :: found.visited }) >>=
        fun found => (d.namesAt place).foldlM (visit d f root dir (walk d f root fuel)) found := by
      rw [walk, hresolve]
      simp only [hlist]
      split <;> rfl
    rw [ways_eq hlist, hwalk]
    refine (settles_enter hresolve hplace hproper).bind
      (fun way hway => hway ▸ nil_not_mem_waysBy) fun found' hfound' hproper' _ => ?_
    refine settles_foldlM (fun dir found hdirectory hproper hfuel => ih hdirectory found hproper hfuel)
      (Disk.nodup_namesAt d place) (fun name hname => ⟨_, hlist, hname⟩) hproper' ?_
    split at hfound'
    · cases hfound'
    · obtain rfl := Except.ok.inj hfound'
      rw [List.length_cons]
      omega

/-! ### Fuel -/

lemma foldlM_visit_eq {walk₁ walk₂ : List RawText → Found → Except Fault Found}
    (hwalk : ∀ dir found, d.isDirectory (pathTo dir) = true → Proper d found.visited →
      d.entries.length + 2 ≤ fuel + found.visited.length →
      walk₁ dir found = walk₂ dir found ∧ ∀ found', walk₁ dir found = .ok found' →
        Proper d found'.visited ∧ found.visited.length ≤ found'.visited.length)
    (hlisted : ∀ name ∈ names, ∃ names, d.list (pathTo dir) = .ok names ∧ name ∈ names)
    {found : Found} (hproper : Proper d found.visited)
    (hfuel : d.entries.length + 2 ≤ fuel + found.visited.length) :
    names.foldlM (visit d f root dir walk₁) found = names.foldlM (visit d f root dir walk₂) found := by
  induction names generalizing found with
  | nil => rfl
  | cons name names ih =>
    obtain ⟨hlistedName, hlistedNames⟩ := List.forall_mem_cons.1 hlisted
    rw [List.foldlM_cons, List.foldlM_cons]
    rcases visit_cases f root hlistedName found with ⟨henters, hvisit⟩ | ⟨-, files, -, hvisit⟩
    · obtain ⟨heq, hkeeps⟩ := hwalk _ found henters.directory hproper hfuel
      rw [hvisit walk₁, hvisit walk₂, ← heq]
      cases hresult : walk₁ (dir ++ [name]) found with
      | error e => rfl
      | ok found' =>
        obtain ⟨hproper', hlength⟩ := hkeeps found' hresult
        exact ih hlistedNames hproper' (by omega)
    · rw [hvisit walk₁, hvisit walk₂]
      exact @ih hlistedNames { found with files } hproper hfuel

theorem walk_succ_eq (hdirectory : d.isDirectory (pathTo dir) = true) {found : Found}
    (hproper : Proper d found.visited)
    (hfuel : d.entries.length + 2 ≤ fuel + found.visited.length) :
    walk d f root (fuel + 1) dir found = walk d f root fuel dir found := by
  induction fuel generalizing dir found with
  | zero =>
    have := Disk.length_le_of_nodup hproper.nodup hproper.directory
    omega
  | succ fuel ih =>
    obtain ⟨place, hresolve, hplace⟩ := Disk.isDirectory_iff.1 hdirectory
    have hlist := Disk.list_eq hresolve hplace
    rw [walk, walk, hresolve]
    simp only [hlist]
    split
    · rfl
    · next hvisited =>
      have hproper' : Proper d (place :: found.visited) :=
        hproper.cons (fun h => hvisited (List.contains_iff_mem.2 h)) hplace
      have hfuel' : d.entries.length + 2 ≤ fuel + (place :: found.visited).length := by
        rw [List.length_cons]
        omega
      refine foldlM_visit_eq (fun dir found hdirectory hproper hfuel => ?_)
        (fun name hname => ⟨_, hlist, hname⟩) hproper' hfuel'
      refine ⟨ih hdirectory hproper hfuel, fun found' hfound' => ?_⟩
      have hsettles : Settles d dir (ways d f root dir) found.visited
        (walk d f root (fuel + 1) dir found) := settles_walk hdirectory found hproper (by omega)
      rw [hfound'] at hsettles
      exact hsettles.keeps

end CommentBlocks.Discovery
