import CommentBlocks.Proofs.Disk.Directories
import CommentBlocks.Proofs.Text.Splitting

/-!
A path is followed name by name: what it leads to is what its last names lead to from where the first ones
end. The links on the way to there have been counted, so the last names alone lead there all the more.
-/

namespace CommentBlocks

namespace Disk

variable {d : Disk} {place : Place} {names more : List RawText} {target : Target} {links left : ℕ}

lemma follow_nil (d : Disk) (links : ℕ) (place : Place) :
    d.follow links place [] = .ok (.entry place) := by
  cases links <;> rfl

lemma follow_cons (d : Disk) (links : ℕ) (place : Place) (name : RawText) (rest : List RawText) :
    d.follow links place (name :: rest) =
      if !d.isDirectoryAt place then .error .notDirectory
      else if name = "" ∨ name = "." then d.follow links place rest
      else if name = ".." then d.follow links place.dropLast rest
      else if maxName < name.bytes.length then .error .nameTooLong
      else
        match d.entry? (place ++ [name]), links with
        | none, _ => if rest = [] then .ok (.free (place ++ [name])) else .error .notFound
        | some (.link _), 0 => .error .linkLoop
        | some (.link target), links + 1 =>
          if target = "" then .error .notFound
          else d.follow links (if target.isAbsolute then [] else place) (target.pieces ++ rest)
        | some _, _ => d.follow links (place ++ [name]) rest := by
  cases links <;> rw [follow, followNames] <;> cases d.entry? (place ++ [name]) with
  | none => rfl
  | some e => cases e <;> rfl

inductive Turn (d : Disk) (links : ℕ) (place : Place) (name : RawText) : Prop
  | on (next : Place) (h : ∀ extra rest,
      d.follow (extra + links) place (name :: rest) = d.follow (extra + links) next rest)
  /-- A link puts its names in front of the rest. -/
  | link (left : ℕ) (start : Place) (names : List RawText) (hlt : left < links) (h : ∀ extra rest,
      d.follow (extra + links) place (name :: rest) = d.follow (extra + left) start (names ++ rest))
  /-- Either the name is the last one, and any more links are not needed, or there is no going on. -/
  | stop (h : ∀ rest, (∃ e, d.follow links place (name :: rest) = .error e) ∨
      rest = [] ∧ ∀ extra, d.follow (extra + links) place [name] = d.follow links place [name])

/-- Of a name that is neither empty nor a dot nor too long only what stands at its place counts. -/
lemma follow_name (hplace : d.isDirectoryAt place = true) {name : RawText} (hdot : ¬ (name = "" ∨ name = "."))
    (hup : name ≠ "..") (hlong : ¬ maxName < name.bytes.length) (links : ℕ) (rest : List RawText) :
    d.follow links place (name :: rest) =
      match d.entry? (place ++ [name]), links with
      | none, _ => if rest = [] then .ok (.free (place ++ [name])) else .error .notFound
      | some (.link _), 0 => .error .linkLoop
      | some (.link target), links + 1 =>
        if target = "" then .error .notFound
        else d.follow links (if target.isAbsolute then [] else place) (target.pieces ++ rest)
      | some _, _ => d.follow links (place ++ [name]) rest := by
  rw [follow_cons, hplace, Bool.not_true, if_neg Bool.false_ne_true, if_neg hdot, if_neg hup, if_neg hlong]

lemma turn (d : Disk) (links : ℕ) (place : Place) (name : RawText) : d.Turn links place name := by
  cases hplace : d.isDirectoryAt place with
  | false => exact .stop fun rest => .inl ⟨.notDirectory, by simp [follow_cons, hplace]⟩
  | true =>
  by_cases hdot : name = "" ∨ name = "."
  · exact .on place fun extra rest => by simp [follow_cons, hplace, hdot]
  by_cases hup : name = ".."
  · subst hup
    exact .on place.dropLast fun extra rest => by simp [follow_cons, hplace, hdot]
  by_cases hlong : maxName < name.bytes.length
  · exact .stop fun rest => .inl ⟨.nameTooLong, by simp [follow_cons, hplace, hdot, hup, hlong]⟩
  have hname := follow_name hplace hdot hup hlong
  cases hentry : d.entry? (place ++ [name]) with
  | none =>
    refine .stop fun rest => ?_
    by_cases hrest : rest = []
    · exact .inr ⟨hrest, fun extra => by simp only [hname, hentry]⟩
    · exact .inl ⟨.notFound, by simp only [hname, hentry, if_neg hrest]⟩
  | some e =>
    cases e with
    | file bytes => exact .on (place ++ [name]) fun extra rest => by simp only [hname, hentry]
    | directory => exact .on (place ++ [name]) fun extra rest => by simp only [hname, hentry]
    | link target =>
      cases links with
      | zero => exact .stop fun rest => .inl ⟨.linkLoop, by simp only [hname, hentry]⟩
      | succ links =>
        by_cases hempty : target = ""
        · exact .stop fun rest => .inl ⟨.notFound, by simp only [hname, hentry, if_pos hempty]⟩
        · refine .link links (if target.isAbsolute then [] else place) target.pieces
            (Nat.lt_succ_self links) fun extra rest => ?_
          rw [← Nat.add_assoc]
          simp only [hname, hentry, if_neg hempty]

lemma follow_add (extra : ℕ) (h : d.follow links place names = .ok target) :
    d.follow (extra + links) place names = .ok target := by
  induction links using Nat.strongRecOn generalizing place names with
  | _ links ih =>
  induction names generalizing place with
  | nil =>
    rw [follow_nil] at h ⊢
    exact h
  | cons name rest ihrest =>
    cases d.turn links place name with
    | on next hnext =>
      rw [← Nat.zero_add links, hnext, Nat.zero_add] at h
      rw [hnext]
      exact ihrest h
    | link left start names hlt hlink =>
      rw [← Nat.zero_add links, hlink, Nat.zero_add] at h
      rw [hlink]
      exact ih left hlt h
    | stop hstop =>
      rcases hstop rest with ⟨e, he⟩ | ⟨rfl, hlast⟩
      · rw [he] at h
        cases h
      · exact (hlast extra).trans h

/-- What names lead to is what the last of them lead to from the entry at which the first ones end. -/
lemma exists_follow_append (hmore : more ≠ [])
    (h : d.follow links place (names ++ more) = .ok target) :
    ∃ middle, d.follow links place names = .ok (.entry middle) ∧
      d.follow links middle more = .ok target := by
  induction links using Nat.strongRecOn generalizing place names with
  | _ links ih =>
  induction names generalizing place with
  | nil => exact ⟨place, follow_nil d links place, h⟩
  | cons name rest ihrest =>
    rw [List.cons_append] at h
    cases d.turn links place name with
    | on next hnext =>
      rw [← Nat.zero_add links, hnext, Nat.zero_add] at h
      obtain ⟨middle, hmiddle, htarget⟩ := ihrest h
      refine ⟨middle, ?_, htarget⟩
      rwa [← Nat.zero_add links, hnext, Nat.zero_add]
    | link left start names hlt hlink =>
      rw [← Nat.zero_add links, hlink, Nat.zero_add, ← List.append_assoc] at h
      obtain ⟨middle, hmiddle, htarget⟩ := ih left hlt h
      refine ⟨middle, ?_, ?_⟩
      · rwa [← Nat.zero_add links, hlink, Nat.zero_add]
      -- the links on the way to the last names have not been counted there
      · rw [← Nat.sub_add_cancel (Nat.le_of_lt hlt)]
        exact follow_add _ htarget
    | stop hstop =>
      rcases hstop (rest ++ more) with ⟨e, he⟩ | ⟨hnil, -⟩
      · rw [he] at h
        cases h
      · exact absurd (List.append_eq_nil_iff.1 hnil).2 hmore

/-! ### Paths -/

/-- The entry `name` of the directory at a place is a directory, or a link to one. -/
def holdsDirectory (d : Disk) (place : Place) (name : RawText) : Bool :=
  match d.follow maxLinks place [name] with
  | .ok (.entry inner) => d.isDirectoryAt inner
  | _ => false

lemma follow_of_resolve {path : RawText} (h : d.resolve path = .ok place) :
    d.follow maxLinks (if path.isAbsolute then [] else d.here) path.pieces = .ok (.entry place) := by
  have hlocate : d.locate path = .ok (.entry place) := by
    unfold resolve at h
    split at h
    · cases h
    · next hlocate => exact Except.ok.inj h ▸ hlocate
    · cases h
  unfold locate at hlocate
  split at hlocate
  · cases hlocate
  split at hlocate
  · cases hlocate
  split at hlocate
  · cases hlocate
  · exact hlocate

lemma follow_pathTo (d : Disk) (links : ℕ) (names : List RawText) :
    d.follow links [] (pathTo names).pieces = d.follow links [] (RawText.ofPieces names).pieces := by
  have hpieces : (pathTo names).pieces = ↑"" :: (RawText.ofPieces names).pieces := by
    rw [RawText.pieces, pathTo, Text.splitAt_sep]
    rfl
  have htop : d.isDirectoryAt [] = true := rfl
  simp [hpieces, follow_cons, htop]

lemma pieces_ofPieces_concat {name : RawText} (hname : RawText.slash ∉ name.bytes) (hne : names ≠ []) :
    (RawText.ofPieces (names ++ [name])).pieces = (RawText.ofPieces names).pieces ++ [name] := by
  rw [RawText.ofPieces, List.map_append, List.map_singleton, Text.joinWith_concat (by simpa using hne),
    RawText.pieces, Text.splitAt_append_sep, Text.splitAt_of_not_mem hname, List.map_append]
  rfl

/-- The path that goes on with a name leads to what the name leads to from where the path has come. -/
lemma follow_of_resolve_concat {name : RawText} {inner : Place} (hname : RawText.slash ∉ name.bytes)
    (hfront : d.resolve (pathTo names) = .ok place)
    (h : d.resolve (pathTo (names ++ [name])) = .ok inner) :
    d.follow maxLinks place [name] = .ok (.entry inner) := by
  have habsolute (names : List RawText) : (pathTo names).isAbsolute = true := by
    simp [RawText.isAbsolute, pathTo]
  have hfront := follow_of_resolve hfront
  have h := follow_of_resolve h
  rw [habsolute, if_pos rfl, follow_pathTo] at hfront h
  by_cases hne : names = []
  · subst hne
    have hlast : (RawText.ofPieces []).pieces = [↑""] := rfl
    have hone : (RawText.ofPieces [name]).pieces = [name] := by
      simp [RawText.pieces, RawText.ofPieces, Text.joinWith, Text.splitAt_of_not_mem hname]
    have htop : d.isDirectoryAt [] = true := rfl
    obtain rfl : [] = place := by simpa [hlast, follow_cons, follow_nil, htop] using hfront
    exact hone ▸ h
  · rw [pieces_ofPieces_concat hname hne] at h
    obtain ⟨middle, hmiddle, hinner⟩ := exists_follow_append (List.cons_ne_nil name []) h
    obtain rfl : middle = place := Target.entry.inj (Except.ok.inj (hmiddle.symm.trans hfront))
    exact hinner

lemma holdsDirectory_of_isDirectory {name : RawText} (hname : RawText.slash ∉ name.bytes)
    (hfront : d.resolve (pathTo names) = .ok place)
    (hdirectory : d.isDirectory (pathTo (names ++ [name])) = true) :
    d.holdsDirectory place name = true := by
  obtain ⟨inner, hresolve, hinner⟩ := isDirectory_iff.1 hdirectory
  rw [holdsDirectory, follow_of_resolve_concat hname hfront hresolve]
  exact hinner

end Disk

end CommentBlocks
