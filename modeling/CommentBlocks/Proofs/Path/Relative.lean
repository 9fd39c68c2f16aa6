import CommentBlocks.Proofs.Path.Components
import Mathlib.Data.List.Infix

/-!
A path as seen from a directory above it, and the names in a path.

Cutting the components of the directory off the text of a path leaves a relative path with the other
components, so joining it to another directory puts these behind the components of that one.
-/

namespace CommentBlocks

open Text (splitAt joinWith)

namespace Path

/-! ### Names -/

lemma ofPiece?_eq_normal_iff {atStart : Bool} {piece : List Char} {name : String} :
    Component.ofPiece? atStart piece = some (.normal name) ↔
      piece = name.toList ∧ Component.ofPiece? false name.toList = some (.normal name) := by
  have hplain (h : Component.ofPiece? atStart piece = some (.normal name)) :
      Component.ofPiece? false piece = some (.normal name) ∧ piece = name.toList := by
    unfold Component.ofPiece? at h ⊢
    split at h
    · simp at h
    · split at h <;> simp at h
    · simp at h
    · obtain rfl : String.ofList piece = name := by simpa using h
      simp_all
  constructor
  · intro h
    obtain ⟨hfalse, hpiece⟩ := hplain h
    exact ⟨hpiece, hpiece ▸ hfalse⟩
  · rintro ⟨rfl, h⟩
    unfold Component.ofPiece? at h ⊢
    split at h <;> simp_all

lemma normal_mem_spansFrom_iff (place : Nat) {ps : List (List Char)} {name : String} :
    .normal name ∈ (spansFrom place ps).map Span.component ↔
      name.toList ∈ ps ∧ Component.ofPiece? false name.toList = some (.normal name) := by
  induction ps generalizing place with
  | nil => simp [spansFrom]
  | cons p ps ih =>
    have hfirst : .normal name ∈ (((Component.ofPiece? (place == 0) p).map fun c =>
        Span.mk c place (place + p.length)).toList).map Span.component ↔
        Component.ofPiece? (place == 0) p = some (.normal name) := by
      cases Component.ofPiece? (place == 0) p <;> simp [eq_comm]
    rw [spansFrom_cons, List.map_append, List.mem_append, hfirst, ih, ofPiece?_eq_normal_iff,
      List.mem_cons, or_and_right, eq_comm (a := p)]

/-- The names in a path are the pieces between its slashes that are no dots. -/
lemma normal_mem_components_iff {p : Path} {name : String} : .normal name ∈ p.components ↔
    name.toList ∈ splitAt '/' p.text.toList ∧
      Component.ofPiece? false name.toList = some (.normal name) := by
  rw [components, ← normal_mem_spansFrom_iff 0]
  unfold spans
  split
  · simp
  · rfl

/-- A character that is neither a slash nor a dot stands in a path where it stands in a name of it. -/
lemma mem_text_iff {p : Path} {c : Char} (hslash : c ≠ '/') (hdot : c ≠ '.') :
    c ∈ p.text.toList ↔ ∃ name, .normal name ∈ p.components ∧ c ∈ name.toList := by
  have hpieces : c ∈ p.text.toList ↔ ∃ piece ∈ splitAt '/' p.text.toList, c ∈ piece := by
    have hword : [c] <:+: joinWith ['/'] (splitAt '/' p.text.toList) ↔ _ :=
      Text.infix_joinWith_iff (by simpa using hslash.symm) (List.cons_ne_nil c [])
    simpa only [Text.joinWith_splitAt, List.singleton_infix_iff] using hword
  rw [hpieces]
  constructor
  · rintro ⟨piece, hpiece, hc⟩
    have hname : Component.ofPiece? false piece = some (.normal (String.ofList piece)) := by
      unfold Component.ofPiece?
      split <;> simp_all
    exact ⟨String.ofList piece, normal_mem_components_iff.2 (by simpa using ⟨hpiece, hname⟩),
      by simpa using hc⟩
  · rintro ⟨name, hname, hc⟩
    exact ⟨name.toList, (normal_mem_components_iff.1 hname).1, hc⟩

lemma root_not_mem_spansFrom (place : Nat) (ps : List (List Char)) :
    .root ∉ (spansFrom place ps).map Span.component := by
  induction ps generalizing place with
  | nil => simp [spansFrom]
  | cons p ps ih =>
    have hfirst : Component.ofPiece? (place == 0) p ≠ some .root := by
      unfold Component.ofPiece?
      split <;> simp
    rw [spansFrom_cons, List.map_append, List.mem_append, not_or]
    refine ⟨?_, ih _⟩
    cases hpiece : Component.ofPiece? (place == 0) p with
    | none => simp
    | some c => simpa [hpiece, eq_comm] using hfirst

lemma isAbsolute_iff {p : Path} : p.isAbsolute = true ↔ p.components.head? = some .root := by
  rw [isAbsolute, beq_iff_eq]
  constructor
  · intro h
    obtain ⟨rest, hrest⟩ := List.head?_eq_some_iff.1 h
    rw [components, hrest, map_spans_slash]
    rfl
  · intro h
    by_contra hne
    have hmem := List.mem_of_mem_head? h
    rw [components, spans_of_relative hne] at hmem
    exact root_not_mem_spansFrom _ _ hmem

/-! ### The text from a component on -/

end Path

end CommentBlocks
