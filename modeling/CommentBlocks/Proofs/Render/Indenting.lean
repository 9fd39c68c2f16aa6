import CommentBlocks.Proofs.Tag.Marks
import CommentBlocks.Proofs.Text.Splitting
import CommentBlocks.Render.Layout
import Mathlib.Data.List.Forall2
import Mathlib.Data.List.Infix

/-!
Indenting a text keeps what it ends with and drops nothing, and does nothing to a text without line
breaks that does not start its line.
-/

namespace CommentBlocks

namespace Text

variable {sep : Char}

/-- A change to the pieces that keeps their last characters keeps the last character of the whole. -/
lemma getLast?_joinWith_map {f : List Char → List Char} (hf : ∀ p, (f p).getLast? = p.getLast?)
    (ps : List (List Char)) :
    (joinWith [sep] (ps.map f)).getLast? = (joinWith [sep] ps).getLast? := by
  induction ps with
  | nil => rfl
  | cons p ps ih =>
    by_cases h : ps = []
    · subst h
      exact hf p
    · have h' : ps.map f ≠ [] := by simpa using h
      rw [List.map_cons, joinWith_cons h, joinWith_cons h', List.getLast?_append,
        List.getLast?_append, List.getLast?_cons, List.getLast?_cons, ih]
      simp

lemma sublist_joinWith {ps qs : List (List Char)} (h : List.Forall₂ List.Sublist ps qs) :
    (joinWith [sep] ps).Sublist (joinWith [sep] qs) := by
  induction h with
  | nil => exact .slnil
  | @cons p q ps qs hp hps ih =>
    cases hps with
    | nil => exact hp
    | cons _ _ =>
      rw [joinWith_cons (List.cons_ne_nil _ _), joinWith_cons (List.cons_ne_nil _ _)]
      exact hp.append (ih.cons_cons sep)

end Text

namespace Layout

open Text (splitAt joinWith trim)

lemma getLast?_indentLine (indentation line : List Char) :
    (indentLine indentation line).getLast? = line.getLast? := by
  unfold indentLine
  split
  · rfl
  · next h =>
    have hne : line ≠ [] := by
      rintro rfl
      exact h (by decide)
    exact List.getLast?_append_of_ne_nil _ hne

lemma sublist_indentLine (indentation line : List Char) :
    line.Sublist (indentLine indentation line) := by
  unfold indentLine
  split
  · exact .refl _
  · exact List.sublist_append_right _ _

lemma sublist_indent (indentation content : List Char) :
    content.Sublist (indent indentation content false) := by
  unfold indent
  split
  · exact .refl _
  · obtain ⟨first, others, hsplit⟩ := List.exists_cons_of_ne_nil (Text.splitAt_ne_nil '\n' content)
    conv_lhs => rw [← Text.joinWith_splitAt '\n' content, hsplit]
    rw [hsplit]
    refine Text.sublist_joinWith (.cons (.refl _) (List.forall₂_map_right_iff.2 ?_))
    exact List.forall₂_same.2 fun line _ => sublist_indentLine indentation line

/-- At a line start, the first line is indented too. -/
lemma indent_sublist_indent (indentation content : List Char) :
    (indent indentation content false).Sublist (indent indentation content true) := by
  unfold indent
  split
  · exact .refl _
  · obtain ⟨first, others, hsplit⟩ := List.exists_cons_of_ne_nil (Text.splitAt_ne_nil '\n' content)
    rw [hsplit]
    exact Text.sublist_joinWith (.cons (sublist_indentLine indentation first)
      (List.forall₂_same.2 fun _ _ => .refl _))

lemma getLast?_indent (indentation content : List Char) :
    (indent indentation content true).getLast? = content.getLast? := by
  unfold indent
  split
  · rfl
  · obtain ⟨first, others, hsplit⟩ := List.exists_cons_of_ne_nil (Text.splitAt_ne_nil '\n' content)
    rw [hsplit]
    simp only [if_true]
    rw [← List.map_cons (f := indentLine indentation),
      Text.getLast?_joinWith_map (getLast?_indentLine indentation), ← hsplit,
      Text.joinWith_splitAt]

lemma indent_eq_nil_iff (indentation content : List Char) :
    indent indentation content true = [] ↔ content = [] := by
  rw [← List.getLast?_eq_none_iff, getLast?_indent, List.getLast?_eq_none_iff]

lemma indent_inline {content : List Char} (indentation : List Char) (h : '\n' ∉ content) :
    indent indentation content false = content := by
  unfold indent
  split
  · rfl
  · rw [Text.splitAt_of_not_mem h]
    rfl

end Layout

end CommentBlocks
