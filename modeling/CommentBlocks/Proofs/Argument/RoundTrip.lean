import CommentBlocks.Proofs.Argument.Braces
import CommentBlocks.Proofs.Argument.Commented

/-!
When the options of an argument text come back from the text that is written for them.
-/

namespace CommentBlocks.Options

lemma parse_eq_ok_iff {raw : String} {options : Options} :
    parse raw = .ok options ↔ ofText raw.toList = .ok options := by
  rw [parse]
  cases ofText raw.toList with
  | ok found => simp
  | error fault => simp

lemma reread_eq_iff {f : String × Value} (h : f.2.Storable) :
    reread f = f ↔ Coerce.keepsBraces f.2 = true := by
  constructor
  · intro hsame
    by_contra hloses
    rw [Bool.not_eq_true] at hloses
    obtain ⟨s, hs⟩ := Coerce.exists_value_eq_string hloses
    have hvalue : f.2 = .string s := (congrArg Prod.snd hsame).symm.trans hs
    rw [hvalue] at hloses
    exact absurd hloses (by simp [Coerce.keepsBraces])
  · intro hkeeps
    rw [reread, Coerce.value_valueText h hkeeps]

/-- The options that any argument text sets come back from their own text exactly if the first key does
not start with a hash, brackets and quotes do not nest too deep once every string and key is in quotes,
and each option that is an object keeps its braces. -/
theorem parse_print_iff {raw : String} {options : Options} (h : parse raw = .ok options) :
    parse (print options) = .ok options ↔
      StartsPlain options ∧ (∀ f ∈ options, f.2.nesting ≤ maxNesting) ∧
        ∀ f ∈ options, Coerce.keepsBraces f.2 = true := by
  have hreadable := readable_of_ofText (parse_eq_ok_iff.1 h)
  rw [parse_eq_ok_iff, print, String.toList_ofList]
  by_cases hstart : StartsPlain options
  · rw [ofText_toText hreadable.sorted hreadable.keys hstart]
    by_cases hnesting : ∀ f ∈ options, f.2.nesting ≤ maxNesting
    · rw [if_pos hnesting, Except.ok.injEq]
      have hsame : options.map reread = options ↔ ∀ f ∈ options, reread f = f := by
        conv_lhs => rhs; rw [← List.map_id options]
        exact List.map_inj_left
      rw [hsame]
      refine ⟨fun hall => ⟨hstart, hnesting, fun f hf => ?_⟩, fun hall f hf => ?_⟩
      · exact (reread_eq_iff (hreadable.values f hf)).1 (hall f hf)
      · exact (reread_eq_iff (hreadable.values f hf)).2 (hall.2.2 f hf)
    · rw [if_neg hnesting]
      exact iff_of_false (by simp) fun hall => hnesting hall.2.1
  · exact iff_of_false (ofText_toText_ne hstart) fun hall => hstart hall.1

/-- A key in quotes, one that starts with a hash behind it, and an object. -/
theorem parse_print_iff_three_keys :
    let raw := "b=\x7bk: 'x\"y', l: [[1], z]\x7d /* note */ \"c d\" = e, #f"
    let options : Options := [("\"c d\"", .string "e"), ("#f", .bool true),
      ("b", .object [("k", .string "x\"y"), ("l", .array [.array [.int 1], .string "z"])])]
    parse raw = .ok options ∧
      print options = "\"c d\"=\"e\" #f=true b=\x7b\"k\":\"x\\\"y\",\"l\":[[1],\"z\"]\x7d" ∧
      (parse (print options) = .ok options ↔
        StartsPlain options ∧ (∀ f ∈ options, f.2.nesting ≤ maxNesting) ∧
          ∀ f ∈ options, Coerce.keepsBraces f.2 = true) ∧
      parse (print options) = .ok options := by
  intro raw options
  have hparse : parse raw = .ok options := by decide +kernel
  have hstart : StartsPlain options := by
    intro f hf
    obtain rfl : ("\"c d\"", Value.string "e") = f := by simpa [options] using hf
    decide
  have hiff := parse_print_iff hparse
  exact ⟨hparse, by decide +kernel, hiff, hiff.2 ⟨hstart, by decide, by decide +kernel⟩⟩

/-- A hash that does not start a line is part of a key, which comes first among the options; the text
of these is a comment. -/
theorem parse_print_of_hash :
    parse "a #x" = .ok [("#x", .bool true), ("a", .bool true)] ∧
      print [("#x", .bool true), ("a", .bool true)] = "#x=true a=true" ∧
      parse (print [("#x", .bool true), ("a", .bool true)]) = .ok [] ∧
      ¬ ∀ raw options, parse raw = .ok options → parse (print options) = .ok options := by
  have hparse : parse "a #x" = .ok [("#x", .bool true), ("a", .bool true)] := by decide +kernel
  have hagain : parse (print [("#x", .bool true), ("a", .bool true)]) = .ok [] := by decide +kernel
  refine ⟨hparse, by decide +kernel, hagain, fun hall => ?_⟩
  have hsame := (hall _ _ hparse).symm.trans hagain
  simp at hsame

end CommentBlocks.Options
