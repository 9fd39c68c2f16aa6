import CommentBlocks.Proofs.Argument.Balance
import CommentBlocks.Proofs.Argument.Enclosing

/-!
Redundant brackets around the text of an argument are transparent: of doubled brackets the outer ones come
off, and any number of braces come off a balanced text that does not start like a field.
-/

namespace CommentBlocks.Coerce

open Text (trim)
open Unicode (isBlank)
open Relaxed (Blanks)

/-- Only what is left of the text without white space and a comma at its ends counts. -/
lemma value_congr {a b : List Char} (h : tidy a = tidy b) : value a = value b := by
  rw [value, h, ← value]

lemma value_trim (raw : List Char) : value (trim raw) = value raw :=
  value_congr (by simp only [tidy, Text.trim_trim])

def enclosed (k : BracketKind) (n : Nat) (x : List Char) : List Char :=
  List.replicate n k.opening ++ x ++ List.replicate n k.closing

variable {k : BracketKind} {x : List Char}

@[simp] lemma enclosed_zero (k : BracketKind) (x : List Char) : enclosed k 0 x = x := by
  simp [enclosed]

lemma enclosed_one (k : BracketKind) (x : List Char) :
    enclosed k 1 x = k.opening :: (x ++ [k.closing]) := by
  simp [enclosed]

lemma enclosed_succ (k : BracketKind) (n : Nat) (x : List Char) :
    enclosed k (n + 1) x = k.opening :: (enclosed k n x ++ [k.closing]) := by
  have hback : List.replicate (n + 1) k.closing = List.replicate n k.closing ++ [k.closing] :=
    List.replicate_succ'
  rw [enclosed, hback, List.replicate_succ, enclosed]
  simp

lemma enclosed_enclosed (k : BracketKind) (m n : Nat) (x : List Char) :
    enclosed k m (enclosed k n x) = enclosed k (m + n) x := by
  induction m with
  | zero => rw [enclosed_zero, Nat.zero_add]
  | succ m ih => rw [enclosed_succ, ih, ← enclosed_succ, Nat.succ_add]

lemma paired_enclosed (h : Bracket.Paired x) (k : BracketKind) (n : Nat) : Bracket.Paired (enclosed k n x) := by
  induction n with
  | zero => rwa [enclosed_zero]
  | succ n ih =>
    rw [enclosed_succ]
    exact ih.enclose k

/-- What is in square brackets or braces is read as it stands, and neither as a keyword nor as a
number. -/
lemma plain_of_enclosed (hk : k = .curly ∨ k = .square) (n : Nat) (x : List Char) :
    tidy (enclosed k (n + 1) x) = enclosed k (n + 1) x ∧
      keyword? (enclosed k (n + 1) x) = none ∧ Numeral.value? (enclosed k (n + 1) x) = none := by
  have hopens : opens k.opening = true := by rcases hk with rfl | rfl <;> rfl
  rw [enclosed_succ]
  have hlast : (k.opening :: (enclosed k n x ++ [k.closing])).getLast? = some k.closing := by
    rw [← List.cons_append, List.getLast?_concat]
  have htrim : trim (k.opening :: (enclosed k n x ++ [k.closing])) =
      k.opening :: (enclosed k n x ++ [k.closing]) := by
    refine Text.trim_eq_self (fun c hc => ?_) fun c hc => ?_
    · obtain rfl : k.opening = c := by simpa using hc
      cases k <;> decide
    · obtain rfl : k.closing = c := Option.some.inj (hlast.symm.trans hc)
      cases k <;> decide
  refine ⟨tidy_of_last htrim ?_, keyword?_of_opens hopens _, number?_of_opens hopens htrim⟩
  rw [hlast]
  cases k <;> decide

lemma unwrapDouble?_of_close? (hk : k = .curly ∨ k = .square)
    (houter : Bracket.close? (enclosed k 2 x) = some (x.length + 3))
    (hinner : Bracket.close? (k.opening :: (x ++ [k.closing, k.closing])) = some (x.length + 1)) :
    unwrapDouble? (enclosed k 2 x) = some (enclosed k 1 x) := by
  have htail : (enclosed k 2 x).drop 1 = k.opening :: (x ++ [k.closing, k.closing]) := by
    simp [enclosed_succ]
  rw [← htail] at hinner
  have hlength : (enclosed k 2 x).length = x.length + 4 := by simp [enclosed_succ]
  have hcount : 4 ≤ (enclosed k 2 x).length ∧ x.length + 3 = (enclosed k 2 x).length - 1 ∧
      x.length + 1 = (enclosed k 2 x).length - 3 := by omega
  rw [hcount.2.1] at houter
  rw [hcount.2.2] at hinner
  have hfront : Text.after? [k.opening, k.opening] (enclosed k 2 x) =
      some (x ++ [k.closing, k.closing]) := Text.after?_eq_some_iff.2 (by simp [enclosed_succ])
  have hback : Text.before? [k.closing, k.closing] (enclosed k 2 x) =
      some (k.opening :: k.opening :: x) := Text.before?_eq_some_iff.2 (by simp [enclosed_succ])
  have hbody : inner (enclosed k 2 x) = enclosed k 1 x := by
    rw [enclosed_succ k 1, ← List.cons_append, inner_enclosed]
  simp only [unwrapDouble?, houter, hinner, hbody]
  rcases hk with rfl | rfl <;> simp [hfront, hback, hcount.1]

lemma unwrapDouble?_enclosed (h : Bracket.Paired x) (hk : k = .curly ∨ k = .square) :
    unwrapDouble? (enclosed k 2 x) = some (enclosed k 1 x) := by
  have houter := Bracket.close?_enclosed (paired_enclosed h k 1) k []
  have hlength : (enclosed k 1 x).length + 1 = x.length + 3 := by simp [enclosed_succ]
  rw [← enclosed_succ, hlength] at houter
  exact unwrapDouble?_of_close? hk houter (Bracket.close?_enclosed h k [k.closing])

lemma value_doubled (h : Bracket.Paired x) (hk : k = .curly ∨ k = .square) :
    value (enclosed k 2 x) = value (enclosed k 1 x) := by
  obtain ⟨htidy, hkeyword, hnumber⟩ := plain_of_enclosed hk 1 x
  exact value_of_double (by rwa [htidy]) (by rwa [htidy])
    (by rw [htidy, unwrapDouble?_enclosed h hk])

lemma value_braces (h : Bracket.Paired x) (hblanks : ¬ Blanks x)
    (hkey : hasKeyShape (trim x) = false) : value (enclosed .curly 1 x) = value x := by
  obtain ⟨htidy, hkeyword, hnumber⟩ := plain_of_enclosed (.inl rfl) 0 x
  cases hd : unwrapDouble? (enclosed .curly 1 x) with
  | some r =>
    obtain ⟨rfl, -, -⟩ := eq_of_unwrapDouble? hd
    rw [value_of_double (by rwa [htidy]) (by rwa [htidy]) (by rwa [htidy]), enclosed_one,
      ← List.cons_append, inner_enclosed]
  | none =>
    have hb : unwrapBraces? (enclosed .curly 1 x) = some (trim x) := by
      rw [enclosed_one, BracketKind.opening, BracketKind.closing, unwrapBraces?_enclosed h hblanks, hkey]
      rfl
    rw [value_of_braces (by rwa [htidy]) (by rwa [htidy]) (by rwa [htidy]) (by rwa [htidy]), value_trim]

/-- Any number of braces come off a balanced text that leaves no quote open, is not blank and does not
start like a field; and of doubled brackets the outer ones come off whatever they enclose. -/
theorem value_enclosed (hbalanced : Bracket.balanced x = true)
    (hquote : Bracket.quoteAfter .outside x = .outside) :
    (¬ Blanks x → hasKeyShape (trim x) = false → ∀ n, value (enclosed .curly n x) = value x) ∧
      value (enclosed .curly 2 x) = value (enclosed .curly 1 x) ∧
      value (enclosed .square 2 x) = value (enclosed .square 1 x) := by
  have hpaired := Bracket.paired_of_balanced hbalanced hquote
  refine ⟨fun hblanks hkey n => ?_, value_doubled hpaired (.inl rfl), value_doubled hpaired (.inr rfl)⟩
  -- from the second pair on the outer one comes off, since it stands right around another
  induction n with
  | zero => rw [enclosed_zero]
  | succ n ih =>
    cases n with
    | zero => exact value_braces hpaired hblanks hkey
    | succ n =>
      have hdouble := value_doubled (paired_enclosed hpaired .curly n) (.inl rfl)
      rw [enclosed_enclosed, enclosed_enclosed, Nat.add_comm 2, Nat.add_comm 1] at hdouble
      rw [hdouble, ih]

/-- Three pairs of braces around a list with a brace between quotes in it. -/
theorem value_enclosed_list :
    let x := " [\x7ba: '\x7d'\x7d, b], ".toList
    Bracket.balanced x = true ∧ Bracket.quoteAfter .outside x = .outside ∧ ¬ Blanks x ∧
      hasKeyShape (trim x) = false ∧ value (enclosed .curly 3 x) = value x ∧
      value x = .array [.object [("a", .string "\x7d")], .string "b"] ∧
      value (enclosed .square 2 x) = value (enclosed .square 1 x) := by
  intro x
  have hbalanced : Bracket.balanced x = true := by decide
  have hquote : Bracket.quoteAfter .outside x = .outside := by decide
  have hblanks : ¬ Blanks x := fun h => absurd (h 'a' (by decide)) (by decide)
  have hkey : hasKeyShape (trim x) = false := by decide
  have hvalue : value x = .array [.object [("a", .string "\x7d")], .string "b"] := by decide +kernel
  have hall := value_enclosed hbalanced hquote
  exact ⟨hbalanced, hquote, hblanks, hkey, hall.1 hblanks hkey 3, hvalue, hall.2.2⟩

end CommentBlocks.Coerce
