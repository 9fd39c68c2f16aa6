import CommentBlocks.Text.Raw
import Mathlib.Data.List.Lex
import Mathlib.Data.String.Basic
import Mathlib.Tactic.Lemma

/-!
The bytes of a text. A raw text that is a text has its bytes, and raw texts are linearly ordered by bytes.
-/

namespace CommentBlocks

namespace Text

/-- The bytes of a text in UTF-8. -/
def octets (text : String) : List UInt8 := text.toUTF8.data.toList

lemma octets_eq (text : String) : octets text = text.toList.flatMap String.utf8EncodeChar := by
  conv_lhs => rw [octets, String.toUTF8_eq_toByteArray, ← String.ofList_toList (s := text)]
  rw [String.toByteArray_ofList, List.utf8Encode, List.data_toByteArray]

/-- A character is one byte with its code, or several that are not ASCII. -/
lemma utf8EncodeChar_cases (c : Char) :
    c.val.toNat ≤ 127 ∧ String.utf8EncodeChar c = [UInt8.ofNat c.val.toNat] ∨
      ∀ b ∈ String.utf8EncodeChar c, 128 ≤ b.toNat := by
  have hbyte : ∀ n, 128 ≤ n → n < 256 → 128 ≤ (UInt8.ofNat n).toNat := fun n hlow hhigh => by
    rwa [UInt8.toNat_ofNat_of_lt' hhigh]
  simp only [String.utf8EncodeChar]
  split
  · next h => exact .inl ⟨h, rfl⟩
  · right
    split
    · simp only [List.forall_mem_cons, List.not_mem_nil]
      exact ⟨hbyte _ (by omega) (by omega), hbyte _ (by omega) (by omega), by simp⟩
    · split
      · simp only [List.forall_mem_cons, List.not_mem_nil]
        exact ⟨hbyte _ (by omega) (by omega), hbyte _ (by omega) (by omega),
          hbyte _ (by omega) (by omega), by simp⟩
      · simp only [List.forall_mem_cons, List.not_mem_nil]
        exact ⟨hbyte _ (by omega) (by omega), hbyte _ (by omega) (by omega),
          hbyte _ (by omega) (by omega), hbyte _ (by omega) (by omega), by simp⟩

lemma ascii_not_mem {a c : Char} (ha : a.val.toNat ≤ 127) (h : c ≠ a) :
    UInt8.ofNat a.val.toNat ∉ String.utf8EncodeChar c := by
  have hcode : a.val.toNat ≠ c.val.toNat := fun hc => h (Char.ext (UInt32.toNat_inj.1 hc.symm))
  have htoNat {n : ℕ} (hn : n ≤ 127) : (UInt8.ofNat n).toNat = n :=
    UInt8.toNat_ofNat_of_lt' (Nat.lt_of_le_of_lt hn (by decide))
  rcases utf8EncodeChar_cases c with ⟨hlow, heq⟩ | hhigh
  · rwa [heq, List.mem_singleton, ← UInt8.toNat_inj, htoNat ha, htoNat hlow]
  · intro hmem
    have := hhigh _ hmem
    rw [htoNat ha] at this
    omega

lemma head?_octets_eq_dot_iff {text : String} :
    (octets text).head? = some RawText.dot ↔ text.toList.head? = some '.' := by
  rw [octets_eq]
  cases text.toList with
  | nil => simp
  | cons c cs =>
    obtain ⟨b, bs, hbytes⟩ : ∃ b bs, String.utf8EncodeChar c = b :: bs := List.exists_cons_of_length_pos <| by
      rw [String.length_utf8EncodeChar]
      exact c.utf8Size_pos
    rw [List.flatMap_cons, hbytes, List.cons_append, List.head?_cons, List.head?_cons]
    by_cases hc : c = '.'
    · subst hc
      obtain ⟨rfl, -⟩ := List.cons.inj hbytes
      simp [RawText.dot]
    · have hne : b ≠ RawText.dot := fun heq =>
        ascii_not_mem (by decide) hc (hbytes ▸ heq ▸ List.mem_cons_self)
      simp [hc, hne]

end Text

namespace RawText

variable {r : RawText} {text : String}

lemma bytes_injective : Function.Injective bytes := fun r s h => by
  cases r
  cases s
  cases h
  rfl

lemma text?_ofText (text : String) : (ofText text).text? = some text := dif_pos text.isValidUTF8

lemma ofText_injective : Function.Injective ofText := fun text text' h => by
  simpa [text?_ofText] using congrArg text? h

lemma eq_ofText (h : r.text? = some text) : r = ofText text := by
  unfold text? String.fromUTF8? at h
  split at h
  · cases h
    rfl
  · cases h

/-! ### Order -/

/-- Bytes are ordered as the numbers that they are. -/
abbrev linearOrderByte : LinearOrder UInt8 where
  le_refl := UInt8.le_refl
  le_trans _ _ _ := UInt8.le_trans
  le_antisymm _ _ := UInt8.le_antisymm
  le_total := UInt8.le_total
  lt_iff_le_not_ge a b := by
    rw [UInt8.not_le]
    exact ⟨fun h => ⟨UInt8.le_of_lt h, h⟩, And.right⟩
  toDecidableLE := inferInstance
  toDecidableLT := inferInstance
  toDecidableEq := inferInstance

attribute [local instance] linearOrderByte

instance : LinearOrder RawText where
  le r s := r.bytes ≤ s.bytes
  lt r s := r < s
  le_refl r := le_refl r.bytes
  le_trans _ _ _ h := le_trans h
  le_antisymm _ _ h h' := bytes_injective (le_antisymm h h')
  le_total r s := le_total r.bytes s.bytes
  lt_iff_le_not_ge r s := lt_iff_le_not_ge (a := r.bytes) (b := s.bytes)
  toDecidableLE r s := inferInstanceAs (Decidable (r.bytes ≤ s.bytes))

end RawText

end CommentBlocks
