/-
This file compares texts by the bytes that encode them. Their order is that of the characters.
-/
import Mathlib.Data.String.Basic

namespace StorageSchema.Text

/-- These are the bytes of a text in its encoding. -/
def bytes (text : String) : List UInt8 := text.toByteArray.data.toList

theorem bytes_eq (text : String) : bytes text = text.toList.flatMap String.utf8EncodeChar := by
  rw [bytes, ← String.utf8Encode_toList]
  exact List.toList_data_toByteArray

theorem byte_cons_lt_iff {first second : Nat} (firstFits : first < 256) (secondFits : second < 256)
    (firstRest secondRest : List UInt8) :
    UInt8.ofNat first :: firstRest < UInt8.ofNat second :: secondRest ↔
      first < second ∨ first = second ∧ firstRest < secondRest := by
  rw [List.cons_lt_cons_iff, UInt8.lt_iff_toNat_lt, ← UInt8.toNat_inj, UInt8.toNat_ofNat',
    UInt8.toNat_ofNat', Nat.mod_eq_of_lt firstFits, Nat.mod_eq_of_lt secondFits]

/-- Numbers are compared by the leading bits first and then six bits at a time. -/
theorem sextets_lt {first second : Nat} (less : first < second) :
    first / 262144 < second / 262144 ∨ first / 262144 = second / 262144 ∧
      (first / 4096 % 64 < second / 4096 % 64 ∨ first / 4096 % 64 = second / 4096 % 64 ∧
        (first / 64 % 64 < second / 64 % 64 ∨ first / 64 % 64 = second / 64 % 64 ∧
          first % 64 < second % 64)) := by
  rcases Nat.lt_or_ge (first / 64) (second / 64) with apart | together
  · rcases Nat.lt_or_ge (first / 4096) (second / 4096) with apart | together <;> omega
  · omega

/-- A smaller character has smaller bytes, and it does not matter what comes after them. -/
theorem utf8EncodeChar_append_lt {first second : Char} (less : first < second)
    (firstRest secondRest : List UInt8) :
    String.utf8EncodeChar first ++ firstRest < String.utf8EncodeChar second ++ secondRest := by
  have numbers : first.val.toNat < second.val.toNat := less
  have bounded : second.val.toNat < 1114112 := by
    rcases second.valid with low | high <;> omega
  have sextets := sextets_lt numbers
  have firstLead : first.val.toNat / 262144 % 8 = first.val.toNat / 262144 :=
    Nat.mod_eq_of_lt (by omega)
  have secondLead : second.val.toNat / 262144 % 8 = second.val.toNat / 262144 :=
    Nat.mod_eq_of_lt (by omega)
  simp only [String.utf8EncodeChar, firstLead, secondLead]
  -- A longer encoding has a greater first byte, and equal lengths leave the bits to compare.
  split_ifs <;>
    simp (disch := omega) only [List.cons_append, List.nil_append, byte_cons_lt_iff] <;>
    omega

theorem utf8EncodeChars_lt {first second : List Char} (less : first < second) :
    first.flatMap String.utf8EncodeChar < second.flatMap String.utf8EncodeChar := by
  induction first generalizing second with
  | nil =>
      cases second with
      | nil => exact absurd less (List.lt_irrefl [])
      | cons other others =>
          have encoded : String.utf8EncodeChar other ≠ [] := String.utf8EncodeChar_ne_nil
          obtain ⟨byte, rest, shape⟩ := List.exists_cons_of_ne_nil encoded
          simp [shape]
  | cons letter letters inductionHypothesis =>
      cases second with
      | nil => exact absurd less (List.not_lt_nil _)
      | cons other others =>
          rw [List.flatMap_cons, List.flatMap_cons]
          rcases List.cons_lt_cons_iff.mp less with smaller | ⟨same, smaller⟩
          · exact utf8EncodeChar_append_lt smaller _ _
          · rw [same]
            exact List.append_left_lt (inductionHypothesis smaller)

theorem bytes_lt {first second : String} (less : first < second) : bytes first < bytes second := by
  rw [bytes_eq, bytes_eq]
  exact utf8EncodeChars_lt (String.lt_iff_toList_lt.mp less)

/-- The encoding keeps the order of texts. -/
theorem bytes_lt_iff (first second : String) : bytes first < bytes second ↔ first < second := by
  refine ⟨fun less => ?_, bytes_lt⟩
  rcases lt_trichotomy first second with smaller | same | greater
  · exact smaller
  · subst same
    exact absurd less (List.lt_irrefl _)
  · exact absurd (bytes_lt greater) (List.lt_asymm less)

end StorageSchema.Text
