/-
Letter case.

Only the letters of ASCII have a case.  A text is a word in some case if it has, letter by
letter, the letter of the word or its capital (`IsCaseOf`), and that is what comparing without
regard to case asks of it (`sameIgnoringCase_iff`).
-/
import Mathlib.Data.List.Forall2
import ModuleBoundary.Text.Basic

namespace ModuleBoundary
namespace Text

theorem toNat_toLower (c : Char) :
    c.toLower.toNat = if 65 ≤ c.toNat ∧ c.toNat ≤ 90 then c.toNat + 32 else c.toNat := by
  have hupper : (c.val ≥ 'A'.val ∧ c.val ≤ 'Z'.val) ↔ 65 ≤ c.toNat ∧ c.toNat ≤ 90 := Iff.rfl
  unfold Char.toLower
  by_cases h : 65 ≤ c.toNat ∧ c.toNat ≤ 90
  · have hbound : c.val.toNat ≤ 90 := h.2
    rw [dif_pos (hupper.mpr h), if_pos h]
    show (c.val.toNat + 32) % 4294967296 = c.val.toNat + 32
    omega
  · rw [dif_neg (fun h' => h (hupper.mp h')), if_neg h]

/-- A blank is no letter. -/
theorem toNat_of_isBlank {c : Char} (h : isBlank c = true) : c.toNat < 65 ∨ 127 < c.toNat := by
  simp only [isBlank, Bool.or_eq_true, Bool.and_eq_true, decide_eq_true_eq, beq_iff_eq] at h
  omega

theorem isLower_iff {c : Char} : c.isLower = true ↔ 97 ≤ c.toNat ∧ c.toNat ≤ 122 := by
  show (decide (c.val ≥ 'a'.val) && decide (c.val ≤ 'z'.val)) = true ↔ _
  rw [Bool.and_eq_true, decide_eq_true_eq, decide_eq_true_eq]
  exact Iff.rfl

theorem toNat_toUpper {letter : Char} (h : letter.isLower = true) :
    letter.toUpper.toNat + 32 = letter.toNat := by
  have hsmall : letter.val ≥ 'a'.val ∧ letter.val ≤ 'z'.val := isLower_iff.mp h
  have hbound : 97 ≤ letter.val.toNat ∧ letter.val.toNat ≤ 122 := isLower_iff.mp h
  unfold Char.toUpper
  rw [dif_pos hsmall]
  show (letter.val + ('A'.val - 'a'.val)).toNat + 32 = letter.val.toNat
  -- The capitals lie 32 below, so the difference that is added has wrapped around.
  rw [UInt32.toNat_add]
  show (letter.val.toNat + 4294967264) % 4294967296 + 32 = letter.val.toNat
  omega

theorem toLower_eq_iff {letter c : Char} (h : letter.isLower = true) :
    c.toLower = letter ↔ c = letter ∨ c = letter.toUpper := by
  have hlower := toNat_toLower c
  have hupper := toNat_toUpper h
  obtain ⟨hge, hle⟩ := isLower_iff.mp h
  rw [← Char.toNat_inj, ← Char.toNat_inj, ← Char.toNat_inj, hlower]
  split <;> omega

theorem eq_of_toLower_eq_space {c : Char} (h : c.toLower = ' ') : c = ' ' := by
  have hnat := toNat_toLower c
  rw [h] at hnat
  rw [← Char.toNat_inj]
  show c.toNat = 32
  change 32 = _ at hnat
  split at hnat <;> omega

def IsCaseOf (word s : Text) : Prop :=
  List.Forall₂ (fun c letter => c = letter ∨ c = letter.toUpper) s word

theorem sameIgnoringCase_iff {word s : Text} (h : word.all Char.isLower = true) :
    sameIgnoringCase s word = true ↔ IsCaseOf word s := by
  rw [sameIgnoringCase, beq_iff_eq, IsCaseOf]
  induction word generalizing s with
  | nil => rw [List.forall₂_nil_right_iff, lower, lower, List.map_nil, List.map_eq_nil_iff]
  | cons letter word ih =>
    rw [List.all_cons, Bool.and_eq_true] at h
    obtain ⟨hletter, hword⟩ := h
    have hself : letter.toLower = letter := (toLower_eq_iff hletter).mpr (Or.inl rfl)
    cases s with
    | nil =>
      constructor
      · intro hsame
        exact absurd hsame (by simp [lower])
      · intro hletters
        exact absurd hletters (by simp)
    | cons c s =>
      rw [List.forall₂_cons, ← ih hword, ← toLower_eq_iff hletter, lower, lower, List.map_cons,
        List.map_cons, List.cons_eq_cons, hself]
      rfl

end Text
end ModuleBoundary
