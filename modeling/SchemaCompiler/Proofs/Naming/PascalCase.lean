import SchemaCompiler.Naming.PascalCase
import Mathlib.Data.List.Basic

namespace SchemaCompiler.Naming

theorem isLower_iff {c : Char} : c.isLower = true ↔ 97 ≤ c.toNat ∧ c.toNat ≤ 122 := by
  change (decide (97 ≤ c.val) && decide (c.val ≤ 122)) = true ↔ _
  simp [UInt32.le_iff_toNat_le, ← Char.toNat_val]

theorem isUpper_iff {c : Char} : c.isUpper = true ↔ 65 ≤ c.toNat ∧ c.toNat ≤ 90 := by
  change decide (65 ≤ c.val ∧ c.val ≤ 90) = true ↔ _
  simp [UInt32.le_iff_toNat_le, ← Char.toNat_val]

theorem isDigit_iff {c : Char} : c.isDigit = true ↔ 48 ≤ c.toNat ∧ c.toNat ≤ 57 := by
  change (decide (48 ≤ c.val) && decide (c.val ≤ 57)) = true ↔ _
  simp [UInt32.le_iff_toNat_le, ← Char.toNat_val]

theorem isAlpha_eq (c : Char) : c.isAlpha = (c.isUpper || c.isLower) := rfl

theorem isLower_of_isUpper {c : Char} (h : c.isUpper = true) : c.isLower = false := by
  have hupper := isUpper_iff.mp h
  apply Bool.eq_false_iff.mpr
  intro hl
  have hlower := isLower_iff.mp hl
  omega

theorem isUpper_toUpper {c : Char} (h : c.isLower = true) : c.toUpper.isUpper = true := by
  have hcapital : ∀ n < 123, 97 ≤ n → (Char.ofNat n).toUpper.isUpper = true := by decide
  have hlower := isLower_iff.mp h
  have hc := hcapital c.toNat (by omega) (by omega)
  rwa [Char.ofNat_toNat] at hc

theorem isAlphanum_of_mem {inWord : Bool} {s : List Char} {c : Char} (h : c ∈ pascalFrom inWord s) :
    c.isAlphanum = true := by
  induction s generalizing inWord with
  | nil => simp [pascalFrom] at h
  | cons d rest ih =>
    rw [pascalFrom] at h
    split at h
    · rename_i hlower
      rcases List.mem_cons.mp h with rfl | h
      · split
        · simp [Char.isAlphanum, isAlpha_eq, hlower]
        · simp [Char.isAlphanum, isAlpha_eq, isUpper_toUpper hlower]
      · exact ih h
    · split at h
      · rename_i hupper
        rcases List.mem_cons.mp h with rfl | h
        · simp [Char.isAlphanum, isAlpha_eq, hupper]
        · exact ih h
      · split at h
        · rename_i hdigit
          rcases List.mem_cons.mp h with rfl | h
          · simp [Char.isAlphanum, hdigit]
          · exact ih h
        · exact ih h

theorem not_isLower_head {s : List Char} {c : Char} {rest : List Char}
    (h : pascalFrom false s = c :: rest) : c.isLower = false := by
  induction s with
  | nil => cases h
  | cons d others ih =>
    rw [pascalFrom] at h
    split at h
    · rename_i hlower
      cases h
      exact isLower_of_isUpper (isUpper_toUpper hlower)
    · split at h
      · rename_i hlower _
        cases h
        simpa using hlower
      · split at h
        · rename_i hlower _ _
          cases h
          simpa using hlower
        · exact ih h

theorem exists_isAlpha {s : List Char} {c : Char} (hc : c ∈ s) (h : c.isAlpha = true) (inWord : Bool) :
    ∃ d ∈ pascalFrom inWord s, d.isAlpha = true := by
  induction s generalizing inWord with
  | nil => cases hc
  | cons d rest ih =>
    have hrest (hmem : c ∈ rest) (front : List Char) (inWord : Bool) :
        ∃ x ∈ front ++ pascalFrom inWord rest, x.isAlpha = true := by
      obtain ⟨x, hx, halpha⟩ := ih hmem inWord
      exact ⟨x, List.mem_append_right _ hx, halpha⟩
    rw [pascalFrom]
    rcases List.mem_cons.mp hc with rfl | hmem
    · split
      · rename_i hlower
        refine ⟨_, List.mem_cons_self, ?_⟩
        split
        · exact h
        · simp [isAlpha_eq, isUpper_toUpper hlower]
      · split
        · exact ⟨_, List.mem_cons_self, h⟩
        · simp_all [isAlpha_eq]
    · split
      · exact hrest hmem [_] true
      · split
        · exact hrest hmem [_] true
        · split
          · exact hrest hmem [_] false
          · exact hrest hmem [] false

end SchemaCompiler.Naming
