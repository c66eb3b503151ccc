import Mathlib.Logic.Basic

namespace SchemaCompiler

theorem isDigit_of_mem_toDigits {k : Nat} {x : Char} (h : x ∈ Nat.toDigits 10 k) : x.isDigit = true :=
  Nat.isDigit_of_mem_toDigits (by omega) (by omega) h

theorem toDigits_injective {j k : Nat} (h : Nat.toDigits 10 j = Nat.toDigits 10 k) : j = k := by
  rw [← Nat.ofDigitChars_ten_toDigits (n := j), h, Nat.ofDigitChars_ten_toDigits]

theorem toString_injective {j k : Nat} (h : toString j = toString k) : j = k := by
  have hdigits := congrArg String.toList h
  simp only [Nat.toString_eq_repr, Nat.toList_repr] at hdigits
  exact toDigits_injective hdigits

theorem toList_repr (n : Int) :
    n.repr.toList = if 0 ≤ n then Nat.toDigits 10 n.toNat else '-' :: Nat.toDigits 10 n.natAbs := by
  cases n with
  | ofNat k => simp [Int.repr]
  | negSucc k => simp [Int.repr, Int.natAbs_negSucc]

theorem repr_injective {m n : Int} (h : m.repr.toList = n.repr.toList) : m = n := by
  have hsign {k : Nat} {more : List Char} : '-' :: more ≠ Nat.toDigits 10 k := by
    intro he
    have hdigit := isDigit_of_mem_toDigits (he ▸ List.mem_cons_self)
    exact absurd hdigit (by decide)
  rw [toList_repr, toList_repr] at h
  split at h <;> split at h
  · have := toDigits_injective h
    omega
  · exact absurd h.symm hsign
  · exact absurd h hsign
  · have := toDigits_injective (List.cons.inj h).2
    omega

end SchemaCompiler
