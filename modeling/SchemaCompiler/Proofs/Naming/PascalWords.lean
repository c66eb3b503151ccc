import Mathlib
import SchemaCompiler.Proofs.Naming.PascalCase
import SchemaCompiler.Proofs.Text.Patterns

namespace SchemaCompiler.Naming

open Text

def wordPattern : Pattern :=
  .either (.run Char.isLower) (.either (.seq (.one Char.isUpper) (.many Char.isLower)) (.run Char.isDigit))

def pascalWords (s : List Char) : List (List Char) := wordPattern.findAll s

def spacedOut (s : List Char) : List Char := s.map fun c => if c = '_' ∨ c = '-' then ' ' else c

def capitalised : List Char → List Char
  | [] => []
  | c :: rest => c.toUpper :: rest.map Char.toLower

section Characters

variable {c : Char}

theorem isLower_of_isDigit (h : c.isDigit = true) : c.isLower = false := by
  have hdigit := isDigit_iff.mp h
  apply Bool.eq_false_iff.mpr
  intro hl
  have hlower := isLower_iff.mp hl
  omega

theorem isUpper_of_isDigit (h : c.isDigit = true) : c.isUpper = false := by
  have hdigit := isDigit_iff.mp h
  apply Bool.eq_false_iff.mpr
  intro hu
  have hupper := isUpper_iff.mp hu
  omega

theorem isAlphanum_eq_false_iff : c.isAlphanum = false ↔
    c.isLower = false ∧ c.isUpper = false ∧ c.isDigit = false := by
  rw [Char.isAlphanum, isAlpha_eq, Bool.or_eq_false_iff, Bool.or_eq_false_iff, and_assoc,
    and_left_comm]

theorem letter_digit_or_other (c : Char) : c.isLower = true ∨ c.isUpper = true ∨ c.isDigit = true ∨
    c.isAlphanum = false := by
  rw [isAlphanum_eq_false_iff]
  cases c.isLower <;> cases c.isUpper <;> cases c.isDigit <;> simp

theorem map_toLower_of_not_isUpper {s : List Char} (h : ∀ c ∈ s, c.isUpper = false) :
    s.map Char.toLower = s := by
  have hsame : s.map Char.toLower = s.map id :=
    List.map_congr_left fun c hc => Char.toLower_eq_of_not_isUpper (by simp [h c hc])
  rw [hsame, List.map_id]

end Characters

section Words

variable {c : Char} (rest : List Char)

theorem pascalWords_cons_of_isLower (h : c.isLower = true) : pascalWords (c :: rest) =
    (c :: rest.takeWhile Char.isLower) :: pascalWords (rest.dropWhile Char.isLower) := by
  have hfit : wordPattern.fit? (c :: rest) =
      some ⟨c :: rest.takeWhile Char.isLower, [], rest.dropWhile Char.isLower⟩ := by
    rw [wordPattern, Pattern.fit?_either, Pattern.run, Pattern.fit?_one_many_of_pos h, Option.some_or]
  exact Pattern.findAll_of_fit? hfit (List.cons_ne_nil _ _)

theorem pascalWords_cons_of_isUpper (h : c.isUpper = true) : pascalWords (c :: rest) =
    (c :: rest.takeWhile Char.isLower) :: pascalWords (rest.dropWhile Char.isLower) := by
  have hlower : ¬c.isLower = true := Char.not_isLower_of_isUpper h
  have hfit : wordPattern.fit? (c :: rest) =
      some ⟨c :: rest.takeWhile Char.isLower, [], rest.dropWhile Char.isLower⟩ := by
    rw [wordPattern, Pattern.fit?_either, Pattern.fit?_either, Pattern.run,
      Pattern.fit?_one_many_of_neg hlower, Option.none_or, Pattern.fit?_one_many_of_pos h,
      Option.some_or]
  exact Pattern.findAll_of_fit? hfit (List.cons_ne_nil _ _)

theorem pascalWords_cons_of_isDigit (h : c.isDigit = true) : pascalWords (c :: rest) =
    (c :: rest.takeWhile Char.isDigit) :: pascalWords (rest.dropWhile Char.isDigit) := by
  have hfit : wordPattern.fit? (c :: rest) =
      some ⟨c :: rest.takeWhile Char.isDigit, [], rest.dropWhile Char.isDigit⟩ := by
    rw [wordPattern, Pattern.fit?_either, Pattern.fit?_either, Pattern.run,
      Pattern.fit?_one_many_of_neg (by simp [isLower_of_isDigit h]), Option.none_or,
      Pattern.fit?_one_many_of_neg (by simp [isUpper_of_isDigit h]), Option.none_or, Pattern.run,
      Pattern.fit?_one_many_of_pos h]
  exact Pattern.findAll_of_fit? hfit (List.cons_ne_nil _ _)

theorem pascalWords_cons_of_other (h : c.isAlphanum = false) :
    pascalWords (c :: rest) = pascalWords rest := by
  obtain ⟨hlower, hupper, hdigit⟩ := isAlphanum_eq_false_iff.mp h
  apply Pattern.findAll_of_none
  rw [wordPattern, Pattern.fit?_either, Pattern.fit?_either, Pattern.run,
    Pattern.fit?_one_many_of_neg (by simp [hlower]), Option.none_or,
    Pattern.fit?_one_many_of_neg (by simp [hupper]), Option.none_or, Pattern.run,
    Pattern.fit?_one_many_of_neg (by simp [hdigit])]

end Words

section Scan

variable {c : Char} (inWord : Bool) (rest : List Char)

theorem pascalFrom_cons_of_isLower (h : c.isLower = true) : pascalFrom inWord (c :: rest) =
    (if inWord then c else c.toUpper) :: pascalFrom true rest := by
  rw [pascalFrom, if_pos h]

theorem pascalFrom_cons_of_isUpper (h : c.isUpper = true) :
    pascalFrom inWord (c :: rest) = c :: pascalFrom true rest := by
  rw [pascalFrom, if_neg (Char.not_isLower_of_isUpper h), if_pos h]

theorem pascalFrom_cons_of_isDigit (h : c.isDigit = true) :
    pascalFrom inWord (c :: rest) = c :: pascalFrom false rest := by
  rw [pascalFrom, if_neg (by simp [isLower_of_isDigit h]), if_neg (by simp [isUpper_of_isDigit h]),
    if_pos h]

theorem pascalFrom_cons_of_other (h : c.isAlphanum = false) :
    pascalFrom inWord (c :: rest) = pascalFrom false rest := by
  obtain ⟨hlower, hupper, hdigit⟩ := isAlphanum_eq_false_iff.mp h
  rw [pascalFrom, if_neg (by simp [hlower]), if_neg (by simp [hupper]), if_neg (by simp [hdigit])]

theorem pascalFrom_of_not_isLower (h : c.isLower = false) :
    pascalFrom true (c :: rest) = pascalFrom false (c :: rest) := by
  simp [pascalFrom, h]

end Scan

theorem pascalFrom_inWord (s : List Char) : pascalFrom true s =
    s.takeWhile Char.isLower ++ pascalFrom false (s.dropWhile Char.isLower) := by
  induction s with
  | nil => rfl
  | cons c rest ih =>
    by_cases hlower : c.isLower = true
    · rw [pascalFrom_cons_of_isLower _ _ hlower, if_pos rfl, ih, List.takeWhile_cons_of_pos hlower,
        List.dropWhile_cons_of_pos hlower, List.cons_append]
    · rw [List.takeWhile_cons_of_neg hlower, List.dropWhile_cons_of_neg hlower, List.nil_append,
        pascalFrom_of_not_isLower _ (by simpa using hlower)]

theorem pascalFrom_digits (s : List Char) : pascalFrom false s =
    s.takeWhile Char.isDigit ++ pascalFrom false (s.dropWhile Char.isDigit) := by
  induction s with
  | nil => rfl
  | cons c rest ih =>
    by_cases hdigit : c.isDigit = true
    · rw [pascalFrom_cons_of_isDigit _ _ hdigit, ih, List.takeWhile_cons_of_pos hdigit,
        List.dropWhile_cons_of_pos hdigit, List.cons_append]
    · rw [List.takeWhile_cons_of_neg hdigit, List.dropWhile_cons_of_neg hdigit, List.nil_append]

theorem pascalFrom_spacedOut (inWord : Bool) (s : List Char) :
    pascalFrom inWord (spacedOut s) = pascalFrom inWord s := by
  induction s generalizing inWord with
  | nil => rfl
  | cons c rest ih =>
    change pascalFrom inWord ((if c = '_' ∨ c = '-' then ' ' else c) :: spacedOut rest) = _
    by_cases hc : c = '_' ∨ c = '-'
    · have hother : c.isAlphanum = false := by
        rcases hc with rfl | rfl
        · rfl
        · rfl
      rw [if_pos hc, pascalFrom_cons_of_other _ _ rfl, pascalFrom_cons_of_other _ _ hother, ih]
    · rw [if_neg hc]
      simp only [pascalFrom, ih]

theorem capitalised_cons {c : Char} {rest : List Char} (h : ∀ d ∈ rest, d.isUpper = false) :
    capitalised (c :: rest) = c.toUpper :: rest := by
  rw [capitalised, map_toLower_of_not_isUpper h]

theorem pascalFrom_eq_words (s : List Char) :
    pascalFrom false s = (pascalWords s).flatMap capitalised := by
  -- What is left after the first word is shorter than the text.
  induction hn : s.length using Nat.strong_induction_on generalizing s with
  | _ n ih =>
    subst hn
    cases s with
    | nil => rfl
    | cons c rest =>
      have hrest (p : Char → Bool) : pascalFrom false (rest.dropWhile p) =
          (pascalWords (rest.dropWhile p)).flatMap capitalised :=
        ih _ (Nat.lt_succ_of_le (List.dropWhile_sublist p).length_le) _ rfl
      have hlowers : ∀ d ∈ rest.takeWhile Char.isLower, d.isUpper = false := fun d hd => by
        simpa using Char.not_isUpper_of_isLower (List.mem_takeWhile_imp hd)
      rcases letter_digit_or_other c with hlower | hupper | hdigit | hother
      · rw [pascalFrom_cons_of_isLower _ _ hlower, if_neg Bool.false_ne_true, pascalFrom_inWord, hrest,
          pascalWords_cons_of_isLower rest hlower, List.flatMap_cons, capitalised_cons hlowers,
          List.cons_append]
      · rw [pascalFrom_cons_of_isUpper _ _ hupper, pascalFrom_inWord, hrest,
          pascalWords_cons_of_isUpper rest hupper, List.flatMap_cons, capitalised_cons hlowers,
          Char.toUpper_eq_of_not_isLower (Char.not_isLower_of_isUpper hupper), List.cons_append]
      · have hdigits : ∀ d ∈ rest.takeWhile Char.isDigit, d.isUpper = false :=
          fun d hd => isUpper_of_isDigit (List.mem_takeWhile_imp hd)
        rw [pascalFrom_cons_of_isDigit _ _ hdigit, pascalFrom_digits, hrest,
          pascalWords_cons_of_isDigit rest hdigit, List.flatMap_cons, capitalised_cons hdigits,
          Char.toUpper_eq_of_not_isLower (by simp [isLower_of_isDigit hdigit]), List.cons_append]
      · rw [pascalFrom_cons_of_other _ _ hother, pascalWords_cons_of_other rest hother]
        exact ih rest.length (Nat.lt_succ_self _) rest rfl

theorem toList_pascalCase (s : String) :
    (pascalCase s).toList = (pascalWords (spacedOut s.toList)).flatMap capitalised := by
  rw [pascalCase, String.toList_ofList, ← pascalFrom_spacedOut, pascalFrom_eq_words]

theorem map_toLower_pascalFrom (inWord : Bool) (s : List Char) :
    (pascalFrom inWord s).map Char.toLower = (s.filter Char.isAlphanum).map Char.toLower := by
  induction s generalizing inWord with
  | nil => rfl
  | cons c rest ih =>
    rcases letter_digit_or_other c with hlower | hupper | hdigit | hother
    · have hkept : c.isAlphanum = true := by simp [Char.isAlphanum, isAlpha_eq, hlower]
      rw [pascalFrom_cons_of_isLower _ _ hlower, List.filter_cons_of_pos hkept, List.map_cons,
        List.map_cons, ih]
      cases inWord with
      | false => rw [if_neg Bool.false_ne_true, Char.toLower_toUpper_eq_toLower]
      | true => rw [if_pos rfl]
    · have hkept : c.isAlphanum = true := by simp [Char.isAlphanum, isAlpha_eq, hupper]
      rw [pascalFrom_cons_of_isUpper _ _ hupper, List.filter_cons_of_pos hkept, List.map_cons,
        List.map_cons, ih]
    · have hkept : c.isAlphanum = true := by simp [Char.isAlphanum, hdigit]
      rw [pascalFrom_cons_of_isDigit _ _ hdigit, List.filter_cons_of_pos hkept, List.map_cons,
        List.map_cons, ih]
    · rw [pascalFrom_cons_of_other _ _ hother, List.filter_cons_of_neg (by simp [hother]), ih]

theorem pascalFrom_pascalFrom_false (s : List Char) :
    pascalFrom true (pascalFrom false s) = pascalFrom false (pascalFrom false s) := by
  cases hs : pascalFrom false s with
  | nil => rfl
  | cons c rest => exact pascalFrom_of_not_isLower rest (not_isLower_head hs)

theorem pascalFrom_pascalFrom (inWord : Bool) (s : List Char) :
    pascalFrom inWord (pascalFrom inWord s) = pascalFrom inWord s := by
  induction s generalizing inWord with
  | nil => rfl
  | cons c rest ih =>
    rcases letter_digit_or_other c with hlower | hupper | hdigit | hother
    · rw [pascalFrom_cons_of_isLower _ _ hlower]
      cases inWord with
      | true => rw [if_pos rfl, pascalFrom_cons_of_isLower _ _ hlower, if_pos rfl, ih]
      | false =>
        rw [if_neg Bool.false_ne_true, pascalFrom_cons_of_isUpper _ _ (isUpper_toUpper hlower), ih]
    · rw [pascalFrom_cons_of_isUpper _ _ hupper, pascalFrom_cons_of_isUpper _ _ hupper, ih]
    · rw [pascalFrom_cons_of_isDigit _ _ hdigit, pascalFrom_cons_of_isDigit _ _ hdigit, ih]
    · rw [pascalFrom_cons_of_other _ _ hother]
      -- Only here may a word end without a character of its own in what is written.
      cases inWord with
      | false => exact ih false
      | true => rw [pascalFrom_pascalFrom_false, ih]

/-- A pascal case is made of letters and digits of ASCII. But for their case these are the letters and
digits of the text in order, and the pascal case of a pascal case is itself. -/
theorem pascalCase_keeps_alphanum (s : String) :
    (∀ c ∈ (pascalCase s).toList, c.isAlphanum = true) ∧
    (pascalCase s).toList.map Char.toLower = (s.toList.filter Char.isAlphanum).map Char.toLower ∧
    pascalCase (pascalCase s) = pascalCase s := by
  refine ⟨?_, ?_, ?_⟩
  · rw [pascalCase, String.toList_ofList]
    exact fun c hc => isAlphanum_of_mem hc
  · rw [pascalCase, String.toList_ofList, map_toLower_pascalFrom]
  · rw [pascalCase, pascalCase, String.toList_ofList, pascalFrom_pascalFrom]

/-- The words of a pascal case need not be those of the text: here they run together. -/
example : pascalWords "a 1-2b".toList = [['a'], ['1'], ['2'], ['b']] ∧ pascalCase "a 1-2b" = "A12B" ∧
    pascalWords "A12B".toList = [['A'], ['1', '2'], ['B']] := by
  decide +kernel

end SchemaCompiler.Naming
