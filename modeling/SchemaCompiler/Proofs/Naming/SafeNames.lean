import SchemaCompiler.Proofs.Interface.Declarations
import SchemaCompiler.Proofs.Naming.MemberSequence
import SchemaCompiler.Proofs.Naming.PascalCase

namespace SchemaCompiler.Naming

open Text Sdl

def isName : List Char → Bool
  | [] => false
  | c :: rest => !c.isDigit && (c :: rest).all isNameChar

/-- The sharp s, the dotless i, the long s, and the ligatures of f and of s. -/
def outsiders : List Nat :=
  [0xdf, 0x131, 0x17f, 0xfb00, 0xfb01, 0xfb02, 0xfb03, 0xfb04, 0xfb05, 0xfb06]

def isLatin (c : Char) : Bool := c.toNat < 128 || outsiders.contains c.toNat

theorem ascii_of_isNameChar {c : Char} (h : isNameChar c = true) : c.toNat < 128 := by
  rw [isNameChar, Bool.or_eq_true, Char.isAlphanum, Bool.or_eq_true, isAlpha_eq, Bool.or_eq_true,
    isUpper_iff, isLower_iff, isDigit_iff, decide_eq_true_eq] at h
  rcases h with ((h | h) | h) | rfl
  · omega
  · omega
  · omega
  · decide

theorem upper_isNameChar_of_ascii : ∀ n < 128, isWord (Char.ofNat n) = true →
    isNameChar (Char.ofNat n).toUpper = true := by
  decide +kernel

theorem upper_isNameChar_of_outsider :
    ∀ n ∈ outsiders, (upperChar (Char.ofNat n)).all isNameChar = true := by
  decide +kernel

theorem outsider_of_expansion : ∀ e ∈ caseExpansions,
    (e.2.map Char.ofNat).all isNameChar = true → e.1 ∈ outsiders := by
  decide +kernel

theorem outsider_of_run : ∀ r ∈ caseRuns, r.last < 128 ∨ 128 ≤ r.first + r.shift ∨
    r.first = r.last ∧ r.first ∈ outsiders := by
  decide +kernel

theorem outsider_of_shifted {n : Nat} (hn : 128 ≤ n) (h : shifted caseRuns n < 128) :
    n ∈ outsiders := by
  rcases shifted_cases caseRuns n with heq | ⟨r, hr, hfirst, hlast, heq⟩
  · omega
  · rcases outsider_of_run r hr with hascii | hshift | ⟨hone, hmem⟩
    · omega
    · omega
    · rwa [show n = r.first by omega]

theorem isLatin_of_upper {c : Char} (h : (upperChar c).all isNameChar = true) : isLatin c = true := by
  rw [isLatin, Bool.or_eq_true, decide_eq_true_eq, List.contains_iff_mem]
  rcases upperChar_cases c with ⟨hlt, -⟩ | ⟨upper, hmem, heq⟩ | ⟨hge, heq⟩
  · exact .inl hlt
  · rw [heq] at h
    exact .inr (outsider_of_expansion _ hmem h)
  · right
    rw [heq, List.all_cons, Bool.and_eq_true] at h
    rcases toNat_ofNat (shifted caseRuns c.toNat) with hsame | hzero
    · apply outsider_of_shifted hge
      rw [← hsame]
      exact ascii_of_isNameChar h.1
    · rw [hzero] at h
      cases h.1

theorem upper_of_isLatin {c : Char} (hw : isWord c = true) (h : isLatin c = true) :
    (upperChar c).all isNameChar = true := by
  rw [isLatin, Bool.or_eq_true, decide_eq_true_eq, List.contains_iff_mem] at h
  rcases h with hlt | hmem
  · rw [upperChar, if_pos hlt, List.all_cons, List.all_nil, Bool.and_true, ← Char.ofNat_toNat c]
    apply upper_isNameChar_of_ascii c.toNat hlt
    rwa [Char.ofNat_toNat]
  · rw [← Char.ofNat_toNat c]
    exact upper_isNameChar_of_outsider c.toNat hmem

theorem upper_word (c : Char) :
    (!isWord c || (upperChar c).all isNameChar) = (!isWord c || isLatin c) := by
  cases hw : isWord c with
  | false => rfl
  | true =>
    rw [Bool.not_true, Bool.false_or, Bool.false_or, Bool.eq_iff_iff]
    exact ⟨isLatin_of_upper, upper_of_isLatin hw⟩

section Underscores

variable {P : Char → Bool} (h : P '_' = true)

include h

theorem all_joinWords (inGap : Bool) (s : List Char) :
    (joinWords inGap s).all P = s.all fun c => !isWord c || P c := by
  induction s generalizing inGap with
  | nil => rfl
  | cons c rest ih =>
    rw [joinWords, List.all_cons]
    by_cases hw : isWord c = true
    · rw [if_pos hw, List.all_cons, ih, hw, Bool.not_true, Bool.false_or]
    · rw [Bool.not_eq_true] at hw
      rw [hw, Bool.not_false, Bool.true_or, Bool.true_and]
      cases inGap with
      | true => simp [ih]
      | false => simp [ih, h]

theorem all_dropWhile_underscore (s : List Char) : (s.dropWhile (· == '_')).all P = s.all P := by
  induction s with
  | nil => rfl
  | cons c rest ih =>
    rw [List.dropWhile_cons]
    split
    · rename_i hc
      rw [ih, List.all_cons, beq_iff_eq.mp hc, h, Bool.true_and]
    · rfl

theorem all_trimUnderscores (s : List Char) : (trimUnderscores s).all P = s.all P := by
  rw [trimUnderscores, List.all_reverse, all_dropWhile_underscore h, List.all_reverse,
    all_dropWhile_underscore h]

end Underscores

theorem all_upperWords (s : List Char) :
    (upperWords s).all isNameChar = s.all fun c => !isWord c || isLatin c := by
  rw [upperWords, upper, List.all_flatMap, all_trimUnderscores (by decide), all_joinWords (by decide)]
  congr 1
  funext c
  exact upper_word c

theorem isDigit_of_ascii {c : Char} (h : c.isDigit = true) : Text.isDigit c = true := by
  obtain ⟨hlow, hhigh⟩ := isDigit_iff.mp h
  simp [Text.isDigit, digitRanges, within, hlow, hhigh]

theorem isName_valueName (position : Nat) :
    isName ("VALUE_".toList ++ (Value.int position).display.toList) = true := by
  have hall : (Nat.toDigits 10 position).all isNameChar = true := by
    rw [List.all_eq_true]
    intro c hc
    have hdigit : c.isDigit = true := Nat.isDigit_of_mem_toDigits (by decide) (by decide) hc
    simp [isNameChar, Char.isAlphanum, hdigit]
  rw [display_position]
  change (!Char.isDigit 'V' && ("VALUE_".toList ++ Nat.toDigits 10 position).all isNameChar) = true
  rw [List.all_append, hall]
  decide

theorem isName_memberName (v : Value) (position : Nat) :
    isName (memberName v (.int position)).toList =
      v.display.toList.all fun c => !isWord c || isLatin c := by
  rw [memberName, String.toList_ofList, memberNameOf, ← all_upperWords]
  cases upperWords v.display.toList with
  | nil => exact isName_valueName position
  | cons c rest =>
    dsimp only
    split
    · have hline : isNameChar '_' = true := by decide
      have hdigit : Char.isDigit '_' = false := by decide
      rw [isName, List.all_cons, hline, hdigit, Bool.not_false, Bool.true_and, Bool.true_and]
    · rename_i hc
      rw [isName]
      cases hd : c.isDigit with
      | true => exact absurd (isDigit_of_ascii hd) hc
      | false => rfl

theorem isName_append_underscores {name : List Char} (h : name ≠ []) (k : Nat) :
    isName (name ++ List.replicate k '_') = isName name := by
  obtain ⟨c, rest, rfl⟩ := List.exists_cons_of_ne_nil h
  have hall : (List.replicate k '_').all isNameChar = true := by
    rw [List.all_eq_true]
    intro c hc
    rw [List.eq_of_mem_replicate hc]
    decide
  rw [List.cons_append, isName, ← List.cons_append, List.all_append, hall, Bool.and_true, isName]

/-- A member's name is a name of the printed interface exactly if every word character of its value's
display form is in ASCII or has an upper case there. -/
theorem enumMembers_isName (values : List Value) :
    (enumMembers values).map (fun m => isName m.1.toList) =
      values.map fun v => v.display.toList.all fun c => !isWord c || isLatin c := by
  have hnames : (enumMembers values).map (fun m => isName m.1.toList) =
      ((enumMembers values).map (·.1)).map fun name => isName name.toList := by
    rw [List.map_map]
    rfl
  rw [hnames, names_enumMembers, toldApart, plainNames]
  apply List.ext_getElem
  · simp
  · intro i hi hlt
    rw [List.length_map] at hlt
    have hne := (upright_memberName values[i] i).nonempty
    simp [underscores, isName_append_underscores hne, isName_memberName]

theorem accented_unsafe : ¬∀ values, ∀ m ∈ enumMembers values, isName m.1.toList = true := by
  intro h
  have hm : ("É", .text "é") ∈ enumMembers [.text "é"] := by decide +kernel
  exact absurd (h _ _ hm) (by decide)

end SchemaCompiler.Naming
