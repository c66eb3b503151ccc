import SchemaCompiler.Proofs.Naming.PascalWords

namespace SchemaCompiler.Naming

open Text

structure LowerWord where
  letters : List Char
  letters_ne_nil : letters ≠ []
  isLower_of_mem : ∀ c ∈ letters, c.isLower = true

namespace LowerWord

def capital (w : LowerWord) : List Char := capitalised w.letters

def upper (w : LowerWord) : List Char := w.letters.map Char.toUpper

end LowerWord

def joined (separator : Char) : List (List Char) → List Char
  | [] => []
  | w :: rest => w ++ rest.flatMap (separator :: ·)

def separated (separator : Char) (ws : List LowerWord) : String :=
  String.ofList (joined separator (ws.map (·.letters)))

def camel : List LowerWord → String
  | [] => ""
  | w :: rest => String.ofList (w.letters ++ rest.flatMap (·.capital))

def screaming (ws : List LowerWord) : String := String.ofList (joined '_' (ws.map (·.upper)))

def pascal (ws : List LowerWord) : String := String.ofList (ws.flatMap (·.capital))

namespace LowerWord

theorem exists_capital (w : LowerWord) : ∃ c rest, w.letters = c :: rest ∧ w.capital = c.toUpper :: rest ∧
    c.toUpper.isUpper = true ∧ ∀ d ∈ rest, d.isLower = true := by
  obtain ⟨letters, hne, hlower⟩ := w
  obtain ⟨c, rest, rfl⟩ := List.exists_cons_of_ne_nil hne
  obtain ⟨hc, hrest⟩ := List.forall_mem_cons.mp hlower
  refine ⟨c, rest, rfl, capitalised_cons fun d hd => ?_, isUpper_toUpper hc, hrest⟩
  simpa using Char.not_isUpper_of_isLower (hrest d hd)

theorem capitalised_capital (w : LowerWord) : capitalised w.capital = w.capital := by
  obtain ⟨c, rest, -, hcapital, -, hrest⟩ := w.exists_capital
  have hlower : ∀ d ∈ rest, d.isUpper = false := fun d hd => by
    simpa using Char.not_isUpper_of_isLower (hrest d hd)
  rw [hcapital, capitalised_cons hlower, Char.toUpper_toUpper_eq_toUpper]

theorem isUpper_of_mem_upper {w : LowerWord} {c : Char} (h : c ∈ w.upper) : c.isUpper = true := by
  obtain ⟨d, hd, rfl⟩ := List.mem_map.mp h
  exact isUpper_toUpper (w.isLower_of_mem d hd)

end LowerWord

def ReadAs {α : Type} (text : α → List Char) (words : α → List (List Char)) : Prop :=
  ∀ x rest, (∀ c ∈ rest.head?, c.isLower = false) →
    pascalWords (text x ++ rest) = words x ++ pascalWords rest

theorem readAs_letters : ReadAs LowerWord.letters fun w => [w.letters] := by
  rintro ⟨letters, hne, hlower⟩ rest hrest
  obtain ⟨c, more, rfl⟩ := List.exists_cons_of_ne_nil hne
  obtain ⟨hc, hmore⟩ := List.forall_mem_cons.mp hlower
  obtain ⟨htake, hdrop⟩ := split_run hmore hrest
  rw [List.cons_append, pascalWords_cons_of_isLower _ hc, htake, hdrop, List.singleton_append]

theorem readAs_capital : ReadAs LowerWord.capital fun w => [w.capital] := by
  intro w rest hrest
  obtain ⟨c, more, -, hcapital, hc, hmore⟩ := w.exists_capital
  obtain ⟨htake, hdrop⟩ := split_run hmore hrest
  rw [List.singleton_append, hcapital, List.cons_append, pascalWords_cons_of_isUpper _ hc, htake, hdrop]

theorem pascalWords_of_isUpper {s rest : List Char} (hupper : ∀ c ∈ s, c.isUpper = true)
    (hrest : ∀ c ∈ rest.head?, c.isLower = false) :
    pascalWords (s ++ rest) = s.map (fun c => [c]) ++ pascalWords rest := by
  induction s with
  | nil => rfl
  | cons c s ih =>
    obtain ⟨hc, hs⟩ := List.forall_mem_cons.mp hupper
    have hnext : ∀ d ∈ (s ++ rest).head?, d.isLower = false := by
      cases s with
      | nil => exact hrest
      | cons d s =>
        rintro _ ⟨⟩
        exact isLower_of_isUpper (hs d List.mem_cons_self)
    obtain ⟨htake, hdrop⟩ := split_run (List.forall_mem_nil _) hnext
    rw [List.nil_append] at htake hdrop
    rw [List.cons_append, pascalWords_cons_of_isUpper _ hc, htake, hdrop, ih hs, List.map_cons,
      List.cons_append]

theorem readAs_upper : ReadAs LowerWord.upper fun w => w.upper.map fun c => [c] :=
  fun _ _ hrest => pascalWords_of_isUpper (fun _ hc => LowerWord.isUpper_of_mem_upper hc) hrest

section Compound

variable {α : Type} {text : α → List Char} {words : α → List (List Char)} (h : ReadAs text words)

include h

theorem ReadAs.flatMap (hhead : ∀ x, ∃ c rest, text x = c :: rest ∧ c.isLower = false) (xs : List α) :
    pascalWords (xs.flatMap text) = xs.flatMap words ∧
      ∀ c ∈ (xs.flatMap text).head?, c.isLower = false := by
  induction xs with
  | nil => exact ⟨rfl, by simp⟩
  | cons x xs ih =>
    rw [List.flatMap_cons, h x _ ih.2, ih.1, List.flatMap_cons]
    refine ⟨rfl, ?_⟩
    obtain ⟨c, rest, hx, hc⟩ := hhead x
    rw [hx]
    rintro d ⟨⟩
    exact hc

theorem ReadAs.joined {separator : Char} (hsep : separator.isAlphanum = false) (xs : List α) :
    pascalWords (joined separator (xs.map text)) = xs.flatMap words := by
  cases xs with
  | nil => rfl
  | cons x xs =>
    have hafter : ReadAs (fun y => separator :: text y) words := fun y rest hrest => by
      rw [List.cons_append, pascalWords_cons_of_other _ hsep, h y rest hrest]
    obtain ⟨hwords, hhead⟩ := hafter.flatMap
      (fun y => ⟨separator, text y, rfl, (isAlphanum_eq_false_iff.mp hsep).1⟩) xs
    rw [List.map_cons, Naming.joined, List.flatMap_map, h x _ hhead, hwords, List.flatMap_cons]

end Compound

theorem pascalCase_ofList (s : List Char) :
    pascalCase (String.ofList s) = String.ofList ((pascalWords s).flatMap capitalised) := by
  rw [pascalCase, String.toList_ofList, pascalFrom_eq_words]

theorem pascalCase_separated {separator : Char} (hsep : separator.isAlphanum = false)
    (ws : List LowerWord) : pascalCase (separated separator ws) = pascal ws := by
  rw [separated, pascalCase_ofList, readAs_letters.joined hsep, List.flatMap_assoc, pascal]
  simp only [List.flatMap_singleton]
  rfl

theorem pascalCase_camel (ws : List LowerWord) : pascalCase (camel ws) = pascal ws := by
  cases ws with
  | nil => rfl
  | cons w ws =>
    obtain ⟨hwords, hhead⟩ := readAs_capital.flatMap (fun w => by
      obtain ⟨c, rest, -, hcapital, hc, -⟩ := w.exists_capital
      exact ⟨_, _, hcapital, isLower_of_isUpper hc⟩) ws
    rw [camel, pascalCase_ofList, readAs_letters w _ hhead, hwords, List.flatMap_append,
      List.flatMap_singleton, List.flatMap_assoc, pascal, List.flatMap_cons]
    simp only [List.flatMap_singleton, LowerWord.capitalised_capital]
    rfl

theorem pascalCase_screaming (ws : List LowerWord) :
    pascalCase (screaming ws) = String.ofList (ws.flatMap (·.upper)) := by
  have hword (w : LowerWord) : (w.upper.map fun c => [c]).flatMap capitalised = w.upper := by
    have hsame : ∀ c ∈ w.upper, capitalised [c] = [c] := fun c hc =>
      congrArg (fun d => [d]) (Char.toUpper_eq_of_not_isLower
        (Char.not_isLower_of_isUpper (LowerWord.isUpper_of_mem_upper hc)))
    rw [List.flatMap_map, List.flatMap_congr hsame]
    simp
  rw [screaming, pascalCase_ofList, readAs_upper.joined rfl, List.flatMap_assoc]
  simp only [hword]

theorem LowerWord.upper_eq_capital_iff (w : LowerWord) :
    w.upper = w.capital ↔ w.letters.length = 1 := by
  obtain ⟨c, rest, hletters, hcapital, -, hrest⟩ := w.exists_capital
  rw [hcapital, upper, hletters, List.map_cons, List.cons.injEq, List.length_cons]
  cases rest with
  | nil => simp
  | cons d rest =>
    have hd : d.toUpper ≠ d := by
      intro heq
      have hlower := hrest d List.mem_cons_self
      rw [← heq, Char.isLower_toUpper_eq_false] at hlower
      cases hlower
    simp [hd]

theorem flatMap_upper_eq_iff (ws : List LowerWord) :
    ws.flatMap (·.upper) = ws.flatMap (·.capital) ↔ ∀ w ∈ ws, w.letters.length = 1 := by
  induction ws with
  | nil => simp
  | cons w ws ih =>
    have hlength : w.upper.length = w.capital.length := by
      obtain ⟨c, rest, hletters, hcapital, -, -⟩ := w.exists_capital
      rw [LowerWord.upper, hletters, hcapital, List.length_map, List.length_cons, List.length_cons]
    rw [List.flatMap_cons, List.flatMap_cons, List.forall_mem_cons, ← ih, ← w.upper_eq_capital_iff]
    constructor
    · exact fun h => List.append_inj h hlength
    · rintro ⟨hfirst, hothers⟩
      rw [hfirst, hothers]

/-- The pascal case of a name is the same from its words with underscores, hyphens or spaces between
them and in camel case: the words capitalised. From the name in capitals throughout, it is all its
letters in capitals, which is the same only if every word is a single letter. -/
theorem pascalCase_spellings (ws : List LowerWord) :
    pascalCase (separated '_' ws) = pascal ws ∧ pascalCase (separated '-' ws) = pascal ws ∧
    pascalCase (separated ' ' ws) = pascal ws ∧ pascalCase (camel ws) = pascal ws ∧
    pascalCase (screaming ws) = String.ofList (ws.flatMap (·.upper)) ∧
    (pascalCase (screaming ws) = pascal ws ↔ ∀ w ∈ ws, w.letters.length = 1) := by
  refine ⟨pascalCase_separated rfl ws, pascalCase_separated rfl ws, pascalCase_separated rfl ws,
    pascalCase_camel ws, pascalCase_screaming ws, ?_⟩
  rw [pascalCase_screaming, pascal, String.ofList_inj, flatMap_upper_eq_iff]

def firstName : List LowerWord :=
  [⟨['f', 'i', 'r', 's', 't'], by simp, by simp⟩, ⟨['n', 'a', 'm', 'e'], by simp, by simp⟩]

theorem screaming_differs : screaming firstName = "FIRST_NAME" ∧ pascal firstName = "FirstName" ∧
    pascalCase "FIRST_NAME" = "FIRSTNAME" ∧
    pascalCase (screaming firstName) ≠ pascal firstName := by
  decide +kernel

end SchemaCompiler.Naming
