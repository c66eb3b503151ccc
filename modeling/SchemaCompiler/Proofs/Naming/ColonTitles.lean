import Mathlib.Data.List.DropRight
import SchemaCompiler.Naming.Convention
import SchemaCompiler.Proofs.Text.Patterns

/-!
Titles read by the colon. The first colon with a word right before it decides: that whole word is the
name, and the description is the line that begins after the colon and the white space behind it. The
scan from left to right finds what the search for a word, a colon, white space and a line finds, which
may begin anywhere and give characters back.
-/

namespace SchemaCompiler.Naming

open Text

def EndsInWord (s : List Char) : Prop := ∃ c ∈ s.getLast?, isWord c = true

def Untitled (s : List Char) : Prop := ∀ front rest, s = front ++ ':' :: rest → ¬EndsInWord front

structure TitleCut (s front rest : List Char) : Prop where
  text : s = front ++ ':' :: rest
  word : EndsInWord front
  first : Untitled front

def IsLastWord (front name : List Char) : Prop :=
  (∀ c ∈ name, isWord c = true) ∧ ∃ before, front = before ++ name ∧ ¬EndsInWord before

def IsNextLine (rest line : List Char) : Prop :=
  ∃ blanks more, rest = blanks ++ line ++ more ∧ (∀ c ∈ blanks, isBlank c = true) ∧
    (∀ c ∈ (line ++ more).head?, isBlank c = false) ∧ '\n' ∉ line ∧ ∀ c ∈ more.head?, c = '\n'

theorem endsInWord_iff {s : List Char} : EndsInWord s ↔ s.rtakeWhile isWord ≠ [] := by
  rw [ne_eq, List.rtakeWhile_eq_nil_iff]
  constructor
  · rintro ⟨c, hc, hword⟩ hnone
    have hne : s ≠ [] := by
      rintro rfl
      cases hc
    rw [List.getLast?_eq_getLast_of_ne_nil hne, Option.mem_some_iff] at hc
    exact hnone hne (hc ▸ hword)
  · intro h
    push Not at h
    obtain ⟨hne, hword⟩ := h
    exact ⟨_, List.getLast?_eq_getLast_of_ne_nil hne, hword⟩

theorem isLastWord_rtakeWhile (front : List Char) : IsLastWord front (front.rtakeWhile isWord) := by
  refine ⟨fun c hc => List.mem_rtakeWhile_imp hc, front.rdropWhile isWord, ?_, ?_⟩
  · exact List.rdropWhile_append_rtakeWhile.symm
  · rintro ⟨c, hc, hword⟩
    have hne : front.rdropWhile isWord ≠ [] := by
      intro hnil
      rw [hnil] at hc
      cases hc
    rw [List.getLast?_eq_getLast_of_ne_nil hne, Option.mem_some_iff] at hc
    exact List.rdropWhile_last_not _ _ hne (hc ▸ hword)

theorem not_of_head?_dropWhile {p : Char → Bool} {s : List Char} {c : Char}
    (h : c ∈ (s.dropWhile p).head?) : p c = false := by
  have hhead := List.head?_dropWhile_not p s
  rwa [Option.mem_def.mp h] at hhead

theorem isNextLine_afterColon (rest : List Char) : IsNextLine rest (afterColon rest) := by
  have hline := List.takeWhile_append_dropWhile (p := (· ≠ '\n')) (l := rest.dropWhile isBlank)
  refine ⟨rest.takeWhile isBlank, (rest.dropWhile isBlank).dropWhile (· ≠ '\n'), ?_, ?_, ?_, ?_, ?_⟩
  · rw [List.append_assoc, afterColon, hline, List.takeWhile_append_dropWhile]
  · exact fun c hc => List.mem_takeWhile_imp hc
  · rw [afterColon, hline]
    exact fun c hc => not_of_head?_dropWhile hc
  · intro hmem
    simpa using List.mem_takeWhile_imp hmem
  · intro c hc
    simpa using not_of_head?_dropWhile hc

theorem Untitled.concat {s : List Char} {c : Char} (h : Untitled s) (hc : c = ':' → ¬EndsInWord s) :
    Untitled (s ++ [c]) := by
  intro front rest heq
  rcases List.eq_nil_or_concat' rest with rfl | ⟨rest, last, rfl⟩
  · obtain ⟨rfl, hlast⟩ := List.append_inj' heq rfl
    exact hc (List.cons.inj hlast).1
  · rw [← List.cons_append, ← List.append_assoc] at heq
    exact h front rest (List.append_inj' heq rfl).1

theorem ne_colon_of_isWord {c : Char} (hc : isWord c = true) : c ≠ ':' := by
  rintro rfl
  revert hc
  decide

theorem readColon_eq {before : List Char} (hbefore : Untitled before) (s : List Char) :
    Untitled (before ++ s) ∧ readColon (before.rtakeWhile isWord).reverse s = none ∨
    ∃ front rest, TitleCut (before ++ s) front rest ∧
      readColon (before.rtakeWhile isWord).reverse s =
        some ⟨String.ofList (front.rtakeWhile isWord), String.ofList (afterColon rest)⟩ := by
  induction s generalizing before with
  | nil => exact .inl ⟨by rwa [List.append_nil], rfl⟩
  | cons c rest ih =>
    rw [readColon, List.append_cons before c rest]
    by_cases hword : isWord c = true
    · have hmore := ih (hbefore.concat fun h => absurd h (ne_colon_of_isWord hword))
      rw [List.rtakeWhile_concat_pos _ _ _ hword, List.reverse_append] at hmore
      rw [if_pos hword]
      exact hmore
    · rw [if_neg hword]
      by_cases hcut : c = ':' ∧ (before.rtakeWhile isWord).reverse ≠ []
      · obtain ⟨rfl, hne⟩ := hcut
        rw [if_pos ⟨rfl, hne⟩, List.reverse_reverse]
        refine .inr ⟨before, rest, ⟨(List.append_cons ..).symm, ?_, hbefore⟩, rfl⟩
        exact endsInWord_iff.mpr (by simpa using hne)
      · rw [if_neg hcut]
        have hends : c = ':' → ¬EndsInWord before := by
          intro hc hends
          exact hcut ⟨hc, by simpa using endsInWord_iff.mp hends⟩
        have hmore := ih (hbefore.concat hends)
        rw [List.rtakeWhile_concat_neg _ _ _ hword] at hmore
        exact hmore

theorem untitled_nil : Untitled [] := by
  intro front rest h
  simp at h

/-- A description without a colon right behind a word has no title. In any other, the name is the
longest word before the first such colon, and never empty; the description is the line that begins
after the white space behind that colon. -/
theorem colon_reads_title (s : String) :
    (Convention.colon.read (.text s) = .ok none ↔ Untitled s.toList) ∧
    (Untitled s.toList ∨ ∃ front rest t, TitleCut s.toList front rest ∧
      Convention.colon.read (.text s) = .ok (some t) ∧ t.name ≠ "" ∧
      IsLastWord front t.name.toList ∧ IsNextLine rest t.description.toList) := by
  have hread : Convention.colon.read (.text s) = .ok (readColon [] s.toList) := rfl
  rw [hread, Except.ok.injEq]
  rcases readColon_eq untitled_nil s.toList with ⟨huntitled, hnone⟩ | ⟨front, rest, hcut, hsome⟩
  · exact ⟨iff_of_true hnone huntitled, .inl huntitled⟩
  · change readColon [] s.toList = _ at hsome
    change TitleCut s.toList front rest at hcut
    have htitled : ¬Untitled s.toList := fun h => h front rest hcut.text hcut.word
    rw [hsome]
    refine ⟨iff_of_false (by simp) htitled, .inr ⟨front, rest, _, hcut, rfl, ?_, ?_, ?_⟩⟩
    · simpa using endsInWord_iff.mp hcut.word
    · rw [String.toList_ofList]
      exact isLastWord_rtakeWhile front
    · rw [String.toList_ofList]
      exact isNextLine_afterColon rest

example : Convention.colon.read (.text "Parts : 1:\n\n  the lid:\nsee Box:") =
    .ok (some ⟨"1", "the lid:"⟩) := by
  decide +kernel

def colonPattern : Pattern :=
  .seq (.one (· = ':')) (.seq (.many isBlank) (.keep (.many (· ≠ '\n'))))

def titlePattern : Pattern := .seq (.keep (.run isWord)) colonPattern

def titleOfFit (x : Fit) : Option Titled :=
  match x.kept with
  | [name, line] => some ⟨String.ofList name, String.ofList line⟩
  | _ => none

theorem fits_colonPattern_of_ne {c : Char} (hc : c ≠ ':') (rest : List Char) :
    colonPattern.fits (c :: rest) = [] := by
  have hcolon : ¬decide (c = ':') = true := by simpa using hc
  rw [colonPattern, Pattern.fits, Pattern.fits, if_neg hcolon]
  rfl

section Search

variable {word rest : List Char} (hword : ∀ c ∈ word, isWord c = true)

theorem fit?_of_no_word {c : Char} (hc : isWord c = false) (rest : List Char) :
    titlePattern.fit? (c :: rest) = none := by
  have hone : (Pattern.run isWord).fit? (c :: rest) = none :=
    Pattern.fit?_one_many_of_neg (by simp [hc])
  rw [Pattern.fit?, List.head?_eq_none_iff] at hone
  apply Pattern.fit?_seq_none
  rw [Pattern.fit?, Pattern.fits, hone]
  rfl

include hword

/-- A word gives nothing back: what it would leave begins with a word character and not a colon. -/
theorem fits_word (hne : word ≠ []) (hrest : ∀ c ∈ rest.head?, isWord c = false) :
    titlePattern.fits (word ++ rest) =
      (colonPattern.fits rest).map (Fit.next ⟨word, [word], rest⟩) := by
  obtain ⟨c, more, rfl⟩ := List.exists_cons_of_ne_nil hne
  obtain ⟨hc, hmore⟩ := List.forall_mem_cons.mp hword
  obtain ⟨htake, hdrop⟩ := split_run hmore hrest
  rw [List.cons_append, titlePattern,
    Pattern.fits_run_seq (fun d _ hd => fits_colonPattern_of_ne (ne_colon_of_isWord hd) _) hc, htake,
    hdrop]

theorem fit?_title (hne : word ≠ []) (after : List Char) :
    (titlePattern.fit? (word ++ ':' :: after)).bind titleOfFit =
      some ⟨String.ofList word, String.ofList (afterColon after)⟩ := by
  have hcolon : colonPattern.fit? (':' :: after) = some _ :=
    Pattern.fit?_seq (Pattern.fit?_one_of_pos rfl)
      (Pattern.fit?_seq (Pattern.fit?_many _ _) (Pattern.fit?_keep (Pattern.fit?_many _ _)))
  rw [Pattern.fit?, List.head?_eq_some_iff] at hcolon
  obtain ⟨others, hcolon⟩ := hcolon
  rw [Pattern.fit?, fits_word hword hne (by simp; decide), hcolon]
  rfl

theorem fit?_no_title (hrest : ∀ c ∈ rest.head?, isWord c = false ∧ c ≠ ':') :
    titlePattern.fit? (word ++ rest) = none := by
  by_cases hne : word = []
  · subst hne
    cases rest with
    | nil => rfl
    | cons c rest => exact fit?_of_no_word (hrest c rfl).1 rest
  · rw [Pattern.fit?, fits_word hword hne fun c hc => (hrest c hc).1]
    cases rest with
    | nil => rfl
    | cons c rest =>
      rw [fits_colonPattern_of_ne (hrest c rfl).2]
      rfl

theorem search_no_title (hrest : ∀ c ∈ rest.head?, isWord c = false ∧ c ≠ ':') :
    titlePattern.search (word ++ rest) = titlePattern.search rest := by
  induction word with
  | nil => rfl
  | cons c word ih =>
    rw [List.cons_append, Pattern.search, ← List.cons_append, fit?_no_title hword hrest, Option.none_or,
      ih (List.forall_mem_cons.mp hword).2]

end Search

theorem readColon_eq_search {run : List Char} (hrun : ∀ c ∈ run, isWord c = true) (s : List Char) :
    readColon run s = (titlePattern.search (run.reverse ++ s)).bind titleOfFit := by
  induction s generalizing run with
  | nil =>
    rw [search_no_title (by simpa using hrun) (by simp)]
    rfl
  | cons c rest ih =>
    have hword : ∀ d ∈ run.reverse, isWord d = true := by simpa using hrun
    rw [readColon]
    by_cases hc : isWord c = true
    · rw [if_pos hc, ih (List.forall_mem_cons.mpr ⟨hc, hrun⟩), List.reverse_cons, List.append_assoc,
        List.singleton_append]
    · rw [if_neg hc]
      rw [Bool.not_eq_true] at hc
      by_cases hcut : c = ':' ∧ run ≠ []
      · obtain ⟨rfl, hne⟩ := hcut
        have hne' : run.reverse ≠ [] := by simpa using hne
        have hfit := fit?_title hword hne' rest
        obtain ⟨d, more, hd⟩ := List.exists_cons_of_ne_nil hne'
        rw [if_pos ⟨rfl, hne⟩, ← hfit, hd, List.cons_append, Pattern.search]
        rw [hd, List.cons_append] at hfit
        obtain ⟨x, hx, -⟩ := Option.bind_eq_some_iff.mp hfit
        rw [hx, Option.some_or]
      · have hhere : (titlePattern.search (run.reverse ++ c :: rest)) = titlePattern.search (c :: rest) := by
          by_cases hcolon : c = ':'
          · have hnil : run = [] := by
              by_contra hne
              exact hcut ⟨hcolon, hne⟩
            rw [hnil, List.reverse_nil, List.nil_append]
          · apply search_no_title hword
            rintro d ⟨⟩
            exact ⟨hc, hcolon⟩
        rw [if_neg hcut, hhere, Pattern.search, fit?_of_no_word hc, Option.none_or]
        exact ih (List.forall_mem_nil _)

theorem colon_read_eq_search (s : String) :
    Convention.colon.read (.text s) = .ok ((titlePattern.search s.toList).bind titleOfFit) :=
  congrArg Except.ok (readColon_eq_search (List.forall_mem_nil _) s.toList)

end SchemaCompiler.Naming
