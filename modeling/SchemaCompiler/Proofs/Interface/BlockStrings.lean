import SchemaCompiler.Interface.Sdl

/-!
Block strings read back. Three quotes behind a backslash stand for three quotes, and the first other
three quotes close the string. A description is read as it was written, but for a line break after a
quote at its end, and whatever comes after it is left alone. Only a backslash at the very end is not
provided for: the quotes that are to close the string then stand behind it.
-/

namespace SchemaCompiler.BlockString

def quotes : List Char := ['"', '"', '"']

def before (s : List Char) (read : Option (List Char × List Char)) : Option (List Char × List Char) :=
  read.map fun (content, rest) => (s ++ content, rest)

/-- The content of a block string that is open, and what comes after it; none if it is not closed. -/
def readOpen : List Char → Option (List Char × List Char)
  | '\\' :: '"' :: '"' :: '"' :: rest => before quotes (readOpen rest)
  | '"' :: '"' :: '"' :: rest => some ([], rest)
  | c :: rest => before [c] (readOpen rest)
  | [] => none

def readBlock : List Char → Option (List Char × List Char)
  | '"' :: '"' :: '"' :: rest => readOpen rest
  | _ => none

def quoted (s : String) : String := "\"\"\"" ++ escape s ++ "\"\"\""

theorem before_before (s t : List Char) (read : Option (List Char × List Char)) :
    before s (before t read) = before (s ++ t) read := by
  cases read with
  | none => rfl
  | some r => simp [before]

theorem readOpen_cons {c : Char} {rest : List Char} (hescaped : c = '\\' → ¬ quotes <+: rest)
    (hclosed : c = '"' → ¬ ['"', '"'] <+: rest) :
    readOpen (c :: rest) = before [c] (readOpen rest) := by
  rw [readOpen]
  · rintro more rfl rfl
    exact hescaped rfl ⟨more, rfl⟩
  · rintro more rfl rfl
    exact hclosed rfl ⟨more, rfl⟩

theorem length_of_readOpen {s content rest : List Char} (h : readOpen s = some (content, rest)) :
    rest.length < s.length := by
  fun_induction readOpen s generalizing content with
  | case1 tail ih =>
    obtain ⟨⟨inner, after⟩, hread, ⟨⟩⟩ := Option.map_eq_some_iff.mp h
    have hlt := ih hread
    simp only [List.length_cons]
    omega
  | case2 tail =>
    cases h
    simp only [List.length_cons]
    omega
  | case3 c tail _ _ ih =>
    obtain ⟨⟨inner, after⟩, hread, ⟨⟩⟩ := Option.map_eq_some_iff.mp h
    have hlt := ih hread
    simp only [List.length_cons]
    omega
  | case4 => cases h

section Escaping

variable {t : List Char} (ht : t.head? ≠ some '"')

include ht

/-- A quote at the start of an escaped text stands in the text itself, and is not the first of three. -/
theorem quote_of_escapeQuotes {s rest : List Char} (h : escapeQuotes s ++ t = '"' :: rest) :
    ∃ more, s = '"' :: more ∧ rest = escapeQuotes more ++ t ∧ ¬ ['"', '"'] <+: more := by
  fun_cases escapeQuotes s with
  | case1 more =>
    rw [escapeQuotes] at h
    cases h
  | case2 c more hthree =>
    rw [escapeQuotes] at h
    · obtain ⟨rfl, rfl⟩ := List.cons.inj h
      refine ⟨more, rfl, rfl, ?_⟩
      rintro ⟨last, rfl⟩
      exact hthree last rfl rfl
    · exact hthree
  | case3 =>
    rw [escapeQuotes, List.nil_append] at h
    rw [h] at ht
    exact absurd rfl ht

theorem not_quotes_prefix (s : List Char) : ¬ quotes <+: escapeQuotes s ++ t := by
  rintro ⟨rest, h⟩
  obtain ⟨s, rfl, h, hs⟩ := quote_of_escapeQuotes ht h.symm
  obtain ⟨s, rfl, h, -⟩ := quote_of_escapeQuotes ht h.symm
  obtain ⟨s, rfl, -, -⟩ := quote_of_escapeQuotes ht h.symm
  exact hs ⟨s, rfl⟩

theorem readOpen_escapeQuotes (s : List Char) :
    readOpen (escapeQuotes s ++ t) = before s (readOpen t) := by
  fun_induction escapeQuotes s with
  | case1 rest ih =>
    rw [List.cons_append, List.cons_append, List.cons_append, List.cons_append, readOpen, ih,
      before_before]
    rfl
  | case2 c rest hthree ih =>
    rw [List.cons_append, readOpen_cons, ih, before_before]
    · rfl
    · exact fun _ => not_quotes_prefix ht rest
    · rintro rfl ⟨more, h⟩
      obtain ⟨s, rfl, h, -⟩ := quote_of_escapeQuotes ht h.symm
      obtain ⟨s, rfl, -, -⟩ := quote_of_escapeQuotes ht h.symm
      exact hthree s rfl rfl
  | case3 =>
    rw [List.nil_append]
    cases readOpen t <;> rfl

end Escaping

theorem escapeQuotes_append_of_ne {c : Char} (hc : c ≠ '"') (s : List Char) :
    escapeQuotes (s ++ [c]) = escapeQuotes s ++ [c] := by
  fun_induction escapeQuotes s with
  | case1 rest ih => rw [List.cons_append, List.cons_append, List.cons_append, escapeQuotes, ih]; rfl
  | case2 d rest hthree ih =>
    rw [List.cons_append, escapeQuotes, ih]
    · rfl
    · rintro more rfl h
      rcases rest with _ | ⟨a, _ | ⟨b, rest⟩⟩
      · exact absurd (List.cons.inj h).1 hc
      · exact absurd (List.cons.inj (List.cons.inj h).2).1 hc
      · obtain ⟨rfl, hrest⟩ := List.cons.inj h
        obtain ⟨rfl, -⟩ := List.cons.inj hrest
        exact hthree rest rfl rfl
  | case3 =>
    rw [List.nil_append, escapeQuotes]
    · rfl
    · rintro more rfl
      exact absurd rfl hc

theorem getLast?_escapeQuotes (s : List Char) : (escapeQuotes s).getLast? = s.getLast? := by
  fun_induction escapeQuotes s with
  | case1 rest ih => simp only [List.getLast?_cons, ih, Option.getD_some]
  | case2 c rest hthree ih => simp only [List.getLast?_cons, ih]
  | case3 => rfl

theorem readOpen_content (s rest : List Char) :
    readOpen (content s ++ (quotes ++ rest)) =
      if s.getLast? = some '\\' then before (s.dropLast ++ quotes) (readOpen rest)
      else some (guardEnd s, rest) := by
  by_cases hquote : s.getLast? = some '"'
  · have hne : ¬ s.getLast? = some '\\' := by
      rw [hquote]
      decide
    rw [content, guardEnd, getLast?_escapeQuotes, if_pos hquote, List.append_assoc, if_neg hne,
      readOpen_escapeQuotes (by simp), guardEnd, if_pos hquote]
    rfl
  · rw [content, guardEnd, getLast?_escapeQuotes, if_neg hquote, guardEnd, if_neg hquote]
    rcases List.eq_nil_or_concat s with rfl | ⟨start, c, rfl⟩
    · rfl
    · rw [List.concat_eq_append] at hquote ⊢
      rw [List.getLast?_concat, List.dropLast_concat]
      rw [List.getLast?_concat] at hquote
      have hc : c ≠ '"' := fun hc => hquote (congrArg some hc)
      rw [escapeQuotes_append_of_ne hc, List.append_assoc, readOpen_escapeQuotes]
      · by_cases hb : c = '\\'
        · subst hb
          rw [if_pos rfl]
          change before start (before quotes (readOpen rest)) = _
          rw [before_before]
        · rw [if_neg fun h => hb (Option.some.inj h), List.singleton_append, readOpen_cons]
          · rfl
          · exact fun h => absurd h hb
          · exact fun h => absurd h hc
      · rw [List.singleton_append, List.head?_cons]
        exact fun h => hc (Option.some.inj h)

theorem toList_quoted (s : String) : (quoted s).toList = quotes ++ (content s.toList ++ quotes) := by
  simp [quoted, escape, quotes]

theorem describe_eq (indent s : String) : Sdl.describe indent (.value (.text s)) =
    .ok (if s = "" then "" else indent ++ quoted s ++ "\n") := by
  unfold Sdl.describe
  by_cases hs : s = ""
  · subst hs
    rfl
  · have hpresent : Attribute.truthy (.value (.text s)) = true := by simp [Attribute.truthy, Value.truthy, hs]
    rw [hpresent, if_neg hs]
    simp only [quoted, String.append_assoc]
    rfl

/-- A description in the text of its type is read as it stands up to its closing quotes, with a line
break added where it ends with a quote, and so exactly if it does not end with a backslash. -/
theorem readBlock_quoted (indent s : String) (rest : List Char) :
    Sdl.describe indent (.value (.text s)) =
        .ok (if s = "" then "" else indent ++ quoted s ++ "\n") ∧
      readBlock ((quoted s).toList ++ rest) =
        (if s.toList.getLast? = some '\\' then before (s.toList.dropLast ++ quotes) (readOpen rest)
        else some (s.toList ++ if s.toList.getLast? = some '"' then ['\n'] else [], rest)) ∧
      ((∃ read, readBlock ((quoted s).toList ++ rest) = some (read, rest)) ↔
        s.toList.getLast? ≠ some '\\') := by
  have hguard : s.toList ++ (if s.toList.getLast? = some '"' then ['\n'] else []) =
      guardEnd s.toList := by
    unfold guardEnd
    split
    · rfl
    · rw [List.append_nil]
  have hread : readBlock ((quoted s).toList ++ rest) =
      if s.toList.getLast? = some '\\' then before (s.toList.dropLast ++ quotes) (readOpen rest)
      else some (guardEnd s.toList, rest) := by
    rw [toList_quoted, List.append_assoc, List.append_assoc, ← readOpen_content]
    rfl
  rw [hguard]
  refine ⟨describe_eq indent s, hread, ?_⟩
  rw [hread]
  by_cases hb : s.toList.getLast? = some '\\'
  · rw [if_pos hb]
    constructor
    · rintro ⟨read, h⟩
      obtain ⟨⟨inner, after⟩, hopen, ⟨⟩⟩ := Option.map_eq_some_iff.mp h
      exact absurd (length_of_readOpen hopen) (Nat.lt_irrefl _)
    · exact fun h => absurd hb h
  · rw [if_neg hb]
    exact ⟨fun _ => hb, fun _ => ⟨_, rfl⟩⟩

theorem backslash_left_open : ¬ ∀ s : String, ∃ added, (added = [] ∨ added = ['\n']) ∧
    readBlock (quoted s).toList = some (s.toList ++ added, []) := by
  intro h
  obtain ⟨added, -, hread⟩ := h "\\"
  have hopen : readBlock (quoted "\\").toList = none := by decide
  rw [hopen] at hread
  cases hread

end SchemaCompiler.BlockString
