import SchemaCompiler.Proofs.Schema.Parts

/-!
What references point at, and what they are read as. A reference is a pointer to an entry of one of a
document's two tables of definitions. The reader keeps one of the tables, and of a reference its last
part, so that it comes to the right schema exactly where the two do not matter.
-/

namespace SchemaCompiler.Schema

open Outcome
open Value (valueAt? entryOrNull)

def tableKeywords : List String := ["definitions", "$defs"]

def Tabled (document : Entries) : Prop :=
  ∀ keyword ∈ tableKeywords, ∀ v, valueAt? keyword document = some v → ∃ table, v = .record table

def tableAt (keyword : String) (document : Entries) : Entries :=
  match entryOrNull keyword document with
  | .record table => table
  | _ => []

def tableInUse (document : Entries) : Entries :=
  if tableAt "definitions" document = [] then tableAt "$defs" document
  else tableAt "definitions" document

def pointer (keyword name : String) : String := "#/" ++ keyword ++ "/" ++ name

inductive PointsAt (document : Entries) : String → Value → Prop where
  | entry {keyword name : String} {schema : Value} : keyword ∈ tableKeywords → '/' ∉ name.toList →
      valueAt? name (tableAt keyword document) = some schema →
      PointsAt document (pointer keyword name) schema

def TakenFor (document : Entries) (reference : String) (schema : Value) : Prop :=
  reference.startsWith "#" = true ∧ valueAt? (lastSegment reference) (tableInUse document) = some schema

section Tables

variable {document : Entries}

theorem orElse_tabled (h : Tabled document) {keyword : String} (hk : keyword ∈ tableKeywords)
    (other : Value) : (entryOrNull keyword document).orElse other =
      if tableAt keyword document = [] then other else .record (tableAt keyword document) := by
  unfold tableAt entryOrNull
  cases hv : valueAt? keyword document with
  | none => rfl
  | some v =>
    obtain ⟨table, rfl⟩ := h keyword hk v hv
    cases table <;> rfl

theorem definitions_tabled (h : Tabled document) :
    definitions document = .record (tableInUse document) := by
  unfold definitions tableInUse
  rw [orElse_tabled h (by decide), orElse_tabled h (by decide)]
  split
  · split
    · rename_i hempty
      rw [hempty]
    · rfl
  · rfl

theorem lookup_tabled (h : Tabled document) (name : String) :
    lookup (definitions document) name =
      match valueAt? name (tableInUse document) with
      | some schema => .found schema
      | none => .absent := by
  rw [definitions_tabled h]
  rfl

end Tables

section Pointers

variable {keyword keyword' name name' : String}

theorem toList_pointer (keyword name : String) :
    (pointer keyword name).toList = '#' :: '/' :: keyword.toList ++ '/' :: name.toList := by
  simp [pointer]

theorem lastSegment_pointer (keyword : String) (h : '/' ∉ name.toList) :
    lastSegment (pointer keyword name) = name := by
  have hname : ∀ c ∈ name.toList.reverse, decide (c ≠ '/') = true := by
    intro c hc
    exact decide_eq_true fun he => h (he ▸ List.mem_reverse.mp hc)
  rw [lastSegment, toList_pointer, List.reverse_append, List.reverse_cons, List.append_assoc,
    List.takeWhile_append_of_pos hname]
  simp

theorem startsWith_pointer (keyword name : String) : (pointer keyword name).startsWith "#" = true := by
  rw [String.startsWith_string_iff, toList_pointer]
  exact ⟨_, rfl⟩

theorem pointer_inj (h : '/' ∉ name.toList) (h' : '/' ∉ name'.toList)
    (heq : pointer keyword name = pointer keyword' name') : keyword = keyword' ∧ name = name' := by
  have hname : name = name' := by
    rw [← lastSegment_pointer keyword h, heq, lastSegment_pointer keyword' h']
  subst hname
  have hchars := congrArg String.toList heq
  rw [toList_pointer, toList_pointer, List.append_cancel_right_eq] at hchars
  obtain ⟨-, hchars⟩ := List.cons.inj hchars
  exact ⟨String.toList_inj.mp (List.cons.inj hchars).2, rfl⟩

theorem pointsAt_pointer {document : Entries} (hk : keyword ∈ tableKeywords) (h : '/' ∉ name.toList)
    (schema : Value) : PointsAt document (pointer keyword name) schema ↔
      valueAt? name (tableAt keyword document) = some schema := by
  constructor
  · intro hp
    generalize hr : pointer keyword name = reference at hp
    cases hp with
    | entry hk' h' hentry =>
      obtain ⟨rfl, rfl⟩ := pointer_inj h h' hr
      exact hentry
  · exact .entry hk h

theorem takenFor_pointer {document : Entries} (h : '/' ∉ name.toList) (schema : Value) :
    TakenFor document (pointer keyword name) schema ↔
      valueAt? name (tableInUse document) = some schema := by
  rw [TakenFor, lastSegment_pointer keyword h]
  exact and_iff_right (startsWith_pointer keyword name)

end Pointers

/-- The reference is a pointer to an entry that both tables have in common, as those of the table in use
are, or it is no pointer and its last part is no name in the table in use. -/
inductive Unmistakable (document : Entries) : String → Prop where
  | pointer {keyword name : String} : keyword ∈ tableKeywords → '/' ∉ name.toList →
      valueAt? name (tableAt keyword document) = valueAt? name (tableInUse document) →
      Unmistakable document (pointer keyword name)
  | other {reference : String} :
      (∀ keyword ∈ tableKeywords, ∀ name, '/' ∉ name.toList → reference ≠ pointer keyword name) →
      (reference.startsWith "#" = true →
        valueAt? (lastSegment reference) (tableInUse document) = none) →
      Unmistakable document reference

theorem unmistakable_iff (document : Entries) (reference : String) :
    (∀ schema, TakenFor document reference schema ↔ PointsAt document reference schema) ↔
      Unmistakable document reference := by
  -- A pointer points at one entry at most, and what is no pointer at none.
  by_cases hp : ∃ keyword ∈ tableKeywords, ∃ name, '/' ∉ name.toList ∧ reference = pointer keyword name
  · obtain ⟨keyword, hk, name, h, rfl⟩ := hp
    simp only [pointsAt_pointer hk h, takenFor_pointer h]
    constructor
    · intro hsame
      exact .pointer hk h (Option.ext fun schema => (hsame schema).symm)
    · intro hu schema
      generalize hr : pointer keyword name = reference at hu
      cases hu with
      | pointer hk' h' hsame =>
        obtain ⟨rfl, rfl⟩ := pointer_inj h h' hr
        rw [hsame]
      | other hno => exact absurd hr.symm (hno keyword hk name h)
  · have hno : ∀ keyword ∈ tableKeywords, ∀ name, '/' ∉ name.toList →
        reference ≠ pointer keyword name := fun keyword hk name h heq => hp ⟨keyword, hk, name, h, heq⟩
    have hnothing (schema : Value) : ¬ PointsAt document reference schema := by
      rintro ⟨hk, h, -⟩
      exact hno _ hk _ h rfl
    constructor
    · intro hsame
      refine .other hno fun hs => ?_
      rw [Option.eq_none_iff_forall_not_mem]
      exact fun schema hentry => hnothing schema ((hsame schema).mp ⟨hs, hentry⟩)
    · intro hu schema
      refine iff_of_false ?_ (hnothing schema)
      rintro ⟨hs, hentry⟩
      cases hu with
      | pointer hk h => exact hno _ hk _ h rfl
      | other _ hnone => cases (hnone hs).symm.trans hentry

section Following

variable {document entries : Entries} {reference : String}

theorem readSchema_taken (h : Tabled document) (hf : formOf entries = .reference (.text reference))
    (busy : List String) (path : String) {schema : Value} (ht : TakenFor document reference schema) :
    readSchema (expand (definitions document) busy) (.record entries) path =
      if lastSegment reference ∈ busy then .error (.document path (.recursiveReference reference))
      else (readSchema (expand (definitions document) (lastSegment reference :: busy)) schema
        reference).map (overlay entries) := by
  obtain ⟨hs, hentry⟩ := ht
  rw [readSchema_record, hf]
  change (expand (definitions document) busy reference path >>= _) = _
  rw [expand_eq, if_neg (by simp [hs]), lookup_tabled h, hentry]
  dsimp only
  split
  · rfl
  · cases readSchema (expand (definitions document) (lastSegment reference :: busy)) schema reference <;> rfl

theorem readSchema_untaken (h : Tabled document) (hf : formOf entries = .reference (.text reference))
    (busy : List String) (path : String) (hn : ∀ schema, ¬ TakenFor document reference schema) :
    ∃ fault, readSchema (expand (definitions document) busy) (.record entries) path =
      .error (.document path fault) := by
  rw [readSchema_record, hf]
  change ∃ fault, (expand (definitions document) busy reference path >>= _) = _
  rw [expand_eq]
  split
  · exact ⟨_, rfl⟩
  · rename_i hs
    have hs : reference.startsWith "#" = true := by simpa using hs
    rw [lookup_tabled h]
    cases hentry : valueAt? (lastSegment reference) (tableInUse document) with
    | some schema => exact absurd ⟨hs, hentry⟩ (hn schema)
    | none => exact ⟨_, rfl⟩

/-- A reference is read as the schema that it is taken for and otherwise reported, and it is taken for
what it points at exactly if it is unmistakable. -/
theorem reference_followed (h : Tabled document) (hf : formOf entries = .reference (.text reference))
    (busy : List String) (path : String) :
    (∀ schema, TakenFor document reference schema →
      readSchema (expand (definitions document) busy) (.record entries) path =
        if lastSegment reference ∈ busy then .error (.document path (.recursiveReference reference))
        else (readSchema (expand (definitions document) (lastSegment reference :: busy)) schema
          reference).map (overlay entries)) ∧
    ((∀ schema, ¬ TakenFor document reference schema) →
      ∃ fault, readSchema (expand (definitions document) busy) (.record entries) path =
        .error (.document path fault)) ∧
    ((∀ schema, TakenFor document reference schema ↔ PointsAt document reference schema) ↔
      Unmistakable document reference) :=
  ⟨fun _ => readSchema_taken h hf busy path, readSchema_untaken h hf busy path,
    unmistakable_iff document reference⟩

end Following

def textSchema : Value := .record [("type", .text "string")]

def flagSchema : Value := .record [("type", .text "boolean")]

def twoTables : Entries :=
  [("definitions", .record [("A", textSchema)]),
    ("$defs", .record [("A", flagSchema), ("B", flagSchema)])]

theorem tabled_twoTables : Tabled twoTables := by
  intro keyword hk v hv
  rcases List.mem_cons.mp hk with rfl | hk
  · exact ⟨_, (Option.some.inj hv).symm⟩
  · rw [List.mem_singleton.mp hk] at hv
    exact ⟨_, (Option.some.inj hv).symm⟩

theorem readSchema_textSchema (follow : Follow (Except Failure)) (path : String) :
    readSchema follow textSchema path = .ok (.string { path := .text path }) := by
  rw [textSchema, readSchema_record]
  change (readBody follow _ path .text >>= _) = _
  rw [readBody]
  rfl

theorem readSchema_flagSchema (follow : Follow (Except Failure)) (path : String) :
    readSchema follow flagSchema path = .ok (.boolean { path := .text path }) := by
  rw [flagSchema, readSchema_record]
  change (readBody follow _ path .boolean >>= _) = _
  rw [readBody]
  rfl

/-- The first table is in use, so a pointer to its entry is read as that, and a pointer to an entry that
only the second table has is refused. -/
theorem reference_followed_twoTables :
    Tabled twoTables ∧ Unmistakable twoTables "#/definitions/A" ∧
    readSchema (expand (definitions twoTables) []) (.record [("$ref", .text "#/definitions/A")]) "#" =
      .ok (.string { path := .text "#/definitions/A" }) ∧
    ∃ fault, readSchema (expand (definitions twoTables) []) (.record [("$ref", .text "#/$defs/B")]) "#" =
      .error (.document "#" fault) := by
  have ht : TakenFor twoTables "#/definitions/A" textSchema := ⟨by decide +kernel, by decide⟩
  have hn (schema : Value) : ¬ TakenFor twoTables "#/$defs/B" schema := by
    rintro ⟨-, hentry⟩
    cases hentry
  have hfirst : formOf [("$ref", .text "#/definitions/A")] = .reference (.text "#/definitions/A") := rfl
  have hsecond : formOf [("$ref", .text "#/$defs/B")] = .reference (.text "#/$defs/B") := rfl
  obtain ⟨taken, -, -⟩ := reference_followed tabled_twoTables hfirst [] "#"
  obtain ⟨-, untaken, -⟩ := reference_followed tabled_twoTables hsecond [] "#"
  refine ⟨tabled_twoTables, ?_, ?_, untaken hn⟩
  · exact @Unmistakable.pointer twoTables "definitions" "A" (by decide) (by decide) rfl
  · rw [taken textSchema ht, if_neg (by simp), readSchema_textSchema]
    rfl

theorem secondTable_mistaken : ¬ ∀ document, Tabled document → ∀ entries reference schema,
    formOf entries = .reference (.text reference) → PointsAt document reference schema →
    ∀ busy path, lastSegment reference ∉ busy →
      readSchema (expand (definitions document) busy) (.record entries) path =
        (readSchema (expand (definitions document) (lastSegment reference :: busy)) schema
          reference).map (overlay entries) := by
  intro h
  have hp : PointsAt twoTables "#/$defs/A" flagSchema :=
    @PointsAt.entry twoTables "$defs" "A" flagSchema (by decide) (by decide) rfl
  have ht : TakenFor twoTables "#/$defs/A" textSchema := ⟨by decide +kernel, by decide⟩
  have hf : formOf [("$ref", .text "#/$defs/A")] = .reference (.text "#/$defs/A") := rfl
  have hread := h twoTables tabled_twoTables _ _ _ hf hp [] "#" (by simp)
  rw [readSchema_taken tabled_twoTables hf [] "#" ht, if_neg (by simp), readSchema_textSchema,
    readSchema_flagSchema] at hread
  cases hread

end SchemaCompiler.Schema
