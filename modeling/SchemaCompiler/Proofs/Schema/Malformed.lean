import SchemaCompiler.Proofs.Schema.Acceptance
import SchemaCompiler.Proofs.Schema.ParserState

namespace SchemaCompiler.Schema

open Outcome
open Value (valueAt? entryOrNull)

/-- Reading the first schema while the first names are busy comes to the second one while the second
names are: all that is read before it is accepted. -/
inductive Arrives (definitions : Value) : List String → Value → List String → Entries → Prop where
  | self (busy : List String) (entries : Entries) :
      Arrives definitions busy (.record entries) busy entries
  | part {busy busy' : List String} {entries found : Entries} {before after : List Value} {u : Value} :
      (∀ m, ¬ Malformed definitions entries m) → parts entries = before ++ u :: after →
      (∀ v ∈ before, Accepted (expand definitions busy) v) →
      Arrives definitions busy u busy' found → Arrives definitions busy (.record entries) busy' found
  | definition {busy busy' : List String} {entries found : Entries} {reference : String}
      {schema : Value} : formOf entries = .reference (.text reference) →
      reference.startsWith "#" = true → lookup definitions (lastSegment reference) = .found schema →
      lastSegment reference ∉ busy →
      Arrives definitions (lastSegment reference :: busy) schema busy' found →
      Arrives definitions busy (.record entries) busy' found

section Reading

variable {definitions : Value} {busy : List String} {entries : Entries}

def Explained (definitions : Value) (busy : List String) (v : Value) : Failure → Prop
  | .document .. => True
  | .misuse m => ∃ busy' entries, Arrives definitions busy v busy' entries ∧
      Malformed definitions entries m
  | _ => False

theorem Explained.own {m : Misuse} (h : Malformed definitions entries m) :
    Explained definitions busy (.record entries) (.misuse m) := ⟨busy, entries, .self _ _, h⟩

theorem Explained.part {before after : List Value} {u : Value} {e : Failure}
    (hm : ∀ m, ¬ Malformed definitions entries m) (hp : parts entries = before ++ u :: after)
    (hbefore : ∀ v ∈ before, ∃ path node, readSchema (expand definitions busy) v path = .ok node)
    (h : Explained definitions busy u e) : Explained definitions busy (.record entries) e := by
  cases e with
  | document => trivial
  | misuse m =>
    obtain ⟨busy', found, ha, hf⟩ := h
    refine ⟨busy', found, .part hm hp ?_ ha, hf⟩
    intro v hv
    obtain ⟨path, node, hnode⟩ := hbefore v hv
    exact accepted_anywhere hnode
  | _ => cases h

end Reading

theorem readSchema_explained (definitions : Value) (busy : List String) (v : Value) (path : String)
    (e : Failure) (h : readSchema (expand definitions busy) v path = .error e) :
    Explained definitions busy v e := by
  -- A followed definition has more names busy; the parts of a schema are smaller than it.
  induction hn : remaining definitions busy using Nat.strongRecOn generalizing busy v path e with
  | ind n ih =>
    induction v using parts_induction generalizing path e with
    | other v hv =>
      rw [readSchema_of_not_record _ hv] at h
      cases h
      trivial
    | record entries hparts =>
      cases readSchema_fails h with
      | @reference target _ hf h =>
        cases target with
        | text reference =>
          rcases bind_eq_error_iff.mp h with h | ⟨node, _, h⟩
          · rw [expand_eq] at h
            split at h
            · cases h
              trivial
            · rename_i hs
              have hs : reference.startsWith "#" = true := by simpa using hs
              split at h
              · cases h
                exact .own (.unsearchable hf hs ‹_›)
              · cases h
                trivial
              · cases h
                exact .own (.held hf hs ‹_›)
              · rename_i schema hl
                split at h
                · cases h
                  trivial
                · rename_i hb
                  have he := ih _ (hn ▸ remaining_lt hl hb) _ _ _ _ h rfl
                  cases e with
                  | document => trivial
                  | misuse m =>
                    obtain ⟨busy', found, ha, hm⟩ := he
                    exact ⟨busy', found, .definition hf hs hl hb ha, hm⟩
                  | _ => cases he
          · cases h
        | _ =>
          cases h
          exact .own (.target hf rfl)
      | fault => trivial
      | variants => trivial
      | misuse hm => exact .own (hm definitions)
      | part hm hp hbefore _ hu =>
        exact .part (hm definitions) hp hbefore (hparts _ (by simp [hp]) _ _ hu)

theorem Malformed.misused {definitions : Value} {entries : Entries} {m : Misuse}
    (h : Malformed definitions entries m) (busy : List String) (path : String) :
    readSchema (expand definitions busy) (.record entries) path = .error (.misuse m) := by
  rw [readSchema_record]
  cases h with
  | target hf ht =>
    rename_i target
    rw [hf]
    cases target with
    | text => cases ht
    | _ => rfl
  | @unsearchable reference hf hs hl =>
    rw [hf]
    change (expand definitions busy reference path >>= _) = _
    rw [expand_eq, if_neg (by simp [hs]), hl]
    rfl
  | @held reference hf hs hl =>
    rw [hf]
    change (expand definitions busy reference path >>= _) = _
    rw [expand_eq, if_neg (by simp [hs]), hl]
    rfl
  | @variants keyword variants hf he =>
    rw [hf]
    have hno : ∀ items, variants ≠ .list items := by
      rintro items rfl
      cases he
    dsimp only
    rw [readUnion_of_not_list _ _ _ _ hno, he]
    rfl
  | values hf he =>
    rw [hf]
    dsimp only
    rw [enumNode, he]
    rfl
  | required hf he =>
    rw [hf]
    dsimp only
    rw [readBody_object, requiredNames, he]
    rfl
  | requiredKeys hf he hk =>
    rw [hf]
    dsimp only
    rw [readBody_object, requiredNames, he]
    simp only [hk]
    rfl
  | @properties nullable required v hf hr hp hno =>
    rw [hf]
    dsimp only
    rw [readBody_object, hr, hp]
    cases v with
    | record fields => exact absurd rfl (hno fields)
    | _ => rfl
  | format hf hk =>
    rw [hf]
    dsimp only
    rw [readBody]
    unfold textNode
    rw [if_pos (by simp [hk])]
    rfl

theorem part_error {definitions : Value} {busy : List String} {entries : Entries}
    {before after : List Value} {u : Value} {e : Failure}
    (hm : ∀ m, ¬ Malformed definitions entries m) (hp : parts entries = before ++ u :: after)
    (hbefore : ∀ v ∈ before, Accepted (expand definitions busy) v)
    (hu : ∀ path, readSchema (expand definitions busy) u path = .error e) (path : String) :
    readSchema (expand definitions busy) (.record entries) path = .error e := by
  rw [readSchema_record]
  unfold parts at hp
  split at hp
  · rename_i keyword variants hf
    rw [hf]
    dsimp only
    rw [readUnion_list]
    unfold variantsRead at hp
    split at hp
    · cases before with
      | nil =>
        obtain ⟨rfl, -⟩ := List.cons.inj hp
        rw [hu, error_bind]
      | cons w before => simp at hp
    · rw [hp, readVariants_error_of hbefore hu, error_bind]
  · rename_i nullable hf
    split at hp
    · rename_i properties hproperties
      rw [hf]
      dsimp only
      obtain ⟨required, hrequired⟩ := requiredNames_ok hf hm
      rw [readBody_object, ofExcept_eq, hrequired, ok_bind, hproperties]
      dsimp only
      rw [readProperties_error_of hp hbefore hu, error_bind, error_bind]
    · simp at hp
  · rename_i nullable hf
    rw [hf]
    dsimp only
    rw [readBody_array]
    split at hp
    · simp at hp
    · simp at hp
    · simp at hp
    · rename_i items hn hl hi
      cases before with
      | nil =>
        obtain ⟨rfl, -⟩ := List.cons.inj hp
        rw [hu, error_bind, error_bind]
      | cons w before => simp at hp
  · simp at hp

theorem Arrives.misused {definitions : Value} {busy busy' : List String} {v : Value} {found : Entries}
    {m : Misuse} (h : Arrives definitions busy v busy' found) (hm : Malformed definitions found m)
    (path : String) : readSchema (expand definitions busy) v path = .error (.misuse m) := by
  induction h generalizing path with
  | self busy entries => exact hm.misused busy path
  | part hno hp hbefore _ ih => exact part_error hno hp hbefore (ih hm) path
  | @definition busy _ entries _ reference schema hf hs hl hb _ ih =>
    rw [readSchema_record, hf]
    change (expand definitions busy reference path >>= _) = _
    rw [expand_eq, if_neg (by simp [hs]), hl]
    dsimp only
    rw [if_neg hb, ih hm, error_bind]

theorem readDocument_misused_iff (document : Value) (m : Misuse) :
    readDocument document = .error (.misuse m) ↔
      ∃ busy entries, Arrives (definitionsOf document) [] document busy entries ∧
        Malformed (definitionsOf document) entries m := by
  constructor
  · intro h
    exact readSchema_explained _ _ _ _ _ h
  · rintro ⟨busy, entries, ha, hm⟩
    exact ha.misused hm "#"

/-- A document is read, or its fault is reported, or a keyword has a value of the wrong form; and the
last is so exactly where reading comes to such a keyword before any other fault. -/
theorem parse_misused_iff (document : Value) (p : Parser) :
    ((∃ node p', Parser.parse document p = .ok node p') ∨
      (∃ path fault p', Parser.parse document p = .error (.document path fault) p') ∨
      ∃ m p', Parser.parse document p = .error (.misuse m) p' ∧
        (m.group = .type ∨ m.group = .attribute)) ∧
    ∀ m, (∃ p', Parser.parse document p = .error (.misuse m) p') ↔
      ∃ busy entries, Arrives (definitionsOf document) [] document busy entries ∧
        Malformed (definitionsOf document) entries m := by
  rw [parse_eq]
  cases h : readDocument document with
  | ok node =>
    refine ⟨.inl ⟨node, _, rfl⟩, fun m => ?_⟩
    rw [← readDocument_misused_iff, h]
    simp
  | error e =>
    have he := readSchema_explained _ _ _ _ _ h
    refine ⟨?_, fun m => ?_⟩
    · cases e with
      | document path fault => exact .inr (.inl ⟨path, fault, _, rfl⟩)
      | misuse m =>
        obtain ⟨busy, entries, _, hm⟩ := he
        exact .inr (.inr ⟨m, _, rfl, hm.group⟩)
      | _ => cases he
    · rw [← readDocument_misused_iff, h]
      simp

def listedProperties : Value := .record [("properties", .list [.text "id"])]

theorem listedProperties_misused : ¬ ∀ document p,
    (∃ node p', Parser.parse document p = .ok node p') ∨
      ∃ path fault p', Parser.parse document p = .error (.document path fault) p' := by
  intro h
  have hm : Malformed (definitionsOf listedProperties)
      [("properties", .list [.text "id"])] .notRecord := .properties rfl rfl rfl nofun
  have hr : readDocument listedProperties = .error (.misuse .notRecord) := hm.misused [] "#"
  rcases h listedProperties {} with ⟨node, p', hp⟩ | ⟨path, fault, p', hp⟩
  · rw [parse_eq, hr] at hp
    cases hp
  · rw [parse_eq, hr] at hp
    cases hp

end SchemaCompiler.Schema
