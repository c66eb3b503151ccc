import SchemaCompiler.Proofs.Outcome
import SchemaCompiler.Schema.Document

namespace SchemaCompiler.Schema

open Value (valueAt? entryOrNull)

def variantsRead (variants : List Value) : List Value :=
  match loneVariant? variants with
  | some v => [v]
  | none => variants

def parts (entries : Entries) : List Value :=
  match formOf entries with
  | .union _ (.list variants) => variantsRead variants
  | .body .object _ =>
    match valueAt? "properties" entries with
    | some (.record properties) => properties.map (·.2)
    | _ => []
  | .body .array _ =>
    match valueAt? "items" entries with
    | none | some .null | some (.list _) => []
    | some items => [items]
  | _ => []

theorem mem_of_mem_variantsRead {variants : List Value} {u : Value}
    (h : u ∈ variantsRead variants) : u ∈ variants := by
  unfold variantsRead at h
  split at h
  · rw [List.mem_singleton.mp h]
    exact mem_of_loneVariant? ‹_›
  · exact h

theorem sizeOf_of_mem_parts {entries : Entries} {u : Value} (h : u ∈ parts entries) :
    sizeOf u < sizeOf (Value.record entries) := by
  unfold parts at h
  rw [Value.record.sizeOf_spec]
  split at h
  · have hv := List.sizeOf_lt_of_mem (mem_of_mem_variantsRead h)
    have hu := sizeOf_of_formOf_union ‹_›
    rw [Value.list.sizeOf_spec] at hu
    omega
  · split at h
    · obtain ⟨entry, he, rfl⟩ := List.mem_map.mp h
      have hl := List.sizeOf_lt_of_mem he
      have hp := Value.sizeOf_valueAt? ‹_›
      obtain ⟨name, v⟩ := entry
      simp only [Value.record.sizeOf_spec, Prod.mk.sizeOf_spec] at hl hp ⊢
      omega
    · cases h
  · split at h
    · cases h
    · cases h
    · cases h
    · have hi := Value.sizeOf_valueAt? ‹_›
      rw [List.mem_singleton.mp h]
      omega
  · cases h

@[elab_as_elim]
theorem parts_induction {motive : Value → Prop}
    (other : ∀ v, (∀ entries, v ≠ .record entries) → motive v)
    (record : ∀ entries, (∀ u ∈ parts entries, motive u) → motive (.record entries)) (v : Value) :
    motive v := by
  cases v with
  | record entries => exact record entries fun u hu => parts_induction other record u
  | _ => exact other _ (by simp)
termination_by sizeOf v
decreasing_by exact sizeOf_of_mem_parts hu

inductive Under : Value → Value → Prop where
  | refl (v : Value) : Under v v
  | part {x u : Value} {entries : Entries} : u ∈ parts entries → Under x u →
      Under x (.record entries)

theorem valueAt?_of_formOf_reference {entries : Entries} {target : Value}
    (h : formOf entries = .reference target) : valueAt? "$ref" entries = some target := by
  unfold formOf at h
  split at h
  · cases h
    assumption
  · cases h
  · cases h
  · cases h
  · cases h
  · split at h <;> cases h

theorem formOf_union {entries : Entries} {keyword : String} {variants : Value}
    (h : formOf entries = .union keyword variants) :
    (keyword = "oneOf" ∨ keyword = "anyOf") ∧ valueAt? keyword entries = some variants := by
  unfold formOf at h
  split at h
  · cases h
  · cases h
  · cases h
    exact ⟨.inl rfl, ‹_›⟩
  · cases h
    exact ⟨.inr rfl, ‹_›⟩
  · cases h
  · split at h <;> cases h

section Reading

variable {m : Type → Type} [Monad m] [MonadExcept Failure m]

theorem readSchema_of_not_record (follow : Follow m) {v : Value}
    (hv : ∀ entries, v ≠ .record entries) (path : String) :
    readSchema follow v path = faultAt path (.notObject v.formName) := by
  cases v with
  | record entries => exact absurd rfl (hv entries)
  | _ => simp [readSchema]

theorem readSchema_record (follow : Follow m) (entries : Entries) (path : String) :
    readSchema follow (.record entries) path =
      match formOf entries with
      | .reference target => readReference follow entries path target
      | .constant value => return annotate entries path (.literal {} value)
      | .union keyword variants => readUnion follow entries path s!"{path}/{keyword}" variants
      | .enum values => do
        let node ← MonadExcept.ofExcept (enumNode values)
        return annotate entries path node
      | .mixed types => faultAt path (.severalTypes types)
      | .body body nullable => do
        let node ← readBody follow entries path body
        let node := annotate entries path node
        return if nullable then node.asNullable else node := by
  rw [readSchema]
  split <;> simp only [*]

theorem readBody_object (follow : Follow m) (entries : Entries) (path : String) :
    readBody follow entries path .object = (do
      let required ← MonadExcept.ofExcept (requiredNames entries)
      match valueAt? "properties" entries with
      | none => return .object {} []
      | some (.record properties) =>
        let shape ← readProperties follow required path properties
        return .object {} shape
      | some _ => misused .notRecord) := by
  rw [readBody]
  congr 1
  funext required
  split <;> simp only [*]

theorem readBody_array (follow : Follow m) (entries : Entries) (path : String) :
    readBody follow entries path .array =
      match valueAt? "items" entries with
      | none | some .null => return .array {} (.any { path := .text s!"{path}/items" })
      | some (.list _) => faultAt path .tupleArray
      | some items => do
        let item ← readSchema follow items s!"{path}/items"
        return .array {} item := by
  rw [readBody]
  split <;> simp only [*]

theorem readBody_array_record (follow : Follow m) {entries schema : Entries} (path : String)
    (h : valueAt? "items" entries = some (.record schema)) :
    readBody follow entries path .array = (do
      let item ← readSchema follow (.record schema) s!"{path}/items"
      return .array {} item) := by
  rw [readBody_array, h]

theorem readUnion_list (follow : Follow m) (entries : Entries) (path place : String)
    (variants : List Value) :
    readUnion follow entries path place (.list variants) =
      match loneVariant? variants with
      | some v => do
        let node ← readSchema follow v s!"{place}/0"
        return overlayTexts entries node.asNullable
      | none => do
        let nodes ← readVariants follow place 0 variants
        return annotate entries path (.union {} nodes) := by
  rw [readUnion]
  split <;> simp only [*]

theorem readSchema_union_list {follow : Follow m} {entries : Entries} {keyword path : String}
    {variants : List Value} (hf : formOf entries = .union keyword (.list variants)) :
    readSchema follow (.record entries) path =
      match loneVariant? variants with
      | some v => do
        let node ← readSchema follow v s!"{path}/{keyword}/0"
        return overlayTexts entries node.asNullable
      | none => do
        let nodes ← readVariants follow s!"{path}/{keyword}" 0 variants
        return annotate entries path (.union {} nodes) := by
  rw [readSchema_record, hf]
  exact readUnion_list follow entries path _ variants

theorem readUnion_of_not_list (follow : Follow m) (entries : Entries) (path place : String)
    {variants : Value} (hv : ∀ items, variants ≠ .list items) :
    readUnion follow entries path place variants = (do
      let nodes ← MonadExcept.ofExcept (readForeign variants.elements? place)
      return annotate entries path (.union {} nodes)) := by
  cases variants with
  | list items => exact absurd rfl (hv items)
  | _ => simp [readUnion]

end Reading

theorem readForeign_ok {elements : Option (List Value)} {place : String} {nodes : List Node}
    (h : readForeign elements place = .ok nodes) : elements = some [] ∧ nodes = [] := by
  unfold readForeign at h
  split at h
  · cases h
  · cases h
    exact ⟨rfl, rfl⟩
  · cases h

theorem readForeign_error {elements : Option (List Value)} {place : String} {e : Failure}
    (h : readForeign elements place = .error e) :
    (elements = none ∧ e = .misuse .notIterable) ∨
      ∃ first more, elements = some (first :: more) ∧
        e = .document s!"{place}/0" (.notObject first.formName) := by
  unfold readForeign at h
  split at h
  · cases h
    exact .inl ⟨rfl, rfl⟩
  · cases h
  · cases h
    exact .inr ⟨_, _, rfl, rfl⟩

theorem record_of_readSchema {follow : Follow (Except Failure)} {v : Value} {path : String}
    {node : Node} (h : readSchema follow v path = .ok node) : ∃ entries, v = .record entries := by
  cases v with
  | record entries => exact ⟨entries, rfl⟩
  | _ =>
    rw [readSchema_of_not_record _ (by simp)] at h
    cases h

theorem expand_eq (definitions : Value) (busy : List String) (reference path : String) :
    expand definitions busy reference path =
      if !reference.startsWith "#" then faultAt path (.externalReference reference)
      else match lookup definitions (lastSegment reference) with
        | .unsearchable => misused .notSearchable
        | .absent => faultAt path (.unresolvedReference reference)
        | .held => misused .notIndexable
        | .found schema =>
          if lastSegment reference ∈ busy then faultAt path (.recursiveReference reference)
          else readSchema (expand definitions (lastSegment reference :: busy)) schema reference := by
  rw [expand]
  split
  · rfl
  · split <;> simp only [*, dite_eq_ite]

theorem expand_cases (definitions : Value) (busy : List String) (reference path : String) :
    (∃ e, expand definitions busy reference path = .error e ∧
      ∀ q other, e = .document q (.recursiveReference other) →
        other = reference ∧ reference.startsWith "#" = true ∧ lastSegment reference ∈ busy) ∨
    ∃ schema, reference.startsWith "#" = true ∧
      lookup definitions (lastSegment reference) = .found schema ∧ lastSegment reference ∉ busy ∧
      expand definitions busy reference path =
        readSchema (expand definitions (lastSegment reference :: busy)) schema reference := by
  rw [expand_eq]
  split
  · exact .inl ⟨_, rfl, nofun⟩
  · rename_i hs
    have hs : reference.startsWith "#" = true := by simpa using hs
    cases hl : lookup definitions (lastSegment reference) with
    | unsearchable => exact .inl ⟨_, rfl, nofun⟩
    | absent => exact .inl ⟨_, rfl, nofun⟩
    | held => exact .inl ⟨_, rfl, nofun⟩
    | found schema =>
      by_cases hb : lastSegment reference ∈ busy
      · refine .inl ⟨_, if_pos hb, ?_⟩
        intro q other he
        cases he
        exact ⟨rfl, hs, hb⟩
      · exact .inr ⟨schema, hs, rfl, hb, if_neg hb⟩

end SchemaCompiler.Schema
