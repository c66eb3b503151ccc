import SchemaCompiler.Proofs.Schema.Descents

namespace SchemaCompiler.Schema

open Outcome
open Value (valueAt? entryOrNull)

/-- A keyword that the schema is read by has a value that this use of it does not allow. -/
inductive Malformed (definitions : Value) (entries : Entries) : Misuse → Prop where
  | target {target : Value} : formOf entries = .reference target → target.text? = none →
      Malformed definitions entries .notText
  | unsearchable {reference : String} : formOf entries = .reference (.text reference) →
      reference.startsWith "#" = true → lookup definitions (lastSegment reference) = .unsearchable →
      Malformed definitions entries .notSearchable
  | held {reference : String} : formOf entries = .reference (.text reference) →
      reference.startsWith "#" = true → lookup definitions (lastSegment reference) = .held →
      Malformed definitions entries .notIndexable
  | variants {keyword : String} {variants : Value} : formOf entries = .union keyword variants →
      variants.elements? = none → Malformed definitions entries .notIterable
  | values {values : Value} : formOf entries = .enum values → values.elements? = none →
      Malformed definitions entries .notIterable
  | required {nullable : Bool} : formOf entries = .body .object nullable →
      ((valueAt? "required" entries).getD (.list [])).elements? = none →
      Malformed definitions entries .notIterable
  | requiredKeys {nullable : Bool} {names : List Value} : formOf entries = .body .object nullable →
      ((valueAt? "required" entries).getD (.list [])).elements? = some names →
      names.all Value.isKey = false → Malformed definitions entries .notKey
  | properties {nullable : Bool} {required : List String} {v : Value} :
      formOf entries = .body .object nullable → requiredNames entries = .ok required →
      valueAt? "properties" entries = some v → (∀ fields, v ≠ .record fields) →
      Malformed definitions entries .notRecord
  | format {nullable : Bool} : formOf entries = .body .text nullable →
      (entryOrNull "format" entries).isKey = false → Malformed definitions entries .notKey

theorem Malformed.group {definitions : Value} {entries : Entries} {m : Misuse}
    (h : Malformed definitions entries m) : m.group = .type ∨ m.group = .attribute := by
  cases h <;> simp [Misuse.group]

inductive Faulty : Value → DocumentFault → Prop where
  | notObject {v : Value} : (∀ entries, v ≠ .record entries) → Faulty v (.notObject v.formName)
  | severalTypes {entries : Entries} {types : List Value} : formOf entries = .mixed types →
      Faulty (.record entries) (.severalTypes types)
  | tupleArray {entries : Entries} {nullable : Bool} {items : List Value} :
      formOf entries = .body .array nullable → valueAt? "items" entries = some (.list items) →
      Faulty (.record entries) .tupleArray

section Malformed

variable {definitions : Value} {entries : Entries}

theorem not_malformed_union (definitions : Value) {keyword : String} {variants : List Value}
    (hf : formOf entries = .union keyword (.list variants)) (m : Misuse) :
    ¬ Malformed definitions entries m := by
  intro h
  cases h <;> simp_all [Value.elements?]

theorem not_malformed_array (definitions : Value) {nullable : Bool}
    (hf : formOf entries = .body .array nullable) (m : Misuse) : ¬ Malformed definitions entries m := by
  intro h
  cases h <;> simp_all

theorem not_malformed_object (definitions : Value) {nullable : Bool} {required : List String}
    {properties : Entries} (hf : formOf entries = .body .object nullable)
    (hr : requiredNames entries = .ok required)
    (hp : valueAt? "properties" entries = some (.record properties)) (m : Misuse) :
    ¬ Malformed definitions entries m := by
  intro h
  unfold requiredNames at hr
  cases h <;> simp_all [misused]

theorem requiredNames_ok {nullable : Bool} (hf : formOf entries = .body .object nullable)
    (hm : ∀ m, ¬ Malformed definitions entries m) : ∃ required, requiredNames entries = .ok required := by
  unfold requiredNames
  split
  · exact absurd (.required hf ‹_›) (hm _)
  · rename_i names hnames
    split
    · exact ⟨_, rfl⟩
    · rename_i hkeys
      exact absurd (.requiredKeys hf hnames (Bool.eq_false_iff.mpr hkeys)) (hm _)

end Malformed

inductive Fails (follow : Follow (Except Failure)) (entries : Entries) (path : String) : Failure → Prop where
  | reference {target : Value} {e : Failure} : formOf entries = .reference target →
      readReference follow entries path target = .error e → Fails follow entries path e
  | fault {fault : DocumentFault} : Faulty (.record entries) fault →
      Fails follow entries path (.document path fault)
  /-- The variants are no list, and the first thing that they run through is no schema. -/
  | variants {keyword : String} {variants first : Value} {more : List Value} :
      formOf entries = .union keyword variants → (∀ items, variants ≠ .list items) →
      variants.elements? = some (first :: more) →
      Fails follow entries path (.document (onward path [keyword, "0"]) (.notObject first.formName))
  | misuse {m : Misuse} : (∀ definitions, Malformed definitions entries m) →
      Fails follow entries path (.misuse m)
  | part {d : Descent} {before after : List Value} {u : Value} {e : Failure} :
      (∀ definitions m, ¬ Malformed definitions entries m) → parts entries = before ++ u :: after →
      (∀ v ∈ before, ∃ q node, readSchema follow v q = .ok node) → Beneath entries d u →
      readSchema follow u (d.below path) = .error e → Fails follow entries path e

section Reading

variable {follow : Follow (Except Failure)} {e : Failure}

theorem readVariants_stops {place : String} {index : Nat} {variants : List Value}
    (h : readVariants follow place index variants = .error e) :
    ∃ before u after, variants = before ++ u :: after ∧
      (∀ v ∈ before, ∃ path node, readSchema follow v path = .ok node) ∧
      readSchema follow u s!"{place}/{index + before.length}" = .error e := by
  induction variants generalizing index with
  | nil => simp [readVariants] at h
  | cons v rest ih =>
    rw [readVariants, bind_eq_error_iff] at h
    rcases h with h | ⟨node, hnode, h⟩
    · exact ⟨[], v, rest, rfl, by simp, h⟩
    · rcases bind_eq_error_iff.mp h with h | ⟨nodes, _, h⟩
      · obtain ⟨before, u, after, rfl, hbefore, hu⟩ := ih h
        refine ⟨v :: before, u, after, rfl, List.forall_mem_cons.mpr ⟨⟨_, node, hnode⟩, hbefore⟩, ?_⟩
        rw [List.length_cons, Nat.add_comm before.length, ← Nat.add_assoc]
        exact hu
      · cases h

theorem readProperties_stops {required : List String} {place : String} {properties : Entries}
    (h : readProperties follow required place properties = .error e) :
    ∃ before name u after, properties = before ++ (name, u) :: after ∧
      (∀ v ∈ before.map (·.2), ∃ path node, readSchema follow v path = .ok node) ∧
      readSchema follow u s!"{place}/properties/{name}" = .error e := by
  induction properties with
  | nil => simp [readProperties] at h
  | cons entry rest ih =>
    obtain ⟨name, v⟩ := entry
    rw [readProperties, bind_eq_error_iff] at h
    rcases h with h | ⟨node, hnode, h⟩
    · exact ⟨[], name, v, rest, rfl, by simp, h⟩
    · rcases bind_eq_error_iff.mp h with h | ⟨shape, _, h⟩
      · obtain ⟨before, other, u, after, rfl, hbefore, hu⟩ := ih h
        exact ⟨(name, v) :: before, other, u, after, rfl,
          List.forall_mem_cons.mpr ⟨⟨_, node, hnode⟩, hbefore⟩, hu⟩
      · cases h

variable {entries : Entries} {path : String}

theorem readUnion_fails {keyword : String} {variants : Value} (hf : formOf entries = .union keyword variants)
    (h : readUnion follow entries path s!"{path}/{keyword}" variants = .error e) :
    Fails follow entries path e := by
  have hforeign (hv : ∀ items, variants ≠ .list items) : Fails follow entries path e := by
    rw [readUnion_of_not_list _ _ _ _ hv, ofExcept_eq] at h
    rcases bind_eq_error_iff.mp h with h | ⟨nodes, -, h⟩
    · rcases readForeign_error h with ⟨hnone, rfl⟩ | ⟨first, more, helements, rfl⟩
      · exact .misuse fun definitions => .variants hf hnone
      · rw [below_lone rfl 0]
        exact .variants hf hv helements
    · cases h
  cases variants with
  | list variants =>
    have hm (definitions : Value) := not_malformed_union definitions hf
    have hp : parts entries = variantsRead variants := by simp only [parts, hf]
    rw [variantsRead] at hp
    rw [readUnion_list] at h
    split at h
    · rename_i u hl
      rw [hl] at hp
      rcases bind_eq_error_iff.mp h with h | ⟨node, -, h⟩
      · obtain ⟨index, hindex⟩ := List.mem_iff_getElem?.mp (mem_of_loneVariant? hl)
        have hsplit : parts entries = [] ++ u :: [] := hp
        rw [below_lone rfl index] at h
        exact .part hm hsplit (by simp) (.lone hf hl hindex) h
      · cases h
    · rename_i hl
      rw [hl] at hp
      rcases bind_eq_error_iff.mp h with h | ⟨nodes, -, h⟩
      · obtain ⟨before, u, after, rfl, hbefore, hu⟩ := readVariants_stops h
        rw [Nat.zero_add, below_variant rfl] at hu
        exact .part hm hp hbefore (.variant hf hl (by simp)) hu
      · cases h
  | _ => exact hforeign (by simp)

theorem readBody_fails {body : Body} {nullable : Bool} (hf : formOf entries = .body body nullable)
    (h : readBody follow entries path body = .error e) : Fails follow entries path e := by
  cases body with
  | object =>
    rw [readBody_object, ofExcept_eq] at h
    rcases bind_eq_error_iff.mp h with h | ⟨required, hrequired, h⟩
    · unfold requiredNames at h
      split at h
      · cases h
        exact .misuse fun definitions => .required hf ‹_›
      · rename_i names hnames
        split at h
        · cases h
        · rename_i hkeys
          cases h
          exact .misuse fun definitions => .requiredKeys hf hnames (Bool.eq_false_iff.mpr hkeys)
    · split at h
      · cases h
      · rename_i properties hproperties
        have hm (definitions : Value) := not_malformed_object definitions hf hrequired hproperties
        have hp : parts entries = properties.map (·.2) := by simp only [parts, hf, hproperties]
        rcases bind_eq_error_iff.mp h with h | ⟨shape, -, h⟩
        · obtain ⟨before, name, u, after, rfl, hbefore, hu⟩ := readProperties_stops h
          rw [List.map_append, List.map_cons] at hp
          rw [below_property] at hu
          exact .part hm hp hbefore (.property hf hproperties (by simp)) hu
        · cases h
      · rename_i v hno hproperties
        cases h
        exact .misuse fun definitions => .properties hf hrequired hproperties hno
  | array =>
    rw [readBody_array] at h
    split at h
    · cases h
    · cases h
    · rename_i items hi
      cases h
      exact .fault (.tupleArray hf hi)
    · rename_i items hn hl hi
      have hsplit : parts entries = [] ++ items :: [] := by simp only [parts, hf, hi, List.nil_append]
      rcases bind_eq_error_iff.mp h with h | ⟨item, -, h⟩
      · rw [below_items] at h
        exact .part (fun definitions => not_malformed_array definitions hf) hsplit (by simp)
          (.items hf hi hn hl) h
      · cases h
  | text =>
    rw [readBody, ofExcept_eq] at h
    unfold textNode at h
    split at h
    · rename_i hkey
      cases h
      exact .misuse fun definitions => .format hf (by simpa using hkey)
    · split at h <;> cases h
  | number => simp [readBody] at h
  | boolean => simp [readBody] at h
  | any => simp [readBody] at h

theorem readSchema_fails (h : readSchema follow (.record entries) path = .error e) :
    Fails follow entries path e := by
  rw [readSchema_record] at h
  split at h
  · exact .reference ‹_› h
  · cases h
  · exact readUnion_fails ‹_› h
  · rename_i values hf
    rw [ofExcept_eq] at h
    rcases bind_eq_error_iff.mp h with h | ⟨node, -, h⟩
    · unfold enumNode at h
      split at h
      · cases h
        exact .misuse fun definitions => .values hf ‹_›
      · cases h
    · cases h
  · rename_i types hf
    cases h
    exact .fault (.severalTypes hf)
  · rename_i body nullable hf
    rcases bind_eq_error_iff.mp h with h | ⟨node, -, h⟩
    · exact readBody_fails hf h
    · cases h

end Reading

end SchemaCompiler.Schema
