import SchemaCompiler.Proofs.Schema.Alike
import SchemaCompiler.Proofs.Schema.Parts

namespace SchemaCompiler.Schema

open Outcome
open Value (valueAt? entryOrNull putEntry)

def copied (key : String) (siblings entries : Entries) : Entries :=
  match valueAt? key siblings with
  | some v => putEntry key v entries
  | none => entries

def overlaid (siblings entries : Entries) : Entries :=
  let texts := copied "default" siblings (copied "description" siblings entries)
  if (entryOrNull "nullable" siblings).truthy then putEntry "nullable" (.bool true) texts else texts

theorem valueAt?_copied_same (key : String) (siblings entries : Entries) :
    valueAt? key (copied key siblings entries) =
      (valueAt? key siblings).or (valueAt? key entries) := by
  unfold copied
  split
  · rename_i v hv
    rw [hv, Value.valueAt?_putEntry_same, Option.some_or]
  · rename_i hv
    rw [hv, Option.none_or]

theorem valueAt?_copied_other {key other : String} (siblings entries : Entries) (h : other ≠ key) :
    valueAt? other (copied key siblings entries) = valueAt? other entries := by
  unfold copied
  split
  · exact Value.valueAt?_putEntry_other _ _ h
  · rfl

section Overlaid

variable (siblings entries : Entries)

theorem valueAt?_overlaid {key : String} (h : key ≠ "nullable") :
    valueAt? key (overlaid siblings entries) =
      valueAt? key (copied "default" siblings (copied "description" siblings entries)) := by
  unfold overlaid
  dsimp only
  split
  · exact Value.valueAt?_putEntry_other _ _ h
  · rfl

theorem valueAt?_overlaid_other (key : String) (h : key ∉ ["description", "default", "nullable"]) :
    valueAt? key (overlaid siblings entries) = valueAt? key entries := by
  simp only [List.mem_cons, List.not_mem_nil, or_false, not_or] at h
  rw [valueAt?_overlaid siblings entries h.2.2, valueAt?_copied_other _ _ h.2.1,
    valueAt?_copied_other _ _ h.1]

theorem valueAt?_overlaid_description : valueAt? "description" (overlaid siblings entries) =
    (valueAt? "description" siblings).or (valueAt? "description" entries) := by
  rw [valueAt?_overlaid siblings entries (by decide), valueAt?_copied_other _ _ (by decide),
    valueAt?_copied_same]

theorem valueAt?_overlaid_default : valueAt? "default" (overlaid siblings entries) =
    (valueAt? "default" siblings).or (valueAt? "default" entries) := by
  rw [valueAt?_overlaid siblings entries (by decide), valueAt?_copied_same,
    valueAt?_copied_other _ _ (by decide)]

theorem nullable_overlaid : (entryOrNull "nullable" (overlaid siblings entries)).truthy =
    ((entryOrNull "nullable" siblings).truthy || (entryOrNull "nullable" entries).truthy) := by
  unfold overlaid
  dsimp only
  split
  · rename_i h
    rw [entryOrNull, Value.valueAt?_putEntry_same, h]
    rfl
  · rename_i h
    rw [Bool.eq_false_iff.mpr h, Bool.false_or, entryOrNull, valueAt?_copied_other _ _ (by decide),
      valueAt?_copied_other _ _ (by decide)]
    rfl

theorem marked_overlaid (nullable : Value) :
    marked (overlaid siblings entries) nullable = marked siblings (marked entries nullable) := by
  unfold marked
  rw [nullable_overlaid]
  cases (entryOrNull "nullable" siblings).truthy <;> rfl

end Overlaid

mutual

/-- The schema with references replaced by the schemas they resolve to. A reference that resolves to
none stays. -/
def inline (resolve : String → Option Value) : Value → Value
  | .record entries =>
    match valueAt? "$ref" entries with
    | none => .record (inlineEntries resolve entries)
    | some (.text reference) =>
      match resolve reference with
      | some (.record schema) => .record (overlaid entries schema)
      | _ => .record entries
    | some _ => .record entries
  | v => v

def inlineEntries (resolve : String → Option Value) : Entries → Entries
  | [] => []
  | (key, v) :: rest =>
    (key,
      if key = "properties" then inlineProperties resolve v
      else if key = "items" then inline resolve v
      else if key = "oneOf" ∨ key = "anyOf" then inlineVariants resolve v
      else v) :: inlineEntries resolve rest

def inlineProperties (resolve : String → Option Value) : Value → Value
  | .record properties => .record (inlineFields resolve properties)
  | v => v

def inlineFields (resolve : String → Option Value) : Entries → Entries
  | [] => []
  | (name, v) :: rest => (name, inline resolve v) :: inlineFields resolve rest

def inlineVariants (resolve : String → Option Value) : Value → Value
  | .list variants => .list (inlineAll resolve variants)
  | v => v

def inlineAll (resolve : String → Option Value) : List Value → List Value
  | [] => []
  | v :: rest => inline resolve v :: inlineAll resolve rest

end

def resolved (definitions : Value) (busy : List String) (reference : String) : Option Value :=
  if !reference.startsWith "#" then none
  else match _ : lookup definitions (lastSegment reference) with
    | .found schema =>
      if _ : lastSegment reference ∈ busy then none
      else some (inline (resolved definitions (lastSegment reference :: busy)) schema)
    | _ => none
termination_by remaining definitions busy
decreasing_by exact remaining_lt ‹_› ‹_›

def inlineDocument (document : Value) : Value :=
  inline (resolved (definitionsOf document) []) document

def inlineUnder (resolve : String → Option Value) (key : String) (v : Value) : Value :=
  if key = "properties" then inlineProperties resolve v
  else if key = "items" then inline resolve v
  else if key = "oneOf" ∨ key = "anyOf" then inlineVariants resolve v
  else v

section Entries

variable (resolve : String → Option Value)

theorem valueAt?_inlineEntries (key : String) (entries : Entries) :
    valueAt? key (inlineEntries resolve entries) =
      (valueAt? key entries).map (inlineUnder resolve key) := by
  induction entries with
  | nil => rfl
  | cons entry rest ih =>
    obtain ⟨k, v⟩ := entry
    rw [inlineEntries, valueAt?, valueAt?]
    by_cases hk : k = key
    · subst hk
      simp only [if_true, Option.map_some, inlineUnder]
    · rw [if_neg hk, if_neg hk, ih]

theorem valueAt?_inlineEntries_plain (key : String) (entries : Entries)
    (h : key ∉ ["properties", "items", "oneOf", "anyOf"]) :
    valueAt? key (inlineEntries resolve entries) = valueAt? key entries := by
  simp only [List.mem_cons, List.not_mem_nil, or_false, not_or] at h
  obtain ⟨hp, hi, ho, ha⟩ := h
  have hid : inlineUnder resolve key = id := by
    funext v
    simp only [inlineUnder, hp, hi, ho, ha, or_self, if_false, id]
  rw [valueAt?_inlineEntries, hid, Option.map_id_apply]

theorem inlineAll_eq_map (variants : List Value) :
    inlineAll resolve variants = variants.map (inline resolve) := by
  induction variants with
  | nil => rfl
  | cons v rest ih => rw [inlineAll, ih, List.map_cons]

theorem inline_record {entries : Entries} (h : valueAt? "$ref" entries = none) :
    inline resolve (.record entries) = .record (inlineEntries resolve entries) := by
  rw [inline, h]

theorem inline_record_eq_record (entries : Entries) :
    ∃ entries', inline resolve (.record entries) = .record entries' := by
  rw [inline]
  split
  · exact ⟨_, rfl⟩
  · split <;> exact ⟨_, rfl⟩
  · exact ⟨_, rfl⟩

theorem inline_reference {entries schema : Entries} {reference : String}
    (h : valueAt? "$ref" entries = some (.text reference))
    (hr : resolve reference = some (.record schema)) :
    inline resolve (.record entries) = .record (overlaid entries schema) := by
  rw [inline, h]
  simp only [hr]

end Entries

def Form.inlined (resolve : String → Option Value) : Form → Form
  | .union keyword variants => .union keyword (inlineVariants resolve variants)
  | form => form

section Forms

variable (resolve : String → Option Value) (entries : Entries)

theorem statedTypes_inlineEntries :
    statedTypes (inlineEntries resolve entries) = statedTypes entries := by
  unfold statedTypes entryOrNull
  rw [valueAt?_inlineEntries_plain _ "type" _ (by decide),
    valueAt?_inlineEntries_plain _ "nullable" _ (by decide)]

theorem bodyOf_inlineEntries (type : Value) :
    bodyOf (inlineEntries resolve entries) type = bodyOf entries type := by
  unfold bodyOf
  rw [valueAt?_inlineEntries, Option.isSome_map]

theorem formOf_inlineEntries :
    formOf (inlineEntries resolve entries) = (formOf entries).inlined resolve := by
  unfold formOf
  rw [valueAt?_inlineEntries_plain _ "$ref" _ (by decide),
    valueAt?_inlineEntries_plain _ "const" _ (by decide),
    valueAt?_inlineEntries_plain _ "enum" _ (by decide),
    valueAt?_inlineEntries _ "oneOf", valueAt?_inlineEntries _ "anyOf",
    statedTypes_inlineEntries]
  simp only [bodyOf_inlineEntries]
  cases valueAt? "$ref" entries with
  | some target => rfl
  | none =>
    cases valueAt? "const" entries with
    | some value => rfl
    | none =>
      cases valueAt? "oneOf" entries with
      | some variants => rfl
      | none =>
        cases valueAt? "anyOf" entries with
        | some variants => rfl
        | none =>
          cases valueAt? "enum" entries with
          | some values => rfl
          | none =>
            obtain ⟨types, nullable⟩ := statedTypes entries
            rcases types with _ | ⟨first, _ | ⟨second, rest⟩⟩ <;> rfl

theorem annotate_inlineEntries (path : String) (node : Node) :
    annotate (inlineEntries resolve entries) path node = annotate entries path node := by
  unfold annotate marked entryOrNull
  rw [valueAt?_inlineEntries_plain _ "description" _ (by decide),
    valueAt?_inlineEntries_plain _ "default" _ (by decide),
    valueAt?_inlineEntries_plain _ "nullable" _ (by decide)]

theorem overlayTexts_inlineEntries (node : Node) :
    overlayTexts (inlineEntries resolve entries) node = overlayTexts entries node := by
  unfold overlayTexts
  rw [valueAt?_inlineEntries_plain _ "description" _ (by decide),
    valueAt?_inlineEntries_plain _ "default" _ (by decide)]

theorem requiredNames_inlineEntries :
    requiredNames (inlineEntries resolve entries) = requiredNames entries := by
  unfold requiredNames
  rw [valueAt?_inlineEntries_plain _ _ _ (by decide)]

end Forms

theorem resolved_eq {definitions : Value} (schema : Value) {busy : List String} {reference : String}
    (hs : reference.startsWith "#" = true)
    (hl : lookup definitions (lastSegment reference) = .found schema)
    (hb : lastSegment reference ∉ busy) :
    resolved definitions busy reference =
      some (inline (resolved definitions (lastSegment reference :: busy)) schema) := by
  rw [resolved, if_neg (by simp [hs])]
  split
  · rename_i found hf
    rw [hl] at hf
    cases hf
    rw [dif_neg hb]
  · rename_i hf
    exact absurd hl (hf schema)

end SchemaCompiler.Schema
