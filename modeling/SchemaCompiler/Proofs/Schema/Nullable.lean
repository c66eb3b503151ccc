import SchemaCompiler.Proofs.Schema.Placing
import SchemaCompiler.Proofs.Schema.Transparency

namespace SchemaCompiler.Schema

open Outcome
open Node (Alike)
open Value (valueAt? entryOrNull putEntry)

def nullSchema : Value := .record [("type", .text "null")]

def bothOrders {α : Type} (a b : α) : List (List α) := [[a, b], [b, a]]

theorem mem_bothOrders {α : Type} {a b : α} {l : List α} (h : l ∈ bothOrders a b) :
    l = [a, b] ∨ l = [b, a] := by
  simpa [bothOrders] using h

def readingKeywords : List String := ["$ref", "const", "oneOf", "anyOf", "enum"]

section Reading

variable (follow : Follow (Except Failure)) (entries : Entries) (path : String)

theorem readSchema_marked :
    readSchema follow (.record (putEntry "nullable" (.bool true) entries)) path =
      (readSchema follow (.record entries) path).map Node.asNullable := by
  have hoverlay : overlay [("nullable", .bool true)] = Node.asNullable := by
    funext node
    cases node <;> rfl
  rw [← hoverlay]
  exact readSchema_overlaid follow [("nullable", .bool true)] entries path

theorem loneVariant?_bothOrders {v : Value} (hv : isNullVariant v = false) {variants : List Value}
    (h : variants ∈ bothOrders v nullSchema) : loneVariant? variants = some v := by
  have hnull : isNullVariant nullSchema = true := by decide
  rcases mem_bothOrders h with rfl | rfl <;> simp [loneVariant?, hv, hnull]

theorem readSchema_nullVariant {v : Value} (hv : isNullVariant v = false) {keyword : String}
    (hk : keyword = "oneOf" ∨ keyword = "anyOf") {variants : List Value}
    (h : variants ∈ bothOrders v nullSchema) :
    readSchema follow (.record [(keyword, .list variants)]) path =
      (readSchema follow v s!"{path}/{keyword}/0").map Node.asNullable := by
  have hf : formOf [(keyword, .list variants)] = .union keyword (.list variants) := by
    rcases hk with rfl | rfl <;> rfl
  have hbare (node : Node) : overlayTexts [(keyword, .list variants)] node = node := by
    rcases hk with rfl | rfl <;> cases node <;> rfl
  rw [readSchema_union_list hf, loneVariant?_bothOrders hv h]
  simp only [hbare]
  cases readSchema follow v s!"{path}/{keyword}/0" <;> rfl

end Reading

theorem asNullable_asNullable (n : Node) : n.asNullable.asNullable = n.asNullable := by
  cases n <;> rfl

section Types

variable {entries : Entries} {type : String} {types : List Value}

theorem statedTypes_bothOrders (ht : type ≠ "null") (h : types ∈ bothOrders (.text type) (.text "null")) :
    statedTypes (putEntry "type" (.list types) entries) = ([.text type], true) := by
  have hn : (Value.text type ≠ .text "null") := fun he => ht (Value.text.inj he)
  unfold statedTypes
  rw [entryOrNull, entryOrNull, Value.valueAt?_putEntry_same]
  rcases mem_bothOrders h with rfl | rfl <;> simp [hn]

theorem formOf_type (hnone : ∀ key ∈ readingKeywords, valueAt? key entries = none) {nullable : Bool}
    {v : Value} (h : statedTypes entries = ([v], nullable)) :
    formOf entries = .body (bodyOf entries v) nullable := by
  unfold formOf
  rw [hnone "$ref" (by decide), hnone "const" (by decide), hnone "oneOf" (by decide),
    hnone "anyOf" (by decide), hnone "enum" (by decide), h]

theorem readSchema_nullType (follow : Follow (Except Failure)) (path : String)
    (hnone : ∀ key ∈ readingKeywords, valueAt? key entries = none)
    (htype : valueAt? "type" entries = some (.text type)) (ht : type ≠ "null")
    (h : types ∈ bothOrders (.text type) (.text "null")) :
    readSchema follow (.record (putEntry "type" (.list types) entries)) path =
      (readSchema follow (.record entries) path).map Node.asNullable := by
  have hother (key : String) (hkey : key ≠ "type") :
      valueAt? key (putEntry "type" (.list types) entries) = valueAt? key entries :=
    Value.valueAt?_putEntry_other _ _ hkey
  have hstated : statedTypes entries = ([.text type], (entryOrNull "nullable" entries).truthy) := by
    rw [statedTypes, entryOrNull, entryOrNull, htype]
    rfl
  have hkeywords : ∀ key ∈ readingKeywords,
      valueAt? key (putEntry "type" (.list types) entries) = none := by
    intro key hkey
    rw [hother key (by rintro rfl; exact absurd hkey (by decide)), hnone key hkey]
  have hbody : bodyOf (putEntry "type" (.list types) entries) (.text type) = bodyOf entries (.text type) := by
    rw [bodyOf, bodyOf, hother "properties" (by decide)]
  have hread : readBody follow (putEntry "type" (.list types) entries) path (bodyOf entries (.text type)) =
      readBody follow entries path (bodyOf entries (.text type)) := by
    apply readBody_of_same
    intro key hkey
    exact hother key (by rintro rfl; exact absurd hkey (by decide))
  have hnotes (node : Node) :
      annotate (putEntry "type" (.list types) entries) path node = annotate entries path node := by
    unfold annotate marked entryOrNull
    rw [hother "description" (by decide), hother "default" (by decide), hother "nullable" (by decide)]
  rw [readSchema_record, readSchema_record, formOf_type hkeywords (statedTypes_bothOrders ht h),
    formOf_type hnone hstated, hbody]
  dsimp only
  rw [hread]
  simp only [hnotes]
  cases readBody follow entries path (bodyOf entries (.text type)) with
  | error e => rfl
  | ok node =>
    refine congrArg Except.ok ?_
    rw [if_pos trivial]
    split
    · exact (asNullable_asNullable _).symm
    · rfl

end Types

/-- However a schema is made to admit null, the outcome is that of the schema with its node nullable: by
the marker, in a union with null, or among its types. -/
theorem nullable_spellings (definitions : Value) (busy : List String) (entries : Entries) (path : String) :
    let read := readSchema (expand definitions busy)
    let nullable := (read (.record entries) path).map Node.asNullable
    read (.record (putEntry "nullable" (.bool true) entries)) path = nullable ∧
    (entryOrNull "type" entries ≠ .text "null" → ∀ keyword, keyword = "oneOf" ∨ keyword = "anyOf" →
      ∀ variants ∈ bothOrders (.record entries) nullSchema,
        AlikeOutcome Alike nullable (read (.record [(keyword, .list variants)]) path)) ∧
    (∀ type, valueAt? "type" entries = some (.text type) → type ≠ "null" →
      (∀ key ∈ readingKeywords, valueAt? key entries = none) →
      ∀ types ∈ bothOrders (.text type) (.text "null"),
        read (.record (putEntry "type" (.list types) entries)) path = nullable) := by
  refine ⟨readSchema_marked _ entries path, ?_, ?_⟩
  · intro hnull keyword hk variants hvariants
    have hv : isNullVariant (.record entries) = false := decide_eq_false hnull
    rw [readSchema_nullVariant _ path hv hk hvariants]
    have hplace := readSchema_anywhere (expand_anywhere definitions busy) (.record entries) path
      s!"{path}/{keyword}/0"
    exact hplace.map fun _ _ => Node.Alike.asNullable
  · intro type htype ht hnone types htypes
    exact readSchema_nullType _ path hnone htype ht htypes

def label : Entries := [("type", .text "string"), ("description", .text "What it says")]

def nullableLabel (path : String) : Node :=
  .string { description := .text "What it says", nullable := .bool true, path := .text path }

theorem readSchema_label (follow : Follow (Except Failure)) (path : String) :
    (readSchema follow (.record label) path).map Node.asNullable = .ok (nullableLabel path) := by
  rw [readSchema_record]
  change (readBody follow label path .text >>= _).map _ = _
  rw [readBody]
  rfl

theorem nullable_spellings_label :
    readSchema (expand (.record []) []) (.record (putEntry "nullable" (.bool true) label)) "#" =
      .ok (nullableLabel "#") ∧
    (entryOrNull "type" label ≠ .text "null" ∧ AlikeOutcome Alike (.ok (nullableLabel "#"))
      (readSchema (expand (.record []) []) (.record [("anyOf", .list [nullSchema, .record label])]) "#")) ∧
    (valueAt? "type" label = some (.text "string") ∧ "string" ≠ "null" ∧
      (∀ key ∈ readingKeywords, valueAt? key label = none) ∧
      readSchema (expand (.record []) [])
        (.record (putEntry "type" (.list [.text "null", .text "string"]) label)) "#" =
          .ok (nullableLabel "#")) := by
  have hnull : entryOrNull "type" label ≠ .text "null" := by decide
  have hnone : ∀ key ∈ readingKeywords, valueAt? key label = none := by decide
  obtain ⟨marker, union, types⟩ := nullable_spellings (.record []) [] label "#"
  rw [readSchema_label] at marker union types
  refine ⟨marker, ⟨hnull, ?_⟩, rfl, by decide, hnone, ?_⟩
  · exact union hnull "anyOf" (.inr rfl) _ (by simp [bothOrders])
  · exact types "string" rfl (by decide) hnone _ (by simp [bothOrders])

end SchemaCompiler.Schema
