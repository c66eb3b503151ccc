import SchemaCompiler.Proofs.Schema.Inlining

namespace SchemaCompiler.Schema

open Outcome
open Value (valueAt? entryOrNull)

def Form.orNullable (nullable : Bool) : Form → Form
  | .body shape own => .body shape (nullable || own)
  | form => form

section Forms

variable (siblings entries : Entries)

theorem statedTypes_overlaid : statedTypes (overlaid siblings entries) =
    ((statedTypes entries).1,
      (entryOrNull "nullable" siblings).truthy || (statedTypes entries).2) := by
  unfold statedTypes
  have ht : entryOrNull "type" (overlaid siblings entries) = entryOrNull "type" entries := by
    rw [entryOrNull, valueAt?_overlaid_other _ _ _ (by decide), entryOrNull]
  rw [ht, nullable_overlaid]
  split
  · simp only [Bool.or_assoc]
  · rfl

theorem bodyOf_overlaid (type : Value) :
    bodyOf (overlaid siblings entries) type = bodyOf entries type := by
  unfold bodyOf
  rw [valueAt?_overlaid_other _ _ _ (by decide)]

theorem formOf_overlaid : formOf (overlaid siblings entries) =
    (formOf entries).orNullable (entryOrNull "nullable" siblings).truthy := by
  unfold formOf
  rw [valueAt?_overlaid_other _ _ "$ref" (by decide),
    valueAt?_overlaid_other _ _ "const" (by decide),
    valueAt?_overlaid_other _ _ "oneOf" (by decide),
    valueAt?_overlaid_other _ _ "anyOf" (by decide),
    valueAt?_overlaid_other _ _ "enum" (by decide),
    statedTypes_overlaid]
  split
  · rfl
  · rfl
  · rfl
  · rfl
  · rfl
  · obtain ⟨types, nullable⟩ := statedTypes entries
    rcases types with _ | ⟨first, _ | ⟨second, rest⟩⟩
    · simp only [Form.orNullable, bodyOf_overlaid]
    · simp only [Form.orNullable, bodyOf_overlaid]
    · rfl

end Forms

section Nodes

variable (siblings entries : Entries)

theorem marked_true : marked entries (.bool true) = .bool true := by
  unfold marked
  exact ite_self _

theorem overlay_eq_mapNotes (node : Node) : overlay siblings node = node.mapNotes fun a =>
    { a with
      description := (valueAt? "description" siblings).getD a.description
      default := (valueAt? "default" siblings).getD a.default
      nullable := marked siblings a.nullable } :=
  Node.mapNotes_mapNotes _ _ node

theorem overlay_annotate (path : String) (node : Node) :
    overlay siblings (annotate entries path node) = annotate (overlaid siblings entries) path node := by
  rw [overlay_eq_mapNotes, annotate, Node.mapNotes_mapNotes, annotate]
  congr 1
  funext a
  simp only [entryOrNull, valueAt?_overlaid_description, valueAt?_overlaid_default, marked_overlaid,
    Option.getD_or]

theorem overlay_overlayTexts (node : Node) :
    overlay siblings (overlayTexts entries node.asNullable) =
      overlayTexts (overlaid siblings entries) node.asNullable := by
  rw [overlay_eq_mapNotes, overlayTexts, overlayTexts, Node.asNullable]
  simp only [Node.mapNotes_mapNotes, valueAt?_overlaid_description, valueAt?_overlaid_default,
    Option.getD_or, marked_true]

theorem overlay_overlay (node : Node) :
    overlay siblings (overlay entries node) = overlay (overlaid siblings entries) node := by
  simp only [overlay_eq_mapNotes, Node.mapNotes_mapNotes, valueAt?_overlaid_description,
    valueAt?_overlaid_default, marked_overlaid, Option.getD_or]

theorem overlay_body (path : String) (node : Node) (own : Bool) :
    overlay siblings
        (if own then (annotate entries path node).asNullable else annotate entries path node) =
      if (entryOrNull "nullable" siblings).truthy || own then
        (annotate (overlaid siblings entries) path node).asNullable
      else annotate (overlaid siblings entries) path node := by
  cases own with
  | true =>
    rw [if_pos rfl, Bool.or_true, if_pos rfl, overlay_eq_mapNotes, annotate, annotate, Node.asNullable]
    simp only [Node.mapNotes_mapNotes, entryOrNull, valueAt?_overlaid_description,
      valueAt?_overlaid_default, Option.getD_or, marked_true]
  | false =>
    rw [if_neg (by simp), Bool.or_false, overlay_annotate]
    split
    · rename_i h
      rw [annotate, Node.asNullable, Node.mapNotes_mapNotes]
      simp only [marked, nullable_overlaid, h, Bool.true_or, if_true]
    · rfl

end Nodes

section Reading

variable (follow : Follow (Except Failure)) (siblings entries : Entries) (path : String)

theorem readBody_of_same {entries entries' : Entries} (body : Body)
    (h : ∀ key ∈ ["required", "properties", "items", "format"],
      valueAt? key entries' = valueAt? key entries) :
    readBody follow entries' path body = readBody follow entries path body := by
  cases body with
  | object =>
    rw [readBody_object, readBody_object, requiredNames, requiredNames, h "required" (by simp),
      h "properties" (by simp)]
  | array => rw [readBody_array, readBody_array, h "items" (by simp)]
  | text => rw [readBody, readBody, entryOrNull, entryOrNull, h "format" (by simp)]
  | number isInteger => rw [readBody, readBody]
  | boolean => rw [readBody, readBody]
  | any => rw [readBody, readBody]

theorem readBody_overlaid (body : Body) :
    readBody follow (overlaid siblings entries) path body = readBody follow entries path body := by
  apply readBody_of_same
  intro key hkey
  apply valueAt?_overlaid_other
  revert key
  decide

theorem readUnion_overlaid (place : String) (variants : Value) :
    readUnion follow (overlaid siblings entries) path place variants =
      (readUnion follow entries path place variants).map (overlay siblings) := by
  cases variants with
  | list variants =>
    rw [readUnion_list, readUnion_list]
    split
    · rename_i v hv
      cases readSchema follow v s!"{place}/0" with
      | ok node => exact congrArg Except.ok (overlay_overlayTexts siblings entries node).symm
      | error e => rfl
    · cases readVariants follow place 0 variants with
      | ok nodes => exact congrArg Except.ok (overlay_annotate siblings entries path _).symm
      | error e => rfl
  | _ =>
    rw [readUnion_of_not_list _ _ _ _ (by simp), readUnion_of_not_list _ _ _ _ (by simp), ofExcept_eq]
    cases readForeign _ place with
    | ok nodes => exact congrArg Except.ok (overlay_annotate siblings entries path _).symm
    | error e => rfl

theorem readSchema_overlaid :
    readSchema follow (.record (overlaid siblings entries)) path =
      (readSchema follow (.record entries) path).map (overlay siblings) := by
  rw [readSchema_record, readSchema_record, formOf_overlaid]
  cases formOf entries with
  | reference target =>
    cases target with
    | text reference =>
      dsimp only [Form.orNullable, readReference]
      cases follow reference path with
      | ok node => exact congrArg Except.ok (overlay_overlay siblings entries node).symm
      | error e => rfl
    | _ => rfl
  | constant value => exact congrArg Except.ok (overlay_annotate siblings entries path _).symm
  | union keyword variants => exact readUnion_overlaid follow siblings entries path _ variants
  | enum values =>
    dsimp only [Form.orNullable]
    rw [ofExcept_eq]
    cases enumNode values with
    | ok node => exact congrArg Except.ok (overlay_annotate siblings entries path node).symm
    | error e => rfl
  | mixed types => rfl
  | body body own =>
    dsimp only [Form.orNullable]
    rw [readBody_overlaid]
    cases readBody follow entries path body with
    | ok node => exact congrArg Except.ok (overlay_body siblings entries path node own).symm
    | error e => rfl

end Reading

end SchemaCompiler.Schema
