import SchemaCompiler.Proofs.Schema.Parts
import SchemaCompiler.Proofs.Model.Easing

namespace SchemaCompiler.Schema

open Outcome
open Value (valueAt? entryOrNull putEntry)

section Bare

variable {n : Node} {entries : Entries}

theorem bare_mapNotes (h : n.Bare) {f : Annotations → Annotations}
    (hf : ∀ a, Flagged a → Flagged (f a)) : (n.mapNotes f).Bare := by
  obtain ⟨hw, a, ha, hflag⟩ := h
  refine ⟨?_, f a, ?_, hf a hflag⟩
  · cases n with
    | optional b inner => cases hw
    | _ => rfl
  · rw [Node.notes?_mapNotes, ha]
    rfl

theorem flagged_marked {a : Annotations} (h : Flagged a) : ∃ b, marked entries a.nullable = .bool b := by
  obtain ⟨b, hb⟩ := h
  rw [marked, hb]
  split
  · exact ⟨true, rfl⟩
  · exact ⟨b, rfl⟩

theorem bare_asNullable (h : n.Bare) : n.asNullable.Bare := bare_mapNotes h fun _ _ => ⟨true, rfl⟩

theorem bare_annotate (entries : Entries) (path : String) (h : n.Bare) : (annotate entries path n).Bare :=
  bare_mapNotes h fun _ ha => flagged_marked ha

theorem bare_overlayTexts (h : n.Bare) : (overlayTexts entries n).Bare := bare_mapNotes h fun _ ha => ha

theorem bare_overlay (h : n.Bare) : (overlay entries n).Bare :=
  bare_mapNotes (bare_overlayTexts h) fun _ ha => flagged_marked ha

variable {follow : Follow (Except Failure)}

theorem bare_enumNode {values : Value} (h : enumNode values = .ok n) : n.Bare := by
  unfold enumNode at h
  split at h
  · cases h
  · cases h
    exact ⟨rfl, _, rfl, _, rfl⟩

theorem bare_textNode {format : Value} (h : textNode format = .ok n) : n.Bare := by
  unfold textNode at h
  split at h
  · cases h
  · split at h
    · split at h <;> cases h <;> exact ⟨rfl, _, rfl, false, rfl⟩
    · cases h
      exact ⟨rfl, _, rfl, false, rfl⟩

theorem bare_readBody {path : String} {body : Body} (h : readBody follow entries path body = .ok n) :
    n.Bare := by
  have hplain {m : Node} (hw : m.isWrapped = false) (hm : m.notes? = some {}) (hn : Except.ok m = (Except.ok n : Except Failure Node)) :
      n.Bare := by
    cases hn
    exact ⟨hw, _, hm, false, rfl⟩
  cases body with
  | object =>
    rw [readBody_object, ofExcept_eq] at h
    obtain ⟨required, -, h⟩ := bind_eq_ok_iff.mp h
    split at h
    · exact hplain rfl rfl h
    · obtain ⟨shape, -, h⟩ := bind_eq_ok_iff.mp h
      exact hplain rfl rfl h
    · cases h
  | array =>
    rw [readBody_array] at h
    split at h
    · exact hplain rfl rfl h
    · exact hplain rfl rfl h
    · cases h
    · obtain ⟨item, -, h⟩ := bind_eq_ok_iff.mp h
      exact hplain rfl rfl h
  | text =>
    rw [readBody, ofExcept_eq] at h
    exact bare_textNode h
  | number isInteger =>
    rw [readBody] at h
    exact hplain rfl rfl h
  | boolean =>
    rw [readBody] at h
    exact hplain rfl rfl h
  | any =>
    rw [readBody] at h
    exact hplain rfl rfl h

theorem bare_readUnion {path place : String} {variants : Value}
    (hlone : ∀ items v, variants = .list items → loneVariant? items = some v → ∀ p m,
      readSchema follow v p = .ok m → m.Bare)
    (h : readUnion follow entries path place variants = .ok n) : n.Bare := by
  have hunion (nodes : List Node) : (annotate entries path (.union {} nodes)).Bare :=
    bare_annotate entries path ⟨rfl, _, rfl, false, rfl⟩
  cases variants with
  | list items =>
    rw [readUnion_list] at h
    split at h
    · rename_i v hv
      obtain ⟨inner, hinner, h⟩ := bind_eq_ok_iff.mp h
      cases h
      exact bare_overlayTexts (bare_asNullable (hlone items v rfl hv _ _ hinner))
    · obtain ⟨nodes, -, h⟩ := bind_eq_ok_iff.mp h
      cases h
      exact hunion nodes
  | _ =>
    rw [readUnion_of_not_list _ _ _ _ (by simp)] at h
    obtain ⟨nodes, -, h⟩ := bind_eq_ok_iff.mp h
    cases h
    exact hunion nodes

theorem bare_readSchema (hfollow : ∀ reference path m, follow reference path = .ok m → m.Bare) {v : Value}
    {path : String} (h : readSchema follow v path = .ok n) : n.Bare := by
  induction v using parts_induction generalizing path n with
  | other v hv =>
    rw [readSchema_of_not_record _ hv] at h
    cases h
  | record entries ih =>
    rw [readSchema_record] at h
    cases hf : formOf entries with
    | reference target =>
      rw [hf] at h
      cases target with
      | text reference =>
        obtain ⟨m, hm, h⟩ := bind_eq_ok_iff.mp h
        cases h
        exact bare_overlay (hfollow _ _ _ hm)
      | _ => cases h
    | constant value =>
      rw [hf] at h
      cases h
      exact bare_annotate entries path ⟨rfl, _, rfl, false, rfl⟩
    | union keyword variants =>
      rw [hf] at h
      refine bare_readUnion (fun items u hitems hu p m hm => ih u ?_ hm) h
      subst hitems
      simp [parts, hf, variantsRead, hu]
    | enum values =>
      rw [hf] at h
      obtain ⟨m, hm, h⟩ := bind_eq_ok_iff.mp h
      cases h
      rw [ofExcept_eq] at hm
      exact bare_annotate entries path (bare_enumNode hm)
    | mixed types =>
      rw [hf] at h
      cases h
    | body body nullable =>
      rw [hf] at h
      obtain ⟨m, hm, h⟩ := bind_eq_ok_iff.mp h
      have hm := bare_annotate entries path (bare_readBody hm)
      cases nullable <;> cases h
      · exact hm
      · exact bare_asNullable hm

theorem bare_expand (definitions : Value) (busy : List String) {reference path : String}
    (h : expand definitions busy reference path = .ok n) : n.Bare := by
  -- The definition that a reference leads to may be larger, but with it one more is busy.
  induction hr : remaining definitions busy using Nat.strongRecOn generalizing busy reference path n with
  | ind r ih =>
    rcases expand_cases definitions busy reference path with ⟨e, he, -⟩ | ⟨schema, -, hl, hb, hread⟩
    · cases he.symm.trans h
    · refine bare_readSchema (fun other p m hm => ih _ ?_ _ hm rfl) (hread.symm.trans h)
      rw [← hr]
      exact remaining_lt hl hb

end Bare

def relaxed (k : String) (document : Entries) : Entries :=
  match valueAt? "required" document with
  | some (.list names) => putEntry "required" (.list (names.filter (· ≠ .text k))) document
  | _ => document

section Relaxed

variable {document : Entries} {names : List String} {k : String}

theorem valueAt?_relaxed {key : String} (h : key ≠ "required") :
    valueAt? key (relaxed k document) = valueAt? key document := by
  unfold relaxed
  split
  · exact Value.valueAt?_putEntry_other _ _ h
  · rfl

theorem entryOrNull_relaxed {key : String} (h : key ≠ "required") :
    entryOrNull key (relaxed k document) = entryOrNull key document := by
  rw [entryOrNull, entryOrNull, valueAt?_relaxed h]

theorem statedTypes_relaxed : statedTypes (relaxed k document) = statedTypes document := by
  unfold statedTypes
  rw [entryOrNull_relaxed (by decide), entryOrNull_relaxed (by decide)]

theorem formOf_relaxed : formOf (relaxed k document) = formOf document := by
  have hbody (type : Value) : bodyOf (relaxed k document) type = bodyOf document type := by
    unfold bodyOf
    rw [valueAt?_relaxed (by decide)]
  unfold formOf
  simp only [statedTypes_relaxed, hbody]
  rw [valueAt?_relaxed (by decide), valueAt?_relaxed (by decide), valueAt?_relaxed (by decide),
    valueAt?_relaxed (by decide), valueAt?_relaxed (by decide)]

theorem annotate_relaxed (path : String) : annotate (relaxed k document) path = annotate document path := by
  funext n
  unfold annotate marked
  rw [entryOrNull_relaxed (by decide), entryOrNull_relaxed (by decide), entryOrNull_relaxed (by decide)]

theorem definitions_relaxed : definitions (relaxed k document) = definitions document := by
  unfold definitions
  rw [entryOrNull_relaxed (by decide), entryOrNull_relaxed (by decide)]

theorem requiredNames_texts (h : valueAt? "required" document = some (.list (names.map .text))) :
    requiredNames document = .ok names := by
  have hkeys : (names.map Value.text).all Value.isKey = true := by simp [Value.isKey]
  have htexts : (names.map Value.text).filterMap Value.text? = names := by
    rw [List.filterMap_map]
    exact List.filterMap_some
  rw [requiredNames, h, Option.getD_some, Value.elements?]
  dsimp only
  rw [if_pos hkeys, htexts]

theorem requiredNames_relaxed (h : valueAt? "required" document = some (.list (names.map .text))) :
    requiredNames (relaxed k document) = .ok (names.filter (· ≠ k)) := by
  apply requiredNames_texts
  rw [relaxed, h]
  dsimp only
  rw [Value.valueAt?_putEntry_same, List.filter_map]
  simp [Function.comp_def]

end Relaxed

section Reading

variable {follow : Follow (Except Failure)} {k : String}

def EasedFields (k : String) (shape eased : List (Value × Node)) : Prop :=
  List.Forall₂ (Eases (.text k)) shape eased ∧ ∀ f ∈ shape, f.1 = .text k → f.2.Bare

theorem EasedFields.nil : EasedFields k [] [] := ⟨.nil, fun _ hf => absurd hf List.not_mem_nil⟩

theorem readProperties_relaxed (hfollow : ∀ reference path m, follow reference path = .ok m → m.Bare)
    {required : List String} (hk : k ∈ required) (path : String) (properties : Entries) :
    Both (EasedFields k) (readProperties follow required path properties)
      (readProperties follow (required.filter (· ≠ k)) path properties) := by
  induction properties with
  | nil =>
    rw [readProperties, readProperties]
    exact .ok .nil
  | cons entry rest ih =>
    obtain ⟨name, schema⟩ := entry
    rw [readProperties, readProperties]
    cases hn : readSchema follow schema s!"{path}/properties/{name}" with
    | error e => exact .error e
    | ok n =>
      rw [ok_bind, ok_bind]
      refine ih.bind fun shape eased h => ?_
      obtain ⟨heased, hbare⟩ := h
      refine .ok ⟨.cons ⟨rfl, ?_⟩ heased, ?_⟩
      · by_cases hname : name = k
        · subst hname
          rw [if_pos rfl, if_neg (by simp), if_pos hk]
          exact ⟨_, ⟨rfl, rfl, rfl⟩, rfl⟩
        · rw [if_neg (by simpa using hname)]
          simp [List.mem_filter, hname]
      · intro f hf hkey
        rcases List.mem_cons.mp hf with rfl | hf
        · cases hkey
          rw [if_pos hk]
          exact bare_readSchema hfollow hn
        · exact hbare f hf hkey

def fieldsRead (document : Entries) (required : List String) : Except Failure (List (Value × Node)) :=
  match valueAt? "properties" document with
  | none => .ok []
  | some (.record properties) => readProperties (expand (definitions document) []) required "#" properties
  | some _ => misused .notRecord

variable {document : Entries} {nullable : Bool}

theorem readDocument_object {required : List String} (hform : formOf document = .body .object nullable)
    (hrequired : requiredNames document = .ok required) :
    readDocument (.record document) = do
      let shape ← fieldsRead document required
      let node := annotate document "#" (.object {} shape)
      return if nullable then node.asNullable else node := by
  rw [readDocument, readSchema_record, hform]
  dsimp only
  rw [readBody_object, ofExcept_eq, hrequired, definitionsOf, ok_bind, fieldsRead]
  cases valueAt? "properties" document with
  | none => rfl
  | some v =>
    cases v with
    | record properties =>
      dsimp only
      rw [bind_assoc]
      rfl
    | _ => rfl

theorem fieldsRead_relaxed {required : List String} (hk : k ∈ required) :
    Both (EasedFields k) (fieldsRead document required)
      (fieldsRead (relaxed k document) (required.filter (· ≠ k))) := by
  unfold fieldsRead
  rw [valueAt?_relaxed (by decide), definitions_relaxed]
  split
  · exact .ok .nil
  · exact readProperties_relaxed (fun _ _ _ h => bare_expand _ _ h) hk "#" _
  · exact .error _

theorem readDocument_relaxed {names : List String} (hform : formOf document = .body .object nullable)
    (hnames : valueAt? "required" document = some (.list (names.map .text))) (hk : k ∈ names) :
    Both (fun n n' => ∃ a shape eased, n = .object a shape ∧ n' = .object a eased ∧ EasedFields k shape eased)
      (readDocument (.record document)) (readDocument (.record (relaxed k document))) := by
  rw [readDocument_object hform (requiredNames_texts hnames),
    readDocument_object (formOf_relaxed.trans hform) (requiredNames_relaxed hnames), annotate_relaxed]
  refine (fieldsRead_relaxed hk).bind fun shape eased h => ?_
  cases nullable <;> exact .ok ⟨_, shape, eased, rfl, rfl, h⟩

end Reading

end SchemaCompiler.Schema
