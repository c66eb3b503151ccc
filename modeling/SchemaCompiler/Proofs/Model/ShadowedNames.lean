import Mathlib.Data.List.Basic
import SchemaCompiler.Interface.Description
import SchemaCompiler.Proofs.Interface.Rendering
import SchemaCompiler.Proofs.Model.Instances

namespace SchemaCompiler

open Work Node

def ReservedKey.names : ReservedKey → List String
  | .layout => ["__slots__"]
  | .definition => ["__qualname__", "__classcell__"]
  | .source => ["__schema__"]
  | .description => ["__model_description__"]
  | .documentation => ["__doc__"]
  | .home => ["__module__"]
  | .fieldList => ["__graphql_fields__"]
  | .derivation => ["__init_subclass__"]
  | .allocation => ["__new__"]
  | .construction => ["__init__"]
  | .printing => ["__repr__"]
  | .comparison => ["__eq__"]
  | .assignment => ["__setattr__"]
  | .deletion => ["__delattr__"]
  | .reading => ["__getattribute__"]
  | .fallback => ["__getattr__"]
  | .storage => ["__dict__"]

theorem ReservedKey.ofKey?_iff {s : String} {part : ReservedKey} :
    ofKey? s = some part ↔ s ∈ part.names := by
  constructor
  · intro h
    unfold ofKey? at h
    split at h <;> cases h <;> decide
  · intro h
    cases part <;> simp only [names, List.mem_cons, List.not_mem_nil, or_false] at h <;>
      rcases h with rfl | rfl <;> rfl

theorem any_reserved {keys : List String} (part : ReservedKey) :
    ((keys.map Value.text).any fun key => ReservedKey.ofValue? key = some part) = false ↔
      keys.Disjoint part.names := by
  rw [List.any_map, List.any_eq_false]
  constructor
  · intro h k hk hmem
    exact h k hk (decide_eq_true (ReservedKey.ofKey?_iff.mpr hmem))
  · intro h k hk hpart
    exact h hk (ReservedKey.ofKey?_iff.mp (of_decide_eq_true hpart))

def Node.isScalar : Node → Bool
  | .boolean _ | .string _ | .number _ _ => true
  | _ => false

section Fields

theorem classify_scalar (o : Options) (key : Value) {n : Node} (hs : n.isScalar = true) :
    ∃ s a, classify o key n = pure (.ofType (.scalar s) a) ∧
      ∀ v registry t, LeafNamed v registry t key n (.scalar s) := by
  cases n with
  | boolean a => exact ⟨_, a, by rw [classify], fun _ _ _ => .boolean⟩
  | string a => exact ⟨_, a, by rw [classify], fun _ _ _ => .string⟩
  | number a isInteger => exact ⟨_, a, by rw [classify], fun _ _ _ => .number⟩
  | _ => cases hs

theorem compileNode_scalar (o : Options) (key : Value) {n : Node} (hs : n.leaf.isScalar = true)
    (hw : n.wellFormed = true) (w : Workspace) : ∃ d, compileNode o key n w = .ok d w ∧
      ∀ v registry t, FieldNamed v registry t (key, n) d := by
  obtain ⟨g, hg, hclassify⟩ := classify_leaf o key n
  obtain ⟨s, a, hleaf, hnamed⟩ := classify_scalar o key hs
  obtain ⟨hsource, htype⟩ := hg (.ofType (.scalar s) a)
  obtain ⟨default, hdefault⟩ := fieldDefault_wellFormed hw
  obtain ⟨description, hdescription, -⟩ := fieldDescription_wellFormed hw
  rcases compileNode_cases o key n with ⟨kind, -, -, hrun⟩ | ⟨hkind, -⟩
  · have hclosed : (g (.ofType (.scalar s) a)).type.isOpen = false := by
      rw [htype, OutputType.isOpen, leaf_wrap]
      rfl
    have hfield : fieldType o key n (g (.ofType (.scalar s) a)) =
        pure (g (.ofType (.scalar s) a)).type := by
      rw [fieldType, hsource]
      change (if (g (.ofType (.scalar s) a)).type.isOpen = true then _ else _) = _
      rw [hclosed]
      rfl
    have hpure : classify o key n = pure (g (.ofType (.scalar s) a)) := by
      rw [hclassify, hleaf]
      rfl
    rw [hrun, hpure, compileField_pure, hfield, hdefault, hdescription]
    refine ⟨_, rfl, fun v registry t => ⟨rfl, rfl, hdescription, ?_⟩⟩
    change LeafNamed v registry t key n.leaf (g (.ofType (.scalar s) a)).type.leaf
    rw [htype, leaf_wrap]
    exact hnamed v registry t
  · cases n with
    | optional | array | boolean | string | number => exact absurd (hkind _ rfl) (by decide)
    | _ => cases hs

theorem compileShape_scalar (o : Options) {shape : List (Value × Node)}
    (hs : ∀ f ∈ shape, f.2.leaf.isScalar = true ∧ f.2.wellFormed = true) (w : Workspace) :
    ∃ fields, compileShape o shape w = .ok fields w ∧
      ∀ v registry t, List.Forall₂ (FieldNamed v registry t) shape fields := by
  induction shape with
  | nil => exact ⟨[], by rw [compileShape]; rfl, fun _ _ _ => .nil⟩
  | cons f rest ih =>
    obtain ⟨key, node⟩ := f
    obtain ⟨hfirst, hrest⟩ := List.forall_mem_cons.mp hs
    obtain ⟨d, hd, hnamed⟩ := compileNode_scalar o key hfirst.1 hfirst.2 w
    obtain ⟨fields, hfields, hall⟩ := ih hrest
    refine ⟨d :: fields, ?_, fun v registry t => .cons (hnamed v registry t) (hall v registry t)⟩
    rw [compileShape_cons, bind_apply, hd]
    dsimp only
    rw [bind_apply, hfields]
    rfl

end Fields

/-- A model is to be made under a new name from fields of scalar types, themselves or in lists, where
null may stand or not. -/
structure ScalarModel (o : Options) (name : String) (a : Annotations) (shape : List (Value × Node))
    (keys : List String) (w : Workspace) : Prop where
  named : o.name = .text name
  nonempty : name ≠ ""
  noNul : '\x00' ∉ name.toList
  free : (w.registries o.registry).get? (.text name) = none
  described : a.description.isOptionalText = true
  keys : shape.map (·.1) = keys.map .text
  scalar : ∀ f ∈ shape, f.2.leaf.isScalar = true ∧ f.2.wellFormed = true

structure KeysLeave (o : Options) (a : Annotations) (shape : List (Value × Node)) (keys : List String)
    (w v : Workspace) (c : ClassHandle) (m : ModelClass) : Prop where
  whole : v.whole? c = some m
  source : m.source = if "__schema__" ∈ keys then none else some (.object a shape)
  again : compileModel o (.object a shape) v =
    if "__schema__" ∈ keys then .error (.duplicateType o.name) v else .ok c v
  described : (∃ d, m.describe = .ok d ∧ d.description = .value (a.description.orElse (.text ""))) ↔
    "__model_description__" ∉ keys
  rendered : ∀ header described, (described c.name).isOptionalText = true →
    ((∃ text, Sdl.renderTypes v header described [.object c] = .ok text) ↔
      (described c.name).truthy = true ∨ "__model_description__" ∉ keys)
  registered : (w.registries o.registry).entries = [] → ∀ header,
    ((∃ text, Sdl.renderRegistry v header o.registry = .ok text) ↔
      a.description.truthy = true ∨ "__model_description__" ∉ keys)
  made : (∀ given : Values, (given.map (·.1)).Nodup → (∀ p ∈ given, p.1 ∈ keys) →
      ∃ values, m.construct given = .ok values) ↔
    keys.Disjoint ["self", "__init__", "__new__", "__setattr__", "__getattribute__", "__dict__"]

section Definition

variable {keys : List String} {name : String}

theorem modelMisuse?_eq_none_iff (hn : '\x00' ∉ name.toList) :
    modelMisuse? (.text name) (keys.map .text) = none ↔
      keys.Disjoint ["__slots__", "__qualname__", "__classcell__", "__graphql_fields__"] := by
  have hparts : keys.Disjoint ["__slots__", "__qualname__", "__classcell__", "__graphql_fields__"] ↔
      keys.Disjoint ReservedKey.layout.names ∧ keys.Disjoint ReservedKey.definition.names ∧
        keys.Disjoint ReservedKey.fieldList.names := by
    rw [← List.disjoint_append_right, ← List.disjoint_append_right]
    rfl
  have hnul : name.toList.contains '\x00' = false := by simpa using hn
  rw [hparts, ← any_reserved, ← any_reserved, ← any_reserved, modelMisuse?, classMisuse?,
    Option.or_eq_none_iff]
  simp only [hnul, Bool.false_eq_true, if_false, ite_eq_right_iff, reduceCtorEq, imp_false,
    Bool.not_eq_true]
  split
  · rename_i hlayout
    simp [hlayout]
  · rename_i hlayout
    simp [hlayout]

theorem source_eq {name : String} {description : Value} {a : Annotations} {shape : List (Value × Node)}
    {fields : List CompiledField} (hattrs : fields.map (·.slot.attr) = shape.map (·.1))
    (hkeys : shape.map (·.1) = keys.map .text) :
    (classOf name description (.object a shape) fields).source =
      if "__schema__" ∈ keys then none else some (.object a shape) := by
  have hhides : hidesSource shape = decide ("__schema__" ∈ keys) := by
    have hany := congrArg (·.any fun key => ReservedKey.ofValue? key = some .source) hkeys
    rw [List.any_map] at hany
    rw [Bool.eq_iff_iff, decide_eq_true_eq, ← not_iff_not, Bool.not_eq_true, hidesSource]
    rw [show (shape.any fun f => ReservedKey.ofValue? f.1 = some .source) = _ from hany, any_reserved]
    exact List.disjoint_singleton
  rw [source_classOf hattrs, shownSource, hhides]
  simp

end Definition

section Making

variable {c : ModelClass} {keys : List String} (h : Slotted c keys)

theorem storageMisuse?_eq_none_iff :
    c.storageMisuse? = none ↔ c.lacks .storage = false ∧ c.lacks .reading = false := by
  rw [ModelClass.storageMisuse?]
  cases c.lacks .storage <;> cases c.lacks .reading <;> simp

theorem makingMisuse?_eq_none_iff :
    c.makingMisuse? = none ↔ c.lacks .allocation = false ∧ c.lacks .construction = false := by
  rw [ModelClass.makingMisuse?]
  cases c.lacks .allocation <;> cases c.lacks .construction <;> simp

theorem makingMisuse?_of_construct {given values : Values} (hv : c.construct given = .ok values) :
    c.makingMisuse? = none := by
  cases hm : c.makingMisuse? with
  | none => rfl
  | some m =>
    rw [ModelClass.construct, hm] at hv
    cases hv

include h

theorem Slotted.lacks_eq_false (part : ReservedKey) :
    c.lacks part = false ↔ keys.Disjoint part.names := by
  rw [h.lacks_eq, any_reserved]

theorem Slotted.construct_self_ne_ok {v : Value} {values : Values} :
    c.construct [("self", v)] ≠ .ok values := by
  intro hv
  rw [ModelClass.construct, makingMisuse?_of_construct hv, h.model] at hv
  cases hv

theorem Slotted.assign_of_construct {k : String} {v : Value} {values : Values}
    (hv : c.construct [(k, v)] = .ok values) : c.assign k v [] = .ok values := by
  rw [ModelClass.construct, makingMisuse?_of_construct hv, h.model] at hv
  dsimp only at hv
  split at hv
  · cases hv
  split at hv
  · cases hv
  split at hv
  · cases hv
  split at hv
  · rw [ModelClass.assignAll] at hv
    cases ha : c.assign k v [] with
    | error e =>
      rw [ha] at hv
      cases hv
    | ok after =>
      rw [ha] at hv
      exact hv
  · cases hv

theorem Slotted.ready_of_assign {k : String} (hk : k ∈ keys) {v : Value} {before after : Values}
    (ha : c.assign k v before = .ok after) :
    c.lacks .assignment = false ∧ c.storageMisuse? = none := by
  obtain ⟨s, hslot⟩ := Option.isSome_iff_exists.mp (h.slot?_isSome hk)
  rw [ModelClass.assign, hslot] at ha
  cases hlacks : c.lacks .assignment with
  | true =>
    rw [hlacks] at ha
    cases ha
  | false =>
    rw [hlacks] at ha
    cases hs : c.storageMisuse? with
    | none => exact ⟨rfl, rfl⟩
    | some m =>
      rw [hs] at ha
      cases ha

theorem Slotted.construct_ok_iff :
    (∀ given : Values, (given.map (·.1)).Nodup → (∀ p ∈ given, p.1 ∈ keys) →
      ∃ values, c.construct given = .ok values) ↔
    keys.Disjoint ["self", "__init__", "__new__", "__setattr__", "__getattribute__", "__dict__"] := by
  constructor
  · intro hall k hk hmem
    have hone (v : Value) : ∃ values, c.construct [(k, v)] = .ok values :=
      hall [(k, v)] (by simp) (by simpa using hk)
    obtain ⟨values, hv⟩ := hone .null
    obtain ⟨halloc, hconstr⟩ := makingMisuse?_eq_none_iff.mp (makingMisuse?_of_construct hv)
    obtain ⟨hassign, hstorage⟩ := h.ready_of_assign hk (h.assign_of_construct hv)
    obtain ⟨hplace, hread⟩ := storageMisuse?_eq_none_iff.mp hstorage
    rw [h.lacks_eq_false] at halloc hconstr hassign hplace hread
    simp only [List.mem_cons, List.not_mem_nil, or_false] at hmem
    rcases hmem with rfl | rfl | rfl | rfl | rfl | rfl
    · exact h.construct_self_ne_ok hv
    · exact hconstr hk (List.mem_singleton_self _)
    · exact halloc hk (List.mem_singleton_self _)
    · exact hassign hk (List.mem_singleton_self _)
    · exact hread hk (List.mem_singleton_self _)
    · exact hplace hk (List.mem_singleton_self _)
  · intro hd given hnodup hknown
    have hfree (part : ReservedKey)
        (hs : part.names ⊆ ["self", "__init__", "__new__", "__setattr__", "__getattribute__", "__dict__"]) :
        c.lacks part = false :=
      (h.lacks_eq_false part).mpr (List.disjoint_of_subset_right hs hd)
    have hm : c.makingMisuse? = none :=
      makingMisuse?_eq_none_iff.mpr ⟨hfree .allocation (by decide), hfree .construction (by decide)⟩
    have hs : c.storageMisuse? = none :=
      storageMisuse?_eq_none_iff.mpr ⟨hfree .storage (by decide), hfree .reading (by decide)⟩
    have hself : "self" ∉ keys := fun hk => hd hk (by decide)
    exact ⟨given, h.construct_known hm (hfree .assignment (by decide)) hs hself hnodup hknown⟩

end Making

section Showing

variable {v : Workspace} {registry : Key} {t : Title} {shape : List (Value × Node)}
  {fields : List CompiledField}

theorem typeName_of_leaf {type : OutputType} (h : ∃ name, type.leaf.typeName = .ok name) :
    ∃ name, type.typeName = .ok name := by
  induction type with
  | list item ih =>
    obtain ⟨name, hname⟩ := ih h
    exact ⟨"[" ++ name ++ "]", by rw [OutputType.typeName, hname]; rfl⟩
  | _ => exact h

theorem describeFields_ok (h : List.Forall₂ (FieldNamed v registry t) shape fields) :
    ∃ shown, (fields.map (·.toField)).mapM Field.describe = .ok shown := by
  apply Outcome.mapM_ok
  intro f hf
  obtain ⟨d, hd, rfl⟩ := List.mem_map.mp hf
  obtain ⟨_, -, hnamed⟩ := fieldNamed_of_mem h hd
  obtain ⟨name, hname⟩ := typeName_of_leaf hnamed.type.typeName
  exact ⟨_, by rw [Field.describe, show d.toField.type.typeName = .ok name from hname]; rfl⟩

theorem renderFields_ok (h : List.Forall₂ (FieldNamed v registry t) shape fields)
    (hw : ∀ f ∈ shape, f.2.wellFormed = true) :
    ∃ rows, (fields.map (·.toField)).mapM Sdl.renderField = .ok rows := by
  apply Outcome.mapM_ok
  intro f hf
  obtain ⟨d, hd, rfl⟩ := List.mem_map.mp hf
  obtain ⟨f, hmem, hnamed⟩ := fieldNamed_of_mem h hd
  exact renderField_ok (hw f hmem) hnamed

theorem render_ok_iff {m : Sdl.ModelDeclaration} (h : ∃ rows, m.fields.mapM Sdl.renderField = .ok rows) :
    (∃ text, m.render = .ok text) ↔ ∃ text, Sdl.describe "" m.description = .ok text := by
  obtain ⟨rows, hrows⟩ := h
  rw [Sdl.ModelDeclaration.render, hrows]
  cases Sdl.describe "" m.description with
  | error e => exact ⟨nofun, nofun⟩
  | ok text => exact ⟨fun _ => ⟨text, rfl⟩, fun _ => ⟨_, rfl⟩⟩

theorem renderTypes_object_ok_iff (v : Workspace) (header : Value) (described : String → Value)
    (c : ClassHandle) : (∃ text, Sdl.renderTypes v header described [.object c] = .ok text) ↔
      ∃ text, (Sdl.declareModel v described c).render = .ok text := by
  change (∃ text, ([Sdl.declareModel v described c].mapM Sdl.ModelDeclaration.render >>= fun models =>
    pure (Sdl.renderHeader header ++ String.join [] ++ "\n".intercalate models)) = .ok text) ↔ _
  rw [List.mapM_cons]
  cases (Sdl.declareModel v described c).render with
  | error e => exact ⟨nofun, nofun⟩
  | ok text => exact ⟨fun _ => ⟨text, rfl⟩, fun _ => ⟨_, rfl⟩⟩

variable {name : String} {description : Value} {source : Node} {keys : List String}

theorem description_classOf_cases (h : Slotted (classOf name description source fields) keys) :
    ("__model_description__" ∉ keys ∧ (classOf name description source fields).description =
      some (.value (description.orElse (.text "")))) ∨
    ("__model_description__" ∈ keys ∧
      ∃ s, (classOf name description source fields).description = some (.slot s)) := by
  have hlacks := h.lacks_eq_false .description
  rw [show ReservedKey.description.names = ["__model_description__"] from rfl,
    List.disjoint_singleton] at hlacks
  rw [ModelClass.lacks, ModelClass.replacement?] at hlacks
  cases hr : (fields.map (·.slot)).find? (·.part? = some .description) with
  | none =>
    refine .inl ⟨hlacks.mp (congrArg Option.isSome hr), ?_⟩
    unfold classOf
    simp only [hr]
  | some s =>
    refine .inr ⟨?_, s, ?_⟩
    · by_contra hk
      cases (congrArg Option.isSome hr).symm.trans (hlacks.mpr hk)
    · unfold classOf
      simp only [hr]

end Showing

namespace ScalarModel

variable {o : Options} {name : String} {a : Annotations} {shape : List (Value × Node)}
  {keys : List String} {w : Workspace} (h : ScalarModel o name a shape keys w)

include h

theorem stated : statedName? o a.description =
    .ok (some { name := .text name, description := a.description }) := by
  have htruthy : o.name.truthy = true := by
    rw [h.named]
    simpa [Value.truthy] using h.nonempty
  rw [statedName?_of_name htruthy, h.named]

theorem slotted {v : Workspace} {registry : Key} {t : Title} {fields : List CompiledField}
    (hf : List.Forall₂ (FieldNamed v registry t) shape fields) :
    Slotted (classOf name a.description (.object a shape) fields) keys :=
  slotted_classOf ((keys_of_fieldNamed hf).trans h.keys) ((attrs_of_fieldNamed hf).trans h.keys)

theorem compile_eq : ∃ fields, (∀ v registry t, List.Forall₂ (FieldNamed v registry t) shape fields) ∧
    compileModel o (.object a shape) w =
      match modelMisuse? (.text name) (keys.map .text) with
      | some m => .error (.misuse m) w
      | none =>
        let v := w.withModel o.registry name a.description (.object a shape) fields
        .ok ⟨w.classes.length, name⟩
          { v with events := v.events ++ [.modelSynthesized name (keys.map .text)] } := by
  obtain ⟨fields, hfields, hnamed⟩ := compileShape_scalar
    (o.within { name := .text name, description := a.description }) h.scalar w
  refine ⟨fields, hnamed, ?_⟩
  have hkeys : fields.map (·.key) = keys.map .text :=
    (keys_of_fieldNamed (hnamed w o.registry ⟨name, false⟩)).trans h.keys
  rw [compileModel, synthesize_of_free _ _ h.stated rfl h.free, hfields]
  dsimp only
  cases hm : modelMisuse? (.text name) (keys.map .text) with
  | some m => exact defineModel_of_misuse w (hkeys.symm ▸ hm)
  | none =>
    have hfree : ((w.withClass (classOf name a.description (.object a shape) fields)).registries
        o.registry).get? (.text name) = none := h.free
    rw [defineModel_of_text w rfl (hkeys.symm ▸ hm), registerObject_eq, Value.key?_text]
    dsimp only
    rw [hfree, hkeys]
    rfl

theorem compiles_iff : (∃ c v, compileModel o (.object a shape) w = .ok c v) ↔
    keys.Disjoint ["__slots__", "__qualname__", "__classcell__", "__graphql_fields__"] := by
  obtain ⟨fields, -, hrun⟩ := h.compile_eq
  rw [← modelMisuse?_eq_none_iff h.noNul, hrun]
  cases modelMisuse? (.text name) (keys.map .text) with
  | some m => exact ⟨nofun, nofun⟩
  | none => exact ⟨fun _ => rfl, fun _ => ⟨_, _, rfl⟩⟩

theorem compiled {c : ClassHandle} {v : Workspace} (hc : compileModel o (.object a shape) w = .ok c v) :
    ∃ fields, List.Forall₂ (FieldNamed v o.registry ⟨name, false⟩) shape fields ∧ c.name = name ∧
      v.class? c = some (classOf name a.description (.object a shape) fields) ∧
      v.registries o.registry =
        (w.registries o.registry).add ⟨.text name, .object c, a.description⟩ := by
  obtain ⟨fields, hnamed, hrun⟩ := h.compile_eq
  rw [hrun] at hc
  cases hm : modelMisuse? (.text name) (keys.map .text) with
  | some m =>
    rw [hm] at hc
    cases hc
  | none =>
    rw [hm] at hc
    cases hc
    refine ⟨fields, hnamed _ _ _, rfl, List.getElem?_concat_length, ?_⟩
    exact update_same _ _ _

section Compiled

variable {c : ClassHandle} {v : Workspace} {fields : List CompiledField}
  (hf : List.Forall₂ (FieldNamed v o.registry ⟨name, false⟩) shape fields)
  (hclass : v.class? c = some (classOf name a.description (.object a shape) fields))

include hf hclass

theorem again_eq (hheld : (v.registries o.registry).get? (.text name) = some (.object c)) :
    compileModel o (.object a shape) v =
      if "__schema__" ∈ keys then .error (.duplicateType o.name) v else .ok c v := by
  rw [compileModel, synthesize_of_stated _ _ h.stated]
  dsimp only [Value.key?_text]
  rw [hheld]
  dsimp only
  rw [whole?_of_modelBase v hclass rfl, Option.bind_some, source_eq (attrs_of_fieldNamed hf) h.keys,
    h.named]
  by_cases hk : "__schema__" ∈ keys <;> simp [hk]

theorem rendered_iff (hname : c.name = name) (header : Value) (described : String → Value)
    (hd : (described name).isOptionalText = true) :
    (∃ text, Sdl.renderTypes v header described [.object c] = .ok text) ↔
      (described name).truthy = true ∨ "__model_description__" ∉ keys := by
  have hdeclared : Sdl.declareModel v described c =
      ⟨name, if (described name).truthy then .value (described name)
        else ((classOf name a.description (.object a shape) fields).description).getD (.value .null),
        fields.map (·.toField)⟩ := by
    unfold Sdl.declareModel
    rw [hname, whole?_of_modelBase v hclass rfl, hclass]
    rfl
  rw [renderTypes_object_ok_iff, hdeclared,
    render_ok_iff (renderFields_ok hf fun f hmem => (h.scalar f hmem).2)]
  dsimp only
  by_cases htruthy : (described name).truthy = true
  · rw [if_pos htruthy]
    exact ⟨fun _ => .inl htruthy, fun _ => describe_text "" hd⟩
  · rw [if_neg htruthy]
    rcases description_classOf_cases (h.slotted hf) with ⟨hk, hown⟩ | ⟨hk, s, hown⟩
    · rw [hown]
      have htext : (a.description.orElse (.text "")).isOptionalText = true := by
        unfold Value.orElse
        split
        · exact h.described
        · rfl
      exact ⟨fun _ => .inr hk, fun _ => describe_text "" htext⟩
    · rw [hown]
      refine ⟨nofun, fun hor => ?_⟩
      rcases hor with ht | hnot
      · exact absurd ht htruthy
      · exact absurd hk hnot

end Compiled

end ScalarModel

/-- Which of a model's field keys break it, and how far: its class is not made, or is made and is no
longer told by its node, described, rendered or instantiated, for these keys and for no others. -/
theorem field_keys_decide {o : Options} {name : String} {a : Annotations} {shape : List (Value × Node)}
    {keys : List String} {w : Workspace} (h : ScalarModel o name a shape keys w) :
    ((∃ c v, compileModel o (.object a shape) w = .ok c v) ↔
      keys.Disjoint ["__slots__", "__qualname__", "__classcell__", "__graphql_fields__"]) ∧
    ∀ c v, compileModel o (.object a shape) w = .ok c v → ∃ m, KeysLeave o a shape keys w v c m := by
  refine ⟨h.compiles_iff, fun c v hc => ?_⟩
  obtain ⟨fields, hf, hname, hclass, hregistry⟩ := h.compiled hc
  have hheld : (v.registries o.registry).get? (.text name) = some (.object c) := by
    rw [hregistry]
    exact Registry.get?_add_same h.free
  refine ⟨_, whole?_of_modelBase v hclass rfl, source_eq (attrs_of_fieldNamed hf) h.keys,
    h.again_eq hf hclass hheld, ?_, ?_, ?_, (h.slotted hf).construct_ok_iff⟩
  · obtain ⟨shown, hshown⟩ := describeFields_ok hf
    have hfields : (classOf name a.description (.object a shape) fields).fields.mapM Field.describe =
        .ok shown := hshown
    rcases description_classOf_cases (h.slotted hf) with ⟨hk, hown⟩ | ⟨hk, s, hown⟩
    · rw [ModelClass.describe, hown]
      dsimp only
      rw [hfields]
      exact ⟨fun _ => hk, fun _ => ⟨_, rfl, rfl⟩⟩
    · rw [ModelClass.describe, hown]
      dsimp only
      rw [hfields]
      refine ⟨?_, fun hnot => absurd hk hnot⟩
      rintro ⟨d, hd, hvalue⟩
      cases hd
      cases hvalue
  · intro header described hd
    rw [hname] at hd ⊢
    exact h.rendered_iff hf hclass hname header described hd
  · intro hempty header
    have htypes : (v.registries o.registry).types.map (·.toOutput) = [.object c] := by
      rw [hregistry, Registry.types, Registry.add, hempty]
      rfl
    have hgiven : (v.registries o.registry).description (.text name) = a.description := by
      rw [hregistry, Registry.description, Registry.named?, Registry.add, hempty]
      simp
    have hrendered := h.rendered_iff hf hclass hname header
      (fun n => (v.registries o.registry).description (.text n)) (hgiven.symm ▸ h.described)
    rw [hgiven] at hrendered
    unfold Sdl.renderRegistry
    dsimp only
    rw [htypes]
    exact hrendered

def crate (keys : List String) : List (Value × Node) := keys.map fun k => (.text k, .string {})

theorem field_keys_decide_crate : ∃ c v m,
    compileModel (.named (.text "Crate")) (.object {} (crate ["__schema__", "to_dict"])) {} = .ok c v ∧
    v.whole? c = some m ∧ m.source = none ∧
    compileModel (.named (.text "Crate")) (.object {} (crate ["__schema__", "to_dict"])) v =
      .error (.duplicateType (.text "Crate")) v ∧
    ∃ values, m.construct [("to_dict", .int 1)] = .ok values := by
  have h : ScalarModel (.named (.text "Crate")) "Crate" {} (crate ["__schema__", "to_dict"])
      ["__schema__", "to_dict"] {} := {
    named := rfl
    nonempty := by decide
    noNul := by decide
    free := rfl
    described := rfl
    keys := rfl
    scalar := by decide }
  obtain ⟨hcompiles, hleave⟩ := field_keys_decide h
  obtain ⟨c, v, hc⟩ := hcompiles.mpr (by simp)
  obtain ⟨m, hm⟩ := hleave c v hc
  exact ⟨c, v, m, hc, hm.whole, hm.source, hm.again,
    hm.made.mpr (by simp) [("to_dict", .int 1)] (by decide) (by decide)⟩

theorem init_breaks_construction : ∃ c v m,
    compileModel (.named (.text "Crate")) (.object {} (crate ["__init__"])) {} = .ok c v ∧
    v.whole? c = some m ∧
    m.construct [("__init__", .text "x")] = .error (.misuse .operationReplaced) :=
  ⟨⟨0, "Crate"⟩, _, _, rfl, rfl, rfl⟩

end SchemaCompiler
