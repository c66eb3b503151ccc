import SchemaCompiler.Proofs.Model.Fields
import SchemaCompiler.Proofs.Model.Retagged

namespace SchemaCompiler

open Work

namespace Nullability

def eased : Nullability → Nullability
  | .items | .itemsAndList => .itemsAndList
  | _ => .always

end Nullability

def Slot.eased (key : Value) (s : Slot) : Slot :=
  { s with kind := if s.key = key then .optional else s.kind }

def Attribute.eased (key : Value) : Attribute → Attribute
  | .slot s => .slot (s.eased key)
  | a => a

def Field.eased (key default : Value) (f : Field) : Field :=
  { f with
    nullable := if f.name = key then f.nullable.eased else f.nullable
    default := if f.name = key ∧ f.nullable = .items then default else f.default }

def CompiledField.eased (key default : Value) (d : CompiledField) : CompiledField :=
  { d with
    nullable := if d.key = key then d.nullable.eased else d.nullable
    default := if d.key = key ∧ d.nullable = .items then default else d.default
    slot := d.slot.eased key }

def ModelClass.eased (key : Value) (defaults : List Value) (source : Node) (m : ModelClass) : ModelClass :=
  { m with
    home := m.home.eased key
    source := m.source.map fun _ => source
    description := m.description.map (·.eased key)
    documentation := m.documentation.eased key
    slots := m.slots.map (·.eased key)
    fields := List.zipWith (fun default f => f.eased key default) defaults m.fields }

namespace Node

def Bare (n : Node) : Prop := n.isWrapped = false ∧ ∃ a, n.notes? = some a ∧ Flagged a

def ownDefault (n : Node) : Value := (n.notes?.map (·.default)).getD .null

def ownDefaults (shape : List (Value × Node)) : List Value := shape.map (·.2.ownDefault)

theorem Bare.fieldDefault {n : Node} (h : n.Bare) : n.fieldDefault = .ok n.ownDefault := by
  obtain ⟨hw, a, ha, -⟩ := h
  cases n with
  | optional b inner => cases hw
  | plain v => cases ha
  | _ => rfl

theorem Bare.innermost_optional {n : Node} (h : n.Bare) (a : Annotations) :
    (Node.optional a n).innermost = n.innermost := by
  rw [innermost]
  rintro rfl
  obtain ⟨-, b, hb, -⟩ := h
  cases hb

end Node

section Wrapped

variable {c : Classification} {b : Bool} {s : Annotations} {n : Node} {o : Options} {key : Value}

theorem marker_flagged (b d : Bool) : Level.marker { nullable := .bool b, optional := d } = .bool (b || d) :=
  orElse_bool b d

theorem nullability_flagged (h : c.itself = { nullable := .bool b }) :
    c.nullability = if c.itemsOnly then .items else if c.items.any (·.admitsNull) then .itemsAndList
      else .ofBool b := by
  rw [Classification.nullability, h, marker_flagged, Bool.or_false]
  cases b <;> rfl

theorem itemsOnly_flagged (h : c.itself = { nullable := .bool b }) :
    c.itemsOnly = true ↔ c.nullability = .items := by
  rw [nullability_flagged h]
  cases c.itemsOnly with
  | true => simp
  | false =>
    cases c.items.any (·.admitsNull) <;> cases b <;> simp [Nullability.ofBool]

theorem itself_optional (h : c.itself = { nullable := .bool b }) (hs : s.Silent) :
    (c.optional s).itself = { nullable := .bool b, optional := true } := by
  rw [Classification.optional, h, hs.nullable, orElse_bool, Bool.or_false]

theorem itemsOnly_optional (h : c.itself = { nullable := .bool b }) (hs : s.Silent) :
    (c.optional s).itemsOnly = false := by
  rw [Classification.itemsOnly, Level.admitsNull, itself_optional h hs, marker_flagged, Bool.or_true]
  simp [Value.truthy]

theorem nullability_optional (h : c.itself = { nullable := .bool b }) (hs : s.Silent) :
    (c.optional s).nullability = c.nullability.eased := by
  rw [Classification.nullability, itemsOnly_optional h hs, itself_optional h hs, marker_flagged,
    Bool.or_true, nullability_flagged h, Classification.itemsOnly, h, Level.admitsNull, marker_flagged]
  have hitems : (c.optional s).items = c.items := rfl
  rw [hitems]
  cases c.items.any (·.admitsNull) <;> cases b <;> rfl

theorem classify_itself {a : Annotations} (hw : n.isWrapped = false) (ha : n.notes? = some a) :
    Yields (classify o key n) fun c => c.itself = { nullable := a.nullable } := by
  cases n with
  | optional b inner => cases hw
  | plain v => cases ha
  | array b item =>
    cases ha
    rw [classify]
    exact .bind (.any _) fun c _ => .pure rfl
  | object b shape =>
    cases ha
    rw [classify]
    refine .bind (.any _) fun name _ => ?_
    split
    · exact .bind (.any _) fun c _ => .pure rfl
    · exact .bind (.any _) fun c _ => .pure rfl
  | _ =>
    cases ha
    rw [classify]
    exact .pure rfl

theorem fieldType_optional (hn : n.Bare) (c : Classification) :
    fieldType o key (.optional s n) (c.optional s) = fieldType o key n c := by
  unfold fieldType
  rw [hn.innermost_optional]
  rfl

theorem fieldDefault_optional (hs : s.Silent) : (Node.optional s n).fieldDefault = n.fieldDefault := by
  rw [Node.fieldDefault, hs.default]
  rfl

theorem fieldDescription_optional (hs : s.Silent) :
    (Node.optional s n).fieldDescription = n.fieldDescription := by
  rw [Node.fieldDescription, hs.description]
  rfl

theorem compileField_optional (hs : s.Silent) (hn : n.Bare) (kind : Kind) :
    compileField o key (.optional s n) .optional (classify o key (.optional s n)) =
      (do let d ← compileField o key n kind (classify o key n); return d.eased key n.ownDefault) := by
  obtain ⟨hw, a, ha, b, hb⟩ := id hn
  rw [classify]
  unfold compileField
  simp only [bind_assoc, pure_bind]
  refine (classify_itself hw ha).bind_congr fun c hc => ?_
  rw [hb] at hc
  rw [fieldType_optional hn, fieldDefault_optional hs, fieldDescription_optional hs, hn.fieldDefault,
    itemsOnly_optional hc hs, nullability_optional hc hs]
  have hdefault : Work.ofExcept (.ok n.ownDefault) = (pure n.ownDefault : Work Value) := rfl
  simp only [hdefault, pure_bind, CompiledField.eased, Slot.eased, Slot.ofField, if_true, true_and]
  by_cases hi : c.itemsOnly = true
  · simp only [hi, (itemsOnly_flagged hc).mp hi, if_true, Bool.false_eq_true, if_false]
  · have hp : c.nullability ≠ .items := fun hp => hi ((itemsOnly_flagged hc).mpr hp)
    simp only [hi, hp, Bool.false_eq_true, if_false]

theorem compileNode_optional (hs : s.Silent) (hn : n.Bare) :
    compileNode o key (.optional s n) =
      (do let d ← compileNode o key n; return d.eased key n.ownDefault) := by
  have hwrapped : compileNode o key (.optional s n) =
      compileField o key (.optional s n) .optional (classify o key (.optional s n)) := rfl
  rw [hwrapped]
  cases n with
  | optional b inner => cases hn.1
  | plain v =>
    obtain ⟨-, a, ha, -⟩ := hn
    cases ha
  | union | literal | date | any => rfl
  | _ => exact compileField_optional hs hn _

end Wrapped

section Shapes

open Node

variable {o : Options} {key : Value}

theorem eased_of_ne {d : CompiledField} (h : d.key ≠ key) (hs : d.slot.key ≠ key) (default : Value) :
    d.eased key default = d := by
  simp [CompiledField.eased, Slot.eased, h, hs]

theorem compileShape_eased {shape eased : List (Value × Node)} (h : List.Forall₂ (Eases key) shape eased)
    (hbare : ∀ f ∈ shape, f.1 = key → f.2.Bare) : compileShape o eased = do
      let fields ← compileShape o shape
      return List.zipWith (fun default d => d.eased key default) (ownDefaults shape) fields := by
  induction h with
  | nil =>
    rw [compileShape, pure_bind]
    rfl
  | @cons f g rest others hfield _ ih =>
    obtain ⟨_, n⟩ := f
    obtain ⟨name, n'⟩ := g
    obtain ⟨rfl, hn⟩ := hfield
    dsimp only at hn
    have hrest (d d' : CompiledField) (hd : d' = d.eased key n.ownDefault) :
        (do let fields ← compileShape o others; return d' :: fields) = (do
          let fields ← compileShape o rest
          return List.zipWith (fun default d => d.eased key default) (ownDefaults ((name, n) :: rest))
            (d :: fields) : Work (List CompiledField)) := by
      rw [ih fun f hf => hbare f (List.mem_cons_of_mem _ hf)]
      simp only [bind_assoc, pure_bind, ownDefaults, List.map_cons, List.zipWith_cons_cons, hd]
    rw [compileShape_cons, compileShape_cons, bind_assoc]
    by_cases hkey : name = key
    · rw [if_pos hkey] at hn
      obtain ⟨s, hs, rfl⟩ := hn
      subst hkey
      rw [compileNode_optional hs (hbare (name, n) (by simp) rfl)]
      simp only [bind_assoc, pure_bind]
      congr 1
      funext d
      exact hrest d _ rfl
    · rw [if_neg hkey] at hn
      subst hn
      refine (compileNode_slot o name n').bind_congr fun d hd => ?_
      obtain ⟨hd, kind, hslot⟩ := hd
      rw [bind_assoc]
      exact hrest d d (eased_of_ne (by rwa [hd]) (by rwa [hslot]) _).symm

def Field.Policed (f : Field) : Prop :=
  (∀ v, f.nullable ≠ .other v) ∧ (f.nullable = .items → f.default = .null)

theorem compileField_policed {n : Node} (hn : n.Bare) (name : Value) (kind : Kind) :
    Yields (compileField o name n kind (classify o name n)) fun d => d.toField.Policed := by
  obtain ⟨hw, a, ha, b, hb⟩ := hn
  unfold compileField
  refine .bind (classify_itself hw ha) fun c hc => ?_
  rw [hb] at hc
  refine .bind (.any _) fun type _ => ?_
  refine .bind (.any _) fun default _ => ?_
  refine .bind (.any _) fun description _ => .pure ⟨fun v hv => ?_, fun hp => ?_⟩
  · dsimp only [CompiledField.toField] at hv
    rw [nullability_flagged hc] at hv
    cases hi : c.itemsOnly <;> cases hj : c.items.any (·.admitsNull) <;> cases b <;>
      simp [hi, hj, Nullability.ofBool] at hv
  · exact if_pos ((itemsOnly_flagged hc).mpr hp)

theorem compileShape_policed {shape : List (Value × Node)} (hbare : ∀ f ∈ shape, f.1 = key → f.2.Bare) :
    Yields (compileShape o shape) fun fields => ∀ d ∈ fields, d.key = key → d.toField.Policed := by
  induction shape with
  | nil =>
    rw [compileShape]
    exact .pure fun d hd => absurd hd List.not_mem_nil
  | cons f rest ih =>
    obtain ⟨name, n⟩ := f
    have hfirst : Yields (compileNode o name n) fun d => d.key = key → d.toField.Policed := by
      refine compileNode_yields fun kind w d w' hd hkey => ?_
      obtain ⟨hname, -⟩ := compileField_slot o name n kind _ w d w' hd
      have hb := hbare (name, n) (by simp) (hname ▸ hkey)
      exact compileField_policed hb name kind w d w' hd
    rw [compileShape_cons]
    refine .bind hfirst fun d hd => ?_
    refine .bind (ih fun f hf => hbare f (List.mem_cons_of_mem _ hf)) fun fields hfields => .pure ?_
    intro e he
    rcases List.mem_cons.mp he with rfl | he
    · exact hd
    · exact hfields e he

theorem classOf_eased {fields : List CompiledField} {defaults : List Value}
    (hlength : defaults.length = fields.length) (name : String) (description : Value)
    (source eased : Node) :
    classOf name description eased (List.zipWith (fun default d => d.eased key default) defaults fields) =
      (classOf name description source fields).eased key defaults eased := by
  have hslots : (List.zipWith (fun default d => d.eased key default) defaults fields).map (·.slot) =
      (fields.map (·.slot)).map (·.eased key) := by
    apply List.ext_getElem
    · simp [hlength]
    · intro i hi hj
      simp [CompiledField.eased]
  have hfields : (List.zipWith (fun default d => d.eased key default) defaults fields).map (·.toField) =
      List.zipWith (fun default f => f.eased key default) defaults (fields.map (·.toField)) := by
    rw [List.map_zipWith, List.zipWith_map_right]
    rfl
  have hfind (part : ReservedKey) : ((fields.map (·.slot)).map (·.eased key)).find? (·.part? = some part) =
      ((fields.map (·.slot)).find? (·.part? = some part)).map (·.eased key) := by
    rw [List.find?_map]
    rfl
  unfold classOf
  rw [hslots, hfields]
  simp only [hfind, ModelClass.eased]
  congr 1
  · cases (fields.map (·.slot)).find? (·.part? = some .home) <;> rfl
  · rw [Option.isSome_map]
    split <;> rfl
  · cases (fields.map (·.slot)).find? (·.part? = some .description) <;> rfl
  · cases (fields.map (·.slot)).find? (·.part? = some .documentation) <;> rfl

end Shapes

end SchemaCompiler
