import SchemaCompiler.Proofs.Operations
import SchemaCompiler.Proofs.Schema.Retagging

namespace SchemaCompiler

open Work Node

def ModelClass.retag (ρ : Nat → Nat) (m : ModelClass) : ModelClass :=
  { m with source := m.source.map (Node.retag ρ) }

def Workspace.retag (ρ : Nat → Nat) (w : Workspace) : Workspace :=
  { w with classes := w.classes.map (ModelClass.retag ρ) }

variable {ρ : Nat → Nat} {w : Workspace} {o : Options}

section States

theorem inherit_retag (hidden : List String) (m : ModelClass) (ds : List ModelClass) :
    (m.retag ρ).inherit hidden (ds.map (ModelClass.retag ρ)) = (m.inherit hidden ds).retag ρ := by
  induction ds generalizing hidden m with
  | nil => rfl
  | cons d rest ih =>
    rw [List.map_cons, ModelClass.inherit, ModelClass.inherit, ← ih]
    congr 1
    unfold ModelClass.retag
    split <;> rfl

theorem whole?_retag (c : ClassHandle) : (w.retag ρ).whole? c = (w.whole? c).map (ModelClass.retag ρ) := by
  unfold Workspace.whole? Workspace.class? Workspace.retag
  dsimp only
  rw [List.getElem?_map, Option.map_map, Option.map_map]
  congr 1
  funext m
  simp only [Function.comp]
  rw [← inherit_retag, List.map_filterMap]
  congr 1
  apply List.filterMap_congr
  intro a _
  cases a with
  | modelBase => rfl
  | cls serial => exact List.getElem?_map

theorem source_retag (c : ClassHandle) : ((w.retag ρ).whole? c).bind (·.source) =
    ((w.whole? c).bind (·.source)).map (Node.retag ρ) := by
  rw [whole?_retag]
  cases w.whole? c <;> rfl

end States

def Carries {α : Type} (ρ : Nat → Nat) (x y : Work α) : Prop :=
  ∀ w, y (w.retag ρ) = match x w with
    | .ok a w' => .ok a (w'.retag ρ)
    | .error e w' => .error e (w'.retag ρ)

namespace Carries

variable {α β : Type}

theorem pure (a : α) : Carries ρ (pure a) (pure a) := fun _ => rfl

theorem throw (e : Failure) : Carries ρ (throw e : Work α) (throw e) := fun _ => rfl

theorem misuse (m : Misuse) : Carries ρ (Work.misuse m : Work α) (Work.misuse m) := throw _

theorem ofExcept (x : Except Failure α) : Carries ρ (Work.ofExcept x) (Work.ofExcept x) := by
  cases x with
  | ok a => exact pure a
  | error e => exact throw e

theorem bind {x y : Work α} {f g : α → Work β} (h : Carries ρ x y) (k : ∀ a, Carries ρ (f a) (g a)) :
    Carries ρ (x >>= f) (y >>= g) := by
  intro w
  rw [bind_apply, bind_apply, h w]
  cases x w with
  | ok a w' => exact k a w'
  | error e w' => rfl

end Carries

theorem fieldEnum_carries (key : Value) (source : EnumSource) :
    Carries ρ (fieldEnum o key source) (fieldEnum o key source) := by
  intro w
  rw [fieldEnum_eq, fieldEnum_eq]
  cases enumOutline o key source with
  | error e => rfl
  | ok outline =>
    obtain ⟨name, members⟩ := outline
    have hcurrent : currentEnum? (w.retag ρ) o name members = currentEnum? w o name members := rfl
    dsimp only
    rw [hcurrent]
    cases currentEnum? w o name members with
    | some e => rfl
    | none =>
      dsimp only
      rw [registerEnum_text, registerEnum_text]
      have hheld : (((w.retag ρ).registries o.registry).get? (.text name)) =
        ((w.registries o.registry).get? (.text name)) := rfl
      rw [hheld]
      cases (w.registries o.registry).get? (.text name) with
      | none => cases EnumType.misuse? (.text name) members <;> rfl
      | some t =>
        cases t with
        | object c => rfl
        | enum e =>
          dsimp only
          by_cases hs : Value.sameRecord e.members members = true
          · rw [if_pos hs, if_pos hs]
            rfl
          · rw [if_neg hs, if_neg hs]

theorem modelName_carries (description : Value) :
    Carries ρ (modelName o description) (modelName o description) := by
  intro w
  rw [modelName_eq, modelName_eq]
  cases statedName? o description with
  | error e => rfl
  | ok found =>
    cases found with
    | some naming => rfl
    | none =>
      dsimp only [Workspace.retag]
      cases (w.sequences o.sequence).next? <;> rfl

theorem retag_withClass (w : Workspace) (m : ModelClass) :
    (w.withClass m).retag ρ = (w.retag ρ).withClass (m.retag ρ) := by
  unfold Workspace.retag Workspace.withClass
  rw [List.map_append]
  rfl

theorem defineModel_carries (naming : ModelName) (source : Node) (fields : List CompiledField) :
    Carries ρ (defineModel o naming source fields) (defineModel o naming (source.retag ρ) fields) := by
  intro w
  cases hm : modelMisuse? naming.name (fields.map (·.key)) with
  | some m => rw [defineModel_of_misuse _ hm, defineModel_of_misuse _ hm]
  | none =>
    obtain ⟨name, hname⟩ := text_of_modelMisuse? hm
    have hsource : (classOf name naming.description source fields).source.map (Node.retag ρ) =
        (classOf name naming.description (source.retag ρ) fields).source := by
      unfold classOf
      dsimp only
      split <;> rfl
    have hclass : (classOf name naming.description source fields).retag ρ =
        classOf name naming.description (source.retag ρ) fields := by
      unfold ModelClass.retag
      rw [hsource]
      rfl
    have hcount : (w.retag ρ).classes.length = w.classes.length := List.length_map ..
    rw [defineModel_of_text _ hname hm, defineModel_of_text _ hname hm, ← hclass, ← retag_withClass, hcount,
      registerObject_eq, registerObject_eq, Value.key?_text]
    dsimp only
    have hheld : (((w.withClass (classOf name naming.description source fields)).retag ρ).registries
      o.registry).get? (.text name) = (w.registries o.registry).get? (.text name) := rfl
    have hheld' : ((w.withClass (classOf name naming.description source fields)).registries
      o.registry).get? (.text name) = (w.registries o.registry).get? (.text name) := rfl
    rw [hheld, hheld']
    cases (w.registries o.registry).get? (.text name) with
    | none => rfl
    | some t =>
      cases t with
      | enum e => rfl
      | object d =>
        dsimp only
        by_cases hd : d.serial = w.classes.length
        · rw [if_pos hd, if_pos hd]
          rfl
        · rw [if_neg hd, if_neg hd]

theorem synthesize_carries (hρ : Function.Injective ρ) (source : Node) (description : Value)
    {compileFields others : Options → Work (List CompiledField)}
    (h : ∀ name generatedName, Carries ρ (compileFields { o with name, generatedName })
      (others { o with name, generatedName })) :
    Carries ρ (synthesize o source description compileFields)
      (synthesize o (source.retag ρ) description others) := by
  unfold synthesize
  apply (modelName_carries description).bind
  intro naming w
  rw [bind_apply, bind_apply, registeredAs_eq, registeredAs_eq]
  cases naming.name.key? with
  | none => rfl
  | some key =>
    have hheld : ((w.retag ρ).registries o.registry).get? key = (w.registries o.registry).get? key := rfl
    dsimp only
    rw [hheld]
    cases (w.registries o.registry).get? key with
    | none => exact ((h _ _).bind fun fields => defineModel_carries naming source fields) w
    | some t =>
      cases t with
      | enum e => rfl
      | object c =>
        dsimp only
        rw [get_bind_apply, get_bind_apply, source_retag]
        have hsame : ((w.whole? c).bind (·.source)).map (Node.retag ρ) = some (source.retag ρ) ↔
            (w.whole? c).bind (·.source) = some source := by
          rw [← Option.map_some, (Option.map_injective (retag_injective hρ)).eq_iff]
        by_cases hs : (w.whole? c).bind (·.source) = some source
        · rw [if_pos hs, if_pos (hsame.mpr hs)]
          rfl
        · rw [if_neg hs, if_neg fun h => hs (hsame.mp h)]
          rfl

section Notes

variable (ρ)

theorem fieldDefault_retag : (n : Node) → (n.retag ρ).fieldDefault = n.fieldDefault
  | .optional a inner => by
    rw [Node.retag, fieldDefault, fieldDefault, fieldDefault_retag inner]
    rfl
  | .plain _ | .object _ _ | .array _ _ | .union _ _ | .boolean _ | .string _ | .number _ _ | .enum _ _
  | .literal _ _ | .date _ | .any _ => rfl

theorem fieldDescription_retag : (n : Node) → (n.retag ρ).fieldDescription = n.fieldDescription
  | .optional a inner => by
    rw [Node.retag, fieldDescription, fieldDescription, fieldDescription_retag inner]
    rfl
  | .plain _ | .object _ _ | .array _ _ | .union _ _ | .boolean _ | .string _ | .number _ _ | .enum _ _
  | .literal _ _ | .date _ | .any _ => rfl

theorem retag_eq_null {n : Node} : n.retag ρ = .plain .null ↔ n = .plain .null := by
  cases n <;> simp [Node.retag]

theorem innermost_retag (n : Node) : (n.retag ρ).innermost = n.innermost.retag ρ := by
  induction n using innermost.induct with
  | case1 | case2 => rfl
  | case3 a inner hn ih =>
    rw [Node.retag, innermost, innermost, ih]
    · exact fun h => hn h
    · exact fun h => hn ((retag_eq_null ρ).mp h)
  | case4 a item hn ih =>
    rw [Node.retag, innermost, innermost, ih]
    · exact fun h => hn h
    · exact fun h => hn ((retag_eq_null ρ).mp h)
  | case5 n ho ha ho' ha' =>
    cases n with
    | optional a inner => exact absurd rfl (ho' a inner)
    | array a item => exact absurd rfl (ha' a item)
    | _ => rfl

end Notes

theorem fieldType_carries (key : Value) (node : Node) (c : Classification) :
    Carries ρ (fieldType o key node c) (fieldType o key (node.retag ρ) c) := by
  unfold fieldType
  cases c.enumSource with
  | some source => exact (fieldEnum_carries key source).bind fun e => .pure _
  | none =>
    dsimp only
    rw [innermost_retag, kind?_retag]
    split
    · exact .throw _
    · exact .pure _

theorem compileField_carries (key : Value) (node : Node) (kind : Kind) {x y : Work Classification}
    (h : Carries ρ x y) : Carries ρ (compileField o key node kind x)
      (compileField o key (node.retag ρ) kind y) := by
  unfold compileField
  rw [fieldDefault_retag, fieldDescription_retag]
  refine h.bind fun c => (fieldType_carries key node c).bind fun type => ?_
  exact (Carries.ofExcept _).bind fun default => (Carries.ofExcept _).bind fun description => .pure _

mutual

theorem classify_carries (hρ : Function.Injective ρ) (o : Options) (ho : o.builder = none) (key : Value) :
    (n : Node) → Carries ρ (classify o key n) (classify o key (n.retag ρ))
  | .optional a inner => by
    rw [Node.retag, classify, classify]
    exact (classify_carries hρ o ho key inner).bind fun c => .pure _
  | .array a item => by
    rw [Node.retag, classify, classify]
    exact (classify_carries hρ o ho key item).bind fun c => .pure _
  | .object a shape => by
    rw [Node.retag, classify_object ho, classify_object ho]
    refine (Carries.ofExcept _).bind fun name => ?_
    refine (synthesize_carries hρ (.object a shape) a.description ?_).bind fun handle => .pure _
    exact fun inner generatedName =>
      compileShape_carries hρ { o with name := inner, generatedName } ho shape
  | .enum _ _ | .boolean _ | .string _ | .number _ _ | .union _ _ | .literal _ _ | .date _ | .any _ => by
    rw [Node.retag, classify, classify]
    exact .pure _
  | .plain v => by
    rw [Node.retag]
    cases v with
    | null =>
      rw [classify]
      exact .pure _
    | _ =>
      rw [classify]
      · exact .misuse _
      · simp

theorem compileShape_carries (hρ : Function.Injective ρ) (o : Options) (ho : o.builder = none) :
    (shape : List (Value × Node)) → Carries ρ (compileShape o shape) (compileShape o (retagShape ρ shape))
  | [] => by
    rw [retagShape, compileShape]
    exact .pure _
  | (key, node) :: rest => by
    have hnode : Carries ρ (compileNode o key node) (compileNode o key (node.retag ρ)) := by
      unfold compileNode
      rw [kind?_retag]
      split
      · split
        · exact compileField_carries key node _ (classify_carries hρ o ho key node)
        · exact .throw _
      · exact .throw _
    rw [retagShape, compileShape_cons, compileShape_cons]
    exact hnode.bind fun d => (compileShape_carries hρ o ho rest).bind fun fields => .pure _

end

end SchemaCompiler
