import SchemaCompiler.Proofs.Operations

/-!
What compiling does to the shared state. Every compilation, whether it succeeds or fails, is a row of
a few kinds of change, so what each change keeps is kept by all compilations.
-/

namespace SchemaCompiler

open Work

/-- A change made on the way of a compilation over a registry, a memo and a sequence, with classes
only of nodes up to a size. -/
inductive Change (registry memo sequence : Key) (size : Nat) : Workspace → Workspace → Prop
  | draw {w : Workspace} (next : Value) :
    Change registry memo sequence size w (w.setSequence sequence next)
  | note {w : Workspace} (e : Event) :
    Change registry memo sequence size w { w with events := w.events ++ [e] }
  | addClass {w : Workspace} (c : ModelClass) (line : c.line = [.modelBase])
    (source : ∀ n, c.source = some n → sizeOf n ≤ size) :
    Change registry memo sequence size w (w.withClass c)
  | addEnum {w : Workspace} (e : EnumType) (serial : e.serial = w.enumCount)
    (fresh : (w.registries registry).get? (.text e.name) = none) :
    Change registry memo sequence size w (w.withEnum registry e)
  | addObject {w : Workspace} (c : ClassHandle) (m : ModelClass) (description : Value)
    (fresh : (w.registries registry).get? (.text c.name) = none) (made : w.class? c = some m)
    (line : m.line = [.modelBase]) (source : ∀ n, m.source = some n → sizeOf n ≤ size) :
    Change registry memo sequence size w (w.withObject registry (.text c.name) c.name c description)
  | remember {w : Workspace} (name key : String) (e : EnumType)
    (held : (w.registries registry).get? (.text name) = some (.enum e)) :
    Change registry memo sequence size w (w.withMemo memo registry name key e)

/-- A relation of states that holds along every compilation with the given options: it holds along
rows of changes and of what the options' own builder does. -/
structure Admits (S : Workspace → Workspace → Prop) (o : Options) (size : Nat) : Prop where
  refl : ∀ w, S w w
  trans : ∀ {u v w}, S u v → S v w → S u w
  change : ∀ {v w}, Change o.registry o.memo o.sequence size v w → S v w
  build : ∀ b, o.builder = some b → ∀ node name w, S w ((b node name).after w)

namespace Admits

variable {S : Workspace → Workspace → Prop} {o : Options} {size : Nat} {w : Workspace}

theorem renamed (h : Admits S o size) (name : Value) (generatedName : Bool) :
    Admits S { o with name, generatedName } size :=
  ⟨h.refl, h.trans, h.change, h.build⟩

theorem bind {α β : Type} {x : Work α} {f : α → Work β} (h : Admits S o size)
    (hx : S w (x.after w)) (hf : ∀ a w', x w = .ok a w' → S w' ((f a).after w')) :
    S w ((x >>= f).after w) := by
  unfold after at hx hf ⊢
  rw [bind_apply]
  cases hr : x w with
  | ok a w' =>
    rw [hr] at hx
    exact h.trans hx (hf a w' hr)
  | error e w' =>
    rw [hr] at hx
    exact hx

theorem ofExcept_bind {α β : Type} {x : Except Failure α} {f : α → Work β} (h : Admits S o size)
    (hf : ∀ a, x = .ok a → S w ((f a).after w)) : S w ((Work.ofExcept x >>= f).after w) := by
  cases x with
  | ok a => exact hf a rfl
  | error e => exact h.refl w

theorem modelName (h : Admits S o size) (description : Value) :
    S w ((modelName o description).after w) := by
  unfold after
  rw [modelName_eq]
  cases statedName? o description with
  | error e => exact h.refl w
  | ok found =>
    cases found with
    | some naming => exact h.refl w
    | none =>
      cases (w.sequences o.sequence).next? with
      | none => exact h.refl w
      | some next => exact h.change (.draw next)

theorem fieldEnum (h : Admits S o size) (key : Value) (source : EnumSource) :
    S w ((fieldEnum o key source).after w) := by
  unfold after
  rw [fieldEnum_eq]
  cases enumOutline o key source with
  | error e => exact h.refl w
  | ok outline =>
    obtain ⟨name, members⟩ := outline
    dsimp only
    cases currentEnum? w o name members with
    | some e => exact h.refl w
    | none =>
      dsimp only
      rw [registerEnum_text]
      cases hg : (w.registries o.registry).get? (.text name) with
      | some t =>
        cases t with
        | object c => exact h.refl w
        | enum e =>
          dsimp only
          by_cases hs : Value.sameRecord e.members members = true
          · rw [if_pos hs]
            exact h.change (.remember name key.display e hg)
          · rw [if_neg hs]
            exact h.refl w
      | none =>
        cases EnumType.misuse? (.text name) members with
        | some m => exact h.refl w
        | none =>
          let e : EnumType := ⟨w.enumCount, name, members, source.description⟩
          have hheld : ((w.withEnum o.registry e).registries o.registry).get? (.text name) =
              some (.enum e) := by
            simp only [Workspace.withEnum, Workspace.setRegistry, update_same]
            exact Registry.get?_add_same hg
          exact h.trans (h.change (.addEnum e rfl hg)) (h.change (.remember name key.display e hheld))

theorem defineModel (h : Admits S o size) (naming : ModelName) {source : Node}
    (hs : sizeOf source ≤ size) (fields : List CompiledField) :
    S w ((defineModel o naming source fields).after w) := by
  unfold after
  cases hm : modelMisuse? naming.name (fields.map (·.key)) with
  | some m =>
    rw [defineModel_of_misuse w hm]
    exact h.refl w
  | none =>
    obtain ⟨name, hname⟩ := text_of_modelMisuse? hm
    rw [defineModel_of_text w hname hm, registerObject_eq, Value.key?_text]
    dsimp only
    let c := classOf name naming.description source fields
    have hsource : ∀ n, c.source = some n → sizeOf n ≤ size := by
      intro n hn
      simp only [c, classOf] at hn
      split at hn
      · cases hn
      · cases hn
        exact hs
    have hadd : S w (w.withClass c) := h.change (.addClass c rfl hsource)
    cases hg : ((w.withClass c).registries o.registry).get? (.text name) with
    | some t =>
      cases t with
      | enum e => exact hadd
      | object d =>
        dsimp only
        by_cases hd : d.serial = w.classes.length
        · rw [if_pos hd]
          exact h.trans hadd (h.change (.note _))
        · rw [if_neg hd]
          exact hadd
    | none =>
      have hmade : (w.withClass c).class? ⟨w.classes.length, name⟩ = some c :=
        List.getElem?_concat_length
      have hobject := h.change (.addObject ⟨w.classes.length, name⟩ c naming.description hg hmade rfl
        hsource)
      exact h.trans (h.trans hadd hobject) (h.change (.note _))

theorem synthesize (h : Admits S o size) {source : Node} (hs : sizeOf source ≤ size)
    (description : Value) (compileFields : Options → Work (List CompiledField))
    (hf : ∀ name generatedName w, S w ((compileFields { o with name, generatedName }).after w)) :
    S w ((synthesize o source description compileFields).after w) := by
  have hname := h.modelName (w := w) description
  have hrun := synthesis w o source description compileFields
  unfold after
  generalize SchemaCompiler.synthesize o source description compileFields w = r at hrun
  cases hrun with
  | unnamed name => exact after_of_error name ▸ hname
  | refused name _ => exact after_of_ok name ▸ hname
  | held name _ => exact after_of_ok name ▸ hname
  | failed name _ _ fields =>
    rw [after_of_ok name] at hname
    exact h.trans hname (after_of_error fields ▸ hf _ _ _)
  | made name compiled =>
    rw [after_of_ok name] at hname
    exact h.trans (h.trans hname (after_of_ok compiled ▸ hf _ _ _)) (h.defineModel _ hs _)

theorem fieldType (h : Admits S o size) (key : Value) (node : Node) (c : Classification) :
    S w ((fieldType o key node c).after w) := by
  unfold SchemaCompiler.fieldType
  split
  · exact h.bind (h.fieldEnum key _) fun _ w' _ => h.refl w'
  · split
    · exact h.refl w
    · exact h.refl w

theorem compileField (h : Admits S o size) (key : Value) (node : Node) (kind : Kind)
    (classified : Work Classification) (hc : S w (classified.after w)) :
    S w ((compileField o key node kind classified).after w) := by
  unfold SchemaCompiler.compileField
  apply h.bind hc
  intro c w1 _
  apply h.bind (h.fieldType key node c)
  intro type w2 _
  apply h.ofExcept_bind
  intro default _
  apply h.ofExcept_bind
  intro description _
  exact h.refl w2

end Admits

mutual

theorem classify_admits {S : Workspace → Workspace → Prop} {o : Options} {size : Nat}
    (h : Admits S o size) (key : Value) : (node : Node) → sizeOf node ≤ size → (w : Workspace) →
    S w ((classify o key node).after w)
  | .optional a inner, hs, w => by
    rw [classify]
    have hi : sizeOf inner ≤ size := by
      simp only [Node.optional.sizeOf_spec] at hs
      omega
    exact h.bind (classify_admits h key inner hi w) fun _ w' _ => h.refl w'
  | .array a item, hs, w => by
    rw [classify]
    have hi : sizeOf item ≤ size := by
      simp only [Node.array.sizeOf_spec] at hs
      omega
    exact h.bind (classify_admits h key item hi w) fun _ w' _ => h.refl w'
  | .object a shape, hs, w => by
    rw [classify]
    apply h.ofExcept_bind
    intro name _
    extract_lets finish
    split
    · rename_i build hb
      exact h.bind (h.build build hb _ _ w) fun _ w' _ => h.refl w'
    · have hi : sizeOf shape ≤ size := by
        simp only [Node.object.sizeOf_spec] at hs
        omega
      refine h.bind ((h.renamed name o.generatedName).synthesize hs a.description _ ?_)
        fun _ w' _ => h.refl w'
      intro inner generatedName w'
      exact compileShape_admits (h.renamed inner generatedName) shape hi w'
  | .enum _ _, _, w | .boolean _, _, w | .string _, _, w | .number _ _, _, w | .union _ _, _, w
  | .literal _ _, _, w | .date _, _, w | .any _, _, w => by
    rw [classify]
    exact h.refl w
  | .plain v, _, w => by
    cases v with
    | null => rw [classify]; exact h.refl w
    | _ =>
      rw [classify]
      · exact h.refl w
      · simp

theorem compileShape_admits {S : Workspace → Workspace → Prop} {o : Options} {size : Nat}
    (h : Admits S o size) : (shape : List (Value × Node)) → sizeOf shape ≤ size → (w : Workspace) →
    S w ((compileShape o shape).after w)
  | [], _, w => by
    rw [compileShape]
    exact h.refl w
  | (key, node) :: rest, hs, w => by
    simp only [List.cons.sizeOf_spec, Prod.mk.sizeOf_spec] at hs
    have hfield : S w ((compileNode o key node).after w) := by
      rcases compileNode_cases o key node with ⟨kind, -, -, hrun⟩ | ⟨-, hrun⟩
      · rw [hrun]
        exact h.compileField key node kind _ (classify_admits h key node (by omega) w)
      · rw [hrun]
        exact h.refl w
    rw [compileShape_cons]
    apply h.bind hfield
    intro field w' _
    apply h.bind (compileShape_admits h rest (by omega) w')
    intro fields w'' _
    exact h.refl w''

end

theorem compileModel_admits {S : Workspace → Workspace → Prop} {o : Options} {node : Node}
    (h : Admits S o (sizeOf node)) (w : Workspace) : S w ((compileModel o node).after w) := by
  unfold compileModel
  split
  · rename_i a shape
    apply h.synthesize (Nat.le_refl _)
    intro name generatedName w'
    apply compileShape_admits (h.renamed name generatedName)
    simp only [Node.object.sizeOf_spec]
    omega
  · exact h.refl w

end SchemaCompiler
