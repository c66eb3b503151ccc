import SchemaCompiler.Model.Compile
import SchemaCompiler.Proofs.Outcome
import SchemaCompiler.Proofs.Work

namespace SchemaCompiler

open Work

namespace Workspace

def withEnum (w : Workspace) (registry : Key) (e : EnumType) : Workspace :=
  let added := ({ w with enumCount := w.enumCount + 1 } : Workspace).setRegistry registry
    ((w.registries registry).add ⟨.text e.name, .enum e, e.description⟩)
  { added with events := added.events ++ [.enumRegistered e.name (e.members.map (·.1))] }

def withMemo (w : Workspace) (memo registry : Key) (name key : String) (e : EnumType) : Workspace :=
  let put := w.setMemo memo ((w.memos memo).put (registry, .text name) e)
  { put with events := put.events ++ [.enumBuilt name key] }

def withClass (w : Workspace) (c : ModelClass) : Workspace := { w with classes := w.classes ++ [c] }

def withObject (w : Workspace) (registry key : Key) (name : String) (c : ClassHandle)
    (description : Value) : Workspace :=
  let added := w.setRegistry registry ((w.registries registry).add ⟨key, .object c, description⟩)
  { added with events := added.events ++ [.objectRegistered name] }

end Workspace

variable (w : Workspace)

theorem registeredAs_text (registry : Key) (name : String) :
    registeredAs registry (.text name) w = .ok ((w.registries registry).get? (.text name)) w := rfl

theorem registeredAs_eq (registry : Key) (name : Value) :
    registeredAs registry name w =
      match name.key? with
      | some key => .ok ((w.registries registry).get? key) w
      | none => .error (.misuse .notKey) w := by
  unfold registeredAs
  cases name.key? <;> rfl

theorem registerEnum_text (registry : Key) (name : String) (members : List (String × Value))
    (description : Value) : registerEnum registry (.text name) members description w =
      match (w.registries registry).get? (.text name) with
      | some (.enum e) =>
        if Value.sameRecord e.members members then .ok e w
        else .error (.duplicateType (.text name)) w
      | some (.object _) => .error (.duplicateType (.text name)) w
      | none =>
        match EnumType.misuse? (.text name) members with
        | some m => .error (.misuse m) w
        | none => .ok ⟨w.enumCount, name, members, description⟩
            (w.withEnum registry ⟨w.enumCount, name, members, description⟩) := by
  unfold registerEnum
  rw [bind_apply, registeredAs_text]
  dsimp only
  cases (w.registries registry).get? (.text name) with
  | none =>
    simp only [makeEnum]
    cases EnumType.misuse? (.text name) members <;> rfl
  | some t =>
    cases t with
    | enum e =>
      dsimp only
      split <;> rfl
    | object c => rfl

theorem registerEnum_of_not_text {registry : Key} {name : Value} (h : ∀ s, name ≠ .text s)
    (members : List (String × Value)) (description : Value) :
    (registerEnum registry name members description).after w = w := by
  unfold registerEnum after
  rw [bind_apply, registeredAs_eq]
  cases name.key? with
  | none => rfl
  | some key =>
    dsimp only
    cases (w.registries registry).get? key with
    | none =>
      cases name with
      | text s => exact absurd rfl (h s)
      | _ =>
        simp only [makeEnum]
        cases EnumType.misuse? _ members <;> rfl
    | some t =>
      cases t with
      | object c => rfl
      | enum e =>
        dsimp only
        by_cases hs : Value.sameRecord e.members members = true
        · rw [if_pos hs]
          rfl
        · rw [if_neg hs]
          rfl

theorem registerObject_eq (registry : Key) (name : Value) (c : ClassHandle) (description : Value) :
    registerObject registry name c description w =
      match name.key? with
      | none => .error (.misuse .notKey) w
      | some key =>
        match (w.registries registry).get? key with
        | some (.object d) => if d.serial = c.serial then .ok c w else .error (.duplicateType name) w
        | some (.enum _) => .error (.duplicateType name) w
        | none => .ok c (w.withObject registry key name.display c description) := by
  unfold registerObject
  cases name.key? with
  | none => rfl
  | some key =>
    dsimp only
    rw [get_bind_apply]
    cases (w.registries registry).get? key with
    | none => rfl
    | some t =>
      cases t with
      | enum e => rfl
      | object d =>
        dsimp only
        split <;> rfl

/-- What a memo has for a name, as long as it is what the registry holds. -/
def currentEnum? (o : Options) (name : String) (members : List (String × Value)) :
    Option EnumType :=
  ((w.memos o.memo).get? (o.registry, .text name)).filter
    (isCurrent (w.registries o.registry) name members)

def enumOutline (o : Options) (key : Value) (source : EnumSource) :
    Except Failure (String × List (String × Value)) := do
  let name ← enumTypeName o key
  match source.values.elements? with
  | some values => return (name, Naming.enumMembers values)
  | none => throw (.misuse .notIterable)

theorem fieldEnum_eq (o : Options) (key : Value) (source : EnumSource) :
    fieldEnum o key source w =
      match enumOutline o key source with
      | .error e => .error e w
      | .ok (name, members) =>
        match currentEnum? w o name members with
        | some e => .ok e w
        | none =>
          match registerEnum o.registry (.text name) members source.description w with
          | .ok e w' => .ok e (w'.withMemo o.memo o.registry name key.display e)
          | .error e w' => .error e w' := by
  unfold fieldEnum enumOutline
  cases enumTypeName o key with
  | error e => rfl
  | ok name =>
    cases source.values.elements? with
    | none => rfl
    | some values =>
      have hbuild : (do
          let e ← registerEnum o.registry (.text name) (Naming.enumMembers values) source.description
          modify fun w => w.setMemo o.memo ((w.memos o.memo).put (o.registry, .text name) e)
          report (.enumBuilt name key.display)
          return e : Work EnumType) w =
          match registerEnum o.registry (.text name) (Naming.enumMembers values)
            source.description w with
          | .ok e w' => .ok e (w'.withMemo o.memo o.registry name key.display e)
          | .error e w' => .error e w' := by
        rw [bind_apply]
        cases registerEnum o.registry (.text name) (Naming.enumMembers values)
          source.description w <;> rfl
      simp only [ofExcept_bind_apply, pure_bind_apply, get_bind_apply, Outcome.ok_bind,
        Outcome.pure_eq_ok]
      rw [← hbuild, currentEnum?]
      cases (w.memos o.memo).get? (o.registry, .text name) with
      | none => rfl
      | some e =>
        dsimp only
        rw [Option.filter_some]
        by_cases hcur : isCurrent (w.registries o.registry) name (Naming.enumMembers values) e = true
        · rw [if_pos hcur, if_pos hcur]
          rfl
        · rw [if_neg hcur, if_neg hcur]

def statedName? (o : Options) (description : Value) : Except Failure (Option ModelName) :=
  if o.name.truthy then .ok (some { name := o.name, description })
  else if description.truthy then
    (o.titled description).map fun found =>
      found.map fun t => { name := .text t.name, description := .text t.description }
  else .ok none

theorem modelName_eq (o : Options) (description : Value) :
    modelName o description w =
      match statedName? o description with
      | .error e => .error e w
      | .ok (some naming) => .ok naming w
      | .ok none =>
        match (w.sequences o.sequence).next? with
        | some next => .ok
            { name := .text (sequenceName (w.sequences o.sequence)), description, generated := true }
            (w.setSequence o.sequence next)
        | none => .error (.misuse .notNumber) w := by
  have hdraw : (do
      let n ← nextInSequence o.sequence
      return { name := .text (sequenceName n), description, generated := true } : Work ModelName) w =
      match (w.sequences o.sequence).next? with
      | some next => .ok
          { name := .text (sequenceName (w.sequences o.sequence)), description, generated := true }
          (w.setSequence o.sequence next)
      | none => .error (.misuse .notNumber) w := by
    unfold nextInSequence
    rw [bind_apply, get_bind_apply]
    cases (w.sequences o.sequence).next? <;> rfl
  unfold modelName statedName?
  rw [← hdraw]
  split
  · rfl
  · split
    · cases o.titled description with
      | error e => rfl
      | ok found => cases found <;> rfl
    · rfl

theorem modelName_ok {o : Options} {description : Value} {naming : ModelName} {v w : Workspace}
    (h : modelName o description w = .ok naming v) :
    (statedName? o description = .ok (some naming) ∧ v = w) ∨
      (statedName? o description = .ok none ∧ ∃ next, (w.sequences o.sequence).next? = some next ∧
        v = w.setSequence o.sequence next) := by
  rw [modelName_eq] at h
  cases hs : statedName? o description with
  | error e =>
    rw [hs] at h
    cases h
  | ok found =>
    rw [hs] at h
    cases found with
    | some stated =>
      cases h
      exact .inl ⟨rfl, rfl⟩
    | none =>
      dsimp only at h
      cases hn : (w.sequences o.sequence).next? with
      | none =>
        rw [hn] at h
        cases h
      | some next =>
        rw [hn] at h
        cases h
        exact .inr ⟨rfl, next, rfl, rfl⟩

theorem ReservedKey.opening {s : String} {part : ReservedKey} (h : ofKey? s = some part) :
    s.toList.take 2 = ['_', '_'] := by
  unfold ofKey? at h
  split at h <;> first | rfl | cases h

def modelMisuse? (name : Value) (keys : List Value) : Option Misuse :=
  (classMisuse? name keys).or
    (if keys.any fun key => ReservedKey.ofValue? key = some .fieldList then some .fieldListReplaced
    else none)

theorem text_of_classMisuse? {name : Value} {keys : List Value}
    (h : classMisuse? name keys = none) : ∃ s, name = .text s := by
  unfold classMisuse? at h
  split at h
  · exact ⟨_, rfl⟩
  · cases h

theorem text_of_modelMisuse? {name : Value} {keys : List Value}
    (h : modelMisuse? name keys = none) : ∃ s, name = .text s :=
  text_of_classMisuse? (Option.or_eq_none_iff.mp h).1

theorem whole?_of_modelBase {c : ClassHandle} {m : ModelClass} (hm : w.class? c = some m)
    (hl : m.line = [.modelBase]) : w.whole? c = some m := by
  rw [Workspace.whole?, hm, Option.map_some, hl]
  rfl

/-- Whether a field takes the place where the class made of a shape would tell its node. -/
def hidesSource (shape : List (Value × Node)) : Bool :=
  shape.any fun f => ReservedKey.ofValue? f.1 = some .source

def shownSource (a : Annotations) (shape : List (Value × Node)) : Option Node :=
  if hidesSource shape then none else some (.object a shape)

theorem source_classOf {name : String} {description : Value} {a : Annotations}
    {shape : List (Value × Node)} {fields : List CompiledField}
    (h : fields.map (·.slot.attr) = shape.map (·.1)) :
    (classOf name description (.object a shape) fields).source = shownSource a shape := by
  have hhides : ((fields.map (·.slot)).find? (·.part? = some .source)).isSome = hidesSource shape := by
    have hany := congrArg (·.any fun key => ReservedKey.ofValue? key = some .source) h
    rw [List.any_map, List.any_map] at hany
    rw [List.isSome_find?, List.any_map]
    exact hany
  unfold shownSource
  rw [← hhides]
  rfl

section Definition

variable {o : Options} {naming : ModelName} {source : Node} {fields : List CompiledField}

theorem defineModel_of_misuse {m : Misuse}
    (h : modelMisuse? naming.name (fields.map (·.key)) = some m) :
    defineModel o naming source fields w = .error (.misuse m) w := by
  unfold defineModel
  unfold modelMisuse? at h
  generalize fields.map (·.key) = keys at h
  cases hm : classMisuse? naming.name keys with
  | some other =>
    rw [hm] at h
    cases h
    cases naming.name <;> rfl
  | none =>
    obtain ⟨name, hname⟩ := text_of_classMisuse? hm
    rw [hm, Option.none_or] at h
    rw [hname]
    by_cases hlist : (keys.any fun key => ReservedKey.ofValue? key = some .fieldList) = true
    · rw [if_pos hlist] at h
      cases h
      dsimp only
      rw [if_pos hlist]
      rfl
    · rw [if_neg hlist] at h
      cases h

theorem defineModel_of_text {name : String} (hname : naming.name = .text name)
    (h : modelMisuse? naming.name (fields.map (·.key)) = none) :
    defineModel o naming source fields w =
      match registerObject o.registry (.text name) ⟨w.classes.length, name⟩ naming.description
        (w.withClass (classOf name naming.description source fields)) with
      | .ok c w' => .ok c
          { w' with events := w'.events ++ [.modelSynthesized name (fields.map (·.key))] }
      | .error e w' => .error e w' := by
  unfold defineModel
  obtain ⟨hm, hlist⟩ := Option.or_eq_none_iff.mp h
  generalize fields.map (·.key) = keys at hm hlist ⊢
  have hkeys : ¬(keys.any fun key => ReservedKey.ofValue? key = some .fieldList) = true := by
    intro hany
    rw [if_pos hany] at hlist
    cases hlist
  rw [hm, hname]
  dsimp only
  rw [if_neg hkeys]
  change (addClass _ >>= fun handle => registerObject o.registry (.text name) handle
    naming.description >>= fun handle => report (.modelSynthesized name keys) >>= fun _ =>
    pure handle) w = _
  rw [bind_apply]
  change ((registerObject o.registry (.text name) ⟨w.classes.length, name⟩ naming.description)
    >>= _) (w.withClass _) = _
  rw [bind_apply]
  cases registerObject o.registry (.text name) ⟨w.classes.length, name⟩ naming.description
    (w.withClass (classOf name naming.description source fields)) <;> rfl

end Definition

def Options.within (o : Options) (naming : ModelName) : Options :=
  { o with
    name := naming.name
    generatedName := naming.generated || (o.generatedName && o.name.truthy) }

theorem synthesize_eq (o : Options) (source : Node) (description : Value)
    (compileFields : Options → Work (List CompiledField)) :
    synthesize o source description compileFields w =
      match modelName o description w with
      | .error e w' => .error e w'
      | .ok naming w' =>
        match naming.name.key? with
        | none => .error (.misuse .notKey) w'
        | some key =>
          match (w'.registries o.registry).get? key with
          | some (.object c) =>
            if (w'.whole? c).bind (·.source) = some source then .ok c w'
            else .error (.duplicateType naming.name) w'
          | some (.enum _) => .error (.duplicateType naming.name) w'
          | none =>
            match compileFields (o.within naming) w' with
            | .error e w'' => .error e w''
            | .ok fields w'' => defineModel o naming source fields w'' := by
  unfold synthesize
  rw [bind_apply]
  cases modelName o description w with
  | error e w' => rfl
  | ok naming w' =>
    dsimp only
    rw [bind_apply, registeredAs_eq]
    cases naming.name.key? with
    | none => rfl
    | some key =>
      dsimp only
      cases (w'.registries o.registry).get? key with
      | none =>
        change (compileFields (o.within naming) >>= fun fields =>
          defineModel o naming source fields) w' = _
        rw [bind_apply]
        cases compileFields (o.within naming) w' <;> rfl
      | some t =>
        cases t with
        | enum e => rfl
        | object c =>
          dsimp only
          rw [get_bind_apply]
          split <;> rfl

/-- How finding or making the model of a node ends. Fields are compiled in the last two cases only. -/
inductive Synthesis (o : Options) (source : Node) (description : Value)
    (compileFields : Options → Work (List CompiledField)) (w : Workspace) :
    EStateM.Result Failure Workspace ClassHandle → Prop
  | unnamed {e : Failure} {w' : Workspace} (name : modelName o description w = .error e w') :
    Synthesis o source description compileFields w (.error e w')
  | refused {naming : ModelName} {w' : Workspace} {e : Failure}
    (name : modelName o description w = .ok naming w')
    (reason : e = .misuse .notKey ∨ e = .duplicateType naming.name) :
    Synthesis o source description compileFields w (.error e w')
  | held {naming : ModelName} {w' : Workspace} {c : ClassHandle}
    (name : modelName o description w = .ok naming w')
    (same : (w'.whole? c).bind (·.source) = some source) :
    Synthesis o source description compileFields w (.ok c w')
  | failed {naming : ModelName} {w' w'' : Workspace} {key : Key} {e : Failure}
    (name : modelName o description w = .ok naming w') (isKey : naming.name.key? = some key)
    (free : (w'.registries o.registry).get? key = none)
    (fields : compileFields (o.within naming) w' = .error e w'') :
    Synthesis o source description compileFields w (.error e w'')
  | made {naming : ModelName} {w' w'' : Workspace} {fields : List CompiledField}
    (name : modelName o description w = .ok naming w')
    (compiled : compileFields (o.within naming) w' = .ok fields w'') :
    Synthesis o source description compileFields w (defineModel o naming source fields w'')

theorem synthesis (o : Options) (source : Node) (description : Value)
    (compileFields : Options → Work (List CompiledField)) :
    Synthesis o source description compileFields w
      (synthesize o source description compileFields w) := by
  rw [synthesize_eq]
  cases hn : modelName o description w with
  | error e w' => exact .unnamed hn
  | ok naming w' =>
    dsimp only
    cases hkey : naming.name.key? with
    | none => exact .refused hn (.inl rfl)
    | some key =>
      dsimp only
      cases hget : (w'.registries o.registry).get? key with
      | some t =>
        cases t with
        | enum e => exact .refused hn (.inr rfl)
        | object c =>
          dsimp only
          by_cases hsource : (w'.whole? c).bind (·.source) = some source
          · rw [if_pos hsource]
            exact .held hn hsource
          · rw [if_neg hsource]
            exact .refused hn (.inr rfl)
      | none =>
        dsimp only
        cases hf : compileFields (o.within naming) w' with
        | error e w'' => exact .failed hn hkey hget hf
        | ok fields w'' => exact .made hn hf

theorem synthesize_ok {o : Options} {source : Node} {description : Value}
    {compileFields : Options → Work (List CompiledField)} {naming : ModelName} {c : ClassHandle}
    {w w₀ w₁ : Workspace} (hn : modelName o description w = .ok naming w₀)
    (h : synthesize o source description compileFields w = .ok c w₁) :
    ∃ key, naming.name.key? = some key ∧
      (((w₀.registries o.registry).get? key = some (.object c) ∧
          (w₀.whole? c).bind (·.source) = some source ∧ w₁ = w₀) ∨
        ((w₀.registries o.registry).get? key = none ∧ ∃ fields w₂,
          compileFields (o.within naming) w₀ = .ok fields w₂ ∧
          defineModel o naming source fields w₂ = .ok c w₁)) := by
  rw [synthesize_eq, hn] at h
  dsimp only at h
  cases hkey : naming.name.key? with
  | none =>
    rw [hkey] at h
    cases h
  | some key =>
    rw [hkey] at h
    dsimp only at h
    refine ⟨key, rfl, ?_⟩
    cases hget : (w₀.registries o.registry).get? key with
    | some t =>
      rw [hget] at h
      cases t with
      | enum e => cases h
      | object d =>
        dsimp only at h
        by_cases hs : (w₀.whole? d).bind (·.source) = some source
        · rw [if_pos hs] at h
          cases h
          exact .inl ⟨rfl, hs, rfl⟩
        · rw [if_neg hs] at h
          cases h
    | none =>
      rw [hget] at h
      dsimp only at h
      cases hf : compileFields (o.within naming) w₀ with
      | error e w₂ =>
        rw [hf] at h
        cases h
      | ok fields w₂ =>
        rw [hf] at h
        exact .inr ⟨rfl, fields, w₂, rfl, h⟩

section Stated

variable {o : Options} {w : Workspace} {naming : ModelName} {description : Value} {name : Key}
  (source : Node) (compileFields : Options → Work (List CompiledField))

theorem synthesize_of_stated (hs : statedName? o description = .ok (some naming)) (w : Workspace) :
    synthesize o source description compileFields w =
      match naming.name.key? with
      | none => .error (.misuse .notKey) w
      | some key =>
        match (w.registries o.registry).get? key with
        | some (.object c) =>
          if (w.whole? c).bind (·.source) = some source then .ok c w
          else .error (.duplicateType naming.name) w
        | some (.enum _) => .error (.duplicateType naming.name) w
        | none =>
          match compileFields (o.within naming) w with
          | .error e w' => .error e w'
          | .ok fields w' => defineModel o naming source fields w' := by
  have hrun := synthesize_eq w o source description compileFields
  rw [modelName_eq, hs] at hrun
  exact hrun

theorem synthesize_of_free (hs : statedName? o description = .ok (some naming))
    (hkey : naming.name.key? = some name) (hfree : (w.registries o.registry).get? name = none) :
    synthesize o source description compileFields w =
      match compileFields (o.within naming) w with
      | .error e w' => .error e w'
      | .ok fields w' => defineModel o naming source fields w' := by
  rw [synthesize_of_stated source compileFields hs, hkey]
  dsimp only
  rw [hfree]

theorem synthesize_of_held (hs : statedName? o description = .ok (some naming))
    (hkey : naming.name.key? = some name) {t : NamedType}
    (hheld : (w.registries o.registry).get? name = some t) :
    (∃ c, t = .object c ∧ (w.whole? c).bind (·.source) = some source ∧
      synthesize o source description compileFields w = .ok c w) ∨
    synthesize o source description compileFields w = .error (.duplicateType naming.name) w := by
  rw [synthesize_of_stated source compileFields hs, hkey]
  dsimp only
  rw [hheld]
  cases t with
  | enum e => exact .inr rfl
  | object c =>
    dsimp only
    by_cases hsource : (w.whole? c).bind (·.source) = some source
    · rw [if_pos hsource]
      exact .inl ⟨c, rfl, hsource, rfl⟩
    · rw [if_neg hsource]
      exact .inr rfl

end Stated

theorem classify_object {o : Options} (ho : o.builder = none) (key : Value) (a : Annotations)
    (shape : List (Value × Node)) :
    classify o key (.object a shape) = do
      let name ← Work.ofExcept (nestedName o key a.description)
      let handle ← synthesize { o with name } (.object a shape) a.description
        fun inner => compileShape inner shape
      return .ofType (.object handle) a := by
  rw [classify]
  simp only [ho]

def compileNode (o : Options) (key : Value) (node : Node) : Work CompiledField :=
  match node.kind? with
  | some kind =>
    if kind.isField then compileField o key node kind (classify o key node)
    else throw (.unsupportedKind key (some kind))
  | none => throw (.unsupportedKind key none)

theorem compileShape_cons (o : Options) (key : Value) (node : Node) (rest : List (Value × Node)) :
    compileShape o ((key, node) :: rest) = do
      let field ← compileNode o key node
      let fields ← compileShape o rest
      return field :: fields := by
  rw [compileShape, compileNode]
  cases node.kind? with
  | none => rfl
  | some kind =>
    dsimp only
    split <;> rfl

theorem compileNode_cases (o : Options) (key : Value) (node : Node) :
    (∃ kind, node.kind? = some kind ∧ kind.isField = true ∧
      compileNode o key node = compileField o key node kind (classify o key node)) ∨
    (∀ kind, node.kind? = some kind → kind.isField = false) ∧
      compileNode o key node = throw (.unsupportedKind key node.kind?) := by
  unfold compileNode
  cases node.kind? with
  | none => exact .inr ⟨nofun, rfl⟩
  | some kind =>
    dsimp only
    by_cases hf : kind.isField = true
    · rw [if_pos hf]
      exact .inl ⟨kind, rfl, hf, rfl⟩
    · rw [if_neg hf]
      refine .inr ⟨fun k hk => ?_, rfl⟩
      cases hk
      simpa using hf

end SchemaCompiler
