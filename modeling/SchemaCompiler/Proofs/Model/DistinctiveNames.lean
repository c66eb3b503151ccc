import SchemaCompiler.Proofs.Model.Closure
import SchemaCompiler.Proofs.Model.Recording
import SchemaCompiler.Proofs.Naming.PascalCase

namespace SchemaCompiler

open Work

def NotScalar (name : String) : Prop := ∀ s : Scalar, name ≠ s.name

def NotList (name : String) : Prop := ∀ inner, name ≠ "[" ++ inner ++ "]"

structure Distinctive (name : String) : Prop where
  scalar : NotScalar name
  list : NotList name

section Text

variable {name own : String} {c : Char} {key : List Char}

theorem distinctive_of_head (h : name.toList.head? = some c) (hc : c ∉ ['B', 'S', 'F', 'I', '[']) :
    Distinctive name := by
  constructor
  · rintro s rfl
    have hs : s.name.toList.head?.all (· ∈ ['B', 'S', 'F', 'I']) = true := by cases s <;> decide
    rw [h] at hs
    simp_all
  · rintro inner rfl
    simp only [String.toList_append, List.head?_append] at h
    cases h
    exact hc (by decide)

theorem distinctive_of_last (h : name.toList.getLast? = some c) (hc : c ∉ ['n', 'g', 't', ']']) :
    Distinctive name := by
  constructor
  · rintro s rfl
    have hs : s.name.toList.getLast?.all (· ∈ ['n', 'g', 't']) = true := by cases s <;> decide
    rw [h] at hs
    simp_all
  · rintro inner rfl
    rw [String.toList_append, List.getLast?_append_of_ne_nil _ (by decide)] at h
    cases h
    exact hc (by decide)

theorem notList_scalar (s : Scalar) : NotList s.name := by
  intro inner h
  have hhead : s.name.toList.head? ≠ some '[' := by cases s <;> decide
  rw [h] at hhead
  simp at hhead

theorem distinctive_none : Distinctive "None" :=
  distinctive_of_head (c := 'N') (by decide) (by decide)

theorem distinctive_sequenceName (n : Value) : Distinctive (sequenceName n) := by
  apply distinctive_of_head (c := 'C')
  · simp [sequenceName, ToString.toString]
  · decide

/-- Scalars have one capital, and a key adds another one or a digit. -/
theorem NotScalar.append (h : NotScalar name) (hn : name ≠ "")
    (hown : own.toList = Naming.pascalFrom false key) : NotScalar (name ++ own) := by
  cases hkey : own.toList with
  | nil =>
    rw [String.toList_eq_nil_iff.mp hkey, String.append_empty]
    exact h
  | cons c rest =>
    obtain ⟨d, before, hname⟩ := List.exists_cons_of_ne_nil (mt String.toList_eq_nil_iff.mp hn)
    rw [hkey] at hown
    intro s hs
    have hlower : s.name.toList.tail.all Char.isLower = true := by cases s <;> rfl
    rw [← hs, String.toList_append, hname, hkey, List.cons_append, List.tail_cons] at hlower
    have hc := List.all_eq_true.mp hlower c (by simp)
    rw [Naming.not_isLower_head hown.symm] at hc
    cases hc

theorem notList_append (hown : own.toList = Naming.pascalFrom false key) (hne : own ≠ "") :
    NotList (name ++ own) := by
  intro inner h
  have hnil : own.toList ≠ [] := mt String.toList_eq_nil_iff.mp hne
  have hlast := congrArg (fun s => s.toList.getLast?) h
  rw [String.toList_append, String.toList_append, List.getLast?_append_of_ne_nil _ hnil,
    List.getLast?_append_of_ne_nil _ (by decide)] at hlast
  have hmem := List.mem_of_getLast? hlast
  rw [hown] at hmem
  exact absurd (Naming.isAlphanum_of_mem hmem) (by decide)

end Text

theorem distinctive_of_colon {v : Value} {t : Naming.Titled}
    (h : Naming.Convention.colon.read v = .ok (some t)) (hs : NotScalar t.name) : Distinctive t.name := by
  refine ⟨hs, fun inner hlist => ?_⟩
  cases v with
  | text s =>
    have hword := Naming.word_readColon (List.forall_mem_nil _) (Except.ok.inj h) '[' (by simp [hlist])
    exact absurd hword (by decide)
  | _ => cases h

theorem pascalFrom_of_ok {v : Value} {own : String} (h : Naming.pascalCaseOf v = .ok own) :
    ∃ key, own.toList = Naming.pascalFrom false key := by
  cases v with
  | text s =>
    cases h
    exact ⟨s.toList, String.toList_ofList⟩
  | _ =>
    unfold Naming.pascalCaseOf at h
    dsimp only at h
    split at h <;> cases h
    exact ⟨[], rfl⟩

/-- Options that give nothing the name of a scalar, and no enum that of a list. -/
structure Options.Distinctive (o : Options) : Prop where
  name : NotScalar o.name.display
  enums : ∀ f, o.enumName = some f → ∀ key scope name, f key scope = .ok name →
    SchemaCompiler.Distinctive name

def Naming.Convention.Distinctive (c : Convention) (description : Value) : Prop :=
  ∀ t, c.read description = .ok (some t) → SchemaCompiler.Distinctive t.name

def Node.Distinctive (c : Naming.Convention) : Node → Prop := EachDescription c.Distinctive

theorem nestedName_parts {o : Options} {key description name : Value}
    (hn : nestedName o key description = .ok name) : name = .null ∨ o.name.display ≠ "" ∧
      ∃ own s, own.toList = Naming.pascalFrom false s ∧ name = .text (o.name.display ++ own) := by
  unfold nestedName at hn
  split at hn
  · cases hn
    exact .inl rfl
  · rename_i htruthy
    rw [← apply_ite (· >>= _)] at hn
    obtain ⟨found, -, hn⟩ := Outcome.bind_eq_ok_iff.mp hn
    cases found with
    | some t =>
      cases hn
      exact .inl rfl
    | none =>
      obtain ⟨own, hown, hn⟩ := Outcome.bind_eq_ok_iff.mp hn
      cases hn
      obtain ⟨s, hs⟩ := pascalFrom_of_ok hown
      exact .inr ⟨Value.display_ne_empty (by simpa using htruthy), own, s, hs, rfl⟩

theorem modelName_parts {o : Options} {description : Value} {naming : ModelName} {v w : Workspace}
    (hread : o.name.truthy = false → o.convention.Distinctive description)
    (hn : modelName o description w = .ok naming v) :
    naming.name = o.name ∨ Distinctive naming.name.display := by
  rw [modelName_eq] at hn
  cases hs : statedName? o description with
  | error e =>
    rw [hs] at hn
    cases hn
  | ok found =>
    rw [hs] at hn
    cases found with
    | none =>
      dsimp only at hn
      split at hn <;> cases hn
      exact .inr (distinctive_sequenceName _)
    | some stated =>
      cases hn
      unfold statedName? at hs
      split at hs
      · cases hs
        exact .inl rfl
      · rename_i hname
        split at hs
        · cases ht : o.titled description with
          | error e =>
            rw [ht] at hs
            cases hs
          | ok found =>
            rw [ht] at hs
            cases found with
            | none => cases hs
            | some t =>
              cases hs
              exact .inr (hread (by simpa using hname) t (Options.read_of_titled ht))
        · cases hs

namespace Options.Distinctive

variable {o : Options} {key description : Value} (h : o.Distinctive)

include h

theorem within {naming : ModelName} (hn : NotScalar naming.name.display) : (o.within naming).Distinctive :=
  ⟨hn, h.enums⟩

theorem enumTypeName {name : String} (hn : SchemaCompiler.enumTypeName o key = .ok name) :
    SchemaCompiler.Distinctive name := by
  unfold SchemaCompiler.enumTypeName at hn
  dsimp only at hn
  split at hn
  · rename_i f hf
    exact h.enums f hf _ _ _ hn
  · obtain ⟨own, -, hn⟩ := Outcome.bind_eq_ok_iff.mp hn
    cases hn
    apply distinctive_of_last (c := 'm')
    · simp
    · decide

theorem nested {name : Value} (hn : SchemaCompiler.nestedName o key description = .ok name) :
    Options.Distinctive { o with name } := by
  refine ⟨?_, h.enums⟩
  rcases nestedName_parts hn with rfl | ⟨hne, own, s, hs, rfl⟩
  · exact distinctive_none.scalar
  · exact h.name.append hne hs

variable {naming : ModelName} {v w : Workspace}
  (hread : o.name.truthy = false → o.convention.Distinctive description)

include hread

theorem notScalar_modelName (hn : SchemaCompiler.modelName o description w = .ok naming v) :
    NotScalar naming.name.display := by
  rcases modelName_parts hread hn with he | hd
  · rw [he]
    exact h.name
  · exact hd.scalar

end Options.Distinctive

theorem typeName_toOutput (t : NamedType) : t.toOutput.typeName = .ok t.name := by cases t <;> rfl

/-- The text of a type, its lists aside, is not that of a list, unless it is the given one. -/
def LeafApart (own : String) (type : OutputType) : Prop :=
  ∀ name, type.leaf.typeName = .ok name → NotList name ∨ name = own

structure NamedApart (w : Workspace) : Prop where
  scalars : ∀ id, ∀ entry ∈ (w.registries id).entries, NotScalar entry.type.name
  enums : ∀ id, ∀ entry ∈ (w.registries id).entries, ∀ e, entry.type = .enum e → NotList e.name
  models : ∀ id, ∀ entry ∈ (w.registries id).entries, ∀ c, entry.type = .object c →
    ∃ m, w.class? c = some m ∧ ∀ f ∈ m.fields, ∀ name, f.type.leaf.typeName = .ok name → NotList name

abbrev LeavesApart {α : Type} (x : Work α) (w : Workspace) (Q : α → Prop) : Prop :=
  Ends x w (fun a w' => NamedApart w' ∧ Q a) fun _ w' => NamedApart w'

section Work

variable {w : Workspace} {o : Options}

theorem LeavesApart.bind {α β : Type} {x : Work α} {f : α → Work β} {P : α → Prop} {Q : β → Prop}
    (h : LeavesApart x w P)
    (hf : ∀ a w', x w = .ok a w' → NamedApart w' → P a → LeavesApart (f a) w' Q) :
    LeavesApart (x >>= f) w Q := by
  unfold LeavesApart Ends at h ⊢
  rw [bind_apply]
  cases hx : x w with
  | ok a w' =>
    rw [hx] at h
    exact hf a w' hx h.1 h.2
  | error e w' =>
    rw [hx] at h
    exact h

theorem modelName_error {description : Value} {e : Failure} {v : Workspace}
    (h : modelName o description w = .error e v) : v = w := by
  rw [modelName_eq] at h
  split at h
  · cases h
    rfl
  · cases h
  · split at h <;> cases h
    rfl

theorem display_of_key?_text {v : Value} {s : String} (h : v.key? = some (.text s)) : v.display = s := by
  cases v with
  | text t =>
    cases h
    rfl
  | float x => cases hx : x.toInt? <;> simp [Value.key?, hx] at h
  | _ => cases h

theorem LeavesApart.ofExcept {α : Type} {x : Except Failure α} (hw : NamedApart w) :
    LeavesApart (Work.ofExcept x) w fun _ => True := Ends.ofExcept (fun _ _ => ⟨hw, trivial⟩) fun _ _ => hw

theorem NamedApart.add (hw : NamedApart w) (id : Key) (entry : Registry.Entry)
    (hs : NotScalar entry.type.name) (he : ∀ e, entry.type = .enum e → NotList e.name)
    (hm : ∀ c, entry.type = .object c → ∃ m, w.class? c = some m ∧
      ∀ f ∈ m.fields, ∀ name, f.type.leaf.typeName = .ok name → NotList name) :
    NamedApart (w.setRegistry id ((w.registries id).add entry)) := by
  constructor <;> intro id' e hmem <;> rcases mem_registries_add hmem with hmem | rfl
  · exact hw.scalars id' e hmem
  · exact hs
  · exact hw.enums id' e hmem
  · exact he
  · exact hw.models id' e hmem
  · exact hm

theorem NamedApart.withClass (hw : NamedApart w) (c : ModelClass) : NamedApart (w.withClass c) := by
  refine ⟨hw.scalars, hw.enums, fun id entry he d hd => ?_⟩
  obtain ⟨m, hm, hf⟩ := hw.models id entry he d hd
  exact ⟨m, class?_of_grows (.withClass w c) hm, hf⟩

theorem registerEnum_apart (hw : NamedApart w) (registry : Key) {name : String}
    (hn : Distinctive name) (members : List (String × Value)) (description : Value) :
    LeavesApart (registerEnum registry (.text name) members description) w fun _ => True := by
  unfold LeavesApart Ends
  rw [registerEnum_text]
  cases (w.registries registry).get? (.text name) with
  | none =>
    cases EnumType.misuse? (.text name) members with
    | some m => exact hw
    | none =>
      have hcounted : NamedApart { w with enumCount := w.enumCount + 1 } := ⟨hw.scalars, hw.enums, hw.models⟩
      obtain ⟨scalars, enums, models⟩ := hcounted.add registry
        ⟨.text name, .enum ⟨w.enumCount, name, members, description⟩, description⟩ hn.scalar
        (fun e he => by cases he; exact hn.list) nofun
      exact ⟨⟨scalars, enums, models⟩, trivial⟩
  | some t =>
    cases t with
    | object c => exact hw
    | enum e =>
      dsimp only
      by_cases hs : Value.sameRecord e.members members = true
      · rw [if_pos hs]
        exact ⟨hw, trivial⟩
      · rw [if_neg hs]
        exact hw

theorem fieldEnum_apart (hc : Closed w) (hw : NamedApart w) (ho : o.Distinctive) (key : Value)
    (source : EnumSource) : LeavesApart (fieldEnum o key source) w fun e => NotList e.name := by
  have hnamed : LeavesApart (fieldEnum o key source) w fun _ => True := by
    unfold LeavesApart Ends
    rw [fieldEnum_eq]
    cases houtline : enumOutline o key source with
    | error e => exact hw
    | ok outline =>
      obtain ⟨name, members⟩ := outline
      dsimp only
      cases currentEnum? w o name members with
      | some e => exact ⟨hw, trivial⟩
      | none =>
        obtain ⟨own, hown, hrest⟩ := Outcome.bind_eq_ok_iff.mp houtline
        have hname : own = name := by
          split at hrest <;> cases hrest
          rfl
        have hregister := registerEnum_apart hw o.registry
          (hname ▸ ho.enumTypeName hown) members source.description
        unfold LeavesApart Ends at hregister
        dsimp only
        cases hr : registerEnum o.registry (.text name) members source.description w with
        | ok e w' =>
          rw [hr] at hregister
          obtain ⟨⟨scalars, enums, models⟩, -⟩ := hregister
          exact ⟨⟨scalars, enums, models⟩, trivial⟩
        | error e w' =>
          rw [hr] at hregister
          exact hregister
  have hheld := fieldEnum_keeps o key source hc
  unfold Keeps Ends at hheld
  unfold LeavesApart Ends at hnamed ⊢
  cases hr : fieldEnum o key source w with
  | ok e w' =>
    rw [hr] at hnamed hheld
    obtain ⟨-, -, entry, he, ht⟩ := hheld
    exact ⟨hnamed.1, hnamed.1.enums _ entry he e ht⟩
  | error e w' =>
    rw [hr] at hnamed
    exact hnamed

/-- A model that is registered has no field of a type with its own name: that name would be taken. -/
theorem defineModel_apart (hc : Closed w) (hw : NamedApart w) {naming : ModelName}
    (hn : NotScalar naming.name.display) (source : Node) {fields : List CompiledField}
    (hk : ∀ f ∈ fields, Known (w.registries o.registry).entries f.type)
    (hf : ∀ f ∈ fields, LeafApart naming.name.display f.type) :
    LeavesApart (defineModel o naming source fields) w fun c => c.name = naming.name.display := by
  unfold LeavesApart Ends
  cases hm : modelMisuse? naming.name (fields.map (·.key)) with
  | some m =>
    rw [defineModel_of_misuse w hm]
    exact hw
  | none =>
    obtain ⟨name, hname⟩ := text_of_modelMisuse? hm
    rw [defineModel_of_text w hname hm, registerObject_eq, Value.key?_text]
    rw [hname] at hn hf
    have hclass := hw.withClass (classOf name naming.description source fields)
    dsimp only
    cases hg : ((w.withClass (classOf name naming.description source fields)).registries
      o.registry).get? (.text name) with
    | none =>
      have hmodel : ∀ f ∈ (classOf name naming.description source fields).fields,
          ∀ leaf, f.type.leaf.typeName = .ok leaf → NotList leaf := by
        intro f hmem leaf hleaf
        obtain ⟨field, hfield, rfl⟩ := List.mem_map.mp hmem
        rcases hf field hfield leaf hleaf with hlist | rfl
        · exact hlist
        · rcases hk field hfield with ⟨s, hs⟩ | ⟨e, he, hs⟩
          · change field.type.leaf.typeName = _ at hleaf
            rw [hs] at hleaf
            exact absurd (Except.ok.inj hleaf).symm (hn s)
          · have hheld := (hc.ordered o.registry).get?_eq he
            obtain ⟨_, _, hp⟩ := (hc.ordered o.registry).placed he
            change field.type.leaf.typeName = _ at hleaf
            rw [hs, typeName_toOutput] at hleaf
            rw [hp.named, Except.ok.inj hleaf] at hheld
            exact absurd (hg.symm.trans hheld) nofun
      obtain ⟨scalars, enums, models⟩ := hclass.add o.registry
        ⟨.text name, .object ⟨w.classes.length, name⟩, naming.description⟩ hn nofun
        (fun c hcm => by cases hcm; exact ⟨_, List.getElem?_concat_length, hmodel⟩)
      exact ⟨⟨scalars, enums, models⟩, congrArg Value.display hname.symm⟩
    | some t =>
      obtain ⟨scalars, enums, models⟩ := hclass
      cases t with
      | enum e => exact ⟨scalars, enums, models⟩
      | object d =>
        dsimp only
        by_cases hd : d.serial = w.classes.length
        · rw [if_pos hd]
          exact ⟨⟨scalars, enums, models⟩, congrArg Value.display hname.symm⟩
        · rw [if_neg hd]
          exact ⟨scalars, enums, models⟩

theorem Keeps.closed {α : Type} {x : Work α} {Q : α → Workspace → Prop} {a : α} {w' : Workspace}
    (h : Keeps x w Q) (hx : x w = .ok a w') : Closed w' ∧ Q a w' := by
  unfold Keeps Ends at h
  rw [hx] at h
  exact ⟨h.1, h.2.2⟩

theorem synthesize_apart (hc : Closed w) (hw : NamedApart w) (ho : o.Distinctive) {source : Node}
    {description : Value} (hread : o.name.truthy = false → o.convention.Distinctive description)
    {compileFields : Options → Work (List CompiledField)}
    (hk : ∀ naming v, Closed v → Keeps (compileFields (o.within naming)) v fun fields v' =>
      ∀ f ∈ fields, Known (v'.registries o.registry).entries f.type)
    (hf : ∀ naming v, NotScalar naming.name.display → Closed v → NamedApart v →
      LeavesApart (compileFields (o.within naming)) v fun fields =>
        ∀ f ∈ fields, LeafApart naming.name.display f.type) :
    LeavesApart (synthesize o source description compileFields) w fun c =>
      NotList c.name ∨ c.name = o.name.display := by
  have hdrawn {naming : ModelName} {v : Workspace} (h : modelName o description w = .ok naming v) :
      Closed v ∧ NamedApart v := by
    rcases modelName_ok h with ⟨-, rfl⟩ | ⟨-, next, -, rfl⟩
    · exact ⟨hc, hw⟩
    · obtain ⟨ordered, counted, told⟩ := hc
      obtain ⟨scalars, enums, models⟩ := hw
      exact ⟨⟨ordered, counted, told⟩, scalars, enums, models⟩
  have hnamed {naming : ModelName} {v : Workspace} {c : ClassHandle}
      (h : modelName o description w = .ok naming v) (hn : c.name = naming.name.display) :
      NotList c.name ∨ c.name = o.name.display := by
    rw [hn]
    rcases modelName_parts hread h with he | hd
    · exact .inr (congrArg Value.display he)
    · exact .inl hd.list
  unfold LeavesApart Ends
  rw [synthesize_eq]
  cases hm : modelName o description w with
  | error e v =>
    obtain rfl := modelName_error hm
    exact hw
  | ok naming v =>
    obtain ⟨hcv, hwv⟩ := hdrawn hm
    dsimp only
    cases hkey : naming.name.key? with
    | none => exact hwv
    | some key =>
      dsimp only
      cases hg : (v.registries o.registry).get? key with
      | some t =>
        cases t with
        | enum e => exact hwv
        | object c =>
          dsimp only
          by_cases hs : (v.whole? c).bind (·.source) = some source
          · rw [if_pos hs]
            obtain ⟨entry, he, hentry, ht⟩ := Registry.mem_of_get? hg
            obtain ⟨_, _, hp⟩ := (hcv.ordered o.registry).placed he
            rw [← hentry, hp.named, ht] at hkey
            exact ⟨hwv, hnamed hm (display_of_key?_text hkey).symm⟩
          · rw [if_neg hs]
            exact hwv
      | none =>
        have hn := ho.notScalar_modelName hread hm
        have hfields := hf naming v hn hcv hwv
        unfold LeavesApart Ends at hfields
        dsimp only
        cases hr : compileFields (o.within naming) v with
        | error e v' =>
          rw [hr] at hfields
          exact hfields
        | ok fields v' =>
          rw [hr] at hfields
          obtain ⟨hc', hknown⟩ := (hk naming v hcv).closed hr
          have hdefine := defineModel_apart (o := o) hc' hfields.1 hn source hknown hfields.2
          exact hdefine.imp (fun c w' ⟨hw', he⟩ => ⟨hw', hnamed hm he⟩) fun _ _ hw' => hw'

theorem LeafApart.fill {own : String} {type : OutputType} {e : EnumType} (h : LeafApart own type)
    (he : NotList e.name) : LeafApart own (type.fill e) := by
  intro name hname
  rw [leaf_fill] at hname
  split at hname
  · rw [← Except.ok.inj hname]
    exact .inl he
  · exact h name hname

theorem fieldType_apart (hc : Closed w) (hw : NamedApart w) (ho : o.Distinctive) (key : Value)
    (node : Node) {c : Classification} {own : String} (ht : LeafApart own c.type) :
    LeavesApart (fieldType o key node c) w (LeafApart own) := by
  unfold fieldType
  split
  · refine (fieldEnum_apart hc hw ho key _).bind fun e w' _ hw' he => ?_
    exact ⟨hw', ht.fill he⟩
  · split
    · exact hw
    · exact ⟨hw, ht⟩

theorem compileField_apart (ho : o.Distinctive) (key : Value) (node : Node) (kind : Kind)
    {classified : Work Classification} {P : Classification → Workspace → Prop} {own : String}
    (hk : Keeps classified w P) (h : LeavesApart classified w fun c => LeafApart own c.type) :
    LeavesApart (compileField o key node kind classified) w fun f => LeafApart own f.type := by
  unfold compileField
  refine h.bind fun c w1 hr hw1 hc => ?_
  refine (fieldType_apart (hk.closed hr).1 hw1 ho key node hc).bind fun type w2 _ hw2 ht => ?_
  refine (LeavesApart.ofExcept hw2).bind fun default w3 _ hw3 _ => ?_
  refine (LeavesApart.ofExcept hw3).bind fun description w4 _ hw4 _ => ?_
  exact ⟨hw4, ht⟩

theorem leafApart_scalar (own : String) (s : Scalar) : LeafApart own (.scalar s) := by
  intro name hname
  rw [← Except.ok.inj hname]
  exact .inl (notList_scalar s)

theorem leafApart_placeholder (own : String) : LeafApart own .placeholder := by
  intro name hname
  cases hname

end Work

mutual

theorem classify_apart {o : Options} (hb : o.builder = none) (ho : o.Distinctive) (key : Value) :
    (node : Node) → node.Distinctive o.convention → (w : Workspace) → Closed w → NamedApart w →
    LeavesApart (classify o key node) w fun c => LeafApart o.name.display c.type
  | .optional a inner, hd, w, hc, hw => by
    rw [classify]
    refine (classify_apart hb ho key inner (Node.eachDescription_optional.mp hd) w hc hw).bind ?_
    exact fun c w' _ hw' ht => ⟨hw', ht⟩
  | .array a item, hd, w, hc, hw => by
    rw [classify]
    refine (classify_apart hb ho key item (Node.eachDescription_array.mp hd) w hc hw).bind ?_
    exact fun c w' _ hw' ht => ⟨hw', ht⟩
  | .object a shape, hd, w, hc, hw => by
    obtain ⟨hread, hfields⟩ := Node.eachDescription_object.mp hd
    rw [classify_object hb]
    apply Ends.bind
    apply Ends.ofExcept
    · intro name hname
      have hnested := ho.nested hname
      refine (synthesize_apart hc hw hnested (fun _ => hread) ?_ ?_).bind fun c w' _ hw' hn => ⟨hw', ?_⟩
      · intro naming v hcv
        exact compileShape_keeps (({ o with name } : Options).within naming) hb shape v hcv
      · intro naming v hn hcv hwv
        exact compileShape_apart (o := ({ o with name } : Options).within naming) hb (hnested.within hn)
          shape hfields v hcv hwv
      · intro leaf hleaf
        rw [← Except.ok.inj hleaf]
        rcases hn with hlist | hn
        · exact .inl hlist
        · rw [hn]
          rcases nestedName_parts hname with rfl | ⟨-, own, s, hs, rfl⟩
          · exact .inl distinctive_none.list
          · by_cases hempty : own = ""
            · exact .inr (by rw [hempty, String.append_empty]; rfl)
            · exact .inl (notList_append hs hempty)
    · exact fun e he => hw
  | .boolean a, _, w, _, hw | .string a, _, w, _, hw | .number a _, _, w, _, hw => by
    rw [classify]
    exact ⟨hw, leafApart_scalar _ _⟩
  | .enum _ _, _, w, _, hw | .union _ _, _, w, _, hw | .literal _ _, _, w, _, hw | .date _, _, w, _, hw
  | .any _, _, w, _, hw => by
    rw [classify]
    exact ⟨hw, leafApart_placeholder _⟩
  | .plain v, _, w, _, hw => by
    cases v with
    | null =>
      rw [classify]
      exact ⟨hw, leafApart_placeholder _⟩
    | _ =>
      rw [classify]
      · exact hw
      · simp

theorem compileShape_apart {o : Options} (hb : o.builder = none) (ho : o.Distinctive) :
    (shape : List (Value × Node)) → (∀ f ∈ shape, f.2.Distinctive o.convention) → (w : Workspace) →
    Closed w → NamedApart w →
    LeavesApart (compileShape o shape) w fun fields => ∀ f ∈ fields, LeafApart o.name.display f.type
  | [], _, w, _, hw => by
    rw [compileShape]
    exact ⟨hw, nofun⟩
  | (key, node) :: rest, hd, w, hc, hw => by
    obtain ⟨hnode, hrest⟩ := List.forall_mem_cons.mp hd
    rw [compileShape_cons]
    rcases compileNode_cases o key node with ⟨kind, -, -, hrun⟩ | ⟨-, hrun⟩
    · rw [hrun]
      have hkeeps := classify_keeps o hb key node w hc
      refine (compileField_apart ho key node kind hkeeps
        (classify_apart hb ho key node hnode w hc hw)).bind fun field w1 hr hw1 ht => ?_
      have hc1 := ((compileField_keeps o key node kind _ hkeeps).closed hr).1
      refine (compileShape_apart hb ho rest hrest w1 hc1 hw1).bind fun fields w2 _ hw2 hts => ?_
      exact ⟨hw2, List.forall_mem_cons.mpr ⟨ht, hts⟩⟩
    · rw [hrun]
      exact hw

end

/-- The names that are read where a node is compiled are distinctive. In the description of a root with a
given name none is read. -/
def Node.RootDistinctive (o : Options) : Node → Prop
  | .object a shape => (o.name.truthy = false → o.convention.Distinctive a.description) ∧
      ∀ f ∈ shape, f.2.Distinctive o.convention
  | _ => True

theorem compileModel_apart {w : Workspace} (hc : Closed w) (hw : NamedApart w) {o : Options}
    (hb : o.builder = none) (ho : o.Distinctive) {node : Node} (hd : node.RootDistinctive o) :
    LeavesApart (compileModel o node) w fun _ => True := by
  unfold compileModel
  split
  · rename_i a shape
    obtain ⟨hread, hfields⟩ := hd
    refine (synthesize_apart hc hw ho hread ?_ ?_).imp (fun _ _ h => ⟨h.1, trivial⟩) fun _ _ h => h
    · intro naming v hcv
      exact compileShape_keeps (o.within naming) hb shape v hcv
    · intro naming v hn hcv hwv
      exact compileShape_apart (o := o.within naming) hb (ho.within hn) shape hfields v hcv hwv
  · exact hw

/-- An action under which no type is given the name of a scalar, and none but a root that of a list. -/
def Action.Distinctive : Action → Prop
  | .compile o node => o.Distinctive ∧ node.RootDistinctive o
  | .clearRegistry _ | .clearMemo _ => True

theorem Action.namedApart {w : Workspace} (hc : Closed w) (hw : NamedApart w) {action : Action}
    (h : action.Distinctive) : NamedApart (action.after w) := by
  cases action with
  | compile o node =>
    obtain ⟨ho, hd⟩ := h
    have hbuilt : Options.Distinctive { o with builder := none } := ⟨ho.name, ho.enums⟩
    have hrun := compileModel_apart hc hw rfl hbuilt hd
    unfold LeavesApart Ends at hrun
    dsimp only [Action.after]
    cases hr : compileModel { o with builder := none } node w with
    | ok c w' =>
      rw [hr] at hrun
      exact hrun.1
    | error e w' =>
      rw [hr] at hrun
      exact hrun
  | clearRegistry id =>
    have hold {id' : Key} {entry : Registry.Entry}
        (he : entry ∈ ((w.setRegistry id {}).registries id').entries) :
        entry ∈ (w.registries id').entries := by
      by_cases hid : id' = id
      · simp [Workspace.setRegistry, hid] at he
      · simpa only [Workspace.setRegistry, update_of_ne _ _ hid] using he
    exact ⟨fun id' entry he => hw.scalars id' entry (hold he), fun id' entry he => hw.enums id' entry (hold he),
      fun id' entry he => hw.models id' entry (hold he)⟩
  | clearMemo id =>
    obtain ⟨scalars, enums, models⟩ := hw
    exact ⟨scalars, enums, models⟩

theorem namedApart_afterAll (sequences : Key → Value) {actions : List Action}
    (h : ∀ action ∈ actions, action.Distinctive) : NamedApart (afterAll sequences actions) := by
  unfold afterAll
  have hc := closed_empty sequences
  have hw : NamedApart { sequences } := by constructor <;> intro id entry he <;> cases he
  generalize ({ sequences } : Workspace) = w at hc hw
  induction actions generalizing w with
  | nil => exact hw
  | cons action rest ih =>
    obtain ⟨haction, hrest⟩ := List.forall_mem_cons.mp h
    exact ih hrest (action.after w) (action.closed hc) (action.namedApart hc hw haction)

end SchemaCompiler
