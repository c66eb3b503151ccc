import SchemaCompiler.Proofs.Model.Names
import SchemaCompiler.Proofs.View

namespace SchemaCompiler

open Work

/-- From one state to another without emptying a registry or a memo. A builder of one's own keeps to
that too, and classes are made from classes that exist. -/
inductive Extends : Workspace → Workspace → Prop
  | refl (w : Workspace) : Extends w w
  | trans {u v w : Workspace} : Extends u v → Extends v w → Extends u w
  | compile (w : Workspace) (o : Options) (node : Node)
    (build : ∀ b, o.builder = some b → ∀ node name v, Extends v ((b node name).after v)) :
    Extends w ((compileModel o node).after w)
  | buildEnum (w : Workspace) (o : Options) (key : Value) (source : EnumSource) :
    Extends w ((fieldEnum o key source).after w)
  | registerEnum (w : Workspace) (registry : Key) (name : Value) (entries : List (Value × Value))
    (description : Value) : Extends w ((registerEntries registry name entries description).after w)
  | registerObject (w : Workspace) (registry : Key) (name : Value) (c : ClassHandle)
    (description : Value) (made : (w.class? c).isSome) :
    Extends w ((registerObject registry name c description).after w)
  | makeClass (w : Workspace) (c : ModelClass) (line : ∀ s, .cls s ∈ c.line → s < w.classes.length) :
    Extends w (w.withClass c)

def Options.BuildsOn (o : Options) : Prop :=
  ∀ b, o.builder = some b → ∀ node name v, Extends v ((b node name).after v)

variable {u v w : Workspace} {o : Options}

theorem Change.grows {registry memo sequence : Key} {size : Nat}
    (h : Change registry memo sequence size v w) : Grows v w := by
  cases h with
  | draw next => exact .of_same rfl rfl
  | note e => exact .of_same rfl rfl
  | addClass c line source => exact .withClass v c
  | addEnum e serial fresh => exact .withEnum v registry e
  | addObject c m description fresh made line source => exact .withObject v registry _ _ c description
  | remember name key e held => exact .of_same rfl rfl

theorem admits_grows (size : Nat)
    (build : ∀ b, o.builder = some b → ∀ node name v, Grows v ((b node name).after v)) :
    Admits Grows o size :=
  ⟨.refl, .trans, Change.grows, build⟩

theorem Extends.grows (h : Extends u w) : Grows u w := by
  induction h with
  | refl w => exact .refl w
  | trans _ _ ihu ihv => exact ihu.trans ihv
  | compile w o node build ih => exact compileModel_admits (admits_grows (sizeOf node) ih) w
  | buildEnum w o key source =>
    exact (admits_grows (o := { o with builder := none }) 0 nofun).fieldEnum key source
  | registerEnum w registry name entries description =>
    rcases registerEntries_cases w registry name entries description with ⟨e, h⟩ | ⟨e, h⟩ | ⟨e, -, h⟩
    · rw [after_of_error h]
      exact .refl w
    · rw [after_of_ok h]
      exact .refl w
    · rw [after_of_ok h]
      exact .withEnum w registry e
  | registerObject w registry name c description made =>
    rcases registerObject_cases w registry name c description with ⟨e, h⟩ | h | ⟨key, h⟩
    · rw [after_of_error h]
      exact .refl w
    · rw [after_of_ok h]
      exact .refl w
    · rw [after_of_ok h]
      exact .withObject w registry key _ c description
  | makeClass w c line => exact .withClass w c

theorem Extends.coherent (h : Extends u w) (hc : Coherent u) : Coherent w := by
  induction h with
  | refl w => exact hc
  | trans _ _ ihu ihv => exact ihv (ihu hc)
  | compile w o node build ih => exact compileModel_admits (admits_coherent (sizeOf node) ih) w hc
  | buildEnum w o key source => exact (Leads.buildEnum w o key source).coherent hc
  | registerEnum w registry name entries description =>
    exact coherent_registerEntries hc registry name entries description
  | registerObject w registry name c description made =>
    exact coherent_registerObject hc registry name description made
  | makeClass w c line =>
    have hlen : (w.withClass c).classes.length = w.classes.length + 1 := by simp [Workspace.withClass]
    refine Leads.coherent (w := w) (.elsewhere rfl rfl (Nat.le_refl _) (by omega) ?_) hc
    intro m hm s hs
    rcases List.mem_append.mp hm with hm | hm
    · have := hc.lines m hm s hs
      omega
    · rw [List.mem_singleton.mp hm] at hs
      have := line s hs
      omega

theorem Options.BuildsOn.admits (ho : o.BuildsOn) (size : Nat) :
    Admits (fun v v' => Coherent v → Coherent v') o size :=
  admits_coherent size fun b hb node name v hc => (ho b hb node name v).coherent hc

structure Keeping (registry name : Key) (node : Node) (c : ClassHandle) (w : Workspace) : Prop where
  held : (w.registries registry).get? name = some (.object c)
  source : (w.whole? c).bind (·.source) = some node

theorem Keeping.extends {registry name : Key} {node : Node} {c : ClassHandle}
    (h : Keeping registry name node c v) (hc : Coherent v) (he : Extends v w) :
    Keeping registry name node c w := by
  obtain ⟨entry, hmem, -, ht⟩ := Registry.mem_of_get? h.held
  have hlt := hc.made registry entry hmem c ht
  refine ⟨he.grows.get? h.held, ?_⟩
  rw [whole?_of_classes hc he.grows.classes hlt]
  exact h.source

theorem defineModel_keeping (hc : Coherent w) {naming : ModelName} {a : Annotations}
    {shape : List (Value × Node)} {fields : List CompiledField} {c : ClassHandle}
    (hkeys : fields.map (·.slot.attr) = shape.map (·.1)) (hhides : hidesSource shape = false)
    (h : defineModel o naming (.object a shape) fields w = .ok c v) :
    ∃ name, naming.name = .text name ∧ Keeping o.registry (.text name) (.object a shape) c v := by
  cases hm : modelMisuse? naming.name (fields.map (·.key)) with
  | some m =>
    rw [defineModel_of_misuse w hm] at h
    cases h
  | none =>
    obtain ⟨name, hname⟩ := text_of_modelMisuse? hm
    rw [defineModel_of_text w hname hm, registerObject_eq, Value.key?_text] at h
    dsimp only at h
    refine ⟨name, hname, ?_⟩
    cases hg : ((w.withClass (classOf name naming.description (.object a shape) fields)).registries
        o.registry).get? (.text name) with
    | none =>
      rw [hg] at h
      cases h
      refine ⟨?_, ?_⟩
      · simp only [Workspace.withObject, Workspace.setRegistry, update_same]
        exact Registry.get?_add_same hg
      · rw [whole?_of_modelBase _ List.getElem?_concat_length rfl]
        rw [Option.bind_some, source_classOf hkeys, shownSource, hhides]
        rfl
    | some t =>
      rw [hg] at h
      cases t with
      | enum e => cases h
      | object d =>
        -- The number of the new class is higher than that of any registered one.
        obtain ⟨entry, hmem, -, ht⟩ := Registry.mem_of_get? hg
        have hlt : d.serial < w.classes.length := hc.made o.registry entry hmem d ht
        dsimp only at h
        rw [if_neg (by omega)] at h
        cases h

def PlainKeys (shape : List (Value × Node)) : Prop :=
  ∀ f ∈ shape, ∀ s, f.1 = .text s → s.toList.take 2 ≠ ['_', '_']

theorem PlainKeys.hidesSource {shape : List (Value × Node)} (h : PlainKeys shape) :
    hidesSource shape = false := by
  unfold SchemaCompiler.hidesSource
  rw [List.any_eq_false]
  intro f hf hreserved
  obtain ⟨s, hs, hkey⟩ := Option.bind_eq_some_iff.mp (of_decide_eq_true hreserved)
  refine h f hf s ?_ (ReservedKey.opening hkey)
  cases ht : f.1 with
  | text s' =>
    rw [ht] at hs
    cases hs
    rfl
  | _ =>
    rw [ht] at hs
    cases hs

theorem modelName_same {description : Value} {naming : ModelName}
    (h : modelName o description w = .ok naming v) :
    v.registries = w.registries ∧ v.classes = w.classes ∧ v.memos = w.memos := by
  rcases modelName_ok h with ⟨-, rfl⟩ | ⟨-, next, -, rfl⟩
  · exact ⟨rfl, rfl, rfl⟩
  · exact ⟨rfl, rfl, rfl⟩

section Compilation

variable {a : Annotations} {shape : List (Value × Node)} {naming : ModelName} {c : ClassHandle}
  {w₀ w₁ : Workspace}

theorem compileModel_keeping (hc : Coherent w) (ho : o.BuildsOn) (hplain : PlainKeys shape)
    (hn : modelName o a.description w = .ok naming w₀)
    (h : compileModel o (.object a shape) w = .ok c w₁) :
    ∃ key, naming.name.key? = some key ∧ Keeping o.registry key (.object a shape) c w₁ := by
  have hc₀ : Coherent w₀ := after_of_ok hn ▸ (ho.admits 0).modelName a.description hc
  rw [compileModel] at h
  obtain ⟨key, hkey, ⟨hget, hsource, rfl⟩ | ⟨-, fields, w₂, hf, hd⟩⟩ := synthesize_ok hn h
  · exact ⟨key, hkey, hget, hsource⟩
  · have hadmits := (ho.admits (sizeOf shape)).renamed naming.name (o.within naming).generatedName
    have hc₂ : Coherent w₂ :=
      after_of_ok (x := compileShape (o.within naming) shape) hf ▸
        compileShape_admits hadmits shape (Nat.le_refl _) w₀ hc₀
    obtain ⟨name, hname, hkeeping⟩ := defineModel_keeping hc₂
      (compileShape_keys _ shape w₀ fields w₂ hf).2 hplain.hidesSource hd
    rw [hname] at hkey
    cases hkey
    exact ⟨.text name, by rw [hname]; rfl, hkeeping⟩

theorem compileModel_of_keeping {key : Key} (hn : modelName o a.description w = .ok naming v)
    (hk : naming.name.key? = some key) (h : Keeping o.registry key (.object a shape) c w) :
    compileModel o (.object a shape) w = .ok c v := by
  obtain ⟨hr, hcl, -⟩ := modelName_same hn
  have hsource : (v.whole? c).bind (·.source) = some (.object a shape) := by
    have hsame : v.whole? c = w.whole? c := by
      rw [Workspace.whole?, Workspace.whole?, Workspace.class?, Workspace.class?, hcl]
    rw [hsame]
    exact h.source
  rw [compileModel, synthesize_eq, hn]
  dsimp only
  rw [hk]
  dsimp only
  rw [hr, h.held]
  dsimp only
  rw [if_pos hsource]

theorem compileModel_of_taken {key : Key} {t : NamedType}
    (hn : modelName o a.description w = .ok naming v) (hk : naming.name.key? = some key)
    (hg : (w.registries o.registry).get? key = some t)
    (ht : ∀ d, t = .object d → (w.whole? d).bind (·.source) ≠ some (.object a shape)) :
    compileModel o (.object a shape) w = .error (.duplicateType naming.name) v := by
  obtain ⟨hr, hcl, -⟩ := modelName_same hn
  rw [compileModel, synthesize_eq, hn]
  dsimp only
  rw [hk]
  dsimp only
  rw [hr, hg]
  cases t with
  | enum e => rfl
  | object d =>
    dsimp only
    have hsame : v.whole? d = w.whole? d := by
      rw [Workspace.whole?, Workspace.whole?, Workspace.class?, Workspace.class?, hcl]
    rw [hsame, if_neg (ht d rfl)]

end Compilation

structure Permanent (w : Workspace) : Prop where
  grows : ∀ v, Extends w v → ∀ id, (w.registries id).entries <+: (v.registries id).entries
  enumRefused : ∀ registry name entries description e v,
    registerEntries registry name entries description w = .error e v → v = w
  objectRefused : ∀ registry name c description e v,
    registerObject registry name c description w = .error e v → v = w
  nameTaken : ∀ o a shape naming v key t, modelName o a.description w = .ok naming v →
    naming.name.key? = some key → (w.registries o.registry).get? key = some t →
    (∀ d, t = .object d → (w.whole? d).bind (·.source) ≠ some (.object a shape)) →
    compileModel o (.object a shape) w = .error (.duplicateType naming.name) v ∧
      v.registries = w.registries
  again : ∀ o a shape naming w₀ c w₁, o.BuildsOn → PlainKeys shape →
    modelName o a.description w = .ok naming w₀ → compileModel o (.object a shape) w = .ok c w₁ →
    ∀ v, Extends w₁ v → ∀ o', o'.registry = o.registry → ∀ naming', naming'.name = naming.name →
      (statedName? o' a.description = .ok (some naming') →
        compileModel o' (.object a shape) v = .ok c v) ∧
      ∀ v', modelName o' a.description v = .ok naming' v' →
        compileModel o' (.object a shape) v = .ok c v' ∧ v'.registries = v.registries ∧
          v'.memos = v.memos

/-- Whatever was done before, what a registry holds stays in place for as long as nothing is emptied. -/
theorem handles_permanent {u w : Workspace} (h : Reached u) (hw : Extends u w) : Permanent w where
  grows v hv id := hv.grows.entries id
  enumRefused registry name entries description e v hv := by
    rcases registerEntries_cases w registry name entries description with ⟨f, h⟩ | ⟨f, h⟩ | ⟨f, -, h⟩
    · rw [h] at hv
      cases hv
      rfl
    · rw [h] at hv
      cases hv
    · rw [h] at hv
      cases hv
  objectRefused registry name c description e v hv := by
    rcases registerObject_cases w registry name c description with ⟨f, h⟩ | h | ⟨key, h⟩
    · rw [h] at hv
      cases hv
      rfl
    · rw [h] at hv
      cases hv
    · rw [h] at hv
      cases hv
  nameTaken o a shape naming v key t hn hk hg ht :=
    ⟨compileModel_of_taken hn hk hg ht, (modelName_same hn).1⟩
  again o a shape naming w₀ c w₁ ho hplain hn hm v hv o' hr naming' hname := by
    have hc := hw.coherent h.coherent
    obtain ⟨key, hk, hkeeping⟩ := compileModel_keeping hc ho hplain hn hm
    have hc₁ : Coherent w₁ :=
      after_of_ok hm ▸ compileModel_admits (ho.admits (sizeOf (Node.object a shape))) w hc
    have hlater := hkeeping.extends hc₁ hv
    rw [← hr] at hlater
    rw [← hname] at hk
    refine ⟨fun hstated => ?_, fun v' hv' => ?_⟩
    · refine compileModel_of_keeping ?_ hk hlater
      rw [modelName_eq, hstated]
    · obtain ⟨hregistries, -, hmemos⟩ := modelName_same hv'
      exact ⟨compileModel_of_keeping hv' hk hlater, hregistries, hmemos⟩

def beaconShape : List (Value × Node) := [(.text "lit", .boolean {}), (.text "spare", .object {} [])]

def beaconRun : Workspace :=
  let compiled := (compileModel (.named (.text "Beacon")) (.object {} beaconShape)).after {}
  let failed := (compileModel {} (.object {} [(.text "since", .date {})])).after compiled
  (registerEntries .null (.text "State") [(.text "ON", .text "on")] .null).after failed

theorem handles_permanent_beacon :
    compileModel (.named (.text "Beacon")) (.object {} beaconShape) beaconRun =
        .ok ⟨1, "Beacon"⟩ beaconRun ∧
      beaconRun.sequences .null = .int 1 := by
  have hfail := Extends.compile ((compileModel (.named (.text "Beacon")) (.object {} beaconShape)).after {})
    {} (.object {} [(.text "since", .date {})]) nofun
  have hrun := hfail.trans (.registerEnum _ .null (.text "State") [(.text "ON", .text "on")] .null)
  have hplain : PlainKeys beaconShape := by
    intro f hf s hs
    simp only [beaconShape, List.mem_cons, List.not_mem_nil, or_false] at hf
    rcases hf with rfl | rfl <;> cases hs <;> decide
  have hagain := (handles_permanent (.refl {}) (.refl {})).again (.named (.text "Beacon")) {} beaconShape
    ⟨.text "Beacon", .null, false⟩ {} ⟨1, "Beacon"⟩ _ nofun hplain rfl rfl beaconRun hrun
    (.named (.text "Beacon")) rfl _ rfl
  exact ⟨hagain.1 rfl, rfl⟩

end SchemaCompiler
