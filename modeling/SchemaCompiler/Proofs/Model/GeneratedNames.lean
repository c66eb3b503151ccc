import SchemaCompiler.Proofs.Model.FieldRecords

namespace SchemaCompiler

open Work Node

variable {o : Options} {w v : Workspace} {naming : ModelName} {description : Value}

structure Options.Standard (o : Options) : Prop where
  builder : o.builder = none
  enumName : o.enumName = none
  convention : o.convention = .colon
  name : o.name.truthy = true → ∃ s, o.name = .text s

namespace Options

theorem standard_named {name : Value} (h : name = .null ∨ ∃ s, name = .text s) :
    (named name).Standard := by
  refine ⟨rfl, rfl, rfl, fun htruthy => ?_⟩
  rcases h with rfl | hs
  · cases htruthy
  · exact hs

def rootTitle (o : Options) (description n : Value) : Title :=
  if o.name.truthy then ⟨o.name.display, o.generatedName⟩
  else
    match Naming.ownTitle? description with
    | some own => ⟨own.name, false⟩
    | none => ⟨sequenceName n, true⟩

def definitions (o : Options) (a : Annotations) (shape : List (Value × Node)) (n : Value) :
    List Definition :=
  .model (o.rootTitle a.description n) a shape :: definitionsOf (o.rootTitle a.description n) shape

theorem statedName?_eq (hn : o.name.truthy = false) (hc : o.convention = .colon) (description : Value) :
    statedName? o description = (Naming.titleOf description).map fun found =>
      found.map fun t => { name := .text t.name, description := .text t.description } := by
  rw [statedName?, if_neg (by simp [hn]), Naming.titleOf, titled_colon hc]
  split <;> rfl

theorem Standard.stated (ho : o.Standard) (hs : statedName? o description = .ok (some naming))
    (n : Value) : naming.name = .text (o.rootTitle description n).name ∧
      (naming.description = description ∨ ∃ s, naming.description = .text s) ∧
      (o.within naming).Under (o.rootTitle description n) := by
  cases hn : o.name.truthy with
  | true =>
    obtain ⟨s, hname⟩ := ho.name hn
    rw [statedName?_of_name hn] at hs
    cases hs
    have htitle : o.rootTitle description n = ⟨s, o.generatedName⟩ := by
      rw [rootTitle, if_pos hn, hname]
      rfl
    have hnonempty : s ≠ "" := by
      rw [hname] at hn
      simpa [Value.truthy] using hn
    rw [htitle]
    refine ⟨hname, .inl rfl, ho.builder, ho.enumName, ho.convention, hname, hnonempty, ?_⟩
    simp [within, hn]
  | false =>
    rw [statedName?_eq hn ho.convention] at hs
    cases ht : Naming.titleOf description with
    | error e =>
      rw [ht] at hs
      cases hs
    | ok found =>
      have hown := Naming.titleOf_ok ht
      rw [ht] at hs
      cases found with
      | none => cases hs
      | some own =>
        cases hs
        have htitle : o.rootTitle description n = ⟨own.name, false⟩ := by
          rw [rootTitle, if_neg (by simp [hn]), hown]
        have hnonempty : own.name ≠ "" := by
          cases description with
          | text s => exact Naming.readColon_name_ne_empty hown
          | _ => cases hown
        rw [htitle]
        refine ⟨rfl, .inr ⟨_, rfl⟩, ho.builder, ho.enumName, ho.convention, rfl, hnonempty, ?_⟩
        simp [within, hn]

theorem Standard.drawn (ho : o.Standard) (hs : statedName? o description = .ok none) (n : Value) :
    o.rootTitle description n = ⟨sequenceName n, true⟩ := by
  cases hn : o.name.truthy with
  | true =>
    rw [statedName?_of_name hn] at hs
    cases hs
  | false =>
    rw [statedName?_eq hn ho.convention] at hs
    cases ht : Naming.titleOf description with
    | error e =>
      rw [ht] at hs
      cases hs
    | ok found =>
      rw [ht] at hs
      cases found with
      | some own => cases hs
      | none => rw [rootTitle, if_neg (by simp [hn]), Naming.titleOf_ok ht]

def drawing (o : Options) (n : Value) : Options :=
  { o with name := .text (sequenceName n), generatedName := true }

theorem truthy_drawing (o : Options) (n : Value) : (o.drawing n).name.truthy = true := by
  simp [drawing, Value.truthy, sequenceName, ToString.toString]

theorem rootTitle_drawing (o : Options) (description n m : Value) :
    (o.drawing n).rootTitle description m = ⟨sequenceName n, true⟩ := by
  rw [rootTitle, if_pos (o.truthy_drawing n)]
  rfl

end Options

theorem synthesize_drawn (hs : statedName? o description = .ok none) {next : Value}
    (hn : (w.sequences o.sequence).next? = some next) (source : Node)
    (compileFields : Options → Work (List CompiledField)) :
    synthesize o source description compileFields w =
      synthesize (o.drawing (w.sequences o.sequence)) source description compileFields
        (w.setSequence o.sequence next) := by
  have htruthy := o.truthy_drawing (w.sequences o.sequence)
  rw [synthesize_of_stated _ _ (statedName?_of_name htruthy), synthesize_eq, modelName_eq, hs]
  dsimp only
  rw [hn]
  simp only [Options.within, htruthy, Bool.true_or, Bool.and_true, Bool.false_or]
  rfl

theorem compileModel_named (ho : o.Standard) (a : Annotations)
    (hm : modelName o a.description w = .ok naming v) : ∃ o' naming',
      statedName? o' a.description = .ok (some naming') ∧
      naming'.name = .text (o.rootTitle a.description (w.sequences o.sequence)).name ∧
      (naming'.description = a.description ∨ ∃ s, naming'.description = .text s) ∧
      (o'.within naming').Under (o.rootTitle a.description (w.sequences o.sequence)) ∧
      o'.registry = o.registry ∧ ∀ shape, compileModel o (.object a shape) w =
        synthesize o' (.object a shape) a.description (fun inner => compileShape inner shape) v := by
  rcases modelName_ok hm with ⟨hs, rfl⟩ | ⟨hs, next, hn, rfl⟩
  · obtain ⟨hname, hd, hunder⟩ := ho.stated hs (v.sequences o.sequence)
    exact ⟨o, naming, hs, hname, hd, hunder, rfl, fun _ => rfl⟩
  · have hstandard : (o.drawing (w.sequences o.sequence)).Standard :=
      ⟨ho.builder, ho.enumName, ho.convention, fun _ => ⟨_, rfl⟩⟩
    have hstated : statedName? (o.drawing (w.sequences o.sequence)) a.description =
        .ok (some { name := (o.drawing _).name, description := a.description }) :=
      statedName?_of_name (o.truthy_drawing _)
    obtain ⟨hname, hd, hunder⟩ := hstandard.stated hstated (w.sequences o.sequence)
    rw [Options.rootTitle_drawing, ← ho.drawn hs] at hname hunder
    exact ⟨_, _, hstated, hname, hd, hunder, rfl, fun shape =>
      synthesize_drawn hs hn (.object a shape) fun inner => compileShape inner shape⟩

section Tree

variable {a : Annotations}

theorem Standing.of_reached {registry : Key} (hr : Reached w)
    (hempty : (w.registries registry).entries = []) : Standing registry w where
  coherent := hr.coherent
  named entry he := by
    rw [hempty] at he
    cases he
  enums entry he := by
    rw [hempty] at he
    cases he
  models entry he := by
    rw [hempty] at he
    cases he

theorem Collides.clash {registry : Key} {defs : List Definition} {e : Failure}
    (h : Collides registry w defs e) (hempty : (w.registries registry).entries = []) :
    ∃ name, e = .duplicateType (.text name) ∧ Clash name defs := by
  obtain ⟨name, he, hclash | ⟨entry, hentry, -⟩⟩ := h
  · exact ⟨name, he, hclash⟩
  · rw [hempty] at hentry
    cases hentry

theorem compileModel_books (shape : List (Value × Node)) (hr : Reached w)
    (hempty : (w.registries o.registry).entries = []) (ho : o.Standard)
    (hm : modelName o a.description w = .ok naming v) :
    Ends (compileModel o (.object a shape)) w
      (fun c w' => Adds o.registry (o.definitions a shape (w.sequences o.sequence)) v w' ∧ Passes shape ∧
        Made w' o.registry (.model (o.rootTitle a.description (w.sequences o.sequence)) a shape) c)
      fun e w' => Adds o.registry (o.definitions a shape (w.sequences o.sequence)) v w' ∧
        ((o.rootTitle a.description (w.sequences o.sequence)).Plain → Faults shape e ∨
          ∃ name, e = .duplicateType (.text name) ∧
            Clash name (o.definitions a shape (w.sequences o.sequence))) := by
  obtain ⟨o', naming', hs, hname, hd, hunder, hregistry, hrun⟩ := compileModel_named ho a hm
  have hsame : v.registries = w.registries ∧ v.classes = w.classes ∧ Coherent v := by
    rcases modelName_ok hm with ⟨-, rfl⟩ | ⟨-, next, -, rfl⟩
    · exact ⟨rfl, rfl, hr.coherent⟩
    · obtain ⟨counted, told, made, lines⟩ := hr.coherent
      exact ⟨rfl, rfl, counted, told, made, lines⟩
  obtain ⟨hregistries, hclasses, hcoherent⟩ := hsame
  have hv : Standing o'.registry v := by
    rw [hregistry]
    exact (Standing.of_reached hr hempty).of_registries hcoherent hregistries hclasses
  rw [← hregistries, ← hregistry] at hempty
  have hfree : (v.registries o'.registry).get? (.text (o.rootTitle a.description
      (w.sequences o.sequence)).name) = none := by
    rw [Registry.get?_eq_none_iff, hempty]
    nofun
  have hfields := compileShape_books o'.registry _ id (o'.within naming') hunder rfl shape v hv
  have hmodel := makeModel_books hs hname hd id hfree hfields
  unfold Ends
  rw [hrun shape]
  rw [hregistry] at hempty hmodel
  refine hmodel.imp (fun c w' ⟨ha, hok, hmade⟩ => ⟨ha, passes_iff.mpr hok, hmade⟩) ?_
  exact fun e w' ⟨ha, he⟩ => ⟨ha, fun hp => (he hp).imp_right (·.clash hempty)⟩

end Tree

namespace Definition

def enumName? : Definition → Option String
  | .model .. => none
  | .enum t key _ _ => some (t.enumName key)

def enumNames (defs : List Definition) : List String := defs.filterMap enumName?

theorem enumNames_append (defs more : List Definition) :
    enumNames (defs ++ more) = enumNames defs ++ enumNames more := List.filterMap_append

end Definition

/-- Two titles give the same names to enums, whatever was drawn for them. -/
def Title.Alike (t t' : Title) : Prop := t.drawn = t'.drawn ∧ (t.drawn = false → t.name = t'.name)

namespace Title.Alike

open Definition

variable {t t' : Title}

theorem enumName (h : t.Alike t') (key : Value) : t.enumName key = t'.enumName key := by
  obtain ⟨hdrawn, hname⟩ := h
  rw [Title.enumName, Title.enumName, ← hdrawn]
  cases hd : t.drawn with
  | true => rfl
  | false => rw [hname hd]

theorem nested (h : t.Alike t') (key description : Value) :
    (t.nested key description).Alike (t'.nested key description) := by
  unfold Title.nested
  cases Naming.ownTitle? description with
  | some own => exact ⟨rfl, fun _ => rfl⟩
  | none => exact ⟨h.1, fun hd => congrArg (· ++ Naming.pascalKey key) (h.2 hd)⟩

mutual

theorem enumNames_definitions {t t' : Title} (key : Value) : (n : Node) → t.Alike t' →
    enumNames (definitions t key n) = enumNames (definitions t' key n)
  | .optional a inner, h => by
    rw [definitions, definitions]
    exact enumNames_definitions key inner h
  | .array a item, h => by
    rw [definitions, definitions]
    exact enumNames_definitions key item h
  | .object a shape, h => by
    rw [definitions, definitions]
    exact enumNames_definitionsOf shape (h.nested key a.description)
  | .enum a values, h => by
    rw [definitions, definitions]
    exact congrArg (· :: []) (h.enumName key)
  | .boolean _, _ | .string _, _ | .number _ _, _ | .union _ _, _ | .literal _ _, _ | .date _, _
  | .any _, _ | .plain _, _ => rfl

theorem enumNames_definitionsOf {t t' : Title} : (shape : List (Value × Node)) → t.Alike t' →
    enumNames (definitionsOf t shape) = enumNames (definitionsOf t' shape)
  | [], _ => rfl
  | (key, node) :: rest, h => by
    rw [definitionsOf, definitionsOf, enumNames_append, enumNames_append,
      enumNames_definitions key node h, enumNames_definitionsOf rest h]

end

end Title.Alike

theorem Options.rootTitle_alike (o : Options) (description n m : Value) :
    (o.rootTitle description n).Alike (o.rootTitle description m) := by
  unfold rootTitle
  split
  · exact ⟨rfl, fun _ => rfl⟩
  · cases Naming.ownTitle? description with
    | some own => exact ⟨rfl, fun _ => rfl⟩
    | none => exact ⟨rfl, nofun⟩

structure ClosedForm (o : Options) (w : Workspace) (a : Annotations) (shape : List (Value × Node)) :
    Prop where
  root : ∀ c w', compileModel o (.object a shape) w = .ok c w' →
    Made w' o.registry (.model (o.rootTitle a.description (w.sequences o.sequence)) a shape) c
  types : ∀ c w', compileModel o (.object a shape) w = .ok c w' →
    ∀ entry ∈ (w'.registries o.registry).entries,
      ∃ d ∈ o.definitions a shape (w.sequences o.sequence), Recorded w' o.registry d entry
  drawn : ∀ next, statedName? o a.description = .ok none →
    (w.sequences o.sequence).next? = some next →
      ((compileModel o (.object a shape)).after w).sequences = update w.sequences o.sequence next
  kept : statedName? o a.description ≠ .ok none →
    ((compileModel o (.object a shape)).after w).sequences = w.sequences
  enums : ∀ n m, Definition.enumNames (o.definitions a shape n) =
    Definition.enumNames (o.definitions a shape m)

theorem compileModel_unnamed {e : Failure} {a : Annotations} (shape : List (Value × Node))
    (hm : modelName o a.description w = .error e v) :
    compileModel o (.object a shape) w = .error e w := by
  have hrun := synthesize_eq w o (.object a shape) a.description fun inner => compileShape inner shape
  rw [hm] at hrun
  rw [modelName_eq] at hm
  have hv : v = w := by
    split at hm
    · cases hm
      rfl
    · cases hm
    · split at hm
      · cases hm
      · cases hm
        rfl
  rw [hv] at hrun
  exact hrun

/-- All names in a registry that was empty follow from the title of the root, level by level: the name
of a described object starts anew, and names of enums leave out what was drawn. -/
theorem generated_names (hr : Reached w) (hempty : (w.registries o.registry).entries = [])
    (ho : o.Standard) (a : Annotations) (shape : List (Value × Node)) : ClosedForm o w a shape := by
  have hfresh {v : Workspace} (h : v.registries = w.registries) (entry : Registry.Entry) :
      entry ∉ (v.registries o.registry).entries := by
    rw [h, hempty]
    exact List.not_mem_nil
  have hok (c : ClassHandle) (w' : Workspace) (h : compileModel o (.object a shape) w = .ok c w') :
      Made w' o.registry (.model (o.rootTitle a.description (w.sequences o.sequence)) a shape) c ∧
      ∀ entry ∈ (w'.registries o.registry).entries,
        ∃ d ∈ o.definitions a shape (w.sequences o.sequence), Recorded w' o.registry d entry := by
    cases hm : modelName o a.description w with
    | error e v =>
      rw [compileModel_unnamed shape hm] at h
      cases h
    | ok naming v =>
      have hbooks := compileModel_books shape hr hempty ho hm
      unfold Ends at hbooks
      rw [h] at hbooks
      obtain ⟨hadds, -, hmade⟩ := hbooks
      refine ⟨hmade, fun entry he => ?_⟩
      have hsame : v.registries = w.registries := by
        rcases modelName_ok hm with ⟨-, rfl⟩ | ⟨-, next, -, rfl⟩ <;> rfl
      exact (hadds.recorded entry he).resolve_left (hfresh hsame entry)
  have hsequences (naming : ModelName) (v : Workspace) (hm : modelName o a.description w = .ok naming v) :
      ((compileModel o (.object a shape)).after w).sequences = v.sequences := by
    have hbooks := compileModel_books shape hr hempty ho hm
    unfold Ends at hbooks
    unfold after
    cases h : compileModel o (.object a shape) w with
    | ok c w' =>
      rw [h] at hbooks
      exact hbooks.1.sequences
    | error e w' =>
      rw [h] at hbooks
      exact hbooks.1.sequences
  refine ⟨fun c w' h => (hok c w' h).1, fun c w' h => (hok c w' h).2, fun next hs hn => ?_,
    fun hs => ?_, fun n m => ?_⟩
  · obtain ⟨naming, hm⟩ : ∃ naming, modelName o a.description w =
        .ok naming (w.setSequence o.sequence next) := by
      rw [modelName_eq, hs]
      dsimp only
      rw [hn]
      exact ⟨_, rfl⟩
    rw [hsequences naming _ hm]
    rfl
  · cases hm : modelName o a.description w with
    | error e v => rw [after_of_error (compileModel_unnamed shape hm)]
    | ok naming v =>
      rcases modelName_ok hm with ⟨-, rfl⟩ | ⟨hnone, -⟩
      · exact hsequences naming v hm
      · exact absurd hnone hs
  · exact (o.rootTitle_alike a.description n m).enumNames_definitionsOf shape

/-- One part in two places whose models have one name as long as the sequence is at zero: that of a
described object and that of the root go before the two keys. -/
def sharingShape : List (Value × Node) :=
  let part := .object {} [(.text "state", .enum {} (.list [.text "on"]))]
  [(.text "lid", .object { description := .text "ClassFromZod_0Lid: a lid" } [(.text "hinge", part)]),
    (.text "lid_hinge", part)]

theorem generated_names_sharing : ∃ c w, compileModel {} (.object {} sharingShape) {} = .ok c w ∧
    Made w .null (.model ⟨"ClassFromZod_0", true⟩ {} sharingShape) c ∧
    w.sequences = update (fun _ => .int 0) .null (.int 1) := by
  have hclosed : ClosedForm {} {} {} sharingShape :=
    generated_names (.refl {}) rfl (Options.standard_named (.inl rfl)) {} sharingShape
  have hsequences := hclosed.drawn (.int 1) rfl rfl
  obtain ⟨c, w, hrun⟩ := ok_of_outcome (x := compileModel {} (.object {} sharingShape)) (w := {})
    (by decide +kernel)
  rw [after_of_ok hrun] at hsequences
  exact ⟨c, w, hrun, hclosed.root c w hrun, hsequences⟩

def enumsMade (o : Options) (shape : List (Value × Node)) (n : Value) : Option (List String) :=
  match compileModel o (.object {} shape) (({} : Workspace).setSequence .null n) with
  | .ok _ w => some ((w.registries .null).enums.map (·.name))
  | .error _ _ => none

/-- With the sequence at zero the model of the second place is found, with the enum of the first one.
A given name may be said to be generated as well. -/
theorem enumsMade_sharing :
    enumsMade {} sharingShape (.int 0) = some ["ClassFromZod_0LidHingeStateEnum"] ∧
    enumsMade {} sharingShape (.int 1) = some ["ClassFromZod_0LidHingeStateEnum", "StateEnum"] ∧
    enumsMade { name := .text "Lamp", generatedName := true }
      [(.text "state", .enum {} (.list [.text "on"]))] (.int 0) = some ["StateEnum"] := by
  decide +kernel

theorem isolated_books {name : Value} (hname : name = .null ∨ ∃ s, name = .text s) {a : Annotations}
    (shape : List (Value × Node)) (hm : modelName (.named name) a.description {} = .ok naming v) :
    Ends (compileModel (.named name) (.object a shape)) {}
      (fun c w => Adds .null ((Options.named name).definitions a shape (.int 0)) v w ∧ Passes shape ∧
        Made w .null (.model ((Options.named name).rootTitle a.description (.int 0)) a shape) c)
      fun e w => Adds .null ((Options.named name).definitions a shape (.int 0)) v w ∧
        (((Options.named name).rootTitle a.description (.int 0)).Plain → Faults shape e ∨
          ∃ clashing, e = .duplicateType (.text clashing) ∧
            Clash clashing ((Options.named name).definitions a shape (.int 0))) :=
  compileModel_books shape (.refl {}) rfl (Options.standard_named hname) hm

/-- A tree that compiles under a given name compiles without one, unless two of its definitions, whose
names then leave the given one out, have one name and do not agree. -/
theorem compiles_unnamed {name : String} {a : Annotations} {shape : List (Value × Node)}
    {c : ClassHandle} (hd : a.description.truthy = false)
    (h : compileModel (.named (.text name)) (.object a shape) {} = .ok c w) :
    (∃ c' w', compileModel (.named .null) (.object a shape) {} = .ok c' w') ∨
      ∃ clashing w', compileModel (.named .null) (.object a shape) {} =
          .error (.duplicateType (.text clashing)) w' ∧
        Clash clashing (.model ⟨"ClassFromZod_0", true⟩ a shape ::
          definitionsOf ⟨"ClassFromZod_0", true⟩ shape) := by
  -- Whether fields pass does not depend on names: this is what the one run tells of the other.
  have hpasses : Passes shape := by
    cases hm : modelName (.named (.text name)) a.description {} with
    | error e v =>
      rw [compileModel_unnamed shape hm] at h
      cases h
    | ok naming v =>
      have hbooks := isolated_books (.inr ⟨name, rfl⟩) shape hm
      unfold Ends at hbooks
      rw [h] at hbooks
      exact hbooks.2.1
  have hnone : statedName? (.named .null) a.description = .ok none := by
    unfold statedName?
    rw [if_neg (by decide), if_neg (by simp [hd])]
  have htitle := (Options.standard_named (.inl rfl)).drawn hnone (.int 0)
  have hdrawn : modelName (.named .null) a.description {} =
      .ok ⟨.text "ClassFromZod_0", a.description, true⟩ (({} : Workspace).setSequence .null (.int 1)) := by
    rw [modelName_eq, hnone]
    rfl
  have hbooks := isolated_books (.inl rfl) shape hdrawn
  rw [Options.definitions, htitle] at hbooks
  unfold Ends at hbooks
  cases hrun : compileModel (.named .null) (.object a shape) {} with
  | ok c' w' => exact .inl ⟨c', w', rfl⟩
  | error e w' =>
    have hplain : '\x00' ∉ (sequenceName (.int 0)).toList := by decide
    rw [hrun] at hbooks
    obtain ⟨-, hreason⟩ := hbooks
    rcases hreason hplain with hfault | ⟨clashing, rfl, hclash⟩
    · exact absurd hfault (passes_iff.mp hpasses e)
    · exact .inr ⟨clashing, w', rfl, hclash⟩

def switchedShape : List (Value × Node) :=
  [(.text "lamp", .object {} [(.text "state", .enum {} (.list [.text "on", .text "off"]))]),
    (.text "fan", .object {} [(.text "state", .enum {} (.list [.text "slow", .text "fast"]))])]

theorem compiles_unnamed_switched :
    (∃ c w, compileModel (.named (.text "Room")) (.object {} switchedShape) {} = .ok c w) ∧
    ((∃ c w, compileModel (.named .null) (.object {} switchedShape) {} = .ok c w) ∨
      ∃ clashing w, compileModel (.named .null) (.object {} switchedShape) {} =
          .error (.duplicateType (.text clashing)) w ∧
        Clash clashing (.model ⟨"ClassFromZod_0", true⟩ {} switchedShape ::
          definitionsOf ⟨"ClassFromZod_0", true⟩ switchedShape)) := by
  obtain ⟨c, w, h⟩ := ok_of_outcome (x := compileModel (.named (.text "Room")) (.object {} switchedShape))
    (w := {}) (by decide +kernel)
  exact ⟨⟨c, w, h⟩, compiles_unnamed rfl h⟩

theorem switched_not_unnamed :
    (∃ c w, compileModel (.named (.text "Room")) (.object {} switchedShape) {} = .ok c w) ∧
    ∃ w, compileModel (.named .null) (.object {} switchedShape) {} =
      .error (.duplicateType (.text "StateEnum")) w :=
  ⟨ok_of_outcome (by decide +kernel), error_of_outcome (by decide +kernel)⟩

end SchemaCompiler
