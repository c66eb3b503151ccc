import SchemaCompiler.Proofs.Model.EnumMemo
import SchemaCompiler.Proofs.View

namespace SchemaCompiler

open Work

variable {w v : Workspace} {o : Options}

section Enums

variable {registry sequence : Key}

theorem registerEnum_alike (h : Indistinct registry sequence w v) (name : String)
    (members : List (String × Value)) (description : Value) :
    EndAlike registry sequence (fun e => NamedType.anonymous (.enum e))
      (registerEnum registry (.text name) members description w)
      (registerEnum registry (.text name) members description v) := by
  rw [registerEnum_text, registerEnum_text]
  have ht := h.twins (.text name)
  generalize (w.registries registry).get? (.text name) = x at ht
  generalize (v.registries registry).get? (.text name) = y at ht
  cases ht with
  | none =>
    cases EnumType.misuse? (.text name) members with
    | some m => exact .error _ w v h
    | none =>
      refine .ok _ _ _ _ rfl ⟨h.left.withEnum registry rfl, h.right.withEnum registry rfl, ?_, h.sequence⟩
      have hview (u : Workspace) (e : EnumType) : (u.withEnum registry e).view registry =
          u.view registry ++ [(.text e.name, e.description, u.shown (.enum e))] :=
        Workspace.view_add { u with enumCount := u.enumCount + 1 } registry _
      rw [hview, hview, h.view]
      rfl
  | object c d hname hmodel => exact .error _ w v h
  | enum e f hname hmembers hdescription =>
    dsimp only
    rw [← hmembers]
    by_cases hs : Value.sameRecord e.members members = true
    · rw [if_pos hs, if_pos hs]
      refine .ok e f w v ?_ h
      simp only [NamedType.anonymous, hname, hmembers, hdescription]
    · rw [if_neg hs, if_neg hs]
      exact .error _ w v h

end Enums

theorem fieldEnum_alike (ho : o.builder = none) (h : Indistinct o.registry o.sequence w v) (key : Value)
    (source : EnumSource) :
    EndAlike o.registry o.sequence (fun e => NamedType.anonymous (.enum e))
      (fieldEnum o key source w) (fieldEnum o key source v) := by
  have houtline : EndAlike o.registry o.sequence (fun e => NamedType.anonymous (.enum e))
      (registerOutline o key source w) (registerOutline o key source v) :=
    .ofExcept_bind _ h fun outline _ => registerEnum_alike h _ _ _
  have hcoherent (u : Workspace) : Coherent u → Coherent ((fieldEnum o key source).after u) :=
    (admits_coherent 0 (by rw [ho]; nofun)).fieldEnum key source
  generalize hx : registerOutline o key source w = x at houtline
  generalize hy : registerOutline o key source v = y at houtline
  cases houtline with
  | error f w1 v1 states =>
    rw [(fieldEnum_of_registerOutline_error h.left hx).2, (fieldEnum_of_registerOutline_error h.right hy).2]
    exact .error f w v h
  | ok e f w1 v1 same states =>
    obtain ⟨memos, events, he⟩ := fieldEnum_of_registerOutline_ok h.left hx
    obtain ⟨memos', events', hf⟩ := fieldEnum_of_registerOutline_ok h.right hy
    rw [he, hf]
    refine .ok e f _ _ same ⟨?_, ?_, states.view, states.sequence⟩
    · exact after_of_ok he ▸ hcoherent w h.left
    · exact after_of_ok hf ▸ hcoherent v h.right

theorem modelName_alike (h : Indistinct o.registry o.sequence w v) (description : Value) :
    EndAlike o.registry o.sequence id (modelName o description w) (modelName o description v) := by
  rw [modelName_eq, modelName_eq, ← h.sequence]
  cases statedName? o description with
  | error e => exact .error e w v h
  | ok found =>
    cases found with
    | some naming => exact .ok naming naming w v rfl h
    | none =>
      dsimp only
      cases (w.sequences o.sequence).next? with
      | none => exact .error _ w v h
      | some next =>
        have hdrawn (u : Workspace) (hu : Coherent u) : Coherent (u.setSequence o.sequence next) :=
          ⟨hu.counted, hu.told, hu.made, hu.lines⟩
        refine .ok _ _ _ _ rfl ⟨hdrawn w h.left, hdrawn v h.right, h.view, ?_⟩
        simp only [Workspace.setSequence, update_same]

section Models

variable {naming : ModelName} {source : Node}

theorem view_withObject (hc : Coherent w) (registry : Key) (m : ModelClass) (name : String)
    (description : Value) (hl : m.line = [.modelBase]) :
    ((w.withClass m).withObject registry (.text name) name ⟨w.classes.length, name⟩ description).view
      registry = w.view registry ++ [(.text name, description,
        (.object ⟨0, name⟩, some (m.rename NamedType.anonymous)))] := by
  have hmade : (w.withClass m).class? ⟨w.classes.length, name⟩ = some m := List.getElem?_concat_length
  have hadd := Workspace.view_add (w.withClass m) registry
    ⟨.text name, .object ⟨w.classes.length, name⟩, description⟩
  have hkept : (w.withClass m).view registry = w.view registry :=
    Workspace.view_of_classes hc rfl (List.prefix_append _ _)
  have hshown : (w.withClass m).shown (.object ⟨w.classes.length, name⟩) =
      (.object ⟨0, name⟩, some (m.rename NamedType.anonymous)) := by
    rw [Workspace.shown, whole?_of_modelBase _ hmade hl]
    rfl
  rw [hkept, hshown] at hadd
  exact hadd

theorem defineModel_alike (h : Indistinct o.registry o.sequence w v) {fields others : List CompiledField}
    (same : fields.map (CompiledField.rename NamedType.anonymous) =
      others.map (CompiledField.rename NamedType.anonymous)) :
    EndAlike o.registry o.sequence ClassHandle.name (defineModel o naming source fields w)
      (defineModel o naming source others v) := by
  have hkeys : fields.map (·.key) = others.map (·.key) := by
    have := congrArg (List.map (·.key)) same
    rwa [List.map_map, List.map_map] at this
  cases hm : modelMisuse? naming.name (fields.map (·.key)) with
  | some m =>
    rw [defineModel_of_misuse w hm, defineModel_of_misuse v (hkeys ▸ hm)]
    exact .error _ w v h
  | none =>
    obtain ⟨name, hname⟩ := text_of_modelMisuse? hm
    rw [defineModel_of_text w hname hm, defineModel_of_text v hname (hkeys ▸ hm), registerObject_eq,
      registerObject_eq, Value.key?_text]
    let c := classOf name naming.description source fields
    let d := classOf name naming.description source others
    have hclass : c.rename NamedType.anonymous = d.rename NamedType.anonymous := by
      rw [classOf_rename, classOf_rename, same]
    have hadded : Indistinct o.registry o.sequence (w.withClass c) (v.withClass d) := by
      refine ⟨h.left.withClass rfl, h.right.withClass rfl, ?_, h.sequence⟩
      have hkept (u : Workspace) (hu : Coherent u) (m : ModelClass) :
          (u.withClass m).view o.registry = u.view o.registry :=
        Workspace.view_of_classes hu rfl (List.prefix_append _ _)
      rw [hkept w h.left, hkept v h.right, h.view]
    have hnew (u : Workspace) (hu : Coherent u) (held : ClassHandle)
        (hheld : (u.registries o.registry).get? (.text name) = some (.object held)) :
        held.serial ≠ u.classes.length := by
      obtain ⟨entry, hentry, _, ht⟩ := Registry.mem_of_get? hheld
      have := hu.made o.registry entry hentry held ht
      omega
    have ht := hadded.twins (.text name)
    generalize hx : ((w.withClass c).registries o.registry).get? (.text name) = x at ht
    generalize hy : ((v.withClass d).registries o.registry).get? (.text name) = y at ht
    dsimp only
    rw [hx, hy]
    cases ht with
    | enum e f => exact .error _ _ _ hadded
    | object b b' =>
      dsimp only
      rw [if_neg (hnew w h.left b hx), if_neg (hnew v h.right b' hy)]
      exact .error _ _ _ hadded
    | none =>
      have hobject (u : Workspace) (hu : Coherent u) (m : ModelClass) (hl : m.line = [.modelBase]) :
          Coherent ((u.withClass m).withObject o.registry (.text name) name ⟨u.classes.length, name⟩
            naming.description) :=
        (hu.withClass hl).withObject _ _ _ _ (by simp [Workspace.withClass])
      have hl := hobject w h.left c rfl
      have hr := hobject v h.right d rfl
      refine .ok _ _ _ _ rfl ⟨⟨hl.counted, hl.told, hl.made, hl.lines⟩,
        ⟨hr.counted, hr.told, hr.made, hr.lines⟩, ?_, h.sequence⟩
      have hview := view_withObject h.left o.registry c name naming.description rfl
      have hview' := view_withObject h.right o.registry d name naming.description rfl
      rw [h.view, hclass] at hview
      exact hview.trans hview'.symm

theorem synthesize_alike (h : Indistinct o.registry o.sequence w v) (description : Value)
    (compileFields : Options → Work (List CompiledField))
    (hfields : ∀ name generatedName w v, Indistinct o.registry o.sequence w v →
      EndAlike o.registry o.sequence (List.map (CompiledField.rename NamedType.anonymous))
        (compileFields { o with name, generatedName } w)
        (compileFields { o with name, generatedName } v)) :
    EndAlike o.registry o.sequence ClassHandle.name (synthesize o source description compileFields w)
      (synthesize o source description compileFields v) := by
  rw [synthesize_eq, synthesize_eq]
  have hn := modelName_alike h description
  generalize modelName o description w = x at hn
  generalize modelName o description v = y at hn
  cases hn with
  | error e w1 v1 states => exact .error e w1 v1 states
  | ok naming other w1 v1 same states =>
    cases same
    dsimp only
    cases naming.name.key? with
    | none => exact .error _ w1 v1 states
    | some key =>
      dsimp only
      have ht := states.twins key
      generalize (w1.registries o.registry).get? key = x at ht
      generalize (v1.registries o.registry).get? key = y at ht
      cases ht with
      | enum e f => exact .error _ w1 v1 states
      | object c d hname hmodel =>
        have hsource : (w1.whole? c).bind (·.source) = (v1.whole? d).bind (·.source) := by
          have := congrArg (·.bind (·.source)) hmodel
          rw [Option.bind_map, Option.bind_map] at this
          exact this
        dsimp only
        rw [hsource]
        by_cases hs : (v1.whole? d).bind (·.source) = some source
        · rw [if_pos hs, if_pos hs]
          exact .ok c d w1 v1 hname states
        · rw [if_neg hs, if_neg hs]
          exact .error _ w1 v1 states
      | none =>
        have hf : EndAlike o.registry o.sequence (List.map (CompiledField.rename NamedType.anonymous))
            (compileFields (o.within naming) w1) (compileFields (o.within naming) v1) :=
          hfields _ _ w1 v1 states
        dsimp only
        generalize compileFields (o.within naming) w1 = x at hf
        generalize compileFields (o.within naming) v1 = y at hf
        cases hf with
        | error e w2 v2 states => exact .error e w2 v2 states
        | ok fields others w2 v2 same states => exact defineModel_alike states same

end Models

section Fields

variable {c d : Classification}

theorem fieldType_alike (ho : o.builder = none) (h : Indistinct o.registry o.sequence w v) (key : Value)
    (node : Node) (same : c.rename NamedType.anonymous = d.rename NamedType.anonymous) :
    EndAlike o.registry o.sequence (OutputType.rename NamedType.anonymous) (fieldType o key node c w)
      (fieldType o key node d v) := by
  have hsource : c.enumSource = d.enumSource := by
    have := congrArg Classification.enumSource same
    exact this
  have htype : c.type.rename NamedType.anonymous = d.type.rename NamedType.anonymous :=
    congrArg Classification.type same
  have hopen : c.type.isOpen = d.type.isOpen := by
    rw [← OutputType.isOpen_rename NamedType.anonymous, htype, OutputType.isOpen_rename]
  unfold fieldType
  rw [hsource, hopen]
  cases d.enumSource with
  | none =>
    dsimp only
    by_cases hd : d.type.isOpen = true
    · rw [if_pos hd, if_pos hd]
      exact .error _ w v h
    · rw [if_neg hd, if_neg hd]
      exact .ok _ _ w v htype h
  | some source =>
    apply (fieldEnum_alike ho h key source).bind
    intro e f w1 v1 he states
    refine .ok _ _ w1 v1 ?_ states
    have hnumbered : { e with serial := 0 } = { f with serial := 0 } := NamedType.enum.inj he
    rw [OutputType.fill_anonymous, OutputType.fill_anonymous, htype, hnumbered]

theorem compileField_alike (ho : o.builder = none) (key : Value) (node : Node) (kind : Kind)
    {classified : Work Classification}
    (h : EndAlike o.registry o.sequence (Classification.rename NamedType.anonymous) (classified w)
      (classified v)) :
    EndAlike o.registry o.sequence (CompiledField.rename NamedType.anonymous)
      (compileField o key node kind classified w) (compileField o key node kind classified v) := by
  unfold compileField
  apply h.bind
  intro c d w1 v1 same states
  have hnull := congrArg Classification.nullability same
  have hitems := congrArg Classification.itemsOnly same
  change c.nullability = d.nullability at hnull
  change c.itemsOnly = d.itemsOnly at hitems
  apply (fieldType_alike ho states key node same).bind
  intro type other w2 v2 htype states
  apply EndAlike.ofExcept_bind _ states
  intro default _
  apply EndAlike.ofExcept_bind _ states
  intro description _
  refine .ok _ _ w2 v2 ?_ states
  simp only [CompiledField.rename, htype, hnull, hitems]

end Fields

mutual

theorem classify_alike (o : Options) (ho : o.builder = none) (key : Value) : (node : Node) →
    (w v : Workspace) → Indistinct o.registry o.sequence w v →
    EndAlike o.registry o.sequence (Classification.rename NamedType.anonymous) (classify o key node w)
      (classify o key node v)
  | .optional a inner, w, v, h => by
    rw [classify]
    apply (classify_alike o ho key inner w v h).bind
    intro c d w1 v1 same states
    refine .ok _ _ w1 v1 ?_ states
    exact congrArg (Classification.optional · a) same
  | .array a item, w, v, h => by
    rw [classify]
    apply (classify_alike o ho key item w v h).bind
    intro c d w1 v1 same states
    refine .ok _ _ w1 v1 ?_ states
    exact congrArg (Classification.array · a) same
  | .object a shape, w, v, h => by
    rw [classify_object ho]
    apply EndAlike.ofExcept_bind _ h
    intro name _
    apply (synthesize_alike (o := { o with name }) h a.description _ ?_).bind
    · intro c d w1 v1 same states
      refine .ok _ _ w1 v1 ?_ states
      simp only [Classification.ofType, Classification.rename, OutputType.rename, NamedType.anonymous,
        same]
    · intro inner generatedName w1 v1 states
      exact compileShape_alike { o with name := inner, generatedName } ho shape w1 v1 states
  | .enum _ _, w, v, h | .boolean _, w, v, h | .string _, w, v, h | .number _ _, w, v, h
  | .union _ _, w, v, h | .literal _ _, w, v, h | .date _, w, v, h | .any _, w, v, h => by
    rw [classify]
    exact .ok _ _ w v rfl h
  | .plain u, w, v, h => by
    cases u with
    | null => rw [classify]; exact .ok _ _ w v rfl h
    | _ =>
      rw [classify]
      · exact .error _ w v h
      · simp

theorem compileShape_alike (o : Options) (ho : o.builder = none) : (shape : List (Value × Node)) →
    (w v : Workspace) → Indistinct o.registry o.sequence w v →
    EndAlike o.registry o.sequence (List.map (CompiledField.rename NamedType.anonymous))
      (compileShape o shape w) (compileShape o shape v)
  | [], w, v, h => by
    rw [compileShape]
    exact .ok _ _ w v rfl h
  | (key, node) :: rest, w, v, h => by
    rw [compileShape_cons]
    rcases compileNode_cases o key node with ⟨kind, -, -, hrun⟩ | ⟨-, hrun⟩
    · rw [hrun]
      apply (compileField_alike ho key node kind (classify_alike o ho key node w v h)).bind
      intro field other w1 v1 same states
      apply (compileShape_alike o ho rest w1 v1 states).bind
      intro fields others w2 v2 hrest states
      refine .ok _ _ w2 v2 ?_ states
      rw [List.map_cons, List.map_cons, same, hrest]
    · rw [hrun]
      exact .error _ w v h

end

theorem compileModel_alike (ho : o.builder = none) (node : Node)
    (h : Indistinct o.registry o.sequence w v) :
    EndAlike o.registry o.sequence ClassHandle.name (compileModel o node w) (compileModel o node v) := by
  unfold compileModel
  split
  · exact synthesize_alike h _ _ fun name generatedName w1 v1 states =>
      compileShape_alike { o with name, generatedName } ho _ w1 v1 states
  · exact .error _ w v h

end SchemaCompiler
