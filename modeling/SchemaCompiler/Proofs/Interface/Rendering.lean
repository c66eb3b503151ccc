import SchemaCompiler.Interface.Sdl
import SchemaCompiler.Proofs.Model.WellFormed

namespace SchemaCompiler

open Node

variable {w : Workspace} {registry : Key} {t : Title}

theorem describe_text (indent : String) {v : Value} (h : v.isOptionalText = true) :
    ∃ text, Sdl.describe indent (.value v) = .ok text := by
  unfold Sdl.describe
  rcases Value.isOptionalText_iff.mp h with rfl | ⟨s, rfl⟩
  · exact ⟨"", rfl⟩
  · split
    · exact ⟨"", rfl⟩
    · exact ⟨_, rfl⟩

theorem reference_ok {type : OutputType} (h : ∃ name, type.leaf.typeName = .ok name) (n : Nullability) :
    ∃ text, type.reference n = .ok text := by
  induction type generalizing n with
  | list item ih =>
    obtain ⟨text, htext⟩ := ih h n.forItems
    rw [OutputType.reference, htext, Outcome.ok_bind]
    split
    · exact ⟨_, rfl⟩
    · exact ⟨_, rfl⟩
  | _ =>
    obtain ⟨name, hname⟩ := h
    exact ⟨_, reference_of_typeName hname (by simp [OutputType.leaf]) n⟩

theorem LeafNamed.typeName {key : Value} {n : Node} {type : OutputType}
    (h : LeafNamed w registry t key n type) : ∃ name, type.typeName = .ok name := by
  cases h with
  | boolean => exact ⟨_, rfl⟩
  | string => exact ⟨_, rfl⟩
  | number => exact ⟨_, rfl⟩
  | enum => exact ⟨_, rfl⟩
  | object => exact ⟨_, rfl⟩

theorem renderField_ok {f : Value × Node} {d : CompiledField} (hf : f.2.wellFormed = true)
    (h : FieldNamed w registry t f d) : ∃ text, Sdl.renderField d.toField = .ok text := by
  obtain ⟨v, hv, htext⟩ := fieldDescription_wellFormed hf
  obtain rfl : v = d.description := Except.ok.inj (hv.symm.trans h.description)
  obtain ⟨description, hdescription⟩ := describe_text "  " htext
  obtain ⟨type, htype⟩ := reference_ok h.type.typeName d.nullable
  refine ⟨description ++ "  " ++ d.key.display ++ ": " ++ type ++ "\n", ?_⟩
  change (Sdl.describe "  " (.value d.description) >>= fun description =>
    d.type.reference d.nullable >>= fun type =>
      pure (description ++ "  " ++ d.key.display ++ ": " ++ type ++ "\n")) = _
  rw [hdescription, Outcome.ok_bind, htype]
  rfl

theorem fieldNamed_of_mem {shape : List (Value × Node)} {fields : List CompiledField} {d : CompiledField}
    (h : List.Forall₂ (FieldNamed w registry t) shape fields) (hd : d ∈ fields) :
    ∃ f ∈ shape, FieldNamed w registry t f d := by
  induction h with
  | nil => cases hd
  | cons hf _ ih =>
    rcases List.mem_cons.mp hd with rfl | hd
    · exact ⟨_, List.mem_cons_self .., hf⟩
    · obtain ⟨f, hmem, hf⟩ := ih hd
      exact ⟨f, List.mem_cons_of_mem _ hmem, hf⟩

theorem description_classOf (name : String) (description : Value) (source : Node)
    {fields : List CompiledField} (h : ∀ d ∈ fields, d.slot.part? = none) :
    (classOf name description source fields).description =
      some (.value (description.orElse (.text ""))) := by
  have hnone : (fields.map (·.slot)).find? (·.part? = some .description) = none := by
    rw [List.find?_eq_none]
    intro s hs
    obtain ⟨d, hd, rfl⟩ := List.mem_map.mp hs
    simp [h d hd]
  unfold classOf
  simp only [hnone]

theorem enumsOf_types (r : Registry) : Sdl.enumsOf (r.types.map (·.toOutput)) = r.enums := by
  rw [Sdl.enumsOf, List.filterMap_map]
  apply List.filterMap_congr
  intro n _
  cases n <;> rfl

theorem classesOf_types (r : Registry) : Sdl.classesOf (r.types.map (·.toOutput)) = r.objects := by
  rw [Sdl.classesOf, List.filterMap_map]
  apply List.filterMap_congr
  intro n _
  cases n <;> rfl

section Registry

variable {root : Node}

def Records (w : Workspace) (registry : Key) (root : Node) : Prop :=
  ∀ entry ∈ (w.registries registry).entries,
    ∃ d : Definition, root.Reaches d.source ∧ Recorded w registry d entry

variable (hroot : root.wellFormed = true) (h : Records w registry root)

include hroot

theorem Recorded.described {d : Definition} {entry : Registry.Entry} (hd : root.Reaches d.source)
    (hr : Recorded w registry d entry) : entry.description.isOptionalText = true := by
  cases hr with
  | @model t a shape c fields description named described =>
    rcases described with rfl | ⟨s, rfl⟩
    · exact description_wellFormed (wellFormed_of_reaches hd hroot) rfl
    · rfl
  | @enum t key a values e named members described =>
    change e.description.isOptionalText = true
    rw [described]
    exact description_wellFormed (wellFormed_of_reaches hd hroot) rfl

include h

theorem description_registered (name : Key) :
    ((w.registries registry).description name).isOptionalText = true := by
  unfold Registry.description
  cases hn : (w.registries registry).named? name with
  | none => rfl
  | some entry =>
    obtain ⟨d, hd, hr⟩ := h entry (List.mem_of_find?_eq_some hn)
    exact hr.described hroot hd

theorem renderEnum_ok {e : EnumType} (he : e ∈ (w.registries registry).enums) :
    ∃ text, (Sdl.declareEnum e).render = .ok text := by
  obtain ⟨type, htype, hmatch⟩ := List.mem_filterMap.mp he
  obtain ⟨entry, hentry, rfl⟩ := List.mem_map.mp htype
  obtain ⟨d, hd, hr⟩ := h entry hentry
  have hdescribed := hr.described hroot hd
  cases hr with
  | model => cases hmatch
  | enum =>
    cases hmatch
    obtain ⟨description, hdescription⟩ := describe_text "" hdescribed
    unfold Sdl.EnumDeclaration.render
    rw [show Sdl.describe "" (.value (Sdl.declareEnum e).description) = .ok description from hdescription]
    exact ⟨_, rfl⟩

theorem renderModel_ok {c : ClassHandle} (hc : c ∈ (w.registries registry).objects) :
    ∃ text, (Sdl.declareModel w (fun name => (w.registries registry).description (.text name)) c).render =
      .ok text := by
  obtain ⟨type, htype, hmatch⟩ := List.mem_filterMap.mp hc
  obtain ⟨entry, hentry, rfl⟩ := List.mem_map.mp htype
  obtain ⟨d, hd, hr⟩ := h entry hentry
  have hdescribed := hr.described hroot hd
  have hgiven := description_registered hroot h (.text c.name)
  cases hr with
  | enum => cases hmatch
  | @model t a shape c' fields own named described made hfields =>
    cases hmatch
    have hfieldsOf := fields_wellFormed (wellFormed_of_reaches hd hroot)
    have hplain : ∀ d ∈ fields, d.slot.part? = none := by
      intro d hd
      obtain ⟨f, hf, hnamed⟩ := fieldNamed_of_mem hfields hd
      rw [Slot.part?, hnamed.attr]
      exact ofValue?_plainKey (hfieldsOf f hf).1
    have hrows : ∀ f ∈ fields.map (·.toField), ∃ text, Sdl.renderField f = .ok text := by
      intro f hf
      obtain ⟨d, hmem, rfl⟩ := List.mem_map.mp hf
      obtain ⟨f, hf, hnamed⟩ := fieldNamed_of_mem hfields hmem
      exact renderField_ok (hfieldsOf f hf).2 hnamed
    obtain ⟨rows, hrows⟩ := Outcome.mapM_ok hrows
    have hown : ((w.whole? c).bind (·.description)).getD (.value .null) =
        .value (own.orElse (.text "")) := by
      rw [whole?_of_modelBase w made rfl]
      exact congrArg (Option.getD · _) (description_classOf t.name own (.object a shape) hplain)
    have hdeclared : (Sdl.declareModel w
        (fun name => (w.registries registry).description (.text name)) c).fields =
        fields.map (·.toField) := by
      unfold Sdl.declareModel
      rw [made]
      rfl
    have htext : ∃ text, Sdl.describe "" (Sdl.declareModel w
        (fun name => (w.registries registry).description (.text name)) c).description = .ok text := by
      unfold Sdl.declareModel
      dsimp only
      rw [hown]
      split
      · exact describe_text "" hgiven
      · refine describe_text "" ?_
        unfold Value.orElse
        split
        · exact hdescribed
        · rfl
    obtain ⟨text, htext⟩ := htext
    unfold Sdl.ModelDeclaration.render
    rw [htext, Outcome.ok_bind, hdeclared, hrows, Outcome.ok_bind]
    exact ⟨_, rfl⟩

theorem renderRegistry_ok (header : Value) :
    ∃ text, Sdl.renderRegistry w header registry = .ok text := by
  have henums : ∀ e ∈ (w.registries registry).enums.map Sdl.declareEnum, ∃ text, e.render = .ok text := by
    intro declared hdeclared
    obtain ⟨e, he, rfl⟩ := List.mem_map.mp hdeclared
    exact renderEnum_ok hroot h he
  have hmodels : ∀ m ∈ (w.registries registry).objects.map
      (Sdl.declareModel w fun name => (w.registries registry).description (.text name)),
      ∃ text, m.render = .ok text := by
    intro declared hdeclared
    obtain ⟨c, hc, rfl⟩ := List.mem_map.mp hdeclared
    exact renderModel_ok hroot h hc
  obtain ⟨enums, henums⟩ := Outcome.mapM_ok henums
  obtain ⟨models, hmodels⟩ := Outcome.mapM_ok hmodels
  unfold Sdl.renderRegistry Sdl.renderTypes Sdl.renderAll
  dsimp only
  rw [enumsOf_types, classesOf_types, henums, Outcome.ok_bind, hmodels]
  exact ⟨_, rfl⟩

end Registry

section Compilation

variable {name : Value} {a : Annotations} {shape : List (Value × Node)}

theorem reaches_definitions {o : Options} {n : Value} {d : Definition}
    (h : d ∈ o.definitions a shape n) : (Node.object a shape).Reaches d.source := by
  rcases List.mem_cons.mp h with rfl | h
  · exact .refl _
  · obtain ⟨f, hf, hreach⟩ := reaches_definitionOf shape h
    exact .field a hf hreach

theorem modelName_isolated (name : Value) {description : Value}
    (hd : description.isOptionalText = true) :
    ∃ naming v, modelName (.named name) description {} = .ok naming v := by
  have hstated : ∃ found, statedName? (.named name) description = .ok found := by
    cases hn : (Options.named name).name.truthy with
    | true => exact ⟨_, statedName?_of_name hn⟩
    | false =>
      obtain ⟨found, hfound⟩ := titleOf_text hd
      exact ⟨_, by rw [Options.statedName?_eq hn rfl, hfound]; rfl⟩
  obtain ⟨found, hfound⟩ := hstated
  rw [modelName_eq, hfound]
  cases found with
  | some naming => exact ⟨_, _, rfl⟩
  | none => exact ⟨_, _, rfl⟩

def PlainName (name : Value) : Prop := name = .null ∨ ∃ s, name = .text s ∧ '\x00' ∉ s.toList

theorem PlainName.rootTitle (h : PlainName name) (description : Value) :
    ((Options.named name).rootTitle description (.int 0)).Plain := by
  unfold Options.rootTitle Title.Plain
  split
  · rcases h with rfl | ⟨s, rfl, hs⟩
    · rename_i hn
      cases hn
    · exact hs
  · cases hown : Naming.ownTitle? description with
    | none => decide
    | some own =>
      intro hmem
      cases description with
      | text s => exact absurd (Naming.word_readColon (List.forall_mem_nil _) hown _ hmem) (by decide)
      | _ => cases hown

/-- A compilation of a well-formed tree comes to types with a text, or fails as the tree may: with a
report on the tree, or for an enum two of whose values give one name that opens with an underscore. -/
theorem compiles_or_reports (hname : PlainName name) (h : (Node.object a shape).wellFormed = true) :
    match compileModel (.named name) (.object a shape) {} with
    | .ok _ w => ∀ header, ∃ text, Sdl.renderRegistry w header .null = .ok text
    | .error e _ => (Node.object a shape).MayFail e := by
  obtain ⟨naming, v, hm⟩ := modelName_isolated name (description_wellFormed h rfl)
  have hbooks := isolated_books (hname.imp_right fun ⟨s, hs, _⟩ => ⟨s, hs⟩) shape hm
  unfold Work.Ends at hbooks
  cases hrun : compileModel (.named name) (.object a shape) {} with
  | ok c w =>
    rw [hrun] at hbooks
    have hrecords : Records w .null (.object a shape) := by
      intro entry hentry
      rcases hbooks.1.recorded entry hentry with hold | ⟨d, hd, hr⟩
      · rcases modelName_ok hm with ⟨-, rfl⟩ | ⟨-, next, -, rfl⟩ <;> cases hold
      · exact ⟨d, reaches_definitions hd, hr⟩
    exact fun header => renderRegistry_ok h hrecords header
  | error e w =>
    rw [hrun] at hbooks
    rcases hbooks.2 (hname.rootTitle a.description) with hfault | ⟨clashing, rfl, -⟩
    · exact faults_wellFormed h hfault
    · exact .duplicateType _

def lock (values : List Value) : List (Value × Node) :=
  [(.text "bolt", .object { description := .text "Bolt: what moves" } [(.text "thrown", .boolean {})]),
    (.text "factor", .optional {} (.enum {} (.list values)))]

theorem compiles_or_reports_lock : ∃ c w text,
    compileModel (.named (.text "Lock")) (.object {} (lock [.text "none", .text "2fa"])) {} = .ok c w ∧
      Sdl.renderRegistry w (.text "Locks") .null = .ok text := by
  have hname : PlainName (.text "Lock") := .inr ⟨"Lock", rfl, by decide⟩
  have hformed : (Node.object {} (lock [.text "none", .text "2fa"])).wellFormed = true := by decide
  have hok : ((compileModel (.named (.text "Lock"))
      (.object {} (lock [.text "none", .text "2fa"]))).outcome {}).isOk = true := by decide +kernel
  -- The match in the statement would otherwise be decided by compiling the shape once more.
  generalize lock [.text "none", .text "2fa"] = shape at hformed hok ⊢
  obtain ⟨c, w, hrun⟩ := Work.ok_of_outcome hok
  have hends := compiles_or_reports hname hformed
  rw [hrun] at hends
  obtain ⟨text, htext⟩ := hends (.text "Locks")
  exact ⟨c, w, text, hrun, htext⟩

/-- Two values that give the name `_2FA`: with the underscore that tells them apart the second one gets a
reserved name. -/
theorem lock_reserved : ∃ w,
    compileModel (.named (.text "Lock")) (.object {} (lock [.text "2fa", .text "2FA"])) {} =
      .error (.misuse .reservedMemberName) w :=
  Work.error_of_outcome (by decide +kernel)

end Compilation

end SchemaCompiler
