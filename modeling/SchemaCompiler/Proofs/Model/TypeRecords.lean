import SchemaCompiler.Proofs.Model.EnumMemo
import SchemaCompiler.Proofs.Model.Recording

namespace SchemaCompiler

open Work Node

variable {w : Workspace} {o : Options} {t : Title} {plain : Prop}

theorem Standing.of_registries {registry : Key} {w' : Workspace} (h : Standing registry w)
    (hc : Coherent w') (hr : w'.registries = w.registries) (hcl : w'.classes = w.classes) :
    Standing registry w' := by
  have hmade (c : ClassHandle) : w'.madeOf c = w.madeOf c := by
    unfold Workspace.madeOf Workspace.whole? Workspace.class?
    rw [hcl]
  refine ⟨hc, ?_, ?_, ?_⟩
  · rw [hr]
    exact h.named
  · rw [hr]
    exact h.enums
  · intro entry he c a shape ht hm
    rw [hr] at he
    rw [hmade] at hm
    exact h.models entry he c a shape ht hm

theorem Adds.of_registries {registry : Key} {defs : List Definition} {v w' : Workspace}
    (h : Adds registry defs v w) (hc : Coherent w') (hr : w'.registries = w.registries)
    (hcl : w'.classes = w.classes) (hs : w'.sequences = w.sequences) : Adds registry defs v w' := by
  have hg : Grows w w' := .of_same hr hcl
  refine ⟨h.standing.of_registries hc hr hcl, h.grows.trans hg, hs.trans h.sequences, fun entry he => ?_⟩
  rw [hr] at he
  exact (h.recorded entry he).imp_right fun ⟨d, hd, hrec⟩ => ⟨d, hd, hrec.mono h.standing.coherent hg⟩

theorem Standing.withEnum {registry : Key} (h : Standing registry w) {e : EnumType}
    (hs : e.serial = w.enumCount) (hr : EnumType.hasReserved e.members = false)
    (hd : (e.members.map (·.1)).Nodup) : Standing registry (w.withEnum registry e) := by
  have hmem {entry : Registry.Entry} (he : entry ∈ ((w.withEnum registry e).registries registry).entries) :
      entry ∈ (w.registries registry).entries ∨ entry = ⟨.text e.name, .enum e, e.description⟩ :=
    mem_registries_add (w := { w with enumCount := w.enumCount + 1 }) he
  refine ⟨h.coherent.withEnum registry hs, ?_, ?_, ?_⟩
  · intro entry he
    rcases hmem he with he | rfl
    · exact h.named entry he
    · rfl
  · intro entry he f hf
    rcases hmem he with he | rfl
    · exact h.enums entry he f hf
    · cases hf
      exact ⟨hr, hd⟩
  · intro entry he c a shape ht hm
    rcases hmem he with he | rfl
    · exact h.models entry he c a shape ht hm
    · cases ht

theorem Standing.get?_enum {registry name : Key} (h : Standing registry w) {e : EnumType}
    (hg : (w.registries registry).get? name = some (.enum e)) : name = .text e.name ∧
      EnumType.hasReserved e.members = false ∧ (e.members.map (·.1)).Nodup := by
  obtain ⟨entry, hmem, hname, ht⟩ := Registry.mem_of_get? hg
  refine ⟨?_, h.enums entry hmem e ht⟩
  rw [← hname, h.named entry hmem, ht]
  rfl

theorem collides_of_held {s : String} {defs : List Definition} {held : NamedType} {d : Definition}
    (hg : (w.registries o.registry).get? (.text s) = some held) (hd : d ∈ defs) (hname : d.name = s)
    (hfits : ¬ Fits w held d) : Collides o.registry w defs (.duplicateType (.text s)) := by
  obtain ⟨entry, hmem, hn, rfl⟩ := Registry.mem_of_get? hg
  exact ⟨s, rfl, .inr ⟨entry, hmem, hn, d, hd, hname, hfits⟩⟩

theorem adds_withEnum (hw : Standing o.registry w) {e : EnumType} {key : Value} {a : Annotations}
    {values : Value} (hs : e.serial = w.enumCount) (hname : e.name = t.enumName key)
    (hm : e.members = Definition.members values) (ha : e.description = a.description)
    (hr : EnumType.hasReserved e.members = false) :
    Adds o.registry [.enum t key a values] w (w.withEnum o.registry e) := by
  have hd : (e.members.map (·.1)).Nodup := by
    rw [hm]
    exact Naming.nodup_enumMembers _
  refine ⟨hw.withEnum hs hr hd, .withEnum w o.registry e, rfl, fun entry he => ?_⟩
  rcases mem_registries_add (w := { w with enumCount := w.enumCount + 1 }) he with he | rfl
  · exact .inl he
  · exact .inr ⟨_, List.mem_singleton.mpr rfl, .enum hname hm ha⟩

theorem registerEnum_books (hw : Standing o.registry w) (hplain : plain → t.Plain) (key : Value)
    (a : Annotations) {values : Value} {vs : List Value} (hv : values.elements? = some vs) :
    Books o.registry plain
      (registerEnum o.registry (.text (t.enumName key)) (Naming.enumMembers vs) a.description) w
      [.enum t key a values]
      (fun e => EnumType.hasReserved (Naming.enumMembers vs) = true ∧ e = .misuse .reservedMemberName)
      fun e w' => e.name = t.enumName key ∧
        (w'.registries o.registry).get? (.text e.name) = some (.enum e) := by
  have hmembers : Definition.members values = Naming.enumMembers vs := by
    rw [Definition.members, hv]
    rfl
  have hrefused (held : NamedType)
      (hg : (w.registries o.registry).get? (.text (t.enumName key)) = some held)
      (hfits : ¬ Fits w held (.enum t key a values)) :
      Collides o.registry w [.enum t key a values] (.duplicateType (.text (t.enumName key))) :=
    collides_of_held hg (List.mem_singleton.mpr rfl) rfl hfits
  unfold Books Ends
  rw [registerEnum_text]
  cases hg : (w.registries o.registry).get? (.text (t.enumName key)) with
  | some held =>
    cases held with
    | object c => exact ⟨hw.refl _, fun _ => .inr (hrefused _ hg id)⟩
    | enum e =>
      dsimp only
      by_cases hs : Value.sameRecord e.members (Naming.enumMembers vs) = true
      · obtain ⟨hname, hreserved, hd⟩ := hw.get?_enum hg
        -- Nothing is checked here: the members are as good as those of the enum that is held.
        have hfree := EnumType.hasReserved_of_sameRecord hd hs hreserved
        rw [if_pos hs]
        refine ⟨hw.refl _, fun f hf => ?_, (Key.text.inj hname).symm, hname ▸ hg⟩
        rw [hfree] at hf
        cases hf.1
      · rw [if_neg hs]
        refine ⟨hw.refl _, fun _ => .inr (hrefused _ hg ?_)⟩
        rwa [Fits, hmembers]
  | none =>
    rw [EnumType.misuse?_enumMembers (member_enumName t key)]
    dsimp only
    by_cases hr : EnumType.hasReserved (Naming.enumMembers vs) = true
    · rw [if_pos hr]
      exact ⟨hw.refl _, fun _ => .inl ⟨hr, rfl⟩⟩
    · rw [if_neg hr]
      by_cases hnul : (t.enumName key).toList.contains '\x00' = true
      · rw [if_pos hnul]
        exact ⟨hw.refl _, fun hp => absurd (by simpa using hnul) ((hplain hp).enumName key)⟩
      · rw [if_neg hnul]
        refine ⟨adds_withEnum hw rfl rfl hmembers.symm rfl (by simpa using hr), fun f hf => hr hf.1, rfl, ?_⟩
        simp only [Workspace.withEnum, Workspace.setRegistry, update_same]
        exact Registry.get?_add_same hg

theorem fieldEnum_books (hw : Standing o.registry w) (ho : o.Under t) (hplain : plain → t.Plain)
    (key : Value) (a : Annotations) (values : Value) :
    Books o.registry plain (fieldEnum o key ⟨a.description, values⟩) w [.enum t key a values]
      (fun e => enumCheck key values = .error e) fun e w' => e.name = t.enumName key ∧
        (w'.registries o.registry).get? (.text e.name) = some (.enum e) := by
  unfold Books Ends
  rw [fieldEnum_eq, enumOutline_eq ho]
  unfold enumCheck
  cases hk : Naming.pascalCaseOf key with
  | error e => exact ⟨hw.refl _, fun _ => .inl rfl⟩
  | ok own =>
    cases hv : values.elements? with
    | none => exact ⟨hw.refl _, fun _ => .inl rfl⟩
    | some vs =>
      simp only [Outcome.ok_bind, Outcome.pure_eq_ok, Outcome.throw_eq_error]
      cases hcur : currentEnum? w o (t.enumName key) (Naming.enumMembers vs) with
      | some e =>
        obtain ⟨hg, hs⟩ := get?_of_currentEnum? hw.coherent hcur
        obtain ⟨hname, hreserved, hd⟩ := hw.get?_enum hg
        have hfree := EnumType.hasReserved_of_sameRecord hd hs hreserved
        refine ⟨hw.refl _, fun f hf => ?_, (Key.text.inj hname).symm, hname ▸ hg⟩
        rw [hfree] at hf
        cases hf
      | none =>
        have hregister := registerEnum_books hw hplain key a hv
        unfold Books Ends at hregister
        dsimp only
        cases hr : registerEnum o.registry (.text (t.enumName key)) (Naming.enumMembers vs) a.description w with
        | error e w' =>
          rw [hr] at hregister
          refine ⟨hregister.1, fun hp => (hregister.2 hp).imp_left fun ⟨hreserved, he⟩ => ?_⟩
          rw [if_pos hreserved, he]
        | ok e w' =>
          rw [hr] at hregister
          obtain ⟨hadds, hfree, hname, hheld⟩ := hregister
          have hcoherent := hadds.standing.coherent.withMemo o.memo o.registry (t.enumName key) key.display
            (.of_get? hheld)
          refine ⟨hadds.of_registries hcoherent rfl rfl rfl, fun f hf => ?_, hname, hheld⟩
          by_cases hreserved : EnumType.hasReserved (Naming.enumMembers vs) = true
          · exact hfree _ ⟨hreserved, rfl⟩
          · rw [if_neg hreserved] at hf
            cases hf

section Model

variable {a : Annotations} {shape : List (Value × Node)} {naming : ModelName}
  {fields : List CompiledField}

theorem Standing.withClass {registry : Key} (h : Standing registry w) (name : String)
    (description : Value) (source : Node) (fields : List CompiledField) :
    Standing registry (w.withClass (classOf name description source fields)) := by
  refine ⟨h.coherent.withClass rfl, h.named, h.enums, fun entry he c b others ht hm => ?_⟩
  have hlt := h.coherent.made registry entry he c ht
  rw [Workspace.madeOf, whole?_of_classes h.coherent (List.prefix_append _ _) hlt] at hm
  exact h.models entry he c b others ht hm

theorem Adds.withClass {registry : Key} {defs : List Definition} {v : Workspace}
    (h : Adds registry defs v w) (name : String) (description : Value) (source : Node)
    (fields : List CompiledField) :
    Adds registry defs v (w.withClass (classOf name description source fields)) := by
  have hg := Grows.withClass w (classOf name description source fields)
  refine ⟨h.standing.withClass name description source fields, h.grows.trans hg, h.sequences, ?_⟩
  intro entry he
  exact (h.recorded entry he).imp_right fun ⟨d, hd, hrec⟩ => ⟨d, hd, hrec.mono h.standing.coherent hg⟩

theorem keys_of_fieldNamed {registry : Key} (h : List.Forall₂ (FieldNamed w registry t) shape fields) :
    fields.map (·.key) = shape.map (·.1) := by
  induction h with
  | nil => rfl
  | cons hf _ ih => rw [List.map_cons, List.map_cons, hf.key, ih]

def Workspace.withModel (w : Workspace) (registry : Key) (name : String) (description : Value)
    (source : Node) (fields : List CompiledField) : Workspace :=
  (w.withClass (classOf name description source fields)).withObject registry (.text name) name
    ⟨w.classes.length, name⟩ description

theorem grows_withModel (w : Workspace) (registry : Key) (name : String) (description : Value)
    (source : Node) (fields : List CompiledField) :
    Grows (w.withClass (classOf name description source fields))
      (w.withModel registry name description source fields) := .withObject _ registry _ _ _ description

theorem recorded_withModel {registry : Key} {description : Value} (hc : Coherent w)
    (hd : description = a.description ∨ ∃ s, description = .text s)
    (hf : List.Forall₂ (FieldNamed w registry t) shape fields) :
    Recorded (w.withModel registry t.name description (.object a shape) fields) registry
      (.model t a shape) ⟨.text t.name, .object ⟨w.classes.length, t.name⟩, description⟩ := by
  have hmade : (w.withModel registry t.name description (.object a shape) fields).class?
      ⟨w.classes.length, t.name⟩ = some (classOf t.name description (.object a shape) fields) :=
    List.getElem?_concat_length
  have hg := (Grows.withClass w _).trans
    (grows_withModel w registry t.name description (.object a shape) fields)
  exact .model rfl hd hmade (hf.imp fun _ _ hf => hf.mono hc hg)

theorem adds_withModel {registry : Key} {defs : List Definition} {v : Workspace} {description : Value}
    (h : Adds registry defs v w) (hd : description = a.description ∨ ∃ s, description = .text s)
    (hp : Passes shape) (hf : List.Forall₂ (FieldNamed w registry t) shape fields) :
    Adds registry (.model t a shape :: defs) v
      (w.withModel registry t.name description (.object a shape) fields) := by
  have hclass := h.withClass t.name description (.object a shape) fields
  have hc := hclass.standing.coherent
  have hg := grows_withModel w registry t.name description (.object a shape) fields
  have hnew := recorded_withModel h.standing.coherent hd hf
  have hcoherent := hc.withObject registry (.text t.name) t.name (c := ⟨w.classes.length, t.name⟩)
    description (by simp [Workspace.withClass])
  have hmem {entry : Registry.Entry}
      (he : entry ∈ ((w.withModel registry t.name description (.object a shape) fields).registries
        registry).entries) : entry ∈ (w.registries registry).entries ∨
      entry = ⟨.text t.name, .object ⟨w.classes.length, t.name⟩, description⟩ :=
    mem_registries_add (w := w.withClass (classOf t.name description (.object a shape) fields)) he
  refine ⟨⟨hcoherent, ?_, ?_, ?_⟩, hclass.grows.trans hg, h.sequences, ?_⟩
  · intro entry he
    rcases hmem he with he | rfl
    · exact h.standing.named entry he
    · rfl
  · intro entry he e ht
    rcases hmem he with he | rfl
    · exact h.standing.enums entry he e ht
    · cases ht
  · intro entry he c b others ht hm
    rcases hmem he with he | rfl
    · have hlt := hc.made registry entry he c ht
      rw [Workspace.madeOf, whole?_of_classes hc hg.classes hlt] at hm
      exact hclass.standing.models entry he c b others ht hm
    · rw [hnew.madeOf ht, shownSource] at hm
      split at hm
      · cases hm
      · rename_i hhides
        cases hm
        exact ⟨by simpa using hhides, hp⟩
  · intro entry he
    rcases hmem he with he | rfl
    · rcases hclass.recorded entry he with he | ⟨d, hd, hrec⟩
      · exact .inl he
      · exact .inr ⟨d, List.mem_cons_of_mem _ hd, hrec.mono hc hg⟩
    · exact .inr ⟨_, List.mem_cons_self .., hnew⟩

/-- A name that was free before the fields of a model were compiled, and is not any more, is that of
another definition among the fields. -/
theorem clash_of_fields {registry : Key} {v : Workspace} (h : Adds registry (definitionsOf t shape) w v)
    (hfree : (w.registries registry).get? (.text t.name) = none) {held : NamedType}
    (hg : (v.registries registry).get? (.text t.name) = some held) :
    Clash t.name (.model t a shape :: definitionsOf t shape) := by
  obtain ⟨entry, hmem, hname, -⟩ := Registry.mem_of_get? hg
  rcases h.recorded entry hmem with hold | ⟨d, hd, hr⟩
  · exact absurd hname (Registry.get?_eq_none_iff.mp hfree entry hold)
  · intro hp
    rw [hr.name] at hname
    have hagree := (List.pairwise_cons.mp hp).1 d hd rfl (Key.text.inj hname)
    cases d with
    | enum => exact hagree
    | model t' b others =>
      -- It would be made of the same object, but it lies below that one.
      have hsize := sizeOf_definitionsOf shape hd
      rw [← hagree.1, Node.object.sizeOf_spec] at hsize
      omega

theorem defineModel_books {v : Workspace} (hname : naming.name = .text t.name)
    (hd : naming.description = a.description ∨ ∃ s, naming.description = .text s)
    (hplain : plain → t.Plain) (hfree : (v.registries o.registry).get? (.text t.name) = none)
    (ha : Adds o.registry (definitionsOf t shape) v w) (hp : Pass (visitsShape shape))
    (hf : List.Forall₂ (FieldNamed w o.registry t) shape fields) :
    Ends (defineModel o naming (.object a shape) fields) w
      (fun c w' => Adds o.registry (.model t a shape :: definitionsOf t shape) v w' ∧ Passes shape ∧
        Made w' o.registry (.model t a shape) c)
      fun e w' => Adds o.registry (definitionsOf t shape) v w' ∧ (plain → keysCheck shape = .error e ∨
        ∃ name, e = .duplicateType (.text name) ∧ Clash name (.model t a shape :: definitionsOf t shape)) := by
  have hkeys := keys_of_fieldNamed hf
  unfold Ends
  cases hm : modelMisuse? naming.name (fields.map (·.key)) with
  | some m =>
    rw [defineModel_of_misuse w hm]
    refine ⟨ha, fun h => .inl ?_⟩
    rw [hname, hkeys, modelMisuse?_text (hplain h)] at hm
    rw [keysCheck, hm]
  | none =>
    rw [defineModel_of_text w hname hm, registerObject_eq, Value.key?_text]
    have hpasses : Passes shape := by
      rw [hname, hkeys] at hm
      exact ⟨keysCheck_of_modelMisuse? hm, hp⟩
    dsimp only
    cases hg : ((w.withClass (classOf t.name naming.description (.object a shape) fields)).registries
      o.registry).get? (.text t.name) with
    | none =>
      have hadds := adds_withModel ha hd hpasses hf
      obtain ⟨counted, told, made, lines⟩ := hadds.standing.coherent
      have hnew := recorded_withModel ha.standing.coherent hd hf
      refine ⟨hadds.of_registries ⟨counted, told, made, lines⟩ rfl rfl rfl, hpasses, _, ?_, rfl,
        hnew.mono hadds.standing.coherent ?_⟩
      · simp only [Workspace.withObject, Workspace.setRegistry, update_same]
        exact Registry.named?_add_same hg
      · exact .of_same rfl rfl
    | some held =>
      have hclash : Clash t.name (.model t a shape :: definitionsOf t shape) := clash_of_fields ha hfree hg
      have hclass := ha.withClass t.name naming.description (.object a shape) fields
      cases held with
      | enum e => exact ⟨hclass, fun _ => .inr ⟨_, rfl, hclash⟩⟩
      | object d =>
        obtain ⟨entry, hmem, -, ht⟩ := Registry.mem_of_get? hg
        have hlt : d.serial < w.classes.length := ha.standing.coherent.made o.registry entry hmem d ht
        dsimp only
        rw [if_neg (by omega)]
        exact ⟨hclass, fun _ => .inr ⟨_, rfl, hclash⟩⟩

theorem makeModel_books {description : Value}
    (hs : statedName? o description = .ok (some naming)) (hname : naming.name = .text t.name)
    (hd : naming.description = a.description ∨ ∃ s, naming.description = .text s)
    (hplain : plain → t.Plain) (hfree : (w.registries o.registry).get? (.text t.name) = none)
    (hfields : BooksShape plain o.registry t shape (compileShape (o.within naming) shape) w) :
    Books o.registry plain
      (synthesize o (.object a shape) description fun inner => compileShape inner shape) w
      (.model t a shape :: definitionsOf t shape) (Faults shape)
      fun c w' => Made w' o.registry (.model t a shape) c := by
  have hkey : naming.name.key? = some (.text t.name) := by
    rw [hname]
    rfl
  unfold BooksShape Books Ends at hfields
  unfold Books Ends
  rw [synthesize_of_free _ _ hs hkey hfree]
  cases hf : compileShape (o.within naming) shape w with
  | error e w' =>
    rw [hf] at hfields
    exact ⟨hfields.1.of_subset (List.subset_cons_self ..),
      fun hp => (hfields.2 hp).imp .inr (.of_sublist · (List.sublist_cons_self ..))⟩
  | ok fields w' =>
    rw [hf] at hfields
    obtain ⟨ha, hok, hnamed⟩ := hfields
    have hdefine := defineModel_books hname hd hplain hfree ha (pass_iff.mpr hok) hnamed
    unfold Ends at hdefine
    dsimp only
    cases hr : defineModel o naming (.object a shape) fields w' with
    | ok c w'' =>
      rw [hr] at hdefine
      obtain ⟨hadds, hp, hmade⟩ := hdefine
      exact ⟨hadds, passes_iff.mp hp, hmade⟩
    | error e w'' =>
      rw [hr] at hdefine
      obtain ⟨hadds, hreason⟩ := hdefine
      exact ⟨hadds.of_subset (List.subset_cons_self ..), fun hp => (hreason hp).imp .inl
        fun ⟨name, he, hclash⟩ => ⟨name, he, .inl hclash⟩⟩

theorem synthesize_books (hw : Standing o.registry w) {description : Value}
    (hs : statedName? o description = .ok (some naming)) (hname : naming.name = .text t.name)
    (hd : naming.description = a.description ∨ ∃ s, naming.description = .text s)
    (hplain : plain → t.Plain)
    (hfields : BooksShape plain o.registry t shape (compileShape (o.within naming) shape) w) :
    Books o.registry plain
      (synthesize o (.object a shape) description fun inner => compileShape inner shape) w
      (.model t a shape :: definitionsOf t shape) (Faults shape)
      fun c w' => c.name = t.name ∧ (w'.registries o.registry).get? (.text c.name) = some (.object c) ∧
        w'.madeOf c = shownSource a shape := by
  have hkey : naming.name.key? = some (.text t.name) := by
    rw [hname]
    rfl
  cases hg : (w.registries o.registry).get? (.text t.name) with
  | none =>
    have hmake := makeModel_books hs hname hd hplain hg hfields
    exact hmake.imp (fun c w' ⟨ha, hok, hmade⟩ => ⟨ha, hok, hmade.shown⟩) fun e w' he => he
  | some held =>
    have hrefused (hfits : ¬ Fits w held (.model t a shape)) :
        Collides o.registry w (.model t a shape :: definitionsOf t shape) (.duplicateType naming.name) := by
      rw [hname]
      exact collides_of_held hg (List.mem_cons_self ..) rfl hfits
    unfold Books Ends
    rw [synthesize_of_stated _ _ hs, hkey]
    dsimp only
    rw [hg]
    cases held with
    | enum e => exact ⟨hw.refl _, fun _ => .inr (hrefused id)⟩
    | object c =>
      dsimp only
      by_cases hmade : (w.whole? c).bind (·.source) = some (.object a shape)
      · rw [if_pos hmade]
        obtain ⟨entry, hmem, hentry, ht⟩ := Registry.mem_of_get? hg
        -- The fields are not compiled again, but they have passed when the model was made.
        obtain ⟨hhides, hp⟩ := hw.models entry hmem c a shape ht hmade
        have hcname : c.name = t.name := by
          rw [hw.named entry hmem, ht] at hentry
          exact Key.text.inj hentry
        refine ⟨hw.refl _, passes_iff.mp hp, hcname, hcname ▸ hg, ?_⟩
        rw [Workspace.madeOf, hmade, shownSource, hhides]
        rfl
      · rw [if_neg hmade]
        exact ⟨hw.refl _, fun _ => .inr (hrefused hmade)⟩

end Model

end SchemaCompiler
