import SchemaCompiler.Proofs.Model.GeneratedNames

namespace SchemaCompiler

open Work Node

variable {registry : Key} {o : Options} {t : Title} {u v w w' : Workspace}

def Node.SameMembers : Node → Node → Prop
  | .enum _ values, .enum _ others => (Definition.members values).Perm (Definition.members others)
  | _, _ => False

def Node.TextValued : Node → Prop
  | .enum _ values => ∀ v ∈ values.elements?.getD [], ∃ s, v = .text s
  | _ => True

theorem text_of_member {a : Annotations} {values : Value} (h : (Node.enum a values).TextValued)
    {m : String × Value} (hm : m ∈ Definition.members values) : ∃ s, m.2 = .text s := by
  refine h m.2 ?_
  rw [← Naming.values_enumMembers (values.elements?.getD [])]
  exact List.mem_map_of_mem hm

/-- The type that is registered under the name of a definition. A model is newer than the first `made`
classes. -/
inductive HasType (registry : Key) (made : Nat) (w : Workspace) : Definition → Prop
  | model {t : Title} {a : Annotations} {shape : List (Value × Node)} {c : ClassHandle}
    (held : (w.registries registry).get? (.text t.name) = some (.object c)) (new : made ≤ c.serial) :
    HasType registry made w (.model t a shape)
  | enum {t : Title} {key : Value} {a : Annotations} {values : Value} {e : EnumType}
    (held : (w.registries registry).get? (.text (t.enumName key)) = some (.enum e))
    (members : e.members.Perm (Definition.members values)) :
    HasType registry made w (.enum t key a values)

structure HasTypes (registry : Key) (defs : List Definition) (w w' : Workspace) : Prop where
  held : ∀ d ∈ defs, HasType registry w.classes.length w' d
  apart : defs.Pairwise fun d d' => d.name = d'.name → d.source.SameMembers d'.source

def Unmade (registry : Key) (w : Workspace) (n : Node) : Prop :=
  ∀ entry ∈ (w.registries registry).entries, ∀ c, entry.type = .object c → w.madeOf c ≠ some n

theorem Adds.unmade {defs : List Definition} (ha : Adds registry defs v w) (hc : Coherent v) {n : Node}
    (hn : ∀ d ∈ defs, d.source ≠ n) (hv : Unmade registry v n) : Unmade registry w n := by
  intro entry he c ht hm
  rcases ha.recorded entry he with hold | ⟨d, hd, hrec⟩
  · refine hv entry hold c ht ?_
    rwa [Workspace.madeOf, whole?_of_classes hc ha.grows.classes (hc.made registry entry hold c ht)] at hm
  · cases d with
    | enum => cases hrec with | enum => cases ht
    | model t a shape =>
      rw [hrec.madeOf ht, shownSource] at hm
      split at hm
      · cases hm
      · exact hn _ hd (Option.some.inj hm)

section Types

variable {d d' : Definition}

theorem HasType.mono {made fewer : Nat} (h : HasType registry made v d) (hg : Grows v w) (hle : fewer ≤ made) :
    HasType registry fewer w d := by
  cases h with
  | model held new => exact .model (hg.get? held) (Nat.le_trans hle new)
  | enum held members => exact .enum (hg.get? held) members

theorem HasType.exists_type {made : Nat} (h : HasType registry made w d) :
    ∃ type, (w.registries registry).get? (.text d.name) = some type := by
  cases h with
  | model held => exact ⟨_, held⟩
  | enum held => exact ⟨_, held⟩

theorem HasType.sameMembers {made : Nat} (h : HasType registry made v d) (hc : Coherent v) (hg : Grows v w)
    (h' : HasType registry v.classes.length w d') (hname : d.name = d'.name) :
    d.source.SameMembers d'.source := by
  cases h with
  | @model t a shape c held =>
    have hheld := hg.get? held
    obtain ⟨entry, hmem, -, ht⟩ := Registry.mem_of_get? held
    have hlt : c.serial < v.classes.length := hc.made registry entry hmem c ht
    cases h' with
    | @model t' b fields c' held' new =>
      change t.name = t'.name at hname
      rw [hname, held'] at hheld
      cases hheld
      omega
    | @enum t' key b values e held' =>
      change t.name = t'.enumName key at hname
      rw [hname, held'] at hheld
      cases hheld
  | @enum t key a values e held members =>
    have hheld := hg.get? held
    cases h' with
    | @model t' b fields c' held' =>
      change t.enumName key = t'.name at hname
      rw [hname, held'] at hheld
      cases hheld
    | @enum t' key' b others e' held' members' =>
      change t.enumName key = t'.enumName key' at hname
      rw [hname, held'] at hheld
      cases hheld
      exact members.symm.trans members'

end Types

namespace HasTypes

variable {before after : List Definition}

theorem nil : HasTypes registry [] v w := ⟨nofun, .nil⟩

theorem append (hv : HasTypes registry before u v) (hw : HasTypes registry after v w) (hc : Coherent v)
    (huv : Grows u v) (hvw : Grows v w) : HasTypes registry (before ++ after) u w where
  held d hd := by
    rcases List.mem_append.mp hd with hd | hd
    · exact (hv.held d hd).mono hvw (Nat.le_refl _)
    · exact (hw.held d hd).mono (.refl w) huv.classes.length_le
  apart := List.pairwise_append.mpr ⟨hv.apart, hw.apart, fun d hd d' hd' hname =>
    (hv.held d hd).sameMembers hc hvw (hw.held d' hd') hname⟩

/-- The name of a model is still free when its fields are done, so it is none of theirs. -/
theorem model {a : Annotations} {shape : List (Value × Node)} {defs : List Definition} {c : ClassHandle}
    (hv : HasTypes registry defs u v) (huv : Grows u v) (hvw : Grows v w)
    (hfree : (v.registries registry).get? (.text t.name) = none)
    (hheld : (w.registries registry).get? (.text t.name) = some (.object c))
    (hnew : v.classes.length ≤ c.serial) : HasTypes registry (.model t a shape :: defs) u w where
  held := List.forall_mem_cons.mpr
    ⟨.model hheld (Nat.le_trans huv.classes.length_le hnew), fun d hd => (hv.held d hd).mono hvw (Nat.le_refl _)⟩
  apart := by
    refine List.pairwise_cons.mpr ⟨fun d hd hname => ?_, hv.apart⟩
    obtain ⟨type, htype⟩ := (hv.held d hd).exists_type
    change t.name = d.name at hname
    rw [← hname, hfree] at htype
    cases htype

end HasTypes

theorem fieldEnum_types (hw : Standing o.registry w) (ho : o.Under t) {key : Value} {a : Annotations}
    {values : Value} (htext : (Node.enum a values).TextValued) {e : EnumType}
    (h : fieldEnum o key ⟨a.description, values⟩ w = .ok e w') :
    HasTypes o.registry [.enum t key a values] w w' := by
  have hperm {f : EnumType} {vs : List Value} (hv : values.elements? = some vs)
      (hg : (w.registries o.registry).get? (.text (t.enumName key)) = some (.enum f))
      (hs : Value.sameRecord f.members (Naming.enumMembers vs) = true) :
      f.members.Perm (Definition.members values) := by
    have hmembers : Definition.members values = Naming.enumMembers vs := by
      rw [Definition.members, hv]
      rfl
    obtain ⟨-, -, hd⟩ := hw.get?_enum hg
    rw [← hmembers] at hs
    exact (EnumType.sameRecord_iff_perm hd (Naming.nodup_enumMembers _)
      fun m hm => text_of_member htext hm).mp hs
  rw [fieldEnum_eq, enumOutline_eq ho] at h
  cases hk : Naming.pascalCaseOf key with
  | error f =>
    rw [hk] at h
    cases h
  | ok own =>
    cases hv : values.elements? with
    | none =>
      rw [hk, hv] at h
      cases h
    | some vs =>
      simp only [hk, hv, Outcome.ok_bind, Outcome.pure_eq_ok] at h
      suffices hheld : HasType o.registry w.classes.length w' (.enum t key a values) from
        ⟨List.forall_mem_singleton.mpr hheld, List.pairwise_singleton _ _⟩
      cases hcur : currentEnum? w o (t.enumName key) (Naming.enumMembers vs) with
      | some f =>
        rw [hcur] at h
        cases h
        obtain ⟨hg, hs⟩ := get?_of_currentEnum? hw.coherent hcur
        exact .enum hg (hperm hv hg hs)
      | none =>
        rw [hcur, registerEnum_text] at h
        cases hg : (w.registries o.registry).get? (.text (t.enumName key)) with
        | some held =>
          rw [hg] at h
          cases held with
          | object c => cases h
          | enum f =>
            dsimp only at h
            by_cases hs : Value.sameRecord f.members (Naming.enumMembers vs) = true
            · rw [if_pos hs] at h
              cases h
              exact .enum hg (hperm hv hg hs)
            · rw [if_neg hs] at h
              cases h
        | none =>
          rw [hg] at h
          cases hm : EnumType.misuse? (.text (t.enumName key)) (Naming.enumMembers vs) with
          | some m =>
            rw [hm] at h
            cases h
          | none =>
            rw [hm] at h
            cases h
            refine .enum (e := ⟨w.enumCount, t.enumName key, Naming.enumMembers vs, a.description⟩) ?_ ?_
            · simp only [Workspace.withMemo, Workspace.setMemo, Workspace.withEnum, Workspace.setRegistry,
                update_same]
              exact Registry.get?_add_same hg
            · rw [Definition.members, hv]
              exact .refl _

theorem defineModel_new (hc : Coherent w) {naming : ModelName} {name : String}
    (hname : naming.name = .text name) {source : Node} {fields : List CompiledField} {c : ClassHandle}
    (h : defineModel o naming source fields w = .ok c w') :
    (w.registries o.registry).get? (.text name) = none ∧ w.classes.length ≤ c.serial ∧
      (w'.registries o.registry).get? (.text name) = some (.object c) ∧ Grows w w' := by
  cases hm : modelMisuse? naming.name (fields.map (·.key)) with
  | some m =>
    rw [defineModel_of_misuse w hm] at h
    cases h
  | none =>
    rw [defineModel_of_text w hname hm, registerObject_eq, Value.key?_text] at h
    dsimp only at h
    have hg := Grows.withClass w (classOf name naming.description source fields)
    cases hget : (w.registries o.registry).get? (.text name) with
    | none =>
      have hfree : ((w.withClass (classOf name naming.description source fields)).registries o.registry).get?
          (.text name) = none := hget
      rw [hfree] at h
      cases h
      refine ⟨rfl, Nat.le_refl _, ?_, hg.trans ((Grows.withObject _ o.registry (.text name) name _ _).trans
        (.of_same rfl rfl))⟩
      simp only [Workspace.withObject, Workspace.setRegistry, update_same]
      exact Registry.get?_add_same hfree
    | some held =>
      have hheld : ((w.withClass (classOf name naming.description source fields)).registries o.registry).get?
          (.text name) = some held := hget
      rw [hheld] at h
      cases held with
      | enum e => cases h
      | object d =>
        obtain ⟨entry, hmem, -, ht⟩ := Registry.mem_of_get? hget
        have hlt : d.serial < w.classes.length := hc.made o.registry entry hmem d ht
        dsimp only at h
        rw [if_neg (by omega)] at h
        cases h

def LeavesTypes {α : Type} (registry : Key) (x : Work α) (w : Workspace) (defs : List Definition) : Prop :=
  ∀ a w', x w = .ok a w' → HasTypes registry defs w w'

theorem synthesize_types {naming : ModelName} {a : Annotations} {description : Value}
    {shape : List (Value × Node)} (hs : statedName? o description = .ok (some naming))
    (hname : naming.name = .text t.name) (hun : Unmade o.registry w (.object a shape))
    (hbooks : BooksShape False o.registry t shape (compileShape (o.within naming) shape) w)
    (hfields : LeavesTypes o.registry (compileShape (o.within naming) shape) w (definitionsOf t shape)) :
    LeavesTypes o.registry (synthesize o (.object a shape) description fun inner => compileShape inner shape) w
      (.model t a shape :: definitionsOf t shape) := by
  intro c w' h
  rw [synthesize_of_stated _ _ hs, hname, Value.key?_text] at h
  dsimp only at h
  cases hg : (w.registries o.registry).get? (.text t.name) with
  | some held =>
    rw [hg] at h
    cases held with
    | enum e => cases h
    | object d =>
      obtain ⟨entry, hmem, -, ht⟩ := Registry.mem_of_get? hg
      have hother : (w.whole? d).bind (·.source) ≠ some (.object a shape) := hun entry hmem d ht
      dsimp only at h
      rw [if_neg hother] at h
      cases h
  | none =>
    rw [hg] at h
    dsimp only at h
    unfold BooksShape Books Ends at hbooks
    cases hf : compileShape (o.within naming) shape w with
    | error e v =>
      rw [hf] at h
      cases h
    | ok fields v =>
      rw [hf] at h hbooks
      obtain ⟨hadds, -⟩ := hbooks
      obtain ⟨hfree, hnew, hheld, hgrows⟩ := defineModel_new hadds.standing.coherent hname h
      exact (hfields fields v hf).model hadds.grows hgrows hfree hheld hnew

section Fields

variable {key : Value} {node : Node} {kind : Kind}

theorem compileField_ok {x : Work Classification} {d : CompiledField}
    (h : compileField o key node kind x w = .ok d w') :
    ∃ c v, x w = .ok c v ∧ ∃ type, fieldType o key node c v = .ok type w' := by
  unfold compileField at h
  obtain ⟨c, v, hc, hrest⟩ := ok_of_bind h
  obtain ⟨type, v1, ht, hnotes⟩ := ok_of_bind hrest
  obtain ⟨default, v2, hd, htext⟩ := ok_of_bind hnotes
  obtain ⟨description, v3, hx, hend⟩ := ok_of_bind htext
  cases hend
  rw [(ok_of_ofExcept hd).2] at hx
  rw [(ok_of_ofExcept hx).2]
  exact ⟨c, v, hc, type, ht⟩

theorem fieldType_ok {c : Classification} (hs : c.enumSource = none) {type : OutputType}
    (h : fieldType o key node c w = .ok type w') : w' = w := by
  unfold fieldType at h
  rw [hs] at h
  dsimp only at h
  split at h
  · cases h
  · cases h
    rfl

theorem compileField_types (hw : Standing o.registry w) (ho : o.Under t)
    (hun : ∀ d ∈ definitions t key node, Unmade o.registry w d.source)
    (htext : ∀ d ∈ definitions t key node, d.source.TextValued)
    (hbooks : ∀ a shape, node.leaf = .object a shape → ∀ o' : Options,
      o'.Under (t.nested key a.description) → o'.registry = o.registry →
        BooksShape False o.registry (t.nested key a.description) shape (compileShape o' shape) w)
    (hfields : ∀ a shape, node.leaf = .object a shape → ∀ o' : Options,
      o'.Under (t.nested key a.description) → o'.registry = o.registry →
        LeavesTypes o.registry (compileShape o' shape) w (definitionsOf (t.nested key a.description) shape)) :
    LeavesTypes o.registry (compileField o key node kind (classify o key node)) w (definitions t key node) := by
  intro d w' h
  obtain ⟨c, v, hc, type, htype⟩ := compileField_ok h
  obtain ⟨g, hg, hclassify⟩ := classify_leaf o key node
  rw [hclassify] at hc
  obtain ⟨c, v, hc, hpure⟩ := ok_of_bind hc
  cases hpure
  obtain ⟨hsource, -⟩ := hg c
  have hdefs := definitions_leaf t key node
  rw [hdefs] at hun htext ⊢
  have hleaf := leaf_not_wrapped node
  generalize node.leaf = leaf at *
  cases leaf with
  | optional a inner => exact absurd rfl (hleaf.1 a inner)
  | array a item => exact absurd rfl (hleaf.2 a item)
  | enum a values =>
    rw [classify] at hc
    cases hc
    unfold fieldType at htype
    rw [hsource] at htype
    obtain ⟨e, v, he, htype⟩ := ok_of_bind htype
    cases htype
    rw [definitions] at htext ⊢
    exact fieldEnum_types hw ho (htext _ (List.mem_singleton.mpr rfl)) he
  | object a shape =>
    rw [classify_object ho.builder] at hc
    obtain ⟨name, v1, hname, hrest⟩ := ok_of_bind hc
    obtain ⟨handle, v2, hmodel, hend⟩ := ok_of_bind hrest
    cases hend
    obtain ⟨hn, hsame⟩ := ok_of_ofExcept hname
    rw [hsame] at hmodel
    rw [fieldType_ok hsource htype]
    obtain ⟨-, naming, hs, htitle, -, hunder⟩ := nestedName_ok ho hn
    rw [definitions] at hun ⊢
    exact synthesize_types (o := { o with name }) hs htitle (hun _ List.mem_cons_self)
      (hbooks a shape rfl _ hunder rfl) (hfields a shape rfl _ hunder rfl) handle _ hmodel
  | _ => exact .nil

end Fields

structure Fresh (registry : Key) (w : Workspace) (defs : List Definition) : Prop where
  distinct : (defs.map Definition.source).Nodup
  unmade : ∀ d ∈ defs, Unmade registry w d.source
  texts : ∀ d ∈ defs, d.source.TextValued

theorem Fresh.of_sublist {defs more : List Definition} (h : Fresh registry w more)
    (hs : defs.Sublist more) : Fresh registry w defs :=
  ⟨h.distinct.sublist (hs.map _), fun d hd => h.unmade d (hs.subset hd), fun d hd => h.texts d (hs.subset hd)⟩

theorem Fresh.after {before after : List Definition} (h : Fresh registry v (before ++ after))
    (hc : Coherent v) (ha : Adds registry before v w) : Fresh registry w after := by
  have hdistinct := h.distinct
  rw [List.map_append] at hdistinct
  have hapart := (List.nodup_append.mp hdistinct).2.2
  have hafter := h.of_sublist (List.sublist_append_right before after)
  refine ⟨hafter.distinct, fun d hd => ha.unmade hc (fun b hb => ?_) (hafter.unmade d hd), hafter.texts⟩
  exact hapart _ (List.mem_map_of_mem hb) _ (List.mem_map_of_mem hd)

theorem compileShape_cons_ok {key : Value} {node : Node} {rest : List (Value × Node)}
    {fields : List CompiledField} (h : compileShape o ((key, node) :: rest) w = .ok fields w') :
    ∃ kind d v others, node.kind? = some kind ∧
      compileField o key node kind (classify o key node) w = .ok d v ∧
      compileShape o rest v = .ok others w' := by
  rw [compileShape_cons] at h
  obtain ⟨d, v, hd, hrest⟩ := ok_of_bind h
  obtain ⟨others, v', hothers, hend⟩ := ok_of_bind hrest
  cases hend
  rcases compileNode_cases o key node with ⟨kind, hkind, -, hrun⟩ | ⟨-, hrun⟩
  · exact ⟨kind, d, v, others, hkind, hrun ▸ hd, hothers⟩
  · rw [hrun] at hd
    cases hd

theorem compileShape_types (registry : Key) (t : Title) (o : Options) (ho : o.Under t)
    (hr : o.registry = registry) : (shape : List (Value × Node)) → (w : Workspace) →
    Standing registry w → Fresh registry w (definitionsOf t shape) →
    LeavesTypes registry (compileShape o shape) w (definitionsOf t shape)
  | [], w, _, _ => fun _ _ _ => .nil
  | (key, node) :: rest, w, hw, hfresh => by
    subst hr
    intro fields w' h
    obtain ⟨kind, d, v, others, hkind, hd, hothers⟩ := compileShape_cons_ok h
    have hbooks : BooksField False o t key node (compileField o key node kind (classify o key node)) w
        (definitions t key node) :=
      compileField_books hw ho False.elim hkind fun a fields _ o' ho' hr' v hv =>
        compileShape_books o.registry _ False.elim o' ho' hr' fields v hv
    unfold BooksField Books Ends at hbooks
    rw [hd] at hbooks
    obtain ⟨hadds, -⟩ := hbooks
    rw [definitionsOf] at hfresh ⊢
    have hfield := hfresh.of_sublist (List.sublist_append_left _ (definitionsOf t rest))
    have hbelow {a : Annotations} {fields : List (Value × Node)} (hl : node.leaf = .object a fields) :
        Fresh o.registry w (definitionsOf (t.nested key a.description) fields) := by
      rw [definitions_leaf, hl, definitions] at hfield
      exact hfield.of_sublist (List.sublist_cons_self ..)
    refine HasTypes.append (v := v) ?_ ?_ hadds.standing.coherent hadds.grows ?_
    · refine compileField_types hw ho hfield.unmade hfield.texts
        (fun a fields _ o' ho' hr' => compileShape_books o.registry _ False.elim o' ho' hr' fields w hw)
        (fun a fields hl o' ho' hr' => ?_) d v hd
      have hsize : sizeOf fields < sizeOf node := by
        have hleaf := sizeOf_leaf node
        rw [hl, Node.object.sizeOf_spec] at hleaf
        omega
      exact compileShape_types o.registry _ o' ho' hr' fields w hw (hbelow hl)
    · exact compileShape_types o.registry t o ho rfl rest v hadds.standing
        (hfresh.after hw.coherent hadds) others w' hothers
    · have hrest : BooksShape False o.registry t rest (compileShape o rest) v :=
        compileShape_books o.registry t False.elim o ho rfl rest v hadds.standing
      unfold BooksShape Books Ends at hrest
      rw [hothers] at hrest
      exact hrest.1.grows
termination_by shape => sizeOf shape
decreasing_by
  all_goals
    simp only [List.cons.sizeOf_spec, Prod.mk.sizeOf_spec]
    omega

theorem compileModel_types {name : String} (hname : name ≠ "") {a : Annotations}
    {shape : List (Value × Node)}
    (hdistinct : ((definitionsOf ⟨name, false⟩ shape).map Definition.source).Nodup)
    (htexts : ∀ d ∈ definitionsOf ⟨name, false⟩ shape, d.source.TextValued) :
    LeavesTypes .null (compileModel (.named (.text name)) (.object a shape)) {}
      (.model ⟨name, false⟩ a shape :: definitionsOf ⟨name, false⟩ shape) := by
  have htruthy : (Options.named (.text name)).name.truthy = true := by
    simpa [Options.named, Value.truthy] using hname
  have hs := @statedName?_of_name _ a.description htruthy
  have hw : Standing .null {} := .of_reached (.refl {}) rfl
  have hunmade (n : Node) : Unmade .null {} n := fun entry he => by cases he
  obtain ⟨-, -, hunder⟩ := (Options.standard_named (.inr ⟨name, rfl⟩)).stated hs .null
  have htitle : (Options.named (.text name)).rootTitle a.description .null = ⟨name, false⟩ := by
    rw [Options.rootTitle, if_pos htruthy]
    rfl
  rw [htitle] at hunder
  exact synthesize_types hs rfl (hunmade _)
    (compileShape_books .null _ False.elim _ hunder rfl shape {} hw)
    (compileShape_types .null _ _ hunder rfl shape {} hw ⟨hdistinct, fun d _ => hunmade _, htexts⟩)

end SchemaCompiler
