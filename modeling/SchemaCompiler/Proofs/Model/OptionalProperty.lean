import SchemaCompiler.Model.Compilation
import SchemaCompiler.Proofs.Schema.Required

namespace SchemaCompiler

open Work Node Schema
open Value (valueAt?)

section Tags

variable {key : Value} {n : Node} {shape : List (Value × Node)}

theorem bare_retag (h : n.Bare) (ρ : Nat → Nat) : (n.retag ρ).Bare := by
  obtain ⟨hw, a, ha, b, hb⟩ := h
  refine ⟨?_, a.retag ρ, ?_, b, hb⟩
  · cases n with
    | optional _ _ => cases hw
    | _ => rfl
  · rw [notes?_retag, ha]
    rfl

theorem bare_retagShape (h : ∀ f ∈ shape, f.1 = key → f.2.Bare) (ρ : Nat → Nat) :
    ∀ f ∈ retagShape ρ shape, f.1 = key → f.2.Bare := by
  rw [retagShape_eq_map]
  intro g hg hkey
  obtain ⟨f, hf, rfl⟩ := List.mem_map.mp hg
  exact bare_retag (h f hf hkey) ρ

theorem bare_tagFrom (h : n.Bare) (s : Nat) : (n.tagFrom s).1.Bare := by
  obtain ⟨hw, a, ha, b, hb⟩ := h
  cases n with
  | optional _ _ => cases hw
  | plain v => cases ha
  | _ =>
    cases ha
    exact ⟨rfl, _, rfl, b, hb⟩

theorem bare_tagShapeFrom (h : ∀ f ∈ shape, f.1 = key → f.2.Bare) (s : Nat) :
    ∀ f ∈ (tagShapeFrom s shape).1, f.1 = key → f.2.Bare := by
  induction shape generalizing s with
  | nil => exact fun f hf => absurd hf List.not_mem_nil
  | cons f rest ih =>
    obtain ⟨name, n⟩ := f
    rw [tagShapeFrom]
    intro g hg hkey
    rcases List.mem_cons.mp hg with rfl | hg
    · exact bare_tagFrom (h (name, n) (by simp) hkey) s
    · exact ih (fun f hf => h f (List.mem_cons_of_mem _ hf)) _ g hg hkey

theorem ownDefault_retag (ρ : Nat → Nat) (n : Node) : (n.retag ρ).ownDefault = n.ownDefault := by
  cases n <;> rfl

theorem ownDefault_tagFrom (s : Nat) (n : Node) : (n.tagFrom s).1.ownDefault = n.ownDefault := by
  cases n <;> rfl

theorem ownDefaults_retagShape (ρ : Nat → Nat) : ownDefaults (retagShape ρ shape) = ownDefaults shape := by
  rw [retagShape_eq_map, ownDefaults, ownDefaults, List.map_map]
  apply List.map_congr_left
  intro f _
  exact ownDefault_retag ρ f.2

theorem ownDefaults_tagShapeFrom (s : Nat) : ownDefaults (tagShapeFrom s shape).1 = ownDefaults shape := by
  induction shape generalizing s with
  | nil => rfl
  | cons f rest ih =>
    obtain ⟨name, n⟩ := f
    rw [tagShapeFrom, ownDefaults, List.map_cons, ← ownDefaults, ih, ownDefault_tagFrom]
    rfl

end Tags

def EasedObject (key : Value) (ρ : Nat → Nat) (n n' : Node) : Prop :=
  ∃ a shape eased, n = .object a shape ∧ n' = .object a eased ∧
    List.Forall₂ (Eases key) (retagShape ρ shape) eased

/-- Two states after the compilation of an object to the given class, where null may stand for the
field of a key in the second one. -/
structure Relaxed (key : Value) (defaults : List Value) (c : ClassHandle) (w w' : Workspace) : Prop where
  rest : { w' with classes := w.classes } = w
  classes : ∃ (ρ : Nat → Nat) (others : List ModelClass) (m : ModelClass) (source : Node),
    Function.Injective ρ ∧ w.classes = others ++ [m] ∧ c.serial = others.length ∧
      w'.classes = others.map (ModelClass.retag ρ) ++ [m.eased key defaults source] ∧
      (∀ n ∈ m.source, EasedObject key ρ n source) ∧ ∀ f ∈ m.fields, f.name = key → f.Policed

def RelaxedOutcome (key : Value) (defaults : List Value)
    (x y : EStateM.Result Failure Workspace ClassHandle) : Prop :=
  (∃ e v v', x = .error e v ∧ y = .error e v') ∨
    ∃ c v v', x = .ok c v ∧ y = .ok c v' ∧ Relaxed key defaults c v v'

section Definition

variable {o : Options} {key : Value} {ρ : Nat → Nat} {w : Workspace}

theorem defineModel_relaxed (hρ : Function.Injective ρ) {fields : List CompiledField} {defaults : List Value}
    (hlength : defaults.length = fields.length) (hpoliced : ∀ d ∈ fields, d.key = key → d.toField.Policed)
    (naming : ModelName) {source eased : Node} (hsource : EasedObject key ρ source eased) :
    RelaxedOutcome key defaults (defineModel o naming source fields w)
      (defineModel o naming eased (List.zipWith (fun default d => d.eased key default) defaults fields)
        (w.retag ρ)) := by
  have hkeys : (List.zipWith (fun default d => d.eased key default) defaults fields).map (·.key) =
      fields.map (·.key) := by
    apply List.ext_getElem
    · simp [hlength]
    · intro i hi hj
      simp [CompiledField.eased]
  cases hm : modelMisuse? naming.name (fields.map (·.key)) with
  | some m =>
    rw [defineModel_of_misuse _ hm, defineModel_of_misuse _ (by rwa [hkeys])]
    exact .inl ⟨_, _, _, rfl, rfl⟩
  | none =>
    obtain ⟨name, hname⟩ := text_of_modelMisuse? hm
    have hcount : (w.retag ρ).classes.length = w.classes.length := List.length_map ..
    rw [defineModel_of_text _ hname hm, defineModel_of_text _ hname (by rwa [hkeys]), hcount, hkeys,
      registerObject_eq, registerObject_eq, Value.key?_text,
      classOf_eased hlength name naming.description source eased]
    dsimp only
    generalize hmade : classOf name naming.description source fields = m
    have hshown : ∀ n ∈ m.source, EasedObject key ρ n eased := by
      intro n hn
      subst hmade
      rw [classOf] at hn
      dsimp only at hn
      split at hn
      · cases hn
      · cases hn
        exact hsource
    have hfields : ∀ f ∈ m.fields, f.name = key → f.Policed := by
      intro f hf hfkey
      subst hmade
      obtain ⟨d, hd, rfl⟩ := List.mem_map.mp hf
      exact hpoliced d hd hfkey
    have hrelaxed (v v' : Workspace) (hrest : { v' with classes := v.classes } = v)
        (hv : v.classes = w.classes ++ [m])
        (hv' : v'.classes = w.classes.map (ModelClass.retag ρ) ++ [m.eased key defaults eased]) :
        Relaxed key defaults ⟨w.classes.length, name⟩ v v' :=
      ⟨hrest, ρ, w.classes, m, eased, hρ, hv, rfl, hv', hshown, hfields⟩
    have hheld : (((w.retag ρ).withClass (m.eased key defaults eased)).registries o.registry).get?
      (.text name) = (w.registries o.registry).get? (.text name) := rfl
    have hheld' : ((w.withClass m).registries o.registry).get? (.text name) =
      (w.registries o.registry).get? (.text name) := rfl
    rw [hheld, hheld']
    cases (w.registries o.registry).get? (.text name) with
    | none => exact .inr ⟨_, _, _, rfl, rfl, hrelaxed _ _ rfl rfl rfl⟩
    | some t =>
      cases t with
      | enum e => exact .inl ⟨_, _, _, rfl, rfl⟩
      | object d =>
        dsimp only
        by_cases hd : d.serial = w.classes.length
        · rw [if_pos hd, if_pos hd]
          exact .inr ⟨_, _, _, rfl, rfl, hrelaxed _ _ rfl rfl rfl⟩
        · rw [if_neg hd, if_neg hd]
          exact .inl ⟨_, _, _, rfl, rfl⟩

theorem retag_of_nil (h : w.classes = []) : w.retag ρ = w := by
  rw [Workspace.retag, h, List.map_nil, ← h]

theorem compileShape_relaxed (ho : o.builder = none) (hρ : Function.Injective ρ)
    {shape eased : List (Value × Node)} (heased : List.Forall₂ (Eases key) (retagShape ρ shape) eased)
    (hbare : ∀ f ∈ shape, f.1 = key → f.2.Bare) (hw : w.classes = []) :
    compileShape o eased w = match compileShape o shape w with
      | .ok fields w' => .ok (List.zipWith (fun default d => d.eased key default) (ownDefaults shape) fields)
        (w'.retag ρ)
      | .error e w' => .error e (w'.retag ρ) := by
  have hcarries := compileShape_carries hρ o ho shape w
  rw [retag_of_nil hw] at hcarries
  rw [compileShape_eased heased (bare_retagShape hbare ρ), bind_apply, hcarries, ownDefaults_retagShape]
  cases compileShape o shape w <;> rfl

end Definition

section Documents

variable {o : Options} {key : Value} {ρ : Nat → Nat} {w : Workspace}

theorem compileModel_relaxed (ho : o.builder = none) (hρ : Function.Injective ρ)
    {shape eased : List (Value × Node)} (heased : List.Forall₂ (Eases key) (retagShape ρ shape) eased)
    (hbare : ∀ f ∈ shape, f.1 = key → f.2.Bare) (hw : w.classes = [])
    (hempty : w.registries o.registry = {}) (a : Annotations) :
    RelaxedOutcome key (ownDefaults shape) (compileModel o (.object a shape) w)
      (compileModel o (.object a eased) w) := by
  rw [compileModel, compileModel]
  rw [synthesize_eq, synthesize_eq]
  cases hn : modelName o a.description w with
  | error e v => exact .inl ⟨e, v, v, rfl, rfl⟩
  | ok naming v =>
    -- Where no class is made yet, no name is taken and there are no tags to change.
    have hv : v.classes = [] ∧ v.registries o.registry = {} := by
      rcases modelName_ok hn with ⟨-, rfl⟩ | ⟨-, next, -, rfl⟩
      · exact ⟨hw, hempty⟩
      · exact ⟨hw, hempty⟩
    dsimp only
    cases naming.name.key? with
    | none => exact .inl ⟨_, _, _, rfl, rfl⟩
    | some id =>
      have hfree : (v.registries o.registry).get? id = none := by
        rw [hv.2]
        rfl
      dsimp only
      rw [hfree]
      dsimp only
      rw [compileShape_relaxed (o := o.within naming) ho hρ heased hbare hv.1]
      cases hfields : compileShape (o.within naming) shape v with
      | error e u => exact .inl ⟨_, _, _, rfl, rfl⟩
      | ok fields u =>
        have hkeys := (compileShape_keys (o.within naming) shape v fields u hfields).1
        have hlength : (ownDefaults shape).length = fields.length := by
          rw [ownDefaults, List.length_map, ← List.length_map (·.1), ← hkeys, List.length_map]
        exact defineModel_relaxed hρ hlength (compileShape_policed hbare v fields u hfields) naming
          ⟨a, shape, eased, rfl, rfl, heased⟩

theorem compileAlone_of_ok {name : Value} {n : Node} {c : ClassHandle} {v : Workspace}
    (h : compileModel (.named name) n {} = .ok c v) : compileAlone name (.ok n) = ⟨.ok c, v⟩ := by
  rw [compileAlone]
  simp only [ofExcept_bind_apply, h]

theorem compileAlone_of_error {name : Value} {n : Node} {e : Failure} {v : Workspace}
    (h : compileModel (.named name) n {} = .error e v) : compileAlone name (.ok n) = ⟨.error e, v⟩ := by
  rw [compileAlone]
  simp only [ofExcept_bind_apply, h]

/-- A property that is no longer required. The document fails as it did, or its types are the same but
for where null may stand for the property's field, and for the default of a list whose items alone might
be null. -/
theorem optional_property (name : Value) {document : Entries} {nullable : Bool} {names : List String}
    {k : String} (hform : formOf document = .body .object nullable)
    (hnames : valueAt? "required" document = some (.list (names.map .text))) (hk : k ∈ names) :
    (∃ e, (compileDocument name (.record document)).model = .error e ∧
      (compileDocument name (.record (relaxed k document))).model = .error e) ∨
    ∃ c a shape, readDocument (.record document) = .ok (.object a shape) ∧
      (compileDocument name (.record document)).model = .ok c ∧
      (compileDocument name (.record (relaxed k document))).model = .ok c ∧
      Relaxed (.text k) (ownDefaults shape) c (compileDocument name (.record document)).workspace
        (compileDocument name (.record (relaxed k document))).workspace := by
  have hread := readDocument_relaxed hform hnames hk
  unfold compileDocument
  generalize readDocument (.record document) = x at hread ⊢
  generalize readDocument (.record (relaxed k document)) = y at hread ⊢
  cases hread with
  | error e => exact .inl ⟨e, rfl, rfl⟩
  | ok h =>
    obtain ⟨a, shape, eased, rfl, rfl, heased, hbare⟩ := h
    obtain ⟨ρ, hρ, -, htagged⟩ := exists_retag heased 1 0
    have houtcome := compileModel_relaxed (o := .named name) (w := {}) rfl hρ.injective htagged
      (bare_tagShapeFrom hbare 1) rfl rfl { a with tag := 0 }
    rw [ownDefaults_tagShapeFrom] at houtcome
    rw [Except.map, Except.map, tagFrom, tagFrom]
    obtain ⟨e, v, v', h, h'⟩ | ⟨c, v, v', h, h', hrelaxed⟩ := houtcome
    · rw [compileAlone_of_error h, compileAlone_of_error h']
      exact .inl ⟨e, rfl, rfl⟩
    · rw [compileAlone_of_ok h, compileAlone_of_ok h']
      exact .inr ⟨c, a, shape, rfl, rfl, rfl, hrelaxed⟩

def trayDocument : Entries :=
  [("type", .text "object"),
    ("properties", .record [
      ("color", .record [("enum", .list [.text "red", .text "blue"])]),
      ("tags", .record [("type", .text "array"), ("default", .list []),
        ("items", .record [("type", .text "string"), ("nullable", .bool true)])]),
      ("lid", .record [("type", .text "object"),
        ("properties", .record [("size", .record [("type", .text "integer")])])])]),
    ("required", .list [.text "tags", .text "lid"])]

def shownPolicies (document : Entries) : Option (List (Value × Nullability × Value)) :=
  (compileDocument (.text "Tray") (.record document)).modelClass.toOption.map fun m =>
    m.fields.map fun f => (f.name, f.nullable, f.default)

theorem optional_property_tray :
    shownPolicies trayDocument = some [(.text "color", .always, .null), (.text "tags", .items, .null),
      (.text "lid", .never, .null)] ∧
    shownPolicies (relaxed "tags" trayDocument) = some [(.text "color", .always, .null),
      (.text "tags", .itemsAndList, .list []), (.text "lid", .never, .null)] ∧
    ∃ c a shape, readDocument (.record trayDocument) = .ok (.object a shape) ∧
      (compileDocument (.text "Tray") (.record trayDocument)).model = .ok c ∧
      (compileDocument (.text "Tray") (.record (relaxed "tags" trayDocument))).model = .ok c ∧
      Relaxed (.text "tags") (ownDefaults shape) c
        (compileDocument (.text "Tray") (.record trayDocument)).workspace
        (compileDocument (.text "Tray") (.record (relaxed "tags" trayDocument))).workspace := by
  have hform : formOf trayDocument = .body .object false := by decide
  have hnames : valueAt? "required" trayDocument = some (.list (["tags", "lid"].map .text)) := by decide
  have hmodel : (compileDocument (.text "Tray") (.record trayDocument)).model.isOk = true := by
    decide +kernel
  refine ⟨by decide +kernel, by decide +kernel, ?_⟩
  obtain ⟨e, he, -⟩ | hboth := optional_property (.text "Tray") hform hnames (k := "tags") (by decide)
  · rw [he] at hmodel
    cases hmodel
  · exact hboth

end Documents

end SchemaCompiler
