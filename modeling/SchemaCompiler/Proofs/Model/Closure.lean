import SchemaCompiler.Proofs.Operations
import SchemaCompiler.Proofs.Registration

namespace SchemaCompiler

open Work

variable {w : Workspace}

theorem held_of_isCurrent {id : Key} {name : String} {members : List (String × Value)} {e : EnumType}
    (hc : Closed w) (he : HasEnum w e)
    (h : isCurrent (w.registries id) name members e = true) : Held w id (.enum e) := by
  unfold isCurrent at h
  obtain ⟨_, h⟩ := Bool.and_eq_true_iff.mp h
  split at h
  · rename_i held hg
    obtain ⟨entry, hmem, _, ht⟩ := Registry.mem_of_get? hg
    have hh : HasEnum w held := .inl ⟨id, entry, hmem, ht⟩
    have hs : held.serial = e.serial := by simpa using h
    -- What is remembered may be older than the registry's content: only the serial number shows
    -- that it is still the enum held.
    exact ⟨entry, hmem, by rw [ht, hc.told held e hh he hs]⟩
  · cases h

theorem fieldEnum_keeps (o : Options) (key : Value) (source : EnumSource) (hc : Closed w) :
    Keeps (fieldEnum o key source) w fun e w' => Held w' o.registry (.enum e) := by
  unfold fieldEnum
  apply Keeps.bind (.ofExcept (Q := fun _ _ => True) hc fun _ _ => trivial)
  intro name w1 hc1 _ _
  extract_lets build
  have hbuild (members : List (String × Value)) (w2 : Workspace) (hc2 : Closed w2) :
      Keeps (build members) w2 fun e w' => Held w' o.registry (.enum e) := by
    apply Keeps.get
    extract_lets register
    have hregister : Keeps (register ()) w2 fun e w' => Held w' o.registry (.enum e) := by
      apply Keeps.bind (registerEnum_keeps o.registry (.text name) members source.description hc2)
      intro e w3 hc3 _ hh
      obtain ⟨entry, hmem, ht⟩ := hh
      apply Keeps.bind (.modify (Q := fun _ w' => Held w' o.registry (.enum e))
        (hc3.remember (.inl ⟨o.registry, entry, hmem, ht⟩))
        ⟨fun _ => List.prefix_rfl, List.prefix_rfl⟩ ⟨entry, hmem, ht⟩)
      intro _ w4 hc4 _ hh
      apply Keeps.bind (.report (Q := fun _ w' => Held w' o.registry (.enum e)) hc4 hh)
      intro _ w5 hc5 _ hh
      exact .pure hc5 hh
    split
    · rename_i e he
      split
      · rename_i hcur
        exact .pure hc2 (held_of_isCurrent hc2 (.inr ⟨_, _, he⟩) hcur)
      · exact hregister
    · exact hregister
  split
  · apply Keeps.bind (.pure (Q := fun _ _ => True) hc1 trivial)
    intro members w2 hc2 _ _
    exact hbuild members w2 hc2
  · apply Keeps.bind (Q := fun _ _ => True) (.misuse hc1)
    intro members w2 hc2 _ _
    exact hbuild members w2 hc2

theorem nextInSequence_keeps (id : Key) (hc : Closed w) :
    Keeps (nextInSequence id) w fun _ _ => True := by
  unfold nextInSequence
  apply Keeps.get
  dsimp only
  split
  · rename_i next _
    have hmoved : Closed (w.setSequence id next) :=
      hc.of_fewer hc.ordered (Nat.le_refl _) fun _ he => he
    have hgrows : Grows w (w.setSequence id next) := ⟨fun _ => List.prefix_rfl, List.prefix_rfl⟩
    apply Keeps.bind (.modify (Q := fun _ _ => True) hmoved hgrows trivial)
    intro _ w1 hc1 _ _
    exact .pure hc1 trivial
  · exact .misuse hc

theorem modelName_keeps (o : Options) (description : Value) (hc : Closed w) :
    Keeps (modelName o description) w fun _ _ => True := by
  unfold modelName
  split
  · exact .pure hc trivial
  · extract_lets named
    have hnamed (found : Option Naming.Titled) (w1 : Workspace) (hc1 : Closed w1) :
        Keeps (named found) w1 fun _ _ => True := by
      dsimp only [named]
      split
      · exact .pure hc1 trivial
      · exact .bind (nextInSequence_keeps o.sequence hc1) fun _ _ hc2 _ _ => .pure hc2 trivial
    split
    · exact .bind (.ofExcept (Q := fun _ _ => True) hc fun _ _ => trivial)
        fun found w1 hc1 _ _ => hnamed found w1 hc1
    · exact .bind (.pure (Q := fun _ _ => True) hc trivial) fun found w1 hc1 _ _ => hnamed found w1 hc1

theorem addClass_keeps (c : ModelClass) (hc : Closed w) :
    Keeps (addClass c) w fun handle w' => handle.name = c.name ∧
      w'.classes[handle.serial]? = some c ∧ w'.registries = w.registries := by
  unfold addClass
  apply Keeps.get
  refine ⟨hc.addClass c, ⟨fun _ => List.prefix_rfl, List.prefix_append _ _⟩, rfl, ?_, rfl⟩
  exact List.getElem?_concat_length

theorem defineModel_keeps (o : Options) (naming : ModelName) (source : Node)
    (fields : List CompiledField) (hc : Closed w)
    (hf : ∀ f ∈ fields, Known (w.registries o.registry).entries f.type) :
    Keeps (defineModel o naming source fields) w fun c w' => Held w' o.registry (.object c) := by
  unfold defineModel
  extract_lets keys
  split
  · rename_i name _ _
    extract_lets define
    have hdefine : Keeps (define ()) w fun c w' => Held w' o.registry (.object c) := by
      apply Keeps.bind (addClass_keeps _ hc)
      rintro handle w1 hc1 - ⟨hn, hclass, hr⟩
      have hname : handle.name = name := hn
      rw [← hname]
      have hknown : ∃ m, w1.classes[handle.serial]? = some m ∧ m.name = handle.name ∧
          ∀ f ∈ m.fields, Known (w1.registries o.registry).entries f.type := by
        refine ⟨_, hclass, hn.symm, fun f hmem => ?_⟩
        obtain ⟨field, hfield, rfl⟩ := List.mem_map.mp hmem
        rw [hr]
        exact hf field hfield
      apply Keeps.bind (registerObject_keeps hc1 hknown)
      intro c w2 hc2 _ hh
      apply Keeps.bind (.report (Q := fun _ w' => Held w' o.registry (.object c)) hc2 hh)
      intro _ w3 hc3 _ hh
      exact .pure hc3 hh
    split
    · apply Keeps.bind (Q := fun _ _ => False) (.misuse hc)
      intro _ _ _ _ h
      exact h.elim
    · exact hdefine
  · exact .misuse hc
  · exact .misuse hc

theorem synthesize_keeps (o : Options) (source : Node) (description : Value)
    (compileFields : Options → Work (List CompiledField)) (hc : Closed w)
    (hfields : ∀ name generatedName w', Closed w' →
      Keeps (compileFields { o with name, generatedName }) w' fun fields w'' =>
        ∀ f ∈ fields, Known (w''.registries o.registry).entries f.type) :
    Keeps (synthesize o source description compileFields) w fun c w' =>
      Held w' o.registry (.object c) := by
  unfold synthesize
  apply Keeps.bind (modelName_keeps o description hc)
  intro naming w1 hc1 _ _
  apply Keeps.bind (registeredAs_keeps o.registry naming.name hc1)
  rintro found w2 hc2 - ⟨rfl, key, _, rfl⟩
  split
  · rename_i c hg
    apply Keeps.get
    split
    · obtain ⟨entry, hmem, _, ht⟩ := Registry.mem_of_get? hg
      exact .pure hc2 ⟨entry, hmem, ht⟩
    · exact .throw hc2
  · exact .throw hc2
  · apply Keeps.bind (hfields _ _ _ hc2)
    intro fields w3 hc3 _ hf
    exact defineModel_keeps o naming source fields hc3 hf

theorem leaf_fill (e : EnumType) (type : OutputType) :
    (type.fill e).leaf = if type.isOpen then .enum e else type.leaf := by
  induction type with
  | list item ih => exact ih
  | plain v => cases v <;> rfl
  | _ => rfl

def OpenOr (entries : List Registry.Entry) (type : OutputType) : Prop :=
  type.isOpen = true ∨ Known entries type

theorem fieldType_keeps (o : Options) (key : Value) (node : Node) (c : Classification) (hc : Closed w)
    (ht : OpenOr (w.registries o.registry).entries c.type) :
    Keeps (fieldType o key node c) w fun type w' => Known (w'.registries o.registry).entries type := by
  unfold fieldType
  split
  · rename_i source _
    apply Keeps.bind (fieldEnum_keeps o key source hc)
    intro e w1 hc1 hg hh
    refine .pure hc1 ?_
    cases hopen : c.type.isOpen with
    | true => exact hh.known (by rw [leaf_fill, hopen]; rfl)
    | false =>
      have hl : (c.type.fill e).leaf = c.type.leaf := by rw [leaf_fill, hopen]; rfl
      rcases ht with ht | ht
      · rw [hopen] at ht
        cases ht
      · have hk := ht.mono (hg.entries o.registry).subset
        unfold Known at hk ⊢
        rwa [hl]
  · split
    · exact .throw hc
    · rename_i hopen
      exact .pure hc (ht.resolve_left hopen)

theorem compileField_keeps (o : Options) (key : Value) (node : Node) (kind : Kind)
    (classified : Work Classification) (h : Keeps classified w fun c w' =>
      OpenOr (w'.registries o.registry).entries c.type) :
    Keeps (compileField o key node kind classified) w fun f w' =>
      Known (w'.registries o.registry).entries f.type := by
  unfold compileField
  apply Keeps.bind h
  intro c w1 hc1 _ ht
  apply Keeps.bind (fieldType_keeps o key node c hc1 ht)
  intro type w2 hc2 _ hk
  apply Keeps.bind
    (.ofExcept (Q := fun _ w' => Known (w'.registries o.registry).entries type) hc2 fun _ _ => hk)
  intro default w3 hc3 _ hk
  apply Keeps.bind
    (.ofExcept (Q := fun _ w' => Known (w'.registries o.registry).entries type) hc3 fun _ _ => hk)
  intro description w4 hc4 _ hk
  exact .pure hc4 hk

theorem openOr_placeholder (entries : List Registry.Entry) : OpenOr entries .placeholder :=
  .inl (by simp [OutputType.isOpen, OutputType.leaf, OutputType.placeholder])

mutual

theorem classify_keeps (o : Options) (ho : o.builder = none) (key : Value) : (node : Node) →
    (w : Workspace) → Closed w →
    Keeps (classify o key node) w fun c w' => OpenOr (w'.registries o.registry).entries c.type
  | .optional a inner, w, hc => by
    rw [classify]
    apply Keeps.bind (classify_keeps o ho key inner w hc)
    intro c w1 hc1 _ h
    exact .pure hc1 h
  | .array a item, w, hc => by
    rw [classify]
    apply Keeps.bind (classify_keeps o ho key item w hc)
    intro c w1 hc1 _ h
    exact .pure hc1 h
  | .enum a values, w, hc => by
    rw [classify]
    exact .pure hc (openOr_placeholder _)
  | .boolean a, w, hc => by
    rw [classify]
    exact .pure hc (.inr (.inl ⟨_, rfl⟩))
  | .string a, w, hc => by
    rw [classify]
    exact .pure hc (.inr (.inl ⟨_, rfl⟩))
  | .number a isInteger, w, hc => by
    rw [classify]
    exact .pure hc (.inr (.inl ⟨_, rfl⟩))
  | .object a shape, w, hc => by
    rw [classify]
    apply Keeps.bind (.ofExcept (Q := fun _ _ => True) hc fun _ _ => trivial)
    intro name w1 hc1 _ _
    extract_lets finish
    split
    · rename_i build hb
      rw [ho] at hb
      cases hb
    · apply Keeps.bind (synthesize_keeps { o with name } (.object a shape) a.description _ hc1
        fun inner generatedName w2 hc2 =>
          compileShape_keeps { o with name := inner, generatedName } ho shape w2 hc2)
      intro c w3 hc3 _ hh
      exact .pure hc3 (.inr (hh.known rfl))
  | .union a _, w, hc => by
    rw [classify]
    exact .pure hc (openOr_placeholder _)
  | .literal a _, w, hc => by
    rw [classify]
    exact .pure hc (openOr_placeholder _)
  | .date a, w, hc => by
    rw [classify]
    exact .pure hc (openOr_placeholder _)
  | .any a, w, hc => by
    rw [classify]
    exact .pure hc (openOr_placeholder _)
  | .plain v, w, hc => by
    cases v with
    | null =>
      rw [classify]
      exact .pure hc (openOr_placeholder _)
    | _ =>
      rw [classify]
      · exact .misuse hc
      · simp

theorem compileShape_keeps (o : Options) (ho : o.builder = none) : (shape : List (Value × Node)) →
    (w : Workspace) → Closed w →
    Keeps (compileShape o shape) w fun fields w' =>
      ∀ f ∈ fields, Known (w'.registries o.registry).entries f.type
  | [], w, hc => by
    rw [compileShape]
    exact .pure hc nofun
  | (key, node) :: rest, w, hc => by
    have hfield : Keeps (compileNode o key node) w fun f w' => Known (w'.registries o.registry).entries f.type := by
      rcases compileNode_cases o key node with ⟨kind, -, -, hrun⟩ | ⟨-, hrun⟩
      · rw [hrun]
        exact compileField_keeps o key node kind _ (classify_keeps o ho key node w hc)
      · rw [hrun]
        exact .throw hc
    rw [compileShape_cons]
    apply Keeps.bind hfield
    intro field w1 hc1 _ hk
    apply Keeps.bind (compileShape_keeps o ho rest w1 hc1)
    intro fields w2 hc2 hg hks
    refine .pure hc2 fun f hf => ?_
    rcases List.mem_cons.mp hf with rfl | hf
    · exact hk.mono (hg.entries o.registry).subset
    · exact hks f hf

end

theorem compileModel_keeps (o : Options) (ho : o.builder = none) (node : Node) (hc : Closed w) :
    Keeps (compileModel o node) w fun c w' => Held w' o.registry (.object c) := by
  unfold compileModel
  split
  · exact synthesize_keeps o _ _ _ hc fun name generatedName w' hc' =>
      compileShape_keeps { o with name, generatedName } ho _ w' hc'
  · exact .throw hc

inductive Action where
  | compile (o : Options) (node : Node)
  | clearRegistry (id : Key)
  | clearMemo (id : Key)

def Action.after (w : Workspace) : Action → Workspace
  | .compile o node =>
    match compileModel { o with builder := none } node w with
    | .ok _ w' | .error _ w' => w'
  | .clearRegistry id => w.setRegistry id {}
  | .clearMemo id => w.setMemo id {}

def afterAll (sequences : Key → Value) (actions : List Action) : Workspace :=
  actions.foldl Action.after { sequences }

theorem Action.closed (hc : Closed w) (action : Action) : Closed (action.after w) := by
  cases action with
  | compile o node =>
    have h := compileModel_keeps { o with builder := none } rfl node hc
    unfold Keeps Ends at h
    dsimp only [Action.after]
    cases hr : compileModel { o with builder := none } node w with
    | ok c w' =>
      rw [hr] at h
      exact h.1
    | error e w' =>
      rw [hr] at h
      exact h.1
  | clearRegistry id => exact hc.clearRegistry id
  | clearMemo id => exact hc.clearMemo id

theorem closed_empty (sequences : Key → Value) : Closed { sequences } := by
  have none_held (e : EnumType) : ¬ HasEnum { sequences } e := by
    rintro (⟨id, entry, he, _⟩ | ⟨id, key, he⟩)
    · cases he
    · cases he
  exact ⟨fun _ => .nil _, fun e he => absurd he (none_held e), fun e _ he => absurd he (none_held e)⟩

theorem closed_afterAll (sequences : Key → Value) (actions : List Action) :
    Closed (afterAll sequences actions) := by
  unfold afterAll
  generalize hw : ({ sequences } : Workspace) = w
  have hc : Closed w := hw ▸ closed_empty sequences
  clear hw
  induction actions generalizing w with
  | nil => exact hc
  | cons action rest ih => exact ih (action.after w) (action.closed hc)

/-- Whatever was done, each registry holds every type under its own name, and a registered model
needs scalars and earlier entries of the registry only. -/
theorem registry_in_order (sequences : Key → Value) (actions : List Action) (id : Key) (i : Nat)
    (entry : Registry.Entry)
    (h : ((afterAll sequences actions).registries id).entries[i]? = some entry) :
    entry.name = .text entry.type.name ∧
    ((afterAll sequences actions).registries id).get? entry.name = some entry.type ∧
    ∀ c, entry.type = .object c → ∃ m, (afterAll sequences actions).class? c = some m ∧
      m.name = c.name ∧ ∀ f ∈ m.fields, (∃ s, f.type.leaf = .scalar s) ∨
        ∃ j held, j < i ∧ ((afterAll sequences actions).registries id).entries[j]? = some held ∧
          f.type.leaf = held.type.toOutput ∧
          ((afterAll sequences actions).registries id).get? (.text held.type.name) =
            some held.type := by
  have hc := closed_afterAll sequences actions
  generalize afterAll sequences actions = w at h hc
  have ho := hc.ordered id
  have hp := ho i entry h
  refine ⟨hp.named, ho.get?_eq (List.mem_of_getElem? h), fun c hcl => ?_⟩
  obtain ⟨m, hm, hn, hk⟩ := hp.known c hcl
  refine ⟨m, hm, hn, fun f hf => ?_⟩
  rcases hk f hf with hs | ⟨held, hheld, hl⟩
  · exact .inl hs
  · obtain ⟨j, hj, hget⟩ := List.mem_take_iff_getElem.mp hheld
    have hji : (w.registries id).entries[j]? = some held := by
      rw [List.getElem?_eq_getElem (by omega), hget]
    have hheld := ho.get?_eq (List.mem_of_getElem? hji)
    rw [(ho j held hji).named] at hheld
    exact .inr ⟨j, held, by omega, hji, hl, hheld⟩

def lampOptions : Options := { name := .text "Lamp", enumName := some fun _ _ => .ok "State" }

def lampActions : List Action :=
  [.compile lampOptions (.object {} [(.text "state", .enum {} (.list [.text "on"])),
      (.text "spare", .array {} (.object {} []))]),
    .compile lampOptions (.object {} [])]

theorem registry_in_order_lamp :
    ((afterAll (fun _ => .int 0) lampActions).registries .null).get? (.text "Lamp") =
      some (.object ⟨1, "Lamp"⟩) ∧
    ∃ m, (afterAll (fun _ => .int 0) lampActions).class? ⟨1, "Lamp"⟩ = some m ∧ m.name = "Lamp" ∧
      ∀ f ∈ m.fields, (∃ s, f.type.leaf = .scalar s) ∨
        ∃ j held, j < 2 ∧
          ((afterAll (fun _ => .int 0) lampActions).registries .null).entries[j]? = some held ∧
          f.type.leaf = held.type.toOutput ∧
          ((afterAll (fun _ => .int 0) lampActions).registries .null).get? (.text held.type.name) =
            some held.type := by
  obtain ⟨_, hget, hmodel⟩ := registry_in_order (fun _ => .int 0) lampActions .null 2
    ⟨.text "Lamp", .object ⟨1, "Lamp"⟩, .null⟩ rfl
  exact ⟨hget, hmodel _ rfl⟩

end SchemaCompiler
