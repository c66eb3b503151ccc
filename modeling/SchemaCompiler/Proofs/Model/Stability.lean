import SchemaCompiler.Proofs.Model.Closure
import SchemaCompiler.Proofs.Model.EnumMemo
import SchemaCompiler.Proofs.Model.Names
import SchemaCompiler.Proofs.Retry

namespace SchemaCompiler

open Work

variable {w : Workspace} {o : Options} {key : Value}

section Enums

variable {source : EnumSource}

theorem fieldEnum_remembers (hc : Coherent w) {e : EnumType} {w' : Workspace}
    (h : fieldEnum o key source w = .ok e w') :
    ∃ name members, enumOutline o key source = .ok (name, members) ∧
      Remembered o.registry o.memo w' name e := by
  rw [fieldEnum_eq] at h
  cases ho : enumOutline o key source with
  | error f =>
    rw [ho] at h
    cases h
  | ok outline =>
    obtain ⟨name, members⟩ := outline
    rw [ho] at h
    refine ⟨name, members, rfl, ?_⟩
    dsimp only at h
    cases hcur : currentEnum? w o name members with
    | some held =>
      rw [hcur] at h
      cases h
      exact ⟨(Option.filter_eq_some_iff.mp hcur).1, (get?_of_currentEnum? hc hcur).1⟩
    | none =>
      rw [hcur] at h
      dsimp only at h
      cases hr : registerEnum o.registry (.text name) members source.description w with
      | error f w1 =>
        rw [hr] at h
        cases h
      | ok e' w1 =>
        rw [hr] at h
        cases h
        refine ⟨?_, (registerEnum_ok hr).1⟩
        simp only [Workspace.withMemo, Workspace.setMemo, update_same]
        exact EnumMemo.get?_put_same _ _ _

theorem fieldEnum_of_remembered {name : String} {members : List (String × Value)} {e : EnumType}
    (ho : enumOutline o key source = .ok (name, members))
    (h : Remembered o.registry o.memo w name e) :
    fieldEnum o key source w = .ok e w ∨ ∃ f, fieldEnum o key source w = .error f w := by
  rw [fieldEnum_eq, ho]
  dsimp only
  by_cases hs : Value.sameRecord e.members members = true
  · left
    have hcur : currentEnum? w o name members = some e := by
      refine Option.filter_eq_some_iff.mpr ⟨h.1, ?_⟩
      simp [isCurrent, hs, h.2]
    rw [hcur]
  · right
    have hcur : currentEnum? w o name members = none := by
      rw [currentEnum?, h.1, Option.filter_some, if_neg]
      simp [isCurrent, hs]
    rw [hcur, registerEnum_text, h.2]
    dsimp only
    rw [if_neg hs]
    exact ⟨_, rfl⟩

end Enums

def EndsAgain {α : Type} (registry memo : Key) (x : Work α) : EStateM.Result Failure Workspace α → Prop
  | .ok a w => ∀ v, Kept registry memo w v → x v = .ok a v ∨ ∃ e, x v = .error e v
  | .error _ w => ∃ e, x w = .error e w

theorem Settles.of_again {α : Type} {registry memo : Key} {size : Nat} {x : Work α} (hc : Coherent w)
    (h : Advances registry memo size w (x.after w)) (again : EndsAgain registry memo x (x w)) :
    Settles registry memo x w := by
  obtain ⟨hcoherent, hgrown⟩ := h
  unfold Settles Ends after at *
  cases hx : x w with
  | ok a w' =>
    rw [hx] at again hcoherent hgrown
    exact ⟨hcoherent hc, hgrown.toKept, again⟩
  | error e w' =>
    rw [hx] at again hcoherent hgrown
    exact ⟨hcoherent hc, hgrown.toKept, again⟩

theorem fieldEnum_settles (ho : o.builder = none) (key : Value) (source : EnumSource)
    (hc : Coherent w) : Settles o.registry o.memo (fieldEnum o key source) w := by
  apply Settles.of_again hc ((admits_advances ho 0).fieldEnum key source)
  cases hr : registerOutline o key source w with
  | error f w1 =>
    obtain ⟨_, he⟩ := fieldEnum_of_registerOutline_error hc hr
    rw [he]
    exact ⟨f, he⟩
  | ok e w1 =>
    obtain ⟨memos, events, he⟩ := fieldEnum_of_registerOutline_ok hc hr
    obtain ⟨name, members, hout, hrem⟩ := fieldEnum_remembers hc he
    rw [he]
    exact fun v hv => fieldEnum_of_remembered hout (hv.remembered name e hrem)

section Synthesis

variable {naming : ModelName} {description : Value} {size : Nat} {name : Key} (source : Node)
  (compileFields : Options → Work (List CompiledField))

/-- A name that was free when smaller nodes began to be compiled, and is not any more, is not the name
of a model of this node. -/
theorem synthesize_of_grown (hs : statedName? o description = .ok (some naming))
    (hkey : naming.name.key? = some name) {memo : Key} {v : Workspace}
    (hg : Grown o.registry memo size w v) (hsize : size < sizeOf source)
    (hfree : (w.registries o.registry).get? name = none) {t : NamedType}
    (ht : (v.registries o.registry).get? name = some t) :
    synthesize o source description compileFields v = .error (.duplicateType naming.name) v := by
  rw [synthesize_of_stated source compileFields hs, hkey]
  dsimp only
  rw [ht]
  cases t with
  | enum e => rfl
  | object c =>
    obtain ⟨m, hm, hl, hsmall⟩ := hg.added name c hfree ht
    have hother : (v.whole? c).bind (·.source) ≠ some source := by
      rw [whole?_of_modelBase v hm hl, Option.bind_some]
      intro heq
      have := hsmall source heq
      omega
    dsimp only
    rw [if_neg hother]

theorem defineModel_again {memo : Key} {fields : List CompiledField} {v : Workspace}
    (hs : statedName? o description = .ok (some naming)) (hkey : naming.name.key? = some name)
    (hfree : (w.registries o.registry).get? name = none)
    (hg : Grown o.registry memo size w v) (hc : Coherent v) (hsize : size < sizeOf source)
    (hfields : compileFields (o.within naming) v = .ok fields v ∨
      ∃ e, compileFields (o.within naming) v = .error e v) :
    EndsAgain o.registry memo (synthesize o source description compileFields)
      (defineModel o naming source fields v) := by
  cases hm : modelMisuse? naming.name (fields.map (·.key)) with
  | some m =>
    rw [defineModel_of_misuse v hm]
    cases hget : (v.registries o.registry).get? name with
    | some t => exact ⟨_, synthesize_of_grown source compileFields hs hkey hg hsize hfree hget⟩
    | none =>
      have hrun := synthesize_of_free source compileFields hs hkey hget
      rcases hfields with h | ⟨e, h⟩
      · rw [h] at hrun
        exact ⟨_, hrun.trans (defineModel_of_misuse v hm)⟩
      · rw [h] at hrun
        exact ⟨e, hrun⟩
  | none =>
    obtain ⟨text, htext⟩ := text_of_modelMisuse? hm
    have hname : name = .text text := by
      rw [htext] at hkey
      exact (Option.some.inj hkey).symm
    subst hname
    rw [defineModel_of_text v htext hm, registerObject_eq, Value.key?_text]
    dsimp only
    let c := classOf text naming.description source fields
    cases hget : ((v.withClass c).registries o.registry).get? (.text text) with
    | some t =>
      have hadd : Grown o.registry memo size v (v.withClass c) :=
        .of_same ⟨fun _ _ h => h, fun _ _ h => h, List.prefix_append _ _⟩ rfl
      have herror := synthesize_of_grown source compileFields hs hkey (hg.trans hadd) hsize
        hfree hget
      cases t with
      | enum e => exact ⟨_, herror⟩
      | object d =>
        have hd : d.serial ≠ v.classes.length := by
          obtain ⟨entry, hentry, _, ht⟩ := Registry.mem_of_get? hget
          have := hc.made o.registry entry hentry d ht
          omega
        dsimp only
        rw [if_neg hd]
        exact ⟨_, herror⟩
    | none =>
      intro u hu
      have hheld : (u.registries o.registry).get? (.text text) =
          some (.object ⟨v.classes.length, text⟩) := by
        apply hu.held
        simp only [Workspace.withObject, Workspace.setRegistry, update_same]
        exact Registry.get?_add_same hget
      rcases synthesize_of_held source compileFields hs hkey hheld with
        ⟨d, hd, -, h⟩ | h
      · cases hd
        exact .inl h
      · exact .inr ⟨_, h⟩

theorem synthesize_again (hs : statedName? o description = .ok (some naming))
    (hsize : size < sizeOf source)
    (hadvances : Advances o.registry o.memo size w ((compileFields (o.within naming)).after w))
    (hfields : Settles o.registry o.memo (compileFields (o.within naming)) w) :
    EndsAgain o.registry o.memo (synthesize o source description compileFields)
      (synthesize o source description compileFields w) := by
  cases hkey : naming.name.key? with
  | none =>
    have hrun : synthesize o source description compileFields w = .error (.misuse .notKey) w := by
      rw [synthesize_of_stated source compileFields hs, hkey]
    rw [hrun]
    exact ⟨_, hrun⟩
  | some name =>
    cases hget : (w.registries o.registry).get? name with
    | some t =>
      rcases synthesize_of_held source compileFields hs hkey hget with
        ⟨c, rfl, hsource, hrun⟩ | hrun
      · rw [hrun]
        intro v hv
        rcases synthesize_of_held source compileFields hs hkey
          (hv.held name _ hget) with ⟨d, hd, -, hagain⟩ | hagain
        · cases hd
          exact .inl hagain
        · exact .inr ⟨_, hagain⟩
      · rw [hrun]
        exact ⟨_, hrun⟩
    | none =>
      rw [synthesize_of_free source compileFields hs hkey hget]
      unfold after at hadvances
      unfold Settles Ends at hfields
      cases hf : compileFields (o.within naming) w with
      | error e w1 =>
        rw [hf] at hadvances hfields
        -- Where the name is taken in the meantime the second attempt finds a type of something else.
        cases hget1 : (w1.registries o.registry).get? name with
        | some t => exact ⟨_, synthesize_of_grown source compileFields hs hkey hadvances.2 hsize hget hget1⟩
        | none =>
          obtain ⟨-, -, e', he⟩ := hfields
          refine ⟨e', ?_⟩
          rw [synthesize_of_free source compileFields hs hkey hget1, he]
      | ok fields w1 =>
        rw [hf] at hadvances hfields
        obtain ⟨hc1, -, hagain⟩ := hfields
        exact defineModel_again source compileFields hs hkey hget hadvances.2 hc1 hsize (hagain w1 (.refl w1))

theorem synthesize_settles (ho : o.builder = none) (hc : Coherent w)
    (hs : statedName? o description = .ok (some naming)) (hsize : size < sizeOf source)
    (hadvances : ∀ name generatedName v, Advances o.registry o.memo size v
      ((compileFields { o with name, generatedName }).after v))
    (hfields : Settles o.registry o.memo (compileFields (o.within naming)) w) :
    Settles o.registry o.memo (synthesize o source description compileFields) w := by
  have hadvance : Advances o.registry o.memo (sizeOf source) w
      ((synthesize o source description compileFields).after w) :=
    (admits_advances ho (sizeOf source)).synthesize (Nat.le_refl _) description compileFields
      fun name generatedName v => (hadvances name generatedName v).mono (Nat.le_of_lt hsize)
  exact .of_again hc hadvance (synthesize_again source compileFields hs hsize (hadvances _ _ w) hfields)

end Synthesis

theorem fieldType_settles (ho : o.builder = none) (key : Value) (node : Node) (c : Classification)
    (hc : Coherent w) : Settles o.registry o.memo (fieldType o key node c) w := by
  unfold fieldType
  split
  · exact .bind (fieldEnum_settles ho key _ hc) fun e w1 _ hc1 => .pure hc1 _
  · split
    · exact .throw hc _
    · exact .pure hc _

theorem compileField_settles (ho : o.builder = none) (key : Value) (node : Node) (kind : Kind)
    {classified : Work Classification} (h : Settles o.registry o.memo classified w) :
    Settles o.registry o.memo (compileField o key node kind classified) w := by
  unfold compileField
  apply h.bind
  intro c w1 _ hc1
  apply (fieldType_settles ho key node c hc1).bind
  intro type w2 _ hc2
  apply (Settles.ofExcept hc2 _).bind
  intro default w3 _ hc3
  apply (Settles.ofExcept hc3 _).bind
  intro description w4 _ hc4
  exact .pure hc4 _

mutual

theorem classify_settles (o : Options) (ho : o.builder = none) (hn : o.name.truthy = true)
    (key : Value) : (node : Node) → node.NamedBy o.convention → (w : Workspace) → Coherent w →
    Settles o.registry o.memo (classify o key node) w
  | .optional a inner, hv, w, hc => by
    rw [classify]
    have hi : inner.NamedBy o.convention := fun b fields h => hv b fields (.optional a h)
    exact .bind (classify_settles o ho hn key inner hi w hc) fun c w1 _ hc1 => .pure hc1 _
  | .array a item, hv, w, hc => by
    rw [classify]
    have hi : item.NamedBy o.convention := fun b fields h => hv b fields (.array a h)
    exact .bind (classify_settles o ho hn key item hi w hc) fun c w1 _ hc1 => .pure hc1 _
  | .object a shape, hv, w, hc => by
    rw [classify_object ho]
    cases hname : nestedName o key a.description with
    | error e => exact .throw hc e
    | ok name =>
      obtain ⟨naming, hs, hnaming⟩ := statedName?_nested hn (hv a shape (.refl _)) hname
      have hsize : sizeOf shape < sizeOf (Node.object a shape) := by
        simp only [Node.object.sizeOf_spec]
        omega
      apply Settles.bind (.pure hc name)
      rintro _ _ ⟨⟩ -
      refine .bind (synthesize_settles _ _ ho hc hs hsize ?_ ?_) fun c w1 _ hc1 => .pure hc1 _
      · intro inner generatedName v
        exact compileShape_admits ((admits_advances ho (sizeOf shape)).renamed inner generatedName)
          shape (Nat.le_refl _) v
      · have hi : ∀ f ∈ shape, f.2.NamedBy o.convention :=
          fun f hf b fields h => hv b fields (.field a hf h)
        exact compileShape_settles (({ o with name } : Options).within naming) ho hnaming shape hi w hc
  | .enum _ _, _, w, hc | .boolean _, _, w, hc | .string _, _, w, hc | .number _ _, _, w, hc
  | .union _ _, _, w, hc | .literal _ _, _, w, hc | .date _, _, w, hc | .any _, _, w, hc => by
    rw [classify]
    exact .pure hc _
  | .plain v, _, w, hc => by
    cases v with
    | null => rw [classify]; exact .pure hc _
    | _ =>
      rw [classify]
      · exact .throw hc _
      · simp

theorem compileShape_settles (o : Options) (ho : o.builder = none) (hn : o.name.truthy = true) :
    (shape : List (Value × Node)) → (∀ f ∈ shape, f.2.NamedBy o.convention) → (w : Workspace) →
    Coherent w → Settles o.registry o.memo (compileShape o shape) w
  | [], _, w, hc => by
    rw [compileShape]
    exact .pure hc _
  | (key, node) :: rest, hv, w, hc => by
    obtain ⟨hnode, hrest⟩ := List.forall_mem_cons.mp hv
    have hfield : Settles o.registry o.memo (compileNode o key node) w := by
      rcases compileNode_cases o key node with ⟨kind, -, -, hrun⟩ | ⟨-, hrun⟩
      · rw [hrun]
        exact compileField_settles ho key node kind (classify_settles o ho hn key node hnode w hc)
      · rw [hrun]
        exact .throw hc _
    rw [compileShape_cons]
    refine .bind hfield fun field w1 _ hc1 => ?_
    exact .bind (compileShape_settles o ho hn rest hrest w1 hc1) fun fields w2 _ hc2 => .pure hc2 _

end

/-- A compilation that fails, started from any state that can be reached, fails again in the state that
it left and changes nothing, if the model is named and no description gives an empty name. -/
theorem compileModel_fails_again {w₁ : Workspace} {e : Failure} (hr : Reached w)
    (ho : o.builder = none) (a : Annotations) (shape : List (Value × Node))
    (hn : o.name.truthy = true ∨
      a.description.truthy = true ∧ ∃ t, o.titled a.description = .ok (some t) ∧ t.name ≠ "")
    (hv : ∀ f ∈ shape, f.2.NamedBy o.convention)
    (he : compileModel o (.object a shape) w = .error e w₁) :
    ∃ e', compileModel o (.object a shape) w₁ = .error e' w₁ := by
  obtain ⟨naming, hs, hnaming⟩ : ∃ naming, statedName? o a.description = .ok (some naming) ∧
      naming.name.truthy = true := by
    by_cases hname : o.name.truthy = true
    · exact ⟨_, statedName?_of_name hname, hname⟩
    · obtain ⟨hd, t, ht, hne⟩ := hn.resolve_left hname
      have htruthy : (Value.text t.name).truthy = true := by simpa [Value.truthy] using hne
      exact ⟨_, statedName?_of_title (by simpa using hname) hd ht, htruthy⟩
  have hsettles : Settles o.registry o.memo (compileModel o (.object a shape)) w := by
    unfold compileModel
    have hsize : sizeOf shape < sizeOf (Node.object a shape) := by
      simp only [Node.object.sizeOf_spec]
      omega
    refine synthesize_settles _ _ ho hr.coherent hs hsize ?_ ?_
    · intro inner generatedName v
      exact compileShape_admits ((admits_advances ho (sizeOf shape)).renamed inner generatedName)
        shape (Nat.le_refl _) v
    · exact compileShape_settles (o.within naming) ho hnaming shape hv w hr.coherent
  unfold Settles Ends at hsettles
  rw [he] at hsettles
  exact hsettles.2.2

def halfMade : Node :=
  .object {} [(.text "part", .object {} []), (.text "state", .enum {} (.list [.text "on"])),
    (.text "made", .date {})]

theorem compileModel_fails_again_halfMade :
    ∃ w₁ e, compileModel lampOptions halfMade {} =
        .error (.unsupportedKind (.text "made") (some .date)) w₁ ∧
      compileModel lampOptions halfMade w₁ = .error e w₁ := by
  have hfirst : ∃ w₁, compileModel lampOptions halfMade {} =
      .error (.unsupportedKind (.text "made") (some .date)) w₁ := ⟨_, rfl⟩
  obtain ⟨w₁, hw₁⟩ := hfirst
  obtain ⟨e, he⟩ := compileModel_fails_again (.refl {}) rfl {} _ (.inl rfl)
    (fun f _ => f.2.namedBy_colon) hw₁
  exact ⟨w₁, e, hw₁, he⟩

def bracketOptions : Options := { name := .text "Root", convention := .bracket }

def unnamed : Node :=
  .object {} [(.text "a", .object { description := .text "[]" }
    [(.text "b", .object {} []), (.text "c", .date {})])]

def attempts : Nat → Workspace
  | 0 => {}
  | n + 1 => (compileModel bracketOptions unnamed).after (attempts n)

/-- Under an empty name each attempt draws a name and leaves one more model. -/
theorem compileModel_unnamed_grows :
    compileModel bracketOptions unnamed {} =
      .error (.unsupportedKind (.text "c") (some .date)) (attempts 1) ∧
    compileModel bracketOptions unnamed (attempts 1) =
      .error (.unsupportedKind (.text "c") (some .date)) (attempts 2) ∧
    (attempts 1).sequences .null = .int 1 ∧ (attempts 2).sequences .null = .int 2 ∧
    (attempts 1).registries .null = ⟨[⟨.text "ClassFromZod_0", .object ⟨0, "ClassFromZod_0"⟩, .null⟩]⟩ ∧
    (attempts 2).registries .null = ⟨[⟨.text "ClassFromZod_0", .object ⟨0, "ClassFromZod_0"⟩, .null⟩,
      ⟨.text "ClassFromZod_1", .object ⟨1, "ClassFromZod_1"⟩, .null⟩]⟩ :=
  ⟨rfl, rfl, rfl, rfl, rfl, rfl⟩

end SchemaCompiler
