import SchemaCompiler.Proofs.Model.Visits
import SchemaCompiler.Proofs.Operations

namespace SchemaCompiler

open Work Node

variable {w : Workspace} {o : Options}

def Failure.Quiet (e : Failure) : Prop := ∀ key kind, e ≠ .unsupportedKind key kind

/-- No class inherits anything, and each was made of a node below which no field offends. -/
def Faultless (w : Workspace) : Prop :=
  ∀ m ∈ w.classes, m.line = [.modelBase] ∧ ∀ n, m.source = some n → Clear n.visits

/-- Work on some fields that comes to a result only if none of them offends, and refuses a kind only
as that of the first one which does. -/
def Checks {α : Type} (x : Work α) (w : Workspace) (fields : List (Value × Node)) (Q : α → Prop) :
    Prop :=
  Ends x w (fun a w' => Faultless w' ∧ fields.find? (·.2.offends) = none ∧ Q a)
    fun e _ => ∀ key kind, e = .unsupportedKind key kind →
      ∃ node, fields.find? (·.2.offends) = some (key, node) ∧ kind = node.tag

theorem find?_offends_eq_none {fields : List (Value × Node)} :
    fields.find? (·.2.offends) = none ↔ Clear fields := by
  simp [Clear]

namespace Checks

variable {α β : Type} {xs ys : List (Value × Node)} {Q : α → Prop} {R : β → Prop}

theorem pure (hw : Faultless w) {a : α} (h : Q a) : Checks (pure a) w [] Q := ⟨hw, rfl, h⟩

theorem throw {e : Failure} (h : e.Quiet) : Checks (throw e : Work α) w xs Q := by
  intro key kind he
  exact absurd he (h key kind)

theorem misuse {m : Misuse} : Checks (Work.misuse m : Work α) w xs Q := throw nofun

theorem ofExcept (hw : Faultless w) {x : Except Failure α} (hq : ∀ e, x = .error e → e.Quiet)
    (h : ∀ a, x = .ok a → Q a) : Checks (Work.ofExcept x) w [] Q := by
  cases x with
  | ok a => exact pure hw (h a rfl)
  | error e => exact throw (hq e rfl)

theorem bind {x : Work α} {f : α → Work β} (hx : Checks x w xs Q)
    (hf : ∀ a w', Faultless w' → Q a → Checks (f a) w' ys R) : Checks (x >>= f) w (xs ++ ys) R := by
  apply Ends.bind
  apply Ends.imp hx
  · intro a w' ⟨hw, hclear, hq⟩
    apply Ends.imp (hf a w' hw hq)
    · intro b w'' ⟨hw', hmore, hr⟩
      exact ⟨hw', by rw [List.find?_append, hclear, hmore]; rfl, hr⟩
    · intro e w'' he key kind hk
      obtain ⟨node, hfind, htag⟩ := he key kind hk
      exact ⟨node, by rw [List.find?_append, hclear, hfind]; rfl, htag⟩
  · intro e w' he key kind hk
    obtain ⟨node, hfind, htag⟩ := he key kind hk
    exact ⟨node, by rw [List.find?_append, hfind]; rfl, htag⟩

theorem of_ok {x : Work α} {a : α} {w' : Workspace} (h : Checks x w xs Q) (hx : x w = .ok a w') :
    Faultless w' ∧ Clear xs := by
  unfold Checks Ends at h
  rw [hx] at h
  exact ⟨h.1, find?_offends_eq_none.mp h.2.1⟩

theorem of_error {x : Work α} {key : Value} {kind : Option Kind} {w' : Workspace}
    (h : Checks x w xs Q) (hx : x w = .error (.unsupportedKind key kind) w') :
    ∃ node, xs.find? (·.2.offends) = some (key, node) ∧ kind = node.tag := by
  unfold Checks Ends at h
  rw [hx] at h
  exact h key kind rfl

theorem of_find? {x : Work α} (h : Checks x w xs Q)
    (same : xs.find? (·.2.offends) = ys.find? (·.2.offends)) : Checks x w ys Q := by
  unfold Checks at h ⊢
  rwa [← same]

theorem map {x : Work α} {f : α → β} (hx : Checks x w xs Q) (hf : ∀ a, Q a → R (f a)) :
    Checks (x >>= fun a => Pure.pure (f a)) w xs R := by
  have h : Checks (x >>= fun a => Pure.pure (f a)) w (xs ++ []) R :=
    hx.bind fun a w' hw hq => .pure hw (hf a hq)
  rwa [List.append_nil] at h

end Checks

theorem titled_quiet {description : Value} {e : Failure} (h : o.titled description = .error e) :
    e.Quiet := by
  unfold Options.titled at h
  split at h
  · cases h
  · cases h
    nofun

theorem pascalCaseOf_quiet {v : Value} {e : Failure} (h : Naming.pascalCaseOf v = .error e) :
    e.Quiet := by
  unfold Naming.pascalCaseOf at h
  split at h
  · cases h
  · split at h
    · cases h
      nofun
    · cases h

theorem nestedName_quiet {key description : Value} {e : Failure}
    (h : nestedName o key description = .error e) : e.Quiet := by
  have hplain : (do return Value.text (o.name.display ++ (← Naming.pascalCaseOf key)) :
      Except Failure Value) = .error e → e.Quiet := by
    intro h
    rcases Outcome.bind_eq_error_iff.mp h with h | ⟨own, _, h⟩
    · exact pascalCaseOf_quiet h
    · cases h
  unfold nestedName at h
  by_cases hn : (!o.name.truthy) = true
  · rw [if_pos hn] at h
    cases h
  · rw [if_neg hn] at h
    by_cases hd : description.truthy = true
    · rw [if_pos hd] at h
      rcases Outcome.bind_eq_error_iff.mp h with h | ⟨found, _, h⟩
      · exact titled_quiet h
      · cases found with
        | some t => cases h
        | none => exact hplain h
    · rw [if_neg hd] at h
      exact hplain h

theorem statedName?_quiet {description : Value} {e : Failure}
    (h : statedName? o description = .error e) : e.Quiet := by
  unfold statedName? at h
  split at h
  · cases h
  · split at h
    · cases ht : o.titled description with
      | ok found =>
        rw [ht] at h
        cases h
      | error f =>
        rw [ht] at h
        cases h
        exact titled_quiet ht
    · cases h

theorem enumOutline_quiet (hname : o.enumName = none) {key : Value} {source : EnumSource} {e : Failure}
    (h : enumOutline o key source = .error e) : e.Quiet := by
  unfold enumOutline at h
  rcases Outcome.bind_eq_error_iff.mp h with h | ⟨name, _, h⟩
  · unfold enumTypeName at h
    rw [hname] at h
    rcases Outcome.bind_eq_error_iff.mp h with h | ⟨own, _, h⟩
    · exact pascalCaseOf_quiet h
    · cases h
  · split at h
    · cases h
    · cases h
      nofun

theorem modelName_checks (hw : Faultless w) (description : Value) :
    Checks (modelName o description) w [] fun _ => True := by
  unfold Checks Ends
  rw [modelName_eq]
  cases hs : statedName? o description with
  | error e =>
    intro key kind he
    exact absurd he (statedName?_quiet hs key kind)
  | ok found =>
    cases found with
    | some naming => exact ⟨hw, rfl, trivial⟩
    | none =>
      cases (w.sequences o.sequence).next? with
      | some next => exact ⟨hw, rfl, trivial⟩
      | none => nofun

theorem fieldEnum_checks (hname : o.enumName = none) (hw : Faultless w) (key : Value)
    (source : EnumSource) : Checks (fieldEnum o key source) w [] fun _ => True := by
  unfold Checks Ends
  rw [fieldEnum_eq]
  cases ho : enumOutline o key source with
  | error e =>
    intro key kind he
    exact absurd he (enumOutline_quiet hname ho key kind)
  | ok outline =>
    obtain ⟨name, members⟩ := outline
    dsimp only
    cases currentEnum? w o name members with
    | some e => exact ⟨hw, rfl, trivial⟩
    | none =>
      dsimp only
      rw [registerEnum_text]
      cases (w.registries o.registry).get? (.text name) with
      | none =>
        cases EnumType.misuse? (.text name) members with
        | some m => nofun
        | none => exact ⟨hw, rfl, trivial⟩
      | some t =>
        cases t with
        | object c => nofun
        | enum e =>
          dsimp only
          by_cases hs : Value.sameRecord e.members members = true
          · rw [if_pos hs]
            exact ⟨hw, rfl, trivial⟩
          · rw [if_neg hs]
            nofun

theorem Faultless.withClass (hw : Faultless w) (name : String) (description : Value) {source : Node}
    (hs : Clear source.visits) (fields : List CompiledField) :
    Faultless (w.withClass (classOf name description source fields)) := by
  intro m hm
  rcases List.mem_append.mp hm with hm | hm
  · exact hw m hm
  · rw [List.mem_singleton.mp hm]
    refine ⟨rfl, fun n hn => ?_⟩
    simp only [classOf] at hn
    split at hn
    · cases hn
    · cases hn
      exact hs

theorem defineModel_ends (naming : ModelName) (source : Node) (fields : List CompiledField) :
    Ends (defineModel o naming source fields) w
      (fun _ w' => ∃ name, w'.classes =
        (w.withClass (classOf name naming.description source fields)).classes)
      fun e _ => e.Quiet := by
  unfold Ends
  cases hm : modelMisuse? naming.name (fields.map (·.key)) with
  | some m =>
    rw [defineModel_of_misuse w hm]
    nofun
  | none =>
    obtain ⟨name, hname⟩ := text_of_modelMisuse? hm
    rw [defineModel_of_text w hname hm, registerObject_eq, Value.key?_text]
    dsimp only
    cases ((w.withClass (classOf name naming.description source fields)).registries o.registry).get?
      (.text name) with
    | none => exact ⟨name, rfl⟩
    | some t =>
      cases t with
      | enum e => nofun
      | object d =>
        dsimp only
        by_cases hd : d.serial = w.classes.length
        · rw [if_pos hd]
          exact ⟨name, rfl⟩
        · rw [if_neg hd]
          nofun

theorem defineModel_checks (hw : Faultless w) (naming : ModelName) {source : Node}
    (hs : Clear source.visits) (fields : List CompiledField) :
    Checks (defineModel o naming source fields) w [] fun _ => True := by
  apply Ends.imp (defineModel_ends naming source fields)
  · rintro c w' ⟨name, hclasses⟩
    refine ⟨fun m hm => ?_, rfl, trivial⟩
    rw [hclasses] at hm
    exact hw.withClass name naming.description hs fields m hm
  · intro e w' hq key kind he
    exact absurd he (hq key kind)

theorem clear_of_source (hw : Faultless w) {c : ClassHandle} {source : Node}
    (h : (w.whole? c).bind (·.source) = some source) : Clear source.visits := by
  cases hm : w.class? c with
  | none =>
    rw [Workspace.whole?, hm] at h
    cases h
  | some m =>
    obtain ⟨hline, hsource⟩ := hw m (List.mem_of_getElem? hm)
    rw [whole?_of_modelBase w hm hline] at h
    exact hsource source h

theorem synthesize_checks (hw : Faultless w) (a : Annotations) (shape : List (Value × Node))
    (description : Value) (compileFields : Options → Work (List CompiledField))
    (hfields : ∀ name generatedName v, Faultless v →
      Checks (compileFields { o with name, generatedName }) v (visitsShape shape) fun _ => True) :
    Checks (synthesize o (.object a shape) description compileFields) w (visitsShape shape)
      fun _ => True := by
  have hname := modelName_checks (o := o) hw description
  have hrun := synthesis w o (.object a shape) description compileFields
  unfold Checks Ends
  generalize synthesize o (.object a shape) description compileFields w = r at hrun
  cases hrun with
  | unnamed name =>
    rintro key kind rfl
    obtain ⟨node, hfind, -⟩ := hname.of_error name
    cases hfind
  | refused name reason =>
    rintro key kind rfl
    rcases reason with h | h <;> cases h
  | held name same =>
    obtain ⟨hw1, -⟩ := hname.of_ok name
    have hclear := clear_of_source hw1 same
    rw [visits] at hclear
    exact ⟨hw1, find?_offends_eq_none.mpr hclear, trivial⟩
  | failed name _ _ fields =>
    obtain ⟨hw1, -⟩ := hname.of_ok name
    rintro key kind rfl
    exact (hfields _ _ _ hw1).of_error fields
  | made name compiled =>
    obtain ⟨hw1, -⟩ := hname.of_ok name
    obtain ⟨hw2, hclear⟩ := (hfields _ _ _ hw1).of_ok compiled
    have hs : Clear (Node.object a shape).visits := by
      rw [visits]
      exact hclear
    exact (defineModel_checks hw2 _ hs _).of_find? (find?_offends_eq_none.mpr hclear).symm

structure Sorted (n : Node) (c : Classification) : Prop where
  enum : c.enumSource.isSome = true → n.offends = false
  missing : c.enumSource = none → c.type.isOpen = n.offends
  proper : ∀ v, n.leaf = .plain v → v = .null

theorem fieldDefault_quiet {n : Node} {e : Failure} (h : n.fieldDefault = .error e) : e.Quiet := by
  induction n using fieldDefault.induct with
  | case1 a inner hd =>
    rw [fieldDefault, if_pos hd] at h
    cases h
  | case2 a inner hd ih =>
    rw [fieldDefault, if_neg hd] at h
    exact ih h
  | case3 => cases h
  | case4 n ho hp a ha =>
    rw [fieldDefault, ha] at h
    · cases h
    · exact ho
    · exact hp
  | case5 n ho hp ha =>
    rw [fieldDefault, ha] at h
    · cases h
      intro key kind he
      cases he
    · exact ho
    · exact hp

theorem fieldDescription_quiet {n : Node} {e : Failure} (h : n.fieldDescription = .error e) :
    e.Quiet := by
  induction n using fieldDescription.induct with
  | case1 a inner hd =>
    rw [fieldDescription, if_pos hd] at h
    cases h
  | case2 a inner hd ih =>
    rw [fieldDescription, if_neg hd] at h
    exact ih h
  | case3 => cases h
  | case4 n ho hp a ha =>
    rw [fieldDescription, ha] at h
    · cases h
    · exact ho
    · exact hp
  | case5 n ho hp ha =>
    rw [fieldDescription, ha] at h
    · cases h
      intro key kind he
      cases he
    · exact ho
    · exact hp

theorem fieldType_checks (hname : o.enumName = none) (hw : Faultless w) (key : Value) {node : Node}
    {c : Classification} (h : Sorted node c) :
    Checks (fieldType o key node c) w [(key, node)] fun _ => True := by
  unfold fieldType
  cases hs : c.enumSource with
  | some source =>
    have ho : node.offends = false := h.enum (by rw [hs]; rfl)
    have hq : Checks (fieldEnum o key source >>= fun e => pure (c.type.fill e)) w [] fun _ => True :=
      (fieldEnum_checks hname hw key source).map fun _ _ => trivial
    exact hq.of_find? (by simp [ho])
  | none =>
    have ho := h.missing hs
    dsimp only
    by_cases hopen : c.type.isOpen = true
    · rw [if_pos hopen]
      intro k kind he
      cases he
      exact ⟨node, by simp [← ho, hopen], innermost_kind? h.proper⟩
    · rw [if_neg hopen]
      have hsound : node.offends = false := by simpa [← ho] using hopen
      have hq : Checks (pure c.type : Work OutputType) w [] fun _ => True := .pure hw trivial
      exact hq.of_find? (by simp [hsound])

theorem find?_visits (key : Value) (node : Node) :
    (node.visits ++ [(key, node)]).find? (·.2.offends) =
      ((key, node) :: node.visits).find? (·.2.offends) := by
  cases ho : node.offends with
  | true => rw [visits_of_offends ho, List.nil_append]
  | false => simp [List.find?_append, ho]

theorem compileField_checks (hname : o.enumName = none) (key : Value) {node : Node} (kind : Kind)
    {classified : Work Classification} (h : Checks classified w node.visits (Sorted node)) :
    Checks (compileField o key node kind classified) w ((key, node) :: node.visits) fun _ => True := by
  unfold compileField
  refine Checks.of_find? ?_ (find?_visits key node)
  apply h.bind
  intro c w1 hw1 hc
  rw [← List.append_nil [(key, node)]]
  apply (fieldType_checks hname hw1 key hc).bind
  intro type w2 hw2 _
  rw [← List.append_nil []]
  apply (Checks.ofExcept hw2 (fun e => fieldDefault_quiet) fun _ _ => trivial).bind
  intro default w3 hw3 _
  exact (Checks.ofExcept hw3 (fun e => fieldDescription_quiet) fun _ _ => trivial).map fun _ _ => trivial

mutual

theorem classify_checks (o : Options) (ho : o.builder = none) (hname : o.enumName = none)
    (key : Value) : (node : Node) → (w : Workspace) → Faultless w →
    Checks (classify o key node) w node.visits (Sorted node)
  | .optional a inner, w, hw => by
    rw [classify, visits]
    exact (classify_checks o ho hname key inner w hw).map fun c hc => ⟨hc.enum, hc.missing, hc.proper⟩
  | .array a item, w, hw => by
    rw [classify, visits]
    exact (classify_checks o ho hname key item w hw).map fun c hc => ⟨hc.enum, hc.missing, hc.proper⟩
  | .object a shape, w, hw => by
    rw [classify_object ho, visits, ← List.nil_append (visitsShape shape)]
    apply (Checks.ofExcept hw (fun e => nestedName_quiet) fun _ _ => trivial).bind
    intro name w1 hw1 _
    have hmodel : Checks (synthesize { o with name } (.object a shape) a.description
        fun inner => compileShape inner shape) w1 (visitsShape shape) fun _ => True :=
      synthesize_checks hw1 a shape a.description _ fun inner generatedName v hv =>
        compileShape_checks { o with name := inner, generatedName } ho hname shape v hv
    exact hmodel.map fun c _ => ⟨nofun, fun _ => rfl, nofun⟩
  | .enum a values, w, hw => by
    rw [classify]
    exact .pure hw ⟨fun _ => rfl, nofun, nofun⟩
  | .boolean _, w, hw | .string _, w, hw | .number _ _, w, hw | .union _ _, w, hw
  | .literal _ _, w, hw | .date _, w, hw | .any _, w, hw => by
    rw [classify]
    exact .pure hw ⟨nofun, fun _ => rfl, nofun⟩
  | .plain v, w, hw => by
    cases v with
    | null =>
      rw [classify]
      exact .pure hw ⟨nofun, fun _ => rfl, fun v hv => (Node.plain.inj hv).symm⟩
    | _ =>
      rw [classify]
      · exact .misuse
      · simp

theorem compileShape_checks (o : Options) (ho : o.builder = none) (hname : o.enumName = none) :
    (shape : List (Value × Node)) → (w : Workspace) → Faultless w →
    Checks (compileShape o shape) w (visitsShape shape) fun _ => True
  | [], w, hw => by
    rw [compileShape, visitsShape]
    exact .pure hw trivial
  | (key, node) :: rest, w, hw => by
    rw [compileShape_cons, visitsShape, ← List.cons_append]
    have hfield : Checks (compileNode o key node) w ((key, node) :: node.visits) fun _ => True := by
      rcases compileNode_cases o key node with ⟨kind, -, -, hrun⟩ | ⟨hk, hrun⟩
      · rw [hrun]
        exact compileField_checks hname key kind (classify_checks o ho hname key node w hw)
      · obtain ⟨hoffends, htag⟩ := offends_of_kind hk
        rw [hrun]
        intro k kind he
        cases he
        exact ⟨node, by simp [hoffends], htag.symm⟩
    exact hfield.bind fun field w1 hw1 _ =>
      (compileShape_checks o ho hname rest w1 hw1).map fun _ _ => trivial

end

end SchemaCompiler
