import SchemaCompiler.Proofs.Model.Titles
import SchemaCompiler.Proofs.Types.EnumMembers

namespace SchemaCompiler

def enumCheck (key values : Value) : Except Failure Unit := do
  let _ ← Naming.pascalCaseOf key
  match values.elements? with
  | none => throw (.misuse .notIterable)
  | some vs =>
    if EnumType.hasReserved (Naming.enumMembers vs) then throw (.misuse .reservedMemberName)
    else return

def keysCheck (shape : List (Value × Node)) : Except Failure Unit :=
  match modelMisuse? (.text "") (shape.map (·.1)) with
  | some m => .error (.misuse m)
  | none => .ok ()

def leafCheck (key : Value) (node : Node) : Except Failure Unit :=
  match node.leaf with
  | .enum _ values => enumCheck key values
  | .object a shape => do
    nameCheck key a.description
    keysCheck shape
  | .boolean _ | .string _ | .number _ _ => .ok ()
  | .plain v =>
    if v = .null ∨ node.kind? = none then .error (.unsupportedKind key node.innermost.kind?)
    else .error (.misuse .notNode)
  | _ => .error (.unsupportedKind key node.innermost.kind?)

def fieldCheck (f : Value × Node) : Except Failure Unit := do
  leafCheck f.1 f.2
  let _ ← f.2.fieldDefault
  let _ ← f.2.fieldDescription
  return

def Pass (fields : List (Value × Node)) : Prop := ∀ f ∈ fields, fieldCheck f = .ok ()

def Fails (fields : List (Value × Node)) (e : Failure) : Prop := ∃ f ∈ fields, fieldCheck f = .error e

theorem pass_iff {fields : List (Value × Node)} : Pass fields ↔ ∀ e, ¬ Fails fields e := by
  constructor
  · rintro h e ⟨f, hf, he⟩
    rw [h f hf] at he
    cases he
  · intro h f hf
    cases hc : fieldCheck f with
    | ok u => rfl
    | error e => exact absurd ⟨f, hf, hc⟩ (h e)

theorem pass_append {xs ys : List (Value × Node)} : Pass (xs ++ ys) ↔ Pass xs ∧ Pass ys :=
  List.forall_mem_append

structure Passes (shape : List (Value × Node)) : Prop where
  keys : keysCheck shape = .ok ()
  fields : Pass (Node.visitsShape shape)

/-- What keeps an object from having a model whatever the names are. -/
def Faults (shape : List (Value × Node)) (e : Failure) : Prop :=
  keysCheck shape = .error e ∨ Fails (Node.visitsShape shape) e

theorem passes_iff {shape : List (Value × Node)} : Passes shape ↔ ∀ e, ¬ Faults shape e := by
  constructor
  · rintro ⟨hkeys, hfields⟩ e (he | he)
    · rw [hkeys] at he
      cases he
    · exact pass_iff.mp hfields e he
  · intro h
    refine ⟨?_, pass_iff.mpr fun e he => h e (.inr he)⟩
    cases hc : keysCheck shape with
    | ok u => rfl
    | error e => exact absurd (.inl hc) (h e)

section Reports

variable {key description values : Value} {node : Node} {e : Failure}

def Failure.Unnamed (e : Failure) : Prop := ∀ name, e ≠ .duplicateType name

theorem pascalCaseOf_unnamed (h : Naming.pascalCaseOf key = .error e) : e.Unnamed := by
  unfold Naming.pascalCaseOf at h
  split at h
  · cases h
  · split at h <;> cases h
    nofun

theorem nameCheck_unnamed (h : nameCheck key description = .error e) : e.Unnamed := by
  have htitle : ∀ f, Naming.titleOf description = .error f → f.Unnamed := by
    intro f hf
    unfold Naming.titleOf Options.titled at hf
    split at hf
    · split at hf <;> cases hf
      nofun
    · cases hf
  rcases Outcome.bind_eq_error_iff.mp h with h | ⟨found, -, h⟩
  · exact htitle e h
  · cases found with
    | some t => cases h
    | none =>
      rcases Outcome.bind_eq_error_iff.mp h with h | ⟨own, -, h⟩
      · exact pascalCaseOf_unnamed h
      · cases h

theorem enumCheck_unnamed (h : enumCheck key values = .error e) : e.Unnamed := by
  rcases Outcome.bind_eq_error_iff.mp h with h | ⟨own, -, h⟩
  · exact pascalCaseOf_unnamed h
  · split at h
    · cases h
      nofun
    · split at h <;> cases h
      nofun

theorem keysCheck_unnamed {shape : List (Value × Node)} (h : keysCheck shape = .error e) : e.Unnamed := by
  unfold keysCheck at h
  split at h <;> cases h
  nofun

theorem leafCheck_unnamed (h : leafCheck key node = .error e) : e.Unnamed := by
  unfold leafCheck at h
  split at h
  · exact enumCheck_unnamed h
  · rcases Outcome.bind_eq_error_iff.mp h with h | ⟨_, -, h⟩
    · exact nameCheck_unnamed h
    · exact keysCheck_unnamed h
  · cases h
  · cases h
  · cases h
  · split at h <;> cases h <;> nofun
  · cases h
    nofun

theorem fieldDefault_unnamed (h : node.fieldDefault = .error e) : e.Unnamed := by
  induction node using Node.fieldDefault.induct with
  | case1 a inner hd =>
    rw [Node.fieldDefault, if_pos hd] at h
    cases h
  | case2 a inner hd ih =>
    rw [Node.fieldDefault, if_neg hd] at h
    exact ih h
  | case3 => cases h
  | case4 n ho hp a ha =>
    rw [Node.fieldDefault] at h
    · rw [ha] at h
      cases h
    · exact ho
    · exact hp
  | case5 n ho hp ha =>
    rw [Node.fieldDefault] at h
    · rw [ha] at h
      cases h
      intro name hname
      cases hname
    · exact ho
    · exact hp

theorem fieldDescription_unnamed (h : node.fieldDescription = .error e) : e.Unnamed := by
  induction node using Node.fieldDescription.induct with
  | case1 a inner hd =>
    rw [Node.fieldDescription, if_pos hd] at h
    cases h
  | case2 a inner hd ih =>
    rw [Node.fieldDescription, if_neg hd] at h
    exact ih h
  | case3 => cases h
  | case4 n ho hp a ha =>
    rw [Node.fieldDescription] at h
    · rw [ha] at h
      cases h
    · exact ho
    · exact hp
  | case5 n ho hp ha =>
    rw [Node.fieldDescription] at h
    · rw [ha] at h
      cases h
      intro name hname
      cases hname
    · exact ho
    · exact hp

theorem Faults.unnamed {shape : List (Value × Node)} (h : Faults shape e) : e.Unnamed := by
  rcases h with h | ⟨f, -, h⟩
  · exact keysCheck_unnamed h
  · unfold fieldCheck at h
    rcases Outcome.bind_eq_error_iff.mp h with h | ⟨_, -, h⟩
    · exact leafCheck_unnamed h
    · rcases Outcome.bind_eq_error_iff.mp h with h | ⟨_, -, h⟩
      · exact fieldDefault_unnamed h
      · rcases Outcome.bind_eq_error_iff.mp h with h | ⟨_, -, h⟩
        · exact fieldDescription_unnamed h
        · cases h

end Reports

theorem modelMisuse?_text {s : String} (hs : '\x00' ∉ s.toList) (keys : List Value) :
    modelMisuse? (.text s) keys = modelMisuse? (.text "") keys := by
  have hc : s.toList.contains '\x00' = false := by simpa using hs
  unfold modelMisuse? classMisuse?
  dsimp only
  rw [hc]
  rfl

theorem keysCheck_of_modelMisuse? {s : String} {shape : List (Value × Node)}
    (h : modelMisuse? (.text s) (shape.map (·.1)) = none) : keysCheck shape = .ok () := by
  have hs : '\x00' ∉ s.toList := by
    intro hmem
    have hc : s.toList.contains '\x00' = true := by simpa using hmem
    unfold modelMisuse? classMisuse? at h
    dsimp only at h
    rw [hc] at h
    split at h <;> cases h
  rw [keysCheck, ← modelMisuse?_text hs, h]

theorem enumOutline_eq {o : Options} {t : Title} (h : o.Under t) (key : Value) (source : EnumSource) :
    enumOutline o key source = (do
      let _ ← Naming.pascalCaseOf key
      match source.values.elements? with
      | some values => return (t.enumName key, Naming.enumMembers values)
      | none => throw (.misuse .notIterable)) := by
  unfold enumOutline enumTypeName
  rw [h.enumName]
  cases hk : Naming.pascalCaseOf key with
  | error e => rfl
  | ok own =>
    have hname : (if (if o.generatedName then Value.null else o.name).truthy then
        (if o.generatedName then Value.null else o.name).display else "") ++ own ++ "Enum" =
        t.enumName key := by
      have htruthy : (Value.text t.name).truthy = true := by simpa [Value.truthy] using h.nonempty
      rw [Title.enumName, h.drawn, h.name, Naming.pascalKey_of_ok hk]
      cases t.drawn with
      | true => rfl
      | false =>
        simp only [Bool.false_eq_true, if_false, htruthy, if_true]
        rfl
    cases source.values.elements? <;> simp only [Outcome.ok_bind, Outcome.pure_eq_ok, hname]

theorem member_enumName (t : Title) (key : Value) : 'm' ∈ (t.enumName key).toList := by
  rw [Title.enumName, String.toList_append]
  exact List.mem_append_right _ (by decide)

end SchemaCompiler
