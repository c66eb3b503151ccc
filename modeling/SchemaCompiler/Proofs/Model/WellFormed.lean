import SchemaCompiler.Proofs.Model.GeneratedNames

namespace SchemaCompiler

namespace Value

def isOptionalText : Value → Bool
  | .null | .text _ => true
  | _ => false

theorem isOptionalText_iff {v : Value} : v.isOptionalText = true ↔ v = .null ∨ ∃ s, v = .text s := by
  cases v <;> simp [isOptionalText]

def isPlainKey : Value → Bool
  | .text s => s.toList.head? != some '_'
  | _ => false

theorem text_of_isPlainKey {v : Value} (h : v.isPlainKey = true) : ∃ s, v = .text s := by
  cases v with
  | text s => exact ⟨s, rfl⟩
  | _ => cases h

end Value

namespace Node

mutual

def wellFormed : Node → Bool
  | .optional a inner => a.description.isOptionalText && inner.wellFormed
  | .array a item => a.description.isOptionalText && item.wellFormed
  | .object a shape => a.description.isOptionalText && wellFormedShape shape
  | .enum a (.list _) => a.description.isOptionalText
  | .enum _ _ => false
  | .boolean a | .string a | .number a _ | .union a _ | .literal a _ | .date a | .any a =>
    a.description.isOptionalText
  | .plain v => v == .null

def wellFormedShape : List (Value × Node) → Bool
  | [] => true
  | (key, node) :: rest => key.isPlainKey && node.wellFormed && wellFormedShape rest

end

/-- What a compilation of a tree may fail with: reports on the tree, and an enum that cannot be made
since two of its values give one name, which opens with an underscore. -/
inductive MayFail (n : Node) : Failure → Prop
  | unsupportedKind (key : Value) (kind : Option Kind) : MayFail n (.unsupportedKind key kind)
  | duplicateType (name : Value) : MayFail n (.duplicateType name)
  | reserved {a : Annotations} {vs : List Value} (reached : n.Reaches (.enum a (.list vs)))
    (colliding : Naming.Colliding vs) : MayFail n (.misuse .reservedMemberName)

variable {n m : Node} {e : Failure}

theorem MayFail.of_reaches (hn : n.Reaches m) (h : m.MayFail e) : n.MayFail e := by
  cases h with
  | unsupportedKind key kind => exact .unsupportedKind key kind
  | duplicateType name => exact .duplicateType name
  | reserved reached colliding => exact .reserved (hn.trans reached) colliding

theorem wellFormedShape_iff {shape : List (Value × Node)} : wellFormedShape shape = true ↔
    ∀ f ∈ shape, f.1.isPlainKey = true ∧ f.2.wellFormed = true := by
  induction shape with
  | nil => simp [wellFormedShape]
  | cons f rest ih => simp [wellFormedShape, ih]

theorem fields_wellFormed {a : Annotations} {shape : List (Value × Node)}
    (h : (Node.object a shape).wellFormed = true) :
    ∀ f ∈ shape, f.1.isPlainKey = true ∧ f.2.wellFormed = true := by
  rw [wellFormed, Bool.and_eq_true] at h
  exact wellFormedShape_iff.mp h.2

theorem wellFormed_of_reaches (hm : n.Reaches m) (h : n.wellFormed = true) : m.wellFormed = true := by
  induction hm with
  | refl n => exact h
  | optional a _ ih =>
    rw [wellFormed, Bool.and_eq_true] at h
    exact ih h.2
  | array a _ ih =>
    rw [wellFormed, Bool.and_eq_true] at h
    exact ih h.2
  | field a hf _ ih => exact ih (fields_wellFormed h _ hf).2

theorem description_wellFormed (h : n.wellFormed = true) {a : Annotations} (ha : n.notes? = some a) :
    a.description.isOptionalText = true := by
  cases n with
  | plain v => cases ha
  | enum b values =>
    cases ha
    cases values with
    | list vs => exact h
    | _ => cases h
  | _ =>
    cases ha
    simp only [wellFormed, Bool.and_eq_true] at h
    simp only [h]

theorem values_wellFormed {a : Annotations} {values : Value} (h : (Node.enum a values).wellFormed = true) :
    ∃ vs, values = .list vs := by
  cases values with
  | list vs => exact ⟨vs, rfl⟩
  | _ => cases h

theorem plain_wellFormed {v : Value} (h : (Node.plain v).wellFormed = true) : v = .null := by
  simpa [wellFormed] using h

end Node

open Node

theorem titleOf_text {description : Value} (h : description.isOptionalText = true) :
    ∃ found, Naming.titleOf description = .ok found := by
  rcases Value.isOptionalText_iff.mp h with rfl | ⟨s, rfl⟩
  · exact ⟨none, rfl⟩
  · unfold Naming.titleOf
    split
    · exact ⟨_, rfl⟩
    · exact ⟨none, rfl⟩

theorem nameCheck_text {key description : Value} (hk : key.isPlainKey = true)
    (hd : description.isOptionalText = true) : nameCheck key description = .ok () := by
  obtain ⟨found, hfound⟩ := titleOf_text hd
  obtain ⟨s, rfl⟩ := Value.text_of_isPlainKey hk
  unfold nameCheck
  rw [hfound]
  cases found <;> rfl

theorem ofValue?_plainKey {key : Value} (h : key.isPlainKey = true) :
    ReservedKey.ofValue? key = none := by
  cases hk : ReservedKey.ofValue? key with
  | none => rfl
  | some part =>
    obtain ⟨s, rfl⟩ := Value.text_of_isPlainKey h
    have hopening := ReservedKey.opening (s := s) hk
    have hhead : s.toList.head? = some '_' := by
      have := congrArg List.head? hopening
      rwa [List.head?_take, if_neg (by decide)] at this
    simp [Value.isPlainKey, hhead] at h

theorem keysCheck_plain {shape : List (Value × Node)} (h : ∀ f ∈ shape, f.1.isPlainKey = true) :
    keysCheck shape = .ok () := by
  have hnone (part : ReservedKey) :
      ((shape.map (·.1)).any fun key => ReservedKey.ofValue? key = some part) = false := by
    rw [List.any_map, List.any_eq_false]
    intro f hf
    simp [ofValue?_plainKey (h f hf)]
  unfold keysCheck modelMisuse? classMisuse?
  simp only [hnone]
  rfl

section Fields

variable {n : Node} {key : Value} {e : Failure}

theorem fieldDefault_wellFormed (h : n.wellFormed = true) : ∃ v, n.fieldDefault = .ok v := by
  induction n using fieldDefault.induct with
  | case1 a inner hd => exact ⟨a.default, by rw [fieldDefault, if_pos hd]⟩
  | case2 a inner hd ih =>
    rw [fieldDefault, if_neg hd]
    exact ih (wellFormed_of_reaches (.optional a (.refl _)) h)
  | case3 => exact ⟨.null, rfl⟩
  | case4 n ho hp a ha =>
    refine ⟨a.default, ?_⟩
    rw [fieldDefault]
    · simp only [ha]
    · exact ho
    · exact hp
  | case5 n ho hp ha =>
    cases n with
    | plain v => exact absurd (congrArg Node.plain (plain_wellFormed h)) hp
    | _ => cases ha

theorem fieldDescription_wellFormed (h : n.wellFormed = true) :
    ∃ v, n.fieldDescription = .ok v ∧ v.isOptionalText = true := by
  induction n using fieldDescription.induct with
  | case1 a inner hd =>
    exact ⟨a.description, by rw [fieldDescription, if_pos hd], description_wellFormed h rfl⟩
  | case2 a inner hd ih =>
    rw [fieldDescription, if_neg hd]
    exact ih (wellFormed_of_reaches (.optional a (.refl _)) h)
  | case3 => exact ⟨.null, rfl, rfl⟩
  | case4 n ho hp a ha =>
    refine ⟨if a.description.truthy then a.description else .null, ?_, ?_⟩
    · rw [fieldDescription]
      · simp only [ha]
      · exact ho
      · exact hp
    · split
      · exact description_wellFormed h ha
      · rfl
  | case5 n ho hp ha =>
    cases n with
    | plain v => exact absurd (congrArg Node.plain (plain_wellFormed h)) hp
    | _ => cases ha

theorem enumCheck_list (hk : key.isPlainKey = true) {vs : List Value}
    (he : enumCheck key (.list vs) = .error e) :
    e = .misuse .reservedMemberName ∧ Naming.Colliding vs := by
  obtain ⟨s, rfl⟩ := Value.text_of_isPlainKey hk
  unfold enumCheck at he
  simp only [Naming.pascalCaseOf, Value.elements?, Outcome.ok_bind] at he
  split at he
  · rename_i hreserved
    cases he
    exact ⟨rfl, EnumType.colliding_of_hasReserved hreserved⟩
  · cases he

theorem leafCheck_wellFormed (h : n.wellFormed = true) (hk : key.isPlainKey = true)
    (he : leafCheck key n = .error e) : n.MayFail e := by
  have hreach := reaches_leaf n
  have hleaf := wellFormed_of_reaches hreach h
  unfold leafCheck at he
  split at he
  · rename_i a values hl
    rw [hl] at hleaf hreach
    obtain ⟨vs, rfl⟩ := values_wellFormed hleaf
    obtain ⟨rfl, hcolliding⟩ := enumCheck_list hk he
    exact .reserved hreach hcolliding
  · rename_i a shape hl
    rw [hl] at hleaf
    rw [nameCheck_text hk (description_wellFormed hleaf rfl),
      keysCheck_plain fun f hf => (fields_wellFormed hleaf f hf).1] at he
    cases he
  · cases he
  · cases he
  · cases he
  · rename_i v hl
    rw [hl] at hleaf
    rw [if_pos (.inl (plain_wellFormed hleaf))] at he
    cases he
    exact .unsupportedKind _ _
  · cases he
    exact .unsupportedKind _ _

theorem fieldCheck_wellFormed (h : n.wellFormed = true) (hk : key.isPlainKey = true)
    (he : fieldCheck (key, n) = .error e) : n.MayFail e := by
  obtain ⟨default, hdefault⟩ := fieldDefault_wellFormed h
  obtain ⟨description, hdescription, -⟩ := fieldDescription_wellFormed h
  unfold fieldCheck at he
  dsimp only at he
  cases hc : leafCheck key n with
  | error f =>
    rw [hc] at he
    cases he
    exact leafCheck_wellFormed h hk hc
  | ok u =>
    rw [hc, hdefault, hdescription] at he
    cases he

theorem faults_wellFormed {a : Annotations} {shape : List (Value × Node)}
    (h : (Node.object a shape).wellFormed = true) (he : Faults shape e) :
    (Node.object a shape).MayFail e := by
  rcases he with he | ⟨⟨key, node⟩, hf, he⟩
  · rw [keysCheck_plain fun f hf => (fields_wellFormed h f hf).1] at he
    cases he
  · obtain ⟨b, fields, hreach, hmem⟩ := reaches_of_mem_visits (.object a shape) hf
    obtain ⟨hkey, hnode⟩ := fields_wellFormed (wellFormed_of_reaches hreach h) _ hmem
    exact (fieldCheck_wellFormed hnode hkey he).of_reaches (hreach.trans (.field b hmem (.refl _)))

end Fields

end SchemaCompiler
