import SchemaCompiler.Proofs.Model.Names

/-!
The names that a tree gives to its types. A title is the name of a model with a note whether it comes
from a sequence; the titles below a model follow from its own, and the definitions of a tree are its
models and enums in the order in which they are come upon.
-/

namespace SchemaCompiler

namespace Naming

def ownTitle? : Value → Option Titled
  | .text s => readColon [] s.toList
  | _ => none

def pascalKey : Value → String
  | .text s => pascalCase s
  | _ => ""

theorem pascalKey_of_ok {v : Value} {s : String} (h : pascalCaseOf v = .ok s) : pascalKey v = s := by
  cases v with
  | text t =>
    cases h
    rfl
  | _ =>
    unfold pascalCaseOf at h
    dsimp only at h
    split at h <;> cases h
    rfl

def titleOf (description : Value) : Except Failure (Option Titled) :=
  if description.truthy then ({} : Options).titled description else .ok none

theorem titleOf_ok {description : Value} {found : Option Titled} (h : titleOf description = .ok found) :
    ownTitle? description = found := by
  unfold titleOf Options.titled at h
  cases description with
  | text s =>
    by_cases hs : (Value.text s).truthy = true
    · rw [if_pos hs] at h
      cases h
      rfl
    · rw [if_neg hs] at h
      cases h
      obtain rfl : s = "" := by simpa [Value.truthy] using hs
      rfl
  | _ =>
    split at h <;> cases h
    rfl

theorem toUpper_ne_zero : ∀ n < 128, n ≠ 0 → (Char.ofNat n).toUpper ≠ '\x00' := by decide

theorem not_mem_pascalFrom (inWord : Bool) (s : List Char) : '\x00' ∉ pascalFrom inWord s := by
  induction s generalizing inWord with
  | nil => simp [pascalFrom]
  | cons c rest ih =>
    by_cases hc : c = '\x00'
    · subst hc
      exact ih false
    · have hupper : c.isLower = true → c.toUpper ≠ '\x00' := by
        intro hl
        have hle : c.toNat ≤ 122 := by
          change (decide (c.val ≥ 'a'.val) && decide (c.val ≤ 'z'.val)) = true at hl
          rw [Bool.and_eq_true, decide_eq_true_eq, decide_eq_true_eq] at hl
          exact UInt32.le_iff_toNat_le.mp hl.2
        have hne : c.toNat ≠ 0 := fun h => hc (by rw [← Char.ofNat_toNat c, h])
        have h := toUpper_ne_zero c.toNat (by omega) hne
        rwa [Char.ofNat_toNat] at h
      rw [pascalFrom]
      split
      · rename_i hl
        rw [List.mem_cons, not_or]
        refine ⟨?_, ih true⟩
        split
        · exact fun h => hc h.symm
        · exact fun h => hupper hl h.symm
      · split
        · exact List.not_mem_cons_of_ne_of_not_mem (fun h => hc h.symm) (ih true)
        · split
          · exact List.not_mem_cons_of_ne_of_not_mem (fun h => hc h.symm) (ih false)
          · exact ih false

theorem word_readColon {run cs : List Char} {t : Titled} (hrun : ∀ c ∈ run, Text.isWord c = true)
    (h : readColon run cs = some t) : ∀ c ∈ t.name.toList, Text.isWord c = true := by
  induction cs generalizing run with
  | nil => cases h
  | cons c rest ih =>
    rw [readColon] at h
    split at h
    · rename_i hc
      exact ih (List.forall_mem_cons.mpr ⟨hc, hrun⟩) h
    · split at h
      · cases h
        simpa using hrun
      · exact ih (List.forall_mem_nil _) h

end Naming

structure Title where
  name : String
  drawn : Bool := false
deriving DecidableEq, Repr

namespace Title

def nested (t : Title) (key description : Value) : Title :=
  match Naming.ownTitle? description with
  | some own => ⟨own.name, false⟩
  | none => ⟨t.name ++ Naming.pascalKey key, t.drawn⟩

def enumName (t : Title) (key : Value) : String :=
  (if t.drawn then "" else t.name) ++ Naming.pascalKey key ++ "Enum"

def Plain (t : Title) : Prop := '\x00' ∉ t.name.toList

theorem not_mem_pascalKey (key : Value) : '\x00' ∉ (Naming.pascalKey key).toList := by
  cases key with
  | text s =>
    rw [Naming.pascalKey, Naming.pascalCase, String.toList_ofList]
    exact Naming.not_mem_pascalFrom false s.toList
  | _ => simp [Naming.pascalKey]

theorem Plain.nested {t : Title} (h : t.Plain) (key description : Value) :
    (t.nested key description).Plain := by
  unfold Title.nested Plain
  split
  · rename_i own hown
    intro hmem
    cases description with
    | text s => exact absurd (Naming.word_readColon (List.forall_mem_nil _) hown _ hmem) (by decide)
    | _ => cases hown
  · rw [String.toList_append, List.mem_append, not_or]
    exact ⟨h, not_mem_pascalKey key⟩

theorem Plain.enumName {t : Title} (h : t.Plain) (key : Value) :
    '\x00' ∉ (t.enumName key).toList := by
  have hscope : '\x00' ∉ (if t.drawn then "" else t.name).toList := by
    split
    · simp
    · exact h
  rw [Title.enumName, String.toList_append, String.toList_append, List.mem_append, List.mem_append,
    not_or, not_or]
  exact ⟨⟨hscope, not_mem_pascalKey key⟩, by decide⟩

end Title

inductive Definition where
  | model (t : Title) (a : Annotations) (shape : List (Value × Node))
  | enum (t : Title) (key : Value) (a : Annotations) (values : Value)

namespace Definition

def name : Definition → String
  | .model t _ _ => t.name
  | .enum t key _ _ => t.enumName key

def members (values : Value) : List (String × Value) :=
  Naming.enumMembers (values.elements?.getD [])

end Definition

/-- Whether a type made by the first definition serves for the second one too. A model serves for the
object it was made of, unless a field of that object hides from the registry what it was: then not even a
second place of the same object is served. -/
def Definition.Agrees : Definition → Definition → Prop
  | .model _ a shape, .model _ b fields =>
    Node.object a shape = .object b fields ∧ hidesSource shape = false
  | .enum _ _ _ values, .enum _ _ _ others =>
    Value.sameRecord (members values) (members others) = true
  | _, _ => False

instance (d d' : Definition) : Decidable (d.Agrees d') :=
  match d, d' with
  | .model .., .model .. => inferInstanceAs (Decidable (_ ∧ _))
  | .enum .., .enum .. => inferInstanceAs (Decidable (_ = _))
  | .model .., .enum .. | .enum .., .model .. => inferInstanceAs (Decidable False)

def Clash (name : String) (defs : List Definition) : Prop :=
  ¬ defs.Pairwise fun d d' => d.name = name → d'.name = name → d.Agrees d'

mutual

def definitions (t : Title) (key : Value) : Node → List Definition
  | .optional _ inner => definitions t key inner
  | .array _ item => definitions t key item
  | .enum a values => [.enum t key a values]
  | .object a shape =>
    .model (t.nested key a.description) a shape ::
      definitionsOf (t.nested key a.description) shape
  | _ => []

def definitionsOf (t : Title) : List (Value × Node) → List Definition
  | [] => []
  | (key, node) :: rest => definitions t key node ++ definitionsOf t rest

end

theorem definitions_leaf (t : Title) (key : Value) (n : Node) :
    definitions t key n = definitions t key n.leaf := by
  induction n using Node.leaf.induct with
  | case1 a inner ih =>
    rw [definitions, Node.leaf]
    exact ih
  | case2 a item ih =>
    rw [definitions, Node.leaf]
    exact ih
  | case3 n ho ha =>
    rw [Node.leaf]
    · exact ho
    · exact ha

mutual

theorem sizeOf_definitions {t t' : Title} {b : Annotations} {fields : List (Value × Node)} (key : Value) :
    (n : Node) → .model t' b fields ∈ definitions t key n → sizeOf (Node.object b fields) ≤ sizeOf n
  | .optional a inner, h => by
    rw [definitions] at h
    have := sizeOf_definitions key inner h
    simp only [Node.optional.sizeOf_spec]
    omega
  | .array a item, h => by
    rw [definitions] at h
    have := sizeOf_definitions key item h
    simp only [Node.array.sizeOf_spec]
    omega
  | .object a shape, h => by
    rw [definitions] at h
    rcases List.mem_cons.mp h with h | h
    · cases h
      exact Nat.le_refl _
    · have := sizeOf_definitionsOf shape h
      simp only [Node.object.sizeOf_spec] at this ⊢
      omega
  | .enum a values, h => by
    rw [definitions] at h
    cases List.mem_singleton.mp h
  | .boolean _, h | .string _, h | .number _ _, h | .union _ _, h | .literal _ _, h | .date _, h
  | .any _, h | .plain _, h => by cases h

theorem sizeOf_definitionsOf {t t' : Title} {b : Annotations} {fields : List (Value × Node)} :
    (shape : List (Value × Node)) → .model t' b fields ∈ definitionsOf t shape →
    sizeOf (Node.object b fields) ≤ sizeOf shape
  | [], h => by cases h
  | (key, node) :: rest, h => by
    rw [definitionsOf] at h
    simp only [List.cons.sizeOf_spec, Prod.mk.sizeOf_spec]
    rcases List.mem_append.mp h with h | h
    · have := sizeOf_definitions key node h
      omega
    · have := sizeOf_definitionsOf rest h
      omega

end

def Definition.source : Definition → Node
  | .model _ a shape => .object a shape
  | .enum _ _ a values => .enum a values

mutual

theorem reaches_definition {t : Title} {d : Definition} (key : Value) : (n : Node) →
    d ∈ definitions t key n → n.Reaches d.source
  | .optional a inner, h => by
    rw [definitions] at h
    exact .optional a (reaches_definition key inner h)
  | .array a item, h => by
    rw [definitions] at h
    exact .array a (reaches_definition key item h)
  | .object a shape, h => by
    rw [definitions] at h
    rcases List.mem_cons.mp h with rfl | h
    · exact .refl _
    · obtain ⟨f, hf, hreach⟩ := reaches_definitionOf shape h
      exact .field a hf hreach
  | .enum a values, h => by
    rw [definitions] at h
    obtain rfl := List.mem_singleton.mp h
    exact .refl _
  | .boolean _, h | .string _, h | .number _ _, h | .union _ _, h | .literal _ _, h | .date _, h
  | .any _, h | .plain _, h => by cases h

theorem reaches_definitionOf {t : Title} {d : Definition} : (shape : List (Value × Node)) →
    d ∈ definitionsOf t shape → ∃ f ∈ shape, f.2.Reaches d.source
  | [], h => by cases h
  | (key, node) :: rest, h => by
    rw [definitionsOf] at h
    rcases List.mem_append.mp h with h | h
    · exact ⟨_, List.mem_cons_self .., reaches_definition key node h⟩
    · obtain ⟨f, hf, hreach⟩ := reaches_definitionOf rest h
      exact ⟨f, List.mem_cons_of_mem _ hf, hreach⟩

end

structure Options.Under (o : Options) (t : Title) : Prop where
  builder : o.builder = none
  enumName : o.enumName = none
  convention : o.convention = .colon
  name : o.name = .text t.name
  nonempty : t.name ≠ ""
  drawn : o.generatedName = t.drawn

def nameCheck (key description : Value) : Except Failure Unit := do
  match ← Naming.titleOf description with
  | some _ => return
  | none =>
    let _ ← Naming.pascalCaseOf key
    return

section Names

variable {o : Options} {t : Title}

theorem Options.Under.truthy (h : o.Under t) : o.name.truthy = true := by
  rw [h.name]
  simpa [Value.truthy] using h.nonempty

theorem Options.titled_colon (h : o.convention = .colon) (description : Value) :
    o.titled description = ({} : Options).titled description := by
  unfold Options.titled
  rw [h]

theorem nestedName_eq (h : o.Under t) (key description : Value) :
    nestedName o key description = (do
      match ← Naming.titleOf description with
      | some _ => return .null
      | none => return .text (t.name ++ (← Naming.pascalCaseOf key))) := by
  have hd : o.name.display = t.name := by
    rw [h.name]
    rfl
  unfold nestedName Naming.titleOf
  rw [h.truthy, if_neg (by simp), Options.titled_colon h.convention, hd]
  split <;> rfl

theorem nestedName_error (h : o.Under t) {key description : Value} {e : Failure}
    (he : nestedName o key description = .error e) : nameCheck key description = .error e := by
  rw [nestedName_eq h] at he
  unfold nameCheck
  cases ht : Naming.titleOf description with
  | error f =>
    rw [ht] at he
    cases he
    rfl
  | ok found =>
    rw [ht, Outcome.ok_bind] at he
    rw [Outcome.ok_bind]
    cases found with
    | some own => cases he
    | none =>
      dsimp only at he ⊢
      rcases Outcome.bind_eq_error_iff.mp he with he | ⟨own, -, he⟩
      · rw [he]
        rfl
      · cases he

theorem nestedName_ok (h : o.Under t) {key description name : Value}
    (hn : nestedName o key description = .ok name) :
    nameCheck key description = .ok () ∧ ∃ naming,
      statedName? { o with name } description = .ok (some naming) ∧
      naming.name = .text (t.nested key description).name ∧
      (naming.description = description ∨ ∃ s, naming.description = .text s) ∧
      (({ o with name } : Options).within naming).Under (t.nested key description) := by
  rw [nestedName_eq h] at hn
  unfold nameCheck
  obtain ⟨found, hfound, hn⟩ := Outcome.bind_eq_ok_iff.mp hn
  have hown := Naming.titleOf_ok hfound
  rw [hfound]
  cases found with
  | some own =>
    cases hn
    have hd : description.truthy = true := by
      cases hd : description.truthy with
      | true => rfl
      | false =>
        rw [Naming.titleOf, hd] at hfound
        cases hfound
    have htitled : o.titled description = .ok (some own) := by
      rw [Options.titled_colon h.convention, ← hfound, Naming.titleOf, if_pos hd]
    have hnonempty : own.name ≠ "" :=
      Naming.Convention.colon_name_ne_empty (h.convention ▸ Options.read_of_titled htitled)
    refine ⟨rfl, _, statedName?_of_title rfl hd htitled, ?_, .inr ⟨_, rfl⟩, ?_⟩
    · rw [Title.nested, hown]
    · rw [Title.nested, hown]
      exact ⟨h.builder, h.enumName, h.convention, rfl, hnonempty, by simp [Options.within, Value.truthy]⟩
  | none =>
    obtain ⟨own, hkey, hn⟩ := Outcome.bind_eq_ok_iff.mp hn
    cases hn
    -- With an empty name the options would have the model named by the description after all.
    have hnonempty : t.name ++ own ≠ "" := by simp [h.nonempty]
    have htruthy : (Value.text (t.name ++ own)).truthy = true := by simpa [Value.truthy] using hnonempty
    refine ⟨by simp [hkey], _, statedName?_of_name htruthy, ?_, .inl rfl, ?_⟩
    · rw [Title.nested, hown, Naming.pascalKey_of_ok hkey]
    · rw [Title.nested, hown, Naming.pascalKey_of_ok hkey]
      refine ⟨h.builder, h.enumName, h.convention, rfl, hnonempty, ?_⟩
      simp [Options.within, htruthy, h.drawn]

end Names

end SchemaCompiler
