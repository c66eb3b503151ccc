import SchemaCompiler.Proofs.Model.Visits
import SchemaCompiler.Proofs.Operations

namespace SchemaCompiler

namespace Decimal

theorem magnitudeText_ne_nil (style : Style) (m : Nat) (e : Int) : magnitudeText style m e ≠ [] := by
  unfold magnitudeText
  extract_lets s
  split
  extract_lets point
  split
  · unfold positional
    split
    · simp
    · extract_lets n
      split <;> simp
  · simp [scientific]

theorem text_ne_empty (x : Binary64) : text .plain x ≠ "" := by
  cases x with
  | nan => decide
  | infinity negative => cases negative <;> decide
  | finite negative m e =>
    have hsize : (if m = 0 then ['0', '.', '0'] else magnitudeText .plain m e) ≠ [] := by
      split
      · simp
      · exact magnitudeText_ne_nil _ _ _
    cases negative with
    | false => simpa [text] using hsize
    | true => simp [text]

end Decimal

namespace Value

theorem literal_ne_empty (v : Value) : v.literal ≠ "" := by
  cases v with
  | null => decide
  | bool b => cases b <;> decide
  | int i =>
    cases i with
    | ofNat n => exact Nat.repr_ne_empty
    | negSucc n => simp [literal, Int.repr]
  | float x => exact Decimal.text_ne_empty x
  | text s => simp [literal, Text.quoted]
  | list items => simp [literal]
  | record entries => simp [literal]

theorem display_ne_empty {v : Value} (h : v.truthy = true) : v.display ≠ "" := by
  cases v with
  | text s => simpa [truthy, display] using h
  | _ => exact literal_ne_empty _

end Value

namespace Naming

theorem readColon_name_ne_empty {run cs : List Char} {t : Titled} (h : readColon run cs = some t) :
    t.name ≠ "" := by
  induction cs generalizing run with
  | nil => cases h
  | cons c rest ih =>
    rw [readColon] at h
    split at h
    · exact ih h
    · split at h
      · rename_i hrun
        cases h
        simpa using hrun.2
      · exact ih h

theorem Convention.colon_name_ne_empty {v : Value} {t : Titled}
    (h : Convention.colon.read v = .ok (some t)) : t.name ≠ "" := by
  cases v with
  | text s => exact readColon_name_ne_empty (Except.ok.inj h)
  | _ => cases h

end Naming

/-- No object in the node has a description in which the convention reads the empty name. -/
def Node.NamedBy (c : Naming.Convention) (n : Node) : Prop :=
  ∀ a shape, n.Reaches (.object a shape) → ∀ t, c.read a.description = .ok (some t) → t.name ≠ ""

theorem Node.namedBy_colon (n : Node) : n.NamedBy .colon :=
  fun _ _ _ _ => Naming.Convention.colon_name_ne_empty

def Node.EachDescription (P : Value → Prop) (n : Node) : Prop :=
  ∀ a shape, n.Reaches (.object a shape) → P a.description

section EachDescription

variable {P : Value → Prop} {a : Annotations} {n : Node}

theorem Node.eachDescription_optional :
    (Node.optional a n).EachDescription P ↔ n.EachDescription P := by
  refine ⟨fun h b shape hr => h b shape (.optional a hr), fun h b shape hr => ?_⟩
  cases hr with
  | optional _ hr => exact h b shape hr

theorem Node.eachDescription_array : (Node.array a n).EachDescription P ↔ n.EachDescription P := by
  refine ⟨fun h b shape hr => h b shape (.array a hr), fun h b shape hr => ?_⟩
  cases hr with
  | array _ hr => exact h b shape hr

theorem Node.eachDescription_object {shape : List (Value × Node)} :
    (Node.object a shape).EachDescription P ↔
      P a.description ∧ ∀ f ∈ shape, f.2.EachDescription P := by
  constructor
  · intro h
    exact ⟨h a shape (.refl _), fun f hf b fields hr => h b fields (.field a hf hr)⟩
  · rintro ⟨hroot, hfields⟩ b fields hr
    cases hr with
    | refl => exact hroot
    | field _ hf hr => exact hfields _ hf b fields hr

end EachDescription

variable {o : Options} {key description : Value}

theorem nestedName_cases {description name : Value} (hn : o.name.truthy = true)
    (h : nestedName o key description = .ok name) :
    (description.truthy = true ∧ (∃ t, o.titled description = .ok (some t)) ∧ name = .null) ∨
      ∃ own, name = .text (o.name.display ++ own) := by
  have hplain : (do return Value.text (o.name.display ++ (← Naming.pascalCaseOf key)) :
      Except Failure Value) = .ok name → ∃ own, name = .text (o.name.display ++ own) := by
    intro h
    obtain ⟨own, _, h⟩ := Outcome.bind_eq_ok_iff.mp h
    cases h
    exact ⟨own, rfl⟩
  unfold nestedName at h
  rw [hn] at h
  by_cases hd : description.truthy = true
  · rw [if_neg (by simp), if_pos hd] at h
    obtain ⟨found, hf, h⟩ := Outcome.bind_eq_ok_iff.mp h
    cases found with
    | some t =>
      cases h
      exact .inl ⟨hd, ⟨t, hf⟩, rfl⟩
    | none => exact .inr (hplain h)
  · rw [if_neg (by simp), if_neg hd] at h
    exact .inr (hplain h)

theorem Options.read_of_titled {description : Value} {t : Naming.Titled}
    (h : o.titled description = .ok (some t)) : o.convention.read description = .ok (some t) := by
  unfold Options.titled at h
  split at h
  · rename_i hread
    cases h
    exact hread
  · cases h

theorem statedName?_of_name {description : Value} (hn : o.name.truthy = true) :
    statedName? o description = .ok (some { name := o.name, description }) := by
  rw [statedName?, if_pos hn]

theorem statedName?_of_title {description : Value} {t : Naming.Titled} (hn : o.name.truthy = false)
    (hd : description.truthy = true) (h : o.titled description = .ok (some t)) :
    statedName? o description =
      .ok (some { name := .text t.name, description := .text t.description }) := by
  rw [statedName?, if_neg (by simp [hn]), if_pos hd, h]
  rfl

theorem statedName?_nested {description name : Value} (hn : o.name.truthy = true)
    (hv : ∀ t, o.convention.read description = .ok (some t) → t.name ≠ "")
    (h : nestedName o key description = .ok name) :
    ∃ naming, statedName? { o with name } description = .ok (some naming) ∧
      naming.name.truthy = true := by
  rcases nestedName_cases hn h with ⟨hd, ⟨t, ht⟩, rfl⟩ | ⟨own, rfl⟩
  · have hname : (Value.text t.name).truthy = true := by
      simpa [Value.truthy] using hv t (Options.read_of_titled ht)
    exact ⟨_, statedName?_of_title rfl hd ht, hname⟩
  · have hname : (Value.text (o.name.display ++ own)).truthy = true := by
      simp [Value.truthy, Value.display_ne_empty hn]
    exact ⟨_, statedName?_of_name hname, hname⟩

end SchemaCompiler
