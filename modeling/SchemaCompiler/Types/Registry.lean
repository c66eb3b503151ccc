import SchemaCompiler.Types.OutputType
import SchemaCompiler.Value.Key

namespace SchemaCompiler

inductive NamedType where
  | enum (e : EnumType)
  | object (c : ClassHandle)
deriving DecidableEq, Repr

def NamedType.toOutput : NamedType → OutputType
  | .enum e => .enum e
  | .object c => .object c

def NamedType.name : NamedType → String
  | .enum e => e.name
  | .object c => c.name

structure Registry.Entry where
  name : Key
  type : NamedType
  description : Value
deriving DecidableEq, Repr

structure Registry where
  entries : List Registry.Entry := []
deriving DecidableEq, Repr, Inhabited

namespace Registry

def named? (r : Registry) (name : Key) : Option Entry := r.entries.find? (·.name == name)

def get? (r : Registry) (name : Key) : Option NamedType := (r.named? name).map (·.type)

def description (r : Registry) (name : Key) : Value :=
  ((r.named? name).map (·.description)).getD .null

def add (r : Registry) (e : Entry) : Registry := ⟨r.entries ++ [e]⟩

def types (r : Registry) : List NamedType := r.entries.map (·.type)

def enums (r : Registry) : List EnumType :=
  r.types.filterMap fun
    | .enum e => some e
    | .object _ => none

def objects (r : Registry) : List ClassHandle :=
  r.types.filterMap fun
    | .object c => some c
    | .enum _ => none

theorem get?_add_same {r : Registry} {e : Entry} (h : r.get? e.name = none) :
    (r.add e).get? e.name = some e.type := by
  simp only [get?, named?, add, Option.map_eq_none_iff] at *
  simp [List.find?_append, h]

theorem get?_add_of_some {r : Registry} {e : Entry} {name : Key} {t : NamedType}
    (h : r.get? name = some t) : (r.add e).get? name = some t := by
  simp only [get?, named?, add, Option.map_eq_some_iff] at *
  obtain ⟨a, ha, rfl⟩ := h
  exact ⟨a, by simp [List.find?_append, ha], rfl⟩

theorem get?_add_other {r : Registry} {e : Entry} {name : Key} (h : name ≠ e.name) :
    (r.add e).get? name = r.get? name := by
  simp [get?, named?, add, List.find?_append, Ne.symm h]

end Registry

structure EnumMemo where
  entries : List ((Key × Key) × EnumType) := []
deriving DecidableEq, Repr, Inhabited

namespace EnumMemo

def get? (m : EnumMemo) (key : Key × Key) : Option EnumType := m.entries.lookup key

def putIn (key : Key × Key) (e : EnumType) :
    List ((Key × Key) × EnumType) → List ((Key × Key) × EnumType)
  | [] => [(key, e)]
  | (k, f) :: rest => if k = key then (k, e) :: rest else (k, f) :: putIn key e rest

def put (m : EnumMemo) (key : Key × Key) (e : EnumType) : EnumMemo := ⟨putIn key e m.entries⟩

def size (m : EnumMemo) : Nat := m.entries.length

theorem get?_put_same (m : EnumMemo) (key : Key × Key) (e : EnumType) :
    (m.put key e).get? key = some e := by
  obtain ⟨entries⟩ := m
  simp only [get?, put]
  induction entries with
  | nil => simp [putIn]
  | cons x rest ih =>
    obtain ⟨k, f⟩ := x
    by_cases h : k = key
    · simp [putIn, h]
    · simp [putIn, h, List.lookup_cons, beq_eq_false_iff_ne.2 (Ne.symm h), ih]

theorem get?_put_other (m : EnumMemo) {key other : Key × Key} (e : EnumType)
    (h : other ≠ key) : (m.put key e).get? other = m.get? other := by
  obtain ⟨entries⟩ := m
  simp only [get?, put]
  induction entries with
  | nil => simp [putIn, List.lookup_cons, beq_eq_false_iff_ne.2 h]
  | cons x rest ih =>
    obtain ⟨k, f⟩ := x
    by_cases hk : k = key
    · subst hk
      simp [putIn, List.lookup_cons, beq_eq_false_iff_ne.2 h]
    · rw [putIn, if_neg hk, List.lookup_cons, List.lookup_cons, ih]

end EnumMemo

end SchemaCompiler
