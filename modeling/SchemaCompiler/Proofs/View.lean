import Mathlib.Data.List.Basic
import SchemaCompiler.Proofs.Reachable

namespace SchemaCompiler

def NamedType.anonymous : NamedType → NamedType
  | .enum e => .enum { e with serial := 0 }
  | .object c => .object { c with serial := 0 }

section Renaming

variable (ρ : NamedType → NamedType)

def OutputType.rename : OutputType → OutputType
  | .list item => .list (rename item)
  | .enum e => (ρ (.enum e)).toOutput
  | .object c => (ρ (.object c)).toOutput
  | type => type

def Field.rename (f : Field) : Field := { f with type := f.type.rename ρ }

def ModelClass.rename (m : ModelClass) : ModelClass :=
  { m with fields := m.fields.map (Field.rename ρ) }

def Classification.rename (c : Classification) : Classification := { c with type := c.type.rename ρ }

def CompiledField.rename (f : CompiledField) : CompiledField := { f with type := f.type.rename ρ }

theorem OutputType.isOpen_rename (type : OutputType) : (type.rename ρ).isOpen = type.isOpen := by
  have hnamed (n : NamedType) : n.toOutput.isOpen = false := by cases n <;> rfl
  induction type with
  | list item ih => exact ih
  | enum e => exact hnamed _
  | object c => exact hnamed _
  | _ => rfl

theorem classOf_rename (name : String) (description : Value) (source : Node)
    (fields : List CompiledField) :
    (classOf name description source fields).rename ρ =
      classOf name description source (fields.map (CompiledField.rename ρ)) := by
  have hslots : (fields.map (CompiledField.rename ρ)).map (·.slot) = fields.map (·.slot) := by
    rw [List.map_map]
    rfl
  have hfields : (fields.map (CompiledField.rename ρ)).map (·.toField) =
      (fields.map (·.toField)).map (Field.rename ρ) := by
    rw [List.map_map, List.map_map]
    rfl
  unfold classOf ModelClass.rename
  rw [hslots, hfields]

end Renaming

theorem NamedType.name_anonymous (n : NamedType) : n.anonymous.name = n.name := by cases n <;> rfl

theorem OutputType.fill_anonymous (e : EnumType) (type : OutputType) :
    (type.fill e).rename NamedType.anonymous =
      (type.rename NamedType.anonymous).fill { e with serial := 0 } := by
  induction type with
  | list item ih => exact congrArg OutputType.list ih
  | plain v => cases v <;> rfl
  | _ => rfl

variable {registry sequence : Key} {w v : Workspace}

theorem whole?_of_classes (hc : Coherent v) (hp : v.classes <+: w.classes) {c : ClassHandle}
    (hlt : c.serial < v.classes.length) : w.whole? c = v.whole? c := by
  have hkept (i : Nat) (hi : i < v.classes.length) : w.classes[i]? = v.classes[i]? := by
    obtain ⟨rest, hr⟩ := hp
    rw [← hr, List.getElem?_append_left hi]
  rw [Workspace.whole?, Workspace.whole?, Workspace.class?, Workspace.class?, hkept _ hlt,
    List.getElem?_eq_getElem hlt, Option.map_some, Option.map_some]
  congr 2
  apply List.filterMap_congr
  intro a ha
  cases a with
  | modelBase => rfl
  | cls serial => exact hkept serial (hc.lines _ (List.getElem_mem hlt) serial ha)

namespace Workspace

/-- What a state shows of a type: the type without its number, and its class if it is one. -/
def shown (w : Workspace) (t : NamedType) : NamedType × Option ModelClass :=
  (t.anonymous, match t with
    | .enum _ => none
    | .object c => (w.whole? c).map (ModelClass.rename NamedType.anonymous))

def view (w : Workspace) (registry : Key) : List (Key × Value × NamedType × Option ModelClass) :=
  (w.registries registry).entries.map fun x => (x.name, x.description, w.shown x.type)

theorem view_of_classes (hc : Coherent v) (hr : w.registries registry = v.registries registry)
    (hp : v.classes <+: w.classes) : w.view registry = v.view registry := by
  unfold view
  rw [hr]
  apply List.map_congr_left
  intro x hx
  unfold shown
  cases ht : x.type with
  | enum e => rfl
  | object c =>
    dsimp only
    rw [whole?_of_classes hc hp (hc.made registry x hx c ht)]

theorem view_add (w : Workspace) (registry : Key) (x : Registry.Entry) :
    (w.setRegistry registry ((w.registries registry).add x)).view registry =
      w.view registry ++ [(x.name, x.description, w.shown x.type)] := by
  simp only [view, setRegistry, update_same, Registry.add, List.map_append, List.map_cons, List.map_nil]
  rfl

theorem shown_get? (h : w.view registry = v.view registry) (name : Key) :
    ((w.registries registry).get? name).map w.shown = ((v.registries registry).get? name).map v.shown := by
  have hfind (u : Workspace) : ((u.registries registry).get? name).map u.shown =
      ((u.view registry).find? (·.1 == name)).map (·.2.2) := by
    rw [view, List.find?_map, Option.map_map, Registry.get?, Registry.named?, Option.map_map]
    rfl
  rw [hfind, hfind, h]

end Workspace

inductive Twins (w v : Workspace) : Option NamedType → Option NamedType → Prop
  | none : Twins w v none none
  | enum (e f : EnumType) (name : e.name = f.name) (members : e.members = f.members)
    (description : e.description = f.description) : Twins w v (some (.enum e)) (some (.enum f))
  | object (c d : ClassHandle) (name : c.name = d.name)
    (model : (w.whole? c).map (ModelClass.rename NamedType.anonymous) =
      (v.whole? d).map (ModelClass.rename NamedType.anonymous)) :
    Twins w v (some (.object c)) (some (.object d))

theorem twins_of_shown {a b : Option NamedType} (h : a.map w.shown = b.map v.shown) : Twins w v a b := by
  cases a with
  | none =>
    rw [Option.map_eq_none_iff.mp h.symm]
    exact .none
  | some a =>
    cases b with
    | none => cases h
    | some b =>
      obtain ⟨ht, hm⟩ := Prod.mk.inj (Option.some.inj h)
      cases a with
      | enum e =>
        cases b with
        | enum f =>
          simp only [NamedType.anonymous, NamedType.enum.injEq, EnumType.mk.injEq] at ht
          exact .enum e f ht.2.1 ht.2.2.1 ht.2.2.2
        | object d => cases ht
      | object c =>
        cases b with
        | enum f => cases ht
        | object d =>
          simp only [NamedType.anonymous, NamedType.object.injEq, ClassHandle.mk.injEq] at ht
          exact .object c d ht.2 hm

/-- Two states that show the same of a registry and have come equally far in a sequence. -/
structure Indistinct (registry sequence : Key) (w v : Workspace) : Prop where
  left : Coherent w
  right : Coherent v
  view : w.view registry = v.view registry
  sequence : w.sequences sequence = v.sequences sequence

theorem Indistinct.twins (h : Indistinct registry sequence w v) (name : Key) :
    Twins w v ((w.registries registry).get? name) ((v.registries registry).get? name) :=
  twins_of_shown (Workspace.shown_get? h.view name)

inductive EndAlike {α β : Type} (registry sequence : Key) (look : α → β) :
    EStateM.Result Failure Workspace α → EStateM.Result Failure Workspace α → Prop
  | ok (a b : α) (w v : Workspace) (same : look a = look b) (states : Indistinct registry sequence w v) :
    EndAlike registry sequence look (.ok a w) (.ok b v)
  | error (e : Failure) (w v : Workspace) (states : Indistinct registry sequence w v) :
    EndAlike registry sequence look (.error e w) (.error e v)

namespace EndAlike

variable {α β γ δ : Type} {look : α → β} {glance : γ → δ}

theorem bind {x y : Work α} {f g : α → Work γ} (h : EndAlike registry sequence look (x w) (y v))
    (k : ∀ a b w' v', look a = look b → Indistinct registry sequence w' v' →
      EndAlike registry sequence glance (f a w') (g b v')) :
    EndAlike registry sequence glance ((x >>= f) w) ((y >>= g) v) := by
  rw [Work.bind_apply, Work.bind_apply]
  generalize x w = rx at h
  generalize y v = ry at h
  cases h with
  | ok a b w' v' same states => exact k a b w' v' same states
  | error e w' v' states => exact .error e w' v' states

theorem ofExcept_bind (x : Except Failure α) {f g : α → Work γ}
    (h : Indistinct registry sequence w v)
    (k : ∀ a, x = .ok a → EndAlike registry sequence glance (f a w) (g a v)) :
    EndAlike registry sequence glance ((Work.ofExcept x >>= f) w) ((Work.ofExcept x >>= g) v) := by
  cases x with
  | ok a => exact k a rfl
  | error e => exact .error e w v h

end EndAlike

end SchemaCompiler
