import SchemaCompiler.Model.Class
import SchemaCompiler.Types.EnumRules
import SchemaCompiler.Types.Registry

/-!
The state that compilations share: registries, enum memos and name sequences, each under a key
of its own and empty until first used, and the classes and enums made so far. Work on the state
may fail, and what was changed before the failure stays changed.
-/

namespace SchemaCompiler

inductive Event where
  | enumRegistered (name : String) (members : List String)
  | enumBuilt (name key : String)
  | objectRegistered (name : String)
  | modelSynthesized (name : String) (keys : List Value)
deriving DecidableEq, Repr

def Event.line : Event → String
  | .enumRegistered name members =>
    s!"DEBUG schema_to_model.host.registry: Registered enum type {name} with members " ++
      (Value.list (members.map .text)).literal
  | .enumBuilt name key =>
    s!"DEBUG schema_to_model.compiler.enum_registry: Built enum type {name} for field {key}"
  | .objectRegistered name => s!"DEBUG schema_to_model.host.registry: Registered object type {name}"
  | .modelSynthesized name keys =>
    s!"DEBUG schema_to_model.model_factory: Synthesized model {name} with fields " ++
      (Value.list keys).literal

def update {α β : Type} [DecidableEq α] (f : α → β) (a : α) (b : β) : α → β :=
  fun x => if x = a then b else f x

@[simp] theorem update_same {α β : Type} [DecidableEq α] (f : α → β) (a : α) (b : β) :
    update f a b a = b := by simp [update]

@[simp] theorem update_of_ne {α β : Type} [DecidableEq α] (f : α → β) {a x : α} (b : β)
    (h : x ≠ a) : update f a b x = f x := by simp [update, h]

/-- The shared state. The serial number of a class is its position in `classes`. -/
structure Workspace where
  registries : Key → Registry := fun _ => {}
  memos : Key → EnumMemo := fun _ => {}
  sequences : Key → Value := fun _ => .int 0
  classes : List ModelClass := []
  enumCount : Nat := 0
  requests : List Value := []
  events : List Event := []

abbrev Work := EStateM Failure Workspace

namespace Work

def misuse {α : Type} (m : Misuse) : Work α := throw (.misuse m)

def ofExcept {α : Type} : Except Failure α → Work α
  | .ok a => pure a
  | .error e => throw e

def report (e : Event) : Work Unit := modify fun w => { w with events := w.events ++ [e] }

end Work

namespace Workspace

def class? (w : Workspace) (c : ClassHandle) : Option ModelClass := w.classes[c.serial]?

def setRegistry (w : Workspace) (id : Key) (r : Registry) : Workspace :=
  { w with registries := update w.registries id r }

def setMemo (w : Workspace) (id : Key) (m : EnumMemo) : Workspace :=
  { w with memos := update w.memos id m }

def setSequence (w : Workspace) (id : Key) (n : Value) : Workspace :=
  { w with sequences := update w.sequences id n }

end Workspace

open Work

def nextInSequence (id : Key) : Work Value := do
  let n := (← get).sequences id
  match n.next? with
  | some next =>
    modify fun w => w.setSequence id next
    return n
  | none => misuse .notNumber

def addClass (c : ModelClass) : Work ClassHandle := do
  let w ← get
  set { w with classes := w.classes ++ [c] }
  return ⟨w.classes.length, c.name⟩

def registeredAs (registry : Key) (name : Value) : Work (Option NamedType) := do
  let some key := name.key? | misuse .notKey
  return ((← get).registries registry).get? key

def makeEnum (name : Value) (members : List (String × Value)) (description : Value) :
    Work EnumType := do
  match name, EnumType.misuse? name members with
  | .text s, none =>
    let w ← get
    set { w with enumCount := w.enumCount + 1 }
    return ⟨w.enumCount, s, members, description⟩
  | _, some m => misuse m
  | _, none => misuse .nameNotText

def registerEnum (registry : Key) (name : Value) (members : List (String × Value))
    (description : Value) : Work EnumType := do
  match ← registeredAs registry name with
  | some (.enum e) =>
    if Value.sameRecord e.members members then return e else throw (.duplicateType name)
  | some (.object _) => throw (.duplicateType name)
  | none =>
    let e ← makeEnum name members description
    modify fun w =>
      w.setRegistry registry ((w.registries registry).add ⟨.text e.name, .enum e, description⟩)
    report (.enumRegistered e.name (members.map (·.1)))
    return e

def registerEntries (registry : Key) (name : Value) (entries : List (Value × Value))
    (description : Value) : Work EnumType := do
  let members := EnumType.textNamed entries
  if members.length = entries.length then registerEnum registry name members description
  else if (← registeredAs registry name).isSome then throw (.duplicateType name)
  else misuse (EnumType.unnamedMisuse name entries)

def registerObject (registry : Key) (name : Value) (c : ClassHandle) (description : Value) :
    Work ClassHandle := do
  let some key := name.key? | misuse .notKey
  match ((← get).registries registry).get? key with
  | some (.object d) => if d.serial = c.serial then return c else throw (.duplicateType name)
  | some (.enum _) => throw (.duplicateType name)
  | none =>
    modify fun w =>
      w.setRegistry registry ((w.registries registry).add ⟨key, .object c, description⟩)
    report (.objectRegistered name.display)
    return c

def attachField (c : ClassHandle) (f : Field) : Work Unit :=
  modify fun w => { w with classes := w.classes.modify c.serial (·.attach f) }

def clearRegistry (id : Key) : Work Unit := modify fun w => w.setRegistry id {}

def clearMemo (id : Key) : Work Unit := modify fun w => w.setMemo id {}

end SchemaCompiler
