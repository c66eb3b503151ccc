import SchemaCompiler.Model.ReservedKey
import SchemaCompiler.Types.OutputType

/-!
Model classes. A class made from a schema has a slot for every field; fields as the interface
shows them are attached to it, and may be attached to any class. A class has what it keeps itself
and what it inherits, where a nearer class hides what a farther one keeps under the same name.
-/

namespace SchemaCompiler

structure Slot where
  key : Value
  attr : Value
  kind : Kind
deriving DecidableEq, Repr

namespace Slot

def ofField (key : Value) (kind : Kind) : Slot := ⟨key, key, kind⟩

def part? (s : Slot) : Option ReservedKey := ReservedKey.ofValue? s.attr

def text (s : Slot) : String :=
  s!"SchemaProperty({s.key.literal}, kind={Text.quoted s.kind.name})"

end Slot

/-- What stands under a name of a class or an instance: a value, a slot that took its place,
something else by its text, or an operation of all models bound to the instance. -/
inductive Attribute where
  | value (v : Value)
  | slot (s : Slot)
  | thing (text : String)
  | operation (name : String)
deriving DecidableEq, Repr

namespace Attribute

def truthy : Attribute → Bool
  | .value v => v.truthy
  | _ => true

def text (bearer : String) : Attribute → String
  | .value v => v.literal
  | .slot s => s.text
  | .thing text => text
  | .operation name => s!"<bound method SchemaModel.{name} of {bearer}>"

end Attribute

structure Field where
  name : Value
  attr : Value
  type : OutputType
  nullable : Nullability := .never
  default : Value := .null
  description : Value := .null
deriving DecidableEq, Repr

inductive Ancestor where
  | modelBase
  | cls (serial : Nat)
deriving DecidableEq, Repr

/-- A class. The description is absent for classes that are not made from a schema. -/
structure ModelClass where
  name : String
  line : List Ancestor := []
  home : Attribute := .value (.text "__main__")
  source : Option Node := none
  description : Option Attribute := none
  documentation : Attribute := .value .null
  slots : List Slot := []
  fields : List Field := []
deriving DecidableEq, Repr

namespace ModelClass

def slot? (c : ModelClass) (attr : String) : Option Slot :=
  c.slots.find? (·.attr = .text attr)

def replacement? (c : ModelClass) (part : ReservedKey) : Option Slot :=
  c.slots.find? (·.part? = some part)

def lacks (c : ModelClass) (part : ReservedKey) : Bool := (c.replacement? part).isSome

def isModel (c : ModelClass) : Bool := .modelBase ∈ c.line

def text (c : ModelClass) : String :=
  match c.home with
  | .value (.text home) => s!"<class '{home}.{c.name}'>"
  | _ => s!"<class '{c.name}'>"

/-- Names that a class answers for itself, so that a slot under them is not seen through it. -/
def answeredNames : List String :=
  ["__base__", "__bases__", "__basicsize__", "__class__", "__dict__", "__dictoffset__",
    "__flags__", "__itemsize__", "__mro__", "__name__", "__text_signature__",
    "__weakrefoffset__"]

def visibleSlot? (c : ModelClass) (attr : String) : Option Slot :=
  if attr ∈ answeredNames then none else c.slot? attr

def fieldNames (c : ModelClass) : List Value := c.fields.map (·.name)

def attach (c : ModelClass) (f : Field) : ModelClass := { c with fields := c.fields ++ [f] }

def ownNames (c : ModelClass) : List String :=
  c.slots.filterMap (·.attr.text?) ++ ["__module__", "__doc__"] ++
    (if c.description.isSome then
      ["__schema__", "__model_description__", "__field_descriptors__"]
    else []) ++
    (if c.line.isEmpty then ["__dict__", "__weakref__"] else [])

/-- The class with what it inherits from the given classes, nearest first, where the names in
`hidden` are taken by nearer ones. Module, documentation and fields are never inherited. -/
def inherit (hidden : List String) (c : ModelClass) : List ModelClass → ModelClass
  | [] => c
  | d :: rest =>
    let source := if "__schema__" ∈ hidden then c.source else d.source
    let description := if "__model_description__" ∈ hidden then c.description else d.description
    let slots := c.slots ++ d.slots.filter (·.attr.text?.all (· ∉ hidden))
    inherit (hidden ++ d.ownNames) { c with source, description, slots } rest

theorem fields_inherit (hidden : List String) (c : ModelClass) (ds : List ModelClass) :
    (c.inherit hidden ds).fields = c.fields := by
  induction ds generalizing hidden c with
  | nil => rfl
  | cons d rest ih => exact ih _ _

end ModelClass

end SchemaCompiler
