import SchemaCompiler.Model.Class
import SchemaCompiler.Schema.Text
import SchemaCompiler.Value.Equality

/-!
Instances of model classes. An instance keeps the values that were set; a slot without a value
reads as null. What an instance has besides is read from its class, which here is always given
with what it inherits. An operation whose place a field took fails.
-/

namespace SchemaCompiler

abbrev Values := List (String × Value)

namespace Values

def erase (name : String) (values : Values) : Values := values.filter (·.1 ≠ name)

end Values

inductive CommonAttribute where
  | itsClass
  | values
  | references
deriving DecidableEq, Repr

def CommonAttribute.ofName? : String → Option CommonAttribute
  | "__class__" => some .itsClass
  | "__dict__" => some .values
  | "__weakref__" => some .references
  | _ => none

namespace ModelClass

def storageMisuse? (c : ModelClass) : Option Misuse :=
  if c.lacks .storage || c.lacks .reading then some .storageReplaced else none

/-- Why an operation fails whose place a slot took: what the slot holds cannot be carried out, if
it can be read at all. -/
def replacedMisuse (c : ModelClass) : Misuse := c.storageMisuse?.getD .operationReplaced

def baseNotes : Value :=
  .record [("__schema__", .text "ClassVar[ObjectNode]"),
    ("__model_description__", .text "ClassVar[str]"),
    ("__field_descriptors__", .text "ClassVar[list[FieldDescriptor]]")]

def baseAttribute? (c : ModelClass) (name : String) : Option Attribute :=
  match name with
  | "__hash__" => some (.value .null)
  | "__annotations__" => some (.value baseNotes)
  | "__init__" | "__eq__" | "__repr__" | "to_dict" => some (.operation name)
  | "fields" | "field_names" => some (.thing ((Attribute.operation name).text c.text))
  | _ => none

def classAttribute? (c : ModelClass) (name : String) : Option Attribute :=
  match name with
  | "__doc__" => some c.documentation
  | "__module__" => some c.home
  | "__schema__" => c.source.map fun n => .thing n.text
  | "__model_description__" => c.description
  | "__field_descriptors__" =>
    if c.isModel && c.slots.isEmpty then some (.value (.list [])) else none
  | _ => if c.isModel then c.baseAttribute? name else none

def readCommon (c : ModelClass) (values : Values) : CommonAttribute → Attribute
  | .itsClass => .thing c.text
  | .values => .value (.record values)
  | .references => .value .null

def readOther (c : ModelClass) (name : String) (values : Values) : Option Attribute :=
  match CommonAttribute.ofName? name, Value.valueAt? name values with
  | some common, _ => some (c.readCommon values common)
  | none, some v => some (.value v)
  | none, none => c.classAttribute? name

def read (c : ModelClass) (name : String) (values : Values) : Except Failure Attribute :=
  if c.lacks .reading then .error (.misuse .storageReplaced)
  else if (c.slot? name).isSome then
    match c.storageMisuse? with
    | some m => .error (.misuse m)
    | none => .ok (.value ((Value.valueAt? name values).getD .null))
  else match c.readOther name values with
    | some a => .ok a
    | none => .error (.misuse (if c.lacks .fallback then c.replacedMisuse else .missingAttribute))

def readItself (c : ModelClass) (name : String) : Except Failure Attribute :=
  match c.visibleSlot? name, name with
  | some s, _ => .ok (.slot s)
  | none, "__name__" | none, "__qualname__" => .ok (.value (.text c.name))
  | none, "__annotations__" => .ok (.value (.record []))
  | none, name =>
    match c.classAttribute? name with
    | some a => .ok a
    | none => .error (.misuse .missingAttribute)

def assignOther (name : String) (v : Value) (values : Values) : Except Failure Values :=
  match CommonAttribute.ofName? name, v with
  | some .values, .record entries => .ok entries
  | some .values, _ | some .itsClass, _ => .error (.misuse .attributeForm)
  | some .references, _ => .error (.misuse .fixedAttribute)
  | none, v => .ok (Value.putEntry name v values)

def assign (c : ModelClass) (name : String) (v : Value) (values : Values) :
    Except Failure Values :=
  if c.lacks .assignment then .error (.misuse c.replacedMisuse)
  else match c.slot? name, c.storageMisuse? with
    | some _, some m => .error (.misuse m)
    | some _, none => .ok (Value.putEntry name v values)
    | none, _ => assignOther name v values

def deleteOther (name : String) (values : Values) : Except Failure Values :=
  match CommonAttribute.ofName? name with
  | some .values => .ok []
  | some .itsClass => .error (.misuse .attributeForm)
  | some .references => .error (.misuse .fixedAttribute)
  | none =>
    if (Value.valueAt? name values).isSome then .ok (values.erase name)
    else .error (.misuse .missingAttribute)

def delete (c : ModelClass) (name : String) (values : Values) : Except Failure Values :=
  if c.lacks .deletion then .error (.misuse c.replacedMisuse)
  else match c.slot? name, c.storageMisuse? with
    | some _, some m => .error (.misuse m)
    | some _, none => .ok (values.erase name)
    | none, _ => deleteOther name values

def assignAll (c : ModelClass) : (given : Values) → Values → Except Failure Values
  | [], values => .ok values
  | (name, v) :: rest, values => do
    let values ← c.assign name v values
    c.assignAll rest values

def makingMisuse? (c : ModelClass) : Option Misuse :=
  if c.lacks .allocation then some .operationReplaced
  else if c.lacks .construction then some c.replacedMisuse
  else none

def construct (c : ModelClass) (given : Values) : Except Failure Values :=
  match c.makingMisuse? with
  | some m => .error (.misuse m)
  | none =>
    if !c.isModel then if given = [] then .ok [] else .error (.misuse .valuesGiven)
    else if given.any (·.1 == "self") then .error (.misuse .selfGiven)
    else if !c.fieldNames.all Value.isKey then .error (.misuse .notKey)
    else match (given.map (·.1)).filter (.text · ∉ c.fieldNames) with
      | [] => c.assignAll given []
      | unknown => .error (.unexpectedFields c.name unknown)

def readAll (c : ModelClass) (values : Values) :
    (names : List Value) → Except Failure (List (String × Attribute))
  | [] => .ok []
  | .text name :: rest => do
    let a ← c.read name values
    let others ← c.readAll values rest
    return (name, a) :: others
  | _ :: _ => .error (.misuse .nameNotText)

def fieldValues (c : ModelClass) (values : Values) : Except Failure (List (String × Attribute)) :=
  c.readAll values c.fieldNames.eraseDups

def fieldText (a : Attribute) : Except Failure String :=
  match a with
  | .operation _ => .error (.misuse .endlessText)
  | a => .ok (a.text "")

def plainText (c : ModelClass) : String := s!"<{c.name} object>"

/-- An instance as text, which shows no values unless its class is a model that can tell them. What
took the place of telling them cannot be carried out; if it cannot even be read, it is passed
over. -/
def instanceText (c : ModelClass) (values : Values) : Except Failure String := do
  if !c.isModel then return c.plainText
  if c.lacks .printing then
    if c.storageMisuse?.isSome then return c.plainText else throw (.misuse .operationReplaced)
  let pairs ← c.fieldValues values
  let shown ← pairs.mapM fun p => return p.1 ++ "=" ++ (← fieldText p.2)
  return c.name ++ "(" ++ ", ".intercalate shown ++ ")"

end ModelClass

def Attribute.same : Attribute → Attribute → Bool
  | .value v, .value w => v.same w
  | a, b => a = b

/-- Why a class cannot compare its instances, if it cannot. Where a slot took the place of comparing
but cannot be read, nothing is compared. -/
def ModelClass.comparisonMisuse? (c : ModelClass) : Option Misuse :=
  if c.lacks .comparison && c.storageMisuse?.isNone then some .operationReplaced else none

def sameInstance (c : ModelClass) (identical : Bool) (a b : Values) : Except Failure Bool :=
  match c.comparisonMisuse? with
  | some m => .error (.misuse m)
  | none =>
    if c.lacks .comparison then .ok identical
    else do
      let a ← c.fieldValues a
      let b ← c.fieldValues b
      return (a.zip b).all fun p => p.1.2.same p.2.2

/-- Whether things of two different classes are equal: they are not, but either class may have lost
its comparison. -/
def differentInstances (c d : ModelClass) : Except Failure Bool :=
  match c.comparisonMisuse? <|> d.comparisonMisuse? with
  | some m => .error (.misuse m)
  | none => .ok false

end SchemaCompiler
