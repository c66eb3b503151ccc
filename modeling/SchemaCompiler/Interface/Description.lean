import SchemaCompiler.Workspace

namespace SchemaCompiler

structure FieldDescription where
  key : Value
  type : String
  nullable : Nullability
  default : Value
  description : Value
deriving DecidableEq, Repr

structure ModelDescription where
  name : String
  description : Attribute
  fields : List FieldDescription
deriving DecidableEq, Repr

def Field.describe (f : Field) : Except Failure FieldDescription := do
  let type ← f.type.typeName
  return ⟨f.name, type, f.nullable, f.default, f.description.orElse (.text "")⟩

def ModelClass.describe (c : ModelClass) : Except Failure ModelDescription :=
  match c.description with
  | none => .error (.misuse .missingAttribute)
  | some description => do
    let fields ← c.fields.mapM Field.describe
    return ⟨c.name, description, fields⟩

def Attribute.toValue (c : String) : Attribute → Value
  | .value v => v
  | a => .text (a.text c)

def FieldDescription.toValue (f : FieldDescription) : Value :=
  .record [("key", f.key), ("type", .text f.type), ("nullable", f.nullable.toValue),
    ("defaultValue", f.default), ("description", f.description)]

def ModelDescription.toValue (m : ModelDescription) : Value :=
  .record [("name", .text m.name), ("description", m.description.toValue m.name),
    ("fields", .list (m.fields.map (·.toValue)))]

end SchemaCompiler
