import SchemaCompiler.Failure

namespace SchemaCompiler

inductive Scalar where
  | boolean
  | string
  | float
  | int
deriving DecidableEq, Repr

def Scalar.name : Scalar → String
  | .boolean => "Boolean"
  | .string => "String"
  | .float => "Float"
  | .int => "Int"

def Scalar.all : List Scalar := [.boolean, .string, .float, .int]

def Scalar.ofName? (name : String) : Option Scalar := Scalar.all.find? (·.name == name)

structure EnumType where
  serial : Nat
  name : String
  members : List (String × Value)
  description : Value
deriving DecidableEq, Repr

structure ClassHandle where
  serial : Nat
  name : String
deriving DecidableEq, Repr

/-- The type of a field. A plain value is no type, and neither is anything else that is known by its
text; null is the place of an enum not yet built. -/
inductive OutputType where
  | scalar (s : Scalar)
  | list (item : OutputType)
  | enum (e : EnumType)
  | object (c : ClassHandle)
  | plain (v : Value)
  | thing (text : String)
deriving DecidableEq, Repr

namespace OutputType

def placeholder : OutputType := .plain .null

instance : Inhabited OutputType := ⟨placeholder⟩

def typeName : OutputType → Except Failure String
  | .scalar s => .ok s.name
  | .list item => (typeName item).map fun name => "[" ++ name ++ "]"
  | .enum e => .ok e.name
  | .object c => .ok c.name
  | .plain v => .error (.notOutputType v.literal)
  | .thing text => .error (.notOutputType text)

def leaf : OutputType → OutputType
  | .list item => leaf item
  | type => type

def depth : OutputType → Nat
  | .list item => depth item + 1
  | _ => 0

def fill (e : EnumType) : OutputType → OutputType
  | .list item => .list (fill e item)
  | .plain .null => .enum e
  | type => type

def isOpen (type : OutputType) : Bool := type.leaf = placeholder

def wrap : (lists : Nat) → OutputType → OutputType
  | 0, type => type
  | lists + 1, type => .list (wrap lists type)

end OutputType

/-- Where null may stand: nowhere, for the field itself, for the items of its list, or for both. Any
other value may stand for a policy, and says that null may stand nowhere. -/
inductive Nullability where
  | never
  | always
  | items
  | itemsAndList
  | other (v : Value)
deriving DecidableEq, Repr

namespace Nullability

def ofList : Nullability → Bool
  | .always | .itemsAndList => true
  | _ => false

def ofItems : Nullability → Bool
  | .items | .itemsAndList => true
  | _ => false

def ofValue : Value → Nullability
  | .bool false => .never
  | .bool true => .always
  | .text "items" => .items
  | .text "itemsAndList" => .itemsAndList
  | v => .other v

def toValue : Nullability → Value
  | .never => .bool false
  | .always => .bool true
  | .items => .text "items"
  | .itemsAndList => .text "itemsAndList"
  | .other v => v

def ofBool (nullable : Bool) : Nullability := if nullable then .always else .never

end Nullability

end SchemaCompiler
