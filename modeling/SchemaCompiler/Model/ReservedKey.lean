import SchemaCompiler.Value.Basic

namespace SchemaCompiler

inductive ReservedKey where
  /-- The layout of instances; no class can be made. -/
  | layout
  /-- Names that a class must have as texts; no class can be made. -/
  | definition
  | source
  | description
  | documentation
  | home
  | fieldList
  | derivation
  | allocation
  | construction
  | printing
  | comparison
  | assignment
  | deletion
  | reading
  | fallback
  | storage
deriving DecidableEq, Repr

def ReservedKey.ofKey? : String → Option ReservedKey
  | "__slots__" => some .layout
  | "__qualname__" | "__classcell__" => some .definition
  | "__schema__" => some .source
  | "__model_description__" => some .description
  | "__doc__" => some .documentation
  | "__module__" => some .home
  | "__graphql_fields__" => some .fieldList
  | "__init_subclass__" => some .derivation
  | "__new__" => some .allocation
  | "__init__" => some .construction
  | "__repr__" => some .printing
  | "__eq__" => some .comparison
  | "__setattr__" => some .assignment
  | "__delattr__" => some .deletion
  | "__getattribute__" => some .reading
  | "__getattr__" => some .fallback
  | "__dict__" => some .storage
  | _ => none

def ReservedKey.ofValue? (key : Value) : Option ReservedKey := key.text?.bind ofKey?

end SchemaCompiler
