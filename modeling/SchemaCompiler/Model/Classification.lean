import SchemaCompiler.Model.FieldEnum

namespace SchemaCompiler

/-- What is known of one level of a field, which is the field itself or the items of its list: its
nullable marker, and whether an optional wrapper stands around it. -/
structure Level where
  nullable : Value := .bool false
  optional : Bool := false
deriving DecidableEq, Repr

def Level.marker (l : Level) : Value := l.nullable.orElse (.bool l.optional)

def Level.admitsNull (l : Level) : Bool := l.marker.truthy

/-- The classification of a field's node. The level of the items is there for lists only, and an
enum source as long as the enum type is open. -/
structure Classification where
  type : OutputType := .placeholder
  itself : Level := {}
  items : Option Level := none
  enumSource : Option EnumSource := none
deriving DecidableEq, Repr

namespace Classification

def ofType (type : OutputType) (notes : Annotations) : Classification where
  type
  itself := { nullable := notes.nullable }

def ofEnum (notes : Annotations) (values : Value) : Classification where
  itself := { nullable := notes.nullable }
  enumSource := some ⟨notes.description, values⟩

def optional (c : Classification) (notes : Annotations) : Classification :=
  { c with itself := { optional := true, nullable := c.itself.nullable.orElse notes.nullable } }

def array (item : Classification) (notes : Annotations) : Classification where
  type := .list item.type
  itself := { nullable := notes.nullable }
  items := some item.itself
  enumSource := item.enumSource

def itemsOnly (c : Classification) : Bool := c.items.any (·.admitsNull) && !c.itself.admitsNull

def nullability (c : Classification) : Nullability :=
  if c.itemsOnly then .items
  else if c.items.any (·.admitsNull) then .itemsAndList
  else .ofValue c.itself.marker

end Classification

def Kind.isField : Kind → Bool
  | .array | .boolean | .string | .number | .enum | .optional | .object => true
  | _ => false

namespace Node

def fieldDescription : Node → Except Failure Value
  | .optional a inner =>
    if a.description.truthy then .ok a.description else fieldDescription inner
  | .plain .null => .ok .null
  | n =>
    match n.notes? with
    | some a => .ok (if a.description.truthy then a.description else .null)
    | none => .error (.misuse .notNode)

def fieldDefault : Node → Except Failure Value
  | .optional a inner => if a.default ≠ .null then .ok a.default else fieldDefault inner
  | .plain .null => .ok .null
  | n =>
    match n.notes? with
    | some a => .ok a.default
    | none => .error (.misuse .notNode)

/-- The node that optional wrappers and arrays end in; a wrapper around a missing node is the end
itself. -/
def innermost : Node → Node
  | .optional a (.plain .null) => .optional a (.plain .null)
  | .array a (.plain .null) => .array a (.plain .null)
  | .optional _ inner => innermost inner
  | .array _ item => innermost item
  | n => n

end Node

end SchemaCompiler
