import SchemaCompiler.Schema.Node
import SchemaCompiler.Value.Text

namespace SchemaCompiler

def Annotations.text (a : Annotations) : String :=
  s!"description={a.description.literal}, nullable={a.nullable.literal}, " ++
    s!"default={a.default.literal}, source_path={a.path.literal}"

namespace Node

mutual

def text : Node → String
  | .object a shape =>
    "ObjectNode(" ++ a.text ++ ", shape=\x7b" ++ ", ".intercalate (shapeTexts shape) ++ "\x7d)"
  | .array a item => s!"ArrayNode({a.text}, item={text item})"
  | .boolean a => s!"BooleanNode({a.text})"
  | .string a => s!"StringNode({a.text})"
  | .number a isInteger => s!"NumberNode({a.text}, is_integer={isInteger.literal})"
  | .enum a values => s!"EnumNode({a.text}, values={values.literal})"
  | .optional a inner => s!"OptionalNode({a.text}, inner={text inner})"
  | .union a variants =>
    "UnionNode(" ++ a.text ++ ", variants=[" ++ ", ".intercalate (texts variants) ++ "])"
  | .literal a value => s!"LiteralNode({a.text}, value={value.literal})"
  | .date a => s!"DateNode({a.text})"
  | .any a => s!"AnyNode({a.text})"
  | .plain v => v.literal

def texts : List Node → List String
  | [] => []
  | n :: rest => text n :: texts rest

def shapeTexts : List (Value × Node) → List String
  | [] => []
  | (key, n) :: rest => (key.literal ++ ": " ++ text n) :: shapeTexts rest

end

end Node

end SchemaCompiler
