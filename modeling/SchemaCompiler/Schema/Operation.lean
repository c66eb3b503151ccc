import SchemaCompiler.Failure

namespace SchemaCompiler.Node

def ownParts : Node → List String
  | .object .. => ["shape"]
  | .array .. => ["item"]
  | .number .. => ["is_integer"]
  | .enum .. => ["values"]
  | .optional .. => ["inner"]
  | .union .. => ["variants"]
  | .literal .. => ["value"]
  | .boolean _ | .string _ | .date _ | .any _ | .plain _ => []

def parts (n : Node) : List String :=
  ["kind", "description", "nullable", "default", "source_path"] ++ n.ownParts

def apply (n : Node) (operation : String) (values : List Value) : Except Misuse Node :=
  match n, operation, values with
  | .plain _, _, _ => .error .notNode
  | n, "optional", [] => .ok (.optional {} n)
  | n, "describe", [v] => .ok (n.describe v)
  | n, "as_nullable", [] => .ok n.asNullable
  | n, "with_default", [v] => .ok (n.withDefault v)
  | n, name, _ =>
    if name ∈ ["optional", "describe", "as_nullable", "with_default"] ++ n.parts then
      .error .notOperation
    else .error .missingAttribute

end SchemaCompiler.Node
