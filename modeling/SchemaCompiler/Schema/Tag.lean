import SchemaCompiler.Schema.Node

namespace SchemaCompiler.Node

mutual

def tagFrom (next : Nat) : Node → Node × Nat
  | .object a shape =>
    let (shape, after) := tagShapeFrom (next + 1) shape
    (.object { a with tag := next } shape, after)
  | .array a item =>
    let (item, after) := tagFrom (next + 1) item
    (.array { a with tag := next } item, after)
  | .optional a inner =>
    let (inner, after) := tagFrom (next + 1) inner
    (.optional { a with tag := next } inner, after)
  | .union a variants =>
    let (variants, after) := tagListFrom (next + 1) variants
    (.union { a with tag := next } variants, after)
  | .boolean a => (.boolean { a with tag := next }, next + 1)
  | .string a => (.string { a with tag := next }, next + 1)
  | .number a isInteger => (.number { a with tag := next } isInteger, next + 1)
  | .enum a values => (.enum { a with tag := next } values, next + 1)
  | .literal a value => (.literal { a with tag := next } value, next + 1)
  | .date a => (.date { a with tag := next }, next + 1)
  | .any a => (.any { a with tag := next }, next + 1)
  | .plain v => (.plain v, next)

def tagListFrom (next : Nat) : List Node → List Node × Nat
  | [] => ([], next)
  | n :: rest =>
    let (n, after) := tagFrom next n
    let (rest, after) := tagListFrom after rest
    (n :: rest, after)

def tagShapeFrom (next : Nat) : List (Value × Node) → List (Value × Node) × Nat
  | [] => ([], next)
  | (key, n) :: rest =>
    let (n, after) := tagFrom next n
    let (rest, after) := tagShapeFrom after rest
    ((key, n) :: rest, after)

end

end SchemaCompiler.Node
