import SchemaCompiler.Types.OutputType

namespace SchemaCompiler

namespace Nullability

def forItems (n : Nullability) : Nullability := .ofBool n.ofItems

end Nullability

/-- The text of a type under a policy for null. The policy for items reaches one list deep. -/
def OutputType.reference : OutputType → Nullability → Except Failure String
  | .list item, n => do
    let text ← item.reference n.forItems
    return if n.ofList then "[" ++ text ++ "]" else "[" ++ text ++ "]!"
  | type, n => do
    let text ← type.typeName
    return if n = .always then text else text ++ "!"

end SchemaCompiler
