import SchemaCompiler.Model.Options
import SchemaCompiler.Naming.MemberName
import SchemaCompiler.Naming.PascalCase

namespace SchemaCompiler

structure EnumSource where
  description : Value
  values : Value
deriving DecidableEq, Repr

def enumTypeName (o : Options) (key : Value) : Except Failure String :=
  let scope := if o.generatedName then .null else o.name
  match o.enumName with
  | some name => name key scope
  | none => do
    let own ← Naming.pascalCaseOf key
    return (if scope.truthy then scope.display else "") ++ own ++ "Enum"

/-- Whether a remembered enum may be given back for the members: it has equal ones, and the
registry still holds it under the name. -/
def isCurrent (r : Registry) (name : String) (members : List (String × Value)) (e : EnumType) :
    Bool :=
  Value.sameRecord e.members members &&
    match r.get? (.text name) with
    | some (.enum held) => held.serial == e.serial
    | _ => false

def fieldEnum (o : Options) (key : Value) (source : EnumSource) : Work EnumType := do
  let name ← Work.ofExcept (enumTypeName o key)
  let members ← match source.values.elements? with
    | some values => pure (Naming.enumMembers values)
    | none => Work.misuse .notIterable
  let w ← get
  match (w.memos o.memo).get? (o.registry, .text name) with
  | some e => if isCurrent (w.registries o.registry) name members e then return e
  | none => pure ()
  let e ← registerEnum o.registry (.text name) members source.description
  modify fun w => w.setMemo o.memo ((w.memos o.memo).put (o.registry, .text name) e)
  Work.report (.enumBuilt name key.display)
  return e

end SchemaCompiler
