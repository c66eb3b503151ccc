import SchemaCompiler.Naming.Convention
import SchemaCompiler.Workspace

namespace SchemaCompiler

structure Options where
  name : Value := .null
  /-- Whether the name comes or derives from a sequence. -/
  generatedName : Bool := false
  registry : Key := .null
  memo : Key := .null
  sequence : Key := .null
  convention : Naming.Convention := .colon
  enumName : Option (Value → Value → Except Failure String) := none
  /-- What makes the models of nested objects, from the object and the name for its model. -/
  builder : Option (Node → Value → Work ClassHandle) := none

structure ModelName where
  name : Value
  description : Value
  generated : Bool := false
deriving DecidableEq, Repr

namespace Options

def named (name : Value) : Options := { name }

def titled (o : Options) (description : Value) : Except Failure (Option Naming.Titled) :=
  match o.convention.read description with
  | .ok found => .ok found
  | .error m => .error (.misuse m)

end Options

/-- A builder that records the name asked for and makes an empty class, named by how many names
were recorded. -/
def recordRequest (_ : Node) (name : Value) : Work ClassHandle := do
  modify fun w => { w with requests := w.requests ++ [name] }
  addClass { name := s!"Stub{(← get).requests.length}" }

def sequenceName (n : Value) : String := s!"ClassFromZod_{n.display}"

def modelName (o : Options) (description : Value) : Work ModelName := do
  if o.name.truthy then return { name := o.name, description }
  let found ← if description.truthy then Work.ofExcept (o.titled description) else pure none
  match found with
  | some t => return { name := .text t.name, description := .text t.description }
  | none =>
    let n ← nextInSequence o.sequence
    return { name := .text (sequenceName n), description, generated := true }

end SchemaCompiler
