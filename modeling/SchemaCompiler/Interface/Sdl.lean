import SchemaCompiler.Interface.BlockString
import SchemaCompiler.Interface.TypeReference
import SchemaCompiler.Model.Lineage

namespace SchemaCompiler.Sdl

structure EnumDeclaration where
  name : String
  description : Value
  members : List String

structure ModelDeclaration where
  name : String
  description : Attribute
  fields : List Field

def describe (indent : String) (description : Attribute) : Except Failure String :=
  if !description.truthy then .ok ""
  else match description with
    | .value (.text s) => .ok (indent ++ "\"\"\"" ++ BlockString.escape s ++ "\"\"\"\n")
    | _ => .error (.misuse .notText)

def EnumDeclaration.render (e : EnumDeclaration) : Except Failure String := do
  let description ← describe "" (.value e.description)
  let members := String.join (e.members.map fun m => "  " ++ m ++ "\n")
  return description ++ "enum " ++ e.name ++ " \x7b\n" ++ members ++ "\x7d\n\n"

def renderField (f : Field) : Except Failure String := do
  let description ← describe "  " (.value f.description)
  let type ← f.type.reference f.nullable
  return description ++ "  " ++ f.name.display ++ ": " ++ type ++ "\n"

def ModelDeclaration.render (m : ModelDeclaration) : Except Failure String := do
  let description ← describe "" m.description
  let fields ← m.fields.mapM renderField
  return description ++ "type " ++ m.name ++ " \x7b\n" ++ String.join fields ++ "\x7d\n"

def renderHeader (header : Value) : String :=
  if header.truthy then "# " ++ header.display ++ "\n\n" else ""

def renderAll (header : Value) (enums : List EnumDeclaration)
    (models : List ModelDeclaration) : Except Failure String := do
  let enums ← enums.mapM EnumDeclaration.render
  let models ← models.mapM ModelDeclaration.render
  return renderHeader header ++ String.join enums ++ "\n".intercalate models

def declareEnum (e : EnumType) : EnumDeclaration := ⟨e.name, e.description, e.members.map (·.1)⟩

/-- The declaration of a class. A description given for its name goes before its own. -/
def declareModel (w : Workspace) (described : String → Value) (c : ClassHandle) :
    ModelDeclaration :=
  let given := described c.name
  let own := ((w.whole? c).bind (·.description)).getD (.value .null)
  ⟨c.name, if given.truthy then .value given else own, ((w.class? c).map (·.fields)).getD []⟩

def enumsOf (types : List OutputType) : List EnumType :=
  types.filterMap fun
    | .enum e => some e
    | _ => none

def classesOf (types : List OutputType) : List ClassHandle :=
  types.filterMap fun
    | .object c => some c
    | _ => none

def renderTypes (w : Workspace) (header : Value) (described : String → Value)
    (types : List OutputType) : Except Failure String :=
  renderAll header ((enumsOf types).map declareEnum)
    ((classesOf types).map (declareModel w described))

def renderRegistry (w : Workspace) (header : Value) (registry : Key) :
    Except Failure String :=
  let r := w.registries registry
  renderTypes w header (fun name => r.description (.text name)) (r.types.map (·.toOutput))

end SchemaCompiler.Sdl
