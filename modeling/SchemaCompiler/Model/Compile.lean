import SchemaCompiler.Model.Classification
import SchemaCompiler.Model.Lineage

namespace SchemaCompiler

structure CompiledField where
  key : Value
  type : OutputType
  nullable : Nullability
  default : Value
  description : Value
  slot : Slot
deriving DecidableEq, Repr

namespace CompiledField

def shownDescription (d : CompiledField) : Value := d.description.orElse (.text "")

def toField (d : CompiledField) : Field where
  name := d.key
  attr := d.key
  type := d.type
  nullable := d.nullable
  default := d.default
  description := d.description

end CompiledField

/-- The name for the model of a nested object: none where its description gives one, else the
name around it with the field's key. -/
def nestedName (o : Options) (key : Value) (description : Value) : Except Failure Value := do
  if !o.name.truthy then return .null
  let found ← if description.truthy then o.titled description else .ok none
  match found with
  | some _ => return .null
  | none => return .text (o.name.display ++ (← Naming.pascalCaseOf key))

def classMisuse? (name : Value) (keys : List Value) : Option Misuse :=
  let taken (part : ReservedKey) := keys.any fun key => ReservedKey.ofValue? key = some part
  match name with
  | .text s =>
    if taken .layout then some .classPartReplaced
    else if s.toList.contains '\x00' then some .nameWithNul
    else if taken .definition then some .classPartReplaced
    else none
  | _ => some .nameNotText

def classOf (name : String) (description : Value) (source : Node) (fields : List CompiledField) :
    ModelClass :=
  let slots := fields.map (·.slot)
  let slotFor (part : ReservedKey) := slots.find? (·.part? = some part)
  let attr (part : ReservedKey) (v : Value) : Attribute :=
    match slotFor part with
    | some s => .slot s
    | none => .value v
  { name
    line := [.modelBase]
    home := attr .home (.text "schema_to_model.model_factory")
    source := if (slotFor .source).isSome then none else some source
    description := some (attr .description (description.orElse (.text "")))
    documentation := attr .documentation description
    slots
    fields := fields.map (·.toField) }

def defineModel (o : Options) (naming : ModelName) (source : Node) (fields : List CompiledField) :
    Work ClassHandle := do
  let keys := fields.map (·.key)
  match naming.name, classMisuse? naming.name keys with
  | .text name, none =>
    if keys.any fun key => ReservedKey.ofValue? key = some .fieldList then
      Work.misuse .fieldListReplaced
    let handle ← addClass (classOf name naming.description source fields)
    let handle ← registerObject o.registry (.text name) handle naming.description
    Work.report (.modelSynthesized name keys)
    return handle
  | _, some m => Work.misuse m
  | _, none => Work.misuse .nameNotText

/-- The model of an object node, whose fields `compileFields` compiles. A model made from the very
same node under the same name is given back. -/
def synthesize (o : Options) (source : Node) (description : Value)
    (compileFields : Options → Work (List CompiledField)) : Work ClassHandle := do
  let naming ← modelName o description
  match ← registeredAs o.registry naming.name with
  | some (.object c) =>
    if ((← get).whole? c).bind (·.source) = some source then return c
    else throw (.duplicateType naming.name)
  | some (.enum _) => throw (.duplicateType naming.name)
  | none =>
    let generatedName := naming.generated || (o.generatedName && o.name.truthy)
    let fields ← compileFields { o with name := naming.name, generatedName }
    defineModel o naming source fields

def fieldType (o : Options) (key : Value) (node : Node) (c : Classification) :
    Work OutputType := do
  match c.enumSource with
  | some source => return c.type.fill (← fieldEnum o key source)
  | none =>
    if c.type.isOpen then throw (.unsupportedKind key node.innermost.kind?)
    else return c.type

/-- Compiles a field, whose node the given work classifies. A list whose items alone may be null
has no default. -/
def compileField (o : Options) (key : Value) (node : Node) (kind : Kind)
    (classified : Work Classification) : Work CompiledField := do
  let c ← classified
  let type ← fieldType o key node c
  let default ← Work.ofExcept node.fieldDefault
  let description ← Work.ofExcept node.fieldDescription
  return {
    key, type, description
    nullable := c.nullability
    default := if c.itemsOnly then .null else default
    slot := .ofField key kind }

mutual

def classify (o : Options) (key : Value) : Node → Work Classification
  | .optional a inner => return (← classify o key inner).optional a
  | .array a item => return (← classify o key item).array a
  | .enum a values => return .ofEnum a values
  | .boolean a => return .ofType (.scalar .boolean) a
  | .string a => return .ofType (.scalar .string) a
  | .number a isInteger => return .ofType (.scalar (if isInteger.truthy then .int else .float)) a
  | .object a shape => do
    let name ← Work.ofExcept (nestedName o key a.description)
    let handle ← match o.builder with
      | some build => build (.object a shape) name
      | none =>
        synthesize { o with name } (.object a shape) a.description
          fun inner => compileShape inner shape
    return .ofType (.object handle) a
  | .union a _ | .literal a _ | .date a | .any a => return .ofType .placeholder a
  | .plain .null => return {}
  | .plain _ => Work.misuse .notNode

def compileShape (o : Options) : List (Value × Node) → Work (List CompiledField)
  | [] => return []
  | (key, node) :: rest => do
    let field ← match node.kind? with
      | some kind =>
        if kind.isField then compileField o key node kind (classify o key node)
        else throw (.unsupportedKind key (some kind))
      | none => throw (.unsupportedKind key none)
    let fields ← compileShape o rest
    return field :: fields

end

def compileModel (o : Options) (node : Node) : Work ClassHandle :=
  match node with
  | .object a shape =>
    synthesize o node a.description fun inner => compileShape inner shape
  | _ => throw (.unsupportedKind (o.name.orElse (.text "<root>")) node.kind?)

end SchemaCompiler
