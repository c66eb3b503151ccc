import SchemaCompiler.Failure

namespace SchemaCompiler

inductive OutputFormat where
  | sdl
  | json
deriving DecidableEq, Repr

def OutputFormat.name : OutputFormat → String
  | .sdl => "sdl"
  | .json => "json"

def OutputFormat.ofName? : String → Option OutputFormat
  | "sdl" => some .sdl
  | "json" => some .json
  | _ => none

/-- The setting of the output format. Settings that were replaced all at once may hold any value in
its place. -/
inductive FormatSetting where
  | format (f : OutputFormat)
  | unchecked (v : Value)
deriving DecidableEq, Repr

def FormatSetting.asksFor (f : OutputFormat) : FormatSetting → Bool
  | .format g => g = f
  | .unchecked v => v = .text f.name

structure Config where
  modelName : Value := .text ""
  outputFormat : FormatSetting := .format .sdl
  addGenerationComment : Value := .bool true
  jsonIndent : Value := .int 2
  attributes : List (String × Value) := []
deriving DecidableEq, Repr

namespace Config

def settingNames : List String :=
  ["model_name", "output_format", "add_generation_comment", "json_indent"]

def attributeNames : List String := [
  "from_dict", "to_dict", "__annotations__", "__dataclass_fields__", "__dataclass_params__",
  "__delattr__", "__dir__", "__doc__", "__eq__", "__format__", "__ge__", "__getattribute__",
  "__getstate__", "__gt__", "__hash__", "__init__", "__init_subclass__", "__le__", "__lt__",
  "__match_args__", "__module__", "__ne__", "__new__", "__reduce__", "__reduce_ex__", "__repr__",
  "__setattr__", "__sizeof__", "__str__", "__subclasshook__"]

def hasAttribute (c : Config) (name : String) : Bool :=
  name ∈ attributeNames || (Value.valueAt? name c.attributes).isSome

def exportReplaced (c : Config) : Bool := (Value.valueAt? "to_dict" c.attributes).isSome

/-- The configuration that has the entries of a record in place of all it had. A setting that the
record leaves out is as in an empty configuration. -/
def ofSettings (entries : List (String × Value)) : Config :=
  let empty : Config := {}
  let given (key : String) := Value.valueAt? key entries
  { modelName := (given "model_name").getD empty.modelName
    outputFormat := ((given "output_format").map .unchecked).getD empty.outputFormat
    addGenerationComment := (given "add_generation_comment").getD empty.addGenerationComment
    jsonIndent := (given "json_indent").getD empty.jsonIndent
    attributes := entries.filter (·.1 ∉ settingNames) }

def set (c : Config) (key : String) (v : Value) : Except Failure Config :=
  match key with
  | "model_name" => .ok { c with modelName := v }
  | "output_format" =>
    match v.text?.bind OutputFormat.ofName? with
    | some f => .ok { c with outputFormat := .format f }
    | none => .error (.misuse .unknownFormat)
  | "add_generation_comment" => .ok { c with addGenerationComment := v }
  | "json_indent" => .ok { c with jsonIndent := v }
  | "__dict__" =>
    match v with
    | .record entries => .ok (ofSettings entries)
    | _ => .error (.misuse .settingForm)
  | "__class__" => .error (.misuse .settingForm)
  | "__weakref__" => .error (.misuse .missingAttribute)
  | _ =>
    if c.hasAttribute key then .ok { c with attributes := Value.putEntry key v c.attributes }
    else .ok c

def setAll : Config → List (String × Value) → Except Failure Config
  | c, [] => .ok c
  | c, (key, v) :: rest => do
    let c ← c.set key v
    c.setAll rest

def ofValue : Value → Except Failure Config
  | .record entries => ({} : Config).setAll entries
  | _ => .error (.misuse .notRecord)

def toValue (c : Config) : Except Failure Value :=
  if c.exportReplaced then .error (.misuse .operationReplaced)
  else match c.outputFormat with
    | .format f => .ok (.record [("model_name", c.modelName), ("output_format", .text f.name),
        ("add_generation_comment", c.addGenerationComment), ("json_indent", c.jsonIndent)])
    | .unchecked _ => .error (.misuse .missingAttribute)

end Config

end SchemaCompiler
