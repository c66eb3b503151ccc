import SchemaCompiler.CommandLine.Invocation
import SchemaCompiler.Interface.Description
import SchemaCompiler.Interface.Sdl
import SchemaCompiler.Json.Reader
import SchemaCompiler.Json.Writer
import SchemaCompiler.Model.Compilation
import SchemaCompiler.Text.Lines
import SchemaCompiler.Text.Terminal

namespace SchemaCompiler.CommandLine

variable {m : Type → Type} [Monad m]

def orFault {α : Type} : Except Failure α → ExceptT Stop m α
  | .ok a => pure a
  | .error f => throw (.fault (.failure f))

def readText (files : FileAccess m) (path : String) : ExceptT Stop m String := do
  match ← files.read path with
  | .ok text => return Text.withUnifiedLines text
  | .error fault => throw (.fault (.file fault))

def readConfig (files : FileAccess m) (i : Invocation) : ExceptT Stop m Config := do
  let c ← match i.config with
    | none => pure {}
    | some path =>
      match Json.read (← readText files path) with
      | .ok v => orFault (Config.ofValue v)
      | .error e => throw (.fault (.json e))
  return { c with
    outputFormat := (i.format.map .format).getD c.outputFormat
    addGenerationComment := if i.noComment then .bool false else c.addGenerationComment }

def readSchemaDocument (files : FileAccess m) (i : Invocation) : ExceptT Stop m Value := do
  match Json.read (← readText files i.path) with
  | .ok document => return document
  | .error .numberTooLong => throw (.fault (.json .numberTooLong))
  | .error e => throw (.report (i.path ++ " is not valid JSON: " ++ e.message))

def rootName (i : Invocation) (c : Config) : Value :=
  (((i.name.map Value.text).getD .null).orElse c.modelName).orElse .null

def stopOf (f : Failure) : Stop :=
  match f.isReport, f.message? with
  | true, some message => .report message
  | _, _ => .fault (.failure f)

/-- The numbers that count the characters of a text are below this one. -/
def countLimit : Nat := twoTo 63

/-- Stands for the memory of the machine: a text of this many spaces is taken not to fit. Nothing
proved rests on the number. -/
def roomLimit : Nat := twoTo 28

def spaces (n : Int) : Except Failure String :=
  if n < -(countLimit : Int) ∨ (countLimit : Int) ≤ n then .error (.misuse .indentationRange)
  else if (roomLimit : Int) ≤ n then .error (.misuse .indentationRoom)
  else .ok (String.ofList (List.replicate n.toNat ' '))

def indentation : Value → Except Failure (Option String)
  | .null => .ok none
  | .text s => .ok (some s)
  | .int n => (spaces n).map some
  | .bool b => .ok (some (if b then " " else ""))
  | _ => .error (.misuse .indentation)

def renderJson (config : Config) (c : Compilation) : Except Failure String := do
  let description ← (← c.modelClass).describe
  let indent ← indentation config.jsonIndent
  return Json.write indent description.toValue

def generationHeader (files : FileAccess m) (i : Invocation) : ExceptT Stop m String := do
  return "Generated by: " ++ (← Invocation.commandLine files (some i))

def render (files : FileAccess m) (i : Invocation) (config : Config) (c : Compilation) :
    ExceptT Stop m String := do
  if config.outputFormat.asksFor .json then orFault (renderJson config c)
  else
    let header ←
      if config.addGenerationComment.truthy then .text <$> generationHeader files i else pure .null
    orFault (Sdl.renderRegistry c.workspace header .null)

/-- Renders a compilation and writes it to the file of the invocation; without one the text is what
remains to be printed, without control sequences. -/
def deliver (files : FileAccess m) (i : Invocation) (config : Config) (c : Compilation) :
    ExceptT Stop m String := do
  match c.model with
  | .error f => throw (stopOf f)
  | .ok _ =>
    let text := Text.endLine (← render files i config c)
    match i.output with
    | none => return Text.withoutControls text
    | some path =>
      match ← files.write path text with
      | .ok () => return ""
      | .error fault => throw (.fault (.file fault))

def logText (c : Compilation) : String :=
  String.join (c.workspace.events.map fun e => e.line ++ "\n")

def load (files : FileAccess m) (i : Invocation) : ExceptT Stop m (Config × Value) := do
  let config ← readConfig files i
  let document ← readSchemaDocument files i
  return (config, document)

def perform (files : FileAccess m) (i : Invocation) : m Outcome := do
  match ← (load files i).run with
  | .error stop => return stop.outcome ""
  | .ok (config, document) =>
    let c := compileDocument (rootName i config) document
    let log := if i.verbose then logText c else ""
    match ← (deliver files i config c).run with
    | .error stop => return stop.outcome log
    | .ok output => return { output, errors := log }

def run (files : FileAccess m) (arguments : List String) : m Outcome := do
  match Arguments.read arguments with
  | .error e => return (Stop.usage e).outcome ""
  | .ok a =>
    if a.has .help then return { output := helpText }
    match ← (Invocation.ofArguments files a).run with
    | .error stop => return stop.outcome ""
    | .ok i => perform files i

end SchemaCompiler.CommandLine
