import SchemaCompiler.CommandLine.Arguments
import SchemaCompiler.CommandLine.Outcome
import SchemaCompiler.CommandLine.Path
import SchemaCompiler.Config

namespace SchemaCompiler.CommandLine

variable {m : Type → Type} [Monad m]

structure Switches where
  name : Option String := none
  config : Option String := none
  format : Option OutputFormat := none
  noComment : Bool := false
  verbose : Bool := false
deriving DecidableEq, Repr

structure Invocation extends Switches where
  path : String
  output : Option String := none
deriving DecidableEq, Repr

def absolutePath (files : FileAccess m) (path : String) : ExceptT Stop m String := do
  if path.toList.contains '\x00' then throw (.fault .nulInPath)
  files.absolute path

def existingPath (files : FileAccess m) (parameter : PathParameter) (path : String) :
    ExceptT Stop m String := do
  let absolute ← absolutePath files path
  match ← files.stat absolute with
  | .ok _ => return absolute
  | .error _ => throw (.usage (.pathNotFound parameter path))

def checkSetting (files : FileAccess m) (a : Arguments) (s : Switches) :
    Setting → ExceptT Stop m Switches
  | .name => return { s with name := a.value? .name }
  | .config => return { s with config := ← (a.value? .config).mapM (existingPath files .config) }
  | .format =>
    match a.value? .format with
    | none => return s
    | some value =>
      match OutputFormat.ofName? value with
      | some format => return { s with format := some format }
      | none => throw (.usage (.notFormat value))
  | .noComment => return { s with noComment := true }
  | .verbose => return { s with verbose := true }
  | .help => return s

namespace Invocation

/-- The invocation of a list of arguments. Options are checked in the order given, then the
positional arguments. -/
def ofArguments (files : FileAccess m) (a : Arguments) : ExceptT Stop m Invocation := do
  let switches ← a.settings.foldlM (checkSetting files a) {}
  match a.positionals with
  | [] => throw (.usage .pathMissing)
  | [path] => return { switches with path := ← existingPath files .path path }
  | path :: output :: extra =>
    let path ← existingPath files .path path
    let output ← absolutePath files output
    if extra ≠ [] then throw (.usage (.extraArguments extra))
    return { switches with path, output := some output }

def shownValue (files : FileAccess m) (value : String) : ExceptT Stop m String := do
  if value.toList.contains '\x00' then return value
  match ← files.stat (Path.plain value) with
  | .ok _ => return Path.lastPart value
  | .error .notFound | .error .notDirectory => return value
  | .error fault => throw (.fault (.file fault))

def commandName : String := "schema_to_model"

def shownOption (files : FileAccess m) (setting : Setting) (value : Option String) :
    ExceptT Stop m (List String) := do
  match value with
  | none => return []
  | some v => return [setting.long ++ " " ++ (← shownValue files v)]

def words (files : FileAccess m) (i : Invocation) : ExceptT Stop m (List String) := do
  let name ← shownOption files .name i.name
  let config ← shownOption files .config i.config
  let format ← shownOption files .format (i.format.map (·.name))
  let path ← shownValue files i.path
  let output ← i.output.mapM (shownValue files)
  return [commandName, path] ++ output.toList ++ name ++ config ++ format
    ++ (if i.noComment then [Setting.noComment.long] else [])
    ++ (if i.verbose then [Setting.verbose.long] else [])

def commandLine (files : FileAccess m) : Option Invocation → ExceptT Stop m String
  | none => return commandName
  | some i => return " ".intercalate (← i.words files)

end Invocation

end SchemaCompiler.CommandLine
