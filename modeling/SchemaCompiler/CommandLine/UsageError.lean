import SchemaCompiler.Value.Text

namespace SchemaCompiler.CommandLine

def programName : String := "schema-to-model"

def usageLine : String := "Usage: " ++ programName ++ " [OPTIONS] PATH [OUTPUT]\n"

def helpText : String :=
  usageLine ++ "\n" ++
  "  Compile the JSON schema at PATH into GraphQL model types.\n" ++
  "\n" ++
  "Options:\n" ++
  "  -n, --name TEXT          Name of the root model\n" ++
  "  -c, --config PATH\n" ++
  "  -f, --format [sdl|json]  Output format (default: sdl)\n" ++
  "  --no-comment             Do not add the generation comment\n" ++
  "  -v, --verbose            Log registrations to stderr\n" ++
  "  --help                   Show this message and exit.\n"

inductive PathParameter where
  | config
  | path
deriving DecidableEq, Repr

def PathParameter.hint : PathParameter → String
  | .config => "'--config' / '-c'"
  | .path => "'PATH'"

inductive UsageError where
  | noSuchOption (option : String) (suggestions : List String)
  | valueMissing (option : String)
  | valueNotTaken (option : String)
  | notFormat (value : String)
  | pathNotFound (parameter : PathParameter) (value : String)
  | pathMissing
  | extraArguments (arguments : List String)
deriving DecidableEq, Repr

namespace UsageError

def suggestionText : List String → String
  | [] => ""
  | [option] => " Did you mean " ++ option ++ "?"
  | options => " (Possible options: " ++ ", ".intercalate options ++ ")"

def message : UsageError → String
  | .noSuchOption option suggestions => "No such option: " ++ option ++ suggestionText suggestions
  | .valueMissing option => "Option " ++ Text.quoted option ++ " requires an argument."
  | .valueNotTaken option => "Option " ++ Text.quoted option ++ " does not take a value."
  | .notFormat value =>
    "Invalid value for '--format' / '-f': " ++ Text.quoted value ++
      " is not one of 'sdl', 'json'."
  | .pathNotFound parameter value =>
    "Invalid value for " ++ parameter.hint ++ ": Path " ++ Text.quoted value ++ " does not exist."
  | .pathMissing => "Missing argument 'PATH'."
  | .extraArguments arguments =>
    "Got unexpected extra argument" ++ (if arguments.length = 1 then "" else "s") ++ " (" ++
      " ".intercalate arguments ++ ")"

def showsUsage : UsageError → Bool
  | .valueMissing _ | .valueNotTaken _ => false
  | _ => true

def text (e : UsageError) : String :=
  (if e.showsUsage then
    usageLine ++ "Try '" ++ programName ++ " --help' for help.\n\n"
  else "") ++ "Error: " ++ e.message ++ "\n"

end UsageError

end SchemaCompiler.CommandLine
