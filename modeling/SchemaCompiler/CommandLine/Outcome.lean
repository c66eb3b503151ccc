import SchemaCompiler.CommandLine.FileAccess
import SchemaCompiler.CommandLine.UsageError
import SchemaCompiler.Failure
import SchemaCompiler.Json.Fault
import SchemaCompiler.Text.Terminal

namespace SchemaCompiler.CommandLine

inductive Fault where
  | file (fault : FileFault)
  | nulInPath
  | json (error : Json.ReadError)
  | failure (failure : Failure)
deriving DecidableEq, Repr

inductive Stop where
  | usage (error : UsageError)
  | report (message : String)
  | fault (fault : Fault)
deriving DecidableEq, Repr

structure Outcome where
  exitCode : Nat := 0
  output : String := ""
  errors : String := ""
  fault : Option Fault := none
deriving DecidableEq, Repr

/-- The outcome of a run that stops after it wrote a log. The log stands as it is; what is said to
the user has no control sequences. -/
def Stop.outcome (log : String) : Stop → Outcome
  | .usage e => { exitCode := 2, errors := log ++ Text.withoutControls e.text }
  | .report message =>
    { exitCode := 1, errors := log ++ "Error: " ++ Text.withoutControls message ++ "\n" }
  | .fault f => { exitCode := 1, errors := log, fault := some f }

end SchemaCompiler.CommandLine
