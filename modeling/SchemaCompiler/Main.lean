import SchemaCompiler.CommandLine.Command

namespace SchemaCompiler.CommandLine

def systemStat (path : String) : IO (Except FileFault EntryKind) := do
  try
    let place ← IO.FS.realPath path
    return .ok (if ← place.isDir then .directory else .file)
  catch _ => return .error .notFound

def systemRead (path : String) : IO (Except FileFault String) := do
  match ← systemStat path with
  | .error fault => return .error fault
  | .ok .directory => return .error .isDirectory
  | .ok .file =>
    try return .ok (← IO.FS.readFile path)
    catch _ => return .error .unreadable

def systemWrite (path text : String) : IO (Except FileFault Unit) := do
  match ← systemStat path with
  | .ok .directory => return .error .isDirectory
  | _ =>
    try
      IO.FS.writeFile path text
      return .ok ()
    catch _ => return .error .notFound

def systemAbsolute (path : String) : IO String := do
  let directory := (← IO.currentDir).toString
  let absolute := Path.absolute (Path.parts directory) path
  try return (← IO.FS.realPath absolute).toString
  catch _ => return absolute

def systemFiles : FileAccess IO := ⟨systemAbsolute, systemStat, systemRead, systemWrite⟩

def faultLine : Fault → String
  | .file .notFound => "no such file or directory"
  | .file .notDirectory => "not a directory"
  | .file .isDirectory => "is a directory"
  | .file .nameTooLong => "file name too long"
  | .file .unreadable => "cannot be read"
  | .nulInPath => "a path holds a character that paths cannot hold"
  | .json e => e.message
  | .failure f => f.message?.getD "the schema cannot be processed"

end SchemaCompiler.CommandLine

open SchemaCompiler.CommandLine in
def main (arguments : List String) : IO UInt32 := do
  let outcome ← run systemFiles arguments
  IO.print outcome.output
  IO.eprint outcome.errors
  match outcome.fault with
  | some fault => IO.eprintln ("Error: " ++ faultLine fault)
  | none => pure ()
  return outcome.exitCode.toUInt32
