import SchemaCompiler.CommandLine.FileAccess
import SchemaCompiler.CommandLine.Path

namespace SchemaCompiler.CommandLine

inductive Entry where
  | file (text : String)
  | directory
deriving DecidableEq, Repr

def Entry.kind : Entry → EntryKind
  | .file _ => .file
  | .directory => .directory

/-- A tree of files. Entries stand under the parts of their absolute paths. -/
structure FileTree where
  workingDirectory : List String := []
  entries : List (List String × Entry) := []
deriving DecidableEq, Repr

namespace FileTree

def partLimit : Nat := 255

def pathLimit : Nat := 4095

def at? (t : FileTree) (place : List String) : Option Entry :=
  if place = [] then some .directory else t.entries.lookup place

def putIn (place : List String) (e : Entry) :
    List (List String × Entry) → List (List String × Entry)
  | [] => [(place, e)]
  | (q, f) :: rest => if q = place then (q, e) :: rest else (q, f) :: putIn place e rest

def put (t : FileTree) (place : List String) (e : Entry) : FileTree :=
  { t with entries := putIn place e t.entries }

def plant (t : FileTree) (path text : String) : FileTree :=
  let place := Path.absoluteParts t.workingDirectory path
  let above := (List.range place.length).map fun n => place.take n
  let missing := above.filter fun place => (t.at? place).isNone
  (missing.foldl (fun t place => t.put place .directory) t).put place (.file text)

def follow (t : FileTree) : (here : List String) → (parts : List String) →
    Except FileFault (List String × Entry)
  | here, [] =>
    match t.at? here with
    | some e => .ok (here, e)
    | none => .error .notFound
  | here, part :: rest =>
    match t.at? here with
    | none => .error .notFound
    | some (.file _) => .error .notDirectory
    | some .directory =>
      if part = ".." then follow t here.dropLast rest
      else if partLimit < part.utf8ByteSize then .error .nameTooLong
      else follow t (here ++ [part]) rest

def start (t : FileTree) (path : String) : List String :=
  if Path.isAbsolute path then [] else t.workingDirectory

def locate (t : FileTree) (path : String) : Except FileFault (List String × Entry) :=
  if pathLimit < path.utf8ByteSize then .error .nameTooLong
  else t.follow (t.start path) (Path.parts path)

def stat (t : FileTree) (path : String) : Except FileFault EntryKind :=
  (t.locate path).map (·.2.kind)

def read (t : FileTree) (path : String) : Except FileFault String :=
  match t.locate path with
  | .ok (_, .file text) => .ok text
  | .ok (_, .directory) => .error .isDirectory
  | .error e => .error e

def newPlace (t : FileTree) (path : String) : Except FileFault (List String) :=
  match t.follow (t.start path) (Path.parts path).dropLast with
  | .ok (here, .directory) => .ok (here ++ [Path.lastPart path])
  | .ok (_, .file _) => .error .notDirectory
  | .error e => .error e

def write (t : FileTree) (path text : String) : Except FileFault FileTree :=
  match t.locate path with
  | .ok (place, .file _) => .ok (t.put place (.file text))
  | .ok (_, .directory) => .error .isDirectory
  | .error .notFound => (t.newPlace path).map fun place => t.put place (.file text)
  | .error e => .error e

def access : FileAccess (StateM FileTree) where
  absolute path := return Path.absolute (← get).workingDirectory path
  stat path := return (← get).stat path
  read path := return (← get).read path
  write path text := do
    match (← get).write path text with
    | .ok t =>
      set t
      return .ok ()
    | .error e => return .error e

end FileTree

end SchemaCompiler.CommandLine
