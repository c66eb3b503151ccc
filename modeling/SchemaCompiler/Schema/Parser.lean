import SchemaCompiler.Schema.Document

namespace SchemaCompiler.Schema

structure Parser where
  definitions : Value := .record []
  busy : List String := []

abbrev Parsing := EStateM Failure Parser

namespace Parser

def enter (name : String) : Parsing Unit := modify fun p => { p with busy := name :: p.busy }

def leave : Parsing Unit := modify fun p => { p with busy := p.busy.tail }

def within {α : Type} (name : String) (work : Parsing α) : Parsing α := do
  enter name
  try work finally leave

/-- Follows references, for at most `depth` definitions within one another. -/
def follow : (depth : Nat) → Follow Parsing
  | depth, reference, path => do
    if !reference.startsWith "#" then faultAt path (.externalReference reference)
    else
      let parser ← get
      let name := lastSegment reference
      match lookup parser.definitions name with
      | .unsearchable => misused .notSearchable
      | .absent => faultAt path (.unresolvedReference reference)
      | .held => misused .notIndexable
      | .found schema =>
        if name ∈ parser.busy then faultAt path (.recursiveReference reference)
        else match depth with
          | 0 => faultAt path (.recursiveReference reference)
          | depth + 1 => within name (readSchema (follow depth) schema reference)

def start (document : Value) (p : Parser) : Parser :=
  match document with
  | .record entries => { definitions := Schema.definitions entries }
  | _ => p

def parse (document : Value) : Parsing Node := do
  modify (start document)
  let definitions := (← get).definitions
  readSchema (follow (definedNames definitions).length) document "#"

def parseAlone (document : Value) : Except Failure Node :=
  match parse document {} with
  | .ok node _ => .ok node
  | .error failure _ => .error failure

def answers : (documents : List Value) → Parser → List (Except Failure Node)
  | [], _ => []
  | document :: rest, p =>
    match parse document p with
    | .ok node p => .ok node :: answers rest p
    | .error failure p => .error failure :: answers rest p

end Parser

end SchemaCompiler.Schema
