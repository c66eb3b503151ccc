import SchemaCompiler.Model.Compile
import SchemaCompiler.Schema.Document
import SchemaCompiler.Schema.Tag

namespace SchemaCompiler

structure Compilation where
  model : Except Failure ClassHandle
  workspace : Workspace

def compileAlone (name : Value) (node : Except Failure Node) : Compilation :=
  let work : Work ClassHandle := do compileModel (.named name) (← Work.ofExcept node)
  match work {} with
  | .ok model workspace => ⟨.ok model, workspace⟩
  | .error failure workspace => ⟨.error failure, workspace⟩

def compileDocument (name : Value) (document : Value) : Compilation :=
  compileAlone name ((Schema.readDocument document).map fun node => (node.tagFrom 0).1)

namespace Compilation

def modelClass (c : Compilation) : Except Failure ModelClass := do
  let handle ← c.model
  match c.workspace.whole? handle with
  | some found => return found
  | none => throw (.misuse .missingAttribute)

end Compilation

end SchemaCompiler
