import SchemaCompiler.Schema.Node
import SchemaCompiler.Value.Text

namespace SchemaCompiler

inductive DocumentFault where
  | notObject (formName : String)
  | severalTypes (types : List Value)
  | tupleArray
  | externalReference (reference : String)
  | unresolvedReference (reference : String)
  | recursiveReference (reference : String)
deriving DecidableEq, Repr

def DocumentFault.wording : DocumentFault → String
  | .notObject formName => s!"expected an object, got {formName}"
  | .severalTypes types => s!"multiple types are not supported: {(Value.list types).literal}"
  | .tupleArray => "tuple arrays are not supported"
  | .externalReference reference => s!"external references are not supported: {reference}"
  | .unresolvedReference reference => s!"unresolved reference: {reference}"
  | .recursiveReference reference => s!"recursive reference: {reference}"

inductive Misuse where
  | notIterable
  | notKey
  | notSearchable
  | notIndexable
  | descriptionNotText
  | notNumber
  | nameNotText
  /-- A field key takes the place of something that every class needs. -/
  | classPartReplaced
  | operationReplaced
  | notOperation
  | baseOrder
  | notClass
  | attributeForm
  | valuesGiven
  | selfGiven
  | indentation
  | settingForm
  | notRecord
  | notText
  | notNode
  | fieldListReplaced
  | missingAttribute
  | fixedAttribute
  | nameWithNul
  | reservedMemberName
  | ignoredMember
  /-- A place that an enum is to keep for its members has the name of something else. -/
  | placeTaken
  | orderDiffers
  | unknownFormat
  | storageReplaced
  /-- The text of an instance holds itself. -/
  | endlessText
  | indentationRange
  | indentationRoom
deriving DecidableEq, Repr

inductive Misuse.Group where
  | type
  | attribute
  | value
  | recursion
  | overflow
  | memory
deriving DecidableEq, Repr

def Misuse.group : Misuse → Misuse.Group
  | .notIterable | .notKey | .notSearchable | .notIndexable | .descriptionNotText | .notNumber
  | .nameNotText | .classPartReplaced | .operationReplaced | .notOperation | .baseOrder | .notClass
  | .attributeForm | .valuesGiven | .selfGiven | .indentation | .settingForm
  | .orderDiffers => .type
  | .notRecord | .notText | .notNode | .fieldListReplaced | .missingAttribute
  | .fixedAttribute => .attribute
  | .nameWithNul | .reservedMemberName | .ignoredMember | .placeTaken | .unknownFormat => .value
  | .storageReplaced | .endlessText => .recursion
  | .indentationRange => .overflow
  | .indentationRoom => .memory

inductive Failure where
  | unsupportedKind (key : Value) (kind : Option Kind)
  | duplicateType (name : Value)
  | document (path : String) (fault : DocumentFault)
  | unexpectedFields (model : String) (names : List String)
  | notOutputType (literal : String)
  | misuse (misuse : Misuse)
deriving DecidableEq, Repr

def Failure.message? : Failure → Option String
  | .unsupportedKind key _ => some s!"\"{key.display}\" cannot be processed"
  | .duplicateType name =>
    some s!"Type \"{name.display}\" is already registered with a different definition"
  | .document path fault => some s!"{path}: {fault.wording}"
  | .unexpectedFields model names =>
    some (model ++ " got unexpected fields: " ++ ", ".intercalate names)
  | .notOutputType literal => some s!"Unsupported output type: {literal}"
  | .misuse _ => none

def Failure.isReport : Failure → Bool
  | .unsupportedKind .. | .duplicateType _ | .document .. => true
  | _ => false

end SchemaCompiler
