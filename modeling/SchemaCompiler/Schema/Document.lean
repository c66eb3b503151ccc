import SchemaCompiler.Failure
import SchemaCompiler.Value.Equality

/-!
Reading a schema document into nodes. References to the document's definitions are replaced by
what they name; properties that are not required become optional nodes.

`readSchema` reads one schema and leaves references to a function that it is given, in whatever
way that function works, so it only walks down the schema. `expand` gives it that function: a
reference is followed unless its definition is being read already, and since each step down makes
one more definition busy, the definitions that are not busy bound the depth.
-/

namespace SchemaCompiler.Schema

open Value (valueAt? entryOrNull)

abbrev Entries := List (String × Value)

abbrev Follow (m : Type → Type) := (reference : String) → (path : String) → m Node

def faultAt {m : Type → Type} {α : Type} [MonadExcept Failure m] (path : String)
    (fault : DocumentFault) : m α :=
  throw (.document path fault)

def misused {m : Type → Type} {α : Type} [MonadExcept Failure m] (misuse : Misuse) : m α :=
  throw (.misuse misuse)

def marked (entries : Entries) (nullable : Value) : Value :=
  if (entryOrNull "nullable" entries).truthy then .bool true else nullable

def annotate (entries : Entries) (path : String) (node : Node) : Node :=
  node.mapNotes fun a =>
    { a with
      description := entryOrNull "description" entries
      default := entryOrNull "default" entries
      path := .text path
      nullable := marked entries a.nullable }

def overlayTexts (entries : Entries) (node : Node) : Node :=
  node.mapNotes fun a =>
    { a with
      description := (valueAt? "description" entries).getD a.description
      default := (valueAt? "default" entries).getD a.default }

def overlay (entries : Entries) (node : Node) : Node :=
  (overlayTexts entries node).mapNotes fun a =>
    { a with nullable := marked entries a.nullable }

inductive Body where
  | object
  | array
  | text
  | number (isInteger : Bool)
  | boolean
  | any
deriving DecidableEq, Repr

def bodyOf (entries : Entries) (type : Value) : Body :=
  if type = .text "object" ∨ (type = .null ∧ (valueAt? "properties" entries).isSome) then .object
  else if type = .text "array" then .array
  else if type = .text "string" then .text
  else if type = .text "number" then .number false
  else if type = .text "integer" then .number true
  else if type = .text "boolean" then .boolean
  else .any

def statedTypes (entries : Entries) : List Value × Bool :=
  let nullable := (entryOrNull "nullable" entries).truthy
  match entryOrNull "type" entries with
  | .list types =>
    let others := types.filter (· ≠ .text "null")
    (others, nullable || others.length ≠ types.length)
  | type => ([type], nullable)

/-- What a schema is read by, which is the first that it has of a reference, a constant, variants,
values and a type. -/
inductive Form where
  | reference (target : Value)
  | constant (value : Value)
  | union (keyword : String) (variants : Value)
  | enum (values : Value)
  | mixed (types : List Value)
  | body (body : Body) (nullable : Bool)
deriving DecidableEq, Repr

def formOf (entries : Entries) : Form :=
  match valueAt? "$ref" entries, valueAt? "const" entries, valueAt? "oneOf" entries,
      valueAt? "anyOf" entries, valueAt? "enum" entries with
  | some target, _, _, _, _ => .reference target
  | none, some value, _, _, _ => .constant value
  | none, none, some variants, _, _ => .union "oneOf" variants
  | none, none, none, some variants, _ => .union "anyOf" variants
  | none, none, none, none, some values => .enum values
  | none, none, none, none, none =>
    match statedTypes entries with
    | ([], nullable) => .body (bodyOf entries .null) nullable
    | ([type], nullable) => .body (bodyOf entries type) nullable
    | (types, _) => .mixed types

theorem sizeOf_of_formOf_union {entries : Entries} {keyword : String} {variants : Value}
    (h : formOf entries = .union keyword variants) : sizeOf variants < sizeOf entries := by
  unfold formOf at h
  split at h
  all_goals first | cases h | skip
  · exact Value.sizeOf_valueAt? ‹_›
  · exact Value.sizeOf_valueAt? ‹_›
  · split at h <;> cases h

def requiredNames (entries : Entries) : Except Failure (List String) :=
  match (valueAt? "required" entries).getD (.list []) |>.elements? with
  | none => misused .notIterable
  | some elements =>
    if elements.all Value.isKey then .ok (elements.filterMap Value.text?) else misused .notKey

def enumNode (values : Value) : Except Failure Node :=
  match values.elements? with
  | none => misused .notIterable
  | some elements =>
    let kept := elements.filter (· ≠ .null)
    .ok (.enum { nullable := .bool (kept.length ≠ elements.length) } (.list kept))

def dateFormats : List String := ["date", "date-time"]

def textNode (format : Value) : Except Failure Node :=
  if !format.isKey then misused .notKey
  else match format with
    | .text s => .ok (if s ∈ dateFormats then .date {} else .string {})
    | _ => .ok (.string {})

def isNullVariant : Value → Bool
  | .record entries => entryOrNull "type" entries = .text "null"
  | _ => false

/-- The variant that a union is read as, which is one beside one that only admits null. -/
def loneVariant? : List Value → Option Value
  | [a, b] =>
    if isNullVariant a && !isNullVariant b then some b
    else if isNullVariant b && !isNullVariant a then some a
    else none
  | _ => none

theorem mem_of_loneVariant? {variants : List Value} {v : Value}
    (h : loneVariant? variants = some v) : v ∈ variants := by
  unfold loneVariant? at h
  split at h
  · split at h
    · cases h
      simp
    · split at h
      · cases h
        simp
      · cases h
  · cases h

/-- Reads the first element of a value that is no list of schemas, which is never an object. -/
def readForeign (elements : Option (List Value)) (path : String) : Except Failure (List Node) :=
  match elements with
  | none => misused .notIterable
  | some [] => .ok []
  | some (first :: _) => faultAt s!"{path}/0" (.notObject first.formName)

section Reading

variable {m : Type → Type} [Monad m] [MonadExcept Failure m]

open MonadExcept (ofExcept)

def readReference (follow : Follow m) (entries : Entries) (path : String) (target : Value) :
    m Node :=
  match target with
  | .text reference => do
    let node ← follow reference path
    return overlay entries node
  | _ => misused .notText

mutual

def readSchema (follow : Follow m) : (schema : Value) → (path : String) → m Node
  | .record entries, path =>
    match _ : formOf entries with
    | .reference target => readReference follow entries path target
    | .constant value => return annotate entries path (.literal {} value)
    | .union keyword variants => readUnion follow entries path s!"{path}/{keyword}" variants
    | .enum values => do
      let node ← ofExcept (enumNode values)
      return annotate entries path node
    | .mixed types => faultAt path (.severalTypes types)
    | .body body nullable => do
      let node ← readBody follow entries path body
      let node := annotate entries path node
      return if nullable then node.asNullable else node
  | other, path => faultAt path (.notObject other.formName)
termination_by schema => sizeOf schema
decreasing_by
  · have smaller := sizeOf_of_formOf_union ‹_›
    simp only [Value.record.sizeOf_spec]
    omega
  · simp only [Value.record.sizeOf_spec]
    omega

def readBody (follow : Follow m) (entries : Entries) (path : String) : (body : Body) → m Node
  | .object => do
    let required ← ofExcept (requiredNames entries)
    match _ : valueAt? "properties" entries with
    | none => return .object {} []
    | some (.record properties) =>
      let shape ← readProperties follow required path properties
      return .object {} shape
    | some _ => misused .notRecord
  | .array =>
    match _ : valueAt? "items" entries with
    | none | some .null => return .array {} (.any { path := .text s!"{path}/items" })
    | some (.list _) => faultAt path .tupleArray
    | some items => do
      let item ← readSchema follow items s!"{path}/items"
      return .array {} item
  | .text => ofExcept (textNode (entryOrNull "format" entries))
  | .number isInteger => return .number {} (.bool isInteger)
  | .boolean => return .boolean {}
  | .any => return .any {}
termination_by sizeOf entries
decreasing_by
  · have smaller := Value.sizeOf_valueAt? ‹_›
    simp only [Value.record.sizeOf_spec] at smaller
    omega
  · exact Value.sizeOf_valueAt? ‹_›

def readUnion (follow : Follow m) (entries : Entries) (path place : String) :
    (variants : Value) → m Node
  | .list variants =>
    match _ : loneVariant? variants with
    | some v => do
      let node ← readSchema follow v s!"{place}/0"
      return overlayTexts entries node.asNullable
    | none => do
      let nodes ← readVariants follow place 0 variants
      return annotate entries path (.union {} nodes)
  | other => do
    let nodes ← ofExcept (readForeign other.elements? place)
    return annotate entries path (.union {} nodes)
termination_by variants => sizeOf variants
decreasing_by
  · have smaller := List.sizeOf_lt_of_mem (mem_of_loneVariant? ‹_›)
    simp only [Value.list.sizeOf_spec]
    omega
  · simp only [Value.list.sizeOf_spec]
    omega

def readVariants (follow : Follow m) (place : String) : (index : Nat) → (variants : List Value) →
    m (List Node)
  | _, [] => return []
  | index, v :: rest => do
    let node ← readSchema follow v s!"{place}/{index}"
    let nodes ← readVariants follow place (index + 1) rest
    return node :: nodes
termination_by _ variants => sizeOf variants

def readProperties (follow : Follow m) (required : List String) (path : String) :
    (properties : Entries) → m (List (Value × Node))
  | [] => return []
  | (name, schema) :: rest => do
    let place := s!"{path}/properties/{name}"
    let node ← readSchema follow schema place
    let node := if name ∈ required then node else .optional { path := .text place } node
    let shape ← readProperties follow required path rest
    return (.text name, node) :: shape
termination_by properties => sizeOf properties

end

end Reading

def definitions (document : Entries) : Value :=
  (entryOrNull "definitions" document).orElse
    ((entryOrNull "$defs" document).orElse (.record []))

def lastSegment (reference : String) : String :=
  String.ofList ((reference.toList.reverse.takeWhile (· ≠ '/')).reverse)

def occursIn (part : List Char) : List Char → Bool
  | [] => part.isEmpty
  | c :: rest => part.isPrefixOf (c :: rest) || occursIn part rest

/-- What a name is found as among the definitions. A list or text may hold the name but cannot give
a definition for it. -/
inductive Lookup where
  | absent
  | found (schema : Value)
  | held
  | unsearchable

def lookup (definitions : Value) (name : String) : Lookup :=
  match definitions with
  | .record entries =>
    match valueAt? name entries with
    | some schema => .found schema
    | none => .absent
  | .list items => if items.contains (.text name) then .held else .absent
  | .text s => if occursIn name.toList s.toList then .held else .absent
  | _ => .unsearchable

def definedNames : Value → List String
  | .record entries => entries.map (·.1)
  | _ => []

theorem mem_definedNames_of_lookup {definitions schema : Value} {name : String}
    (h : lookup definitions name = .found schema) : name ∈ definedNames definitions := by
  unfold lookup at h
  split at h
  · split at h
    · exact Value.mem_names_of_valueAt? ‹_›
    · cases h
  · split at h <;> cases h
  · split at h <;> cases h
  · cases h

def remaining (definitions : Value) (busy : List String) : Nat :=
  ((definedNames definitions).filter (· ∉ busy)).length

theorem remaining_lt {definitions schema : Value} {busy : List String} {name : String}
    (found : lookup definitions name = .found schema) (free : name ∉ busy) :
    remaining definitions (name :: busy) < remaining definitions busy := by
  have split : (definedNames definitions).filter (· ∉ name :: busy) =
      ((definedNames definitions).filter (· ∉ busy)).filter (· ≠ name) := by
    rw [List.filter_filter]
    congr 1
    funext other
    simp [not_or]
  unfold remaining
  rw [split, List.length_filter_lt_length_iff_exists]
  exact ⟨name, by simp [mem_definedNames_of_lookup found, free]⟩

/-- Follows references while the definitions named in `busy` are being read. -/
def expand (definitions : Value) (busy : List String) : Follow (Except Failure) :=
  fun reference path =>
    if !reference.startsWith "#" then faultAt path (.externalReference reference)
    else match _ : lookup definitions (lastSegment reference) with
      | .unsearchable => misused .notSearchable
      | .absent => faultAt path (.unresolvedReference reference)
      | .held => misused .notIndexable
      | .found schema =>
        if _ : lastSegment reference ∈ busy then faultAt path (.recursiveReference reference)
        else readSchema (expand definitions (lastSegment reference :: busy)) schema reference
termination_by remaining definitions busy
decreasing_by exact remaining_lt ‹_› ‹_›

def definitionsOf : (document : Value) → Value
  | .record entries => definitions entries
  | _ => .record []

def readDocument (document : Value) : Except Failure Node :=
  readSchema (expand (definitionsOf document) []) document "#"

end SchemaCompiler.Schema
