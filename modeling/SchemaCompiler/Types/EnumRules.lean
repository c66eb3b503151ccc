import SchemaCompiler.Text.Blank
import SchemaCompiler.Text.Identifier
import SchemaCompiler.Types.OutputType
import SchemaCompiler.Value.Equality

/-!
Rules for the names within an enum. Some names are reserved and must not be used; some are taken
by the enum itself, so that what stands under them is an attribute and no member. Two of these are
directives: one lists names that are to be ignored from there on, the other states the order of the
members. Members with equal values are aliases of the first of them.
-/

namespace SchemaCompiler.EnumType

def isSingleWrapped (name : List Char) : Bool :=
  match name, name.reverse with
  | '_' :: second :: _ :: _, '_' :: beforeLast :: _ => second ≠ '_' && beforeLast ≠ '_'
  | _, _ => false

def isDoubleWrapped (name : List Char) : Bool :=
  match name, name.reverse with
  | '_' :: '_' :: third :: _ :: _ :: _, '_' :: '_' :: thirdLast :: _ =>
    third ≠ '_' && thirdLast ≠ '_'
  | _, _ => false

/-- Whether a name is private to the enum of the given name: `_Enum__x`. -/
def isPrivate (enum name : List Char) : Bool :=
  let opening := '_' :: (enum ++ ['_', '_'])
  opening.isPrefixOf name && opening.length < name.length && name.reverse.take 2 ≠ ['_', '_']

def ignoreDirective : String := "_ignore_"

def orderDirective : String := "_order_"

def directives : List String :=
  [orderDirective, "_generate_next_value_", "_numeric_repr_", "_missing_", ignoreDirective,
    "_iter_member_", "_iter_member_by_value_", "_iter_member_by_def_"]

def listed? : Value → Option (List Value)
  | .text s =>
    let cs := s.toList.map fun c => if c = ',' then ' ' else c
    some ((Text.words cs).map fun w => .text (String.ofList w))
  | v => v.elements?

structure Outline where
  members : List (String × Value) := []
  attributes : List (String × Value) := []
  ignored : List Value := []
deriving DecidableEq, Repr

namespace Outline

def ignore (o : Outline) (v : Value) : Except Misuse Outline :=
  match listed? v with
  | none => .error .notIterable
  | some names =>
    if !names.all Value.isKey then .error .notKey
    else if o.members.any fun m => .text m.1 ∈ names then .error .ignoredMember
    else .ok { o with ignored := names }

def addAttribute (o : Outline) (name : String) (v : Value) : Outline :=
  { o with attributes := Value.putEntry name v o.attributes }

def add (enum : List Char) (o : Outline) (name : String) (v : Value) : Except Misuse Outline :=
  if isPrivate enum name.toList then .ok (o.addAttribute name v)
  else if isSingleWrapped name.toList then
    if name = ignoreDirective then o.ignore v
    else if name ∈ directives then .ok (o.addAttribute name v)
    else .error .reservedMemberName
  else if isDoubleWrapped name.toList then
    .ok (o.addAttribute (if name = "__order__" then orderDirective else name) v)
  else if .text name ∈ o.ignored then .ok o
  else .ok { o with members := o.members ++ [(name, v)] }

def addAll (enum : List Char) : Outline → List (String × Value) → Except Misuse Outline
  | o, [] => .ok o
  | o, (name, v) :: rest => do
    let o ← o.add enum name v
    o.addAll enum rest

/-- The outline of an enum. Ignored names are no attributes either. -/
def read (enum : List Char) (entries : List (String × Value)) : Except Misuse Outline := do
  let o ← addAll enum {} entries
  return { o with attributes := o.attributes.filter fun a => .text a.1 ∉ o.ignored }

def attributeAt? (o : Outline) (name : String) : Option Value := Value.valueAt? name o.attributes

end Outline

def canonicalName (v : Value) : List (String × Value) → Option String
  | [] => none
  | (name, w) :: rest => if w.same v then some name else canonicalName v rest

def ownNames (members : List (String × Value)) : List String :=
  (members.filter fun m => canonicalName m.2 members = some m.1).map (·.1)

def isPlaceName : Value → Bool
  | .text s => Text.isIdentifier s.toList && s ≠ "__dict__" && s ≠ "__weakref__"
  | _ => false

/-- The name of a place as an enum of the given name keeps it. One that starts with two underscores,
and does not end so, is private: the name of the enum goes before it, without the underscores that
it starts with itself. -/
def placeName (enum place : List Char) : List Char :=
  let owner := enum.dropWhile (· = '_')
  if place.take 2 = ['_', '_'] ∧ place.reverse.take 2 ≠ ['_', '_'] ∧ owner ≠ [] then
    '_' :: (owner ++ place)
  else place

def givenNames : List String := ["__module__", "_generate_next_value_"]

def addedNames : List String :=
  ["_new_member_", "_use_args_", "_member_names_", "_member_map_", "_value2member_map_",
    "_unhashable_values_", "_member_type_", "_value_repr_", "_boundary_", "_flag_mask_",
    "_singles_mask_", "_all_bits_", "_inverted_"]

def isTaken (o : Outline) (name : String) : Bool :=
  name ∈ addedNames || (name ∈ givenNames && .text name ∉ o.ignored) ||
    name ∈ o.members.map (·.1) ||
    (name ∉ [orderDirective, "__qualname__", "__classcell__"] && (o.attributeAt? name).isSome)

def places (enum : List Char) (o : Outline) : Except Misuse (List String) :=
  match o.attributeAt? "__slots__" with
  | none => .ok []
  | some v =>
    match if v.text?.isSome then some [v] else v.elements? with
    | none => .error .notIterable
    | some given =>
      let names := (given.filterMap Value.text?).map fun s =>
        String.ofList (placeName enum s.toList)
      if !given.all isPlaceName then .error .classPartReplaced
      else if names.any (isTaken o) then .error .placeTaken
      else .ok names

/-- Why no member can be made, if none can. Making one needs some operations in turn: an attribute
in the place of an operation cannot be carried out, and a place kept for members is empty then. -/
def memberMisuse? (o : Outline) (places : List String) : Option Misuse :=
  let replaced (name : String) := (o.attributeAt? name).isSome
  let isEmpty (name : String) := name ∈ places
  if (o.attributeAt? "__new__").any (· ≠ .null) || replaced "__getattribute__" ||
      replaced "__getattr__" || replaced "__setattr__" then some .operationReplaced
  else if isEmpty "__setattr__" || isEmpty "__getattribute__" then some .missingAttribute
  else if replaced "__init__" then some .operationReplaced
  else if isEmpty "__init__" then some .missingAttribute
  else none

def checkAttributes (o : Outline) (places : List String) : Except Misuse Unit :=
  let qualifiedName := (o.attributeAt? "__qualname__").getD (.text "")
  if qualifiedName.text?.isNone then .error .nameNotText
  else if (o.attributeAt? "__classcell__").isSome then .error .classPartReplaced
  else if o.members.isEmpty then .ok ()
  else match memberMisuse? o places with
    | some m => .error m
    | none => .ok ()

def checkOrder (o : Outline) : Except Misuse Unit :=
  let stated := (o.attributeAt? orderDirective).getD .null
  if !stated.truthy then .ok ()
  else match listed? stated with
    | none => .error .notIterable
    | some names =>
      let own := ownNames o.members
      let isAlias (v : Value) := o.members.any (fun m => .text m.1 = v) && v ∉ own.map .text
      if names.isEmpty || names.filter (!isAlias ·) = own.map .text then .ok ()
      else .error .orderDiffers

def check (name : Value) (entries : List (String × Value)) : Except Misuse Unit := do
  let o ← Outline.read name.display.toList entries
  if o.members.any fun m => m.1 = "" || m.1 = "mro" then throw .reservedMemberName
  match name with
  | .text s =>
    let places ← places s.toList o
    if s.toList.contains '\x00' then throw .nameWithNul
    checkAttributes o places
    checkOrder o
  | _ => throw .nameNotText

def misuse? (name : Value) (entries : List (String × Value)) : Option Misuse :=
  match check name entries with
  | .ok () => none
  | .error m => some m

def outline (e : EnumType) : Outline :=
  match Outline.read e.name.toList e.members with
  | .ok o => o
  | .error _ => {}

def textNamed : List (Value × Value) → List (String × Value)
  | (.text name, v) :: rest => (name, v) :: textNamed rest
  | _ => []

/-- Why an enum of the given name cannot have the given entries, some of whose names are no texts:
what is wrong before the first of these, or else that one. -/
def unnamedMisuse (name : Value) (entries : List (Value × Value)) : Misuse :=
  match Outline.read name.display.toList (textNamed entries) with
  | .ok _ => .nameNotText
  | .error m => m

/-- For each member in order, the name of the first member with the same value. A place called
`name` hides what the members are called. -/
def canonical (e : EnumType) : Except Misuse (List String) := do
  let o := e.outline
  let places ← places e.name.toList o
  if "name" ∈ places && !o.members.isEmpty then throw .missingAttribute
  return o.members.filterMap fun m => canonicalName m.2 o.members

end SchemaCompiler.EnumType
