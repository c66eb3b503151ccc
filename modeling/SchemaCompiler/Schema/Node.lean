import SchemaCompiler.Value.Basic

/-!
Schema nodes: the tree that a schema document describes. A node carries annotations, among them a
tag that tells it from every other node made, equal or not. Where a node is expected a plain value
may stand instead; null stands for a missing node.
-/

namespace SchemaCompiler

inductive Kind where
  | object
  | array
  | boolean
  | string
  | number
  | enum
  | optional
  | union
  | literal
  | date
  | any
deriving DecidableEq, Repr

def Kind.name : Kind → String
  | .object => "object"
  | .array => "array"
  | .boolean => "boolean"
  | .string => "string"
  | .number => "number"
  | .enum => "enum"
  | .optional => "optional"
  | .union => "union"
  | .literal => "literal"
  | .date => "date"
  | .any => "any"

structure Annotations where
  /-- Tells the node from every other one. -/
  tag : Nat := 0
  description : Value := .null
  /-- The nullable marker; a value that counts as present says that null may stand here. -/
  nullable : Value := .bool false
  default : Value := .null
  path : Value := .text ""
deriving DecidableEq, Repr, Inhabited

/-- A schema node, or a plain value in its place. The fields of an object have distinct keys, which
are texts when a reader made the node. -/
inductive Node where
  | object (notes : Annotations) (shape : List (Value × Node))
  | array (notes : Annotations) (item : Node)
  | boolean (notes : Annotations)
  | string (notes : Annotations)
  | number (notes : Annotations) (isInteger : Value)
  | enum (notes : Annotations) (values : Value)
  | optional (notes : Annotations) (inner : Node)
  | union (notes : Annotations) (variants : List Node)
  | literal (notes : Annotations) (value : Value)
  | date (notes : Annotations)
  | any (notes : Annotations)
  | plain (value : Value)
deriving Repr, Inhabited

namespace Node

def kind? : Node → Option Kind
  | .object .. => some .object
  | .array .. => some .array
  | .boolean .. => some .boolean
  | .string .. => some .string
  | .number .. => some .number
  | .enum .. => some .enum
  | .optional .. => some .optional
  | .union .. => some .union
  | .literal .. => some .literal
  | .date .. => some .date
  | .any .. => some .any
  | .plain _ => none

def notes? : Node → Option Annotations
  | .object a _ | .array a _ | .boolean a | .string a | .number a _ | .enum a _ | .optional a _
  | .union a _ | .literal a _ | .date a | .any a => some a
  | .plain _ => none

def mapNotes (f : Annotations → Annotations) : Node → Node
  | .object a shape => .object (f a) shape
  | .array a item => .array (f a) item
  | .boolean a => .boolean (f a)
  | .string a => .string (f a)
  | .number a isInteger => .number (f a) isInteger
  | .enum a values => .enum (f a) values
  | .optional a inner => .optional (f a) inner
  | .union a variants => .union (f a) variants
  | .literal a value => .literal (f a) value
  | .date a => .date (f a)
  | .any a => .any (f a)
  | .plain v => .plain v

@[simp] theorem notes?_mapNotes (f : Annotations → Annotations) (n : Node) :
    (n.mapNotes f).notes? = n.notes?.map f := by cases n <;> rfl

theorem mapNotes_mapNotes (f g : Annotations → Annotations) (n : Node) :
    (n.mapNotes f).mapNotes g = n.mapNotes fun a => g (f a) := by cases n <;> rfl

def describe (description : Value) : Node → Node :=
  mapNotes fun a => { a with description }

def asNullable : Node → Node :=
  mapNotes fun a => { a with nullable := .bool true }

def withDefault (default : Value) : Node → Node :=
  mapNotes fun a => { a with default }

mutual

def beq : (a b : Node) → Bool
  | .object a s, .object b t => a == b && beqShape s t
  | .array a x, .array b y => a == b && beq x y
  | .optional a x, .optional b y => a == b && beq x y
  | .union a x, .union b y => a == b && beqList x y
  | .boolean a, .boolean b | .string a, .string b | .date a, .date b | .any a, .any b => a == b
  | .number a i, .number b j => a == b && i == j
  | .enum a u, .enum b v => a == b && u == v
  | .literal a u, .literal b v => a == b && u == v
  | .plain u, .plain v => u == v
  | _, _ => false

def beqList : (a b : List Node) → Bool
  | [], [] => true
  | x :: xs, y :: ys => beq x y && beqList xs ys
  | _, _ => false

def beqShape : (a b : List (Value × Node)) → Bool
  | [], [] => true
  | (j, x) :: xs, (k, y) :: ys => j == k && beq x y && beqShape xs ys
  | _, _ => false

end

mutual

theorem beq_iff : (a b : Node) → (beq a b = true ↔ a = b) := by
  intro a b
  cases a <;> cases b <;> simp [beq, beq_iff, beqList_iff, beqShape_iff]

theorem beqList_iff : (a b : List Node) → (beqList a b = true ↔ a = b)
  | [], [] => by simp [beqList]
  | [], _ :: _ => by simp [beqList]
  | _ :: _, [] => by simp [beqList]
  | x :: xs, y :: ys => by simp [beqList, beq_iff x y, beqList_iff xs ys]

theorem beqShape_iff : (a b : List (Value × Node)) → (beqShape a b = true ↔ a = b)
  | [], [] => by simp [beqShape]
  | [], _ :: _ => by simp [beqShape]
  | _ :: _, [] => by simp [beqShape]
  | (j, x) :: xs, (k, y) :: ys => by simp [beqShape, beq_iff x y, beqShape_iff xs ys, and_assoc]

end

instance : DecidableEq Node := fun a b => decidable_of_iff _ (beq_iff a b)

end Node

end SchemaCompiler
