import SchemaCompiler.Value.Basic

/-!
Equality of values as the enum and registry rules use it: a truth value, an integer and a
floating-point number are equal when their numbers are, at any depth, and records are compared
without regard to order.
-/

namespace SchemaCompiler.Value

inductive Numeric where
  | int (i : Int)
  | float (x : Binary64)

def numeric? : Value → Option Numeric
  | .bool b => some (.int (if b then 1 else 0))
  | .int i => some (.int i)
  | .float x => some (.float x)
  | _ => none

def Numeric.same : Numeric → Numeric → Bool
  | .int i, .int j => i == j
  | .int i, .float x | .float x, .int i => x.toInt? == some i
  | .float x, .float y => x.same y

def sameAtom (a b : Value) : Bool :=
  match a.numeric?, b.numeric? with
  | some m, some n => m.same n
  | none, none =>
    match a, b with
    | .null, .null => true
    | .text s, .text t => s == t
    | _, _ => false
  | _, _ => false

mutual

def same : Value → Value → Bool
  | .list xs, .list ys => sameList xs ys
  | .record xs, .record ys => xs.length == ys.length && sameEntries xs ys
  | a, b => sameAtom a b

def sameList : List Value → List Value → Bool
  | [], [] => true
  | x :: xs, y :: ys => same x y && sameList xs ys
  | _, _ => false

def sameEntries : List (String × Value) → List (String × Value) → Bool
  | [], _ => true
  | (k, x) :: xs, ys =>
    (match valueAt? k ys with
      | some y => same x y
      | none => false) && sameEntries xs ys

end

def sameRecord (xs ys : List (String × Value)) : Bool := same (.record xs) (.record ys)

def member (v : Value) (items : List Value) : Bool := items.any (·.same v)

end SchemaCompiler.Value
