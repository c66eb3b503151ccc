import SchemaCompiler.Value.Basic

/-!
Values as keys. Lists and records cannot be keys. Numbers that are equal are the same key in
whatever form they are given, and a truth value is the number that it counts as.
-/

namespace SchemaCompiler

inductive Key where
  | null
  | text (s : String)
  | whole (n : Int)
  | fractional (x : Binary64)
deriving DecidableEq, Repr, Inhabited

namespace Value

def key? : Value → Option Key
  | .null => some .null
  | .bool b => some (.whole b.toNat)
  | .int n => some (.whole n)
  | .float x => some (x.toInt?.elim (.fractional x) .whole)
  | .text s => some (.text s)
  | .list _ | .record _ => none

@[simp] theorem key?_text (s : String) : (Value.text s).key? = some (.text s) := rfl

/-- Puts something under a value that is a key, at the key's place if it has one and else at the
end. A key keeps the form in which it was first given. -/
def putUnder {α : Type} (key : Value) (a : α) : List (Value × α) → List (Value × α)
  | [] => [(key, a)]
  | (k, b) :: rest => if k.key? = key.key? then (k, a) :: rest else (k, b) :: putUnder key a rest

def keyed {α : Type} (pairs : List (Value × α)) : List (Value × α) :=
  pairs.foldl (fun held p => putUnder p.1 p.2 held) []

end Value

end SchemaCompiler
