import SchemaCompiler.Model.Instance
import SchemaCompiler.Workspace

/-!
Lines of inheritance. The line of a class merges the lines of its bases so that every class stands
before its own ancestors and the bases keep their order; a class whose bases admit no such line
cannot be made.
-/

namespace SchemaCompiler

namespace Ancestor

def isFree (rows : List (List Ancestor)) (a : Ancestor) : Bool := rows.all fun row => a ∉ row.tail

def next? (rows : List (List Ancestor)) : Option Ancestor :=
  (rows.filterMap List.head?).find? (isFree rows)

def passed (a : Ancestor) (row : List Ancestor) : List Ancestor :=
  if row.head? = some a then row.tail else row

def merge : (length : Nat) → (rows : List (List Ancestor)) → Option (List Ancestor)
  | 0, rows => if rows.all List.isEmpty then some [] else none
  | length + 1, rows =>
    if rows.all List.isEmpty then some []
    else do
      let a ← next? rows
      let rest ← merge length (rows.map (passed a))
      return a :: rest

def line? (bases : List (Ancestor × List Ancestor)) : Option (List Ancestor) :=
  let own := bases.map (·.1)
  if own.eraseDups = own then
    let rows := bases.map (fun b => b.1 :: b.2) ++ [own]
    merge rows.flatten.length rows
  else none

end Ancestor

namespace Workspace

def whole? (w : Workspace) (c : ClassHandle) : Option ModelClass :=
  (w.class? c).map fun own =>
    own.inherit own.ownNames <| own.line.filterMap fun
      | .modelBase => none
      | .cls serial => w.classes[serial]?

def sameInstances (w : Workspace) (identical : Bool) (a b : ClassHandle × Values) :
    Except Failure Bool :=
  match w.whole? a.1, w.whole? b.1 with
  | some c, some d =>
    if a.1 = b.1 then sameInstance c identical a.2 b.2 else differentInstances c d
  | _, _ => .error (.misuse .notClass)

end Workspace

def deriveClass (name : Value) (bases : List ClassHandle) : Work ClassHandle := do
  let w ← get
  match name with
  | .text s =>
    if s.toList.contains '\x00' then Work.misuse .nameWithNul
    let lines := bases.map fun b => (.cls b.serial, ((w.class? b).map (·.line)).getD [])
    match Ancestor.line? lines with
    | none => Work.misuse .baseOrder
    | some line =>
      if bases.any fun b => ((w.whole? b).any (·.lacks .derivation)) then
        Work.misuse .operationReplaced
      addClass { name := s, line }
  | _ => Work.misuse .nameNotText

end SchemaCompiler
