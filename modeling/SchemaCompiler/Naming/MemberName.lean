import SchemaCompiler.Text.Word
import SchemaCompiler.Text.Digit
import SchemaCompiler.Text.Upper
import SchemaCompiler.Value.Text

namespace SchemaCompiler.Naming

open SchemaCompiler.Text

/-- Each maximal run of characters outside words as one underscore; `inGap` tells whether the run
before has been written already. -/
def joinWords : (inGap : Bool) → List Char → List Char
  | _, [] => []
  | inGap, c :: rest =>
    if isWord c then c :: joinWords false rest
    else if inGap then joinWords true rest
    else '_' :: joinWords true rest

def trimUnderscores (s : List Char) : List Char :=
  ((s.dropWhile (· == '_')).reverse.dropWhile (· == '_')).reverse

def upperWords (s : List Char) : List Char := upper (trimUnderscores (joinWords false s))

def memberNameOf (s : List Char) (position : Value) : List Char :=
  match upperWords s with
  | [] => "VALUE_".toList ++ position.display.toList
  | c :: rest => if isDigit c then '_' :: c :: rest else c :: rest

def memberName (v : Value) (position : Value) : String :=
  String.ofList (memberNameOf v.display.toList position)

/-- The name with the fewest underscores at its end that is not taken yet, for up to `fuel` of
them; one for each taken name is enough. -/
def untaken (taken : List String) : (fuel : Nat) → String → String
  | 0, name => name
  | fuel + 1, name => if name ∈ taken then untaken taken fuel (name ++ "_") else name

def nameMembers (named : List (String × Value)) :
    (position : Nat) → List Value → List (String × Value)
  | _, [] => named
  | position, v :: rest =>
    let taken := named.map (·.1)
    let name := untaken taken taken.length (memberName v (.int position))
    nameMembers (named ++ [(name, v)]) (position + 1) rest

def enumMembers (values : List Value) : List (String × Value) := nameMembers [] 0 values

end SchemaCompiler.Naming
