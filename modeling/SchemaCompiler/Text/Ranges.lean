namespace SchemaCompiler.Text

def within : List (Nat × Nat) → Nat → Bool
  | [], _ => false
  | (first, last) :: rest, n => if n < first then false else n ≤ last || within rest n

end SchemaCompiler.Text
