import SchemaCompiler.Failure

/-!
Pascal case of a text. Its words are the runs of lower-case letters, the capitals each with the
lower-case letters after it, and the runs of digits, all in ASCII; every other character only
separates words. The words are capitalised and joined.
-/

namespace SchemaCompiler.Naming

/-- The pascal case of what follows a character; `inWord` tells whether that was a letter, so that
a lower-case letter here goes on with its word instead of opening one. -/
def pascalFrom : (inWord : Bool) → List Char → List Char
  | _, [] => []
  | inWord, c :: rest =>
    if c.isLower then (if inWord then c else c.toUpper) :: pascalFrom true rest
    else if c.isUpper then c :: pascalFrom true rest
    else if c.isDigit then c :: pascalFrom false rest
    else pascalFrom false rest

def pascalCase (s : String) : String := String.ofList (pascalFrom false s.toList)

/-- The pascal case of a value: nothing of one that does not count as present, which else must be a
text. -/
def pascalCaseOf : Value → Except Failure String
  | .text s => .ok (pascalCase s)
  | v => if v.truthy then .error (.misuse .notText) else .ok ""

end SchemaCompiler.Naming
