/-!
Descriptions within block strings, which three quotes open and close. Three quotes inside are
written behind a backslash, and a quote at the very end gets a line break after it, so that the
closing quotes stand apart.
-/

namespace SchemaCompiler.BlockString

def escapeQuotes : List Char → List Char
  | '"' :: '"' :: '"' :: rest => '\\' :: '"' :: '"' :: '"' :: escapeQuotes rest
  | c :: rest => c :: escapeQuotes rest
  | [] => []

def guardEnd (s : List Char) : List Char := if s.getLast? = some '"' then s ++ ['\n'] else s

def content (s : List Char) : List Char := guardEnd (escapeQuotes s)

def escape (s : String) : String := String.ofList (content s.toList)

end SchemaCompiler.BlockString
