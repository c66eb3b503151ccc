/-!
Control sequences of terminals: an escape character with an opening bracket, parameters, and the
letter that closes the sequence. What goes to an output that is no terminal has none of them.
-/

namespace SchemaCompiler.Text

def escapeChar : Char := '\x1b'

def isParameter (c : Char) : Bool := c = ';' || c = '?' || c.isDigit

/-- The characters without control sequences. What has been read of a sequence so far is held back,
last character first. -/
def dropControls : (held : List Char) → List Char → List Char
  | held, [] => held.reverse
  | [], c :: rest => if c = escapeChar then dropControls [c] rest else c :: dropControls [] rest
  | [e], c :: rest =>
    if c = '[' then dropControls [c, e] rest
    else if c = escapeChar then e :: dropControls [c] rest
    else e :: c :: dropControls [] rest
  | held, c :: rest =>
    if isParameter c then dropControls (c :: held) rest
    else if c.isAlpha then dropControls [] rest
    else if c = escapeChar then held.reverse ++ dropControls [c] rest
    else held.reverse ++ c :: dropControls [] rest

def withoutControls (s : String) : String := String.ofList (dropControls [] s.toList)

end SchemaCompiler.Text
