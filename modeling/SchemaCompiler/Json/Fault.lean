namespace SchemaCompiler.Json

inductive Fault where
  | expectingValue
  | expectingName
  | expectingColon
  | expectingComma
  | extraData
  | unterminatedText
  | controlCharacter
  | invalidEscape
  | invalidUnicodeEscape
  | byteOrderMark
deriving DecidableEq, Repr

def Fault.wording : Fault → String
  | .expectingValue => "Expecting value"
  | .expectingName => "Expecting property name enclosed in double quotes"
  | .expectingColon => "Expecting ':' delimiter"
  | .expectingComma => "Expecting ',' delimiter"
  | .extraData => "Extra data"
  | .unterminatedText => "Unterminated string starting at"
  | .controlCharacter => "Invalid control character at"
  | .invalidEscape => "Invalid \\escape"
  | .invalidUnicodeEscape => "Invalid \\uXXXX escape"
  | .byteOrderMark => "Unexpected UTF-8 BOM (decode using utf-8-sig)"

inductive ReadError where
  | malformed (fault : Fault) (line column offset : Nat)
  | numberTooLong
deriving DecidableEq, Repr

def ReadError.message : ReadError → String
  | .malformed fault line column offset =>
    s!"{fault.wording}: line {line} column {column} (char {offset})"
  | .numberTooLong => "Exceeds the limit (4300 digits) for integer string conversion"

def ReadError.at (text : List Char) (fault : Fault) (offset : Nat) : ReadError :=
  let before := text.take offset
  .malformed fault (before.count '\n' + 1) ((before.reverse.takeWhile (· ≠ '\n')).length + 1) offset

end SchemaCompiler.Json
