import SchemaCompiler.Value.Text

namespace SchemaCompiler.Json

def unitEscape (n : Nat) : List Char := '\\' :: 'u' :: Text.hex 4 n

def writtenChar (c : Char) : List Char :=
  if c = '"' then ['\\', '"']
  else if c = '\\' then ['\\', '\\']
  else if c = '\n' then ['\\', 'n']
  else if c = '\r' then ['\\', 'r']
  else if c = '\t' then ['\\', 't']
  else if c = '\x08' then ['\\', 'b']
  else if c = '\x0c' then ['\\', 'f']
  else if ' ' ≤ c ∧ c ≤ '~' then [c]
  else
    let n := c.toNat
    if n < 0x10000 then unitEscape n
    else unitEscape (0xd800 + (n - 0x10000) / 0x400) ++ unitEscape (0xdc00 + (n - 0x10000) % 0x400)

def writtenText (s : String) : String :=
  String.ofList ('"' :: (s.toList.flatMap writtenChar ++ ['"']))

/-- How the parts of a list or record are set: `open` and `close` go inside its brackets, and
`between` separates its parts. -/
structure Setting where
  opening : String
  between : String
  closing : String

def Setting.compact : Setting := ⟨"", ", ", ""⟩

def Setting.lines (indent : String) (depth : Nat) : Setting :=
  let line (n : Nat) := "\n" ++ String.join (List.replicate n indent)
  ⟨line (depth + 1), "," ++ line (depth + 1), line depth⟩

def Setting.at (indent : Option String) (depth : Nat) : Setting :=
  match indent with
  | none => .compact
  | some i => .lines i depth

def Setting.enclose (s : Setting) (left right : String) (parts : List String) : String :=
  match parts with
  | [] => left ++ right
  | parts => left ++ s.opening ++ s.between.intercalate parts ++ s.closing ++ right

mutual

def writeAt (indent : Option String) (depth : Nat) : Value → String
  | .null => "null"
  | .bool b => if b then "true" else "false"
  | .int i => toString i
  | .float x => Decimal.text .document x
  | .text s => writtenText s
  | .list items => (Setting.at indent depth).enclose "[" "]" (writeItems indent (depth + 1) items)
  | .record entries =>
    (Setting.at indent depth).enclose "\x7b" "\x7d" (writeEntries indent (depth + 1) entries)

def writeItems (indent : Option String) (depth : Nat) : List Value → List String
  | [] => []
  | v :: rest => writeAt indent depth v :: writeItems indent depth rest

def writeEntries (indent : Option String) (depth : Nat) : List (String × Value) → List String
  | [] => []
  | (k, v) :: rest =>
    (writtenText k ++ ": " ++ writeAt indent depth v) :: writeEntries indent depth rest

end

def write (indent : Option String) (v : Value) : String := writeAt indent 0 v

end SchemaCompiler.Json
