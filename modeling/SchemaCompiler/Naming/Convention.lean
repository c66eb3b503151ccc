import SchemaCompiler.Failure
import SchemaCompiler.Text.Word
import SchemaCompiler.Text.Blank

namespace SchemaCompiler.Naming

open SchemaCompiler.Text

structure Titled where
  name : String
  description : String
deriving DecidableEq, Repr

/-- How descriptions are read. A convention may find nothing in a description, and may refuse one
that is no text. -/
structure Convention where
  read : Value → Except Misuse (Option Titled)

def Convention.ofText (refusal : Misuse) (read : List Char → Option Titled) : Convention where
  read
    | .text s => .ok (read s.toList)
    | _ => .error refusal

def afterColon (s : List Char) : List Char := (s.dropWhile isBlank).takeWhile (· ≠ '\n')

/-- Looks for the first colon behind a word; `run` holds the word characters just before, last
first. -/
def readColon : (run : List Char) → List Char → Option Titled
  | _, [] => none
  | run, c :: rest =>
    if isWord c then readColon (c :: run) rest
    else if c = ':' ∧ run ≠ [] then
      some ⟨String.ofList run.reverse, String.ofList (afterColon rest)⟩
    else readColon [] rest

def Convention.colon : Convention := .ofText .descriptionNotText (readColon [])

def readBracket : List Char → Option Titled
  | '[' :: rest =>
    if rest.contains ']' then
      some ⟨String.ofList (rest.takeWhile (· ≠ ']')),
        String.ofList (strip ((rest.dropWhile (· ≠ ']')).drop 1))⟩
    else none
  | _ => none

def Convention.bracket : Convention := .ofText .notText readBracket

def Convention.none : Convention := ⟨fun _ => .ok Option.none⟩

def Convention.ofName? : String → Option Convention
  | "colon" => some .colon
  | "bracket" => some .bracket
  | "none" => some .none
  | _ => Option.none

end SchemaCompiler.Naming
