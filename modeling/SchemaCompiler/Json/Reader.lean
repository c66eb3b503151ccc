import SchemaCompiler.Json.Fault
import SchemaCompiler.Value.Basic

/-!
Reading a JSON text into a value. Besides the standard's texts the reader accepts the numbers NaN,
Infinity and -Infinity. A repeated key keeps its first place and takes its last value. A numeral
with a fraction or an exponent is a floating-point number, any other an integer of any size up to
a limit on its digits.
-/

namespace SchemaCompiler.Json

structure Cursor where
  offset : Nat
  rest : List Char

inductive Stop where
  | fault (fault : Fault) (offset : Nat)
  | numberTooLong

abbrev Reading := Except Stop

def Cursor.stop {α : Type} (c : Cursor) (fault : Fault) : Reading α :=
  .error (.fault fault c.offset)

def Cursor.advance (c : Cursor) (n : Nat) : Cursor := ⟨c.offset + n, c.rest.drop n⟩

def isSpace (c : Char) : Bool := c = ' ' || c = '\t' || c = '\n' || c = '\r'

def Cursor.skipSpace (c : Cursor) : Cursor := c.advance (c.rest.takeWhile isSpace).length

def hexDigit? (c : Char) : Option Nat :=
  if c.isDigit then some (c.toNat - '0'.toNat)
  else if 'a' ≤ c ∧ c ≤ 'f' then some (c.toNat - 'a'.toNat + 10)
  else if 'A' ≤ c ∧ c ≤ 'F' then some (c.toNat - 'A'.toNat + 10)
  else none

def hexUnit? : List Char → Option Nat
  | a :: b :: c :: d :: _ => do
    let a ← hexDigit? a
    let b ← hexDigit? b
    let c ← hexDigit? c
    let d ← hexDigit? d
    return ((a * 16 + b) * 16 + c) * 16 + d
  | _ => none

def escaped? : Char → Option Char
  | '"' => some '"'
  | '\\' => some '\\'
  | '/' => some '/'
  | 'b' => some '\x08'
  | 'f' => some '\x0c'
  | 'n' => some '\n'
  | 'r' => some '\r'
  | 't' => some '\t'
  | _ => none

/-- The character of one code unit. Half of a pair alone is no character, so no text has it and it is read
as U+FFFD. Where texts may hold such a half it is kept, and then no class can be made with it in its
description, which cannot be encoded. Texts of that kind are left out here. -/
def unitChar (unit : Nat) : Char :=
  if 0xd800 ≤ unit ∧ unit < 0xe000 then '\ufffd' else Char.ofNat unit

/-- The character after a backslash and a `u`: four digits, or two halves of a pair. At least one
character must follow the four digits. The cursor stands on the `u`. -/
def readUnicodeEscape (c : Cursor) : Reading (Char × Cursor) :=
  let digits := c.rest.drop 1
  if digits.length < 5 then c.stop .invalidUnicodeEscape
  else match hexUnit? digits with
    | none => c.stop .invalidUnicodeEscape
    | some unit =>
      let after := c.advance 5
      if 0xd800 ≤ unit ∧ unit < 0xdc00 ∧ 7 ≤ after.rest.length
          ∧ after.rest.take 2 = ['\\', 'u'] then
        match hexUnit? (after.rest.drop 2) with
        | none => (after.advance 1).stop .invalidUnicodeEscape
        | some second =>
          if 0xdc00 ≤ second ∧ second < 0xe000 then
            let number := 0x10000 + (unit - 0xd800) * 0x400 + (second - 0xdc00)
            .ok (Char.ofNat number, after.advance 6)
          else .ok (unitChar unit, after)
      else .ok (unitChar unit, after)

/-- The rest of a text after its opening quote, which stood at `start`; `read` holds the characters
so far, last first. -/
def readText (start : Nat) : (fuel : Nat) → (read : List Char) → Cursor → Reading (String × Cursor)
  | 0, _, _ => .error (.fault .unterminatedText start)
  | fuel + 1, read, c =>
    match c.rest with
    | [] => .error (.fault .unterminatedText start)
    | '"' :: _ => .ok (String.ofList read.reverse, c.advance 1)
    | '\\' :: [] => .error (.fault .unterminatedText start)
    | '\\' :: 'u' :: _ => do
      let (ch, after) ← readUnicodeEscape (c.advance 1)
      readText start fuel (ch :: read) after
    | '\\' :: letter :: _ =>
      match escaped? letter with
      | some ch => readText start fuel (ch :: read) (c.advance 2)
      | none => c.stop .invalidEscape
    | ch :: _ =>
      if ch.toNat < 0x20 then c.stop .controlCharacter
      else readText start fuel (ch :: read) (c.advance 1)

def digitLimit : Nat := 4300

def ofDigits (digits : List Char) : Nat :=
  digits.foldl (fun n d => n * 10 + (d.toNat - '0'.toNat)) 0

def fraction : List Char → List Char
  | '.' :: rest => rest.takeWhile Char.isDigit
  | _ => []

def exponentPart : List Char → List Char × List Char
  | e :: sign :: rest =>
    if e = 'e' ∨ e = 'E' then
      if sign = '-' ∨ sign = '+' then ([e, sign], rest.takeWhile Char.isDigit)
      else ([e], (sign :: rest).takeWhile Char.isDigit)
    else ([], [])
  | _ => ([], [])

/-- A numeral. Zero is not followed by further integer digits, a point needs a digit after it, and
an exponent without digits is not part of the numeral. -/
def readNumber (c : Cursor) : Reading (Value × Cursor) :=
  let negative := c.rest.head? == some '-'
  let body := if negative then c.rest.drop 1 else c.rest
  let whole := match body with
    | '0' :: _ => ['0']
    | other => other.takeWhile Char.isDigit
  if whole.isEmpty then c.stop .expectingValue
  else
    let afterWhole := body.drop whole.length
    let places := fraction afterWhole
    let afterPlaces := afterWhole.drop (if places.isEmpty then 0 else places.length + 1)
    let (mark, exponent) := exponentPart afterPlaces
    let length := (if negative then 1 else 0) + whole.length
      + (if places.isEmpty then 0 else places.length + 1)
      + (if exponent.isEmpty then 0 else mark.length + exponent.length)
    let after := c.advance length
    if places.isEmpty && exponent.isEmpty then
      if digitLimit < whole.length then .error .numberTooLong
      else .ok (.int (if negative then -(ofDigits whole : Int) else ofDigits whole), after)
    else
      let power : Int :=
        if mark.getLast? == some '-' then -(ofDigits exponent : Int) else ofDigits exponent
      let digits := ofDigits (whole ++ places)
      .ok (.float (Binary64.ofDecimal negative digits (power - places.length)), after)

def words : List (List Char × Value) := [
  ("null".toList, .null), ("true".toList, .bool true), ("false".toList, .bool false),
  ("NaN".toList, .float .nan), ("Infinity".toList, .float (.infinity false)),
  ("-Infinity".toList, .float (.infinity true))]

def readAtom (c : Cursor) : Reading (Value × Cursor) :=
  match words.find? (·.1.isPrefixOf c.rest) with
  | some (word, v) => .ok (v, c.advance word.length)
  | none => readNumber c

mutual

def readValue : (fuel : Nat) → Cursor → Reading (Value × Cursor)
  | 0, c => c.stop .expectingValue
  | fuel + 1, c =>
    match c.rest with
    | '"' :: rest => do
      let (s, after) ← readText c.offset (rest.length + 1) [] (c.advance 1)
      return (.text s, after)
    | '\x7b' :: _ =>
      let inner := (c.advance 1).skipSpace
      if inner.rest.head? == some '\x7d' then .ok (.record [], inner.advance 1)
      else readEntries fuel [] inner
    | '[' :: _ =>
      let inner := (c.advance 1).skipSpace
      if inner.rest.head? == some ']' then .ok (.list [], inner.advance 1)
      else readItems fuel [] inner
    | _ => readAtom c

def readEntries : (fuel : Nat) → (read : List (String × Value)) → Cursor → Reading (Value × Cursor)
  | 0, _, c => c.stop .expectingName
  | fuel + 1, read, c =>
    if c.rest.head? != some '"' then c.stop .expectingName
    else do
      let (key, afterKey) ← readText c.offset (c.rest.length + 1) [] (c.advance 1)
      let colon := afterKey.skipSpace
      if colon.rest.head? != some ':' then colon.stop .expectingColon
      else
        let (v, afterValue) ← readValue fuel (colon.advance 1).skipSpace
        let read := Value.putEntry key v read
        let next := afterValue.skipSpace
        if next.rest.head? == some '\x7d' then .ok (.record read, next.advance 1)
        else if next.rest.head? == some ',' then readEntries fuel read (next.advance 1).skipSpace
        else next.stop .expectingComma

def readItems : (fuel : Nat) → (read : List Value) → Cursor → Reading (Value × Cursor)
  | 0, _, c => c.stop .expectingValue
  | fuel + 1, read, c => do
    let (v, afterValue) ← readValue fuel c
    let read := v :: read
    let next := afterValue.skipSpace
    if next.rest.head? == some ']' then .ok (.list read.reverse, next.advance 1)
    else if next.rest.head? == some ',' then readItems fuel read (next.advance 1).skipSpace
    else next.stop .expectingComma

end

def readDocument (text : List Char) : Except Stop Value :=
  if text.head? == some '\ufeff' then .error (.fault .byteOrderMark 0)
  else do
    let (v, after) ← readValue (2 * text.length + 2) (Cursor.mk 0 text).skipSpace
    let stop := after.skipSpace
    if stop.rest.isEmpty then .ok v else .error (.fault .extraData stop.offset)

def read (text : String) : Except ReadError Value :=
  let cs := text.toList
  match readDocument cs with
  | .ok v => .ok v
  | .error .numberTooLong => .error .numberTooLong
  | .error (.fault fault offset) => .error (.at cs fault offset)

end SchemaCompiler.Json
