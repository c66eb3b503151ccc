import SchemaCompiler.CommandLine.UsageError
import SchemaCompiler.Text.Similarity

namespace SchemaCompiler.CommandLine

inductive Setting where
  | name
  | config
  | format
  | noComment
  | verbose
  | help
deriving DecidableEq, Repr

namespace Setting

def all : List Setting := [.name, .config, .format, .noComment, .verbose, .help]

def long : Setting → String
  | .name => "--name"
  | .config => "--config"
  | .format => "--format"
  | .noComment => "--no-comment"
  | .verbose => "--verbose"
  | .help => "--help"

def letter? : Setting → Option Char
  | .name => some 'n'
  | .config => some 'c'
  | .format => some 'f'
  | .verbose => some 'v'
  | .noComment | .help => none

def takesValue : Setting → Bool
  | .name | .config | .format => true
  | .noComment | .verbose | .help => false

def ofLong? (s : String) : Option Setting := all.find? (·.long == s)

def ofLetter? (c : Char) : Option Setting := all.find? (·.letter? == some c)

end Setting

structure Occurrence where
  setting : Setting
  value : Option String := none
deriving DecidableEq, Repr

structure OptionReading where
  occurrences : List Occurrence := []
  waiting : Option (Setting × String) := none
deriving DecidableEq, Repr

def readLetters : List Char → Except UsageError OptionReading
  | [] => .ok {}
  | c :: rest =>
    let spelling := String.ofList ['-', c]
    match Setting.ofLetter? c with
    | none => .error (.noSuchOption spelling [])
    | some setting =>
      if setting.takesValue then
        if rest.isEmpty then .ok { waiting := some (setting, spelling) }
        else .ok { occurrences := [⟨setting, some (String.ofList rest)⟩] }
      else do
        let read ← readLetters rest
        return { read with occurrences := ⟨setting, none⟩ :: read.occurrences }

def splitValue (argument : List Char) : String × Option String :=
  let spelling := argument.takeWhile (· ≠ '=')
  match argument.drop spelling.length with
  | [] => (String.ofList spelling, none)
  | _ :: value => (String.ofList spelling, some (String.ofList value))

/-- Reads an argument that opens with a hyphen: a long option, or letters if there is none of that
spelling and the argument has but one hyphen. -/
def readOption (argument : List Char) : Except UsageError OptionReading :=
  let (spelling, value) := splitValue argument
  match Setting.ofLong? spelling with
  | some setting =>
    match setting.takesValue, value with
    | true, none => .ok { waiting := some (setting, spelling) }
    | true, some v => .ok { occurrences := [⟨setting, some v⟩] }
    | false, none => .ok { occurrences := [⟨setting, none⟩] }
    | false, some _ => .error (.valueNotTaken spelling)
  | none =>
    if argument.take 2 = ['-', '-'] then
      .error (.noSuchOption spelling (Text.closest (Setting.all.map (·.long)) spelling))
    else readLetters (argument.drop 1)

def isOption (argument : List Char) : Bool := argument.head? = some '-' && 1 < argument.length

structure Arguments where
  occurrences : List Occurrence := []
  positionals : List String := []
deriving DecidableEq, Repr

namespace Arguments

def withOptions (options : List Occurrence) (a : Arguments) : Arguments :=
  { a with occurrences := options ++ a.occurrences }

def read : List String → Except UsageError Arguments
  | [] => .ok {}
  | argument :: rest =>
    if argument = "--" then .ok { positionals := rest }
    else if isOption argument.toList then
      match readOption argument.toList with
      | .error e => .error e
      | .ok ⟨occurrences, none⟩ => (read rest).map (·.withOptions occurrences)
      | .ok ⟨occurrences, some (setting, spelling)⟩ =>
        match rest with
        | [] => .error (.valueMissing spelling)
        | value :: rest => (read rest).map (·.withOptions (occurrences ++ [⟨setting, some value⟩]))
    else (read rest).map fun a => { a with positionals := argument :: a.positionals }

def has (a : Arguments) (setting : Setting) : Bool := a.occurrences.any (·.setting == setting)

def value? (a : Arguments) (setting : Setting) : Option String :=
  ((a.occurrences.filter (·.setting == setting)).getLast?).bind (·.value)

def settings (a : Arguments) : List Setting := (a.occurrences.map (·.setting)).eraseDups

end Arguments

end SchemaCompiler.CommandLine
