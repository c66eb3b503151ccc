namespace SchemaCompiler.CommandLine.Path

/-- Splits at every slash; `part` holds the characters since the last one, last first. -/
def splitFrom (part : List Char) : List Char → List String
  | [] => [String.ofList part.reverse]
  | c :: rest =>
    if c = '/' then String.ofList part.reverse :: splitFrom [] rest else splitFrom (c :: part) rest

def parts (path : String) : List String :=
  (splitFrom [] path.toList).filter fun part => part ≠ "" && part ≠ "."

def isAbsolute (path : String) : Bool := path.toList.head? = some '/'

def ofParts (parts : List String) : String := "/" ++ "/".intercalate parts

def plain (path : String) : String :=
  match isAbsolute path, parts path with
  | true, parts => ofParts parts
  | false, [] => "."
  | false, parts => "/".intercalate parts

def lastPart (path : String) : String := (parts path).getLast?.getD ""

def absoluteParts (directory : List String) (path : String) : List String :=
  (parts path).foldl (fun here part => if part = ".." then here.dropLast else here ++ [part])
    (if isAbsolute path then [] else directory)

def absolute (directory : List String) (path : String) : String :=
  ofParts (absoluteParts directory path)

end SchemaCompiler.CommandLine.Path
