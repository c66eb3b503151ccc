namespace SchemaCompiler.CommandLine

inductive FileFault where
  | notFound
  | notDirectory
  | isDirectory
  | nameTooLong
  | unreadable
deriving DecidableEq, Repr

inductive EntryKind where
  | file
  | directory
deriving DecidableEq, Repr

structure FileAccess (m : Type → Type) where
  absolute : String → m String
  stat : String → m (Except FileFault EntryKind)
  read : String → m (Except FileFault String)
  write : String → String → m (Except FileFault Unit)

end SchemaCompiler.CommandLine
