/-
SymbolRenaming/IoFailure.lean

Why reading or writing a file, or a buffer, can fail.
-/

namespace SymbolRenaming

/-- Why an input or an output fails. -/
inductive IoFailure where
  /-- There is no such file, or no such directory on the way to it. -/
  | notFound
  /-- A file stands where a directory is needed. -/
  | notADirectory
  /-- A directory stands where a file is needed. -/
  | isADirectory
  /-- A name or a whole path is too long. -/
  | nameTooLong
  /-- A path holds the character that ends a path. -/
  | nulInPath
  /-- A line is not encoded as UTF-8. -/
  | invalidUtf8
  /-- A buffer is full before everything is written. -/
  | bufferFull
  /-- The system gives another reason, in its own words. -/
  | other (words : String)
  deriving DecidableEq, Repr

/-- The wording of a failure. -/
def IoFailure.message : IoFailure → String
  | notFound => "No such file or directory (os error 2)"
  | notADirectory => "Not a directory (os error 20)"
  | isADirectory => "Is a directory (os error 21)"
  | nameTooLong => "File name too long (os error 36)"
  | nulInPath => "file name contained an unexpected NUL byte"
  | invalidUtf8 => "stream did not contain valid UTF-8"
  | bufferFull => "failed to write whole buffer"
  | other words => words

end SymbolRenaming
