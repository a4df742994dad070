/-! # Access to files

What the program asks of a file system, as a record of actions in any monad. The program is
written over this record: on a file tree held as a value it is a function, and the outermost layer
supplies the actions of the real file system.
-/

namespace Mentions

/-- Why a file cannot be read as text. -/
inductive ReadError where
  | notFound
  | notDirectory
  | isDirectory
  | invalidUtf8
  /-- The path or a name in it is too long. -/
  | nameTooLong
  /-- No path holds the character U+0000. -/
  | nulInPath
  /-- Any other refusal, in the words of the system that refused. -/
  | other (reason : String)
  deriving DecidableEq, Repr

def ReadError.message : ReadError → String
  | notFound => "No such file or directory (os error 2)"
  | notDirectory => "Not a directory (os error 20)"
  | isDirectory => "Is a directory (os error 21)"
  | invalidUtf8 => "stream did not contain valid UTF-8"
  | nameTooLong => "File name too long (os error 36)"
  | nulInPath => "file name contained an unexpected NUL byte"
  | other reason => reason

/-- The actions on files, by path. -/
structure Files (m : Type → Type) where
  /-- Whether the path leads to a regular file. -/
  isFile : String → m Bool
  /-- The whole file as text. -/
  read : String → m (Except ReadError String)
  /-- The absolute path without `.` and `..`, if the path leads anywhere. -/
  canonical : String → m (Option String)
  /-- Makes sure that a file can be appended to at this place in this directory, and makes both
  where they are missing. -/
  prepare : (dir name : String) → m (Except ReadError Unit)

end Mentions
