import SlotTree.Clock

/-!
# What commands need from outside

Commands read and write files, print, and look at the clock.  A `Host` says how that is done in some
monad, so that one definition of a command works on real files and on files held in a value.

## Main definitions

* `FileError` — why a file cannot be read or written.
* `pathFault?`, `isLongName` — the limits of a path and of a name in it.
* `Host` — how files are read and written, and texts printed.
* `Failure` — why a command stops.
-/

namespace SlotTree.Cli

/-- Why a file cannot be read or written. -/
inductive FileError where
  /-- There is no such file, or no such directory for it. -/
  | notFound : FileError
  /-- It is a directory. -/
  | isDirectory : FileError
  /-- Something on the way to it is no directory. -/
  | notADirectory : FileError
  /-- The path, or a name in it, is too long. -/
  | nameTooLong : FileError
  /-- The path has a null character in it. -/
  | nullInName : FileError
  /-- Anything else, in words. -/
  | other (text : String) : FileError
  deriving DecidableEq, Repr, Inhabited

/-- The wording of an error. -/
def FileError.message : FileError → String
  | .notFound => "No such file or directory (os error 2)"
  | .isDirectory => "Is a directory (os error 21)"
  | .notADirectory => "Not a directory (os error 20)"
  | .nameTooLong => "File name too long (os error 36)"
  | .nullInName => "file name contained an unexpected NUL byte"
  | .other text => text

/-- Whether a name in a path is longer than the 255 bytes that a directory can hold. -/
def isLongName (name : String) : Bool := decide (255 < name.utf8ByteSize)

/-- Why no file can be at a path, whatever files there are: it has a null character in it, or not
fewer than 4096 bytes. -/
def pathFault? (path : String) : Option FileError :=
  if path.toList.contains '\x00' then some .nullInName
  else if 4096 ≤ path.utf8ByteSize then some .nameTooLong
  else none

/-- How files are read and written, and texts printed. -/
structure Host (m : Type → Type) where
  /-- The working directory. -/
  directory : String
  /-- Whether there is a file or directory at a path. -/
  isPresent : String → m Bool
  /-- The text of the file at a path. -/
  read : String → m (Except FileError String)
  /-- Write a text to the file at a path. -/
  write : String → String → m (Except FileError Unit)
  /-- Print a text. -/
  print : String → m Unit
  /-- The time. -/
  now : m Instant

/-- The path of a file that is named from the working directory. -/
def Host.path {m : Type → Type} (host : Host m) (name : String) : String :=
  if name.toList.head? = some '/' then name
  else if host.directory.toList.getLast? = some '/' then host.directory ++ name
  else host.directory ++ "/" ++ name

/-- Why a command stops: an error, and what caused it. -/
structure Failure where
  /-- The texts of the error and of its causes. -/
  causes : List String
  deriving DecidableEq, Repr, Inhabited

/-- The wording of a failure. -/
def Failure.message (f : Failure) : String := ": ".intercalate f.causes

/-- The same failure as the cause of another. -/
def Failure.behind (text : String) (f : Failure) : Failure := ⟨text :: f.causes⟩

end SlotTree.Cli
