import SlotTree.Cli.Host
import SlotTree.Map.Sorted

/-!
# Files held in a value

A folder is a working directory whose files are held in a value, together with what has been
printed.  A directory exists when there is a file in it.

Outside the folder there are the directories around it, those that every system has at its root, and
the null device.  Files can be made there, but what is written to them is not part of the folder.

## Main definitions

* `Folder` — files under their names, and the text printed so far.
* `Folder.host` — commands on a folder.
* `Folder.written` — the files in which two folders differ.
-/

namespace SlotTree.Cli

/-- Files under their names from the working directory, and what has been printed. -/
structure Folder where
  /-- The texts of the files. -/
  files : SortedMap String := .empty
  /-- The text printed so far. -/
  printed : String := ""
  deriving Repr, Inhabited

namespace Folder

/-- What is found at a path. -/
inductive Place where
  /-- A file. -/
  | file (name text : String) : Place
  /-- A directory. -/
  | directory : Place
  /-- Nothing, in a directory that exists: a file could be made under the name. -/
  | vacant (name : String) : Place
  /-- A place for a file outside the working directory, with the text that is read there, if there
  is any.  What is written there is not kept. -/
  | outer (text : Option String) : Place
  /-- Nothing, and no file could be made there. -/
  | unreachable (cause : FileError) : Place
  /-- No directory, under a name with a slash behind it, which only directories have: reading fails
  with the cause, and writing fails as for a directory. -/
  | misnamed (cause : FileError) : Place
  deriving DecidableEq, Repr, Inhabited

/-- The name of a file from its directories, the innermost first. -/
def nameOf (parts : List String) : String := "/".intercalate parts.reverse

/-- Whether there is a file below a directory. -/
def hasDirectory (folder : Folder) (parts : List String) : Bool :=
  parts.isEmpty || folder.files.keys.any fun k => (nameOf parts ++ "/").toList.isPrefixOf k.toList

/-- What is found when a way through components ends before those that are left: whatever stands
there, if it is the last; else the cause why it ends, and slashes alone ask for a directory. -/
def stopped (here : Place) (cause : FileError) (rest : List String) : Place :=
  if rest.isEmpty then here
  else if rest.all (· = "") then .misnamed cause
  else .unreachable cause

/-- The directories at the root of every system. -/
def rootDirectories : List String :=
  ["bin", "boot", "dev", "etc", "home", "lib", "media", "mnt", "opt", "proc", "root", "run", "sbin",
    "srv", "sys", "tmp", "usr", "var"]

/-- What is found when going on through some components outside the working directory: from a
directory given by its own components, the innermost first, or from one around the working directory,
of which only those around it are known. -/
def outside (parts : Option (List String)) : List String → Place
  | [] => .directory
  | c :: rest =>
    if c = "" ∨ c = "." then outside parts rest
    else if c = ".." then outside (parts.map List.tail) rest
    else if isLongName c then stopped (.unreachable .nameTooLong) .nameTooLong rest
    else if parts = some [] ∧ c ∈ rootDirectories then outside (some [c]) rest
    else if parts = some ["dev"] ∧ c = "null" then stopped (.outer (some "")) .notADirectory rest
    else stopped (.outer none) .notFound rest

/-- What is found when going on through some components, from a directory given by its own. -/
def walk (folder : Folder) (parts : List String) : List String → Place
  | [] => .directory
  | c :: rest =>
    if c = "" ∨ c = "." then folder.walk parts rest
    else if c = ".." then
      match parts with
      | [] => outside none rest
      | _ :: parts => folder.walk parts rest
    else if isLongName c then stopped (.unreachable .nameTooLong) .nameTooLong rest
    else
      let parts := c :: parts
      let name := nameOf parts
      match folder.files.get? name with
      | some text => stopped (.file name text) .notADirectory rest
      | none =>
        if folder.hasDirectory parts then folder.walk parts rest
        else stopped (.vacant name) .notFound rest

/-- The components of a path. -/
def components (current : List Char) : List Char → List String
  | [] => [String.ofList current.reverse]
  | '/' :: rest => String.ofList current.reverse :: components [] rest
  | c :: rest => components (c :: current) rest

/-- What is found at a path. -/
def find (folder : Folder) (directory path : String) : Place :=
  match pathFault? path with
  | some cause => .unreachable cause
  | none =>
    let start := (directory ++ "/").toList
    if start.isPrefixOf path.toList then
      folder.walk [] (components [] (path.toList.drop start.length))
    else outside (some []) (components [] path.toList)

/-- Commands on the files of a folder, the working directory having some name.  Time stands
still. -/
def host (directory : String) : Host (StateM Folder) where
  directory := directory
  isPresent path := do
    match (← get).find directory path with
    | .file _ _ | .directory | .outer (some _) => return true
    | _ => return false
  read path := do
    match (← get).find directory path with
    | .file _ text | .outer (some text) => return .ok text
    | .directory => return .error .isDirectory
    | .vacant _ | .outer none => return .error .notFound
    | .unreachable cause | .misnamed cause => return .error cause
  write path text := do
    match (← get).find directory path with
    | .file name _ | .vacant name =>
      modify fun folder => { folder with files := folder.files.insert name text }
      return .ok ()
    | .outer _ => return .ok ()
    | .directory | .misnamed _ => return .error .isDirectory
    | .unreachable cause => return .error cause
  print text := modify fun folder => { folder with printed := folder.printed ++ text }
  now := return 0

/-- The files that are new in a folder, or have another text than before. -/
def written (before after : Folder) : List (String × String) :=
  after.files.entries.filter fun e => before.files.get? e.1 ≠ some e.2

end Folder

end SlotTree.Cli
