import SlotTree.Cli.Help
import SlotTree.Cli.Host
import SlotTree.Cli.Project
import SlotTree.Cli.Starter
import SlotTree.Json.Pretty
import SlotTree.Listing.Data
import SlotTree.Listing.Outline
import SlotTree.Patch.Codec
import SlotTree.Schema.Codec
import SlotTree.Schema.Summary

/-!
# Commands

The three commands: start a project, apply a file of patches to an empty document, list the node
types.

## Main definitions

* `runInit`, `runReplay`, `runSchemas` — the commands.
* `Command.run`, `runArguments` — run a command, and what a command line asks for.
-/

namespace SlotTree.Cli

variable {m : Type → Type} [Monad m]

/-- What a command does: it may stop with a failure. -/
abbrev Run (m : Type → Type) (α : Type) : Type := ExceptT Failure m α

/-- Print a line. -/
def Host.say (host : Host m) (text : String) : Run m Unit := liftM (host.print (text ++ "\n"))

/-- Read a file, or fail with the error in words. -/
def Host.load (host : Host m) (path : String) (fail : FileError → Failure) : Run m String := do
  match ← liftM (host.read path) with
  | .ok text => return text
  | .error error => throw (fail error)

/-- Write a file, or fail with the error in words. -/
def Host.save (host : Host m) (path text : String) : Run m Unit := do
  match ← liftM (host.write path text) with
  | .ok () => return ()
  | .error error => throw ⟨[error.message]⟩

/-! ### Files of a project -/

/-- What is said about a text that is not the JSON that is asked for. -/
def unreadableText : String := "<json>"

/-- The configuration of the project in the working directory; all defaults, if there is none. -/
def readProject (host : Host m) : Run m Project := do
  let path := host.path configName
  if ← liftM (host.isPresent path) then
    let text ← host.load path fun error => ⟨[error.message]⟩
    match (Project.decoder.run text : Except (Fault Empty) Project) with
    | .ok project => return project
    | .error _ => throw ⟨[unreadableText]⟩
  else return {}

/-- The wording of a failure to load definitions. -/
def loadMessage : Definitions.LoadError → String
  | .unreadable .malformed => "Failed to load definitions: " ++ unreadableText
  | .unreadable (.rejected error) => "Failed to load definitions: " ++ error.message
  | .inconsistent error => error.message

/-- The definitions in a file: the named one, or that of the project. -/
def readDefinitions (host : Host m) (name : Option String) (project : Project) :
    Run m Definitions := do
  let path := host.path (name.getD project.definitions)
  let context := "Failed to load definitions from " ++ path
  let text ← host.load path fun error =>
    ⟨[context, "Failed to load definitions: " ++ path ++ ": " ++ error.message]⟩
  match Definitions.load text with
  | .ok defs => return defs
  | .error error => throw ⟨[context, loadMessage error]⟩

/-- The patches in a file. -/
def readPatches (host : Host m) (path : String) : Run m (List Patch) := do
  let text ← host.load path fun error => ⟨["Failed to read " ++ path, error.message]⟩
  match ((Decoder.list Patch.decoder).run text : Except (Fault Empty) (List Patch)) with
  | .ok patches => return patches
  | .error _ => throw ⟨["Invalid patch file " ++ path, unreadableText]⟩

/-- What follows the last slash of a path. -/
def lastComponent (path : String) : List Char :=
  (path.toList.reverse.takeWhile (· ≠ '/')).reverse

/-- A file's name without its last extension.  A point in front does not begin one. -/
def fileStem (path : String) : String :=
  let name := lastComponent path
  match name.reverse.dropWhile (· ≠ '.') with
  | '.' :: c :: rest => String.ofList (c :: rest).reverse
  | _ => String.ofList name

/-! ### Starting a project -/

/-- Write the starter definitions and a configuration.  A project that is there already is left as
it is, unless files are to be replaced. -/
def runInit (host : Host m) (definitions : String) (force : Bool) : Run m Unit := do
  let configPath := host.path configName
  if !force && (← liftM (host.isPresent configPath)) then
    host.say ("⚠️ " ++ configName ++ " already exists")
    host.say "Use --force to overwrite"
  else
    host.say "📝 Initializing Initiative project..."
    let path := host.path definitions
    if force || !(← liftM (host.isPresent path)) then
      host.save path starterDefinitions
      host.say ("  ✓ Created " ++ definitions)
    host.save configPath ({ definitions : Project }.encode.pretty)
    host.say ("  ✓ Created " ++ configName)
    host.say ""
    host.say "✅ Project initialized!"
    host.say ""
    host.say "Next steps:"
    host.say "  1. Run: initiative schemas"
    host.say "  2. Write a patches.json script"
    host.say "  3. Run: initiative replay patches.json"

/-! ### Listing node types -/

/-- Print the summaries of all node types. -/
def runSchemas (host : Host m) (definitions : Option String) : Run m Unit := do
  let project ← readProject host
  let defs ← readDefinitions host definitions project
  match defs.schemas with
  | [] => host.say "⚠️  No node types defined"
  | schemas => liftM (host.print (String.join (schemas.map NodeSchema.summary)))

/-! ### Replaying patches -/

/-- A document's refusal as a failure. -/
def refusal {α : Type} : Except DocumentError α → Run m α
  | .ok a => return a
  | .error error => throw ⟨[error.message]⟩

/-- Apply patches one after the other, counting them; with `aloud`, a line is printed for each. -/
def replayPatches (host : Host m) (aloud : Bool) (count : Nat) (doc : Document) :
    List Patch → Run m Document
  | [] => return doc
  | p :: rest => do
    let now ← liftM host.now
    match doc.apply now p with
    | .error error =>
      throw ⟨["Patch #" ++ toString count ++ " (" ++ p.display ++ ") was rejected", error.message]⟩
    | .ok (doc, commit) =>
      if aloud then
        host.say ("  ✓ v" ++ toString commit.version ++ " " ++ p.display ++ " → " ++
          ", ".intercalate commit.changed)
      replayPatches host aloud (count + 1) doc rest

/-- Undo a number of times, or until there is nothing left; with `aloud`, a line is printed each
time. -/
def replayUndo (host : Host m) (aloud : Bool) (doc : Document) : Nat → Run m Document
  | 0 => return doc
  | count + 1 => do
    match ← refusal doc.undo with
    | none =>
      if aloud then host.say "  ⚠️ nothing left to undo"
      return doc
    | some (doc, commit) =>
      if aloud then
        host.say ("  ↶ v" ++ toString commit.version ++ " undo → " ++
          ", ".intercalate commit.changed)
      replayUndo host aloud doc count

/-- Apply the patches of a file to an empty document, undo some, and print what is left: as an
outline with a line for every step before it, or as JSON alone. -/
def runReplay (host : Host m) (patches : String) (definitions : Option String) (undo : Nat)
    (json : Bool) : Run m Unit := do
  let project ← readProject host
  let defs ← readDefinitions host definitions project
  let path := host.path patches
  let patches ← readPatches host path
  let doc := Document.new (fileStem path) defs { undo := project.undo }
  if !json then host.say "▶ Replaying patches..."
  let doc ← replayPatches host (!json) 1 doc patches
  let doc ← replayUndo host (!json) doc undo
  if json then
    let data ← refusal doc.data
    host.say data.json.pretty
  else
    host.say ""
    let outline ← refusal doc.outline
    liftM (host.print outline)

/-- Run a command. -/
def Command.run (host : Host m) : Command → Run m Unit
  | .init definitions force => runInit host definitions force
  | .replay patches definitions undo json => runReplay host patches definitions undo json
  | .schemas definitions => runSchemas host definitions

/-! ### Whole runs -/

/-- How a run ends. -/
inductive Ending where
  /-- What was asked for is done. -/
  | done : Ending
  /-- The command has stopped with a failure. -/
  | failed (failure : Failure) : Ending
  /-- The arguments cannot be understood. -/
  | misused : Ending
  deriving DecidableEq, Repr, Inhabited

/-- The exit code of a run. -/
def Ending.exitCode : Ending → Nat
  | .done => 0
  | .failed _ => 1
  | .misused => 2

/-- Run what the arguments ask for. -/
def runArguments (host : Host m) (arguments : List String) : m Ending := do
  match Request.parse arguments with
  | .misuse => return .misused
  | .help topic =>
    host.print topic.text
    return .done
  | .version =>
    host.print versionText
    return .done
  | .run command =>
    match ← (command.run host).run with
    | .ok () => return .done
    | .error failure => return .failed failure

end SlotTree.Cli
