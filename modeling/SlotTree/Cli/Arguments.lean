/-!
# Command-line arguments

What the arguments of the command line ask for.  There are three commands, each with options of its
own; `--verbose` and `--help` may stand before or behind the name of the command.

An option is given by its long name behind two dashes or by one letter behind one dash, letters may
be written together, and the value of an option may follow behind an equals sign or as the next
argument, after a letter also at once.  No option may be given twice.  Behind `--` no options are
looked for.  Arguments are read from left to right, and the first that is wrong, or asks for help,
settles what is done.

## Main definitions

* `OptionSpec`, `CommandSpec` — what an option and a command look like.
* `Command`, `Request` — the commands, and what else can be asked for.
* `Request.parse` — what arguments ask for.
-/

namespace SlotTree.Cli

/-- What the program does on files. -/
inductive Command where
  /-- Start a project: the name of its definitions file, and whether files are replaced. -/
  | init (definitions : String) (force : Bool) : Command
  /-- Apply a file of patches to an empty document: the file, another definitions file, how many
  undos follow, and whether the result is printed as JSON. -/
  | replay (patches : String) (definitions : Option String) (undo : Nat) (json : Bool) : Command
  /-- List the node types: of another definitions file, if one is named. -/
  | schemas (definitions : Option String) : Command
  deriving DecidableEq, Repr, Inhabited

/-! ### Options -/

/-- The value of an option. -/
structure ValueSpec where
  /-- What the value is called. -/
  name : String
  /-- Whether it has to be a number. -/
  isCount : Bool := false
  /-- The value that stands for one left out. -/
  default : Option String := none
  deriving DecidableEq, Repr, Inhabited

/-- An option. -/
structure OptionSpec where
  /-- The long name. -/
  long : String
  /-- The letter, if it has one. -/
  short : Option Char
  /-- What it does. -/
  help : String
  /-- Its value, if it takes one. -/
  value : Option ValueSpec := none
  deriving DecidableEq, Repr, Inhabited

/-- What an argument, or a part of one, says. -/
inductive Item where
  /-- An option is given, by its long name, with its value. -/
  | option (long : String) (value : Option String) : Item
  /-- An argument that is no option. -/
  | other (argument : String) : Item
  /-- Something that cannot be understood. -/
  | fault : Item
  deriving DecidableEq, Repr, Inhabited

/-- Whether an argument is taken for options: it starts with a dash and has more than that. -/
def isOption (argument : String) : Bool :=
  match argument.toList with
  | '-' :: _ :: _ => true
  | _ => false

/-- The digits of a number below `2 ^ 64`, with a plus sign in front or none. -/
def count? (text : String) : Option Nat :=
  let digits := match text.toList with
    | '+' :: digits => digits
    | digits => digits
  if digits.isEmpty || digits.any (fun c => !c.isDigit) then none
  else
    let n := digits.foldl (fun n c => n * 10 + (c.toNat - '0'.toNat)) 0
    if n < UInt64.size then some n else none

/-- An option that is given with a value. -/
def OptionSpec.given (spec : OptionSpec) (value : String) : Item :=
  if (spec.value.any (·.isCount)) && (count? value).isNone then .fault
  else .option spec.long (some value)

/-- What letters behind one dash say, and the option that still lacks its value. -/
def readLetters (specs : List OptionSpec) : List Char → List Item × Option OptionSpec
  | [] => ([], none)
  | c :: rest =>
    match specs.find? fun s => s.short = some c with
    | none => ([.fault], none)
    | some spec =>
      if spec.value.isSome then
        match rest with
        | [] => ([], some spec)
        | '=' :: value => ([spec.given (String.ofList value)], none)
        | value => ([spec.given (String.ofList value)], none)
      else
        let (items, lacking) := readLetters specs rest
        (.option spec.long none :: items, lacking)

/-- A long option with its value cut off at the first equals sign. -/
def splitValue (cs : List Char) : String × Option String :=
  match cs.dropWhile (· ≠ '=') with
  | '=' :: value => (String.ofList (cs.takeWhile (· ≠ '=')), some (String.ofList value))
  | _ => (String.ofList cs, none)

/-- What one argument with options says, and the option that still lacks its value. -/
def readOption (specs : List OptionSpec) (argument : String) : List Item × Option OptionSpec :=
  match argument.toList with
  | '-' :: '-' :: name =>
    let (long, value) := splitValue name
    match specs.find? fun s => s.long = long with
    | none => ([.fault], none)
    | some spec =>
      match spec.value, value with
      | some _, some value => ([spec.given value], none)
      | some _, none => ([], some spec)
      | none, none => ([.option long none], none)
      | none, some _ => ([.fault], none)
  | '-' :: letters => readLetters specs letters
  | _ => ([.fault], none)

/-- What arguments say, from left to right. -/
def readItems (specs : List OptionSpec) : List String → List Item
  | [] => []
  | "--" :: rest => rest.map .other
  | argument :: rest =>
    if isOption argument then
      match readOption specs argument, rest with
      | (items, none), rest => items ++ readItems specs rest
      | (items, some _), [] => items ++ [.fault]
      | (items, some spec), value :: rest =>
        if isOption value then items ++ [.fault]
        else items ++ spec.given value :: readItems specs rest
    else .other argument :: readItems specs rest

/-! ### What is given -/

/-- What is given on a command line. -/
structure Given where
  /-- The options by their long names, with their values. -/
  options : List (String × Option String) := []
  /-- The other arguments, the last first. -/
  others : List String := []
  deriving DecidableEq, Repr, Inhabited

/-- Why arguments do not lead to a command. -/
inductive Interrupt where
  /-- They cannot be understood. -/
  | misuse : Interrupt
  /-- They ask for help. -/
  | help : Interrupt
  /-- They ask for the version. -/
  | version : Interrupt
  deriving DecidableEq, Repr, Inhabited

namespace Given

/-- One more option. -/
def withOption (g : Given) (long : String) (value : Option String) : Given :=
  { g with options := (long, value) :: g.options }

/-- One more argument. -/
def withOther (g : Given) (argument : String) : Given := { g with others := argument :: g.others }

/-- Whether an option is given. -/
def has (g : Given) (long : String) : Bool := g.options.any fun o => o.1 = long

/-- The value of an option, if it is given. -/
def value? (g : Given) (long : String) : Option String :=
  (g.options.find? fun o => o.1 = long).bind Prod.snd

/-- Take up what arguments say, up to the first thing that stops it: no option may be given twice,
and there is a limit to the other arguments. -/
def collect (limit : Nat) (g : Given) : List Item → Except Interrupt Given
  | [] => .ok g
  | .fault :: _ => .error .misuse
  | .option "help" _ :: _ => .error .help
  | .option "version" _ :: _ => .error .version
  | .option long value :: rest =>
    if g.has long then .error .misuse else collect limit (g.withOption long value) rest
  | .other argument :: rest =>
    if g.others.length < limit then collect limit (g.withOther argument) rest
    else .error .misuse

end Given

/-! ### Commands -/

/-- An argument of a command that is no option. -/
structure ArgumentSpec where
  /-- How it is written in a usage line. -/
  label : String
  /-- What it is. -/
  help : String
  deriving DecidableEq, Repr, Inhabited

/-- What a command looks like. -/
structure CommandSpec where
  /-- The name. -/
  name : String
  /-- What it does. -/
  about : String
  /-- Its other arguments, which must all be given. -/
  arguments : List ArgumentSpec := []
  /-- Its options, in the order of its help. -/
  options : List OptionSpec
  deriving DecidableEq, Repr, Inhabited

/-- The option that is understood before and behind the name of a command. -/
def verboseSpec : OptionSpec := ⟨"verbose", some 'v', "Log engine activity to stderr", none⟩

/-- The option that asks for help. -/
def helpSpec : OptionSpec := ⟨"help", some 'h', "Print help", none⟩

/-- The option that asks for the version. -/
def versionSpec : OptionSpec := ⟨"version", some 'V', "Print version", none⟩

/-- The option that names a definitions file other than that of the project. -/
def definitionsSpec : OptionSpec :=
  ⟨"definitions", some 'd', "Definitions file (overrides config)", some { name := "DEFINITIONS" }⟩

/-- The options before the name of a command. -/
def programOptions : List OptionSpec := [verboseSpec, helpSpec, versionSpec]

/-- Starting a project. -/
def initSpec : CommandSpec where
  name := "init"
  about := "Initialize a new Initiative project"
  options :=
    [⟨"definitions", some 'd', "Definitions file to create",
        some { name := "DEFINITIONS", default := some "definitions.json" }⟩,
      verboseSpec, ⟨"force", some 'f', "Force overwrite existing config", none⟩, helpSpec]

/-- Applying a file of patches. -/
def replaySpec : CommandSpec where
  name := "replay"
  about := "Apply a patch script to an empty document and print the result"
  arguments := [⟨"<PATCHES>", "JSON file holding an array of patches"⟩]
  options :=
    [definitionsSpec, verboseSpec,
      ⟨"undo", some 'u', "Number of undo steps to perform after replaying",
        some { name := "UNDO", isCount := true, default := some "0" }⟩,
      ⟨"json", none, "Print the resulting tree as JSON", none⟩, helpSpec]

/-- Listing node types. -/
def schemasSpec : CommandSpec where
  name := "schemas"
  about := "List the node types in a definitions file"
  options := [definitionsSpec, verboseSpec, helpSpec]

/-- The commands. -/
def commandSpecs : List CommandSpec := [initSpec, replaySpec, schemasSpec]

/-- The command that is given, by its name; nothing if an argument is missing. -/
def Given.command? (g : Given) (name : String) : Option Command :=
  match name, g.others with
  | "init", [] => some (.init ((g.value? "definitions").getD "definitions.json") (g.has "force"))
  | "replay", [patches] =>
    some (.replay patches (g.value? "definitions") (((g.value? "undo").bind count?).getD 0)
      (g.has "json"))
  | "schemas", [] => some (.schemas (g.value? "definitions"))
  | _, _ => none

/-! ### Requests -/

/-- What is asked for help about. -/
inductive Topic where
  /-- The program. -/
  | program : Topic
  /-- A command. -/
  | command (spec : CommandSpec) : Topic
  /-- The help itself. -/
  | help : Topic
  deriving DecidableEq, Repr, Inhabited

/-- What the command line asks for. -/
inductive Request where
  /-- Run a command. -/
  | run (command : Command) : Request
  /-- Say what there is to know about a topic. -/
  | help (topic : Topic) : Request
  /-- Say which version it is. -/
  | version : Request
  /-- Nothing that can be understood. -/
  | misuse : Request
  deriving DecidableEq, Repr, Inhabited

namespace Request

/-- What is asked for where reading the arguments for a topic was interrupted. -/
def ofInterrupt (topic : Topic) : Interrupt → Request
  | .misuse => .misuse
  | .help => .help topic
  | .version => .version

/-- What arguments behind the name of a command ask for. -/
def ofCommand (spec : CommandSpec) (arguments : List String) : Request :=
  match Given.collect spec.arguments.length {} (readItems spec.options arguments) with
  | .error interrupt => .ofInterrupt (.command spec) interrupt
  | .ok g =>
    match g.command? spec.name with
    | some command => .run command
    | none => .misuse

/-- What arguments behind the word `help` ask for. -/
def ofHelp : List String → Request
  | [] => .help .program
  | ["help"] => .help .help
  | [name] =>
    match commandSpecs.find? fun spec => spec.name = name with
    | some spec => .help (.command spec)
    | none => .misuse
  | _ => .misuse

/-- What arguments ask for, the first of which is no option. -/
def ofName : List String → Request
  | [] => .misuse
  | "help" :: rest => ofHelp rest
  | name :: rest =>
    match commandSpecs.find? fun spec => spec.name = name with
    | some spec => ofCommand spec rest
    | none => .misuse

/-- What a command line asks for: options that go before the name of the command, the name, and the
rest. -/
def parse (arguments : List String) : Request :=
  let leading := arguments.takeWhile isOption
  match Given.collect 0 {} (readItems programOptions leading) with
  | .error interrupt => .ofInterrupt .program interrupt
  | .ok _ =>
    if "--" ∈ leading then .misuse else ofName (arguments.dropWhile isOption)

end Request

end SlotTree.Cli
