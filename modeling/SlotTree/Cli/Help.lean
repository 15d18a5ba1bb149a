import SlotTree.Cli.Arguments

/-!
# Help

What is printed about the program and its commands when it is asked for.

A help text says what a thing does and how it is called, and then lists its parts under headings,
each part on a line of its own with the explanations standing in one column.

## Main definitions

* `listing` — parts and their explanations in two columns.
* `Topic.text` — the help on a topic.
* `versionText` — the version.
-/

namespace SlotTree.Cli

/-! ### Two columns -/

/-- A label filled up with blanks to some width. -/
def padded (width : Nat) (label : String) : String :=
  label ++ String.ofList (List.replicate (width - label.length) ' ')

/-- Lines with a label and an explanation each; the explanations begin in one column, two blanks
behind the longest label. -/
def listing (rows : List (String × String)) : String :=
  let width := (rows.map fun r => r.1.length).foldl max 0
  String.join (rows.map fun r => "  " ++ padded width r.1 ++ "  " ++ r.2 ++ "\n")

/-- A listing under a heading; nothing, if there is nothing to list. -/
def headed (heading : String) (rows : List (String × String)) : String :=
  if rows.isEmpty then "" else "\n" ++ heading ++ ":\n" ++ listing rows

/-! ### Parts -/

/-- How an option is written, with room for a letter where it has none. -/
def OptionSpec.label (spec : OptionSpec) : String :=
  let letter := match spec.short with
    | some c => String.ofList ['-', c] ++ ", "
    | none => "    "
  let value := match spec.value with
    | some v => " <" ++ v.name ++ ">"
    | none => ""
  letter ++ "--" ++ spec.long ++ value

/-- What an option does, and what stands for a value left out. -/
def OptionSpec.explanation (spec : OptionSpec) : String :=
  match spec.value.bind ValueSpec.default with
  | some text => spec.help ++ " [default: " ++ text ++ "]"
  | none => spec.help

/-- The line of an option. -/
def OptionSpec.row (spec : OptionSpec) : String × String := (spec.label, spec.explanation)

/-- The line of an argument. -/
def ArgumentSpec.row (spec : ArgumentSpec) : String × String := (spec.label, spec.help)

/-- The line of a command. -/
def CommandSpec.row (spec : CommandSpec) : String × String := (spec.name, spec.about)

/-! ### Topics -/

/-- The name of the program. -/
def programName : String := "initiative"

/-- What is printed when the version is asked for. -/
def versionText : String := programName ++ " 0.1.0\n"

/-- The help on help, which needs no options. -/
def helpCommand : CommandSpec where
  name := "help"
  about := "Print this message or the help of the given subcommand(s)"
  arguments := [⟨"[COMMAND]...", "Print help for the subcommand(s)"⟩]
  options := []

/-- How the program is called. -/
def programUsage : String := "Usage: " ++ programName ++ " [OPTIONS] <COMMAND>"

/-- How a command is called. -/
def CommandSpec.usage (spec : CommandSpec) : String :=
  let options := if spec.options.isEmpty then [] else ["[OPTIONS]"]
  "Usage: " ++ " ".intercalate
    ([programName, spec.name] ++ options ++ spec.arguments.map ArgumentSpec.label)

/-- The help on the program. -/
def programHelp : String :=
  "Initiative CLI - edit node documents through patches\n\n" ++ programUsage ++ "\n" ++
    headed "Commands" ((commandSpecs ++ [helpCommand]).map CommandSpec.row) ++
    headed "Options" (programOptions.map OptionSpec.row)

/-- The help on a command. -/
def CommandSpec.helpText (spec : CommandSpec) : String :=
  spec.about ++ "\n\n" ++ spec.usage ++ "\n" ++
    headed "Arguments" (spec.arguments.map ArgumentSpec.row) ++
    headed "Options" (spec.options.map OptionSpec.row)

/-- The help on a topic. -/
def Topic.text : Topic → String
  | .program => programHelp
  | .command spec => spec.helpText
  | .help => helpCommand.helpText

end SlotTree.Cli
