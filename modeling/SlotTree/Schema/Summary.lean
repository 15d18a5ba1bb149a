import SlotTree.Schema.Definitions
import SlotTree.ValueType.Display

/-!
# Summary of a schema

The lines that tell what a node type looks like: its name, then one line for every input, output and
slot, and under a collection slot one for each of its inputs.

## Main definitions

* `NodeSchema.summary` — the lines of a node type.
-/

namespace SlotTree

/-- A line. -/
def line (text : String) : String := text ++ "\n"

namespace InputDecl

/-- The line of an input. -/
def summary (indent : String) (entry : String × InputDecl) : String :=
  line (indent ++ "input " ++ entry.1 ++ ": " ++ entry.2.type.display)

end InputDecl

namespace OutputDecl

/-- The line of an output. -/
def summary (entry : String × OutputDecl) : String :=
  let scope := match entry.2.slot with
    | some slot => " (slot " ++ slot ++ ")"
    | none => ""
  line ("  output " ++ entry.1 ++ ": " ++ entry.2.type.display ++ scope)

end OutputDecl

namespace SlotDecl

/-- The lines of a slot. -/
def summary (entry : String × SlotDecl) : String :=
  match entry.2.inputs with
  | some inputs =>
    line ("  slot " ++ entry.1 ++ "[]") ++
      String.join (inputs.entries.map (InputDecl.summary "    "))
  | none => line ("  slot " ++ entry.1)

end SlotDecl

/-- The lines of a node type. -/
def NodeSchema.summary (s : NodeSchema) : String :=
  line s.name ++ String.join (s.inputs.entries.map (InputDecl.summary "  ")) ++
    String.join (s.outputs.entries.map OutputDecl.summary) ++
    String.join (s.slots.entries.map SlotDecl.summary)

end SlotTree
