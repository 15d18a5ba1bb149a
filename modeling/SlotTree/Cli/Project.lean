import SlotTree.History.Config

/-!
# Projects

The configuration file of a project: where its definitions are, and how the history is kept.

## Main definitions

* `Project` — the configuration, with its defaults.
* `Project.encode`, `Project.decoder`.
-/

namespace SlotTree.Cli

/-- The name of the configuration file. -/
def configName : String := "initiative.config.json"

/-- The configuration of a project. -/
structure Project where
  /-- The name of the definitions file. -/
  definitions : String := "definitions.json"
  /-- The options of the undo log. -/
  undo : UndoConfig := {}
  deriving DecidableEq, Repr, Inhabited

namespace Project

/-- The value of a configuration. -/
def encode (p : Project) : Json :=
  .object [("definitions", .string p.definitions), ("undo", p.undo.encode)]

/-- What is known of a configuration while it is decoded. -/
structure Draft where
  /-- What the field `definitions` holds. -/
  definitions : Option String := none
  /-- What the field `undo` holds. -/
  undo : Option UndoConfig := none

/-- Decode a configuration; what is left out has its default. -/
def decoder {ε : Type} : Decoder ε Project :=
  .record
    [Decoder.field "definitions" Draft.definitions (fun s d => { d with definitions := some s })
        .string,
      Decoder.field "undo" Draft.undo (fun u d => { d with undo := some u }) UndoConfig.decoder]
    {}
    fun d => some
      { definitions := d.definitions.getD "definitions.json", undo := d.undo.getD {} }

end Project

end SlotTree.Cli
