import SlotTree.Json.Decoder

/-!
# Configuration of the history

How a document keeps its history for undoing.

## Main definitions

* `UndoConfig`, `DocumentConfig` — the options, with their defaults.
* `UndoConfig.encode`, `UndoConfig.decoder`, `DocumentConfig.encode`, `DocumentConfig.decoder`.
-/

namespace SlotTree

/-- The options of the undo log. -/
structure UndoConfig where
  /-- Edits of one input that follow one another within so many milliseconds are undone together. -/
  debounceMs : UInt64 := 200
  /-- The number of groups that are kept; zero keeps all. -/
  maxGroups : UInt64 := 100
  /-- Whether binding an input that had no value can be undone. -/
  recordFirstBinding : Bool := true
  deriving DecidableEq, Repr, Inhabited

/-- The options of a document. -/
structure DocumentConfig where
  /-- The options of its undo log. -/
  undo : UndoConfig := {}
  deriving DecidableEq, Repr, Inhabited

namespace UndoConfig

/-- The value of the options. -/
def encode (c : UndoConfig) : Json :=
  .object [("debounceMs", .natural c.debounceMs.toNat), ("maxGroups", .natural c.maxGroups.toNat),
    ("recordFirstBinding", .bool c.recordFirstBinding)]

/-- What is known of the options while they are decoded. -/
structure Draft where
  /-- What the field `debounceMs` holds. -/
  debounceMs : Option UInt64 := none
  /-- What the field `maxGroups` holds. -/
  maxGroups : Option UInt64 := none
  /-- What the field `recordFirstBinding` holds. -/
  recordFirstBinding : Option Bool := none

/-- Decode options; what is left out has its default. -/
def decoder {ε : Type} : Decoder ε UndoConfig :=
  .record
    [Decoder.field "debounceMs" Draft.debounceMs (fun n d => { d with debounceMs := some n })
        .uint64,
      Decoder.field "maxGroups" Draft.maxGroups (fun n d => { d with maxGroups := some n })
        .uint64,
      Decoder.field "recordFirstBinding" Draft.recordFirstBinding
        (fun b d => { d with recordFirstBinding := some b }) .bool]
    {}
    fun d => some
      { debounceMs := d.debounceMs.getD 200, maxGroups := d.maxGroups.getD 100,
        recordFirstBinding := d.recordFirstBinding.getD true }

end UndoConfig

namespace DocumentConfig

/-- The value of the options. -/
def encode (c : DocumentConfig) : Json := .object [("undo", c.undo.encode)]

/-- Decode options; what is left out has its default. -/
def decoder {ε : Type} : Decoder ε DocumentConfig :=
  .record [Decoder.field "undo" id (fun u _ => some u) UndoConfig.decoder] none fun undo =>
    some { undo := undo.getD {} }

end DocumentConfig

end SlotTree
