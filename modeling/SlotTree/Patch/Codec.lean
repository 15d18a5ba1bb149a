import SlotTree.Expression.Codec
import SlotTree.Patch.Basic

/-!
# Patches in JSON

A patch is a tagged value; its tag stands under `type`.

## Main definitions

* `Patch.encode` — the value of a patch.
* `Patch.ofJson?` — the patch that a value describes.
* `Patch.decoder` — the decoder of patches.
-/

namespace SlotTree

/-- The kinds of patches, in the order of their tags. -/
inductive PatchKind where
  /-- `Patch.createNode`. -/
  | createNode : PatchKind
  /-- `Patch.deleteNode`. -/
  | deleteNode : PatchKind
  /-- `Patch.renameNode`. -/
  | renameNode : PatchKind
  /-- `Patch.setNodeInput`. -/
  | setNodeInput : PatchKind
  deriving DecidableEq, Repr, Inhabited

namespace PatchKind

/-- All kinds, in order. -/
def all : List PatchKind := [.createNode, .deleteNode, .renameNode, .setNodeInput]

/-- The tag of a kind. -/
def tag : PatchKind → String
  | .createNode => "create-node"
  | .deleteNode => "delete-node"
  | .renameNode => "rename-node"
  | .setNodeInput => "set-node-input"

end PatchKind

/-- The value of a position. -/
def Json.position (i : UInt32) : Json := .natural i.toNat

namespace PatchParent

/-- The value of a parent. -/
def encode (p : PatchParent) : Json :=
  .object ([("nodeId", .string p.nodeId), ("slotName", .string p.slotName)] ++
    Json.present "index" Json.position p.index)

/-- The parent that a value describes: an object, or a list of its fields in order. -/
def ofJson? (v : Json) : Option PatchParent := do
  let body ← match v with
    | .object fields => some (Body.named fields)
    | .array items => some (Body.listed items)
    | _ => none
  match ← body.fields? ["nodeId", "slotName", "index"] with
  | [some (.string nodeId), some (.string slotName), index] =>
    return { nodeId, slotName, index := ← Json.absentOr Json.uint32? index }
  | _ => none

end PatchParent

namespace Patch

/-- The value of a patch.  What is left out has no field, but an input is cleared by a null. -/
def encode (p : Patch) : Json :=
  .object (("type", .string p.kind) ::
    match p with
    | .createNode nodeType parent nodeId =>
      ("nodeType", .string nodeType) ::
        (Json.present "parent" PatchParent.encode parent ++
          Json.present "nodeId" Json.string nodeId)
    | .deleteNode nodeId => [("nodeId", .string nodeId)]
    | .renameNode nodeId newId => [("nodeId", .string nodeId), ("newId", .string newId)]
    | .setNodeInput nodeId inputName index expression =>
      [("nodeId", .string nodeId), ("inputName", .string inputName)] ++
        Json.present "index" Json.position index ++
        [("expression", Json.optional Expression.encode expression)])

/-- The patch that a value describes.  The expression of a patch that is written as a list cannot be
left out. -/
def ofJson? (v : Json) : Option Patch := do
  let (kind, body) ← v.tagged? "type" PatchKind.all PatchKind.tag false
  match kind with
  | .createNode =>
    match ← body.fields? ["nodeType", "parent", "nodeId"] with
    | [some (.string nodeType), parent, nodeId] =>
      return .createNode nodeType (← Json.absentOr PatchParent.ofJson? parent)
        (← Json.absentOr Json.string? nodeId)
    | _ => none
  | .deleteNode =>
    match ← body.fields? ["nodeId"] with
    | [some (.string nodeId)] => return .deleteNode nodeId
    | _ => none
  | .renameNode =>
    match ← body.fields? ["nodeId", "newId"] with
    | [some (.string nodeId), some (.string newId)] => return .renameNode nodeId newId
    | _ => none
  | .setNodeInput =>
    match ← body.fields? ["nodeId", "inputName", "index", "expression"] with
    | [some (.string nodeId), some (.string inputName), index, expression] =>
      if body.isListed ∧ expression.isNone then none
      else
        return .setNodeInput nodeId inputName (← Json.absentOr Json.uint32? index)
          (← Json.absentOr (Expression.ofJson? true (Reading.maxLevels + 1)) expression)
    | _ => none

/-- Decode a patch. -/
def decoder {ε : Type} : Decoder ε Patch := .ofJson? ofJson?

end Patch

end SlotTree
