import SlotTree.Document.Basic
import SlotTree.Expression.Codec

/-!
# Outline of a document

The nodes of a document as indented lines: a line for every node, with its place in its parent, its
id and its type; below it a line for every binding, and then the lines of its children.  The last
line tells the version.

## Main definitions

* `Document.outline` — the lines of a document.
-/

namespace SlotTree

/-- A place in a parent as text: the slot, and the position in brackets. -/
def ParentLink.label (link : ParentLink) : String :=
  match link.index with
  | some i => link.slotName ++ "[" ++ toString i ++ "]"
  | none => link.slotName

/-- An indentation by two blanks for every level. -/
def indentation (depth : Nat) : String := String.ofList (List.replicate (2 * depth) ' ')

/-- The line of a node, and the lines of its bindings. -/
def Node.outline (n : Node) (depth : Nat) (label : Option String) : String :=
  let place := match label with
    | some label => label ++ ": "
    | none => ""
  let bindings := n.boundInputs.map fun b =>
    indentation depth ++ "  " ++ b.1.key ++ " = " ++ b.2.erase.encode.compact ++ "\n"
  indentation depth ++ place ++ n.id ++ " (" ++ n.nodeType ++ ")\n" ++ String.join bindings

/-- The lines of a node and of all nodes below it, at most so many levels deep. -/
def Tree.outlineFrom (t : Tree) : Nat → String → Option String → Nat → Except DocumentError String
  | 0, _, _, _ => .ok ""
  | levels + 1, id, label, depth => do
    let n ← t.node id
    let below ← n.childLinks.mapM fun child =>
      outlineFrom t levels child.1 (some child.2.label) (depth + 1)
    return n.outline depth label ++ String.join below

/-- The lines of a document. -/
def Document.outline (doc : Document) : Except DocumentError String := do
  let nodes ← match doc.tree.root with
    | some root => doc.tree.outlineFrom doc.tree.size root none 0
    | none => pure "(empty document)\n"
  return nodes ++ "version " ++ toString doc.version ++ "\n"

end SlotTree
