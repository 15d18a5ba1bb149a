import SlotTree.Document.Basic
import SlotTree.Text.Shown

/-!
# Summary of a document

One line about a document: its name, its root, and how many versions, nodes and entries of the undo
log it has.  Texts stand in it between quotes, so that every character can be told apart: quotes and
backslashes are escaped, and characters that cannot be seen by themselves are given by a short
escape or by their number.

## Main definitions

* `Text.inspect` — a text for inspection.
* `Document.summary` — the line.
-/

namespace SlotTree

/-- A character in a text for inspection. -/
def Text.inspectChar (c : Char) : List Char :=
  match c with
  | '"' => ['\\', '"']
  | '\\' => ['\\', '\\']
  | '\x00' => ['\\', '0']
  | '\t' => ['\\', 't']
  | '\n' => ['\\', 'n']
  | '\r' => ['\\', 'r']
  | c =>
    if isShown c then [c] else ['\\', 'u', '\x7b'] ++ Nat.toDigits 16 c.toNat ++ ['\x7d']

/-- A text for inspection. -/
def Text.inspect (s : String) : String :=
  String.ofList ('"' :: (s.toList.flatMap inspectChar ++ ['"']))

/-- A line about a document. -/
def Document.summary (doc : Document) : String :=
  let root := match doc.tree.root with
    | some root => "Some(" ++ Text.inspect root ++ ")"
    | none => "None"
  "Document \x7b name: " ++ Text.inspect doc.name ++ ", root_id: " ++ root ++ ", version: " ++
    toString doc.version ++ ", nodes: " ++ toString doc.tree.size ++ ", undo_entries: " ++
    toString doc.log.size ++ " \x7d"

end SlotTree
