import SlotTree.Document.Basic
import SlotTree.Listeners

/-!
# Observers of a document

Who listens to a document: some to changes, some to patches.

## Main definitions

* `Observers` — the two registries.
* `Observers.tell` — pass notices on, in order, each to the registry that it concerns.
-/

namespace SlotTree

/-- Those who listen to a document. -/
structure Observers (α : Type) where
  /-- Those who listen to changes. -/
  changes : Registry α := {}
  /-- Those who listen to patches. -/
  patches : Registry α := {}
  deriving Repr, Inhabited

namespace Observers

variable {α σ : Type}

/-- The registry that a notice concerns. -/
def concerned (o : Observers α) : Notice → Registry α
  | .change _ => o.changes
  | .patch _ => o.patches

/-- Pass notices on, one after the other, to those who listen to them at that moment. -/
def tell (observers : σ → Observers α) (call : α → Notice → σ → σ) (notices : List Notice) (s : σ) :
    σ :=
  notices.foldl (fun s notice => announce (fun s => (observers s).concerned notice)
    (fun listener => call listener notice) s) s

end Observers

end SlotTree
