/-!
# Listeners

A registry of listeners, in the order in which they were added.  Adding a listener gives a handle,
which removes it again.

When listeners are told something, those that are registered at that moment are called, one after
the other.  A call may change everything, the registry included; listeners that are added or removed
meanwhile are so from the next time on.

## Main definitions

* `Registry`, `Registry.add`, `Registry.remove` — registries.
* `Handle`, `Handle.join` — handles; several can be joined to one.
* `announce` — tell the listeners something.
-/

namespace SlotTree

/-- What removes listeners from a registry: their numbers. -/
structure Handle where
  /-- The numbers, in the order in which they are removed. -/
  ids : List Nat
  deriving DecidableEq, Repr, Inhabited

/-- One handle for what several handles remove. -/
def Handle.join (handles : List Handle) : Handle := ⟨handles.flatMap Handle.ids⟩

/-- Listeners in the order in which they were added. -/
structure Registry (α : Type) where
  /-- The number of the next listener. -/
  nextId : Nat := 0
  /-- The listeners with their numbers. -/
  entries : List (Nat × α) := []
  deriving Repr, Inhabited

namespace Registry

variable {α : Type}

/-- Add a listener, last. -/
def add (r : Registry α) (listener : α) : Registry α × Handle :=
  ({ nextId := r.nextId + 1, entries := r.entries ++ [(r.nextId, listener)] }, ⟨[r.nextId]⟩)

/-- Remove the listener with a number, if it is there. -/
def removeId (r : Registry α) (id : Nat) : Registry α :=
  { r with entries := r.entries.filter fun e => e.1 ≠ id }

/-- Remove the listeners of a handle. -/
def remove (r : Registry α) (h : Handle) : Registry α := h.ids.foldl removeId r

/-- The listeners, in order. -/
def listeners (r : Registry α) : List α := r.entries.map Prod.snd

/-- The number of listeners. -/
def size (r : Registry α) : Nat := r.entries.length

/-- The text that describes a registry. -/
def display (r : Registry α) : String := "Listeners \x7b count: " ++ toString r.size ++ " \x7d"

end Registry

/-- The text that describes a handle. -/
def Handle.display (_ : Handle) : String := "Unsubscribe"

/-- Call the listeners that a state has registered, one after the other; every call may change the
state. -/
def announce {α σ : Type} (registry : σ → Registry α) (call : α → σ → σ) (s : σ) : σ :=
  (registry s).listeners.foldl (fun s listener => call listener s) s

end SlotTree
