import SlotTree.Proofs.Outcomes
import SlotTree.Tree.Edit

/-!
# Edits in place

An edit can also be done in place: one step after the other on one and the same draft.  Where a step
fails, the draft stays as it is at that moment, half changed.  Here every edit is written down in
this way, and it is shown that it comes to the same: it fails where the edit fails, for the same
cause, and otherwise leaves the draft that the edit gives.

## Main definitions

* `InPlace` — computations on one state, which is there also after a failure.
* `InPlace.outcome` — what such a computation comes to, what a failure leaves behind put aside.
* `Draft.InPlace.apply` — the edit of a patch, in place.

## Main results

* `Draft.InPlace.outcome_apply` — in place, a patch comes to the same.
-/

namespace SlotTree

/-- A computation that changes a state step by step. -/
abbrev InPlace (σ α : Type) : Type := EStateM DocumentError σ α

namespace InPlace

variable {σ α β : Type}

/-- A step that leaves the state as it is. -/
def check (x : Except DocumentError α) : InPlace σ α := MonadExcept.ofExcept x

/-- The result and the state at the end, or the cause of a failure. -/
def outcome : EStateM.Result DocumentError σ α → Except DocumentError (α × σ)
  | .ok a s => .ok (a, s)
  | .error e _ => .error e

/-- The outcome of a computation without a result of its own. -/
def ends (x : Except DocumentError σ) : Except DocumentError (Unit × σ) := x.map fun s => ((), s)

@[simp] theorem outcome_pure (a : α) (s : σ) :
    outcome ((pure a : InPlace σ α) s) = .ok (a, s) := rfl

@[simp] theorem outcome_get (s : σ) : outcome ((get : InPlace σ σ) s) = .ok (s, s) := rfl

@[simp] theorem outcome_modify (f : σ → σ) (s : σ) :
    outcome ((modify f : InPlace σ Unit) s) = .ok ((), f s) := rfl

@[simp] theorem outcome_check (x : Except DocumentError α) (s : σ) :
    outcome (check x s) = x.map fun a => (a, s) := by
  cases x <;> rfl

/-- A second step starts from the state that the first one leaves. -/
theorem bind_apply (m : InPlace σ α) (k : α → InPlace σ β) (s : σ) :
    (m >>= k) s = match m s with
      | .ok a s => k a s
      | .error e s => .error e s := by
  change EStateM.bind m k s = _
  rw [EStateM.bind]
  cases m s <;> rfl

@[simp] theorem outcome_bind (m : InPlace σ α) (k : α → InPlace σ β) (s : σ) :
    outcome ((m >>= k) s) = outcome (m s) >>= fun r => outcome (k r.1 r.2) := by
  rw [bind_apply]
  cases m s <;> rfl

@[simp] theorem map_bind_eq (f : α → β) (x : Except DocumentError α)
    (k : β → Except DocumentError σ) : (x.map f >>= k) = x >>= fun a => k (f a) := by
  cases x <;> rfl

@[simp] theorem ends_pure (s : σ) : ends (pure s) = .ok ((), s) := rfl

@[simp] theorem ends_bind (x : Except DocumentError α) (f : α → Except DocumentError σ) :
    ends (x >>= f) = x >>= fun a => ends (f a) := by
  cases x <;> rfl

/-- What goes on after a computation without a result of its own. -/
@[simp] theorem bind_of_ends (x : Except DocumentError σ) (k : Unit × σ → Except DocumentError β) :
    (ends x >>= k) = x >>= fun s => k ((), s) := by
  cases x <;> rfl

/-- The steps of a loop, one for each item, come to what they come to one by one. -/
theorem outcome_forM {step : α → InPlace σ Unit} {f : σ → α → Except DocumentError σ}
    (h : ∀ a s, outcome (step a s) = ends (f s a)) (l : List α) :
    ∀ s, outcome (forM l step s) = ends (l.foldlM f s) := by
  induction l with
  | nil => exact fun _ => rfl
  | cons a rest ih =>
    intro s
    rw [List.forM_cons, outcome_bind, h, bind_of_ends, List.foldlM_cons, ends_bind]
    exact bind_congr fun s => ih s

end InPlace

open SlotTree.InPlace

namespace Draft.InPlace

/-! ### Steps -/

/-- Look a node up. -/
def node (id : String) : InPlace Draft Node := do
  check ((← get).tree.node id)

/-- Give a child its new link. -/
def moveChild (child : String × ParentLink) : InPlace Draft Unit := do
  let n ← node child.1
  modify (·.put child.1 (n.moveTo child.2))
  modify (·.touch child.1)

/-- Give the children that moved their new links. -/
def moveChildren (moved : MovedChildren) : InPlace Draft Unit := forM moved.entries moveChild

/-- Point the bindings of a node at another node. -/
def retargetNode (defs : Definitions) (old new nodeId : String) : InPlace Draft Unit := do
  let n ← node nodeId
  match ← check (n.boundInputs.foldlM ((← get).retargetBinding defs old new n) none) with
  | some n => do
    modify (·.put nodeId n)
    modify (·.touch nodeId)
  | none => pure ()

/-! ### Edits -/

/-- Create a node. -/
def create (defs : Definitions) (nodeType : String) (parent : Option PatchParent)
    (nodeId : String) : InPlace Draft Unit := do
  let schema ← check ((defs.node nodeType).mapError .schema)
  if (← get).tree.has nodeId then throw (.idAlreadyExists nodeId)
  match parent with
  | none =>
    if (← get).tree.root.isSome then throw .documentNotEmpty
    modify (·.put nodeId (.empty schema nodeId none))
    modify fun d => { d with tree := { d.tree with root := some nodeId } }
    modify (·.touch nodeId)
  | some parent =>
    let n ← node parent.nodeId
    let (n, link, moved) ←
      check ((n.addChild nodeId parent.slotName (parent.index.map UInt32.toNat)).mapError .node)
    modify (·.put parent.nodeId n)
    modify (·.put nodeId (.empty schema nodeId (some link)))
    modify (·.touch parent.nodeId)
    modify (·.touch nodeId)
    moveChildren moved

/-- Delete a node and all nodes below it. -/
def delete (nodeId : String) : InPlace Draft Unit := do
  let n ← node nodeId
  match n.parent with
  | none =>
    modify fun d => d.touchAll d.tree.keys
    modify fun d => { d with tree := {} }
  | some link =>
    let parent ← node link.nodeId
    let (parent, moved) ← check ((parent.removeChild link.slotName link.index).mapError .node)
    modify (·.put link.nodeId parent)
    modify (·.touch link.nodeId)
    moveChildren moved
    modify fun d => (d.tree.breadthFirst nodeId).foldl discard d

/-- Give a node another id. -/
def rename (defs : Definitions) (nodeId newId : String) : InPlace Draft Unit := do
  let n ← node nodeId
  if (← get).tree.has newId then throw (.idAlreadyExists newId)
  let (renamed, moved) := n.rename newId
  modify (·.drop nodeId)
  modify (·.put newId renamed)
  modify (·.touch nodeId)
  modify (·.touch newId)
  match n.parent with
  | some link =>
    let parent ← node link.nodeId
    let parent ← check ((parent.renameChild newId link.slotName link.index).mapError .node)
    modify (·.put link.nodeId parent)
    modify (·.touch link.nodeId)
  | none => modify fun d => { d with tree := { d.tree with root := some newId } }
  moveChildren moved
  forM ((← get).tree.breadthFirst newId) (retargetNode defs nodeId newId)

/-- Bind an input of a node, or clear it. -/
def setInput (defs : Definitions) (nodeId inputName : String) (index : Option UInt32)
    (expression : Option Expression) : InPlace Draft Unit := do
  let n ← node nodeId
  let e ← match expression with
    | some e => check (((← get).tree.checkInput defs n inputName e).map some)
    | none => pure none
  let n ← check ((n.setInput e ⟨inputName, index.map UInt32.toNat⟩).mapError .node)
  modify (·.put nodeId n)
  modify (·.touch nodeId)

/-- The edit of a patch. -/
def apply (defs : Definitions) : Patch → InPlace Draft Unit
  | .createNode nodeType parent (some nodeId) => create defs nodeType parent nodeId
  | .createNode nodeType parent none => do
    let schema ← check ((defs.node nodeType).mapError .schema)
    create defs nodeType parent ((← get).tree.freshId schema.idStem)
  | .deleteNode nodeId => delete nodeId
  | .renameNode nodeId newId => rename defs nodeId newId
  | .setNodeInput nodeId inputName index expression =>
    setInput defs nodeId inputName index expression

/-! ### Outcomes -/

variable (d : Draft) (defs : Definitions)

@[simp] theorem outcome_node (id : String) :
    outcome (node id d) = (d.tree.node id).map fun n => (n, d) := by
  rw [node, outcome_bind, outcome_get, Outcome.ok_bind, outcome_check]

theorem outcome_moveChild (child : String × ParentLink) :
    outcome (moveChild child d) = ends (d.moveChild child) := by
  rw [moveChild, Draft.moveChild, outcome_bind, outcome_node, map_bind_eq, ends_bind]
  exact bind_congr fun n => rfl

@[simp] theorem outcome_moveChildren (moved : MovedChildren) :
    outcome (moveChildren moved d) = ends (d.moveChildren moved) :=
  outcome_forM (fun child d => outcome_moveChild d child) moved.entries d

theorem outcome_retargetNode (old new nodeId : String) :
    outcome (retargetNode defs old new nodeId d) = ends (d.retargetNode defs old new nodeId) := by
  rw [retargetNode, Draft.retargetNode]
  simp only [outcome_bind, outcome_node, outcome_get, outcome_check, map_bind_eq, Outcome.ok_bind,
    ends_bind]
  refine bind_congr fun n => bind_congr fun updated => ?_
  cases updated <;> rfl

@[simp] theorem outcome_retargetBelow (old new : String) :
    outcome (forM (d.tree.breadthFirst new) (retargetNode defs old new) d) =
      ends (d.retargetBelow defs old new) :=
  outcome_forM (fun nodeId d => outcome_retargetNode d defs old new nodeId) _ d

theorem outcome_create (nodeType : String) (parent : Option PatchParent) (nodeId : String) :
    outcome (create defs nodeType parent nodeId d) =
      ends (d.create defs nodeType parent nodeId) := by
  rw [create, Draft.create]
  simp only [outcome_bind, outcome_check, outcome_get, map_bind_eq, Outcome.ok_bind, ends_bind]
  refine bind_congr fun schema => ?_
  by_cases hused : d.tree.has nodeId
  · simp only [if_pos hused]
    rfl
  · simp only [if_neg hused]
    cases parent with
    | none =>
      simp only [outcome_bind, outcome_get, Outcome.ok_bind]
      by_cases hroot : d.tree.root.isSome
      · simp only [if_pos hroot]
        rfl
      · simp only [if_neg hroot]
        rfl
    | some parent =>
      simp only [outcome_bind, outcome_node, outcome_check, outcome_modify, outcome_moveChildren,
        map_bind_eq, Outcome.ok_bind, ends_bind]

theorem outcome_delete (nodeId : String) :
    outcome (delete nodeId d) = ends (d.delete nodeId) := by
  rw [delete, Draft.delete]
  simp only [outcome_bind, outcome_node, map_bind_eq, ends_bind]
  refine bind_congr fun n => ?_
  cases n.parent with
  | none => rfl
  | some link =>
    simp only [outcome_bind, outcome_node, outcome_check, outcome_modify, outcome_moveChildren,
      map_bind_eq, bind_of_ends, Outcome.ok_bind, ends_bind]
    rfl

theorem outcome_rename (nodeId newId : String) :
    outcome (rename defs nodeId newId d) = ends (d.rename defs nodeId newId) := by
  rw [rename, Draft.rename]
  simp only [outcome_bind, outcome_node, outcome_get, map_bind_eq, Outcome.ok_bind, ends_bind]
  refine bind_congr fun n => ?_
  by_cases hused : d.tree.has newId
  · simp only [if_pos hused]
    rfl
  · simp only [if_neg hused]
    cases n.parent with
    | none =>
      simp only [outcome_bind, outcome_get, outcome_modify, outcome_moveChildren,
        outcome_retargetBelow, bind_of_ends, Outcome.ok_bind, ends_bind]
      rfl
    | some link =>
      simp only [outcome_bind, outcome_node, outcome_check, outcome_get, outcome_modify,
        outcome_moveChildren, outcome_retargetBelow, map_bind_eq, bind_of_ends, Outcome.ok_bind,
        ends_bind]
      rfl

theorem outcome_setInput (nodeId inputName : String) (index : Option UInt32)
    (expression : Option Expression) :
    outcome (setInput defs nodeId inputName index expression d) =
      ends (d.setInput defs nodeId inputName index expression) := by
  rw [setInput, Draft.setInput]
  simp only [outcome_bind, outcome_node, map_bind_eq, ends_bind]
  refine bind_congr fun n => ?_
  cases expression with
  | none =>
    simp only [pure_bind, outcome_bind, outcome_check, outcome_modify, map_bind_eq,
      Outcome.ok_bind, ends_bind, ends_pure]
  | some e =>
    simp only [outcome_bind, outcome_get, outcome_check, outcome_modify, map_bind_eq,
      Outcome.ok_bind, ends_bind, ends_pure]

/-- In place, a patch fails where the edit fails, for the same cause, and otherwise leaves the draft
that the edit gives. -/
theorem outcome_apply (p : Patch) : outcome (apply defs p d) = ends (d.apply defs p) := by
  cases p with
  | createNode nodeType parent nodeId =>
    cases nodeId with
    | some nodeId => exact outcome_create d defs nodeType parent nodeId
    | none =>
      rw [apply, Draft.apply]
      simp only [outcome_bind, outcome_check, outcome_get, map_bind_eq, Outcome.ok_bind, ends_bind]
      exact bind_congr fun schema => outcome_create d defs nodeType parent _
  | deleteNode nodeId => exact outcome_delete d nodeId
  | renameNode nodeId newId => exact outcome_rename d defs nodeId newId
  | setNodeInput nodeId inputName index expression =>
    exact outcome_setInput d defs nodeId inputName index expression

end Draft.InPlace

end SlotTree
