import SlotTree.Proofs.Edit.Moving
import SlotTree.Proofs.Tree.Relabelling

/-!
# Views of a tree

A view shows less of a node than there is to it, but all except for its bindings, and every change of
a node can be seen by it: what a node looks like after the change depends on what it looked like
before.  Trees that look alike have the same nodes, up to what the view does not show.

The two views that matter show everything, and everything but the bindings.

## Main definitions

* `Node.bare`, `Tree.skeleton` — a node and a tree without bindings.
* `Node.IsView` — views of nodes.
* `Tree.Resembles` — trees that look alike.

## Main results

* `Node.isView_id`, `Node.isView_bare` — the two views.
* `Tree.Resembles.rehung` — trees that look alike differ in bindings at most.
-/

namespace SlotTree

/-! ### Nodes -/

namespace Node

/-- A node without its bindings. -/
def bare (n : Node) : Node := { n with inputs := .empty }

/-- A view of nodes shows all but the bindings, and can follow every change. -/
structure IsView {β : Type} (view : Node → β) : Prop where
  /-- Nodes that look alike differ in their bindings at most. -/
  bare : ∀ {m n}, view m = view n → m.bare = n.bare
  /-- They still look alike when a child has come to them. -/
  attach : ∀ {m n}, view m = view n → ∀ slotName content k c,
    view (m.attach slotName content k c) = view (n.attach slotName content k c)
  /-- They still look alike when a child has gone from them. -/
  detach : ∀ {m n}, view m = view n → ∀ slotName content k,
    view (m.detach slotName content k) = view (n.detach slotName content k)
  /-- They still look alike when they have been given a place. -/
  settle : ∀ {m n}, view m = view n → ∀ link, view (m.settle link) = view (n.settle link)
  /-- They still look alike when all ids in them have been exchanged. -/
  relabel : ∀ {m n}, view m = view n → ∀ f, view (m.relabel f) = view (n.relabel f)
  /-- They still look alike when an input has been bound. -/
  bind : ∀ {m n}, view m = view n → ∀ a e, view (m.bind a e) = view (n.bind a e)

theorem eq_of_bare_eq {m n : Node} (h : m.bare = n.bare) : m = { n with inputs := m.inputs } := by
  cases m
  cases n
  cases h
  rfl

namespace IsView

variable {β : Type} {view : Node → β} (hv : IsView view) {m n : Node} (h : view m = view n)

include hv h

theorem id : m.id = n.id := by rw [eq_of_bare_eq (hv.bare h)]

theorem schema : m.schema = n.schema := by rw [eq_of_bare_eq (hv.bare h)]

theorem parent : m.parent = n.parent := by rw [eq_of_bare_eq (hv.bare h)]

theorem slots : m.slots = n.slots := by rw [eq_of_bare_eq (hv.bare h)]

end IsView

/-- Everything can be seen. -/
theorem isView_self : IsView fun n : Node => n where
  bare h := congrArg Node.bare h
  attach h slotName content k c := congrArg (fun n : Node => n.attach slotName content k c) h
  detach h slotName content k := congrArg (fun n : Node => n.detach slotName content k) h
  settle h link := congrArg (fun n : Node => n.settle link) h
  relabel h f := congrArg (Node.relabel f) h
  bind h a e := congrArg (fun n : Node => n.bind a e) h

theorem bare_settle (n : Node) (link : Option ParentLink) :
    (n.settle link).bare = n.bare.settle link := by
  cases link <;> rfl

theorem bare_bind (n : Node) (a : InputAddress) (e : Option TypedExpression) :
    (n.bind a e).bare = n.bare := rfl

/-- Everything but the bindings can be seen. -/
theorem isView_bare : IsView Node.bare where
  bare h := h
  attach h _ _ _ _ := by rw [eq_of_bare_eq h]; rfl
  detach h _ _ _ := by rw [eq_of_bare_eq h]; rfl
  settle h _ := by rw [bare_settle, bare_settle, h]
  relabel h _ := by rw [eq_of_bare_eq h]; rfl
  bind h _ _ := h

/-- The links of children that move depend on the id of the node alone. -/
theorem movedLinks_congr {m n : Node} (h : m.id = n.id) (slotName : String) (k : Option Nat)
    (content : SlotContent) : m.movedLinks slotName k content = n.movedLinks slotName k content := by
  cases content with
  | single child => rfl
  | collection ids =>
    cases k with
    | none => rfl
    | some k => rw [movedLinks, movedLinks, linksFrom, linksFrom, h]

end Node

/-! ### Trees -/

namespace Tree

variable {β : Type} {view : Node → β} {defs : Definitions} {t u v : Tree}

/-- A tree without the bindings of its nodes. -/
def skeleton (t : Tree) : Tree := { t with nodes := t.nodes.map Node.bare }

/-- Trees look alike through a view. -/
structure Resembles (view : Node → β) (t u : Tree) : Prop where
  /-- The root is the same. -/
  root : u.root = t.root
  /-- The nodes look alike. -/
  nodes : u.nodes.map view = t.nodes.map view

theorem resembles_bare_iff : Resembles Node.bare t u ↔ u.skeleton = t.skeleton := by
  constructor
  · intro h
    rw [skeleton, skeleton, h.root, h.nodes]
  · intro h
    rw [skeleton, skeleton, mk.injEq] at h
    exact ⟨h.1, h.2⟩

theorem resembles_self_iff : Resembles (fun n => n) t u ↔ u = t := by
  constructor
  · intro h
    have hnodes : u.nodes = t.nodes := by
      rw [← SortedMap.map_self u.nodes, h.nodes, SortedMap.map_self]
    cases t
    cases u
    cases h.root
    cases hnodes
    rfl
  · rintro rfl
    exact ⟨rfl, rfl⟩

namespace Resembles

theorem refl (view : Node → β) (t : Tree) : Resembles view t t := ⟨rfl, rfl⟩

theorem symm (h : Resembles view t u) : Resembles view u t := ⟨h.root.symm, h.nodes.symm⟩

theorem trans (h : Resembles view t u) (h' : Resembles view u v) : Resembles view t v :=
  ⟨h'.root.trans h.root, h'.nodes.trans h.nodes⟩

theorem of_get? (hroot : u.root = t.root)
    (h : ∀ y, (u.nodes.get? y).map view = (t.nodes.get? y).map view) : Resembles view t u :=
  ⟨hroot, SortedMap.ext_get? fun y => by rw [SortedMap.get?_map, SortedMap.get?_map, h]⟩

theorem get? (h : Resembles view t u) (y : String) :
    (u.nodes.get? y).map view = (t.nodes.get? y).map view := by
  rw [← SortedMap.get?_map, ← SortedMap.get?_map, h.nodes]

/-- The same ids are in use. -/
theorem get?_eq_none (h : Resembles view t u) {y : String} (hy : t.nodes.get? y = none) :
    u.nodes.get? y = none := by
  have := h.get? y
  rwa [hy, Option.map_none, Option.map_eq_none_iff] at this

/-- The nodes under an id look alike. -/
theorem get?_eq_some (h : Resembles view t u) {y : String} {n : Node} (hy : t.nodes.get? y = some n) :
    ∃ m, u.nodes.get? y = some m ∧ view m = view n := by
  have := h.get? y
  rw [hy, Option.map_some] at this
  exact Option.map_eq_some_iff.mp this

/-- Nodes that look alike are put under one id. -/
theorem put (h : Resembles view t u) {m n : Node} (hmn : view m = view n) (id : String) :
    Resembles view (t.put id n) (u.put id m) := by
  refine of_get? h.root fun y => ?_
  rw [get?_put, get?_put]
  split
  · rw [Option.map_some, Option.map_some, hmn]
  · exact h.get? y

/-- Trees that look alike give a new node the same id. -/
theorem freshId (h : Resembles view t u) (stem : String) : u.freshId stem = t.freshId stem := by
  have hhas : ∀ id, u.has id = t.has id := by
    intro id
    have := congrArg Option.isSome (h.get? id)
    rwa [Option.isSome_map, Option.isSome_map] at this
  have hsize : u.size = t.size := by
    have := congrArg SortedMap.size h.nodes
    rwa [SortedMap.size_map, SortedMap.size_map] at this
  have hfrom : ∀ tries n, u.freshIdFrom stem tries n = t.freshIdFrom stem tries n := by
    intro tries
    induction tries with
    | zero => exact fun _ => rfl
    | succ tries ih =>
      intro n
      rw [freshIdFrom, freshIdFrom, hhas, ih]
  rw [Tree.freshId, Tree.freshId, hsize, hfrom]

/-- Trees that look alike differ in bindings at most. -/
theorem rehung (hv : Node.IsView view) (h : Resembles view t u) : Rehung (Equiv.refl _) t u where
  root := by rw [h.root, Equiv.coe_refl, Option.map_id, id]
  node := by
    intro y n hn
    obtain ⟨m, hm, hmn⟩ := h.get?_eq_some hn
    refine ⟨m.inputs, ?_⟩
    rw [show n.rehang (Equiv.refl String) m.inputs = m from
      (Node.rehang_id n m.inputs).trans (Node.eq_of_bare_eq (hv.bare hmn)).symm]
    exact hm
  none := fun hn => h.get?_eq_none hn

end Resembles

end Tree

end SlotTree
