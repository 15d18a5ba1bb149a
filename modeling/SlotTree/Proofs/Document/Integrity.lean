import Mathlib.Logic.Relation
import SlotTree.Proofs.Document.Runs

/-!
# Integrity of documents

In every run the nodes of a document form one tree: the links up and the links down agree, every
node hangs below the root, and the slots are those of the schemas.  And the bindings stay what they
were when they were made: checked expressions for declared inputs, which refer to outputs above
alone.

## Main definitions

* `Tree.Holds` — one node holds another in a slot.
* `Tree.Intact` — the nodes form one tree.
* `Tree.Grounded` — the bindings pass their checks, and refer to nodes above.

## Main results

* `Tree.Linked.intact`, `Tree.Valid.grounded` — valid trees are intact and grounded.
* `Document.intact_run`, `Document.grounded_run` — so are those of a document, in every run.
-/

namespace SlotTree

namespace Tree

/-- One node holds another in one of its slots. -/
def Holds (t : Tree) (x y : String) : Prop :=
  ∃ p s i, t.nodes.get? x = some p ∧ p.child? s i = some y

/-- The nodes form one tree.  A place in a single slot has no position; in a collection the position
is that of the child in the list. -/
structure Intact (defs : Definitions) (t : Tree) : Prop where
  /-- There is no root exactly if there are no nodes. -/
  noRoot : t.root = none ↔ ∀ x, t.nodes.get? x = none
  /-- Every node is kept under its own id. -/
  ownId : ∀ {x n}, t.nodes.get? x = some n → n.id = x
  /-- The root is a node. -/
  root : ∀ {x}, t.root = some x → ∃ n, t.nodes.get? x = some n
  /-- The root is the only node without a parent. -/
  noParent : ∀ {x n}, t.nodes.get? x = some n → (n.parent = none ↔ t.root = some x)
  /-- The link of a node names an existing node, which holds it at the place that the link names. -/
  up : ∀ {x n link}, t.nodes.get? x = some n → n.parent = some link →
    ∃ p content, t.nodes.get? link.nodeId = some p ∧ p.slots.get? link.slotName = some content ∧
      content.child? link.index = some x
  /-- Whatever a slot holds exists, and its link names the place back. -/
  down : ∀ {x p s content i y}, t.nodes.get? x = some p → p.slots.get? s = some content →
    content.child? i = some y → ∃ n, t.nodes.get? y = some n ∧ n.parent = some ⟨x, s, i⟩
  /-- No node is held at two places. -/
  once : ∀ {x x' p p' s s' i i' y}, t.nodes.get? x = some p → p.child? s i = some y →
    t.nodes.get? x' = some p' → p'.child? s' i' = some y → x = x' ∧ s = s' ∧ i = i'
  /-- Every node is reached from the root. -/
  reached : ∀ {x n}, t.nodes.get? x = some n →
    ∃ r, t.root = some r ∧ Relation.ReflTransGen t.Holds r x
  /-- No node is reached from itself. -/
  acyclic : ∀ x, ¬ Relation.TransGen t.Holds x x
  /-- The schema of a node is the one that its type has. -/
  schema : ∀ {x n}, t.nodes.get? x = some n → defs.node n.nodeType = .ok n.schema
  /-- The slots of a node are those that its schema declares, in its order. -/
  slots : ∀ {x n}, t.nodes.get? x = some n → n.slots.keys = n.schema.slots.keys
  /-- A slot is a collection exactly if it is declared as one. -/
  kinds : ∀ {x n s content decl}, t.nodes.get? x = some n → n.slots.get? s = some content →
    n.schema.slots.get? s = some decl → content.isCollection = decl.isCollection

/-- Every binding belongs to a declared input, is what the check of its own expression gives, and
refers to outputs above alone. -/
structure Grounded (defs : Definitions) (t : Tree) : Prop where
  /-- A binding is kept for an address that the node declares, and its expression passes the check
  for the input again, with the same outcome. -/
  checked : ∀ {x n k e}, t.nodes.get? x = some n → n.inputs.get? k = some e →
    ∃ (a : InputAddress) (input : InputDecl), a.key = k ∧ n.Declares a ∧
      n.schema.input a.name = .ok input ∧ e.erase.check (t.context defs x) input.type = .ok e
  /-- A head of a binding, at any depth, names another node on the way down from the root, and an
  output of it that is shown to the slot that the way goes through. -/
  above : ∀ {x n k e nodeId outputName}, t.nodes.get? x = some n → n.inputs.get? k = some e →
    (nodeId, outputName) ∈ e.erase.heads → nodeId ≠ x ∧
      ∃ links link p type, t.ancestorLinks x = .ok links ∧ link ∈ links ∧ link.nodeId = nodeId ∧
        t.nodes.get? nodeId = some p ∧ Exposes p link.slotName outputName type

variable {defs : Definitions} {t : Tree}

/-! ### One tree -/

/-- Along the way up to the root, every node is held by the next one. -/
theorem Linked.reached (h : Linked defs t) {x : String} {n : Node}
    (hn : t.nodes.get? x = some n) :
    ∃ r, t.root = some r ∧ Relation.ReflTransGen t.Holds r x := by
  obtain ⟨path, hpath⟩ := h.climbs hn
  induction hpath generalizing x with
  | root hnone => exact ⟨x, h.top hn hnone, .refl⟩
  | @up n p link path hlink hp _ ih =>
    obtain ⟨r, hr, hreach⟩ := ih hp
    obtain ⟨q, hq, hc⟩ := h.up hn hlink
    exact ⟨r, hr, hreach.tail ⟨q, link.slotName, link.index, hq, hc⟩⟩

/-- What is held further down has the longer way up. -/
theorem Linked.length_lt_of_transGen (h : Linked defs t) {x y : String}
    (hxy : Relation.TransGen t.Holds x y) : ∀ {n m path path'}, t.nodes.get? x = some n →
      t.Climbs n path → t.nodes.get? y = some m → t.Climbs m path' →
        path.length < path'.length := by
  -- one step down makes the way up longer by one
  have hstep : ∀ {x y n m path path'}, t.Holds x y → t.nodes.get? x = some n → t.Climbs n path →
      t.nodes.get? y = some m → t.Climbs m path' → path.length < path'.length := by
    rintro x y n m path path' ⟨p, s, i, hp, hc⟩ hx hn hy hm
    obtain ⟨m', hm', hlink⟩ := h.down hp hc
    rw [hy, Option.some.injEq] at hm'
    subst hm'
    rw [hm.unique (.up hlink hx hn), List.length_cons]
    exact Nat.lt_succ_self _
  induction hxy with
  | single hxy => exact fun hx hn hy hm => hstep hxy hx hn hy hm
  | tail _ hyz ih =>
    intro n m path path' hx hn hz hm
    obtain ⟨p, s, i, hp, hc⟩ := hyz
    obtain ⟨q, hq⟩ := h.climbs hp
    exact Nat.lt_trans (ih hx hn hp hq) (hstep ⟨p, s, i, hp, hc⟩ hp hq hz hm)

theorem Linked.acyclic (h : Linked defs t) (x : String) : ¬ Relation.TransGen t.Holds x x := by
  intro hxx
  obtain ⟨y, ⟨p, s, i, hp, -⟩, -⟩ := Relation.TransGen.head'_iff.mp hxx
  obtain ⟨path, hpath⟩ := h.climbs hp
  exact Nat.lt_irrefl _ (h.length_lt_of_transGen hxx hp hpath hp hpath)

/-- The nodes of a linked tree form one tree. -/
theorem Linked.intact (h : Linked defs t) : Intact defs t where
  noRoot := h.root_eq_none_iff
  ownId := h.ownId
  root := by
    intro x hx
    obtain ⟨n, hn, -⟩ := h.rooted hx
    exact ⟨n, hn⟩
  noParent := by
    intro x n hn
    refine ⟨h.top hn, fun hroot => ?_⟩
    obtain ⟨m, hm, hnone⟩ := h.rooted hroot
    rw [hn, Option.some.injEq] at hm
    rw [hm, hnone]
  up := by
    intro x n link hn hlink
    obtain ⟨p, hp, hc⟩ := h.up hn hlink
    obtain ⟨content, hs, hc⟩ := Node.child?_eq_some_iff.mp hc
    exact ⟨p, content, hp, hs, hc⟩
  down := by
    intro x p s content i y hp hs hc
    exact h.down hp (by rw [Node.child?_of_get? hs]; exact hc)
  once := h.place_unique
  reached := h.reached
  acyclic := h.acyclic
  schema := h.known
  slots := fun hn => (h.fits hn).keys
  kinds := fun hn hs hd => (h.fits hn).kind _ _ _ hs hd

/-! ### Bindings -/

/-- The bindings of a valid tree pass their checks, and refer to nodes above. -/
theorem Valid.grounded (h : Valid defs t) : Grounded defs t where
  checked := by
    intro x n k e hn he
    obtain ⟨a, hkey, ha, hok⟩ := h.bound hn he
    obtain ⟨input, hinput, hok⟩ := checkInput_eq_ok_iff.mp hok
    rw [h.linked.ownId hn] at hok
    exact ⟨a, input, hkey, ha, hinput, hok⟩
  above := by
    intro x n k e nodeId outputName hn he hhead
    obtain ⟨path, hpath⟩ := h.linked.climbs hn
    obtain ⟨⟨link, p⟩, hmem, hid, type, hexp⟩ := h.head_exposed hn he hpath hhead
    have hp := hpath.get?_of_mem hmem
    have hlink : link.nodeId = nodeId := (h.linked.ownId hp).symm.trans hid
    refine ⟨(h.head_above hn he hhead).1, (path.map Prod.fst).reverse, link, p, type,
      h.linked.ancestorLinks_eq hn hpath, ?_, hlink, hlink ▸ hp, hexp⟩
    exact List.mem_reverse.mpr (List.mem_map.mpr ⟨(link, p), hmem, rfl⟩)

end Tree

/-! ### Runs -/

/-- In every run the nodes of the document form one tree. -/
theorem Document.intact_run (name : String) (defs : Definitions) (config : DocumentConfig)
    (calls : List Document.Call) :
    Tree.Intact defs ((Document.new name defs config).run calls).tree :=
  (valid_run name defs config calls).linked.intact

/-- In every run the bindings of the document pass their checks, and refer to nodes above. -/
theorem Document.grounded_run (name : String) (defs : Definitions) (config : DocumentConfig)
    (calls : List Document.Call) :
    Tree.Grounded defs ((Document.new name defs config).run calls).tree :=
  (valid_run name defs config calls).grounded

end SlotTree
