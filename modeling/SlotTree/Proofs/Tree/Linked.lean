import SlotTree.Proofs.Node.Bindings
import SlotTree.Tree.Basic

/-!
# Linked trees

In a linked tree the links up and the links down agree: a node hangs where its link says, and what a
slot holds hangs there.  From every node the links lead up to the root, so there are no cycles and
no orphans.

## Main definitions

* `Tree.Climbs` — the way from a node up to the root.
* `Tree.Linked` — trees whose links agree.
* `Tree.Below` — the nodes at and below a node.

## Main results

* `Tree.Linked.length_lt_size` — a way up is shorter than the number of nodes.
* `Tree.Linked.distinct` — no child stands at two places.
* `Tree.Linked.below_cases` — what is below a node is the node, or below one of its children.
* `Tree.Linked.ext` — linked trees with the same slots and bindings are the same.
-/

namespace SlotTree.Tree

attribute [ext] Tree

variable {defs : Definitions} {t : Tree}

@[simp]
theorem get?_put (t : Tree) (id : String) (n : Node) (j : String) :
    (t.put id n).nodes.get? j = if id = j then some n else t.nodes.get? j :=
  SortedMap.get?_insert t.nodes id j n

@[simp]
theorem get?_drop (t : Tree) (id j : String) :
    (t.drop id).nodes.get? j = if id = j then none else t.nodes.get? j :=
  SortedMap.get?_erase t.nodes id j

theorem node_eq_ok_iff {id : String} {n : Node} :
    t.node id = .ok n ↔ t.nodes.get? id = some n := by
  rw [node]
  cases t.nodes.get? id <;> simp

theorem has_eq_true_iff {id : String} : t.has id = true ↔ ∃ n, t.nodes.get? id = some n :=
  Option.isSome_iff_exists

theorem has_eq_false_iff {id : String} : t.has id = false ↔ t.nodes.get? id = none :=
  SortedMap.contains_eq_false_iff

/-! ### The way up -/

/-- The way from a node up to the root: every link, with the node that it leads to. -/
inductive Climbs (t : Tree) : Node → List (ParentLink × Node) → Prop where
  /-- The root has no way to go. -/
  | root {n : Node} : n.parent = none → Climbs t n []
  /-- From another node the way leads to its parent first. -/
  | up {n p : Node} {link : ParentLink} {path : List (ParentLink × Node)} :
    n.parent = some link → t.nodes.get? link.nodeId = some p → Climbs t p path →
      Climbs t n ((link, p) :: path)

theorem Climbs.unique {n : Node} {path path' : List (ParentLink × Node)} (h : t.Climbs n path)
    (h' : t.Climbs n path') : path = path' := by
  induction h generalizing path' with
  | root hn =>
    cases h' with
    | root _ => rfl
    | up hn' _ _ => rw [hn] at hn'; cases hn'
  | up hn hp _ ih =>
    cases h' with
    | root hn' => rw [hn] at hn'; cases hn'
    | up hn' hp' h' =>
      rw [hn, Option.some.injEq] at hn'
      subst hn'
      rw [hp, Option.some.injEq] at hp'
      subst hp'
      rw [ih h']

theorem Climbs.get?_of_mem {n : Node} {path : List (ParentLink × Node)} (h : t.Climbs n path)
    {link : ParentLink} {m : Node} (hm : (link, m) ∈ path) :
    t.nodes.get? link.nodeId = some m := by
  induction h with
  | root _ => cases hm
  | up _ hp _ ih =>
    rcases List.mem_cons.mp hm with heq | hm
    · cases heq
      exact hp
    · exact ih hm

/-- The way on from a node on the way is shorter. -/
theorem Climbs.rest {n : Node} {path : List (ParentLink × Node)} (h : t.Climbs n path)
    {link : ParentLink} {m : Node} (hm : (link, m) ∈ path) :
    ∃ rest, t.Climbs m rest ∧ rest.length < path.length := by
  induction h with
  | root _ => cases hm
  | @up n p l path _ _ hclimb ih =>
    rcases List.mem_cons.mp hm with heq | hm
    · cases heq
      exact ⟨path, hclimb, Nat.lt_succ_self _⟩
    · obtain ⟨rest, hrest, hlt⟩ := ih hm
      exact ⟨rest, hrest, Nat.lt_succ_of_lt hlt⟩

/-! ### Linked trees -/

/-- The links of a tree agree, and lead up to the root from everywhere. -/
structure Linked (defs : Definitions) (t : Tree) : Prop where
  /-- Every node is kept under its own id. -/
  ownId : ∀ {id n}, t.nodes.get? id = some n → n.id = id
  /-- The schema of every node is the one that its type has in the definitions. -/
  known : ∀ {id n}, t.nodes.get? id = some n → defs.node n.nodeType = .ok n.schema
  /-- The slots of every node are those that its schema declares. -/
  fits : ∀ {id n}, t.nodes.get? id = some n → n.FitsSchema
  /-- Only the root has no parent. -/
  top : ∀ {id n}, t.nodes.get? id = some n → n.parent = none → t.root = some id
  /-- The root is a node without parent. -/
  rooted : ∀ {id}, t.root = some id → ∃ n, t.nodes.get? id = some n ∧ n.parent = none
  /-- A node stands at the place that its link names. -/
  up : ∀ {id n link}, t.nodes.get? id = some n → n.parent = some link →
    ∃ p, t.nodes.get? link.nodeId = some p ∧ p.child? link.slotName link.index = some id
  /-- What stands at a place has a link that names the place. -/
  down : ∀ {id p s i c}, t.nodes.get? id = some p → p.child? s i = some c →
    ∃ n, t.nodes.get? c = some n ∧ n.parent = some ⟨id, s, i⟩
  /-- From every node there is a way up. -/
  climbs : ∀ {id n}, t.nodes.get? id = some n → ∃ path, t.Climbs n path

/-- The tree without nodes. -/
theorem linked_empty (defs : Definitions) : Linked defs {} where
  ownId := fun h => by cases h
  known := fun h => by cases h
  fits := fun h => by cases h
  top := fun h => by cases h
  rooted := fun h => by cases h
  up := fun h => by cases h
  down := fun h => by cases h
  climbs := fun h => by cases h

namespace Linked

/-- No node is met twice on the way up. -/
theorem nodup_path (h : Linked defs t) {n : Node} {path : List (ParentLink × Node)}
    (hc : t.Climbs n path) (hn : t.nodes.get? n.id = some n) :
    (n.id :: path.map fun hop => hop.2.id).Nodup := by
  induction hc with
  | root _ => exact List.nodup_singleton _
  | @up n p link path hlink hp hclimb ih =>
    have hpid := h.ownId hp
    refine List.nodup_cons.mpr ⟨fun hmem => ?_, ih (hpid ▸ hp)⟩
    -- a node that is met again would have two ways up, of different lengths
    obtain ⟨⟨l, m⟩, hm, hid⟩ := List.mem_map.mp hmem
    have hclimbs : t.Climbs n ((link, p) :: path) := .up hlink hp hclimb
    obtain ⟨rest, hrest, hlt⟩ := hclimbs.rest hm
    have hm' := hclimbs.get?_of_mem hm
    rw [← h.ownId hm', hid, hn, Option.some.injEq] at hm'
    subst hm'
    rw [hclimbs.unique hrest] at hlt
    exact Nat.lt_irrefl _ hlt

/-- A way up is shorter than the number of nodes. -/
theorem length_lt_size (h : Linked defs t) {id : String} {n : Node}
    {path : List (ParentLink × Node)} (hn : t.nodes.get? id = some n) (hc : t.Climbs n path) :
    path.length < t.size := by
  have hn' : t.nodes.get? n.id = some n := by rw [h.ownId hn]; exact hn
  have := SortedMap.length_le_size (m := t.nodes) (h.nodup_path hc hn') (by
    intro j hj
    rcases List.mem_cons.mp hj with rfl | hj
    · rw [hn']; rfl
    · obtain ⟨⟨l, m⟩, hm, rfl⟩ := List.mem_map.mp hj
      have hm' := hc.get?_of_mem hm
      rw [h.ownId hm', hm']
      rfl)
  rw [List.length_cons, List.length_map] at this
  exact this

/-- No node has a link to itself. -/
theorem parent_ne_self (h : Linked defs t) {id : String} {n : Node} {link : ParentLink}
    (hn : t.nodes.get? id = some n) (hlink : n.parent = some link) : link.nodeId ≠ id := by
  intro heq
  obtain ⟨path, hpath⟩ := h.climbs hn
  cases hpath with
  | root hnone => rw [hlink] at hnone; cases hnone
  | @up _ p l path hl hp hclimb =>
    rw [hlink, Option.some.injEq] at hl
    subst hl
    rw [heq, hn, Option.some.injEq] at hp
    subst hp
    have hclimbs : t.Climbs n ((link, n) :: path) := .up hlink (heq ▸ hn) hclimb
    have := congrArg List.length (hclimbs.unique hclimb)
    simp at this

theorem child_ne_self (h : Linked defs t) {id c s : String} {p : Node} {i : Option Nat}
    (hp : t.nodes.get? id = some p) (hc : p.child? s i = some c) : c ≠ id := by
  obtain ⟨n, hn, hlink⟩ := h.down hp hc
  exact (h.parent_ne_self hn hlink).symm

/-- A child stands at one place in one node. -/
theorem place_unique (h : Linked defs t) {id id' c s s' : String} {p p' : Node}
    {i i' : Option Nat} (hp : t.nodes.get? id = some p) (hc : p.child? s i = some c)
    (hp' : t.nodes.get? id' = some p') (hc' : p'.child? s' i' = some c) :
    id = id' ∧ s = s' ∧ i = i' := by
  obtain ⟨n, hn, hlink⟩ := h.down hp hc
  obtain ⟨n', hn', hlink'⟩ := h.down hp' hc'
  rw [hn, Option.some.injEq] at hn'
  rw [hn', hlink', Option.some.injEq, ParentLink.mk.injEq] at hlink
  exact ⟨hlink.1.symm, hlink.2.1.symm, hlink.2.2.symm⟩

theorem distinct (h : Linked defs t) {id : String} {p : Node}
    (hp : t.nodes.get? id = some p) : p.Distinct :=
  fun _ _ _ _ _ hc hc' => (h.place_unique hp hc hp hc').2

/-- There is a root exactly if there are nodes. -/
theorem root_eq_none_iff (h : Linked defs t) :
    t.root = none ↔ ∀ id, t.nodes.get? id = none := by
  constructor
  · intro hroot id
    rw [Option.eq_none_iff_forall_ne_some]
    intro n hn
    obtain ⟨path, hpath⟩ := h.climbs hn
    -- the way up from any node ends in a root
    have htop : ∀ {m path}, t.Climbs m path → t.nodes.get? m.id = some m → False := by
      intro m path hc
      induction hc with
      | root hnone =>
        intro hm
        rw [h.top hm hnone] at hroot
        cases hroot
      | up _ hp _ ih => exact fun _ => ih ((h.ownId hp).symm ▸ hp)
    exact htop hpath ((h.ownId hn).symm ▸ hn)
  · intro hnone
    rw [Option.eq_none_iff_forall_ne_some]
    intro id hid
    obtain ⟨n, hn, -⟩ := h.rooted hid
    rw [hnone] at hn
    cases hn

/-! ### Linked trees are known by their slots -/

/-- In two linked trees with the same root and slots, the links are the same. -/
theorem parent_eq {t' : Tree} (h : Linked defs t) (h' : Linked defs t')
    (hroot : t'.root = t.root)
    (hslots : ∀ id n, t.nodes.get? id = some n → ∃ n', t'.nodes.get? id = some n' ∧
      n'.slots = n.slots) {id : String} {n n' : Node} (hn : t.nodes.get? id = some n)
    (hn' : t'.nodes.get? id = some n') : n'.parent = n.parent := by
  cases hlink : n.parent with
  | none =>
    have htop := h.top hn hlink
    obtain ⟨m, hm, hnone⟩ := h'.rooted (hroot.trans htop)
    rw [hn', Option.some.injEq] at hm
    rw [hm, hnone]
  | some link =>
    obtain ⟨p, hp, hc⟩ := h.up hn hlink
    obtain ⟨p', hp', hs⟩ := hslots _ _ hp
    rw [← Node.child?_congr hs] at hc
    obtain ⟨m, hm, hlink'⟩ := h'.down hp' hc
    rw [hn', Option.some.injEq] at hm
    rw [hm, hlink']

/-- Linked trees with the same root, slots and bindings are the same. -/
theorem ext {t' : Tree} (h : Linked defs t) (h' : Linked defs t') (hroot : t'.root = t.root)
    (hsome : ∀ id n, t.nodes.get? id = some n → ∃ n', t'.nodes.get? id = some n' ∧
      n'.schema = n.schema ∧ n'.slots = n.slots ∧ n'.inputs = n.inputs)
    (hnone : ∀ id, t.nodes.get? id = none → t'.nodes.get? id = none) : t' = t := by
  have hnodes : t'.nodes = t.nodes := by
    refine SortedMap.ext_get? fun id => ?_
    cases hn : t.nodes.get? id with
    | none => exact hnone id hn
    | some n =>
      obtain ⟨n', hn', hschema, hslots, hinputs⟩ := hsome id n hn
      have hparent := h.parent_eq h' hroot (fun id n hn => by
        obtain ⟨n', hn', -, hs, -⟩ := hsome id n hn
        exact ⟨n', hn', hs⟩) hn hn'
      have hid := (h'.ownId hn').trans (h.ownId hn).symm
      rw [hn', Node.ext hschema hid hparent hslots hinputs]
  exact Tree.ext hroot hnodes

end Linked

/-! ### What is below a node -/

/-- A node is at or below another: the links lead up from it to the other. -/
inductive Below (t : Tree) (x : String) : String → Prop where
  /-- A node is at itself. -/
  | self : Below t x x
  /-- What hangs on a node at or below is below. -/
  | child {y : String} {n : Node} {link : ParentLink} : t.nodes.get? y = some n →
    n.parent = some link → Below t x link.nodeId → Below t x y

theorem Below.trans {x y z : String} (hxy : t.Below x y) (hyz : t.Below y z) : t.Below x z := by
  induction hyz with
  | self => exact hxy
  | child hn hlink _ ih => exact .child hn hlink ih

/-- A node is below every node on its way up. -/
theorem Climbs.below_hop {x : String} {n : Node} {path : List (ParentLink × Node)}
    (hc : t.Climbs n path) (hn : t.nodes.get? x = some n) {link : ParentLink} {m : Node}
    (hm : (link, m) ∈ path) : t.Below link.nodeId x := by
  induction hc generalizing x with
  | root _ => cases hm
  | up hlink hp _ ih =>
    rcases List.mem_cons.mp hm with heq | hm
    · cases heq
      exact .child hn hlink .self
    · exact .child hn hlink (ih hp hm)

theorem Below.get?_isSome {x y : String} {n : Node} (h : t.Below x y)
    (hx : t.nodes.get? x = some n) : ∃ m, t.nodes.get? y = some m := by
  cases h with
  | self => exact ⟨n, hx⟩
  | child hm _ _ => exact ⟨_, hm⟩

/-- What is below a node has the longer way up. -/
theorem Below.length_le {x y : String} {n m : Node} {path path' : List (ParentLink × Node)}
    (h : t.Below x y) (hx : t.nodes.get? x = some n) (hn : t.Climbs n path)
    (hy : t.nodes.get? y = some m) (hm : t.Climbs m path') :
    path.length ≤ path'.length ∧ (path'.length = path.length → y = x) := by
  induction h generalizing m path' with
  | self =>
    rw [hx, Option.some.injEq] at hy
    subst hy
    rw [hn.unique hm]
    exact ⟨Nat.le_refl _, fun _ => rfl⟩
  | child hget hlink _ ih =>
    rw [hget, Option.some.injEq] at hy
    subst hy
    cases hm with
    | root hnone => rw [hlink] at hnone; cases hnone
    | up hlink' hp hclimb =>
      rw [hlink, Option.some.injEq] at hlink'
      subst hlink'
      have := (ih hp hclimb).1
      rw [List.length_cons]
      exact ⟨by omega, fun he => by omega⟩

namespace Linked

/-- Two nodes below each other are the same. -/
theorem below_antisymm (h : Linked defs t) {x y : String} {n : Node}
    (hx : t.nodes.get? x = some n) (hxy : t.Below x y) (hyx : t.Below y x) : y = x := by
  obtain ⟨m, hm⟩ := hxy.get?_isSome hx
  obtain ⟨path, hpath⟩ := h.climbs hx
  obtain ⟨path', hpath'⟩ := h.climbs hm
  have h1 := hxy.length_le hx hpath hm hpath'
  have h2 := hyx.length_le hm hpath' hx hpath
  exact h1.2 (by omega)

/-- A parent is not below its child. -/
theorem not_below_parent (h : Linked defs t) {x : String} {n : Node} {link : ParentLink}
    (hx : t.nodes.get? x = some n) (hlink : n.parent = some link) : ¬ t.Below x link.nodeId := by
  intro hb
  obtain ⟨p, hp, -⟩ := h.up hx hlink
  exact h.parent_ne_self hx hlink (h.below_antisymm hx hb (.child hx hlink .self))

/-- What is below a node is the node itself, or below one of its children. -/
theorem below_cases (h : Linked defs t) {x y : String} {n : Node}
    (hx : t.nodes.get? x = some n) :
    t.Below x y ↔ y = x ∨ ∃ c ∈ n.childIds, t.Below c y := by
  constructor
  · intro hb
    induction hb with
    | self => exact .inl rfl
    | @child y m link hm hlink _ ih =>
      refine .inr ?_
      rcases ih with heq | ⟨c, hc, hcb⟩
      · -- the node hangs on `x` itself
        obtain ⟨p, hp, hplace⟩ := h.up hm hlink
        rw [heq, hx, Option.some.injEq] at hp
        subst hp
        exact ⟨y, Node.mem_childIds_iff.mpr ⟨_, _, hplace⟩, .self⟩
      · exact ⟨c, hc, .child hm hlink hcb⟩
  · rintro (rfl | ⟨c, hc, hcb⟩)
    · exact .self
    · obtain ⟨s, i, hplace⟩ := Node.mem_childIds_iff.mp hc
      obtain ⟨m, hm, hlink⟩ := h.down hx hplace
      exact Below.trans (.child hm hlink .self) hcb

/-- Below a node, every parent but that of the node itself is below it, too. -/
theorem below_parent {x y : String} {m : Node} {link : ParentLink} (hb : t.Below x y)
    (hne : y ≠ x) (hm : t.nodes.get? y = some m) (hlink : m.parent = some link) :
    t.Below x link.nodeId := by
  cases hb with
  | self => exact absurd rfl hne
  | child hm' hlink' hb =>
    rw [hm, Option.some.injEq] at hm'
    subst hm'
    rw [hlink, Option.some.injEq] at hlink'
    rwa [hlink']

/-- Everything is below the root. -/
theorem below_root (h : Linked defs t) {r y : String} {m : Node} (hr : t.root = some r)
    (hy : t.nodes.get? y = some m) : t.Below r y := by
  obtain ⟨path, hpath⟩ := h.climbs hy
  induction hpath generalizing y with
  | root hnone =>
    have htop := h.top hy hnone
    rw [hr, Option.some.injEq] at htop
    rw [htop]
    exact .self
  | up hlink hp _ ih => exact .child hy hlink (ih hp)

end Linked

end SlotTree.Tree
