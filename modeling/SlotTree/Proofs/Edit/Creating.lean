import SlotTree.Proofs.Edit.Regraft
import SlotTree.Proofs.Tree.FreshIds

/-!
# Creating nodes

When a node can be created, and what the tree is then.

## Main definitions

* `Tree.alone` — the tree of a root without children.
* `Tree.Grows` — a tree before and after a child has been created.

## Main results

* `Draft.create_root_eq_ok_iff`, `Draft.create_child_inv`, `Draft.create_child_eq_ok` — when a node
  is created, and what comes of it.
* `Tree.Grows.regraft` — a child comes to its parent; all else stays.
-/

namespace SlotTree

theorem Definitions.name_of_node {defs : Definitions} {nodeType : String} {schema : NodeSchema}
    (h : defs.node nodeType = .ok schema) : schema.name = nodeType := by
  rw [node] at h
  split at h
  · next hs =>
    cases h
    simpa using List.find?_some hs
  · cases h

namespace Tree

variable {defs : Definitions} {t t' : Tree}

/-! ### Roots -/

/-- The tree of a root without children. -/
def alone (schema : NodeSchema) (c : String) : Tree where
  root := some c
  nodes := SortedMap.empty.insert c (.empty schema c none)

theorem get?_alone (schema : NodeSchema) (c y : String) :
    (alone schema c).nodes.get? y = if c = y then some (.empty schema c none) else none := by
  rw [alone, SortedMap.get?_insert, SortedMap.get?_empty]

theorem linked_alone {schema : NodeSchema} (hs : defs.node schema.name = .ok schema) (c : String) :
    Linked defs (alone schema c) := by
  have hone : ∀ {y n}, (alone schema c).nodes.get? y = some n →
      c = y ∧ n = .empty schema c none := by
    intro y n hn
    rw [get?_alone] at hn
    split at hn
    · next hy => exact ⟨hy, (Option.some.inj hn).symm⟩
    · cases hn
  exact {
    ownId := by
      intro y n hn
      obtain ⟨rfl, rfl⟩ := hone hn
      rfl
    known := by
      intro y n hn
      obtain ⟨-, rfl⟩ := hone hn
      exact hs
    fits := by
      intro y n hn
      obtain ⟨-, rfl⟩ := hone hn
      exact Node.fitsSchema_empty schema c none
    top := by
      intro y n hn _
      obtain ⟨rfl, -⟩ := hone hn
      rfl
    rooted := by
      intro r hr
      cases hr
      exact ⟨_, by rw [get?_alone, if_pos rfl], rfl⟩
    up := by
      intro y n link hn hlink
      obtain ⟨-, rfl⟩ := hone hn
      cases hlink
    down := by
      intro y n s i z hn hz
      obtain ⟨-, rfl⟩ := hone hn
      rw [Node.child?_nodeEmpty] at hz
      cases hz
    climbs := by
      intro y n hn
      obtain ⟨-, rfl⟩ := hone hn
      exact ⟨[], .root rfl⟩ }

theorem valid_alone {schema : NodeSchema} (hs : defs.node schema.name = .ok schema) (c : String) :
    Valid defs (alone schema c) where
  linked := linked_alone hs c
  bound := by
    intro y n k e hn he
    rw [get?_alone] at hn
    split at hn
    · cases hn
      cases he
    · cases hn

/-- Without a root there is nothing. -/
theorem Linked.eq_empty (h : Linked defs t) (hroot : t.root = none) : t = {} := by
  have hnodes : t.nodes = .empty := by
    refine SortedMap.ext_get? fun y => ?_
    rw [h.root_eq_none_iff.mp hroot, SortedMap.get?_empty]
  cases t
  cases hroot
  cases hnodes
  rfl

/-! ### Children -/

/-- A child has been created at a place of its parent. -/
structure Grows (defs : Definitions) (t t' : Tree) (schema : NodeSchema) (p : Node)
    (slotName : String) (content : SlotContent) (index : Option Nat) (c : String) : Prop where
  /-- The schema of the child is that of its type. -/
  known : defs.node schema.name = .ok schema
  /-- The id of the child was not in use. -/
  unused : t.nodes.get? c = none
  /-- The parent before. -/
  before : t.nodes.get? p.id = some p
  /-- What the slot held before. -/
  slot : p.slots.get? slotName = some content
  /-- The slot takes the child. -/
  admits : content.Admits index
  /-- The root stays. -/
  root : t'.root = t.root
  /-- The child. -/
  child : t'.nodes.get? c = some (.empty schema c (some ⟨p.id, slotName, content.place index⟩))
  /-- The parent after. -/
  after : t'.nodes.get? p.id = some (p.attach slotName content (content.place index) c)
  /-- All other nodes stay, but for the places of those that move. -/
  others : ∀ y, y ≠ c → y ≠ p.id →
    t'.nodes.get? y = (t.nodes.get? y).map fun n => n.settle
      ((p.movedLinks slotName ((content.place index).map (· + 1))
        (content.attach (content.place index) c)).get? y)

variable {schema : NodeSchema} {p : Node} {slotName c : String} {content : SlotContent}
  {index : Option Nat}

/-- An id that is not in use is not that of a child. -/
theorem Linked.not_child (h : Linked defs t) (hc : t.nodes.get? c = none)
    (hp : t.nodes.get? p.id = some p) (s : String) (i : Option Nat) : p.child? s i ≠ some c := by
  intro heq
  obtain ⟨n, hn, -⟩ := h.down hp heq
  rw [hc] at hn
  cases hn

/-- The parent still has every child at one place. -/
theorem Linked.distinct_attach (h : Linked defs t) (hc : t.nodes.get? c = none)
    (hp : t.nodes.get? p.id = some p) (hs : p.slots.get? slotName = some content)
    (ha : content.Admits index) :
    (p.attach slotName content (content.place index) c).Distinct :=
  (Node.extends_attach hs ha c).distinct_big (h.distinct hp) (h.not_child hc hp)

/-- The children that move exist, and are others than the parent and the child. -/
theorem Linked.moved_attach (h : Linked defs t) (hc : t.nodes.get? c = none)
    (hp : t.nodes.get? p.id = some p) (hs : p.slots.get? slotName = some content)
    (ha : content.Admits index) {y : String} {link : ParentLink}
    (hl : (p.movedLinks slotName ((content.place index).map (· + 1))
      (content.attach (content.place index) c)).get? y = some link) :
    y ≠ c ∧ y ≠ p.id ∧ ∃ n, t.nodes.get? y = some n := by
  have hset := Node.settles_addChild hs ha (h.distinct_attach hc hp hs ha)
  obtain ⟨hne, -, -, i, hi⟩ := hset.given y link hl
  obtain ⟨n, hn, -⟩ := h.down hp hi
  exact ⟨hne, h.child_ne_self hp hi, n, hn⟩

/-- A child comes to its parent; all else stays. -/
theorem Grows.regraft (hg : Grows defs t t' schema p slotName content index c)
    (h : Linked defs t) :
    Regraft defs t t' (fun y => y ≠ c) p (p.attach slotName content (content.place index) c) c
      (p.movedLinks slotName ((content.place index).map (· + 1))
        (content.attach (content.place index) c)) := by
  have hext := Node.extends_attach hg.slot hg.admits c
  have hdist := h.distinct_attach hg.unused hg.before hg.slot hg.admits
  have hpc : p.id ≠ c := SortedMap.ne_of_get? hg.before hg.unused
  exact {
    root := hg.root
    before := hg.before
    after := hg.after
    keptNode := hpc
    named := rfl
    schema := rfl
    place := rfl
    fits := hext.fits_big (h.fits hg.before)
    settles := Node.settles_addChild hg.slot hg.admits hdist
    traces := fun ht =>
      (Node.inherits_attach (h.fits hg.before) ht hg.slot hg.admits c).2.2
    others := hg.others
    child := fun hne => hne rfl
    -- the child is the only node that was not there before
    leaf := by
      intro y n hk hn
      have hy : y = c := Decidable.not_not.mp hk
      rw [hy, hg.child, Option.some.injEq] at hn
      exact ⟨schema, slotName, content.place index, hy, hn.symm, hg.known, hext.new⟩
    placed := by
      intro s i hi
      obtain ⟨rfl, rfl⟩ := hdist _ _ _ _ _ hi hext.new
      exact ⟨_, hg.child, rfl⟩
    -- its id was not in use, so no link named it, up or down
    keptParent := by
      intro y n link _ hn hlink
      obtain ⟨q, hq, -⟩ := h.up hn hlink
      exact SortedMap.ne_of_get? hq hg.unused
    keptChild := by
      intro y n s i z _ hn hz
      obtain ⟨m, hm, -⟩ := h.down hn hz
      exact .inl (SortedMap.ne_of_get? hm hg.unused) }

end Tree

/-! ### The edit -/

namespace Draft

variable {defs : Definitions} {d d' : Draft}

/-- A root is created exactly if there are no nodes. -/
theorem create_root_eq_ok_iff (h : Tree.Linked defs d.tree) {nodeType c : String} {t' : Tree} :
    (∃ d', d.create defs nodeType none c = .ok d' ∧ d'.tree = t') ↔
      ∃ schema, defs.node nodeType = .ok schema ∧ d.tree = {} ∧ t' = .alone schema c := by
  unfold create
  cases hs : defs.node nodeType with
  | error e => simp
  | ok schema =>
    simp only [Outcome.ok_mapError, Outcome.ok_bind, Except.ok.injEq, exists_eq_left']
    constructor
    · rintro ⟨d', hd', rfl⟩
      split at hd'
      · cases hd'
      · split at hd'
        · cases hd'
        · next hroot =>
          rw [Bool.not_eq_true, Option.isSome_eq_false_iff, Option.isNone_iff_eq_none] at hroot
          have hempty := h.eq_empty hroot
          cases hd'
          rw [tree_touch, hempty]
          exact ⟨rfl, by rw [put, hempty]; rfl⟩
    · rintro ⟨hempty, rfl⟩
      rw [hempty]
      refine ⟨_, rfl, ?_⟩
      rw [tree_touch, put, hempty]
      rfl

/-- The steps in which a child is created. -/
theorem create_child_steps {nodeType c : String} {parent : PatchParent}
    (hd : d.create defs nodeType (some parent) c = .ok d') :
    ∃ schema p content, defs.node nodeType = .ok schema ∧ d.tree.nodes.get? c = none ∧
      d.tree.nodes.get? parent.nodeId = some p ∧ p.slots.get? parent.slotName = some content ∧
      content.Admits (parent.index.map UInt32.toNat) ∧ ∃ n child,
        (((d.put parent.nodeId n).put c child).touchAll [parent.nodeId, c]).moveChildren
          (p.movedLinks parent.slotName
            ((content.place (parent.index.map UInt32.toNat)).map (· + 1))
            (content.attach (content.place (parent.index.map UInt32.toNat)) c)) = .ok d' := by
  unfold create at hd
  obtain ⟨schema, hs, hd⟩ := Outcome.bind_eq_ok.mp hd
  rw [Outcome.mapError_eq_ok] at hs
  cases hhas : d.tree.has c with
  | true =>
    rw [hhas] at hd
    cases hd
  | false =>
    simp only [hhas, Bool.false_eq_true, if_false] at hd
    obtain ⟨p, hp, hd⟩ := Outcome.bind_eq_ok.mp hd
    obtain ⟨r, hr, hd⟩ := Outcome.bind_eq_ok.mp hd
    rw [Outcome.mapError_eq_ok] at hr
    obtain ⟨content, hslot, hadmits, rfl⟩ := Node.addChild_eq_ok_iff.mp hr
    exact ⟨schema, p, content, hs, Tree.has_eq_false_iff.mp hhas, Tree.node_eq_ok_iff.mp hp, hslot,
      hadmits, _, _, hd⟩

/-- What a child needs to be created. -/
theorem create_child_inv {nodeType c : String} {parent : PatchParent}
    (hd : d.create defs nodeType (some parent) c = .ok d') :
    ∃ schema p content, defs.node nodeType = .ok schema ∧ d.tree.nodes.get? c = none ∧
      d.tree.nodes.get? parent.nodeId = some p ∧ p.slots.get? parent.slotName = some content ∧
      content.Admits (parent.index.map UInt32.toNat) := by
  obtain ⟨schema, p, content, hs, hc, hp, hslot, hadmits, -⟩ := create_child_steps hd
  exact ⟨schema, p, content, hs, hc, hp, hslot, hadmits⟩

/-- With what it needs a child is created. -/
theorem create_child_eq_ok (h : Tree.Linked defs d.tree) (parent : PatchParent)
    {nodeType c : String} {schema : NodeSchema} {p : Node} {content : SlotContent}
    (hs : defs.node nodeType = .ok schema) (hc : d.tree.nodes.get? c = none)
    (hp : d.tree.nodes.get? parent.nodeId = some p)
    (hslot : p.slots.get? parent.slotName = some content)
    (ha : content.Admits (parent.index.map UInt32.toNat)) :
    ∃ d', d.create defs nodeType (some parent) c = .ok d' ∧
      Tree.Grows defs d.tree d'.tree schema p parent.slotName content
        (parent.index.map UInt32.toNat) c := by
  have hid := h.ownId hp
  have hpc : parent.nodeId ≠ c := SortedMap.ne_of_get? hp hc
  have hp' : d.tree.nodes.get? p.id = some p := hid.symm ▸ hp
  obtain ⟨d', hd', hroot, -, hget⟩ := moveChildren_eq_ok
    ((((d.put parent.nodeId (p.attach parent.slotName content
      (content.place (parent.index.map UInt32.toNat)) c)).put c (.empty schema c
        (some ⟨p.id, parent.slotName, content.place (parent.index.map UInt32.toNat)⟩))).touch
          parent.nodeId).touch c)
    (p.movedLinks parent.slotName
      ((content.place (parent.index.map UInt32.toNat)).map (· + 1))
      (content.attach (content.place (parent.index.map UInt32.toNat)) c)) (by
    intro y link hl
    obtain ⟨hne, hnp, n, hn⟩ := h.moved_attach hc hp' hslot ha hl
    simp only [tree_touch, tree_put, Tree.get?_put, Ne.symm hne, if_false,
      show parent.nodeId ≠ y from fun heq => hnp (hid.trans heq).symm]
    exact ⟨n, hn⟩)
  simp only [tree_touch, tree_put, Tree.get?_put] at hroot hget
  -- neither the parent nor the child is among those that move
  have hstill : ∀ y, y = c ∨ y = p.id → (p.movedLinks parent.slotName
      ((content.place (parent.index.map UInt32.toNat)).map (· + 1))
      (content.attach (content.place (parent.index.map UInt32.toNat)) c)).get? y = none := by
    intro y hy
    rw [Option.eq_none_iff_forall_ne_some]
    intro link hl
    obtain ⟨hne, hnp, -⟩ := h.moved_attach hc hp' hslot ha hl
    exact hy.elim hne hnp
  refine ⟨d', ?_, ?_⟩
  · unfold create
    rw [hs, Outcome.ok_mapError, Outcome.ok_bind, Tree.has_eq_false_iff.mpr hc]
    simp only [Bool.false_eq_true, if_false, Tree.node_eq_ok_iff.mpr hp, Outcome.ok_bind,
      Node.addChild_eq_ok_iff.mpr ⟨content, hslot, ha, rfl⟩, Outcome.ok_mapError]
    exact hd'
  · exact {
      known := by rw [Definitions.name_of_node hs]; exact hs
      unused := hc
      before := hp'
      slot := hslot
      admits := ha
      root := hroot
      child := by rw [hget, if_pos rfl, hstill c (.inl rfl)]; rfl
      after := by
        rw [hget, if_neg (fun heq => hpc (hid.symm.trans heq.symm)), if_pos hid.symm,
          hstill _ (.inr rfl)]
        rfl
      others := by
        intro y hyc hyp
        rw [hget, if_neg (Ne.symm hyc), if_neg (fun heq => hyp (hid.trans heq).symm)] }

end Draft

end SlotTree
