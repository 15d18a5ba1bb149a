import Mathlib.Data.List.Nodup
import SlotTree.Node.Edit
import SlotTree.Proofs.Maps
import SlotTree.Proofs.Outcomes

/-!
# Places of children

A place of a node is a slot with a position, or a single slot without one.  What a node holds is
known by which child stands at which place, and the lists of children and links are read off from
that.

## Main definitions

* `Before` — one item of a list stands before another one.
* `SlotContent.child?`, `Node.child?` — the child at a place.
* `ParentLink.Precedes` — the order of the places of a node.
* `Node.FitsSchema` — the slots are those of the schema, in its order, each of its kind.
* `Node.Distinct` — no child stands at two places.

## Main results

* `Node.mem_childLinks_iff` — the links of the children are the places that are taken.
* `Node.pairwise_childLinks` — children are listed in the order of their places.
-/

namespace SlotTree

attribute [ext] ParentLink Node

/-! ### Standing before in a list -/

section Before

variable {α : Type} {l : List α} {x y : α}

/-- One item of a list stands somewhere before another one. -/
def Before (l : List α) (x y : α) : Prop := [x, y].Sublist l

theorem pairwise_iff_forall_before {R : α → α → Prop} :
    l.Pairwise R ↔ ∀ {x y}, Before l x y → R x y :=
  List.pairwise_iff_forall_sublist

theorem pairwise_before (l : List α) : l.Pairwise (Before l) :=
  pairwise_iff_forall_before.mpr fun h => h

theorem Before.mem_left (h : Before l x y) : x ∈ l := h.subset List.mem_cons_self

theorem Before.mem_right (h : Before l x y) : y ∈ l :=
  h.subset (List.mem_cons_of_mem x List.mem_cons_self)

/-- Where no item occurs twice, none stands before itself. -/
theorem Before.ne (h : Before l x y) (hl : l.Nodup) : x ≠ y := by
  rintro rfl
  exact List.nodup_iff_sublist.mp hl x h

theorem before_cons_iff {z : α} : Before (z :: l) x y ↔ Before l x y ∨ x = z ∧ y ∈ l := by
  rw [Before, List.cons_sublist_cons', List.singleton_sublist, Before]

/-- Where no item occurs twice, none stands before the first one. -/
theorem not_before_head (hl : (x :: l).Nodup) : ¬ Before (x :: l) y x := by
  have hx := (List.nodup_cons.mp hl).1
  intro h
  rcases before_cons_iff.mp h with h | ⟨-, h⟩
  · exact hx h.mem_right
  · exact hx h

/-- Where no item occurs twice, two items stand in one order only. -/
theorem Before.asymm (h : Before l x y) (hl : l.Nodup) : ¬ Before l y x := by
  induction l with
  | nil => cases h
  | cons z l ih =>
    obtain ⟨hz, hl⟩ := List.nodup_cons.mp hl
    intro h'
    rcases before_cons_iff.mp h with hxy | ⟨rfl, hy⟩
    · rcases before_cons_iff.mp h' with hyx | ⟨rfl, -⟩
      · exact ih hxy hl hyx
      · exact hz hxy.mem_right
    · rcases before_cons_iff.mp h' with hyx | ⟨rfl, -⟩
      · exact hz hyx.mem_right
      · exact hz hy

/-- Of two different items of a list, one stands before the other. -/
theorem before_or_before (hx : x ∈ l) (hy : y ∈ l) (hne : x ≠ y) :
    Before l x y ∨ Before l y x := by
  obtain ⟨front, back, rfl⟩ := List.append_of_mem hx
  rcases List.mem_append.mp hy with hy | hy
  · exact .inr ((List.singleton_sublist.mpr hy).append
      (List.singleton_sublist.mpr List.mem_cons_self))
  · have hy := (List.mem_cons.mp hy).resolve_left hne.symm
    have hcons : Before (x :: back) x y := before_cons_iff.mpr (.inr ⟨rfl, hy⟩)
    exact .inl (hcons.trans (List.sublist_append_right front _))

end Before

/-! ### What a slot holds -/

namespace SlotContent

/-- Whether the slot is a collection. -/
def isCollection : SlotContent → Bool
  | .single _ => false
  | .collection _ => true

/-- The child at a position; a single slot has one place, without a position. -/
def child? : SlotContent → Option Nat → Option String
  | .single child, none => child
  | .collection ids, some i => ids[i]?
  | _, _ => none

@[simp] theorem child?_single_none (child : Option String) :
    (single child).child? none = child := rfl

@[simp] theorem child?_single_some (child : Option String) (i : Nat) :
    (single child).child? (some i) = none := rfl

@[simp] theorem child?_collection_none (ids : List String) : (collection ids).child? none = none :=
  rfl

@[simp] theorem child?_collection_some (ids : List String) (i : Nat) :
    (collection ids).child? (some i) = ids[i]? := rfl

@[simp] theorem isCollection_empty (decl : SlotDecl) :
    (empty decl).isCollection = decl.isCollection := by
  rw [empty]
  split
  · next h => rw [h]; rfl
  · next h => simp only [Bool.not_eq_true] at h; rw [h]; rfl

theorem child?_empty (decl : SlotDecl) (i : Option Nat) : (empty decl).child? i = none := by
  rw [empty]
  split <;> cases i <;> simp

theorem mem_numbered_iff {start : Nat} {ids : List String} {i : Option Nat} {c : String} :
    (i, c) ∈ numbered start ids ↔ ∃ j, i = some (start + j) ∧ ids[j]? = some c := by
  induction ids generalizing start with
  | nil => simp [numbered]
  | cons id rest ih =>
    rw [numbered, List.mem_cons, ih]
    constructor
    · rintro (h | ⟨j, rfl, hj⟩)
      · obtain ⟨rfl, rfl⟩ := Prod.mk.inj h
        exact ⟨0, rfl, rfl⟩
      · exact ⟨j + 1, by rw [Nat.add_assoc, Nat.add_comm 1 j], hj⟩
    · rintro ⟨j, rfl, hj⟩
      cases j with
      | zero =>
        rw [List.getElem?_cons_zero, Option.some.injEq] at hj
        exact .inl (by rw [hj]; rfl)
      | succ j => exact .inr ⟨j, by rw [Nat.add_assoc, Nat.add_comm 1 j], hj⟩

theorem map_snd_numbered (start : Nat) (ids : List String) :
    (numbered start ids).map Prod.snd = ids := by
  induction ids generalizing start with
  | nil => rfl
  | cons id rest ih => rw [numbered, List.map_cons, ih]

theorem mem_children_iff {content : SlotContent} {i : Option Nat} {c : String} :
    (i, c) ∈ content.children ↔ content.child? i = some c := by
  cases content with
  | single child => cases child <;> cases i <;> simp [children, child?, eq_comm]
  | collection ids =>
    rw [children, mem_numbered_iff]
    cases i <;> simp

/-- The children of a slot stand in the order of their positions. -/
theorem pairwise_children (content : SlotContent) :
    content.children.Pairwise fun a b => ∃ i j, a.1 = some i ∧ b.1 = some j ∧ i < j := by
  cases content with
  | single child => cases child <;> simp [children]
  | collection ids =>
    rw [children]
    generalize 0 = start
    induction ids generalizing start with
    | nil => exact List.Pairwise.nil
    | cons id rest ih =>
      refine List.pairwise_cons.mpr ⟨?_, ih (start + 1)⟩
      rintro ⟨_, c⟩ hmem
      obtain ⟨m, rfl, -⟩ := mem_numbered_iff.mp hmem
      exact ⟨start, _, rfl, rfl, by omega⟩

end SlotContent

/-! ### What a node holds -/

/-- One place of a node comes before another one: its slot stands first among the slots of the node,
or both are in one slot, and its position is the lower one. -/
def ParentLink.Precedes (a b : ParentLink) (slotNames : List String) : Prop :=
  Before slotNames a.slotName b.slotName ∨
    a.slotName = b.slotName ∧ ∃ i j, a.index = some i ∧ b.index = some j ∧ i < j

/-- Within one slot the place that comes first has the lower position. -/
theorem ParentLink.Precedes.index_lt {a b : ParentLink} {slotNames : List String}
    (h : a.Precedes b slotNames) (hnames : slotNames.Nodup) (hslot : a.slotName = b.slotName) :
    ∃ i j, a.index = some i ∧ b.index = some j ∧ i < j :=
  (h.resolve_left fun hbefore => hbefore.ne hnames hslot).2

/-- Two places come in one order only. -/
theorem ParentLink.Precedes.asymm {a b : ParentLink} {slotNames : List String}
    (h : a.Precedes b slotNames) (hnames : slotNames.Nodup) : ¬ b.Precedes a slotNames := by
  intro h'
  rcases h with hbefore | ⟨hslot, hindex⟩
  · rcases h' with hbefore' | ⟨hslot, -⟩
    · exact hbefore.asymm hnames hbefore'
    · exact hbefore.ne hnames hslot.symm
  · obtain ⟨i, j, hi, hj, hlt⟩ := hindex
    obtain ⟨j', i', hj', hi', hlt'⟩ := h'.index_lt hnames hslot.symm
    rw [hi, Option.some.injEq] at hi'
    rw [hj, Option.some.injEq] at hj'
    omega

namespace Node

/-- The child at a place of a node. -/
def child? (n : Node) (slotName : String) (index : Option Nat) : Option String :=
  (n.slots.get? slotName).bind fun content => content.child? index

/-- The slots are those that the schema declares, in its order, and each is of the kind that it
declares. -/
structure FitsSchema (n : Node) : Prop where
  /-- The slots have the names that the schema declares, in its order. -/
  keys : n.slots.keys = n.schema.slots.keys
  /-- Each slot is a collection exactly if it is declared as one. -/
  kind : ∀ slotName content decl, n.slots.get? slotName = some content →
    n.schema.slots.get? slotName = some decl → content.isCollection = decl.isCollection

/-- No child stands at two places. -/
def Distinct (n : Node) : Prop :=
  ∀ s i s' i' c, n.child? s i = some c → n.child? s' i' = some c → s = s' ∧ i = i'

theorem child?_eq_some_iff {n : Node} {slotName c : String} {index : Option Nat} :
    n.child? slotName index = some c ↔
      ∃ content, n.slots.get? slotName = some content ∧ content.child? index = some c := by
  rw [child?, Option.bind_eq_some_iff]

theorem child?_of_get? {n : Node} {slotName : String} {content : SlotContent}
    (h : n.slots.get? slotName = some content) (index : Option Nat) :
    n.child? slotName index = content.child? index := by
  rw [child?, h]
  rfl

/-- What a node holds is read off from its slots. -/
theorem child?_congr {m n : Node} (h : m.slots = n.slots) (s : String) (i : Option Nat) :
    m.child? s i = n.child? s i := by
  rw [child?, child?, h]

/-- The links of the children are the places that are taken. -/
theorem mem_childLinks_iff {n : Node} {c : String} {link : ParentLink} :
    (c, link) ∈ n.childLinks ↔
      link.nodeId = n.id ∧ n.child? link.slotName link.index = some c := by
  rw [childLinks, List.mem_flatMap]
  constructor
  · rintro ⟨⟨s, content⟩, hs, hc⟩
    obtain ⟨⟨i, id⟩, hmem, heq⟩ := List.mem_map.mp hc
    cases heq
    refine ⟨rfl, ?_⟩
    rw [child?_of_get? (OrderedMap.mem_entries_iff.mp hs)]
    exact SlotContent.mem_children_iff.mp hmem
  · rintro ⟨hid, hc⟩
    obtain ⟨content, hs, hc⟩ := child?_eq_some_iff.mp hc
    obtain ⟨nodeId, s, i⟩ := link
    cases hid
    refine ⟨(s, content), OrderedMap.mem_entries_iff.mpr hs, ?_⟩
    exact List.mem_map.mpr ⟨(i, c), SlotContent.mem_children_iff.mpr hc, rfl⟩

theorem mem_childIds_iff {n : Node} {c : String} :
    c ∈ n.childIds ↔ ∃ s i, n.child? s i = some c := by
  rw [childIds, List.mem_map]
  constructor
  · rintro ⟨⟨c, link⟩, hmem, rfl⟩
    exact ⟨link.slotName, link.index, (mem_childLinks_iff.mp hmem).2⟩
  · rintro ⟨s, i, h⟩
    exact ⟨(c, ⟨n.id, s, i⟩), mem_childLinks_iff.mpr ⟨rfl, h⟩, rfl⟩

/-- The children of a node stand in the order of their places. -/
theorem pairwise_childLinks (n : Node) :
    n.childLinks.Pairwise fun a b => a.2.Precedes b.2 n.slots.keys := by
  rw [childLinks, List.pairwise_flatMap]
  constructor
  · rintro ⟨s, content⟩ -
    exact List.pairwise_map.mpr (content.pairwise_children.imp fun h => .inr ⟨rfl, h⟩)
  · refine (List.pairwise_map.mp (pairwise_before n.slots.keys)).imp ?_
    rintro ⟨s, content⟩ ⟨s', content'⟩ hbefore x hx y hy
    obtain ⟨_, _, rfl⟩ := List.mem_map.mp hx
    obtain ⟨_, _, rfl⟩ := List.mem_map.mp hy
    exact .inl hbefore

/-- A list of children in which no child occurs twice. -/
theorem Distinct.nodup_childIds {n : Node} (h : n.Distinct) : n.childIds.Nodup := by
  -- the links differ in the slot, or in the position, even where the children are not compared
  have hlinks : n.childLinks.Nodup := by
    rw [childLinks, List.nodup_flatMap]
    constructor
    · rintro ⟨s, content⟩ hs
      have hget := OrderedMap.mem_entries_iff.mp hs
      refine List.Nodup.map_on ?_ ?_
      · rintro ⟨i, c⟩ - ⟨j, d⟩ - heq
        cases heq
        rfl
      · cases content with
        | single child => cases child <;> simp [SlotContent.children]
        | collection ids =>
          refine (SlotContent.pairwise_children _).imp_of_mem ?_
          rintro ⟨_, _⟩ ⟨_, _⟩ - - ⟨i, j, rfl, rfl, hlt⟩ heq
          cases heq
          exact Nat.lt_irrefl _ hlt
    · refine (List.pairwise_map.mp n.slots.distinct).imp ?_
      rintro ⟨s, content⟩ ⟨s', content'⟩ hne x hx hy
      obtain ⟨_, _, rfl⟩ := List.mem_map.mp hx
      obtain ⟨_, _, heq⟩ := List.mem_map.mp hy
      exact hne (congrArg (fun e => e.2.slotName) heq).symm
  refine List.Nodup.map_on ?_ hlinks
  rintro ⟨c, l⟩ hl ⟨d, l'⟩ hl' heq
  cases heq
  obtain ⟨hid, hc⟩ := mem_childLinks_iff.mp hl
  obtain ⟨hid', hc'⟩ := mem_childLinks_iff.mp hl'
  obtain ⟨hs, hi⟩ := h _ _ _ _ _ hc hc'
  have hlink : l = l' := ParentLink.ext (hid.trans hid'.symm) hs hi
  rw [hlink]

/-! ### Nodes without children -/

theorem child?_nodeEmpty (schema : NodeSchema) (id : String) (parent : Option ParentLink)
    (s : String) (i : Option Nat) : (Node.empty schema id parent).child? s i = none := by
  simp only [child?, empty, OrderedMap.get?_mapValues]
  cases schema.slots.get? s with
  | none => rfl
  | some decl => exact SlotContent.child?_empty decl i

theorem fitsSchema_empty (schema : NodeSchema) (id : String) (parent : Option ParentLink) :
    (Node.empty schema id parent).FitsSchema where
  keys := OrderedMap.keys_mapValues _ _
  kind := by
    intro s content decl hc hd
    simp only [empty, OrderedMap.get?_mapValues] at hc hd
    rw [hd, Option.map_some, Option.some.injEq] at hc
    rw [← hc, SlotContent.isCollection_empty]

theorem FitsSchema.of_eq {m n : Node} (h : m.FitsSchema) (hs : n.slots = m.slots)
    (hschema : n.schema = m.schema) : n.FitsSchema where
  keys := by rw [hs, hschema]; exact h.keys
  kind := by
    intro s content decl hc hd
    rw [hs] at hc
    rw [hschema] at hd
    exact h.kind s content decl hc hd

/-- A slot of a node is declared by its schema. -/
theorem FitsSchema.slot_of_decl {n : Node} (h : n.FitsSchema) {s : String} {decl : SlotDecl}
    (hd : n.schema.slots.get? s = some decl) : ∃ content, n.slots.get? s = some content := by
  rw [← OrderedMap.mem_keys_iff, h.keys]
  exact OrderedMap.mem_keys_iff.mpr ⟨decl, hd⟩

theorem FitsSchema.decl_of_slot {n : Node} (h : n.FitsSchema) {s : String} {content : SlotContent}
    (hs : n.slots.get? s = some content) : ∃ decl, n.schema.slots.get? s = some decl := by
  rw [← OrderedMap.mem_keys_iff, ← h.keys]
  exact OrderedMap.mem_keys_iff.mpr ⟨content, hs⟩

end Node

end SlotTree
