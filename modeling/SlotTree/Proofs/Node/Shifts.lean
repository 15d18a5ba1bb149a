import SlotTree.Proofs.Node.Reversal
import SlotTree.Proofs.Node.Runs

/-!
# Bindings move with their child

In a collection a binding belongs to the child at its position.  When a child comes, the children
behind it go up by one, and when a child goes, they go down by one; so do their bindings, for every
input of the slot, and no others.

## Main definitions

* `Node.Gains`, `Node.Drops` — a collection with one child more, and with one child less.

## Main results

* `Node.Sound.gains`, `Node.Sound.drops` — what an accepted change does to a sound node.
* `Node.children_run` — what it does to a node after whatever was done to it before.
-/

namespace SlotTree.Node

/-- A collection slot of a node gets a child at a position, and the bindings move up behind it. -/
structure Gains (n n' : Node) (c slotName : String) (ids : List String) (p : Nat)
    (moved : MovedChildren) : Prop where
  /-- The child comes to a position among the others, or behind them. -/
  position : p ≤ ids.length
  /-- The node keeps its id, schema and place. -/
  same : n'.id = n.id ∧ n'.schema = n.schema ∧ n'.parent = n.parent
  /-- The slots have the same names. -/
  keys : n'.slots.keys = n.slots.keys
  /-- The other children keep their order. -/
  slot : n'.slots.get? slotName = some (.collection (ids.take p ++ c :: ids.drop p))
  /-- The other slots hold what they held. -/
  others : ∀ s, s ≠ slotName → n'.slots.get? s = n.slots.get? s
  /-- In front of the child the bindings stay. -/
  before : ∀ name ∈ (n.schema.collectionInputs slotName).map Prod.fst, ∀ j, j < p →
    n'.input? ⟨name, some j⟩ = n.input? ⟨name, some j⟩
  /-- Nothing is bound for the child. -/
  unbound : ∀ name ∈ (n.schema.collectionInputs slotName).map Prod.fst,
    n'.input? ⟨name, some p⟩ = none
  /-- Behind it the bindings have moved up. -/
  behind : ∀ name ∈ (n.schema.collectionInputs slotName).map Prod.fst, ∀ j, p < j →
    n'.input? ⟨name, some j⟩ = n.input? ⟨name, some (j - 1)⟩
  /-- All other bindings stay. -/
  untouched : ∀ k, ¬ n.SlotKey slotName k → n'.inputs.get? k = n.inputs.get? k
  /-- If no child stands twice in the slot, those behind the new one have new links. -/
  links : (ids.take p ++ c :: ids.drop p).Nodup → ∀ y link, moved.get? y = some link ↔
    ∃ i, p ≤ i ∧ ids[i]? = some y ∧ link = ⟨n.id, slotName, some (i + 1)⟩

/-- A collection slot of a node loses the child at a position, and the bindings move down behind
it. -/
structure Drops (n n' : Node) (slotName : String) (ids : List String) (p : Nat)
    (moved : MovedChildren) : Prop where
  /-- There is a child at the position. -/
  position : p < ids.length
  /-- The node keeps its id, schema and place. -/
  same : n'.id = n.id ∧ n'.schema = n.schema ∧ n'.parent = n.parent
  /-- The slots have the same names. -/
  keys : n'.slots.keys = n.slots.keys
  /-- The other children keep their order. -/
  slot : n'.slots.get? slotName = some (.collection (ids.take p ++ ids.drop (p + 1)))
  /-- The other slots hold what they held. -/
  others : ∀ s, s ≠ slotName → n'.slots.get? s = n.slots.get? s
  /-- In front of the child the bindings stay. -/
  before : ∀ name ∈ (n.schema.collectionInputs slotName).map Prod.fst, ∀ j, j < p →
    n'.input? ⟨name, some j⟩ = n.input? ⟨name, some j⟩
  /-- From its position on the bindings have moved down. -/
  behind : ∀ name ∈ (n.schema.collectionInputs slotName).map Prod.fst, ∀ j, p ≤ j →
    n'.input? ⟨name, some j⟩ = n.input? ⟨name, some (j + 1)⟩
  /-- All other bindings stay. -/
  untouched : ∀ k, ¬ n.SlotKey slotName k → n'.inputs.get? k = n.inputs.get? k
  /-- If no child stands twice in the slot, those behind the one that has gone have new links. -/
  links : ids.Nodup → ∀ y link, moved.get? y = some link ↔
    ∃ i, p < i ∧ ids[i]? = some y ∧ link = ⟨n.id, slotName, some (i - 1)⟩

variable {n : Node} {slotName c : String} {ids : List String}

/-- A sound node gains a child at a position of a collection. -/
theorem Sound.gains (h : n.Sound) (hs : n.slots.get? slotName = some (.collection ids)) {p : Nat}
    (hp : p ≤ ids.length) (c : String) :
    Gains n (n.attach slotName (.collection ids) (some p) c) c slotName ids p
      (n.linksFrom slotName (p + 1) (ids.take p ++ c :: ids.drop p)) := by
  have hadmits : (SlotContent.collection ids).Admits (some p) := by
    rintro i ⟨⟩
    exact hp
  have hext := extends_attach hs hadmits c
  obtain ⟨hown, hother⟩ := h.tidy.get?_shiftInputs (shiftLaw_up hp) hs
  exact {
    position := hp
    same := ⟨rfl, rfl, rfl⟩
    keys := hext.keys
    slot := get?_slots_attach ..
    others := hext.other
    before := fun name hn j hj => by
      refine (hown name hn j).trans ?_
      rw [sourceUp, if_pos hj]
      rfl
    unbound := fun name hn => by
      refine (hown name hn p).trans ?_
      rw [sourceUp, if_neg (Nat.lt_irrefl p), if_pos rfl]
      rfl
    behind := fun name hn j hj => by
      refine (hown name hn j).trans ?_
      rw [sourceUp, if_neg (Nat.not_lt.mpr (Nat.le_of_lt hj)), if_neg (Nat.ne_of_gt hj)]
      rfl
    untouched := hother
    links := fun hnd y link => by
      rw [get?_linksFrom hnd]
      constructor
      · -- behind the new child stands one that stood one position before
        rintro ⟨j, hj, hy, rfl⟩
        rw [getElem?_splice hp, if_neg (by omega), if_neg (by omega)] at hy
        exact ⟨j - 1, by omega, hy, by rw [Nat.sub_add_cancel (by omega)]⟩
      · rintro ⟨i, hi, hy, rfl⟩
        refine ⟨i + 1, by omega, ?_, rfl⟩
        rw [getElem?_splice hp, if_neg (by omega), if_neg (by omega)]
        exact hy }

/-- A sound node drops the child at a position of a collection. -/
theorem Sound.drops (h : n.Sound) (hs : n.slots.get? slotName = some (.collection ids)) {p : Nat}
    (hp : p < ids.length) :
    Drops n (n.detach slotName (.collection ids) (some p)) slotName ids p
      (n.linksFrom slotName p (ids.eraseIdx p)) := by
  have hext : Extends n (n.detach slotName (.collection ids) (some p)) slotName (some p) ids[p] :=
    extends_detach hs (List.getElem?_eq_getElem hp)
  obtain ⟨hown, hother⟩ := h.tidy.get?_shiftInputs (shiftLaw_down hp) hs
  exact {
    position := hp
    same := ⟨rfl, rfl, rfl⟩
    keys := hext.keys.symm
    slot := by
      rw [get?_slots_detach, ← List.eraseIdx_eq_take_drop_succ]
      rfl
    others := fun s hne => (hext.other s hne).symm
    before := fun name hn j hj => by
      refine (hown name hn j).trans ?_
      rw [sourceDown, if_pos hj]
      rfl
    behind := fun name hn j hj => by
      refine (hown name hn j).trans ?_
      rw [sourceDown, if_neg (Nat.not_lt.mpr hj)]
      rfl
    untouched := hother
    links := fun hnd y link => by
      rw [get?_linksFrom (hnd.sublist (List.eraseIdx_sublist ids p))]
      constructor
      · rintro ⟨j, hj, hy, rfl⟩
        rw [List.getElem?_eraseIdx_of_ge hj] at hy
        exact ⟨j + 1, by omega, hy, rfl⟩
      · -- behind the one that has gone a child comes one position further down
        rintro ⟨i, hi, hy, rfl⟩
        refine ⟨i - 1, by omega, ?_, rfl⟩
        rw [List.getElem?_eraseIdx_of_ge (by omega), Nat.sub_add_cancel (by omega)]
        exact hy }

/-- A child that has come to a sound node is taken out at the place that its link names, and then
the node is what it was. -/
theorem Sound.removeChild_addChild (h : n.Sound) {index : Option Nat} {n' : Node}
    {link : ParentLink} {moved : MovedChildren}
    (hadd : n.addChild c slotName index = .ok (n', link, moved)) :
    ∃ moved', n'.removeChild link.slotName link.index = .ok (n, moved') := by
  obtain ⟨content, hs, ha, heq⟩ := addChild_eq_ok_iff.mp hadd
  cases heq
  have hchild : (content.attach (content.place index) c).child? (content.place index) = some c :=
    (ha.extends_attach c).new
  have hremove := removeChild_eq_ok (get?_slots_attach n slotName content _ c) hchild
  rw [detach_attach h.fits h.tidy hs ha] at hremove
  exact ⟨_, hremove⟩

/-- Whatever was done to an empty node before, an accepted change of a collection puts the child at
its position, or takes the child at the position out, and moves the bindings of all inputs of the
slot with their children and nothing else; and a child that was put in any slot is taken out again
at the slot and position of the link that it got, which gives the node back. -/
theorem children_run (schema : NodeSchema) (id : String) (parent : Option ParentLink)
    (changes : List Change) :
    let n := (Node.empty schema id parent).run changes
    (∀ c slotName index n' link moved, n.addChild c slotName index = .ok (n', link, moved) →
      (∀ ids, n.slots.get? slotName = some (.collection ids) →
        link = ⟨n.id, slotName, some (index.getD ids.length)⟩ ∧
          Gains n n' c slotName ids (index.getD ids.length) moved) ∧
      ∃ moved', n'.removeChild link.slotName link.index = .ok (n, moved')) ∧
    ∀ slotName index n' moved, n.removeChild slotName index = .ok (n', moved) →
      ∀ ids, n.slots.get? slotName = some (.collection ids) →
        ∃ p, index = some p ∧ Drops n n' slotName ids p moved := by
  intro n
  have h : n.Sound := sound_run schema id parent changes
  refine ⟨fun c slotName index n' link moved hadd =>
    ⟨fun ids hids => ?_, h.removeChild_addChild hadd⟩, ?_⟩
  · obtain ⟨content, hs, ha, heq⟩ := addChild_eq_ok_iff.mp hadd
    rw [hids, Option.some.injEq] at hs
    subst hs
    cases heq
    have hp : index.getD ids.length ≤ ids.length := by
      cases index with
      | none => exact Nat.le_refl _
      | some i => exact ha i rfl
    exact ⟨rfl, h.gains hids hp c⟩
  · intro slotName index n' moved hremove ids hids
    obtain ⟨content, hs, hk, heq⟩ := removeChild_eq_ok_iff.mp hremove
    rw [hids, Option.some.injEq] at hs
    subst hs
    cases heq
    cases index with
    | none => exact hk.elim
    | some p => exact ⟨p, rfl, h.drops hids hk⟩

/-- A schema with a collection that has one input for each child. -/
def rackSchema : NodeSchema :=
  ⟨({ name := "Rack" } : Declaration).withCollectionSlot "items" [("tag", .string)], by decide⟩

/-- Two children, each with a tag. -/
def rackChanges : List Change :=
  [.addChild "left" "items" none, .addChild "right" "items" none,
    .setInput (some (.string "red")) ⟨"tag", some 0⟩,
    .setInput (some (.string "blue")) ⟨"tag", some 1⟩]

/-- When a child comes between the two, the tag of the second one moves up with it; when the child
goes, everything is as it was.  When the first one goes, that tag moves down. -/
theorem children_run_rackChanges :
    let n := (Node.empty rackSchema "rack" none).run rackChanges
    ∃ added link moved moved' removed moved'',
      n.addChild "new" "items" (some 1) = .ok (added, link, moved) ∧
      added.slots.get? "items" = some (.collection ["left", "new", "right"]) ∧
      added.input? ⟨"tag", some 1⟩ = none ∧
      added.input? ⟨"tag", some 2⟩ = some (.string "blue") ∧
      moved.get? "right" = some ⟨"rack", "items", some 2⟩ ∧
      added.removeChild "items" (some 1) = .ok (n, moved') ∧
      n.removeChild "items" (some 0) = .ok (removed, moved'') ∧
      removed.input? ⟨"tag", some 0⟩ = some (.string "blue") := by
  intro n
  obtain ⟨hadd, hremove⟩ := children_run rackSchema "rack" none rackChanges
  have hids : n.slots.get? "items" = some (.collection ["left", "right"]) := by decide +kernel
  have hname : "tag" ∈ (n.schema.collectionInputs "items").map Prod.fst := by decide +kernel
  have htag : n.input? ⟨"tag", some 1⟩ = some (.string "blue") := rfl
  obtain ⟨⟨added, link, moved⟩, hadded⟩ : ∃ r, n.addChild "new" "items" (some 1) = .ok r :=
    ⟨_, rfl⟩
  obtain ⟨⟨removed, moved''⟩, hremoved⟩ : ∃ r, n.removeChild "items" (some 0) = .ok r := ⟨_, rfl⟩
  obtain ⟨hlink, moved', hback⟩ := hadd _ _ _ _ _ _ hadded
  obtain ⟨rfl, hgains⟩ := hlink _ hids
  obtain ⟨p, hp, hdrops⟩ := hremove _ _ _ _ hremoved _ hids
  cases hp
  refine ⟨added, _, moved, moved', removed, moved'', hadded, hgains.slot, hgains.unbound _ hname,
    (hgains.behind _ hname 2 (by decide)).trans htag, ?_, hback, hremoved,
    (hdrops.behind _ hname 0 (by decide)).trans htag⟩
  exact (hgains.links (by decide) _ _).mpr ⟨1, by decide, rfl, rfl⟩

end SlotTree.Node
