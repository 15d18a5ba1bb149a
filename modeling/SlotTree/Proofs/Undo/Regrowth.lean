import SlotTree.Proofs.Edit.Creating
import SlotTree.Proofs.Undo.Subtree
import SlotTree.Tree.Inverse

/-!
# Putting deleted nodes back

The nodes that were deleted are created again one after the other, parents first.  All the while the
tree is the old one without the nodes that are still missing: every slot holds what it held, but for
those.  As the nodes come in order, each of them comes to its old place.

## Main definitions

* `SlotContent.without` — what a slot holds without some nodes.
* `Tree.Regrown` — a tree without some nodes, and with other bindings.
* `Tree.Due` — a node that is the next to be put back.
* `Tree.Small` — trees whose positions fit into 32 bits.

## Main results

* `Tree.Regrown.create` — one more node is put back.
* `Tree.Linked.due_of_subtree` — in the order of the walk every node is due when its turn comes.
* `Tree.Regrown.creations` — all nodes below one that is there are put back.
-/

namespace SlotTree

/-! ### Slots without some nodes -/

namespace SlotContent

/-- What a slot holds without some nodes. -/
def without (missing : List String) : SlotContent → SlotContent
  | .single child => .single (child.filter fun c => decide (c ∉ missing))
  | .collection ids => .collection (ids.filter fun c => decide (c ∉ missing))

/-- Only the nodes in the slot count. -/
theorem without_congr {missing missing' : List String} {content : SlotContent}
    (h : ∀ i c, content.child? i = some c → (c ∈ missing ↔ c ∈ missing')) :
    content.without missing = content.without missing' := by
  cases content with
  | single child =>
    cases child with
    | none => rfl
    | some c => simp [without, Option.filter, h none c rfl]
  | collection ids =>
    rw [without, without, collection.injEq]
    refine List.filter_congr fun c hc => ?_
    obtain ⟨i, hi⟩ := List.mem_iff_getElem?.mp hc
    simp [h (some i) c hi]

/-- Without any of its nodes a slot is empty. -/
theorem without_eq_empty {missing : List String} {content : SlotContent} {decl : SlotDecl}
    (hkind : content.isCollection = decl.isCollection)
    (h : ∀ i c, content.child? i = some c → c ∈ missing) :
    content.without missing = .empty decl := by
  cases content with
  | single child =>
    rw [empty, if_neg (by rw [← hkind]; exact Bool.false_ne_true)]
    cases child with
    | none => rfl
    | some c => simp [without, Option.filter, h none c rfl]
  | collection ids =>
    rw [empty, if_pos (by rw [← hkind]; rfl), without, collection.injEq, List.filter_eq_nil_iff]
    intro c hc
    obtain ⟨i, hi⟩ := List.mem_iff_getElem?.mp hc
    simp [h (some i) c hi]

/-- Without no nodes a slot is as it is. -/
theorem without_nil (content : SlotContent) : content.without [] = content := by
  cases content with
  | single child => cases child <;> rfl
  | collection ids => simp [without]

/-- What is left of a list of which the front is there, an item is to come back, and the rest is
missing. -/
theorem filter_missing (front back : List String) {missing : List String} {c : String}
    (hnot : c ∉ missing)
    (hfront : ∀ y ∈ front, y ∉ c :: missing) (hback : ∀ y ∈ back, y ∈ missing) :
    (front ++ c :: back).filter (fun y => decide (y ∉ c :: missing)) = front ∧
      (front ++ c :: back).filter (fun y => decide (y ∉ missing)) = front ++ [c] := by
  have hfront' : ∀ y ∈ front, y ∉ missing := fun y hy hm =>
    hfront y hy (List.mem_cons_of_mem _ hm)
  have hgone : back.filter (fun y => decide (y ∉ c :: missing)) = [] := by
    rw [List.filter_eq_nil_iff]
    intro y hy
    simp [hback y hy]
  have hgone' : back.filter (fun y => decide (y ∉ missing)) = [] := by
    rw [List.filter_eq_nil_iff]
    intro y hy
    simp [hback y hy]
  constructor
  · rw [List.filter_append, List.filter_cons_of_neg (by simp), hgone, List.append_nil,
      List.filter_eq_self]
    exact fun y hy => decide_eq_true (hfront y hy)
  · rw [List.filter_append, List.filter_cons_of_pos (by simp [hnot]), hgone',
      List.filter_eq_self.mpr fun y hy => decide_eq_true (hfront' y hy)]

/-- A child comes back to its place, when those in front of it are there and those behind it are
not. -/
theorem attach_without {content : SlotContent} {k : Option Nat} {c : String}
    {missing : List String} (hc : content.child? k = some c) (hnot : c ∉ missing)
    (hbefore : ∀ i j y, k = some i → j < i → content.child? (some j) = some y →
      y ∉ c :: missing)
    (hafter : ∀ i j y, k = some i → i < j → content.child? (some j) = some y → y ∈ missing) :
    (content.without (c :: missing)).Admits k ∧
      (content.without (c :: missing)).place k = k ∧
      (content.without (c :: missing)).attach k c = content.without missing := by
  cases content with
  | single child =>
    cases k with
    | some k => cases hc
    | none =>
      rw [child?_single_none] at hc
      subst hc
      have hgone : (single (some c)).without (c :: missing) = .single none := by
        simp [without, Option.filter]
      have hback : (single (some c)).without missing = .single (some c) := by
        simp [without, Option.filter, hnot]
      rw [hgone, hback]
      exact ⟨⟨rfl, rfl⟩, rfl, rfl⟩
  | collection ids =>
    cases k with
    | none => cases hc
    | some k =>
      rw [child?_collection_some] at hc
      obtain ⟨hk, hck⟩ := List.getElem?_eq_some_iff.mp hc
      -- the children in front of the place, the child, and those behind it
      have hids : ids.take k ++ c :: ids.drop (k + 1) = ids := by
        rw [← hck, List.cons_getElem_drop_succ, List.take_append_drop]
      have hlen : (ids.take k).length = k := by rw [List.length_take]; omega
      obtain ⟨hgone, hthere⟩ := filter_missing (ids.take k) (ids.drop (k + 1)) hnot
        (by
          intro y hy
          obtain ⟨j, hj, hjy⟩ := List.mem_take_iff_getElem.mp hy
          refine hbefore k j y rfl (by omega) ?_
          rw [child?_collection_some, List.getElem?_eq_getElem (by omega), hjy])
        (by
          intro y hy
          obtain ⟨j, hj, hjy⟩ := List.mem_drop_iff_getElem.mp hy
          refine hafter k (k + 1 + j) y rfl (by omega) ?_
          rw [child?_collection_some, List.getElem?_eq_getElem (by omega), hjy])
      rw [hids] at hgone hthere
      simp only [without, hgone, hthere]
      refine ⟨?_, rfl, ?_⟩
      · rintro i ⟨⟩
        rw [hlen]
      · simp only [attach, collection.injEq]
        rw [List.take_of_length_le (by omega), List.drop_of_length_le (by omega)]

end SlotContent

/-! ### Trees without some nodes -/

namespace Tree

variable {defs : Definitions} {t t' : Tree}

/-- The bindings of a node, or none if there is no such node. -/
def inputsAt (t : Tree) (y : String) : SortedMap TypedExpression :=
  ((t.nodes.get? y).map Node.inputs).getD .empty

theorem inputsAt_of_get? {y : String} {n : Node} (h : t.nodes.get? y = some n) :
    t.inputsAt y = n.inputs := by
  rw [inputsAt, h]
  rfl

/-- A tree without the nodes that are missing, with other bindings. -/
structure Regrown (defs : Definitions) (t t' : Tree) (missing : List String)
    (bare : String → SortedMap TypedExpression) : Prop where
  /-- The tree is linked. -/
  linked : Linked defs t'
  /-- The root is there. -/
  root : t'.root = t.root
  /-- The nodes that are missing are not there. -/
  gone : ∀ y ∈ missing, t'.nodes.get? y = none
  /-- There are no further nodes. -/
  none : ∀ y, t.nodes.get? y = none → t'.nodes.get? y = none
  /-- All other nodes are there, and their slots hold what they held but for the missing nodes. -/
  node : ∀ y n, y ∉ missing → t.nodes.get? y = some n → ∃ m, t'.nodes.get? y = some m ∧
    m.schema = n.schema ∧ m.inputs = bare y ∧
      ∀ s, m.slots.get? s = (n.slots.get? s).map (SlotContent.without missing)

/-- A node without children is what is left of a node whose children are all missing. -/
theorem empty_without {n : Node} (hf : n.FitsSchema) {id : String} {link : Option ParentLink}
    {missing : List String} (h : ∀ s i c, n.child? s i = some c → c ∈ missing) (s : String) :
    (Node.empty n.schema id link).slots.get? s =
      (n.slots.get? s).map (SlotContent.without missing) := by
  rw [Node.empty, OrderedMap.get?_mapValues]
  cases hs : n.slots.get? s with
  | none =>
    cases hd : n.schema.slots.get? s with
    | none => rfl
    | some decl =>
      obtain ⟨content, hc⟩ := hf.slot_of_decl hd
      rw [hs] at hc
      cases hc
  | some content =>
    obtain ⟨decl, hd⟩ := hf.decl_of_slot hs
    rw [hd, Option.map_some, Option.map_some, SlotContent.without_eq_empty (hf.kind s _ _ hs hd)]
    intro i c hc
    exact h s i c (by rw [Node.child?_of_get? hs]; exact hc)

/-- A node that has no bindings gets none with a child. -/
theorem inputs_attach_of_empty {n : Node} (hf : n.FitsSchema) {slotName c : String}
    {content : SlotContent} {index : Option Nat} (hs : n.slots.get? slotName = some content)
    (ha : content.Admits index) (hempty : n.inputs = .empty) :
    (n.attach slotName content (content.place index) c).inputs = .empty := by
  have htidy : n.Tidy := by
    intro k e he
    rw [hempty] at he
    cases he
  obtain ⟨-, -, htraces⟩ := Node.inherits_attach hf htidy hs ha c
  refine SortedMap.ext_get? fun k => ?_
  rw [SortedMap.get?_empty, Option.eq_none_iff_forall_ne_some]
  intro e he
  obtain ⟨a, -, -, -, -, -, hin⟩ := htraces k e he
  rw [Node.input?, hempty] at hin
  cases hin

/-- Positions that are smaller than the largest number of 32 bits come through patches as they are.
-/
theorem toNat_ofNat_index {i : Option Nat} (h : ∀ k, i = some k → k < UInt32.size) :
    (i.map UInt32.ofNat).map UInt32.toNat = i := by
  cases i with
  | none => rfl
  | some k => simp [UInt32.toNat_ofNat_of_lt' (h k rfl)]

/-- A node is the next to be put back: its parent is there, and so are those in front of it, but not
those behind it and those below it. -/
structure Due (t : Tree) (m : Node) (link : ParentLink) (missing : List String) : Prop where
  /-- The node is missing once. -/
  once : m.id ∉ missing
  /-- Its parent is there. -/
  parent : link.nodeId ∉ m.id :: missing
  /-- What stands in front of the node is there. -/
  before : ∀ p i j y, t.nodes.get? link.nodeId = some p → link.index = some i → j < i →
    p.child? link.slotName (some j) = some y → y ∉ m.id :: missing
  /-- What stands behind the node is missing. -/
  after : ∀ p i j y, t.nodes.get? link.nodeId = some p → link.index = some i → i < j →
    p.child? link.slotName (some j) = some y → y ∈ missing
  /-- The children of the node are missing. -/
  below : ∀ s i c, m.child? s i = some c → c ∈ missing

section Create

variable {t' : Tree} {m p q : Node} {missing : List String} {link : ParentLink}
  {content : SlotContent}

/-- Everywhere but at its place, the node that is put back makes no difference. -/
theorem Linked.without_cons (h : Linked defs t) (hp : t.nodes.get? link.nodeId = some p)
    (hplace : p.child? link.slotName link.index = some m.id) {y s : String} {n : Node}
    (hn : t.nodes.get? y = some n) (hs : n.slots.get? s = some content)
    (hne : ¬ (y = link.nodeId ∧ s = link.slotName)) :
    content.without (m.id :: missing) = content.without missing := by
  refine SlotContent.without_congr fun i c hi => ⟨fun hmem => ?_, List.mem_cons_of_mem _⟩
  refine (List.mem_cons.mp hmem).resolve_left ?_
  rintro rfl
  obtain ⟨rfl, rfl, -⟩ := h.place_unique hn (by rw [Node.child?_of_get? hs]; exact hi) hp hplace
  exact hne ⟨rfl, rfl⟩

/-- The slots of the parent when the node is put back. -/
theorem Due.slots (hdue : t.Due m link missing) (h : Linked defs t)
    (hp : t.nodes.get? link.nodeId = some p) (hs : p.slots.get? link.slotName = some content)
    (hc : content.child? link.index = some m.id)
    (hslots : ∀ s, q.slots.get? s = (p.slots.get? s).map (SlotContent.without (m.id :: missing))) :
    (content.without (m.id :: missing)).Admits link.index ∧
      ∀ s, (q.attach link.slotName (content.without (m.id :: missing))
        ((content.without (m.id :: missing)).place link.index) m.id).slots.get? s =
          (p.slots.get? s).map (SlotContent.without missing) := by
  have hat : ∀ j, p.child? link.slotName j = content.child? j := Node.child?_of_get? hs
  obtain ⟨hadmits, hplaced, hattach⟩ := SlotContent.attach_without hc hdue.once
    (fun i j y hi hj hy => hdue.before p i j y hp hi hj (by rw [hat]; exact hy))
    (fun i j y hi hj hy => hdue.after p i j y hp hi hj (by rw [hat]; exact hy))
  refine ⟨hadmits, fun s => ?_⟩
  rw [Node.attach, hplaced, hattach, OrderedMap.get?_insert]
  by_cases hss : link.slotName = s
  · rw [if_pos hss, ← hss, hs, Option.map_some]
  · rw [if_neg hss, hslots]
    cases hs' : p.slots.get? s with
    | none => rfl
    | some other =>
      rw [Option.map_some, Option.map_some,
        h.without_cons hp (by rw [hat]; exact hc) hp hs' fun heq => hss heq.2.symm]

/-- One more node is put back. -/
theorem Regrown.create (h : Linked defs t) {d : Draft} {bare : String → SortedMap TypedExpression}
    (hr : Regrown defs t d.tree (m.id :: missing) bare) (hm : t.nodes.get? m.id = some m)
    (hlink : m.parent = some link) (hsmall : ∀ k, link.index = some k → k < UInt32.size)
    (hdue : t.Due m link missing) (hbare : bare m.id = .empty)
    (hbare' : bare link.nodeId = .empty) :
    ∃ d', d.apply defs (creationOf m) = .ok d' ∧ Regrown defs t d'.tree missing bare := by
  obtain ⟨p, hp, hplace⟩ := h.up hm hlink
  obtain ⟨content, hs, hc⟩ := Node.child?_eq_some_iff.mp hplace
  obtain ⟨q, hq, hschema, hinputs, hslots⟩ := hr.node _ p hdue.parent hp
  have hindex := toNat_ofNat_index hsmall
  obtain ⟨hadmits, hattach⟩ := hdue.slots h hp hs hc hslots
  have hqs : q.slots.get? link.slotName = some (content.without (m.id :: missing)) := by
    rw [hslots, hs, Option.map_some]
  obtain ⟨d', hd', hgrows⟩ := Draft.create_child_eq_ok hr.linked
    ⟨link.nodeId, link.slotName, link.index.map UInt32.ofNat⟩ (h.known hm)
    (hr.gone _ List.mem_cons_self) hq hqs (by rw [hindex]; exact hadmits)
  rw [hindex] at hgrows
  have hqid : q.id = link.nodeId := hr.linked.ownId hq
  refine ⟨d', by rw [creationOf, hlink]; exact hd', ?_⟩
  exact {
    linked := (hgrows.regraft hr.linked).linked hr.linked
    root := hgrows.root.trans hr.root
    gone := by
      intro y hy
      rw [hgrows.others y (fun heq => hdue.once (heq ▸ hy)) (fun heq => hdue.parent ?_),
        hr.gone y (List.mem_cons_of_mem _ hy)]
      · rfl
      · rw [← hqid, ← heq]
        exact List.mem_cons_of_mem _ hy
    none := by
      intro y hy
      rw [hgrows.others y, hr.none y hy]
      · rfl
      · exact (SortedMap.ne_of_get? hm hy).symm
      · exact (SortedMap.ne_of_get? (hqid ▸ hp) hy).symm
    node := by
      intro y n hy hn
      by_cases hym : y = m.id
      · subst hym
        rw [hm, Option.some.injEq] at hn
        subst hn
        -- the child comes without children, for those are all missing
        exact ⟨_, hgrows.child, rfl, hbare.symm, empty_without (h.fits hm) hdue.below⟩
      · by_cases hyq : y = q.id
        · -- the parent
          rw [hyq, hqid, hp, Option.some.injEq] at hn
          subst hn
          have hnode : d'.tree.nodes.get? y = some (q.attach link.slotName
              (content.without (m.id :: missing))
              ((content.without (m.id :: missing)).place link.index) m.id) := by
            rw [hyq]
            exact hgrows.after
          refine ⟨_, hnode, hschema, ?_, hattach⟩
          rw [inputs_attach_of_empty (hr.linked.fits hq) hqs hgrows.admits (by
            rw [hinputs, hbare']), hyq, hqid, hbare']
        · -- other nodes do not have the child, so nothing comes back to them
          have hym' : y ∉ m.id :: missing := by
            rw [List.mem_cons, not_or]
            exact ⟨hym, hy⟩
          obtain ⟨k, hk, hks, hki, hkslots⟩ := hr.node y n hym' hn
          refine ⟨_, by rw [hgrows.others y hym hyq, hk]; rfl, ?_, ?_, fun s => ?_⟩
          · rw [Node.schema_settle, hks]
          · rw [Node.inputs_settle, hki]
          · rw [Node.slots_settle, hkslots]
            cases hs' : n.slots.get? s with
            | none => rfl
            | some other =>
              rw [Option.map_some, Option.map_some,
                h.without_cons hp hplace hn hs' fun heq => hyq (heq.1.trans hqid.symm)] }

end Create

/-! ### All nodes -/

/-- No slot holds so many children that their positions do not fit into 32 bits. -/
def Small (t : Tree) : Prop :=
  ∀ ⦃y n s content⦄, t.nodes.get? y = some n → n.slots.get? s = some content →
    content.size < UInt32.size

theorem small_iff : t.Small ↔
    ∀ node ∈ t.nodes.entries, ∀ slot ∈ node.2.slots.entries, slot.2.size < UInt32.size := by
  constructor
  · rintro hsmall ⟨y, n⟩ hn ⟨s, content⟩ hs
    exact hsmall (SortedMap.mem_entries_iff.mp hn) (OrderedMap.mem_entries_iff.mp hs)
  · intro hall y n s content hn hs
    exact hall (y, n) (SortedMap.mem_entries_iff.mpr hn) (s, content)
      (OrderedMap.mem_entries_iff.mpr hs)

instance (t : Tree) : Decidable t.Small := decidable_of_iff _ small_iff.symm

theorem Small.index_lt (hsmall : t.Small) (h : Linked defs t) {y : String} {n : Node}
    {link : ParentLink} (hn : t.nodes.get? y = some n) (hlink : n.parent = some link) :
    ∀ k, link.index = some k → k < UInt32.size := by
  intro k hk
  obtain ⟨p, hp, hplace⟩ := h.up hn hlink
  obtain ⟨content, hs, hc⟩ := Node.child?_eq_some_iff.mp hplace
  rw [hk] at hc
  cases content with
  | single child => cases hc
  | collection ids =>
    obtain ⟨hlt, -⟩ := List.getElem?_eq_some_iff.mp hc
    exact Nat.lt_trans hlt (hsmall hp hs)

theorem Small.declares_lt (hsmall : t.Small) {y : String} {n : Node}
    (hn : t.nodes.get? y = some n) {a : InputAddress} (ha : n.Declares a) :
    ∀ k, a.index = some k → k < UInt32.size := by
  obtain ⟨name, index⟩ := a
  rintro k rfl
  obtain ⟨s, content, -, hs, hlt⟩ := ha
  exact Nat.lt_trans hlt (hsmall hn hs)

/-- In the order of the walk every node is due when its turn comes: it hangs somewhere below the
start of the walk, and what has to be there before it has come already. -/
theorem Linked.due_of_subtree (h : Linked defs t) {x : String} {n m : Node} {done rest : List Node}
    (hn : t.nodes.get? x = some n) (hlist : t.subtree t.size n = done ++ m :: rest)
    (hdone : n ∈ done) :
    t.nodes.get? m.id = some m ∧ t.Below x m.id ∧ ∃ link, m.parent = some link ∧
      t.Below x link.nodeId ∧ t.Due m link (rest.map Node.id) := by
  have hpair := h.pairwise_subtree hn
  rw [hlist, List.pairwise_append, List.pairwise_cons] at hpair
  obtain ⟨-, ⟨hnext, -⟩, hprev⟩ := hpair
  have hmem : ∀ k, k ∈ done ++ m :: rest ↔ t.Below x k.id ∧ t.nodes.get? k.id = some k := by
    intro k
    rw [← hlist]
    exact h.mem_subtree_iff hn
  obtain ⟨hb, hm⟩ := (hmem m).mp (List.mem_append_right _ List.mem_cons_self)
  have hmx : m.id ≠ x := by
    rw [← h.ownId hn]
    exact fun heq => (hprev n hdone m List.mem_cons_self).1 heq.symm
  obtain ⟨link, hlink⟩ : ∃ link, m.parent = some link := by
    cases hb with
    | self => exact absurd rfl hmx
    | child hm' hlink _ =>
      rw [hm, Option.some.injEq] at hm'
      exact ⟨_, hm' ▸ hlink⟩
  have hbp := Linked.below_parent hb hmx hm hlink
  obtain ⟨p, hp, hplace⟩ := h.up hm hlink
  -- another node below the start is missing, or has come already
  have hcome : ∀ {y k}, t.Below x y → t.nodes.get? y = some k → y ≠ m.id →
      y ∈ rest.map Node.id ∨ k ∈ done := by
    intro y k hy hk hne
    have hkid := h.ownId hk
    rcases List.mem_append.mp ((hmem k).mpr ⟨hkid.symm ▸ hy, hkid.symm ▸ hk⟩) with hkd | hkr
    · exact .inr hkd
    · rcases List.mem_cons.mp hkr with rfl | hkr
      · exact absurd hkid.symm hne
      · exact .inl (List.mem_map.mpr ⟨k, hkr, hkid⟩)
  -- what has to be there before the node is not among those that are still missing
  have hready : ∀ {y}, t.Precedes y m → y ≠ m.id → y ∉ m.id :: rest.map Node.id := by
    intro y hprec hne hmem
    obtain ⟨k, hk, rfl⟩ := List.mem_map.mp ((List.mem_cons.mp hmem).resolve_left hne)
    exact (hnext k hk).2 hprec
  -- the others in its collection stand at other positions
  have hother : ∀ {p' : Node} {i j : Nat} {y : String}, t.nodes.get? link.nodeId = some p' →
      link.index = some i → j ≠ i → p'.child? link.slotName (some j) = some y → y ≠ m.id := by
    rintro p' i j y hp' hi hj hy rfl
    have hij := (h.place_unique hp' hy hp hplace).2.2
    rw [hi, Option.some.injEq] at hij
    exact hj hij
  refine ⟨hm, hb, link, hlink, hbp, ?_⟩
  exact {
    once := by
      intro hin
      obtain ⟨k, hk, heq⟩ := List.mem_map.mp hin
      exact (hnext k hk).1 heq.symm
    parent := hready ⟨link, hlink, .inl rfl⟩ (h.parent_ne_self hm hlink)
    before := fun p' i j y hp' hi hj hy =>
      hready ⟨link, hlink, .inr ⟨i, j, p', hi, hj, hp', hy⟩⟩ (hother hp' hi (Nat.ne_of_lt hj) hy)
    after := by
      intro p' i j y hp' hi hj hy
      obtain ⟨k, hk, hup⟩ := h.down hp' hy
      refine (hcome (.child hk hup hbp) hk (hother hp' hi (Nat.ne_of_gt hj) hy)).resolve_right ?_
      intro hkd
      rw [hp, Option.some.injEq] at hp'
      subst hp'
      exact (hprev k hkd m List.mem_cons_self).2
        ⟨_, hup, .inr ⟨j, i, p, rfl, hj, hp, by rw [← hi]; exact hplace⟩⟩
    below := by
      intro s i c hc
      obtain ⟨k, hk, hup⟩ := h.down hm hc
      refine (hcome (.child hk hup hb) hk (h.child_ne_self hm hc)).resolve_right fun hkd => ?_
      exact (hprev k hkd m List.mem_cons_self).2 ⟨_, hup, .inl rfl⟩ }

/-- All nodes below one that is there are put back, in the order of the walk. -/
theorem Regrown.creations (h : Linked defs t) (hsmall : t.Small) {x : String} {n : Node}
    {bare : String → SortedMap TypedExpression} (hn : t.nodes.get? x = some n)
    (hbare : ∀ y, t.Below x y → bare y = .empty) :
    ∀ (rest done : List Node), t.subtree t.size n = done ++ rest → n ∈ done → ∀ d : Draft,
      Regrown defs t d.tree (rest.map Node.id) bare →
        ∃ d', (rest.map creationOf).foldlM (fun d p => d.apply defs p) d = .ok d' ∧
          Regrown defs t d'.tree [] bare := by
  intro rest
  induction rest with
  | nil => exact fun _ _ _ d hr => ⟨d, rfl, hr⟩
  | cons m rest ih =>
    intro done hlist hdone d hr
    obtain ⟨hm, hb, link, hlink, hbp, hdue⟩ := h.due_of_subtree hn hlist hdone
    obtain ⟨d₁, hd₁, hr₁⟩ := hr.create h hm hlink (hsmall.index_lt h hm hlink) hdue
      (hbare _ hb) (hbare _ hbp)
    obtain ⟨d', hd', hr'⟩ := ih (done ++ [m]) (by rw [hlist, List.append_assoc]; rfl)
      (List.mem_append_left _ hdone) d₁ hr₁
    refine ⟨d', ?_, hr'⟩
    rw [List.map_cons, List.foldlM_cons, hd₁, Outcome.ok_bind]
    exact hd'

end Tree

end SlotTree
