import SlotTree.Proofs.Document.Pruning

/-!
# Deletions in either order

Two nodes of which neither is above the other may be deleted in either order.  What is left hangs on
which nodes are left out and not on the order: every slot holds the others in the order that they
had, and what was bound for a child is bound for it at the position that it has then.  So the
positions, which differ on the way, are the same in the end.

## Main definitions

* `Node.Sheds` — a node before and after some nodes have gone from its slots.
* `Tree.Leaves` — a tree before and after some nodes have gone with all that was below them.
* `Tree.IsAncestor` — the nodes that the ancestors of a node name.

## Main results

* `Node.Sheds.trans`, `Tree.Leaves.trans` — nodes that go one after the other.
* `Node.Sheds.unique`, `Tree.Leaves.unique` — what is left is known by the nodes that have gone.
* `Document.delete_comm_run` — in every run, deletions may be exchanged.
-/

namespace SlotTree

/-! ### Slots -/

namespace SlotContent

variable {content : SlotContent} {xs ys : List String} {y : String}

theorem without_eq_self (h : ∀ i c, content.child? i = some c → c ∉ xs) :
    content.without xs = content := by
  have hnil : content.without xs = content.without [] :=
    without_congr fun i c hc => by simp [h i c hc]
  rw [hnil, without_nil]

theorem without_without (xs ys : List String) (content : SlotContent) :
    (content.without xs).without ys = content.without (xs ++ ys) := by
  cases content with
  | single child =>
    cases child with
    | none => rfl
    | some c => by_cases hx : c ∈ xs <;> simp [without, Option.filter, hx]
  | collection ids =>
    simp only [without, List.filter_filter, collection.injEq]
    refine List.filter_congr fun c _ => ?_
    by_cases hx : c ∈ xs <;> simp [hx]

/-- What is left in a slot stood there before, at a position if it has one now. -/
theorem child?_of_without {j : Option Nat} (h : (content.without xs).child? j = some y) :
    y ∉ xs ∧ ∃ i, content.child? i = some y ∧ i.isSome = j.isSome := by
  cases content with
  | single child =>
    cases j with
    | some j => cases h
    | none =>
      obtain ⟨hy, hnot⟩ := Option.filter_eq_some_iff.mp h
      exact ⟨of_decide_eq_true hnot, none, hy, rfl⟩
  | collection ids =>
    cases j with
    | none => cases h
    | some j =>
      obtain ⟨hmem, hnot⟩ := List.mem_filter.mp (List.mem_of_getElem? h)
      obtain ⟨i, hi⟩ := List.mem_iff_getElem?.mp hmem
      exact ⟨of_decide_eq_true hnot, some i, hi, rfl⟩

end SlotContent

/-! ### Nodes -/

namespace Node

/-- An input of a position belongs to the child that stands there. -/
theorem Declares.exists_child? {n : Node} (hf : n.FitsSchema) {name : String} {j : Nat}
    (h : n.Declares ⟨name, some j⟩) : ∃ s y,
      name ∈ (n.schema.collectionInputs s).map Prod.fst ∧ n.child? s (some j) = some y := by
  obtain ⟨s, content, hn, hs, hj⟩ := h
  have hcollection := hf.isCollection_of_input hs hn
  cases content with
  | single child => cases hcollection
  | collection ids =>
    exact ⟨s, ids[j], hn, (child?_of_get? hs _).trans (List.getElem?_eq_getElem hj)⟩

/-- A node before and after some nodes have gone from its slots: each slot holds the others in their
order, and what was bound for a child is bound for it still. -/
structure Sheds (n n' : Node) (xs : List String) : Prop where
  /-- The schema stays. -/
  schema : n'.schema = n.schema
  /-- The slots have the same names. -/
  keys : n'.slots.keys = n.slots.keys
  /-- Every slot holds what it held but for the nodes that have gone. -/
  slots : ∀ s, n'.slots.get? s = (n.slots.get? s).map (SlotContent.without xs)
  /-- The inputs of the node are bound as they were. -/
  plain : ∀ name ∈ n.schema.inputs.keys, n'.input? ⟨name, none⟩ = n.input? ⟨name, none⟩
  /-- What was bound for a child is bound for it at the position that it has now. -/
  follows : ∀ s, ∀ name ∈ (n.schema.collectionInputs s).map Prod.fst, ∀ y i j,
    n.child? s (some i) = some y → n'.child? s (some j) = some y →
      n'.input? ⟨name, some j⟩ = n.input? ⟨name, some i⟩
  /-- Nothing is bound at an address that there is not any more. -/
  tidy : n'.Tidy

namespace Sheds

variable {n n' n'' : Node} {xs ys : List String} {s y : String}

theorem child?_before (h : n.Sheds n' xs) {j : Option Nat} (hy : n'.child? s j = some y) :
    y ∉ xs ∧ ∃ i, n.child? s i = some y ∧ i.isSome = j.isSome := by
  obtain ⟨content', hs', hc⟩ := child?_eq_some_iff.mp hy
  rw [h.slots] at hs'
  obtain ⟨content, hs, rfl⟩ := Option.map_eq_some_iff.mp hs'
  obtain ⟨hnot, i, hi, hsome⟩ := SlotContent.child?_of_without hc
  exact ⟨hnot, i, (child?_of_get? hs i).trans hi, hsome⟩

/-- A node that holds none of those that have gone stays as it is. -/
theorem of_same (ht : n.Tidy) (hd : n.Distinct) (hxs : ∀ s i c, n.child? s i = some c → c ∉ xs)
    (hschema : n'.schema = n.schema) (hslots : n'.slots = n.slots)
    (hinputs : n'.inputs = n.inputs) : n.Sheds n' xs where
  schema := hschema
  keys := by rw [hslots]
  slots := by
    intro s
    rw [hslots]
    cases hs : n.slots.get? s with
    | none => rfl
    | some content =>
      rw [Option.map_some, SlotContent.without_eq_self]
      exact fun i c hc => hxs s i c ((child?_of_get? hs i).trans hc)
  plain name _ := by rw [input?, input?, hinputs]
  follows := by
    intro s name _ y i j hi hj
    rw [child?_congr hslots] at hj
    obtain ⟨-, heq⟩ := hd _ _ _ _ _ hi hj
    cases heq
    rw [input?, input?, hinputs]
  tidy := by
    intro k e he
    rw [hinputs] at he
    obtain ⟨a, hkey, ha⟩ := ht k e he
    exact ⟨a, hkey, (declares_congr hschema hslots).mpr ha⟩

/-- A parent sheds the child that it loses. -/
theorem of_loses {x slotName : String} {k : Option Nat} (hd : n.Distinct)
    (hx : n.child? slotName k = some x) (h : n.Loses n' x slotName) : n.Sheds n' [x] where
  schema := h.schema
  keys := by
    obtain ⟨content, hs, hslots⟩ := h.slots
    rw [hslots, OrderedMap.keys_insert hs]
  slots := by
    intro s
    obtain ⟨content, hs, hslots⟩ := h.slots
    rw [hslots, OrderedMap.get?_insert]
    by_cases heq : slotName = s
    · rw [if_pos heq, ← heq, hs, Option.map_some]
    · -- the child stands in no other slot
      rw [if_neg heq]
      cases hs' : n.slots.get? s with
      | none => rfl
      | some other =>
        rw [Option.map_some, SlotContent.without_eq_self]
        intro i c hc hmem
        rw [List.mem_singleton] at hmem
        subst hmem
        exact heq (hd _ _ _ _ _ hx ((child?_of_get? hs' i).trans hc)).1
  plain name hname := h.others ⟨name, none⟩ hname fun _ => rfl
  follows := by
    intro s name hname y i j hi hj
    by_cases heq : s = slotName
    · subst heq
      exact h.follows name hname y i j hi hj
    · -- the slot has not changed, and its inputs are none of the other slot
      have hsame : n'.child? s (some j) = n.child? s (some j) := by
        obtain ⟨content, -, hslots⟩ := h.slots
        rw [child?, child?, hslots, OrderedMap.get?_insert, if_neg (Ne.symm heq)]
      rw [hsame] at hj
      obtain ⟨-, hij⟩ := hd _ _ _ _ _ hi hj
      cases hij
      obtain ⟨content, hs, hc⟩ := child?_eq_some_iff.mp hi
      refine h.others _ ⟨s, content, hname, hs, ?_⟩ fun hname' => ?_
      · cases content with
        | single child => cases hc
        | collection ids => exact (List.getElem?_eq_some_iff.mp hc).1
      · have howner := NodeSchema.collectionSlotOf_eq_some_iff.mpr hname
        rw [NodeSchema.collectionSlotOf_eq_some_iff.mpr hname'] at howner
        cases howner
        exact absurd rfl heq
  tidy := h.tidy

/-- Nodes that go one after the other. -/
theorem trans (h : n.Sheds n' xs) (h' : n'.Sheds n'' ys) : n.Sheds n'' (xs ++ ys) where
  schema := h'.schema.trans h.schema
  keys := h'.keys.trans h.keys
  slots := by
    intro s
    rw [h'.slots, h.slots, Option.map_map]
    exact congrArg (fun f => (n.slots.get? s).map f) (funext (SlotContent.without_without xs ys))
  plain name hname := (h'.plain name (h.schema.symm ▸ hname)).trans (h.plain name hname)
  follows := by
    intro s name hname y i j hi hj
    -- in between the child stood at some position, too
    obtain ⟨-, m, hm, hsome⟩ := h'.child?_before hj
    obtain ⟨m, rfl⟩ := Option.isSome_iff_exists.mp hsome
    exact (h'.follows s name (h.schema.symm ▸ hname) y m j hm hj).trans
      (h.follows s name hname y i m hi hm)
  tidy := h'.tidy

/-- What a node keeps is known by what has gone from it. -/
theorem unique (h : n.Sheds n' xs) (h' : n.Sheds n'' ys) (hf : n''.FitsSchema)
    (hxs : ∀ y, y ∈ xs ↔ y ∈ ys) : n'.slots = n''.slots ∧ n'.inputs = n''.inputs := by
  have hslots : n'.slots = n''.slots := by
    refine OrderedMap.ext_keys (h.keys.trans h'.keys.symm) fun s => ?_
    rw [h.slots, h'.slots]
    congr 1
    exact funext fun content => SlotContent.without_congr fun _ c _ => hxs c
  have hschema : n'.schema = n''.schema := h.schema.trans h'.schema.symm
  refine ⟨hslots, h.tidy.ext h'.tidy hschema hslots fun a ha => ?_⟩
  obtain ⟨name, index⟩ := a
  cases index with
  | none =>
    have hname : name ∈ n.schema.inputs.keys := h'.schema ▸ ha
    exact (h.plain name hname).trans (h'.plain name hname).symm
  | some j =>
    -- the child at the position stood at one place before
    obtain ⟨s, y, hname, hy''⟩ := ha.exists_child? hf
    rw [h'.schema] at hname
    have hy' : n'.child? s (some j) = some y := (child?_congr hslots s _).trans hy''
    obtain ⟨-, i, hi, hsome⟩ := h.child?_before hy'
    obtain ⟨i, rfl⟩ := Option.isSome_iff_exists.mp hsome
    exact (h.follows s name hname y i j hi hy').trans (h'.follows s name hname y i j hi hy'').symm

end Sheds

end Node

/-! ### Trees -/

namespace Tree

/-- A tree before and after some nodes have gone, with all that was below them. -/
structure Leaves (t t' : Tree) (xs : List String) : Prop where
  /-- The root stays. -/
  root : t'.root = t.root
  /-- What is below none of the nodes stays, without those that have gone. -/
  kept : ∀ y n, t.nodes.get? y = some n → (∀ x ∈ xs, ¬ t.Below x y) →
    ∃ n', t'.nodes.get? y = some n' ∧ n.Sheds n' xs
  /-- The nodes have gone with all that was below them. -/
  gone : ∀ y, ∀ x ∈ xs, t.Below x y → t'.nodes.get? y = none
  /-- There are no further nodes. -/
  none : ∀ y, t.nodes.get? y = none → t'.nodes.get? y = none

variable {defs : Definitions} {t t' t'' : Tree} {xs ys : List String} {x y : String}

/-- A child that is deleted goes with all that was below it. -/
theorem Shrinks.leaves {p : Node} {slotName : String} {content : SlotContent} {k : Option Nat}
    (hg : Shrinks t t' x p slotName content k) (h : Valid defs t) : Leaves t t' [x] where
  root := hg.root
  kept := by
    intro y n hn hb
    rw [List.forall_mem_singleton] at hb
    by_cases hy : y = p.id
    · subst hy
      rw [hg.before, Option.some.injEq] at hn
      subst hn
      exact ⟨_, hg.after, .of_loses (h.linked.distinct hg.before) hg.child? (hg.loses h)⟩
    · refine ⟨_, by rw [hg.others y hb hy, hn, Option.map_some], ?_⟩
      refine .of_same (h.bound.tidy hn) (h.linked.distinct hn) ?_ (n.schema_settle _)
        (n.slots_settle _) (n.inputs_settle _)
      -- the child hangs on its parent and on no other node
      intro s i c hc hmem
      rw [List.mem_singleton] at hmem
      subst hmem
      exact hy (h.linked.place_unique hn hc hg.before hg.child?).1
  gone := by
    intro y z hz hb
    rw [List.mem_singleton] at hz
    subst hz
    exact hg.gone y hb
  none := by
    intro y hn
    by_cases hb : t.Below x y
    · exact hg.gone y hb
    · have hy : y ≠ p.id := (SortedMap.ne_of_get? hg.before hn).symm
      rw [hg.others y hb hy, hn, Option.map_none]

namespace Leaves

/-- What is left was there, and below none of the nodes that have gone. -/
theorem before (hl : Leaves t t' xs) {m : Node} (hm : t'.nodes.get? y = some m) :
    ∃ n, t.nodes.get? y = some n ∧ (∀ x ∈ xs, ¬ t.Below x y) ∧ n.Sheds m xs := by
  have hb : ∀ x ∈ xs, ¬ t.Below x y := by
    intro x hx hb
    rw [hl.gone y x hx hb] at hm
    cases hm
  cases hn : t.nodes.get? y with
  | none =>
    rw [hl.none y hn] at hm
    cases hm
  | some n =>
    obtain ⟨m', hm', hsheds⟩ := hl.kept y n hn hb
    rw [hm, Option.some.injEq] at hm'
    exact ⟨n, rfl, hb, hm'.symm ▸ hsheds⟩

/-- What is left hangs on the node that it hung on. -/
theorem parent_before (hl : Leaves t t' xs) (h : Linked defs t) (h' : Linked defs t') {m : Node}
    {link' : ParentLink} (hm : t'.nodes.get? y = some m) (hlink' : m.parent = some link') :
    ∃ n link, t.nodes.get? y = some n ∧ n.parent = some link ∧ link.nodeId = link'.nodeId := by
  obtain ⟨q, hq, hy⟩ := h'.up hm hlink'
  obtain ⟨p, hp, -, hsheds⟩ := hl.before hq
  obtain ⟨-, i, hi, -⟩ := hsheds.child?_before hy
  obtain ⟨n, hn, hlink⟩ := h.down hp hi
  exact ⟨n, _, hn, hlink, rfl⟩

/-- Among what is left, the same nodes are below one another. -/
theorem below_iff (hl : Leaves t t' xs) (h : Linked defs t) (h' : Linked defs t') {m : Node}
    (hm : t'.nodes.get? y = some m) : t'.Below x y ↔ t.Below x y := by
  constructor
  · intro hb
    clear hm
    induction hb with
    | self => exact .self
    | child hm hlink _ ih =>
      obtain ⟨n, link, hn, hlink', heq⟩ := hl.parent_before h h' hm hlink
      exact .child hn hlink' (heq ▸ ih)
  · intro hb
    induction hb generalizing m with
    | self => exact .self
    | @child y n link hn hlink _ ih =>
      cases hlink' : m.parent with
      | none =>
        -- the root has no parent in either tree
        obtain ⟨r, hr, hnone⟩ := h.rooted (hl.root.symm.trans (h'.top hm hlink'))
        rw [hn, Option.some.injEq] at hr
        rw [← hr, hlink] at hnone
        cases hnone
      | some link' =>
        obtain ⟨n', link'', hn', hlink'', heq⟩ := hl.parent_before h h' hm hlink'
        rw [hn, Option.some.injEq] at hn'
        subst hn'
        rw [hlink, Option.some.injEq] at hlink''
        subst hlink''
        obtain ⟨q, hq, -⟩ := h'.up hm hlink'
        exact .child hm hlink' (heq ▸ ih (heq.symm ▸ hq))

/-- Nodes that go one after the other. -/
theorem trans (hl : Leaves t t' xs) (hl' : Leaves t' t'' ys) (h : Linked defs t)
    (h' : Linked defs t') : Leaves t t'' (xs ++ ys) where
  root := hl'.root.trans hl.root
  kept := by
    intro y n hn hb
    rw [List.forall_mem_append] at hb
    obtain ⟨n', hn', hsheds⟩ := hl.kept y n hn hb.1
    obtain ⟨n'', hn'', hsheds'⟩ := hl'.kept y n' hn' fun x hx hbelow =>
      hb.2 x hx ((hl.below_iff h h' hn').mp hbelow)
    exact ⟨n'', hn'', hsheds.trans hsheds'⟩
  gone := by
    intro y x hx hb
    rcases List.mem_append.mp hx with hx | hx
    · exact hl'.none y (hl.gone y x hx hb)
    · -- what has not gone with the first nodes is below the same nodes as before
      cases hm : t'.nodes.get? y with
      | none => exact hl'.none y hm
      | some m => exact hl'.gone y x hx ((hl.below_iff h h' hm).mpr hb)
  none y hn := hl'.none y (hl.none y hn)

/-- What is left of a tree is known by the nodes that have gone. -/
theorem unique (hl : Leaves t t' xs) (hl' : Leaves t t'' ys) (h' : Linked defs t')
    (h'' : Linked defs t'') (hxs : ∀ y, y ∈ xs ↔ y ∈ ys) : t' = t'' := by
  refine h''.ext h' (hl.root.trans hl'.root.symm) ?_ ?_
  · intro y m hm
    obtain ⟨n, hn, hb, hsheds⟩ := hl'.before hm
    obtain ⟨m', hm', hsheds'⟩ := hl.kept y n hn fun x hx => hb x ((hxs x).mp hx)
    obtain ⟨hslots, hinputs⟩ := hsheds'.unique hsheds (h''.fits hm) hxs
    exact ⟨m', hm', hsheds'.schema.trans hsheds.schema.symm, hslots, hinputs⟩
  · intro y hnone
    cases hm : t'.nodes.get? y with
    | none => rfl
    | some m =>
      obtain ⟨n, hn, hb, -⟩ := hl.before hm
      obtain ⟨m', hm', -⟩ := hl'.kept y n hn fun x hx => hb x ((hxs x).mpr hx)
      rw [hnone] at hm'
      cases hm'

end Leaves

/-! ### Ancestors -/

/-- A node is among the ancestors of another. -/
def IsAncestor (t : Tree) (x y : String) : Prop :=
  ∃ links, t.ancestorLinks y = .ok links ∧ x ∈ links.map ParentLink.nodeId

/-- Whether a node is an ancestor is found out by going up. -/
instance IsAncestor.decidable (t : Tree) (x y : String) : Decidable (t.IsAncestor x y) :=
  Outcome.decidableExistsEqOk

theorem Linked.not_below_of_not_isAncestor (h : Linked defs t) {n : Node}
    (hy : t.nodes.get? y = some n) (hne : x ≠ y) (hnot : ¬ t.IsAncestor x y) : ¬ t.Below x y := by
  obtain ⟨links, hlinks, hiff⟩ := h.below_iff (x := x) hy
  rw [hiff, not_or]
  exact ⟨hne.symm, fun hmem => hnot ⟨links, hlinks, hmem⟩⟩

end Tree

/-! ### Documents -/

namespace Document

variable {doc : Document} {x y : String}

/-- A node that is not the root is deleted from a valid tree, and leaves a valid one. -/
theorem apply_delete_leaves (h : Tree.Valid doc.definitions doc.tree) {n : Node}
    (hn : doc.tree.nodes.get? x = some n) (hroot : doc.tree.root ≠ some x) (now : Instant) :
    ∃ r, doc.apply now (.deleteNode x) = .ok r ∧ r.1.definitions = doc.definitions ∧
      Tree.Valid doc.definitions r.1.tree ∧ doc.tree.Leaves r.1.tree [x] := by
  obtain ⟨place, hlink⟩ : ∃ place, n.parent = some place :=
    Option.ne_none_iff_exists'.mp fun hnone => hroot (h.linked.top hn hnone)
  obtain ⟨r, p, content, hr, hdefs, -, hshrinks⟩ := apply_delete_child h hn hlink now
  exact ⟨r, hr, hdefs, (hshrinks.regraft h.linked).valid h, hshrinks.leaves h⟩

/-- Of two nodes of which neither is below the other, both are deleted one after the other. -/
theorem apply_delete_delete (h : Tree.Valid doc.definitions doc.tree)
    (hx : doc.tree.has x = true) (hy : doc.tree.has y = true) (hxy : ¬ doc.tree.Below x y)
    (hyx : ¬ doc.tree.Below y x) (now now' : Instant) :
    ∃ r r', doc.apply now (.deleteNode x) = .ok r ∧ r.1.apply now' (.deleteNode y) = .ok r' ∧
      Tree.Valid doc.definitions r'.1.tree ∧ doc.tree.Leaves r'.1.tree [x, y] := by
  obtain ⟨n, hn⟩ := Tree.has_eq_true_iff.mp hx
  obtain ⟨m, hm⟩ := Tree.has_eq_true_iff.mp hy
  -- everything is below the root, so it is neither of the two
  have hrootx : doc.tree.root ≠ some x := fun hr => hxy (h.linked.below_root hr hm)
  have hrooty : doc.tree.root ≠ some y := fun hr => hyx (h.linked.below_root hr hn)
  obtain ⟨r, hr, hdefs, hvalid, hleaves⟩ := apply_delete_leaves h hn hrootx now
  obtain ⟨m', hm', -⟩ := hleaves.kept y m hm (List.forall_mem_singleton.mpr hxy)
  obtain ⟨r', hr', -, hvalid', hleaves'⟩ := apply_delete_leaves (hdefs.symm ▸ hvalid) hm'
    (hleaves.root.symm ▸ hrooty) now'
  exact ⟨r, r', hr, hr', hdefs ▸ hvalid', hleaves.trans hleaves' h.linked hvalid.linked⟩

/-- In every run, two nodes of which neither is an ancestor of the other can be deleted in either
order, at any times, and the tree that is left is the same: the same root, and the same nodes with
the same links, slots and bindings.  It is what the two leave when they go with all that is below
them. -/
theorem delete_comm_run (name : String) (defs : Definitions) (config : DocumentConfig)
    (calls : List Call) (now₁ now₂ now₃ now₄ : Instant) {x y : String} (hne : x ≠ y)
    (hx : ((Document.new name defs config).run calls).tree.has x = true)
    (hy : ((Document.new name defs config).run calls).tree.has y = true)
    (hxy : ¬ ((Document.new name defs config).run calls).tree.IsAncestor x y)
    (hyx : ¬ ((Document.new name defs config).run calls).tree.IsAncestor y x) :
    let doc := (Document.new name defs config).run calls
    ∃ a ab b ba, doc.apply now₁ (.deleteNode x) = .ok a ∧
      a.1.apply now₂ (.deleteNode y) = .ok ab ∧ doc.apply now₃ (.deleteNode y) = .ok b ∧
      b.1.apply now₄ (.deleteNode x) = .ok ba ∧ ab.1.tree = ba.1.tree ∧
      doc.tree.Leaves ab.1.tree [x, y] := by
  intro doc
  have h : Tree.Valid doc.definitions doc.tree := valid_definitions_run name defs config calls
  obtain ⟨n, hn⟩ := Tree.has_eq_true_iff.mp hx
  obtain ⟨m, hm⟩ := Tree.has_eq_true_iff.mp hy
  have hbxy : ¬ doc.tree.Below x y := h.linked.not_below_of_not_isAncestor hm hne hxy
  have hbyx : ¬ doc.tree.Below y x := h.linked.not_below_of_not_isAncestor hn hne.symm hyx
  obtain ⟨a, ab, ha, hab, hvalid, hleaves⟩ := apply_delete_delete h hx hy hbxy hbyx now₁ now₂
  obtain ⟨b, ba, hb, hba, hvalid', hleaves'⟩ := apply_delete_delete h hy hx hbyx hbxy now₃ now₄
  refine ⟨a, ab, b, ba, ha, hab, hb, hba, ?_, hleaves⟩
  refine hleaves.unique hleaves' hvalid.linked hvalid'.linked fun z => ?_
  simp [or_comm]

/-- A third shelf beside the two, with a tag that it has in their parent. -/
def taggedShelfCalls : List Call :=
  shelfCalls ++ [.apply 0 (.createNode "Shelf" (some ⟨"top", "items", none⟩) (some "last")),
    .apply 0 (.setNodeInput "top" "tag" (some 2) (some (.string "third")))]

/-- When the two in front of it go, one way or the other, the third one comes to the first position,
and so does its tag. -/
theorem delete_comm_run_taggedShelfCalls :
    let doc := (Document.new "shelves" shelfDefinitions).run taggedShelfCalls
    let tagged (t : Tree) (i : Nat) := (t.nodes.get? "top").any fun n =>
      (n.input? ⟨"tag", some i⟩).isSome
    ¬ doc.tree.IsAncestor "left" "right" ∧ ¬ doc.tree.IsAncestor "right" "left" ∧
    tagged doc.tree 2 = true ∧
    ∃ a ab b ba, doc.apply 0 (.deleteNode "left") = .ok a ∧
      a.1.apply 1 (.deleteNode "right") = .ok ab ∧ doc.apply 0 (.deleteNode "right") = .ok b ∧
      b.1.apply 1 (.deleteNode "left") = .ok ba ∧ ab.1.tree = ba.1.tree ∧
      (ba.1.tree.nodes.get? "last").bind Node.parent = some ⟨"top", "items", some 0⟩ ∧
      tagged ba.1.tree 0 = true := by
  intro doc tagged
  have hlr : ¬ doc.tree.IsAncestor "left" "right" := by decide +kernel
  have hrl : ¬ doc.tree.IsAncestor "right" "left" := by decide +kernel
  obtain ⟨a, ab, b, ba, ha, hab, hb, hba, heq, -⟩ := delete_comm_run "shelves" shelfDefinitions {}
    taggedShelfCalls 0 1 0 1 (by decide : "left" ≠ "right") (by decide +kernel)
    (by decide +kernel) hlr hrl
  obtain ⟨b', hb', ba', hba', hafter⟩ : ∃ r, doc.apply 0 (.deleteNode "right") = .ok r ∧
      ∃ r', r.1.apply 1 (.deleteNode "left") = .ok r' ∧
        ((r'.1.tree.nodes.get? "last").bind Node.parent = some ⟨"top", "items", some 0⟩ ∧
          tagged r'.1.tree 0 = true) := by decide +kernel
  cases hb.symm.trans hb'
  cases hba.symm.trans hba'
  exact ⟨hlr, hrl, by decide +kernel, a, ab, b, ba, ha, hab, hb, hba, heq, hafter⟩

end Document

end SlotTree
