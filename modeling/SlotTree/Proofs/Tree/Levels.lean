import SlotTree.Proofs.Tree.Walks

/-!
# The levels of a tree

The listing of all ids goes through a linked tree level by level: a node comes after its parent, and
no node before one of a higher level.  Within a level the nodes come in the order of their parents,
and those of one parent in the order of their places.  No other listing does all that.

The proof looks at the listing as a whole: behind the root it consists of the children of all that
it lists, parent by parent.

## Main definitions

* `Tree.depth` — the number of links from the root down to a node.
* `Tree.Ahead` — the order of places level by level.
* `Tree.LevelOrder` — a listing of all ids, level by level.

## Main results

* `Tree.Linked.keys_eq` — the listing, as the root and the children of all that is listed.
* `Tree.Linked.levelOrder_keys` — it goes level by level.
* `Tree.LevelOrder.unique` — and is the only listing that does.
-/

namespace SlotTree.Tree

variable {defs : Definitions} {t : Tree}

/-! ### Links and depths -/

/-- The link of the node with an id to its parent. -/
def linkOf? (t : Tree) (id : String) : Option ParentLink := (t.nodes.get? id).bind Node.parent

/-- The number of links from the root down to a node. -/
def depth (t : Tree) (id : String) : Nat :=
  match t.ancestorLinks id with
  | .ok links => links.length
  | .error _ => 0

theorem linkOf?_eq_some_iff {x : String} {link : ParentLink} :
    t.linkOf? x = some link ↔ ∃ n, t.nodes.get? x = some n ∧ n.parent = some link :=
  Option.bind_eq_some_iff

theorem Linked.depth_eq (h : Linked defs t) {x : String} {n : Node}
    {path : List (ParentLink × Node)} (hn : t.nodes.get? x = some n) (hc : t.Climbs n path) :
    t.depth x = path.length := by
  rw [depth, h.ancestorLinks_eq hn hc]
  simp only [List.length_reverse, List.length_map]

/-- A node is one level below its parent. -/
theorem Linked.depth_of_link (h : Linked defs t) {x : String} {link : ParentLink}
    (hx : t.linkOf? x = some link) : t.depth x = t.depth link.nodeId + 1 := by
  obtain ⟨n, hn, hlink⟩ := linkOf?_eq_some_iff.mp hx
  obtain ⟨p, hp, -⟩ := h.up hn hlink
  obtain ⟨path, hpath⟩ := h.climbs hp
  rw [h.depth_eq hp hpath, h.depth_eq hn (.up hlink hp hpath), List.length_cons]

/-- A node without a link is the root, at no depth. -/
theorem Linked.of_linkOf?_eq_none (h : Linked defs t) {x : String} {n : Node}
    (hn : t.nodes.get? x = some n) (hx : t.linkOf? x = none) :
    t.root = some x ∧ t.depth x = 0 := by
  have hnone : n.parent = none := by
    rwa [linkOf?, hn] at hx
  exact ⟨h.top hn hnone, h.depth_eq hn (.root hnone)⟩

theorem Linked.linkOf?_root (h : Linked defs t) {r : String} (hr : t.root = some r) :
    t.linkOf? r = none := by
  obtain ⟨n, hn, hnone⟩ := h.rooted hr
  rw [linkOf?, hn, Option.bind_some, hnone]

/-! ### The listing by itself -/

/-- The ids of the children of a node, in the order of their places. -/
def childrenOf (t : Tree) (id : String) : List String :=
  match t.nodes.get? id with
  | some n => n.childIds
  | none => []

theorem childrenOf_of_get? {x : String} {n : Node} (hn : t.nodes.get? x = some n) :
    t.childrenOf x = n.childIds := by
  rw [childrenOf, hn]

/-- A walk lists its queue first, and then the children of all that it lists. -/
theorem Linked.visits_eq (h : Linked defs t) {queue ids : List String} (hv : t.Visits queue ids)
    (hq : ∀ q ∈ queue, ∃ n, t.nodes.get? q = some n) :
    ids = queue ++ ids.flatMap t.childrenOf := by
  induction hv with
  | done => rfl
  | @node id queue ids n hn _ ih =>
    have hids : ids = (queue ++ n.childIds) ++ ids.flatMap t.childrenOf := by
      refine ih fun q hmem => ?_
      rcases List.mem_append.mp hmem with hmem | hmem
      · exact hq q (List.mem_cons_of_mem id hmem)
      · obtain ⟨s, i, hplace⟩ := Node.mem_childIds_iff.mp hmem
        obtain ⟨m, hm, -⟩ := h.down hn hplace
        exact ⟨m, hm⟩
    rw [List.flatMap_cons, childrenOf_of_get? hn, List.cons_append, ← List.append_assoc, ← hids]
  | missing hnone _ _ =>
    obtain ⟨n, hn⟩ := hq _ List.mem_cons_self
    rw [hnone] at hn
    cases hn

/-- The listing of all ids is the root, followed by the children of all that is listed. -/
theorem Linked.keys_eq (h : Linked defs t) {r : String} (hr : t.root = some r) :
    t.keys = r :: t.keys.flatMap t.childrenOf := by
  have hv := h.visits_keys
  rw [hr] at hv
  obtain ⟨n, hn, -⟩ := h.rooted hr
  refine h.visits_eq hv fun q hq => ?_
  rw [List.mem_singleton.mp hq]
  exact ⟨n, hn⟩

/-! ### The order of the listing -/

/-- One place comes before another level by level: its node is listed first, or both are places of
one node, and come in this order there. -/
def Ahead (t : Tree) (ids : List String) (a b : ParentLink) : Prop :=
  Before ids a.nodeId b.nodeId ∨ a.nodeId = b.nodeId ∧
    ∃ p, t.nodes.get? a.nodeId = some p ∧ a.Precedes b p.schema.slots.keys

/-- Two places come in one order only. -/
theorem Ahead.asymm {ids : List String} {a b : ParentLink} (hab : t.Ahead ids a b)
    (hids : ids.Nodup) : ¬ t.Ahead ids b a := by
  rintro (hbefore' | ⟨hid', p', hp', hprec'⟩)
  · rcases hab with hbefore | ⟨hid, -⟩
    · exact hbefore.asymm hids hbefore'
    · exact hbefore'.ne hids hid.symm
  · rcases hab with hbefore | ⟨hid, p, hp, hprec⟩
    · exact hbefore.ne hids hid'.symm
    · rw [hid', hp, Option.some.injEq] at hp'
      subst hp'
      have hnames : p.schema.slots.keys.Nodup := p.schema.slots.distinct
      exact hprec.asymm hnames hprec'

theorem Linked.linkOf?_of_mem (h : Linked defs t) {x c : String} {n : Node} {link : ParentLink}
    (hn : t.nodes.get? x = some n) (hmem : (c, link) ∈ n.childLinks) :
    t.linkOf? c = some link ∧ link.nodeId = x := by
  obtain ⟨hid, hplace⟩ := Node.mem_childLinks_iff.mp hmem
  rw [h.ownId hn] at hid
  obtain ⟨m, hm, hlink⟩ := h.down hn hplace
  rw [← hid] at hlink
  exact ⟨linkOf?_eq_some_iff.mpr ⟨m, hm, hlink⟩, hid⟩

/-- The children of a node have links to it. -/
theorem Linked.linkOf?_childrenOf (h : Linked defs t) {x c : String} (hc : c ∈ t.childrenOf x) :
    ∃ link, t.linkOf? c = some link ∧ link.nodeId = x := by
  cases hn : t.nodes.get? x with
  | none => rw [childrenOf, hn] at hc; cases hc
  | some n =>
    rw [childrenOf_of_get? hn] at hc
    obtain ⟨⟨c, link⟩, hmem, rfl⟩ := List.mem_map.mp hc
    exact ⟨link, h.linkOf?_of_mem hn hmem⟩

/-- The children of a node stand in the order of their places. -/
theorem Linked.pairwise_childrenOf (h : Linked defs t) (ids : List String) (x : String) :
    (t.childrenOf x).Pairwise fun c c' => ∃ a b, t.linkOf? c = some a ∧ t.linkOf? c' = some b ∧
      t.Ahead ids a b := by
  cases hn : t.nodes.get? x with
  | none => rw [childrenOf, hn]; exact List.Pairwise.nil
  | some n =>
    rw [childrenOf_of_get? hn, Node.childIds, List.pairwise_map]
    refine n.pairwise_childLinks.imp_of_mem ?_
    rintro ⟨c, a⟩ ⟨c', b⟩ hmem hmem' hprec
    obtain ⟨ha, hid⟩ := h.linkOf?_of_mem hn hmem
    obtain ⟨hb, hid'⟩ := h.linkOf?_of_mem hn hmem'
    rw [(h.fits hn).keys] at hprec
    exact ⟨a, b, ha, hb, .inr ⟨hid.trans hid'.symm, n, hid.symm ▸ hn, hprec⟩⟩

/-- Behind the root, what is listed is listed in the order of the places. -/
theorem Linked.ahead_of_before (h : Linked defs t) {x y : String} {a : ParentLink}
    (hbefore : Before t.keys x y) (hx : t.linkOf? x = some a) :
    ∃ b, t.linkOf? y = some b ∧ t.Ahead t.keys a b := by
  cases hr : t.root with
  | none =>
    rw [keys, hr] at hbefore
    cases hbefore.mem_left
  | some r =>
    rw [h.keys_eq hr, before_cons_iff] at hbefore
    rcases hbefore with hbefore | ⟨rfl, -⟩
    · -- the children of two nodes come in the order of the nodes
      have hpairs : (t.keys.flatMap t.childrenOf).Pairwise fun c c' => ∃ a b,
          t.linkOf? c = some a ∧ t.linkOf? c' = some b ∧ t.Ahead t.keys a b := by
        refine List.pairwise_flatMap.mpr ⟨fun p _ => h.pairwise_childrenOf t.keys p, ?_⟩
        refine (pairwise_before t.keys).imp fun {p p'} hparents c hc c' hc' => ?_
        obtain ⟨a, ha, rfl⟩ := h.linkOf?_childrenOf hc
        obtain ⟨b, hb, rfl⟩ := h.linkOf?_childrenOf hc'
        exact ⟨a, b, ha, hb, .inl hparents⟩
      obtain ⟨a', b, ha, hb, hahead⟩ := pairwise_iff_forall_before.mp hpairs hbefore
      rw [hx, Option.some.injEq] at ha
      exact ⟨b, hb, ha ▸ hahead⟩
    · rw [h.linkOf?_root hr] at hx
      cases hx

/-- The root is listed before everything else. -/
theorem Linked.not_before_root (h : Linked defs t) {r x : String} (hr : t.root = some r) :
    ¬ Before t.keys x r := by
  have hnodup := h.nodup_keys
  rw [h.keys_eq hr] at hnodup ⊢
  exact not_before_head hnodup

/-- Nothing is listed before a node of a higher level. -/
theorem Linked.depth_le_of_before (h : Linked defs t) {x y : String} {m : Node}
    (hm : t.nodes.get? y = some m) (hbefore : Before t.keys x y) : t.depth x ≤ t.depth y := by
  -- the parents are listed in the same order, or are the same
  obtain ⟨path, hpath⟩ := h.climbs hm
  induction hpath generalizing x y with
  | root hnone => exact absurd hbefore (h.not_before_root (h.top hm hnone))
  | @up m p link path hlink hp _ ih =>
    have hy : t.linkOf? y = some link := linkOf?_eq_some_iff.mpr ⟨m, hm, hlink⟩
    obtain ⟨n, hn⟩ := h.mem_keys_iff.mp hbefore.mem_left
    cases hx : t.linkOf? x with
    | none => rw [(h.of_linkOf?_eq_none hn hx).2]; exact Nat.zero_le _
    | some a =>
      obtain ⟨b, hb, hahead⟩ := h.ahead_of_before hbefore hx
      rw [hy, Option.some.injEq] at hb
      subst hb
      rw [h.depth_of_link hx, h.depth_of_link hy]
      rcases hahead with hparents | ⟨hid, -⟩
      · exact Nat.succ_le_succ (ih hp hparents)
      · rw [hid]

/-- A node is listed before its children. -/
theorem Linked.before_of_link (h : Linked defs t) {x : String} {link : ParentLink}
    (hx : t.linkOf? x = some link) : Before t.keys link.nodeId x := by
  obtain ⟨n, hn, hlink⟩ := linkOf?_eq_some_iff.mp hx
  obtain ⟨p, hp, -⟩ := h.up hn hlink
  have hmem := h.mem_keys_iff.mpr ⟨n, hn⟩
  have hpmem := h.mem_keys_iff.mpr ⟨p, hp⟩
  refine (before_or_before hpmem hmem (h.parent_ne_self hn hlink)).resolve_right fun hbefore => ?_
  have := h.depth_le_of_before hp hbefore
  rw [h.depth_of_link hx] at this
  omega

/-! ### Listings level by level -/

/-- A listing of all ids of a tree, level by level. -/
structure LevelOrder (t : Tree) (ids : List String) : Prop where
  /-- Every id is listed, and nothing else. -/
  complete : ∀ x, x ∈ ids ↔ t.has x = true
  /-- No id is listed twice. -/
  nodup : ids.Nodup
  /-- The root is listed first. -/
  rootFirst : ids.head? = t.root
  /-- Every other node is listed after its parent. -/
  parentFirst : ∀ {x link}, t.linkOf? x = some link → Before ids link.nodeId x
  /-- No node is listed before one of a higher level. -/
  depth_le : ∀ {x y}, Before ids x y → t.depth x ≤ t.depth y
  /-- The nodes of one level are listed in the order of their parents, and those of one parent in
  the order of the slots of its schema and of the positions in a slot. -/
  ahead : ∀ {x y}, Before ids x y → t.depth x = t.depth y →
    ∃ a b, t.linkOf? x = some a ∧ t.linkOf? y = some b ∧ t.Ahead ids a b

/-- The listing of all ids goes level by level. -/
theorem Linked.levelOrder_keys (h : Linked defs t) : t.LevelOrder t.keys where
  complete x := h.mem_keys_iff.trans has_eq_true_iff.symm
  nodup := h.nodup_keys
  rootFirst := by
    cases hr : t.root with
    | none => rw [keys, hr]; rfl
    | some r => rw [h.keys_eq hr]; rfl
  parentFirst := h.before_of_link
  depth_le hbefore := by
    obtain ⟨m, hm⟩ := h.mem_keys_iff.mp hbefore.mem_right
    exact h.depth_le_of_before hm hbefore
  ahead {x y} hbefore hdepth := by
    obtain ⟨n, hn⟩ := h.mem_keys_iff.mp hbefore.mem_left
    obtain ⟨m, hm⟩ := h.mem_keys_iff.mp hbefore.mem_right
    cases hx : t.linkOf? x with
    | none =>
      -- the root is alone on its level
      cases hy : t.linkOf? y with
      | none => exact absurd hbefore (h.not_before_root (h.of_linkOf?_eq_none hm hy).1)
      | some b =>
        rw [(h.of_linkOf?_eq_none hn hx).2, h.depth_of_link hy] at hdepth
        cases hdepth
    | some a =>
      obtain ⟨b, hb, hahead⟩ := h.ahead_of_before hbefore hx
      exact ⟨a, b, rfl, hb, hahead⟩

/-- What is listed first in one listing level by level is so in another. -/
theorem LevelOrder.before (h : Linked defs t) {ids ids' : List String} (hids : t.LevelOrder ids)
    (hids' : t.LevelOrder ids') {x y : String} (hbefore : Before ids x y) : Before ids' x y := by
  have hx := (hids'.complete x).mpr ((hids.complete x).mp hbefore.mem_left)
  have hy := (hids'.complete y).mpr ((hids.complete y).mp hbefore.mem_right)
  -- otherwise the two are on one level, and their parents are listed the other way round, too
  refine (before_or_before hx hy (hbefore.ne hids.nodup)).resolve_right fun hbefore' => ?_
  have hle := hids.depth_le hbefore
  have hle' := hids'.depth_le hbefore'
  obtain ⟨a, b, ha, hb, hahead⟩ := hids.ahead hbefore (by omega)
  obtain ⟨b', a', hb', ha', hahead'⟩ := hids'.ahead hbefore' (by omega)
  rw [ha, Option.some.injEq] at ha'
  rw [hb, Option.some.injEq] at hb'
  subst ha' hb'
  have hdepth := h.depth_of_link hb
  refine hahead'.asymm hids'.nodup ?_
  rcases hahead with hparents | hsame
  · exact .inl (LevelOrder.before h hids hids' hparents)
  · exact .inr hsame
termination_by t.depth y
decreasing_by omega

/-- There is only one listing level by level. -/
theorem LevelOrder.unique (h : Linked defs t) {ids ids' : List String} (hids : t.LevelOrder ids)
    (hids' : t.LevelOrder ids') : ids = ids' := by
  have hperm : ids.Perm ids' :=
    (List.perm_ext_iff_of_nodup hids.nodup hids'.nodup).mpr fun x =>
      (hids.complete x).trans (hids'.complete x).symm
  refine List.Perm.eq_of_pairwise ?_ ?_ (pairwise_before ids') hperm
  · exact fun x y _ _ hxy hyx => absurd hyx (hxy.asymm hids'.nodup)
  · exact pairwise_iff_forall_before.mpr fun hbefore => hids.before h hids' hbefore

end SlotTree.Tree
