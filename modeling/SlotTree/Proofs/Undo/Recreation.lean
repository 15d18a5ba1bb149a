import SlotTree.Proofs.Edit.Deleting
import SlotTree.Proofs.Node.Reversal
import SlotTree.Proofs.Undo.Rebinding

/-!
# Deleting undone

The patches that are kept when a node is deleted bring the tree back: the nodes in their order, then
the bindings, and last those that the parent kept for the node.

## Main results

* `Tree.recreation_root`, `Tree.recreation_child` — the patches exist, and lead back.
-/

namespace SlotTree

namespace Tree

variable {defs : Definitions} {t t' : Tree}

/-- When the deleted node itself is there again, the other patches bring the rest back. -/
theorem recreation_rest (h : Valid defs t) (hsmall : t.Small) {x : String} {n : Node}
    (hn : t.nodes.get? x = some n) {rest : List Node} (hlist : t.subtree t.size n = n :: rest)
    {d : Draft} (hr : Regrown defs t d.tree (rest.map Node.id) d.tree.inputsAt)
    (hsub : ∀ y k e, (d.tree.inputsAt y).get? k = some e → (t.inputsAt y).get? k = some e)
    (hbare : ∀ y, t.Below x y → d.tree.inputsAt y = .empty)
    (extra : List (String × InputAddress × TypedExpression))
    (hextra : ∀ b ∈ extra, ∃ m, t.nodes.get? b.1 = some m ∧ m.Declares b.2.1 ∧
      m.input? b.2.1 = some b.2.2)
    (hcover : ∀ y m a e, t.nodes.get? y = some m → ¬ t.Below x y → m.Declares a →
      m.input? a = some e → (d.tree.inputsAt y).get? a.key = some e ∨ (y, a, e) ∈ extra) :
    ∃ d', (rest.map creationOf ++ ((n :: rest).flatMap fun m => m.boundInputs.map (bindingOf m.id))
      ++ extra.map fun b => bindingOf b.1 b.2).foldlM (fun d p => d.apply defs p) d = .ok d' ∧
        d'.tree = t := by
  obtain ⟨d₁, hd₁, hr₁⟩ := Regrown.creations h.linked hsmall hn hbare rest [n] hlist
    (List.mem_singleton.mpr rfl) d hr
  obtain ⟨hs₁, hinputs⟩ := hr₁.stripped h.linked hsub
  -- the nodes are all there now, and what is missing are bindings
  let bound := (n :: rest).flatMap fun m => m.boundInputs.map fun b => (m.id, b.1, b.2)
  have hmem : ∀ m, m ∈ n :: rest ↔ t.Below x m.id ∧ t.nodes.get? m.id = some m := by
    intro m
    rw [← hlist]
    exact h.linked.mem_subtree_iff hn
  obtain ⟨d', hd', hs', hbound, hkeep⟩ := Stripped.bindings h hsmall (bound ++ extra) (by
    intro b hb
    rcases List.mem_append.mp hb with hb | hb
    · obtain ⟨m, hm, hb⟩ := List.mem_flatMap.mp hb
      obtain ⟨⟨a, e⟩, hae, rfl⟩ := List.mem_map.mp hb
      obtain ⟨ha, he⟩ := Node.mem_boundInputs_iff.mp hae
      exact ⟨m, ((hmem m).mp hm).2, ha, he⟩
    · exact hextra b hb) d₁ hs₁
  refine ⟨d', ?_, hs'.eq fun y k e he => ?_⟩
  · rw [List.append_assoc]
    refine foldlM_append_eq_ok hd₁ ?_
    rw [← hd', List.map_append, List.map_flatMap]
    simp only [List.map_map]
    rfl
  · -- every binding was kept, or is put back
    cases hy : t.nodes.get? y with
    | none =>
      rw [inputsAt, hy] at he
      cases he
    | some m =>
      rw [inputsAt_of_get? hy] at he
      obtain ⟨a, rfl, ha⟩ := h.bound.tidy hy k e he
      have hid := h.linked.ownId hy
      by_cases hb : t.Below x y
      · refine hbound (y, a, e) (List.mem_append_left _ (List.mem_flatMap.mpr ⟨m, ?_, ?_⟩))
        · rw [hmem, hid]
          exact ⟨hb, hy⟩
        · exact List.mem_map.mpr ⟨(a, e), Node.mem_boundInputs_iff.mpr ⟨ha, he⟩, by rw [hid]⟩
      · rcases hcover y m a e hy hb ha he with hkept | hin
        · exact hkeep y _ _ (by rw [hinputs y m hy]; exact hkept)
        · exact hbound _ (List.mem_append_right _ hin)

/-- Behind the deleted node itself, the list has the nodes below it. -/
theorem mem_rest_iff (h : Linked defs t) {x : String} {n : Node} (hn : t.nodes.get? x = some n)
    {rest : List Node} (hlist : t.subtree t.size n = n :: rest) {y : String} :
    y ∈ rest.map Node.id ↔ t.Below x y ∧ y ≠ x := by
  have hpair := h.pairwise_subtree hn
  rw [hlist, List.pairwise_cons] at hpair
  have hmem : ∀ m, m ∈ n :: rest ↔ t.Below x m.id ∧ t.nodes.get? m.id = some m := by
    intro m
    rw [← hlist]
    exact h.mem_subtree_iff hn
  have hid := h.ownId hn
  constructor
  · intro hy
    obtain ⟨m, hm, rfl⟩ := List.mem_map.mp hy
    refine ⟨((hmem m).mp (List.mem_cons_of_mem _ hm)).1, fun heq => ?_⟩
    exact (hpair.1 m hm).1 (hid.trans heq.symm)
  · rintro ⟨hb, hne⟩
    obtain ⟨m, hm⟩ := hb.get?_isSome hn
    have hmid := h.ownId hm
    rcases List.mem_cons.mp ((hmem m).mpr ⟨hmid.symm ▸ hb, hmid.symm ▸ hm⟩) with rfl | hin
    · exact absurd (hmid.symm.trans hid) hne
    · exact List.mem_map.mpr ⟨m, hin, hmid⟩

theorem inputsAt_alone (schema : NodeSchema) (c : String) :
    (alone schema c).inputsAt = fun _ => .empty := by
  funext y
  rw [inputsAt, get?_alone]
  split <;> rfl

/-- The root alone is the tree in which all other nodes are missing, and nothing is bound. -/
theorem regrown_alone (h : Linked defs t) {x : String} {n : Node} (hn : t.nodes.get? x = some n)
    (hroot : n.parent = none) {rest : List Node} (hlist : t.subtree t.size n = n :: rest) :
    Regrown defs t (alone n.schema x) (rest.map Node.id) fun _ => .empty where
  linked := linked_alone (h.known hn) x
  root := (h.top hn hroot).symm
  gone := by
    intro y hy
    rw [get?_alone, if_neg (Ne.symm ((mem_rest_iff h hn hlist).mp hy).2)]
  none := by
    intro y hy
    rw [get?_alone, if_neg (SortedMap.ne_of_get? hn hy)]
  node := by
    intro y m hy hm
    have hall : ∀ {y m}, t.nodes.get? y = some m → t.Below x y := fun hm =>
      h.below_root (h.top hn hroot) hm
    -- all nodes but the root are in the list
    have hxy : x = y := by
      by_contra hne
      exact hy ((mem_rest_iff h hn hlist).mpr ⟨hall hm, Ne.symm hne⟩)
    subst hxy
    rw [hn, Option.some.injEq] at hm
    subst hm
    refine ⟨_, (get?_alone n.schema x x).trans (if_pos rfl), rfl, rfl, ?_⟩
    refine empty_without (h.fits hn) fun s i c hc => ?_
    obtain ⟨m, hm, -⟩ := h.down hn hc
    exact (mem_rest_iff h hn hlist).mpr ⟨hall hm, h.child_ne_self hn hc⟩

/-- A deleted root is brought back with all that was below it. -/
theorem recreation_root (h : Valid defs t) (hsmall : t.Small) {x : String} {n : Node}
    (hn : t.nodes.get? x = some n) (hroot : n.parent = none) :
    ∃ ps, t.recreation x = .ok ps ∧ Replays defs {} ps t := by
  obtain ⟨rest, hlist⟩ := h.linked.subtree_eq_cons hn
  have hid := h.linked.ownId hn
  refine ⟨(n :: rest).map creationOf ++
    (n :: rest).flatMap fun m => m.boundInputs.map (bindingOf m.id), ?_, fun d hd => ?_⟩
  · rw [recreation, node_eq_ok_iff.mpr hn, Outcome.ok_bind, h.linked.depthFirst_eq hn,
      Outcome.ok_bind, hlist, hroot]
    rfl
  · have hempty : Linked defs d.tree := hd ▸ linked_empty defs
    obtain ⟨d₁, hd₁, htree⟩ := (Draft.create_root_eq_ok_iff hempty
      (c := x)).mpr ⟨n.schema, h.linked.known hn, hd, rfl⟩
    have hinputs : d₁.tree.inputsAt = fun _ => .empty := by
      rw [htree, inputsAt_alone]
    have hr : Regrown defs t d₁.tree (rest.map Node.id) d₁.tree.inputsAt := by
      rw [hinputs, htree]
      exact regrown_alone h.linked hn hroot hlist
    -- nothing but the root's own subtree was there, and no bindings are left to be kept
    obtain ⟨d', hd', htree'⟩ := recreation_rest h hsmall hn hlist hr
      (fun y k e he => by rw [hinputs] at he; cases he) (fun y _ => by rw [hinputs]) [] (by simp)
      fun y m a e hm hb _ _ => absurd (h.linked.below_root (h.linked.top hn hroot) hm) hb
    refine ⟨d', ?_, htree'⟩
    rw [List.map_nil, List.append_nil] at hd'
    rw [List.map_cons, List.cons_append, List.foldlM_cons, creationOf, hroot, hid]
    show (d.create defs n.nodeType none x >>= _) = _
    rw [hd₁]
    exact hd'

/-- The bindings that a parent keeps for the child at a place. -/
def keptBindings (p : Node) (slotName : String) (k : Option Nat) :
    List (String × InputAddress × TypedExpression) :=
  match k with
  | some i => (bindingsOfChild p slotName i).map fun b => (p.id, b.1, b.2)
  | none => []

theorem mem_keptBindings_iff {p : Node} {slotName : String} {k : Option Nat}
    {b : String × InputAddress × TypedExpression} :
    b ∈ keptBindings p slotName k ↔ ∃ i name e, k = some i ∧ b = (p.id, ⟨name, some i⟩, e) ∧
      name ∈ (p.schema.collectionInputs slotName).map Prod.fst ∧
      p.input? ⟨name, some i⟩ = some e := by
  cases k with
  | none => simp [keptBindings]
  | some i =>
    rw [keptBindings, bindingsOfChild, List.mem_map]
    constructor
    · rintro ⟨c, hc, rfl⟩
      obtain ⟨input, hinput, hc⟩ := List.mem_filterMap.mp hc
      obtain ⟨e, he, rfl⟩ := Option.map_eq_some_iff.mp hc
      exact ⟨i, input.1, e, rfl, rfl, List.mem_map_of_mem hinput, he⟩
    · rintro ⟨j, name, e, hj, rfl, hname, he⟩
      cases hj
      obtain ⟨input, hinput, rfl⟩ := List.mem_map.mp hname
      exact ⟨(⟨input.1, some i⟩, e), List.mem_filterMap.mpr ⟨input, hinput, by rw [he]; rfl⟩, rfl⟩

/-- What the tree is when the deleted node itself is there again. -/
structure Returned (t t' : Tree) (x : String) (n p : Node) (slotName : String)
    (content : SlotContent) (k : Option Nat) : Prop where
  /-- The root stays. -/
  root : t'.root = t.root
  /-- The node has no children and no bindings yet. -/
  node : t'.nodes.get? x = some (.empty n.schema x (some ⟨p.id, slotName, k⟩))
  /-- The parent has the child again, but not the bindings that it kept for it. -/
  parent : t'.nodes.get? p.id =
    some ((p.detach slotName content k).attach slotName (content.detach k) k x)
  /-- What is below the node is missing still. -/
  gone : ∀ y, t.Below x y → y ≠ x → t'.nodes.get? y = none
  /-- All other nodes are there, and have what they had. -/
  others : ∀ y m, ¬ t.Below x y → y ≠ p.id → t.nodes.get? y = some m →
    ∃ m', t'.nodes.get? y = some m' ∧ m'.schema = m.schema ∧ m'.slots = m.slots ∧
      m'.inputs = m.inputs
  /-- There are no further nodes. -/
  none : ∀ y, t.nodes.get? y = none → t'.nodes.get? y = none

variable {x : String} {n p : Node} {slotName : String} {content : SlotContent} {k : Option Nat}

/-- The deleted node itself is put back at its place. -/
theorem Shrinks.returned (hg : Shrinks t t' x p slotName content k) (h : Linked defs t)
    (hsmall : t.Small) (hn : t.nodes.get? x = some n)
    (hlink : n.parent = some ⟨p.id, slotName, k⟩) {d : Draft} (hd : d.tree = t') :
    ∃ d₁, d.apply defs (creationOf n) = .ok d₁ ∧ Linked defs d₁.tree ∧
      Returned t d₁.tree x n p slotName content k := by
  have hid := h.ownId hn
  have hlinked : Linked defs d.tree := hd ▸ (hg.regraft h).linked h
  obtain ⟨hadmits, hplace⟩ := SlotContent.admits_detach hg.child
  have hindex : (k.map UInt32.ofNat).map UInt32.toNat = k :=
    toNat_ofNat_index (hsmall.index_lt h hn hlink)
  have hpx := h.not_below_of_child hg.before hg.child?
  have hslot : (p.detach slotName content k).slots.get? slotName = some (content.detach k) :=
    Node.get?_slots_detach ..
  obtain ⟨d₁, hd₁, hgrows⟩ := Draft.create_child_eq_ok hlinked
    ⟨p.id, slotName, k.map UInt32.ofNat⟩ (c := x) (h.known hn) (by rw [hd]; exact hg.gone x .self)
    (by rw [hd]; exact hg.after) hslot (by rw [hindex]; exact hadmits)
  rw [hindex, hd] at hgrows
  have hafter := hgrows.after
  have hchild := hgrows.child
  rw [hplace] at hafter hchild
  refine ⟨d₁, by rw [creationOf, hlink, hid]; exact hd₁, ?_, ?_⟩
  · exact (hgrows.regraft (hd ▸ hlinked)).linked (hd ▸ hlinked)
  · exact {
      root := hgrows.root.trans hg.root
      node := hchild
      parent := hafter
      gone := by
        intro y hb hne
        rw [hgrows.others y hne (fun heq => hpx (heq ▸ hb)), hg.gone y hb]
        rfl
      others := by
        intro y m hb hne hm
        have hyx : y ≠ x := fun heq => hb (heq ▸ .self)
        exact ⟨_, by rw [hgrows.others y hyx hne, hg.others y hb hne, hm]; rfl, by simp, by simp,
          by simp⟩
      none := by
        intro y hy
        have hb : ¬ t.Below x y := by
          intro hb
          obtain ⟨m, hm⟩ := hb.get?_isSome hn
          rw [hy] at hm
          cases hm
        have hyp : y ≠ p.id := (SortedMap.ne_of_get? hg.before hy).symm
        rw [hgrows.others y (fun heq => hb (heq ▸ .self)) hyp, hg.others y hb hyp, hy]
        rfl }

namespace Returned

/-- Below the node nothing is bound yet. -/
theorem inputsAt_below (hret : Returned t t' x n p slotName content k) {y : String}
    (hb : t.Below x y) : t'.inputsAt y = .empty := by
  rw [inputsAt]
  by_cases hyx : y = x
  · rw [hyx, hret.node]
    rfl
  · rw [hret.gone y hb hyx]
    rfl

theorem inputsAt_other (hret : Returned t t' x n p slotName content k) {y : String}
    (hb : ¬ t.Below x y) (hne : y ≠ p.id) : t'.inputsAt y = t.inputsAt y := by
  cases hy : t.nodes.get? y with
  | none => rw [inputsAt, inputsAt, hy, hret.none y hy]
  | some m =>
    obtain ⟨m', hm', -, -, hinputs⟩ := hret.others y m hb hne hy
    rw [inputsAt_of_get? hm', inputsAt_of_get? hy, hinputs]

/-- Only the nodes below the one that has come back are missing. -/
theorem regrown (hret : Returned t t' x n p slotName content k) (h : Linked defs t)
    (hlinked : Linked defs t') (hg : t.nodes.get? p.id = some p)
    (hs : p.slots.get? slotName = some content) (hc : content.child? k = some x)
    (hn : t.nodes.get? x = some n) {rest : List Node} (hlist : t.subtree t.size n = n :: rest) :
    Regrown defs t t' (rest.map Node.id) t'.inputsAt where
  linked := hlinked
  root := hret.root
  gone := by
    intro y hy
    obtain ⟨hb, hne⟩ := (mem_rest_iff h hn hlist).mp hy
    exact hret.gone y hb hne
  none := hret.none
  node := by
    intro y m hy hm
    have hyx : t.Below x y → y = x := fun hb => by
      by_contra hne
      exact hy ((mem_rest_iff h hn hlist).mpr ⟨hb, hne⟩)
    by_cases hb : t.Below x y
    · -- the node itself, without its children
      rw [hyx hb] at hm ⊢
      rw [hn, Option.some.injEq] at hm
      subst hm
      refine ⟨_, hret.node, rfl, (inputsAt_of_get? hret.node).symm, ?_⟩
      refine empty_without (h.fits hn) fun s i c hc => ?_
      obtain ⟨m, hm, hup⟩ := h.down hn hc
      exact (mem_rest_iff h hn hlist).mpr ⟨.child hm hup .self, h.child_ne_self hn hc⟩
    · -- the children of other nodes are all there
      have hslots : ∀ s, (m.slots.get? s).map (SlotContent.without (rest.map Node.id)) =
          m.slots.get? s := by
        intro s
        cases hms : m.slots.get? s with
        | none => rfl
        | some content' =>
          have hnone : content'.without (rest.map Node.id) = content'.without [] := by
            refine SlotContent.without_congr fun i c hi => ?_
            refine ⟨fun hmem => ?_, fun hmem => absurd hmem List.not_mem_nil⟩
            obtain ⟨hcb, hcx⟩ := (mem_rest_iff h hn hlist).mp hmem
            obtain ⟨j, hj, hup⟩ := h.down hm (by rw [Node.child?_of_get? hms]; exact hi)
            exact absurd (Linked.below_parent hcb hcx hj hup) hb
          rw [Option.map_some, hnone, SlotContent.without_nil]
      by_cases hyp : y = p.id
      · subst hyp
        rw [hg, Option.some.injEq] at hm
        subst hm
        refine ⟨_, hret.parent, rfl, (inputsAt_of_get? hret.parent).symm, fun s => ?_⟩
        rw [Node.slots_attach_detach hs hc, hslots]
      · obtain ⟨m', hm', hschema, hslots', -⟩ := hret.others y m hb hyp hm
        exact ⟨m', hm', hschema, (inputsAt_of_get? hm').symm, fun s => by rw [hslots', hslots]⟩

variable {t'' : Tree}

/-- Whatever is bound was bound before. -/
theorem inputs_before (hret : Returned t t'' x n p slotName content k) (h : Valid defs t)
    (hg : Shrinks t t' x p slotName content k) {y key : String} {e : TypedExpression}
    (he : (t''.inputsAt y).get? key = some e) : (t.inputsAt y).get? key = some e := by
  have hfits := h.linked.fits hg.before
  have htidy := h.bound.tidy hg.before
  by_cases hb : t.Below x y
  · rw [hret.inputsAt_below hb] at he
    cases he
  · by_cases hyp : y = p.id
    · subst hyp
      rw [inputsAt_of_get? hret.parent] at he
      rw [inputsAt_of_get? hg.before]
      obtain ⟨a, rfl, ha⟩ := Node.tidy_attach_detach hfits htidy hg.slot hg.child key e he
      rcases Node.input?_attach_detach hfits htidy hg.slot hg.child ha.isIdentifier with
        heq | ⟨-, -, -, -, hnone⟩
      · exact heq.symm.trans he
      · exact absurd (hnone.symm.trans he) (by simp)
    · rwa [hret.inputsAt_other hb hyp] at he

/-- Whatever was bound to the other nodes is bound again, except for what the parent kept. -/
theorem bound_or_kept (hret : Returned t t'' x n p slotName content k) (h : Valid defs t)
    (hg : Shrinks t t' x p slotName content k) {y : String} {m : Node} {a : InputAddress}
    {e : TypedExpression} (hm : t.nodes.get? y = some m) (hb : ¬ t.Below x y)
    (ha : m.Declares a) (he : m.input? a = some e) :
    (t''.inputsAt y).get? a.key = some e ∨ (y, a, e) ∈ keptBindings p slotName k := by
  by_cases hyp : y = p.id
  · subst hyp
    rw [hg.before, Option.some.injEq] at hm
    subst hm
    rw [inputsAt_of_get? hret.parent]
    rcases Node.input?_attach_detach (h.linked.fits hg.before) (h.bound.tidy hg.before) hg.slot
      hg.child ha.isIdentifier with heq | ⟨i, hk, hindex, hname, -⟩
    · exact .inl (heq.trans he)
    · refine .inr (mem_keptBindings_iff.mpr ⟨i, a.name, e, hk, ?_, hname, ?_⟩)
      · rw [← hindex]
      · rw [← hindex]
        exact he
  · rw [hret.inputsAt_other hb hyp, inputsAt_of_get? hm]
    exact .inl he

end Returned

/-- What the parent kept was bound to inputs that it declares. -/
theorem Valid.declares_keptBindings (h : Valid defs t) (hp : t.nodes.get? p.id = some p)
    {b : String × InputAddress × TypedExpression} (hb : b ∈ keptBindings p slotName k) :
    ∃ m, t.nodes.get? b.1 = some m ∧ m.Declares b.2.1 ∧ m.input? b.2.1 = some b.2.2 := by
  obtain ⟨i, name, e, -, rfl, hname, he⟩ := mem_keptBindings_iff.mp hb
  have hident : Declaration.isIdentifier name = true :=
    NodeSchema.isIdentifier_of_mem_collectionInputs hname
  exact ⟨p, hp, (h.bound.tidy hp).declares (a := ⟨name, some i⟩) hident he, he⟩

/-- A deleted child is brought back with all that was below it. -/
theorem recreation_child (h : Valid defs t) (hsmall : t.Small)
    (hg : Shrinks t t' x p slotName content k) (hn : t.nodes.get? x = some n)
    (hlink : n.parent = some ⟨p.id, slotName, k⟩) :
    ∃ ps, t.recreation x = .ok ps ∧ Replays defs t' ps t := by
  obtain ⟨rest, hlist⟩ := h.linked.subtree_eq_cons hn
  refine ⟨(n :: rest).map creationOf ++
    ((n :: rest).flatMap fun m => m.boundInputs.map (bindingOf m.id)) ++
      (keptBindings p slotName k).map fun b => bindingOf b.1 b.2, ?_, fun d hd => ?_⟩
  · rw [recreation, node_eq_ok_iff.mpr hn, Outcome.ok_bind, h.linked.depthFirst_eq hn,
      Outcome.ok_bind, hlist, hlink]
    cases k with
    | none => simp [keptBindings, Outcome.pure_eq_ok]
    | some i =>
      simp only [node_eq_ok_iff.mpr hg.before, Outcome.ok_bind, keptBindings, List.map_map]
      rfl
  · obtain ⟨d₁, hd₁, hlinked, hret⟩ := hg.returned h.linked hsmall hn hlink hd
    obtain ⟨d', hd', htree⟩ := recreation_rest h hsmall hn hlist
      (hret.regrown h.linked hlinked hg.before hg.slot hg.child hn hlist)
      (fun y key e he => hret.inputs_before h hg he) (fun y hb => hret.inputsAt_below hb)
      (keptBindings p slotName k) (fun b hb => h.declares_keptBindings hg.before hb)
      fun y m a e hm hb ha he => hret.bound_or_kept h hg hm hb ha he
    refine ⟨d', ?_, htree⟩
    rw [List.map_cons, List.cons_append, List.cons_append, List.foldlM_cons, hd₁, Outcome.ok_bind]
    exact hd'

end Tree

end SlotTree
