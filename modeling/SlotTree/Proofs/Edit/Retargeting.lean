import SlotTree.Proofs.Edit.Binding
import SlotTree.Proofs.Expression.Retargeting
import SlotTree.Proofs.Tree.Walks

/-!
# Pointing bindings at another node

A node that is renamed has its new id already when the bindings below it are pointed there.  Each of
them is checked again, and passes, since the ways up are the same but for that id.  In the end the
bindings are those of the tree under the new ids.

## Main definitions

* `Tree.Retargets` — a binding that passes the check when it is pointed at the new id.

## Main results

* `Draft.retargetNode_eq_ok` — the bindings of one node.
* `Draft.foldlM_retargetNode` — the bindings of many nodes.
-/

namespace SlotTree

theorem swap_eq_replaceId {old new id : String} (h : id ≠ new) :
    Equiv.swap old new id = replaceId old new id := by
  rw [replaceId]
  split
  · next heq => rw [heq, Equiv.swap_apply_left]
  · next hne => exact Equiv.swap_apply_of_ne_of_ne hne h

/-! ### One binding -/

namespace Tree

variable {defs : Definitions} {t t' : Tree} {old new : String}

/-- A binding does not refer to the old id, or passes the check under the new one. -/
def Retargets (defs : Definitions) (t : Tree) (old new : String) (n : Node) (a : InputAddress)
    (e : TypedExpression) : Prop :=
  (e.retarget? old new = none ∧ e.relabel (Equiv.swap old new) = e) ∨
  ∃ e', e.retarget? old new = some e' ∧
    t.checkInput defs n a.name e' = .ok (e.relabel (Equiv.swap old new))

/-- Every binding can be pointed at an id that is not in use. -/
theorem Valid.retargets (h : Valid defs t) (hnew : t.nodes.get? new = none)
    (hr : Rehung (Equiv.swap old new) t t') {x : String} {n m : Node} {a : InputAddress}
    {e : TypedExpression} (hn : t.nodes.get? x = some n) (ha : n.Declares a)
    (he : n.input? a = some e) (hid : m.id = Equiv.swap old new x) (hschema : m.schema = n.schema) :
    Retargets defs t' old new m a e := by
  have hheads : ∀ head ∈ e.erase.heads, head.1 ≠ new := by
    rintro head hhead rfl
    obtain ⟨-, -, p, hp⟩ := h.head_above hn he hhead
    rw [hnew] at hp
    cases hp
  rw [Retargets, TypedExpression.retarget?, Expression.retarget?_eq]
  cases href : Expression.refersTo old e.erase.heads with
  | false =>
    refine .inl ⟨by simp, TypedExpression.relabel_eq_self fun head hhead => ?_⟩
    refine Equiv.swap_apply_of_ne_of_ne (fun heq => ?_) (hheads head hhead)
    have := Expression.refersTo_eq_true_iff.mpr ⟨head, hhead, heq⟩
    rw [href] at this
    cases this
  | true =>
    refine .inr ⟨e.erase.relabel (replaceId old new), by simp, ?_⟩
    rw [Expression.relabel_congr fun head hhead => (swap_eq_replaceId (hheads head hhead)).symm]
    exact hr.carries.checkInput h.linked (hr.linked h.linked) (Equiv.injective _) trivial hn hid
      hschema (h.bound.checkInput hn ha he)

end Tree

/-! ### One node -/

namespace Draft

variable {defs : Definitions} {old new : String}

/-- A binding is pointed at the new id, and the others are left alone. -/
theorem retargetBinding_eq_ok {d : Draft} {n : Node} (hf : n.FitsSchema) {a : InputAddress}
    {e : TypedExpression} (ha : n.Declares a) (hret : d.tree.Retargets defs old new n a e)
    {updated : Option Node} {inputs : SortedMap TypedExpression}
    (hu : updated.getD n = { n with inputs })
    (hin : inputs.get? a.key = some e ∨
      inputs.get? a.key = some (e.relabel (Equiv.swap old new))) :
    ∃ updated' inputs', d.retargetBinding defs old new n updated (a, e) = .ok updated' ∧
      updated'.getD n = { n with inputs := inputs' } ∧
      inputs'.get? a.key = some (e.relabel (Equiv.swap old new)) ∧
      ∀ k, a.key ≠ k → inputs'.get? k = inputs.get? k := by
  rw [retargetBinding]
  rcases hret with ⟨hnone, hself⟩ | ⟨e', hsome, hok⟩
  · -- the binding does not refer to the old id
    rw [hnone]
    refine ⟨updated, inputs, rfl, hu, ?_, fun _ _ => rfl⟩
    rw [hself, or_self] at hin
    rw [hself]
    exact hin
  · -- the binding is checked under the new id, and put in place of the old one
    rw [hsome]
    have hset : (updated.getD n).setInput (some (e.relabel (Equiv.swap old new))) a =
        .ok (Node.bind { n with inputs } a (some (e.relabel (Equiv.swap old new)))) := by
      have hf' : Node.FitsSchema { n with inputs } := hf.of_eq rfl rfl
      have ha' : Node.Declares { n with inputs } a := (Node.declares_congr rfl rfl).mpr ha
      rw [hu]
      exact (Node.setInput_eq_ok_iff hf').mpr ⟨ha', rfl⟩
    refine ⟨some (Node.bind { n with inputs } a (some (e.relabel (Equiv.swap old new)))),
      inputs.insert a.key (e.relabel (Equiv.swap old new)), ?_, rfl, ?_, fun k hk => ?_⟩
    · simp only [hok, hset, Outcome.ok_mapError, Outcome.ok_bind, Outcome.pure_eq_ok]
    · rw [SortedMap.get?_insert, if_pos rfl]
    · rw [SortedMap.get?_insert, if_neg hk]

/-- The bindings of a node are pointed at the new id one after the other. -/
theorem foldlM_retargetBinding {d : Draft} {n : Node} (hf : n.FitsSchema)
    (bs : List (InputAddress × TypedExpression)) :
    (∀ b ∈ bs, n.Declares b.1 ∧ n.input? b.1 = some b.2 ∧
      d.tree.Retargets defs old new n b.1 b.2) →
    ∀ (updated : Option Node) (inputs : SortedMap TypedExpression),
      updated.getD n = { n with inputs } →
      (∀ b ∈ bs, inputs.get? b.1.key = some b.2 ∨
        inputs.get? b.1.key = some (b.2.relabel (Equiv.swap old new))) →
      ∃ updated' inputs', bs.foldlM (d.retargetBinding defs old new n) updated = .ok updated' ∧
        updated'.getD n = { n with inputs := inputs' } ∧
        (∀ b ∈ bs, inputs'.get? b.1.key = some (b.2.relabel (Equiv.swap old new))) ∧
        ∀ k, (∀ b ∈ bs, b.1.key ≠ k) → inputs'.get? k = inputs.get? k := by
  induction bs with
  | nil => exact fun _ updated inputs hu _ => ⟨updated, inputs, rfl, hu, by simp, fun _ _ => rfl⟩
  | cons b rest ih =>
    intro hall updated inputs hu hin
    obtain ⟨ha, he, hret⟩ := hall b List.mem_cons_self
    obtain ⟨updated₁, inputs₁, hstep, hu₁, hb, hother⟩ :=
      retargetBinding_eq_ok hf ha hret hu (hin b List.mem_cons_self)
    -- a binding that comes again has been pointed at the new id already
    have hin₁ : ∀ c ∈ rest, inputs₁.get? c.1.key = some c.2 ∨
        inputs₁.get? c.1.key = some (c.2.relabel (Equiv.swap old new)) := by
      intro c hc
      by_cases hkey : b.1.key = c.1.key
      · have hbc : n.inputs.get? c.1.key = some b.2 := hkey ▸ he
        have heq : b.2 = c.2 :=
          Option.some.inj (hbc.symm.trans (hall c (List.mem_cons_of_mem _ hc)).2.1)
        exact .inr (by rw [← hkey, hb, heq])
      · rw [hother _ hkey]
        exact hin c (List.mem_cons_of_mem _ hc)
    obtain ⟨updated', inputs', hfold, hu', hrest, hout⟩ :=
      ih (fun c hc => hall c (List.mem_cons_of_mem _ hc)) updated₁ inputs₁ hu₁ hin₁
    refine ⟨updated', inputs', ?_, hu', fun c hc => ?_, fun k hk => ?_⟩
    · rw [List.foldlM_cons, hstep, Outcome.ok_bind]
      exact hfold
    · rcases List.mem_cons.mp hc with rfl | hc
      · by_cases hagain : ∀ c' ∈ rest, c'.1.key ≠ c.1.key
        · rw [hout _ hagain, hb]
        · push Not at hagain
          obtain ⟨c', hc', hkey⟩ := hagain
          have hcc' : n.inputs.get? c.1.key = some c'.2 :=
            hkey ▸ (hall c' (List.mem_cons_of_mem _ hc')).2.1
          have heq : c'.2 = c.2 := Option.some.inj (hcc'.symm.trans he)
          rw [← hkey, hrest c' hc', heq]
      · exact hrest c hc
    · rw [hout k fun c hc => hk c (List.mem_cons_of_mem _ hc), hother k (hk b List.mem_cons_self)]

/-- The bindings of a node become those under the new ids. -/
theorem retargetNode_eq_ok {d : Draft} {x : String} {n : Node} (hn : d.tree.nodes.get? x = some n)
    (hf : n.FitsSchema) (ht : n.Tidy)
    (hret : ∀ a e, n.Declares a → n.input? a = some e → d.tree.Retargets defs old new n a e) :
    ∃ d', retargetNode defs old new d x = .ok d' ∧ d'.tree = d.tree.put x { n with
      inputs := n.inputs.map (TypedExpression.relabel (Equiv.swap old new)) } := by
  have hbs : ∀ b ∈ n.boundInputs, n.Declares b.1 ∧ n.input? b.1 = some b.2 ∧
      d.tree.Retargets defs old new n b.1 b.2 := by
    rintro ⟨a, e⟩ hb
    obtain ⟨ha, he⟩ := Node.mem_boundInputs_iff.mp hb
    exact ⟨ha, he, hret a e ha he⟩
  obtain ⟨updated, inputs, hfold, hu, hin, hout⟩ :=
    foldlM_retargetBinding hf n.boundInputs hbs none n.inputs rfl fun b hb => .inl (hbs b hb).2.1
  have hinputs : inputs = n.inputs.map (TypedExpression.relabel (Equiv.swap old new)) := by
    refine SortedMap.ext_get? fun k => ?_
    rw [SortedMap.get?_map]
    cases he : n.inputs.get? k with
    | some e =>
      -- whatever is bound is among the bound addresses
      obtain ⟨a, rfl, ha⟩ := ht k e he
      exact hin (a, e) (Node.mem_boundInputs_iff.mpr ⟨ha, he⟩)
    | none =>
      rw [hout k, he]
      · rfl
      · rintro ⟨a, e⟩ hb rfl
        have hbound : n.inputs.get? a.key = some e := (Node.mem_boundInputs_iff.mp hb).2
        rw [he] at hbound
        cases hbound
  rw [retargetNode, Tree.node_eq_ok_iff.mpr hn, Outcome.ok_bind, hfold, Outcome.ok_bind]
  cases updated with
  | none =>
    rw [Option.getD_none] at hu
    refine ⟨d, rfl, ?_⟩
    rw [← hinputs, ← hu, Tree.put_self hn]
  | some m =>
    rw [Option.getD_some] at hu
    exact ⟨_, rfl, by rw [tree_touch, tree_put, hu, hinputs]⟩

/-! ### Many nodes -/

/-- The bindings of many nodes become those under the new ids, one node after the other. -/
theorem foldlM_retargetNode {t : Tree} (h : Tree.Valid defs t) (hnew : t.nodes.get? new = none)
    (ids : List String) : ids.Nodup → ∀ d : Draft,
      Tree.Rehung (Equiv.swap old new) t d.tree →
      (∀ y ∈ ids, ∃ x n, y = Equiv.swap old new x ∧ t.nodes.get? x = some n ∧
        d.tree.nodes.get? y = some (n.rehang (Equiv.swap old new) n.inputs)) →
      ∃ d', ids.foldlM (retargetNode defs old new) d = .ok d' ∧ d'.tree.root = d.tree.root ∧
        (∀ y ∈ ids, ∀ x n, y = Equiv.swap old new x → t.nodes.get? x = some n →
          d'.tree.nodes.get? y = some (n.relabel (Equiv.swap old new))) ∧
        ∀ y, y ∉ ids → d'.tree.nodes.get? y = d.tree.nodes.get? y := by
  induction ids with
  | nil => exact fun _ d _ _ => ⟨d, rfl, rfl, by simp, fun _ _ => rfl⟩
  | cons y rest ih =>
    intro hnd d hr hids
    rw [List.nodup_cons] at hnd
    obtain ⟨x, n, rfl, hn, hm⟩ := hids y List.mem_cons_self
    -- the first node has its bindings as they were, so each can be pointed at the new id
    have hid : (n.rehang (Equiv.swap old new) n.inputs).id = Equiv.swap old new x := by
      rw [Node.rehang, h.linked.ownId hn]
    have htidy : (n.rehang (Equiv.swap old new) n.inputs).Tidy := by
      intro k e he
      obtain ⟨a, hkey, ha⟩ := h.bound.tidy hn k e he
      exact ⟨a, hkey, Node.declares_rehang.mpr ha⟩
    have hret : ∀ a e, (n.rehang (Equiv.swap old new) n.inputs).Declares a →
        (n.rehang (Equiv.swap old new) n.inputs).input? a = some e →
          d.tree.Retargets defs old new (n.rehang (Equiv.swap old new) n.inputs) a e :=
      fun a e ha he => h.retargets hnew hr hn (Node.declares_rehang.mp ha) he hid rfl
    obtain ⟨e, he, htree⟩ := retargetNode_eq_ok hm (h.linked.fits hn).rehang htidy hret
    -- only bindings have changed, and the nodes that follow are as they were
    have hr' : Tree.Rehung (Equiv.swap old new) t e.tree := htree ▸ hr.put hm _
    obtain ⟨d', hfold, hroot, hin, hout⟩ := ih hnd.2 e hr' (by
      intro z hz
      obtain ⟨w, m, hw, hm', hz'⟩ := hids z (List.mem_cons_of_mem _ hz)
      refine ⟨w, m, hw, hm', ?_⟩
      rw [htree, Tree.get?_put, if_neg]
      · exact hz'
      · rintro rfl
        exact hnd.1 hz)
    refine ⟨d', ?_, ?_, ?_, ?_⟩
    · rw [List.foldlM_cons, he, Outcome.ok_bind]
      exact hfold
    · rw [hroot, htree]
      rfl
    · intro z hz w m hw hm'
      rcases List.mem_cons.mp hz with rfl | hz
      · rw [Equiv.apply_eq_iff_eq] at hw
        subst hw
        rw [hn, Option.some.injEq] at hm'
        subst hm'
        rw [hout _ hnd.1, htree, Tree.get?_put, if_pos rfl]
        rfl
      · exact hin z hz w m hw hm'
    · intro z hz
      rw [List.mem_cons, not_or] at hz
      rw [hout z hz.2, htree, Tree.get?_put, if_neg (Ne.symm hz.1)]

end Draft

end SlotTree
