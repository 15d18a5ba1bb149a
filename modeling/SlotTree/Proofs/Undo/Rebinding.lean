import SlotTree.Proofs.Edit.Binding
import SlotTree.Proofs.Undo.Regrowth

/-!
# Putting bindings back

When all nodes are there again, the bindings that were lost are put back one after the other.  The
ways up are those of the old tree, so every binding passes the check with the outcome that it had.

## Main definitions

* `Tree.Replays` — patches that lead from one tree to another.
* `Tree.Stripped` — a tree with the nodes of another, and some of its bindings.

## Main results

* `Tree.Stripped.bindings` — bindings are put back.
* `Tree.Stripped.eq` — with all its bindings the tree is the other one.
-/

namespace SlotTree.Tree

variable {defs : Definitions} {t t' t'' : Tree}

/-! ### Patches one after the other -/

/-- Patches lead from one tree to another, whatever has changed before. -/
def Replays (defs : Definitions) (t : Tree) (ps : List Patch) (t' : Tree) : Prop :=
  ∀ d : Draft, d.tree = t →
    ∃ d', ps.foldlM (fun d p => d.apply defs p) d = .ok d' ∧ d'.tree = t'

theorem replays_singleton {p : Patch}
    (h : ∀ d : Draft, d.tree = t → ∃ d', d.apply defs p = .ok d' ∧ d'.tree = t') :
    Replays defs t [p] t' := by
  intro d hd
  obtain ⟨d', hd', htree⟩ := h d hd
  exact ⟨d', by rw [List.foldlM_cons, hd']; rfl, htree⟩

theorem foldlM_append_eq_ok {ps qs : List Patch} {d d₁ d₂ : Draft}
    (h : ps.foldlM (fun d p => d.apply defs p) d = .ok d₁)
    (h' : qs.foldlM (fun d p => d.apply defs p) d₁ = .ok d₂) :
    (ps ++ qs).foldlM (fun d p => d.apply defs p) d = .ok d₂ := by
  rw [List.foldlM_append, h]
  exact h'

/-! ### Trees without some bindings -/

/-- A tree has the nodes of another, and some of its bindings. -/
structure Stripped (t t' : Tree) : Prop where
  /-- The trees differ in bindings alone. -/
  rehung : Rehung (Equiv.refl _) t t'
  /-- Whatever is bound is bound alike in the other tree. -/
  inputs : ∀ {y k e}, (t'.inputsAt y).get? k = some e → (t.inputsAt y).get? k = some e

/-- With all its bindings the tree is the other one. -/
theorem Stripped.eq (hs : Stripped t t')
    (h : ∀ y k e, (t.inputsAt y).get? k = some e → (t'.inputsAt y).get? k = some e) : t' = t := by
  have hinputs : ∀ y, t'.inputsAt y = t.inputsAt y := fun y =>
    SortedMap.ext_get? fun k => Option.ext fun e => ⟨hs.inputs, h y k e⟩
  have hnodes : t'.nodes = t.nodes := by
    refine SortedMap.ext_get? fun y => ?_
    cases hn : t.nodes.get? y with
    | none => exact hs.rehung.none hn
    | some n =>
      obtain ⟨inputs, hm⟩ := hs.rehung.node hn
      have hm' : t'.nodes.get? y = some { n with inputs } :=
        hm.trans (congrArg some (n.rehang_id inputs))
      have heq := hinputs y
      rw [inputsAt_of_get? hm', inputsAt_of_get? hn] at heq
      simp only at heq
      rw [hm', heq]
  have hroot : t'.root = t.root := by
    rw [hs.rehung.root]
    cases t.root <;> rfl
  exact Tree.ext hroot hnodes

/-- A binding of the other tree is put back. -/
theorem Stripped.binding (h : Valid defs t) (hsmall : t.Small) {d : Draft}
    (hs : Stripped t d.tree) {y : String} {n : Node} {a : InputAddress} {e : TypedExpression}
    (hn : t.nodes.get? y = some n) (ha : n.Declares a) (he : n.input? a = some e) :
    ∃ d', d.apply defs (bindingOf y (a, e)) = .ok d' ∧ Stripped t d'.tree ∧
      (d'.tree.inputsAt y).get? a.key = some e ∧
      ∀ z k f, (d.tree.inputsAt z).get? k = some f → (d'.tree.inputsAt z).get? k = some f := by
  obtain ⟨inputs, hm⟩ := hs.rehung.node hn
  have hm' : d.tree.nodes.get? y = some { n with inputs } :=
    hm.trans (congrArg some (n.rehang_id inputs))
  have hlinked := hs.rehung.linked h.linked
  have hindex := toNat_ofNat_index (hsmall.declares_lt hn ha)
  have ha' : Node.Declares { n with inputs } a := (Node.declares_congr rfl rfl).mpr ha
  have hid : n.id = y := h.linked.ownId hn
  have hok := hs.rehung.checkInput h.linked (m := { n with inputs }) hn hid rfl
    (h.bound.checkInput hn ha he)
  obtain ⟨d', hd', htree⟩ := (@Draft.setInput_eq_ok_iff defs d hlinked y a.name
    (a.index.map UInt32.ofNat) (some e.erase) _).mpr
      ⟨_, some e, hm', by rw [hindex]; exact ha', ⟨e, rfl, hok⟩, rfl⟩
  rw [hindex] at htree
  have hget : ∀ z, d'.tree.inputsAt z =
      if y = z then (Node.bind { n with inputs } a (some e)).inputs else d.tree.inputsAt z := by
    intro z
    rw [htree, inputsAt, get?_put]
    split <;> rfl
  have hold : ∀ k f, (d.tree.inputsAt y).get? k = some f → inputs.get? k = some f := by
    intro k f hf
    rwa [inputsAt_of_get? hm'] at hf
  -- what is bound under the key already is the same
  have hkey : (t.inputsAt y).get? a.key = some e := by
    rw [inputsAt_of_get? hn]
    exact he
  refine ⟨d', hd', ⟨?_, ?_⟩, ?_, ?_⟩
  · rw [htree]
    exact hs.rehung.put hm' _
  · intro z k f hf
    rw [hget] at hf
    split at hf
    · next hz =>
      subst hz
      rw [Node.get?_bind] at hf
      split at hf
      · next hk =>
        rw [← hk, hkey]
        exact hf
      · exact hs.inputs (by rw [inputsAt_of_get? hm']; exact hf)
    · exact hs.inputs hf
  · rw [hget, if_pos rfl, Node.get?_bind, if_pos rfl]
  · intro z k f hf
    rw [hget]
    split
    · next hz =>
      subst hz
      rw [Node.get?_bind]
      split
      · next hk =>
        rw [← hk] at hf
        rw [← hkey, hs.inputs hf]
      · exact hold k f hf
    · exact hf

/-- Bindings of the other tree are put back one after the other. -/
theorem Stripped.bindings (h : Valid defs t) (hsmall : t.Small)
    (bs : List (String × InputAddress × TypedExpression)) :
    (∀ b ∈ bs, ∃ n, t.nodes.get? b.1 = some n ∧ n.Declares b.2.1 ∧
      n.input? b.2.1 = some b.2.2) → ∀ d : Draft, Stripped t d.tree →
        ∃ d', (bs.map fun b => bindingOf b.1 b.2).foldlM (fun d p => d.apply defs p) d = .ok d' ∧
          Stripped t d'.tree ∧
          (∀ b ∈ bs, (d'.tree.inputsAt b.1).get? b.2.1.key = some b.2.2) ∧
          ∀ z k f, (d.tree.inputsAt z).get? k = some f →
            (d'.tree.inputsAt z).get? k = some f := by
  induction bs with
  | nil => exact fun _ d hs => ⟨d, rfl, hs, by simp, fun _ _ _ hf => hf⟩
  | cons b rest ih =>
    intro hall d hs
    obtain ⟨n, hn, ha, he⟩ := hall b List.mem_cons_self
    obtain ⟨d₁, hd₁, hs₁, hb, hkeep⟩ := hs.binding h hsmall hn ha he
    obtain ⟨d', hd', hs', hrest, hkeep'⟩ :=
      ih (fun c hc => hall c (List.mem_cons_of_mem _ hc)) d₁ hs₁
    refine ⟨d', ?_, hs', fun c hc => ?_, fun z k f hf => hkeep' z k f (hkeep z k f hf)⟩
    · rw [List.map_cons, List.foldlM_cons, hd₁, Outcome.ok_bind]
      exact hd'
    · rcases List.mem_cons.mp hc with rfl | hc
      · exact hkeep' _ _ _ hb
      · exact hrest c hc

/-- A tree to which no node is missing differs in bindings alone. -/
theorem Regrown.stripped (h : Linked defs t) {bare : String → SortedMap TypedExpression}
    (hr : Regrown defs t t' [] bare)
    (hbare : ∀ y k e, (bare y).get? k = some e → (t.inputsAt y).get? k = some e) :
    Stripped t t' ∧ ∀ y n, t.nodes.get? y = some n → t'.inputsAt y = bare y := by
  have hslots : ∀ y n, t.nodes.get? y = some n → ∃ m, t'.nodes.get? y = some m ∧
      m.schema = n.schema ∧ m.inputs = bare y ∧ m.slots = n.slots := by
    intro y n hn
    obtain ⟨m, hm, hschema, hinputs, hget⟩ := hr.node y n List.not_mem_nil hn
    refine ⟨m, hm, hschema, hinputs, OrderedMap.ext_keys ?_ fun s => ?_⟩
    · rw [(hr.linked.fits hm).keys, hschema, (h.fits hn).keys]
    · rw [hget]
      cases n.slots.get? s with
      | none => rfl
      | some content => rw [Option.map_some, SlotContent.without_nil]
  have hnode : ∀ y n, t.nodes.get? y = some n →
      t'.nodes.get? y = some { n with inputs := bare y } := by
    intro y n hn
    obtain ⟨m, hm, hschema, hinputs, hs⟩ := hslots y n hn
    -- the links are those of the slots
    have hparent := h.parent_eq hr.linked hr.root (fun y n hn => by
      obtain ⟨m, hm, -, -, hs⟩ := hslots y n hn
      exact ⟨m, hm, hs⟩) hn hm
    have hid := (hr.linked.ownId hm).trans (h.ownId hn).symm
    exact hm.trans (congrArg some (Node.ext hschema hid hparent hs hinputs))
  have hget : ∀ y n, t.nodes.get? y = some n → t'.inputsAt y = bare y := by
    intro y n hn
    rw [inputsAt_of_get? (hnode y n hn)]
  refine ⟨?_, hget⟩
  exact {
    rehung := {
      root := by
        rw [hr.root]
        cases t.root <;> rfl
      node := fun {y n} hn =>
        ⟨bare y, (hnode y n hn).trans (congrArg some (n.rehang_id (bare y)).symm)⟩
      none := fun hn => hr.none _ hn }
    inputs := by
      intro y k e he
      cases hn : t.nodes.get? y with
      | none =>
        rw [inputsAt, hr.none y hn] at he
        cases he
      | some n =>
        rw [hget y n hn] at he
        exact hbare y k e he }

end SlotTree.Tree
