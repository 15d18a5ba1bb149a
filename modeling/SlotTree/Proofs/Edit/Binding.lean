import SlotTree.Proofs.Edit.Moving
import SlotTree.Proofs.Tree.Relabelling

/-!
# Binding inputs

When an input can be bound or cleared, and what the tree is then.

## Main definitions

* `Tree.Accepts` — the outcome of the check of an expression, if there is one to check.

## Main results

* `Draft.setInput_eq_ok_iff` — when an input is bound, and what comes of it.
* `Tree.Valid.bind` — the bindings stay valid.
-/

namespace SlotTree

/-! ### Nodes -/

namespace Node

@[simp] theorem bind_bind (n : Node) (a : InputAddress) (e e' : Option TypedExpression) :
    (n.bind a e).bind a e' = n.bind a e' := by
  cases e <;> cases e' <;> simp [bind, SortedMap.erase_erase]

/-- An address that is bound to what it is bound to stays as it is. -/
theorem bind_self (n : Node) (a : InputAddress) : n.bind a (n.input? a) = n := by
  have hinputs : (n.bind a (n.input? a)).inputs = n.inputs := by
    cases he : n.input? a with
    | none => exact SortedMap.erase_self he
    | some e => exact SortedMap.insert_self he
  show { n with inputs := (n.bind a (n.input? a)).inputs } = n
  rw [hinputs]

theorem get?_bind (n : Node) (a : InputAddress) (e : Option TypedExpression) (k : String) :
    (n.bind a e).inputs.get? k = if a.key = k then e else n.inputs.get? k := by
  cases e <;> simp [bind]

end Node

namespace Tree

variable {defs : Definitions} {t t' : Tree}

@[simp] theorem put_put (t : Tree) (id : String) (n m : Node) :
    (t.put id n).put id m = t.put id m := by
  rw [put, put, put, SortedMap.insert_insert]

theorem put_self {id : String} {n : Node} (h : t.nodes.get? id = some n) : t.put id n = t := by
  rw [put, SortedMap.insert_self h]

/-- What comes of the check of an expression; nothing to check gives nothing. -/
def Accepts (defs : Definitions) (t : Tree) (n : Node) (inputName : String) :
    Option Expression → Option TypedExpression → Prop
  | none, e => e = none
  | some expression, e => ∃ te, e = some te ∧ t.checkInput defs n inputName expression = .ok te

/-- Trees that differ in bindings alone give the same outcomes. -/
theorem Rehung.checkInput (hr : Rehung (Equiv.refl _) t t') (h : Linked defs t) {x : String}
    {n m : Node} (hn : t.nodes.get? x = some n) (hid : m.id = x) (hschema : m.schema = n.schema)
    {name : String} {e : Expression} {te : TypedExpression}
    (hok : t.checkInput defs n name e = .ok te) : t'.checkInput defs m name e = .ok te :=
  hr.carries.checkInput_id h (hr.linked h) trivial hn hid hschema hok

theorem Accepts.rehung {n m : Node} {x name : String} {expression : Option Expression}
    {e : Option TypedExpression} (ha : Accepts defs t n name expression e)
    (hr : Rehung (Equiv.refl _) t t') (h : Linked defs t) (hn : t.nodes.get? x = some n)
    (hid : m.id = x) (hschema : m.schema = n.schema) : Accepts defs t' m name expression e := by
  cases expression with
  | none => exact ha
  | some expression =>
    obtain ⟨te, he, hok⟩ := ha
    exact ⟨te, he, hr.checkInput h hn hid hschema hok⟩

theorem rehung_bind {x : String} {n : Node} (hn : t.nodes.get? x = some n) (a : InputAddress)
    (e : Option TypedExpression) : Rehung (Equiv.refl _) t (t.put x (n.bind a e)) :=
  (Rehung.refl t).put hn _

/-- The bindings stay valid when one that passes the check is put among them, or taken away. -/
theorem Valid.bind (h : Valid defs t) {x : String} {n : Node} {a : InputAddress}
    {expression : Option Expression} {e : Option TypedExpression}
    (hn : t.nodes.get? x = some n) (ha : n.Declares a)
    (hok : Accepts defs t n a.name expression e) : Valid defs (t.put x (n.bind a e)) where
  linked := (rehung_bind hn a e).linked h.linked
  bound := by
    have hr := rehung_bind hn a e
    have hid := h.linked.ownId hn
    intro y m k te hm hte
    rw [get?_put] at hm
    by_cases hy : x = y
    · rw [if_pos hy, Option.some.injEq] at hm
      subst hm
      rw [Node.get?_bind] at hte
      by_cases hk : a.key = k
      · -- the address that has been bound
        rw [if_pos hk] at hte
        subst hte
        refine ⟨a, hk, (Node.declares_congr rfl rfl).mpr ha, ?_⟩
        cases expression with
        | none => cases hok
        | some expression =>
          obtain ⟨te', heq, hok⟩ := hok
          cases heq
          rw [checkInput_erase hok]
          exact hr.checkInput h.linked hn hid rfl hok
      · -- the other addresses of the node, and below those of other nodes
        rw [if_neg hk] at hte
        obtain ⟨b, hkey, hd, hb⟩ := h.bound hn hte
        exact ⟨b, hkey, (Node.declares_congr rfl rfl).mpr hd, hr.checkInput h.linked hn hid rfl hb⟩
    · rw [if_neg hy] at hm
      obtain ⟨b, hkey, hd, hb⟩ := h.bound hm hte
      exact ⟨b, hkey, hd, hr.checkInput h.linked hm (h.linked.ownId hm) rfl hb⟩

end Tree

/-! ### The edit -/

namespace Draft

variable {defs : Definitions} {d : Draft}

/-- An input is bound, or cleared, exactly if its address is declared and what it is bound to passes
the check. -/
theorem setInput_eq_ok_iff (h : Tree.Linked defs d.tree) {x inputName : String}
    {index : Option UInt32} {expression : Option Expression} {t' : Tree} :
    (∃ d', d.setInput defs x inputName index expression = .ok d' ∧ d'.tree = t') ↔
      ∃ n e, d.tree.nodes.get? x = some n ∧ n.Declares ⟨inputName, index.map UInt32.toNat⟩ ∧
        Tree.Accepts defs d.tree n inputName expression e ∧
        t' = d.tree.put x (n.bind ⟨inputName, index.map UInt32.toNat⟩ e) := by
  constructor
  · rintro ⟨d', hd', rfl⟩
    unfold setInput at hd'
    obtain ⟨n, hn, hd'⟩ := Outcome.bind_eq_ok.mp hd'
    rw [Tree.node_eq_ok_iff] at hn
    -- the rest, for an expression that has been checked
    have hrest : ∀ e, ((n.setInput e ⟨inputName, index.map UInt32.toNat⟩).mapError
        DocumentError.node >>= fun m => pure ((d.put x m).touch x)) = .ok d' →
          n.Declares ⟨inputName, index.map UInt32.toNat⟩ ∧
            d'.tree = d.tree.put x (n.bind ⟨inputName, index.map UInt32.toNat⟩ e) := by
      intro e hd'
      obtain ⟨m, hm, hd'⟩ := Outcome.bind_eq_ok.mp hd'
      rw [Outcome.mapError_eq_ok, Node.setInput_eq_ok_iff (h.fits hn)] at hm
      obtain ⟨hd, rfl⟩ := hm
      cases hd'
      exact ⟨hd, by rw [tree_touch, tree_put]⟩
    cases expression with
    | none =>
      obtain ⟨hd, ht⟩ := hrest none hd'
      exact ⟨n, none, hn, hd, rfl, ht⟩
    | some expression =>
      obtain ⟨e, he, hd'⟩ := Outcome.bind_eq_ok.mp hd'
      obtain ⟨te, hte, rfl⟩ := Outcome.map_eq_ok.mp he
      obtain ⟨hd, ht⟩ := hrest (some te) hd'
      exact ⟨n, some te, hn, hd, ⟨te, rfl, hte⟩, ht⟩
  · rintro ⟨n, e, hn, hd, ha, rfl⟩
    have hset : n.setInput e ⟨inputName, index.map UInt32.toNat⟩ =
        .ok (n.bind ⟨inputName, index.map UInt32.toNat⟩ e) :=
      (Node.setInput_eq_ok_iff (h.fits hn)).mpr ⟨hd, rfl⟩
    refine ⟨(d.put x (n.bind ⟨inputName, index.map UInt32.toNat⟩ e)).touch x, ?_, tree_touch _ _⟩
    unfold setInput
    rw [Tree.node_eq_ok_iff.mpr hn, Outcome.ok_bind]
    cases expression with
    | none =>
      cases ha
      simp only [Outcome.pure_eq_ok, Outcome.ok_bind, hset, Outcome.ok_mapError]
    | some expression =>
      obtain ⟨te, rfl, hok⟩ := ha
      simp only [hok, Except.map, Outcome.ok_bind, hset, Outcome.ok_mapError]
      rfl

end Draft

end SlotTree
