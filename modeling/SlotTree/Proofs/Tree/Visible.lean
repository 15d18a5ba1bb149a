import SlotTree.Proofs.Expression.Checking
import SlotTree.Proofs.Tree.Walks
import SlotTree.Tree.Visibility

/-!
# Visible outputs and valid bindings

Which outputs a node sees hangs on its way up alone: on the ids and schemas of the nodes there, and
on the slots that the way goes through.  So the check of a binding goes through in any other tree
where the way up is the same, or the same under other ids.

## Main definitions

* `Tree.Exposes` — an output that is seen from a node, and its type.
* `Tree.Shows` — what is seen of an output, be it a type or an error.
* `Tree.Carries` — a tree in which the ways up are those of another, under other ids.
* `Tree.Bound` — trees whose bindings pass the check again.

## Main results

* `Tree.Linked.visibleOutput_eq` — the outputs that are seen are those of the way up.
* `Tree.Carries.checkInput` — what passes the check in one tree passes it in the other.
-/

namespace SlotTree.Tree

variable {defs : Definitions} {t t' : Tree}

/-! ### Outputs on the way up -/

/-- The type of an output of the first node with an id on a way up, if it is shown to the slot that
the way goes through. -/
def outputOn (ancestorId outputName : String) :
    List (ParentLink × Node) → Except ExpressionError ValueType
  | [] => .error (.notAnAncestor ancestorId)
  | (link, p) :: path =>
    if p.id = ancestorId then do
      let output ← (p.schema.output outputName).mapError .schema
      match output.slot with
      | some slot =>
        if slot = link.slotName then return output.type
        else throw (.outputNotExposed ancestorId outputName)
      | none => return output.type
    else outputOn ancestorId outputName path

theorem Climbs.outputAbove_eq {n : Node} {path : List (ParentLink × Node)}
    (hc : t.Climbs n path) (ancestorId outputName : String) :
    ∀ steps, path.length ≤ steps →
      t.outputAbove ancestorId outputName steps n = outputOn ancestorId outputName path := by
  induction hc with
  | root hnone =>
    intro steps _
    cases steps with
    | zero => rfl
    | succ steps => rw [outputAbove, hnone, outputOn]
  | up hlink hp _ ih =>
    intro steps hle
    cases steps with
    | zero => cases hle
    | succ steps =>
      rw [outputAbove, hlink, outputOn]
      simp only [hp]
      rewrite [ih steps (Nat.le_of_succ_le_succ hle)]
      rfl

theorem Linked.visibleOutput_eq (h : Linked defs t) {id : String} {n : Node}
    {path : List (ParentLink × Node)} (hn : t.nodes.get? id = some n) (hc : t.Climbs n path)
    (ancestorId outputName : String) :
    t.visibleOutput id ancestorId outputName = outputOn ancestorId outputName path := by
  rw [visibleOutput, hn]
  exact hc.outputAbove_eq ancestorId outputName _ (Nat.le_of_lt (h.length_lt_size hn hc))

/-- An output of a node is shown to what hangs in a slot of the node. -/
def Exposes (p : Node) (slotName outputName : String) (type : ValueType) : Prop :=
  ∃ decl, p.schema.output outputName = .ok decl ∧ decl.type = type ∧
    ∀ s, decl.slot = some s → s = slotName

/-- What is seen of an output of a node from below one of its slots. -/
inductive Shows (p : Node) (slotName outputName : String) :
    Except ExpressionError ValueType → Prop where
  /-- The schema of the node does not declare the output. -/
  | unknown : p.schema.outputs.get? outputName = none →
    Shows p slotName outputName (.error (.schema (.unknownOutput p.schema.name outputName)))
  /-- The output belongs to another slot. -/
  | hidden {decl : OutputDecl} {s : String} : p.schema.outputs.get? outputName = some decl →
    decl.slot = some s → s ≠ slotName →
      Shows p slotName outputName (.error (.outputNotExposed p.id outputName))
  /-- The output belongs to this slot, or to none. -/
  | shown {decl : OutputDecl} : p.schema.outputs.get? outputName = some decl →
    (∀ s, decl.slot = some s → s = slotName) → Shows p slotName outputName (.ok decl.type)

theorem Shows.exposes {p : Node} {slotName outputName : String} {type : ValueType}
    (h : Shows p slotName outputName (.ok type)) : Exposes p slotName outputName type := by
  cases h with
  | @shown decl hdecl hslot => exact ⟨decl, by rw [NodeSchema.output, hdecl], rfl, hslot⟩

theorem outputOn_cons_self (link : ParentLink) (p : Node) (outputName : String)
    (path : List (ParentLink × Node)) :
    Shows p link.slotName outputName (outputOn p.id outputName ((link, p) :: path)) := by
  rw [outputOn, if_pos rfl, NodeSchema.output]
  cases hdecl : p.schema.outputs.get? outputName with
  | none => exact .unknown hdecl
  | some decl =>
    simp only [Outcome.ok_mapError, Outcome.ok_bind]
    cases hslot : decl.slot with
    | none => exact .shown hdecl fun s hs => by rw [hslot] at hs; cases hs
    | some s =>
      simp only
      split
      · next heq =>
        exact .shown hdecl fun s' hs => by
          rw [hslot, Option.some.injEq] at hs
          rw [← hs, heq]
      · next hne => exact .hidden hdecl hslot hne

/-- Either no node on the way up has the id, or one of them shows its output to the slot that the
way goes through. -/
theorem outputOn_cases (ancestorId outputName : String) (path : List (ParentLink × Node)) :
    (outputOn ancestorId outputName path = .error (.notAnAncestor ancestorId) ∧
      ∀ hop ∈ path, hop.2.id ≠ ancestorId) ∨
    ∃ hop ∈ path, hop.2.id = ancestorId ∧
      Shows hop.2 hop.1.slotName outputName (outputOn ancestorId outputName path) := by
  induction path with
  | nil => exact .inl ⟨rfl, fun hop hmem => by cases hmem⟩
  | cons hop path ih =>
    obtain ⟨link, p⟩ := hop
    by_cases hid : p.id = ancestorId
    · subst hid
      exact .inr ⟨(link, p), List.mem_cons_self, rfl, outputOn_cons_self link p outputName path⟩
    · rw [outputOn, if_neg hid]
      rcases ih with ⟨hout, hnone⟩ | ⟨hop, hmem, hid, hshows⟩
      · exact .inl ⟨hout, List.forall_mem_cons.mpr ⟨hid, hnone⟩⟩
      · exact .inr ⟨hop, List.mem_cons_of_mem _ hmem, hid, hshows⟩

theorem outputOn_eq_ok {ancestorId outputName : String} {type : ValueType}
    {path : List (ParentLink × Node)} (h : outputOn ancestorId outputName path = .ok type) :
    ∃ hop ∈ path, hop.2.id = ancestorId ∧ Exposes hop.2 hop.1.slotName outputName type := by
  rcases outputOn_cases ancestorId outputName path with ⟨hout, -⟩ | ⟨hop, hmem, hid, hshows⟩
  · rw [h] at hout
    cases hout
  · rw [h] at hshows
    exact ⟨hop, hmem, hid, hshows.exposes⟩

/-- Two ways up that go through the same slots, past nodes of the same schemas, under other ids. -/
def Alike (f : String → String) (hop hop' : ParentLink × Node) : Prop :=
  hop'.1.slotName = hop.1.slotName ∧ hop'.2.schema = hop.2.schema ∧ hop'.2.id = f hop.2.id

theorem outputOn_alike {f : String → String} (hf : Function.Injective f)
    {path path' : List (ParentLink × Node)} (h : List.Forall₂ (Alike f) path path')
    (ancestorId outputName : String) (type : ValueType)
    (hok : outputOn ancestorId outputName path = .ok type) :
    outputOn (f ancestorId) outputName path' = .ok type := by
  induction h with
  | nil => cases hok
  | @cons hop hop' path path' halike _ ih =>
    obtain ⟨link, p⟩ := hop
    obtain ⟨link', p'⟩ := hop'
    obtain ⟨hslot, hschema, hid⟩ := halike
    simp only at hslot hschema hid
    rw [outputOn] at hok ⊢
    rw [hid, hschema, hslot]
    -- the nodes with the id stand at the same height, for different ids stay different
    by_cases heq : p.id = ancestorId
    · rw [if_pos heq] at hok
      rw [if_pos (congrArg f heq)]
      obtain ⟨decl, hdecl, hok⟩ := Outcome.bind_eq_ok.mp hok
      refine Outcome.bind_eq_ok.mpr ⟨decl, hdecl, ?_⟩
      cases hs : decl.slot with
      | none =>
        rw [hs] at hok
        exact hok
      | some slot =>
        rw [hs] at hok
        simp only at hok ⊢
        split at hok
        · next h => rw [if_pos h]; exact hok
        · cases hok
    · rw [if_neg heq] at hok
      rw [if_neg fun h => heq (hf h)]
      exact ih hok

/-! ### The same ways in another tree -/

/-- For every node that is kept, the other tree has a node with the same schema under another id,
and with the same place but for the position. -/
structure Carries (t t' : Tree) (f : String → String) (kept : String → Prop) : Prop where
  node : ∀ {id n}, kept id → t.nodes.get? id = some n →
    ∃ n', t'.nodes.get? (f id) = some n' ∧ n'.schema = n.schema ∧
      (n.parent = none → n'.parent = none) ∧
      ∀ link, n.parent = some link → kept link.nodeId ∧ ∃ link', n'.parent = some link' ∧
        link'.nodeId = f link.nodeId ∧ link'.slotName = link.slotName

variable {f : String → String} {kept : String → Prop}

/-- A way up in one tree is one in the other. -/
theorem Carries.climbs (hcar : Carries t t' f kept)
    (hid : ∀ {id n}, t.nodes.get? id = some n → n.id = id)
    (hid' : ∀ {id n}, t'.nodes.get? id = some n → n.id = id)
    {n : Node} {path : List (ParentLink × Node)} (hc : t.Climbs n path) :
    ∀ {id n'}, kept id → t.nodes.get? id = some n → t'.nodes.get? (f id) = some n' →
      ∃ path', t'.Climbs n' path' ∧ List.Forall₂ (Alike f) path path' := by
  induction hc with
  | root hnone =>
    intro id n' hk hn hn'
    obtain ⟨m, hm, -, hroot, -⟩ := hcar.node hk hn
    rw [hn', Option.some.injEq] at hm
    exact ⟨[], .root (hm ▸ hroot hnone), .nil⟩
  | up hlink hp _ ih =>
    intro id n' hk hn hn'
    obtain ⟨m, hm, -, -, hup⟩ := hcar.node hk hn
    obtain ⟨hkp, link', hlink', heq, hslot⟩ := hup _ hlink
    rw [hn', Option.some.injEq] at hm
    obtain ⟨p', hp', hschema, -⟩ := hcar.node hkp hp
    obtain ⟨path', hpath', hall⟩ := ih hkp hp hp'
    refine ⟨(link', p') :: path', .up (hm ▸ hlink') (heq.symm ▸ hp') hpath', .cons ?_ hall⟩
    exact ⟨hslot, hschema, by rw [hid' hp', hid hp]⟩

/-- What a node sees in one tree, it sees in the other, under the other ids. -/
theorem Carries.simulates (hcar : Carries t t' f kept) (h : Linked defs t) (h' : Linked defs t')
    (hf : Function.Injective f) {id : String} {n : Node} (hk : kept id)
    (hn : t.nodes.get? id = some n) (heads : List (String × String)) :
    (t'.context defs (f id)).Simulates (t.context defs id) f heads where
  literal _ := rfl
  method _ := rfl
  outputType := by
    rintro ⟨ancestorId, outputName⟩ - type hok
    obtain ⟨path, hpath⟩ := h.climbs hn
    obtain ⟨n', hn', -⟩ := hcar.node hk hn
    obtain ⟨path', hpath', hall⟩ := hcar.climbs h.ownId h'.ownId hpath hk hn hn'
    have hok' : t.visibleOutput id ancestorId outputName = .ok type := hok
    rw [h.visibleOutput_eq hn hpath] at hok'
    show t'.visibleOutput (f id) (f ancestorId) outputName = .ok type
    rw [h'.visibleOutput_eq hn' hpath']
    exact outputOn_alike hf hall _ _ _ hok'

theorem checkInput_eq_ok_iff {n : Node} {name : String} {e : Expression} {te : TypedExpression} :
    t.checkInput defs n name e = .ok te ↔
      ∃ decl, n.schema.input name = .ok decl ∧
        e.check (t.context defs n.id) decl.type = .ok te := by
  rw [checkInput, Outcome.bind_eq_ok]
  simp only [Outcome.mapError_eq_ok]

/-- What passes the check in one tree passes it in the other, under the other ids. -/
theorem Carries.checkInput (hcar : Carries t t' f kept) (h : Linked defs t) (h' : Linked defs t')
    (hf : Function.Injective f) {id : String} {n n' : Node} (hk : kept id)
    (hn : t.nodes.get? id = some n) (hid : n'.id = f id) (hschema : n'.schema = n.schema)
    {name : String} {e : Expression} {te : TypedExpression}
    (hok : t.checkInput defs n name e = .ok te) :
    t'.checkInput defs n' name (e.relabel f) = .ok (te.relabel f) := by
  obtain ⟨decl, hdecl, hok⟩ := checkInput_eq_ok_iff.mp hok
  rw [h.ownId hn] at hok
  rw [checkInput_eq_ok_iff, hschema, hid]
  exact ⟨decl, hdecl, Expression.check_relabel (hcar.simulates h h' hf hk hn e.heads) hok⟩

theorem checkInput_erase {n : Node} {name : String} {e : Expression} {te : TypedExpression}
    (h : t.checkInput defs n name e = .ok te) : te.erase = e := by
  obtain ⟨_, -, hok⟩ := checkInput_eq_ok_iff.mp h
  exact Expression.erase_of_check hok

/-- What passes the check in one tree passes it in another with the same ways up. -/
theorem Carries.checkInput_id (hcar : Carries t t' id kept) (h : Linked defs t)
    (h' : Linked defs t') {x : String} {n n' : Node} (hk : kept x)
    (hn : t.nodes.get? x = some n) (hid : n'.id = x) (hschema : n'.schema = n.schema)
    {name : String} {e : Expression} {te : TypedExpression}
    (hok : t.checkInput defs n name e = .ok te) : t'.checkInput defs n' name e = .ok te := by
  have hte := checkInput_erase hok
  have hself : te.relabel id = te := TypedExpression.relabel_eq_self fun _ _ => rfl
  have := hcar.checkInput h h' Function.injective_id hk hn hid hschema hok
  rwa [hself, ← hte, ← TypedExpression.erase_relabel, hself, hte] at this

/-! ### Valid bindings -/

/-- Every binding is that of a declared address, and passes the check again with the same outcome.
-/
def Bound (defs : Definitions) (t : Tree) : Prop :=
  ∀ ⦃id n k e⦄, t.nodes.get? id = some n → n.inputs.get? k = some e →
    ∃ a : InputAddress, a.key = k ∧ n.Declares a ∧ t.checkInput defs n a.name e.erase = .ok e

/-- Linked trees with valid bindings. -/
structure Valid (defs : Definitions) (t : Tree) : Prop where
  /-- The links agree. -/
  linked : Linked defs t
  /-- The bindings are valid. -/
  bound : Bound defs t

theorem valid_empty (defs : Definitions) : Valid defs {} where
  linked := linked_empty defs
  bound := fun _ _ _ _ h => by cases h

theorem Bound.tidy (h : Bound defs t) {id : String} {n : Node} (hn : t.nodes.get? id = some n) :
    n.Tidy := by
  intro k e he
  obtain ⟨a, hkey, hd, -⟩ := h hn he
  exact ⟨a, hkey, hd⟩

/-- The binding of a declared address passes the check again. -/
theorem Bound.checkInput (h : Bound defs t) {id : String} {n : Node}
    (hn : t.nodes.get? id = some n) {a : InputAddress} (ha : n.Declares a) {e : TypedExpression}
    (he : n.input? a = some e) : t.checkInput defs n a.name e.erase = .ok e := by
  obtain ⟨b, hkey, hd, hok⟩ := h hn he
  rw [← hd.key_inj ha hkey]
  exact hok

/-- A head of a binding names a node on the way up, other than the node itself, and an output that
is shown to the slot that the way goes through. -/
theorem Valid.head_exposed (h : Valid defs t) {id : String} {n : Node} {k : String}
    {e : TypedExpression} (hn : t.nodes.get? id = some n) (he : n.inputs.get? k = some e)
    {path : List (ParentLink × Node)} (hpath : t.Climbs n path) {head : String × String}
    (hhead : head ∈ e.erase.heads) :
    ∃ hop ∈ path, hop.2.id = head.1 ∧ ∃ type, Exposes hop.2 hop.1.slotName head.2 type := by
  obtain ⟨a, -, -, hok⟩ := h.bound hn he
  obtain ⟨decl, -, hok⟩ := checkInput_eq_ok_iff.mp hok
  obtain ⟨type, htype⟩ := Expression.heads_of_check hok head hhead
  have hvis : t.visibleOutput n.id head.1 head.2 = .ok type := htype
  rw [h.linked.ownId hn, h.linked.visibleOutput_eq hn hpath] at hvis
  obtain ⟨hop, hmem, hid, hexp⟩ := outputOn_eq_ok hvis
  exact ⟨hop, hmem, hid, type, hexp⟩

/-- A node is below whatever its bindings refer to, and is not the node that they refer to. -/
theorem Valid.head_above (h : Valid defs t) {id : String} {n : Node} {k : String}
    {e : TypedExpression} (hn : t.nodes.get? id = some n) (he : n.inputs.get? k = some e)
    {head : String × String} (hhead : head ∈ e.erase.heads) :
    head.1 ≠ id ∧ t.Below head.1 id ∧ ∃ m, t.nodes.get? head.1 = some m := by
  obtain ⟨path, hpath⟩ := h.linked.climbs hn
  obtain ⟨⟨link, m⟩, hmem, hid, -⟩ := h.head_exposed hn he hpath hhead
  have hm := hpath.get?_of_mem hmem
  have hlink : link.nodeId = head.1 := (h.linked.ownId hm).symm.trans hid
  have hn' : t.nodes.get? n.id = some n := by rw [h.linked.ownId hn]; exact hn
  have hnot := (List.nodup_cons.mp (h.linked.nodup_path hpath hn')).1
  refine ⟨fun heq => hnot ?_, hlink ▸ hpath.below_hop hn hmem, m, hlink ▸ hm⟩
  rw [h.linked.ownId hn, ← heq, ← hid]
  exact List.mem_map.mpr ⟨(link, m), hmem, rfl⟩

end SlotTree.Tree
