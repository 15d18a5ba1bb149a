import SlotTree.Proofs.Edit.Creating
import SlotTree.Proofs.Edit.Deleting
import SlotTree.Proofs.Edit.Renaming

/-!
# Patches

Which patches a valid tree takes, and that it stays valid.

## Main definitions

* `Tree.Vacant` — whether there is a place for a new node.
* `Tree.Takes` — whether a tree takes a patch.

## Main results

* `Draft.apply_eq_ok_iff` — a patch is applied exactly if the tree takes it.
* `Draft.apply_valid` — the tree stays valid.
-/

namespace SlotTree

namespace Tree

/-- Whether there is a place for a new node: without a parent there may be no nodes yet, and a
parent has to exist, with a slot that takes the child. -/
def Vacant (t : Tree) : Option PatchParent → Prop
  | none => ∀ y, t.nodes.get? y = none
  | some parent => ∃ p content, t.nodes.get? parent.nodeId = some p ∧
      p.slots.get? parent.slotName = some content ∧
      content.Admits (parent.index.map UInt32.toNat)

/-- Whether a tree takes a patch. -/
def Takes (defs : Definitions) (t : Tree) : Patch → Prop
  | .createNode nodeType parent nodeId =>
    (∃ schema, defs.node nodeType = .ok schema) ∧
      (∀ c, nodeId = some c → t.nodes.get? c = none) ∧ t.Vacant parent
  | .deleteNode nodeId => ∃ n, t.nodes.get? nodeId = some n
  | .renameNode nodeId newId => (∃ n, t.nodes.get? nodeId = some n) ∧ t.nodes.get? newId = none
  | .setNodeInput nodeId inputName index expression =>
    ∃ n e, t.nodes.get? nodeId = some n ∧ n.Declares ⟨inputName, index.map UInt32.toNat⟩ ∧
      Accepts defs t n inputName expression e

variable {defs : Definitions} {t : Tree}

/-- Without nodes there is no root either. -/
theorem Linked.eq_empty_iff (h : Linked defs t) : t = {} ↔ ∀ y, t.nodes.get? y = none :=
  ⟨fun heq y => by rw [heq]; rfl, fun hall => h.eq_empty (h.root_eq_none_iff.mpr hall)⟩

end Tree

namespace Draft

variable {defs : Definitions} {d d' : Draft}

theorem create_eq_ok_iff (h : Tree.Linked defs d.tree) {nodeType c : String}
    {parent : Option PatchParent} :
    (∃ d', d.create defs nodeType parent c = .ok d') ↔
      (∃ schema, defs.node nodeType = .ok schema) ∧ d.tree.nodes.get? c = none ∧
        d.tree.Vacant parent := by
  cases parent with
  | none =>
    constructor
    · rintro ⟨d', hd'⟩
      obtain ⟨schema, hs, hempty, -⟩ := (create_root_eq_ok_iff h).mp ⟨d', hd', rfl⟩
      have hall := h.eq_empty_iff.mp hempty
      exact ⟨⟨schema, hs⟩, hall c, hall⟩
    · rintro ⟨⟨schema, hs⟩, -, hall⟩
      obtain ⟨d', hd', -⟩ := (create_root_eq_ok_iff h (c := c)).mpr
        ⟨schema, hs, h.eq_empty_iff.mpr hall, rfl⟩
      exact ⟨d', hd'⟩
  | some parent =>
    constructor
    · rintro ⟨d', hd'⟩
      obtain ⟨schema, p, content, hs, hc, hp, hslot, ha⟩ := create_child_inv hd'
      exact ⟨⟨schema, hs⟩, hc, p, content, hp, hslot, ha⟩
    · rintro ⟨⟨schema, hs⟩, hc, p, content, hp, hslot, ha⟩
      obtain ⟨d', hd', -⟩ := create_child_eq_ok h parent hs hc hp hslot ha
      exact ⟨d', hd'⟩

theorem create_valid (h : Tree.Valid defs d.tree) {nodeType c : String}
    {parent : Option PatchParent} (hd : d.create defs nodeType parent c = .ok d') :
    Tree.Valid defs d'.tree := by
  cases parent with
  | none =>
    obtain ⟨schema, hs, -, htree⟩ := (create_root_eq_ok_iff h.linked).mp ⟨d', hd, rfl⟩
    rw [htree]
    exact Tree.valid_alone (by rw [Definitions.name_of_node hs]; exact hs) c
  | some parent =>
    obtain ⟨schema, p, content, hs, hc, hp, hslot, ha⟩ := create_child_inv hd
    obtain ⟨e, he, hgrows⟩ := create_child_eq_ok h.linked parent hs hc hp hslot ha
    rw [hd, Except.ok.injEq] at he
    subst he
    exact (hgrows.regraft h.linked).valid h

theorem delete_eq_ok_iff (h : Tree.Linked defs d.tree) {x : String} :
    (∃ d', d.delete x = .ok d') ↔ ∃ n, d.tree.nodes.get? x = some n := by
  constructor
  · rintro ⟨d', hd'⟩
    obtain ⟨n, hn, -⟩ := Outcome.bind_eq_ok.mp hd'
    exact ⟨n, Tree.node_eq_ok_iff.mp hn⟩
  · rintro ⟨n, hn⟩
    cases hlink : n.parent with
    | none =>
      obtain ⟨d', hd', -⟩ := delete_root_eq_ok hn hlink
      exact ⟨d', hd'⟩
    | some link =>
      obtain ⟨d', -, -, hd', -⟩ := delete_child_eq_ok h hn hlink
      exact ⟨d', hd'⟩

theorem delete_valid (h : Tree.Valid defs d.tree) {x : String} (hd : d.delete x = .ok d') :
    Tree.Valid defs d'.tree := by
  obtain ⟨n, hn⟩ := (delete_eq_ok_iff h.linked).mp ⟨d', hd⟩
  cases hlink : n.parent with
  | none =>
    obtain ⟨e, he, htree⟩ := delete_root_eq_ok hn hlink
    rw [hd, Except.ok.injEq] at he
    rw [he, htree]
    exact Tree.valid_empty defs
  | some link =>
    obtain ⟨e, p, content, he, -, hshrinks⟩ := delete_child_eq_ok h.linked hn hlink
    rw [hd, Except.ok.injEq] at he
    subst he
    exact (hshrinks.regraft h.linked).valid h

theorem rename_eq_ok_iff (h : Tree.Valid defs d.tree) {old new : String} :
    (∃ d', d.rename defs old new = .ok d') ↔
      (∃ n, d.tree.nodes.get? old = some n) ∧ d.tree.nodes.get? new = none := by
  constructor
  · rintro ⟨d', hd'⟩
    unfold rename at hd'
    obtain ⟨n, hn, hd'⟩ := Outcome.bind_eq_ok.mp hd'
    cases hhas : d.tree.has new with
    | true =>
      rw [hhas] at hd'
      cases hd'
    | false => exact ⟨⟨n, Tree.node_eq_ok_iff.mp hn⟩, Tree.has_eq_false_iff.mp hhas⟩
  · rintro ⟨⟨n, hn⟩, hnew⟩
    obtain ⟨d', hd', -⟩ := rename_eq_ok h hn hnew
    exact ⟨d', hd'⟩

theorem rename_valid (h : Tree.Valid defs d.tree) {old new : String}
    (hd : d.rename defs old new = .ok d') : Tree.Valid defs d'.tree := by
  obtain ⟨⟨n, hn⟩, hnew⟩ := (rename_eq_ok_iff h).mp ⟨d', hd⟩
  obtain ⟨e, he, hrelabels⟩ := rename_eq_ok h hn hnew
  rw [hd, Except.ok.injEq] at he
  subst he
  exact hrelabels.valid h

/-- A patch is applied exactly if the tree takes it. -/
theorem apply_eq_ok_iff (h : Tree.Valid defs d.tree) {p : Patch} :
    (∃ d', d.apply defs p = .ok d') ↔ d.tree.Takes defs p := by
  cases p with
  | createNode nodeType parent nodeId =>
    cases nodeId with
    | some c =>
      rw [apply, create_eq_ok_iff h.linked, Tree.Takes]
      simp
    | none =>
      rw [apply, Tree.Takes]
      cases hs : defs.node nodeType with
      | error e => simp
      | ok schema =>
        simp only [Outcome.ok_mapError, Outcome.ok_bind]
        rw [create_eq_ok_iff h.linked]
        simp [hs, Tree.get?_freshId]
  | deleteNode nodeId => exact delete_eq_ok_iff h.linked
  | renameNode nodeId newId => exact rename_eq_ok_iff h
  | setNodeInput nodeId inputName index expression =>
    constructor
    · rintro ⟨d', hd'⟩
      obtain ⟨n, e, hn, hd, ha, -⟩ := (setInput_eq_ok_iff h.linked).mp ⟨d', hd', rfl⟩
      exact ⟨n, e, hn, hd, ha⟩
    · rintro ⟨n, e, hn, hd, ha⟩
      obtain ⟨d', hd', -⟩ := (setInput_eq_ok_iff h.linked).mpr ⟨n, e, hn, hd, ha, rfl⟩
      exact ⟨d', hd'⟩

/-- A patch leaves a valid tree. -/
theorem apply_valid (h : Tree.Valid defs d.tree) {p : Patch} (hd : d.apply defs p = .ok d') :
    Tree.Valid defs d'.tree := by
  cases p with
  | createNode nodeType parent nodeId =>
    cases nodeId with
    | some c => exact create_valid h hd
    | none =>
      rw [apply] at hd
      obtain ⟨schema, -, hd⟩ := Outcome.bind_eq_ok.mp hd
      exact create_valid h hd
  | deleteNode nodeId => exact delete_valid h hd
  | renameNode nodeId newId => exact rename_valid h hd
  | setNodeInput nodeId inputName index expression =>
    obtain ⟨n, e, hn, ha, hok, htree⟩ := (setInput_eq_ok_iff h.linked).mp ⟨d', hd, rfl⟩
    rw [htree]
    exact h.bind hn ha hok

/-- Patches leave a valid tree. -/
theorem foldlM_apply_valid (ps : List Patch) : ∀ {d d' : Draft}, Tree.Valid defs d.tree →
    ps.foldlM (fun d p => d.apply defs p) d = .ok d' → Tree.Valid defs d'.tree := by
  induction ps with
  | nil =>
    intro d d' h hd
    cases hd
    exact h
  | cons p rest ih =>
    intro d d' h hd
    rw [List.foldlM_cons] at hd
    obtain ⟨e, he, hd⟩ := Outcome.bind_eq_ok.mp hd
    exact ih (apply_valid h he) hd

end Draft

end SlotTree
