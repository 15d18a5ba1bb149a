import SlotTree.Proofs.Document.Acceptance
import SlotTree.Proofs.Document.Changes

/-!
# What renaming does

A node that is renamed has its new id wherever its old one occurred: as its own, as the root, in the
slots of its parent, in the links of its children, and at the heads of bindings, wherever they are
and however deep in arguments.  Nothing else changes.

## Main definitions

* `Tree.relabel` — a tree with a function applied to every id that occurs in it.

## Main results

* `Tree.Valid.relabel_congr` — only the ids in use count.
* `Document.apply_rename`, `Document.rename_run` — renaming puts one id in place of another.
-/

namespace SlotTree

/-! ### Nodes -/

/-- Only the ids that a node mentions count for other ids. -/
theorem Node.relabel_congr {f g : String → String} {n : Node}
    (h : ∀ id, n.Mentions id → f id = g id) : n.relabel f = n.relabel g := by
  have hparent : n.parent.map (ParentLink.relabel f) = n.parent.map (ParentLink.relabel g) := by
    cases hlink : n.parent with
    | none => rfl
    | some link =>
      rw [Option.map_some, Option.map_some, ParentLink.relabel, ParentLink.relabel,
        h link.nodeId (.inr (.inl ⟨link, hlink, rfl⟩))]
  have hslots : (n.slots.mapValues fun _ content => content.relabel f) =
      n.slots.mapValues fun _ content => content.relabel g := by
    refine OrderedMap.ext_keys (by simp) fun s => ?_
    rw [OrderedMap.get?_mapValues, OrderedMap.get?_mapValues]
    cases hs : n.slots.get? s with
    | none => rfl
    | some content =>
      rw [Option.map_some, Option.map_some, SlotContent.relabel_congr]
      intro i c hc
      exact h c (.inr (.inr (.inl ⟨s, i, by rw [child?_of_get? hs]; exact hc⟩)))
  have hinputs : n.inputs.map (TypedExpression.relabel f) =
      n.inputs.map (TypedExpression.relabel g) := by
    refine SortedMap.ext_get? fun k => ?_
    rw [SortedMap.get?_map, SortedMap.get?_map]
    cases he : n.inputs.get? k with
    | none => rfl
    | some e =>
      rw [Option.map_some, Option.map_some, TypedExpression.relabel_congr]
      intro head hhead
      exact h head.1 (.inr (.inr (.inr ⟨k, e, he,
        Expression.refersTo_eq_true_iff.mpr ⟨head, hhead, rfl⟩⟩)))
  rw [relabel, relabel, rehang, rehang, h n.id (.inl rfl), hparent, hslots, hinputs]

/-! ### Trees -/

namespace Tree

variable {defs : Definitions} {t t' : Tree}

/-- A tree with a function applied to every id that occurs in it. -/
def relabel (f : String → String) (t : Tree) : Tree where
  root := t.root.map f
  nodes := .ofList (t.nodes.entries.map fun e => (f e.1, e.2.relabel f))

/-- If ids are exchanged, this is the same tree under other ids. -/
theorem relabels_relabel (f : Equiv.Perm String) (t : Tree) : Relabels f t (t.relabel f) where
  root := rfl
  nodes := by
    intro id
    have hkeys : ((t.nodes.entries.map fun e => (f e.1, e.2.relabel f)).map Prod.fst).Nodup := by
      rw [List.map_map]
      have := t.nodes.nodup_keys.map f.injective
      rwa [SortedMap.keys, List.map_map] at this
    rw [relabel, SortedMap.get?_ofList hkeys, lookup_map_names f.injective]
    rfl

/-- There is only one such tree. -/
theorem Relabels.eq_relabel {f : Equiv.Perm String} (h : Relabels f t t') : t' = t.relabel f := by
  have h' := relabels_relabel f t
  refine Tree.ext (h.root.trans h'.root.symm) (SortedMap.ext_get? fun id => ?_)
  obtain ⟨id, rfl⟩ := f.surjective id
  rw [h.nodes, h'.nodes]

/-- Only the ids in use count for other ids. -/
theorem Valid.relabel_congr (h : Valid defs t) {f g : String → String}
    (hfg : ∀ id n, t.nodes.get? id = some n → f id = g id) : t.relabel f = t.relabel g := by
  have hroot : t.root.map f = t.root.map g := by
    cases hr : t.root with
    | none => rfl
    | some r =>
      obtain ⟨n, hn, -⟩ := h.linked.rooted hr
      rw [Option.map_some, Option.map_some, hfg r n hn]
  have hnodes : (t.nodes.entries.map fun e => (f e.1, e.2.relabel f)) =
      t.nodes.entries.map fun e => (g e.1, e.2.relabel g) := by
    refine List.map_congr_left fun e he => ?_
    have hn := SortedMap.mem_entries_iff.mp he
    rw [hfg e.1 e.2 hn, Node.relabel_congr]
    intro id hid
    obtain ⟨m, hm⟩ := h.mentioned hn hid
    exact hfg id m hm
  rw [relabel, relabel, hroot, hnodes]

end Tree

/-! ### Documents -/

namespace Document

/-- In a valid tree, renaming puts the new id in place of the old one. -/
theorem apply_rename {doc : Document} (h : Tree.Valid doc.definitions doc.tree) {old new : String}
    (hold : doc.tree.has old = true) (hnew : doc.tree.has new = false) (now : Instant) :
    ∃ commit, doc.apply now (.renameNode old new) = .ok ({ doc with
      tree := doc.tree.relabel (replaceId old new)
      version := doc.version + 1
      log := (doc.log.push now [.renameNode new old]).1 }, commit) := by
  obtain ⟨n, hn⟩ := Tree.has_eq_true_iff.mp hold
  have hfree := Tree.has_eq_false_iff.mp hnew
  obtain ⟨d, hd, hrelabels⟩ := Draft.rename_eq_ok (d := { tree := doc.tree }) h hn hfree
  -- no id in use is the new one, so to exchange the two is to replace the old one
  have htree : d.tree = doc.tree.relabel (replaceId old new) := by
    rw [hrelabels.eq_relabel]
    exact h.relabel_congr fun id m hm => swap_eq_replaceId (SortedMap.ne_of_get? hm hfree)
  refine ⟨{ version := doc.version + 1, changed := d.changed, patches := [.renameNode old new] },
    apply_eq_ok_iff.mpr ⟨.renameNode old new, [.renameNode new old], d, rfl, rfl, hd, ?_⟩⟩
  rw [htree]
  rfl

/-- In every run, a node can be given any id that is not in use, at any time.  This puts the new id
in place of the old one, and changes nothing else in the document but that it counts one version
more and can undo the change. -/
theorem rename_run (name : String) (defs : Definitions) (config : DocumentConfig)
    (calls : List Call) (now : Instant) {old new : String}
    (hold : ((Document.new name defs config).run calls).tree.has old = true)
    (hnew : ((Document.new name defs config).run calls).tree.has new = false) :
    let doc := (Document.new name defs config).run calls
    ∃ commit, doc.apply now (.renameNode old new) = .ok ({ doc with
      tree := doc.tree.relabel (replaceId old new)
      version := doc.version + 1
      log := (doc.log.push now [.renameNode new old]).1 }, commit) :=
  apply_rename (valid_definitions_run name defs config calls) hold hnew now

/-- When the outer one of three shelves is renamed, the label that refers to it follows, and the
label that only reads like its id stays. -/
theorem rename_run_shelfCalls :
    let doc := (Document.new "shelves" shelfDefinitions).run
      (shelfCalls ++ [.apply 0 (.setNodeInput "left" "label" none (some (.string "top")))])
    let label (t : Tree) (id : String) := (t.nodes.get? id).bind fun n => n.input? ⟨"label", none⟩
    let renamed := doc.tree.relabel (replaceId "top" "best")
    (∃ commit, doc.apply 0 (.renameNode "top" "best") = .ok ({ doc with
      tree := renamed
      version := doc.version + 1
      log := (doc.log.push 0 [.renameNode "best" "top"]).1 }, commit)) ∧
      label doc.tree "right" = some (.output "top" "tone" [] .string) ∧
      label renamed "right" = some (.output "best" "tone" [] .string) ∧
      label renamed "left" = some (.string "top") :=
  ⟨rename_run "shelves" shelfDefinitions {} _ 0 (by decide +kernel) (by decide +kernel),
    by with_unfolding_all rfl, by with_unfolding_all rfl, by with_unfolding_all rfl⟩

end Document

end SlotTree
