import SlotTree.Proofs.Document.Runs

/-!
# What the nodes of a document see

An expression on a node may refer to the outputs of the nodes above it.  What it gets for one is
read off the links from the root down to the node: one of them has to name the node of the output,
and the output has to be shown to the slot that this link goes through.

## Main definitions

* `Tree.Sees` — what is seen of an output from a node with given links.

## Main results

* `Tree.Linked.visibleOutput_cases` — the look-up of an output against the way up.
* `Document.sees_run` — the look-up against the links of a node, in every run.
-/

namespace SlotTree

namespace Tree

variable {defs : Definitions} {t : Tree}

/-- Each link on a way up names the node that it leads to. -/
theorem Linked.map_nodeId (h : Linked defs t) {n : Node} {path : List (ParentLink × Node)}
    (hc : t.Climbs n path) :
    (path.map Prod.fst).map ParentLink.nodeId = path.map fun hop => hop.2.id := by
  rw [List.map_map]
  refine List.map_congr_left fun hop hmem => ?_
  exact (h.ownId (hc.get?_of_mem hmem)).symm

/-- No two links on a way up name the same node. -/
theorem Linked.nodup_nodeIds (h : Linked defs t) {x : String} {n : Node}
    {path : List (ParentLink × Node)} (hn : t.nodes.get? x = some n) (hc : t.Climbs n path) :
    ((path.map Prod.fst).map ParentLink.nodeId).Nodup := by
  have hown : t.nodes.get? n.id = some n := by rw [h.ownId hn]; exact hn
  rw [h.map_nodeId hc]
  exact (List.nodup_cons.mp (h.nodup_path hc hown)).2

/-- Either no link on the way up names the node of the output, or one does, and the node shows the
output to the slot of this link. -/
theorem Linked.visibleOutput_cases (h : Linked defs t) {x : String} {n : Node}
    {path : List (ParentLink × Node)} (hn : t.nodes.get? x = some n) (hc : t.Climbs n path)
    (ancestorId outputName : String) :
    (t.visibleOutput x ancestorId outputName = .error (.notAnAncestor ancestorId) ∧
      ∀ link ∈ path.map Prod.fst, link.nodeId ≠ ancestorId) ∨
    ∃ link ∈ path.map Prod.fst, link.nodeId = ancestorId ∧ ∃ p, t.nodes.get? ancestorId = some p ∧
      Shows p link.slotName outputName (t.visibleOutput x ancestorId outputName) := by
  rw [h.visibleOutput_eq hn hc]
  rcases outputOn_cases ancestorId outputName path with
    ⟨hout, hnone⟩ | ⟨⟨link, p⟩, hmem, hid, hshows⟩
  · refine .inl ⟨hout, fun link hlink hid => ?_⟩
    obtain ⟨⟨link, p⟩, hmem, rfl⟩ := List.mem_map.mp hlink
    exact hnone _ hmem ((h.ownId (hc.get?_of_mem hmem)).trans hid)
  · have hp := hc.get?_of_mem hmem
    have hlink : link.nodeId = ancestorId := (h.ownId hp).symm.trans hid
    exact .inr ⟨link, List.mem_map_of_mem hmem, hlink, p, hlink ▸ hp, hshows⟩

/-- What is seen of an output from a node with the given links from the root. -/
structure Sees (t : Tree) (links : List ParentLink) (ancestorId outputName : String)
    (seen : Except ExpressionError ValueType) : Prop where
  /-- The node of the output is no ancestor exactly if no link names it. -/
  apart : seen = .error (.notAnAncestor ancestorId) ↔ ∀ link ∈ links, link.nodeId ≠ ancestorId
  /-- Otherwise one link names it, and what it shows to the slot of this link is seen. -/
  above : ∀ link ∈ links, link.nodeId = ancestorId →
    (links.map ParentLink.nodeId).count ancestorId = 1 ∧
      ∃ p, t.nodes.get? ancestorId = some p ∧ Shows p link.slotName outputName seen

theorem Linked.sees (h : Linked defs t) {x : String} {n : Node} {path : List (ParentLink × Node)}
    (hn : t.nodes.get? x = some n) (hc : t.Climbs n path) (ancestorId outputName : String) :
    t.Sees (path.map Prod.fst).reverse ancestorId outputName
      (t.visibleOutput x ancestorId outputName) where
  apart := by
    simp only [List.mem_reverse]
    rcases h.visibleOutput_cases hn hc ancestorId outputName with
      ⟨hseen, hnone⟩ | ⟨link, hmem, hid, p, -, hshows⟩
    · exact iff_of_true hseen hnone
    · refine iff_of_false (fun hseen => ?_) fun hnone => hnone link hmem hid
      rw [hseen] at hshows
      cases hshows
  above link hmem hid := by
    rw [List.mem_reverse] at hmem
    have hnodup := h.nodup_nodeIds hn hc
    rcases h.visibleOutput_cases hn hc ancestorId outputName with
      ⟨-, hnone⟩ | ⟨link', hmem', hid', p, hp, hshows⟩
    · exact absurd hid (hnone link hmem)
    · -- the link that names the node is the one that the look-up has found
      have hsame : link' = link := List.inj_on_of_nodup_map hnodup hmem' hmem (hid'.trans hid.symm)
      subst hsame
      refine ⟨?_, p, hp, hshows⟩
      rw [List.map_reverse, List.count_reverse]
      exact List.count_eq_one_of_mem hnodup (hid ▸ List.mem_map_of_mem hmem)

end Tree

namespace Document

/-- In every run of an empty document, what an expression on a node gets for an output is what is
seen of it along the links of the node. -/
theorem sees_run (name : String) (defs : Definitions) (config : DocumentConfig)
    (calls : List Call) {x : String}
    (hx : ((Document.new name defs config).run calls).tree.has x = true)
    (ancestorId outputName : String) :
    ∃ links, ((Document.new name defs config).run calls).tree.ancestorLinks x = .ok links ∧
      ((Document.new name defs config).run calls).tree.Sees links ancestorId outputName
        ((((Document.new name defs config).run calls).tree.context defs x).outputType
          ancestorId outputName) := by
  have h := (valid_run name defs config calls).linked
  obtain ⟨n, hn⟩ := Tree.has_eq_true_iff.mp hx
  obtain ⟨path, hpath⟩ := h.climbs hn
  exact ⟨_, h.ancestorLinks_eq hn hpath, h.sees hn hpath ancestorId outputName⟩

/-- One type of nodes: frames with a header and items; all below a frame see its size, and only the
items see what is the item. -/
def frameDefinitions : Definitions where
  nodes := [⟨(((({ name := "Frame" : Declaration }.withSlot "header").withCollectionSlot "items"
    []).withOutput "size" .number).withSlotOutput "item" .string "items"), by decide⟩]

/-- A frame in the header of a frame that is an item of a third one. -/
def frameCalls : List Call :=
  [.apply 0 (.createNode "Frame" none (some "top")),
    .apply 0 (.createNode "Frame" (some ⟨"top", "items", none⟩) (some "inner")),
    .apply 0 (.createNode "Frame" (some ⟨"inner", "header", none⟩) (some "leaf"))]

/-- From the frame at the bottom the item of the outermost frame is seen, for the way down goes
through its items; that of the frame in between is not, for there it goes through the header. -/
theorem sees_run_frameCalls :
    let t := ((Document.new "frames" frameDefinitions).run frameCalls).tree
    let links : List ParentLink := [⟨"top", "items", some 0⟩, ⟨"inner", "header", none⟩]
    let seen := (t.context frameDefinitions "leaf").outputType
    t.has "leaf" = true ∧ t.ancestorLinks "leaf" = .ok links ∧
      (∀ ancestorId outputName, t.Sees links ancestorId outputName (seen ancestorId outputName)) ∧
      seen "top" "item" = .ok .string ∧
      seen "inner" "item" = .error (.outputNotExposed "inner" "item") ∧
      seen "inner" "tone" = .error (.schema (.unknownOutput "Frame" "tone")) ∧
      seen "leaf" "size" = .error (.notAnAncestor "leaf") := by
  intro t links seen
  have hleaf : t.has "leaf" = true := by decide +kernel
  have hlinks : t.ancestorLinks "leaf" = .ok links := rfl
  refine ⟨hleaf, hlinks, fun ancestorId outputName => ?_, rfl, rfl, rfl, rfl⟩
  obtain ⟨links', hlinks', hsees⟩ :=
    sees_run "frames" frameDefinitions {} frameCalls hleaf ancestorId outputName
  cases hlinks.symm.trans hlinks'
  exact hsees

end Document

end SlotTree
