import SlotTree.Listing.Data
import SlotTree.Proofs.Document.Changes
import SlotTree.Proofs.Expression.Recovery
import SlotTree.Proofs.Node.Enumeration
import SlotTree.Proofs.Undo.Regrowth

/-!
# What the listing of a document shows

The listing of a document shows of every node its id, its type, its place and the expressions bound
in it.  It does not show what the slots hold, nor the types of the expressions.  Both can be found
again: a slot holds whatever has its place there, and the types are those that the check finds.  So
nothing is lost.

## Main definitions

* `Node.ListedAs` — nodes that are listed with the same data.
* `Node.Matches`, `Tree.Matches` — nodes and trees that are the same, numbers compared by value.
* `Document.sameListing` — whether two listings show the same root and the same nodes.

## Main results

* `Node.listedAs_of_same` — nodes are listed with the same data only if they are alike.
* `Tree.Linked.slots_eq` — what the slots hold is known by the places of the nodes.
* `Document.matches_of_sameListing_run` — documents with the same listing are the same.
-/

namespace SlotTree

open Json

/-! ### What a slot holds -/

/-- What a slot holds is known by its kind and the child at each position. -/
theorem SlotContent.ext_child? {a b : SlotContent} (hkind : a.isCollection = b.isCollection)
    (h : ∀ i, a.child? i = b.child? i) : a = b := by
  cases a with
  | single child =>
    cases b with
    | single child' => exact congrArg single (h none)
    | collection _ => cases hkind
  | collection ids =>
    cases b with
    | single _ => cases hkind
    | collection ids' => exact congrArg collection (List.ext_getElem? fun i => h (some i))

/-- The slots of a node are known by its schema and the child at each place. -/
theorem Node.FitsSchema.ext_child? {m n : Node} (hm : m.FitsSchema) (hn : n.FitsSchema)
    (hschema : m.schema = n.schema) (h : ∀ s i, m.child? s i = n.child? s i) :
    m.slots = n.slots := by
  refine OrderedMap.ext_keys (by rw [hm.keys, hn.keys, hschema]) fun s => ?_
  cases hs : m.slots.get? s with
  | none =>
    cases hs' : n.slots.get? s with
    | none => rfl
    | some content' =>
      obtain ⟨decl, hdecl⟩ := hn.decl_of_slot hs'
      obtain ⟨content, hcontent⟩ := hm.slot_of_decl (hschema ▸ hdecl)
      rw [hs] at hcontent
      cases hcontent
  | some content =>
    obtain ⟨decl, hdecl⟩ := hm.decl_of_slot hs
    obtain ⟨content', hs'⟩ := hn.slot_of_decl (hschema ▸ hdecl)
    have hkind : content.isCollection = content'.isCollection :=
      (hm.kind _ _ _ hs hdecl).trans (hn.kind _ _ _ hs' (hschema ▸ hdecl)).symm
    rw [hs', SlotContent.ext_child? hkind fun i => ?_]
    rw [← Node.child?_of_get? hs, ← Node.child?_of_get? hs', h]

/-! ### The data of a node -/

/-- Two nodes are the same, numbers compared by value. -/
structure Node.Matches (m n : Node) : Prop where
  /-- The schemas are the same. -/
  schema : m.schema = n.schema
  /-- The ids are the same. -/
  id : m.id = n.id
  /-- The places are the same. -/
  parent : m.parent = n.parent
  /-- The slots hold the same children, in the same order. -/
  slots : m.slots = n.slots
  /-- The same keys are bound, to expressions that are the same, with the same types. -/
  bindings : ∀ key, Option.Rel TypedExpression.Matches (m.inputs.get? key) (n.inputs.get? key)

/-- Two nodes are listed with the same data: id, type, place, and the expressions bound in them. -/
structure Node.ListedAs (m n : Node) : Prop where
  /-- The ids are the same. -/
  id : m.id = n.id
  /-- The types are the same. -/
  nodeType : m.nodeType = n.nodeType
  /-- The places are the same. -/
  parent : m.parent = n.parent
  /-- The same keys are bound, to expressions with the same data. -/
  bindings : ∀ key, Option.Rel (fun e f => Same e.erase.encode f.erase.encode)
    (m.inputs.get? key) (n.inputs.get? key)

/-- Places with the same data are the same, if their positions fit into 32 bits. -/
theorem ParentLink.eq_of_same {a b : ParentLink} (ha : ∀ i, a.index = some i → i < UInt32.size)
    (hb : ∀ i, b.index = some i → i < UInt32.size) (h : Same a.data b.data) : a = b := by
  have hlt : ∀ {i}, i < UInt32.size → i < UInt64.size := fun hi => Nat.lt_trans hi (by decide)
  have hindex := h.field (by simp) (by simp) "index" rfl rfl
  refine ParentLink.ext (same_string_iff.mp (h.field (by simp) (by simp) "nodeId" rfl rfl))
    (same_string_iff.mp (h.field (by simp) (by simp) "slotName" rfl rfl))
    (hindex.optional_inj (fun i hi => natural_ne_null (hlt (ha i hi)))
      (fun i hi => natural_ne_null (hlt (hb i hi))) fun i hi j hj hij => ?_)
  exact (same_natural_iff (hlt (ha i hi)) (hlt (hb j hj))).mp hij

namespace Node

variable {m n : Node}

/-- What is listed of the bindings of a tidy node, under each key. -/
theorem Tidy.lookup_boundInputs (h : n.Tidy) (key : String) :
    List.lookup key (n.boundInputs.map fun b => (b.1.key, b.2.erase.encode)) =
      (n.inputs.get? key).map fun e => e.erase.encode := by
  have hnodup : ((n.boundInputs.map fun b => (b.1.key, b.2)).map Prod.fst).Nodup := by
    rw [List.map_map]
    exact n.nodup_keys_boundInputs
  have hget : List.lookup key (n.boundInputs.map fun b => (b.1.key, b.2)) = n.inputs.get? key := by
    refine Option.ext fun e => ?_
    rw [← SortedMap.mem_entries_iff, ← h.perm_boundInputs.mem_iff]
    exact ⟨mem_of_lookup, lookup_eq_some_of_mem hnodup⟩
  rw [← hget, ← lookup_map fun _ (e : TypedExpression) => e.erase.encode, List.map_map]
  rfl

theorem id_eq_of_same (h : Same m.data n.data) : m.id = n.id :=
  same_string_iff.mp (h.field (by simp) (by simp) "id" rfl rfl)

/-- Tidy nodes with the same data are listed alike, if the positions of their places fit into
32 bits. -/
theorem listedAs_of_same (hm : m.Tidy) (hn : n.Tidy)
    (hplace : ∀ link, m.parent = some link → ∀ i, link.index = some i → i < UInt32.size)
    (hplace' : ∀ link, n.parent = some link → ∀ i, link.index = some i → i < UInt32.size)
    (h : Same m.data n.data) : m.ListedAs n where
  id := id_eq_of_same h
  nodeType := same_string_iff.mp (h.field (by simp) (by simp) "type" rfl rfl)
  parent := by
    have hparent := h.field (by simp) (by simp) "parent" rfl rfl
    have hdata : ∀ link : ParentLink, link.data ≠ .null := fun _ => nofun
    exact hparent.optional_inj (fun a _ => hdata a) (fun b _ => hdata b)
      fun a ha b hb => ParentLink.eq_of_same (hplace a ha) (hplace' b hb)
  bindings key := by
    have hinputs := h.field (by simp) (by simp) "inputs" rfl rfl
    have hnodup : ∀ n : Node,
        ((n.boundInputs.map fun b => (b.1.key, b.2.erase.encode)).map Prod.fst).Nodup := by
      intro n
      rw [List.map_map]
      exact n.nodup_keys_boundInputs
    have hrel := hinputs.fields (hnodup m) (hnodup n) key
    rw [hm.lookup_boundInputs, hn.lookup_boundInputs] at hrel
    exact rel_of_rel_map hrel

end Node

/-! ### The listing of a tree -/

namespace Tree

variable {defs : Definitions} {t u : Tree}

/-- No look-up of a listing fails. -/
theorem Linked.mapM_node_keys (h : Linked defs t) : t.keys.mapM t.node = .ok t.listing := by
  have hall : ∀ ids : List String, (∀ id ∈ ids, ∃ n, t.nodes.get? id = some n) →
      ids.mapM t.node = .ok (ids.filterMap t.nodes.get?) := by
    intro ids
    induction ids with
    | nil => exact fun _ => rfl
    | cons id rest ih =>
      intro hids
      obtain ⟨n, hn⟩ := hids id List.mem_cons_self
      rw [List.mapM_cons, node_eq_ok_iff.mpr hn, Outcome.ok_bind,
        ih fun id hid => hids id (List.mem_cons_of_mem _ hid), List.filterMap_cons_some hn]
      rfl
  exact hall t.keys fun id => h.mem_keys_iff.mp

/-- The nodes of the listing are those of the tree. -/
theorem Linked.mem_listing_iff (h : Linked defs t) {n : Node} :
    n ∈ t.listing ↔ t.nodes.get? n.id = some n := by
  rw [listing, List.mem_filterMap]
  constructor
  · rintro ⟨id, -, hn⟩
    rw [h.ownId hn, hn]
  · exact fun hn => ⟨n.id, h.mem_keys_iff.mpr ⟨n, hn⟩, hn⟩

/-- Every item of a list is related to one of the other list. -/
theorem exists_mem_of_forall₂ {α β : Type} {R : α → β → Prop} {as : List α} {bs : List β}
    (h : List.Forall₂ R as bs) {a : α} (ha : a ∈ as) : ∃ b ∈ bs, R a b := by
  induction h with
  | nil => cases ha
  | cons hab _ ih =>
    rcases List.mem_cons.mp ha with rfl | ha
    · exact ⟨_, List.mem_cons_self, hab⟩
    · obtain ⟨b, hb, hab⟩ := ih ha
      exact ⟨b, List.mem_cons_of_mem _ hb, hab⟩

/-- Nodes that stand in the same order in two listings stand under the same ids, if a relation
between them keeps the id. -/
theorem Linked.rel_get?_of_listing {R : Node → Node → Prop} (h : Linked defs t)
    (h' : Linked defs u) (hid : ∀ m n, R m n → m.id = n.id)
    (hrel : List.Forall₂ R t.listing u.listing) (id : String) :
    Option.Rel R (t.nodes.get? id) (u.nodes.get? id) := by
  cases hm : t.nodes.get? id with
  | some m =>
    have hlisted : m ∈ t.listing := h.mem_listing_iff.mpr (by rw [h.ownId hm, hm])
    obtain ⟨n, hn, hmn⟩ := exists_mem_of_forall₂ hrel hlisted
    rw [h'.mem_listing_iff, ← hid m n hmn, h.ownId hm] at hn
    rw [hn]
    exact .some hmn
  | none =>
    cases hn : u.nodes.get? id with
    | none => exact .none
    | some n =>
      have hlisted : n ∈ u.listing := h'.mem_listing_iff.mpr (by rw [h'.ownId hn, hn])
      obtain ⟨m, hmem, hmn⟩ := exists_mem_of_forall₂ hrel.flip hlisted
      rw [h.mem_listing_iff, hid m n hmn, h'.ownId hn, hm] at hmem
      cases hmem

/-! ### Trees that are listed alike -/

/-- At a place stands the node whose link names it. -/
theorem Linked.child?_eq_some_iff_parent (h : Linked defs t) {x s c : String} {i : Option Nat}
    {p : Node} (hp : t.nodes.get? x = some p) :
    p.child? s i = some c ↔ (t.nodes.get? c).bind Node.parent = some ⟨x, s, i⟩ := by
  rw [Option.bind_eq_some_iff]
  constructor
  · exact h.down hp
  · rintro ⟨n, hn, hlink⟩
    obtain ⟨q, hq, hc⟩ := h.up hn hlink
    rw [hp, Option.some.injEq] at hq
    rw [hq]
    exact hc

/-- What the slots hold is known by the places of the nodes. -/
theorem Linked.slots_eq (h : Linked defs t) (h' : Linked defs u)
    (hparent : ∀ c, (t.nodes.get? c).bind Node.parent = (u.nodes.get? c).bind Node.parent)
    {x : String} {m n : Node} (hm : t.nodes.get? x = some m) (hn : u.nodes.get? x = some n)
    (hschema : m.schema = n.schema) : m.slots = n.slots := by
  refine (h.fits hm).ext_child? (h'.fits hn) hschema fun s i => Option.ext fun c => ?_
  rw [h.child?_eq_some_iff_parent hm, h'.child?_eq_some_iff_parent hn, hparent]

/-- The schema of a node is known by its type. -/
theorem Linked.schema_eq (h : Linked defs t) (h' : Linked defs u) {x y : String} {m n : Node}
    (hm : t.nodes.get? x = some m) (hn : u.nodes.get? y = some n)
    (htype : m.nodeType = n.nodeType) : m.schema = n.schema := by
  have hknown := h.known hm
  rw [htype, h'.known hn, Except.ok.injEq] at hknown
  exact hknown.symm

/-- Trees whose nodes are listed alike have the same ways up. -/
theorem Linked.carries_of_listedAs (h : Linked defs t) (h' : Linked defs u)
    (hall : ∀ x, Option.Rel Node.ListedAs (t.nodes.get? x) (u.nodes.get? x)) :
    Carries t u id (fun _ => True) where
  node := by
    intro x m _ hm
    obtain ⟨n, hn, hmn⟩ := exists_of_rel (hall x) hm
    refine ⟨n, hn, (h.schema_eq h' hm hn hmn.nodeType).symm, fun hnone => ?_, fun link hlink => ?_⟩
    · rw [← hmn.parent, hnone]
    · exact ⟨trivial, link, by rw [← hmn.parent, hlink], rfl, rfl⟩

/-- A binding of a valid tree gets its types again where the ways up are the same. -/
theorem Valid.resolve_carried (h : Valid defs t) (h' : Linked defs u)
    (hcar : Carries t u id fun _ => True) {x k : String} {m : Node} {e : TypedExpression}
    (hm : t.nodes.get? x = some m) (he : m.inputs.get? k = some e) :
    e.erase.resolve (u.context defs x) = .ok e := by
  obtain ⟨a, -, -, hok⟩ := h.bound hm he
  obtain ⟨n, hn, hschema, -⟩ := hcar.node trivial hm
  have hok' := hcar.checkInput_id h.linked h' trivial hm (h'.ownId hn) hschema hok
  obtain ⟨decl, -, hcheck⟩ := checkInput_eq_ok_iff.mp hok'
  rw [h'.ownId hn] at hcheck
  exact (Expression.check_eq_ok_iff.mp hcheck).1

/-- Two trees are the same, numbers compared by value. -/
structure Matches (t u : Tree) : Prop where
  /-- The roots are the same. -/
  root : t.root = u.root
  /-- The same ids are in use, for nodes that are the same. -/
  node : ∀ x, Option.Rel Node.Matches (t.nodes.get? x) (u.nodes.get? x)

/-- Valid trees whose nodes are listed alike are the same. -/
theorem Valid.matches_of_listedAs (h : Valid defs t) (h' : Valid defs u) (hroot : t.root = u.root)
    (hall : ∀ x, Option.Rel Node.ListedAs (t.nodes.get? x) (u.nodes.get? x)) : t.Matches u where
  root := hroot
  node := by
    have hparent : ∀ {a b : Option Node}, Option.Rel Node.ListedAs a b →
        a.bind Node.parent = b.bind Node.parent := by
      rintro _ _ (h | _)
      · exact h.parent
      · rfl
    -- the second tree finds its own types again, and those of the first tree, too
    have hcar := h.linked.carries_of_listedAs h'.linked hall
    have hself : Carries u u id fun _ => True :=
      ⟨fun _ hn => ⟨_, hn, rfl, id, fun link hlink => ⟨trivial, link, hlink, rfl, rfl⟩⟩⟩
    intro x
    refine rel_imp (hall x) fun m hm n hn hmn => ?_
    have hschema := h.linked.schema_eq h'.linked hm hn hmn.nodeType
    exact
      { schema := hschema
        id := hmn.id
        parent := hmn.parent
        slots := h.linked.slots_eq h'.linked (fun c => hparent (hall c)) hm hn hschema
        bindings := fun key => rel_imp (hmn.bindings key) fun e he f hf hef =>
          Expression.matches_of_same (h.resolve_carried h'.linked hcar hm he)
            (h'.resolve_carried h'.linked hself hn hf) hef }

end Tree

/-! ### Documents -/

namespace Document

/-- Whether the listings of two documents can be made, and show the same root and the same nodes. -/
def sameListing (doc doc' : Document) : Bool :=
  match doc.data, doc'.data with
  | .ok v, .ok w => sameField "rootId" v.json w.json && sameField "nodes" v.json w.json
  | _, _ => false

/-- The listing of a document with a linked tree can be made. -/
theorem data_eq_ok {defs : Definitions} {doc : Document} (h : Tree.Linked defs doc.tree) :
    doc.data = .ok (Json.freeForm (.object [("name", .string doc.name),
      ("version", .natural doc.version), ("rootId", Json.optional Json.string doc.tree.root),
      ("nodes", .array (doc.tree.listing.map Node.data))])) := by
  rw [data, h.mapM_node_keys]
  rfl

/-- Documents with valid trees and the same listing have the same nodes. -/
theorem matches_of_sameListing {defs : Definitions} {doc doc' : Document}
    (h : Tree.Valid defs doc.tree) (h' : Tree.Valid defs doc'.tree) (hsmall : doc.tree.Small)
    (hsmall' : doc'.tree.Small) (hsame : doc.sameListing doc' = true) :
    doc.tree.Matches doc'.tree := by
  rw [sameListing, data_eq_ok h.linked, data_eq_ok h'.linked] at hsame
  obtain ⟨hroot, hnodes⟩ := Bool.and_eq_true_iff.mp hsame
  rw [sameField_freeForm_iff (by simp) (by simp) rfl rfl] at hroot hnodes
  rw [same_array_iff, List.forall₂_map_left_iff, List.forall₂_map_right_iff] at hnodes
  have hstring : ∀ s : String, Json.string s ≠ .null := fun _ => nofun
  refine h.matches_of_listedAs h' (hroot.optional_inj (fun x _ => hstring x)
    (fun y _ => hstring y) fun _ _ _ _ => same_string_iff.mp) fun x => ?_
  have hrel := h.linked.rel_get?_of_listing h'.linked (fun _ _ => Node.id_eq_of_same) hnodes x
  exact rel_imp hrel fun m hm n hn =>
    Node.listedAs_of_same (h.bound.tidy hm) (h'.bound.tidy hn)
      (fun _ => hsmall.index_lt h.linked hm) fun _ => hsmall'.index_lt h'.linked hn

/-- In all runs over the same definitions, listings can be made, and documents with the same root
and the same nodes in their listings have the same root and the same nodes: types, places, children
in order and bindings with their types, numbers compared by value. -/
theorem matches_of_sameListing_run (name name' : String) (defs : Definitions)
    (config config' : DocumentConfig) (calls calls' : List Call)
    (hsmall : ((Document.new name defs config).run calls).tree.Small)
    (hsmall' : ((Document.new name' defs config').run calls').tree.Small) :
    let doc := (Document.new name defs config).run calls
    let doc' := (Document.new name' defs config').run calls'
    (∃ v, doc.data = .ok v) ∧ (∃ w, doc'.data = .ok w) ∧
      (doc.sameListing doc' = true → doc.tree.Matches doc'.tree) := by
  intro doc doc'
  have h : Tree.Valid defs doc.tree := valid_run name defs config calls
  have h' : Tree.Valid defs doc'.tree := valid_run name' defs config' calls'
  exact ⟨⟨_, data_eq_ok h.linked⟩, ⟨_, data_eq_ok h'.linked⟩,
    matches_of_sameListing h h' hsmall hsmall'⟩

/-- The shelves are made in another order, and a label is set that is undone again. -/
def detourShelfCalls : List Call :=
  [.apply 0 (.createNode "Shelf" none (some "top")),
    .apply 0 (.createNode "Shelf" (some ⟨"top", "items", none⟩) (some "right")),
    .apply 0 (.createNode "Shelf" (some ⟨"top", "items", some 0⟩) (some "left")),
    .apply 0 (.setNodeInput "left" "label" none (some (.string "detour"))),
    .undo,
    .apply 0 (.setNodeInput "right" "label" none (some (.output "top" "tone" [])))]

/-- The shelves come out the same, for their listings do. -/
theorem matches_run_detourShelfCalls :
    let doc := (Document.new "shelves" shelfDefinitions).run shelfCalls
    let doc' := (Document.new "detour" shelfDefinitions).run detourShelfCalls
    doc.tree.Small ∧ doc'.tree.Small ∧ doc.version ≠ doc'.version ∧
      doc.sameListing doc' = true ∧ doc.tree.Matches doc'.tree := by
  intro doc doc'
  have hsmall : doc.tree.Small := by decide +kernel
  have hsmall' : doc'.tree.Small := by decide +kernel
  have hsame : doc.sameListing doc' = true := by decide +kernel
  obtain ⟨-, -, hmatches⟩ := matches_of_sameListing_run "shelves" "detour" shelfDefinitions {} {}
    shelfCalls detourShelfCalls hsmall hsmall'
  exact ⟨hsmall, hsmall', by decide +kernel, hsame, hmatches hsame⟩

end Document

end SlotTree
