import SlotTree.Proofs.Document.Acceptance

/-!
# Generated ids

A new node for which no id is given gets one: the last segment of the name of its type, and the
smallest positive number that makes an id not in use.  Where the ids in use come from does not
matter: some may have been generated before, for this type or for one whose name ends in digits, and
others given or changed to look like generated ones.  A node without an id is never refused for the
id that it gets, and takes the place of no other.

## Main definitions

* `NodeSchema.IsLastSegment` — what follows the last pair of colons in a name.
* `Tree.Adds` — a tree before and after a new node.
* `DocumentError.OfPlace` — an error that is about the place of a new node.
* `Document.Generates` — a document gives new nodes of a type an id with some number.

## Main results

* `NodeSchema.isLastSegment_idStem` — what generated ids begin with.
* `Draft.adds_of_create`, `Draft.ofPlace_of_create` — what comes of creating a node whose id is not
  in use.
* `Document.generates_run` — in every run of a document, for every type of nodes, ids are generated.
-/

namespace SlotTree

/-! ### Last segments -/

namespace NodeSchema

/-- A segment is what follows the last pair of colons in a name, or the whole name, if it has no
such pair.  Of three colons in a row the last two are the last pair. -/
def IsLastSegment (name segment : List Char) : Prop :=
  (∃ before, name = before ++ ':' :: ':' :: segment ∧ ¬ [':', ':'] <:+: ':' :: segment) ∨
    (segment = name ∧ ¬ [':', ':'] <:+: name)

/-- What is left of a text: the segment behind its last pair of colons, or the segment from before,
if it has no such pair. -/
theorem lastSegment_cases (segment cs : List Char) :
    (∃ before, cs = before ++ ':' :: ':' :: lastSegment segment cs ∧
      ¬ [':', ':'] <:+: ':' :: lastSegment segment cs) ∨
    (lastSegment segment cs = segment ∧ ¬ [':', ':'] <:+: cs) := by
  induction cs generalizing segment with
  | nil => exact .inr ⟨rfl, by simp⟩
  | cons c cs ih =>
    by_cases hpair : ∃ rest, c = ':' ∧ cs = ':' :: rest
    · obtain ⟨rest, rfl, rfl⟩ := hpair
      rw [lastSegment]
      -- a pair begins here; it is the last one, unless there is another one further on
      rcases ih rest with ⟨before, hcs, hnone⟩ | ⟨heq, hnone⟩
      · exact .inl ⟨':' :: before, congrArg (':' :: ·) hcs, hnone⟩
      · exact .inl ⟨[], by rw [heq]; rfl, by rw [heq]; exact hnone⟩
    · have hskip : lastSegment segment (c :: cs) = lastSegment segment cs := by
        rw [lastSegment]
        exact fun rest hc hcs => hpair ⟨rest, hc, hcs⟩
      rw [hskip]
      rcases ih segment with ⟨before, hcs, hnone⟩ | ⟨heq, hnone⟩
      · exact .inl ⟨c :: before, congrArg (c :: ·) hcs, hnone⟩
      · refine .inr ⟨heq, fun hinfix => ?_⟩
        rcases List.infix_cons_iff.mp hinfix with ⟨rest, hrest⟩ | hinfix
        · simp only [List.cons_append, List.nil_append, List.cons.injEq] at hrest
          exact hpair ⟨rest, hrest.1.symm, hrest.2.symm⟩
        · exact hnone hinfix

/-- Generated ids begin with the last segment of the name of the type. -/
theorem isLastSegment_idStem (s : NodeSchema) :
    IsLastSegment s.name.toList s.idStem.toList := by
  rw [idStem, String.toList_ofList]
  exact lastSegment_cases s.name.toList s.name.toList

end NodeSchema

namespace Tree

variable {defs : Definitions} {t t' : Tree}

/-! ### New nodes -/

/-- A new node has come to a tree, and no other has gone. -/
structure Adds (t t' : Tree) (schema : NodeSchema) (parent : Option PatchParent) (c : String) :
    Prop where
  /-- Its id was not in use. -/
  unused : t.nodes.get? c = none
  /-- It has neither children nor bindings, and hangs in the slot that was asked for. -/
  created : ∃ link, t'.nodes.get? c = some (.empty schema c link) ∧
    link.map (fun l => (l.nodeId, l.slotName)) = parent.map fun p => (p.nodeId, p.slotName)
  /-- Every node from before is there, of the same type. -/
  kept : ∀ {x n}, t.nodes.get? x = some n →
    ∃ n', t'.nodes.get? x = some n' ∧ n'.id = n.id ∧ n'.schema = n.schema
  /-- If it is not the parent, then it is the same but for its place. -/
  same : ∀ {x n}, t.nodes.get? x = some n → (∀ p, parent = some p → p.nodeId ≠ x) →
    ∃ link, t'.nodes.get? x = some { n with parent := link }
  /-- There is no other node. -/
  only : ∀ {x}, x ≠ c → t.nodes.get? x = none → t'.nodes.get? x = none

/-- The root of an empty tree comes to it. -/
theorem adds_alone (schema : NodeSchema) (c : String) : Adds {} (alone schema c) schema none c where
  unused := rfl
  created := ⟨none, by rw [get?_alone, if_pos rfl], rfl⟩
  kept hn := by cases hn
  same hn := by cases hn
  only hne _ := by rw [get?_alone, if_neg (Ne.symm hne)]

/-- A child comes to a tree. -/
theorem Grows.adds {schema : NodeSchema} {p : Node} {content : SlotContent} {parent : PatchParent}
    {index : Option Nat} {c : String}
    (h : Grows defs t t' schema p parent.slotName content index c) (hid : p.id = parent.nodeId) :
    Adds t t' schema (some parent) c where
  unused := h.unused
  created := ⟨_, h.child, by rw [hid]; rfl⟩
  kept := by
    intro x n hn
    have hxc : x ≠ c := SortedMap.ne_of_get? hn h.unused
    by_cases hxp : x = p.id
    · subst hxp
      rw [h.before, Option.some.injEq] at hn
      exact ⟨_, h.after, by rw [← hn]; rfl, by rw [← hn]; rfl⟩
    · rw [h.others x hxc hxp, hn]
      exact ⟨_, rfl, Node.id_settle _ _, Node.schema_settle _ _⟩
  same := by
    intro x n hn hparent
    have hxc : x ≠ c := SortedMap.ne_of_get? hn h.unused
    have hxp : x ≠ p.id := fun heq => hparent parent rfl (hid.symm.trans heq.symm)
    rw [h.others x hxc hxp, hn]
    exact ⟨_, congrArg some (n.settle_eq _)⟩
  only := by
    intro x hxc hnone
    have hxp : x ≠ p.id := (SortedMap.ne_of_get? h.before hnone).symm
    rw [h.others x hxc hxp, hnone]
    rfl

end Tree

/-! ### What an edit does, and why it is refused -/

/-- An error is about the place of a new node: without a parent there are nodes already; a parent
does not exist, or refuses the child. -/
def DocumentError.OfPlace (e : DocumentError) : Option PatchParent → Prop
  | none => e = .documentNotEmpty
  | some parent => e = .nodeNotFound parent.nodeId ∨ ∃ error, e = .node error

namespace Draft

variable {defs : Definitions} {d : Draft} {nodeType c : String} {schema : NodeSchema}
  {parent : Option PatchParent}

/-- What is created in a linked tree comes to it. -/
theorem adds_of_create {d' : Draft} (h : Tree.Linked defs d.tree)
    (hs : defs.node nodeType = .ok schema) (hd : d.create defs nodeType parent c = .ok d') :
    d.tree.Adds d'.tree schema parent c := by
  cases parent with
  | none =>
    obtain ⟨schema', hs', hempty, htree⟩ := (create_root_eq_ok_iff h).mp ⟨d', hd, rfl⟩
    rw [hs, Except.ok.injEq] at hs'
    subst hs'
    rw [htree, hempty]
    exact Tree.adds_alone schema c
  | some parent =>
    obtain ⟨schema', p, content, hs', hc, hp, hslot, ha⟩ := create_child_inv hd
    rw [hs, Except.ok.injEq] at hs'
    subst hs'
    obtain ⟨e, he, hgrows⟩ := create_child_eq_ok h parent hs hc hp hslot ha
    rw [hd, Except.ok.injEq] at he
    subst he
    exact hgrows.adds (h.ownId hp)

/-- A new node of a known type with an id that is not in use is refused for its place alone. -/
theorem ofPlace_of_create {e : DocumentError} (h : Tree.Linked defs d.tree)
    (hs : defs.node nodeType = .ok schema) (hc : d.tree.nodes.get? c = none)
    (he : d.create defs nodeType parent c = .error e) : e.OfPlace parent := by
  have hvacant : ¬ d.tree.Vacant parent := by
    intro hvacant
    obtain ⟨d', hd'⟩ := (create_eq_ok_iff h).mpr ⟨⟨schema, hs⟩, hc, hvacant⟩
    rw [hd'] at he
    cases he
  unfold create at he
  rw [hs, Outcome.ok_mapError, Outcome.ok_bind, Tree.has_eq_false_iff.mpr hc] at he
  simp only [Bool.false_eq_true, if_false] at he
  cases parent with
  | none =>
    dsimp only at he
    split at he
    · exact (Except.error.inj he).symm
    · cases he
  | some parent =>
    dsimp only at he
    cases hp : d.tree.nodes.get? parent.nodeId with
    | none =>
      rw [Tree.node, hp] at he
      exact .inl (Except.error.inj he).symm
    | some p =>
      rw [Tree.node_eq_ok_iff.mpr hp, Outcome.ok_bind] at he
      cases hr : p.addChild c parent.slotName (parent.index.map UInt32.toNat) with
      | error error =>
        rw [hr] at he
        exact .inr ⟨error, (Except.error.inj he).symm⟩
      | ok r =>
        -- a parent that takes the child is a place for it
        obtain ⟨content, hslot, hadmits, -⟩ := Node.addChild_eq_ok_iff.mp hr
        exact absurd ⟨p, content, hp, hslot, hadmits⟩ hvacant

end Draft

namespace Document

variable {doc : Document} {nodeType : String} {schema : NodeSchema}

/-! ### Documents -/

/-- A document gives new nodes of a type an id with some number.  Whether they are accepted is a
matter of their place alone. -/
structure Generates (doc : Document) (nodeType : String) (schema : NodeSchema) (n : Nat) :
    Prop where
  /-- The id begins with the last segment of the name of the type. -/
  stem : NodeSchema.IsLastSegment nodeType.toList schema.idStem.toList
  /-- The search for the number begins with one, and ends with it. -/
  search : doc.tree.Search schema.idStem 1 n
  /-- It is the smallest positive number that makes an id not in use. -/
  least : IsLeast {k | 1 ≤ k ∧ doc.tree.nodes.get? (schema.idStem ++ toString k) = none} n
  /-- It is at most one more than there are nodes. -/
  bound : n ≤ doc.tree.size + 1
  /-- A patch that creates a node without an id gets the id. -/
  assigned : ∀ parent, doc.assignId (.createNode nodeType parent none) =
    .ok (.createNode nodeType parent (some (schema.idStem ++ toString n)))
  /-- It is accepted exactly if there is a place for the node. -/
  accepted : ∀ now parent, (∃ r, doc.apply now (.createNode nodeType parent none) = .ok r) ↔
    doc.tree.Vacant parent
  /-- If it is refused, then for the place and not for the id. -/
  refused : ∀ now parent e, doc.apply now (.createNode nodeType parent none) = .error e →
    e.OfPlace parent
  /-- If it is accepted, then the node comes to the tree under the id, and replaces no other. -/
  added : ∀ now parent r, doc.apply now (.createNode nodeType parent none) = .ok r →
    doc.tree.Adds r.1.tree schema parent (schema.idStem ++ toString n)

/-- A document with a valid tree generates an id for every type of nodes. -/
theorem exists_generates (h : Tree.Valid doc.definitions doc.tree)
    (hs : doc.definitions.node nodeType = .ok schema) : ∃ n, doc.Generates nodeType schema n := by
  obtain ⟨n, hbound, hid, hsearch⟩ := doc.tree.exists_search schema.idStem
  have hassigned : ∀ parent, doc.assignId (.createNode nodeType parent none) =
      .ok (.createNode nodeType parent (some (schema.idStem ++ toString n))) := by
    intro parent
    rw [assignId, hs, ← hid]
    rfl
  exact ⟨n, {
    stem := Definitions.name_of_node hs ▸ schema.isLastSegment_idStem
    search := hsearch
    least := hsearch.isLeast
    bound := hbound
    assigned := hassigned
    accepted := by
      intro now parent
      rw [exists_apply_eq_ok_iff h, Tree.Takes]
      simp [hs]
    refused := by
      intro now parent e he
      rw [apply, hassigned, Outcome.ok_bind, Tree.inverses, Outcome.ok_bind, Draft.apply] at he
      cases hd : Draft.create { tree := doc.tree } doc.definitions nodeType parent
        (schema.idStem ++ toString n) with
      | ok d =>
        rw [hd] at he
        cases he
      | error e' =>
        rw [hd] at he
        cases he
        exact Draft.ofPlace_of_create h.linked hs hsearch.isLeast.1.2 hd
    added := by
      intro now parent r hr
      obtain ⟨q, inverses, d, hq, -, hd, rfl⟩ := apply_eq_ok_iff.mp hr
      rw [hassigned, Except.ok.injEq] at hq
      subst hq
      exact Draft.adds_of_create (d := { tree := doc.tree }) h.linked hs hd }⟩

/-- In every run of an empty document, whatever ids have been given or generated before, it generates
an id for every type of nodes. -/
theorem generates_run (name : String) (defs : Definitions) (config : DocumentConfig)
    (calls : List Call) (hs : defs.node nodeType = .ok schema) :
    ∃ n, ((Document.new name defs config).run calls).Generates nodeType schema n := by
  refine exists_generates (valid_definitions_run name defs config calls) ?_
  rw [definitions_run]
  exact hs

/-- Boxes that hold any number of other nodes. -/
def crateSchema : NodeSchema :=
  ⟨{ name := "Box" : Declaration }.withCollectionSlot "items" [], by decide⟩

/-- Two types of nodes; what begins the ids of the second is an id of the first. -/
def crateDefinitions : Definitions where
  nodes := [crateSchema, ⟨{ name := "kit::Box1" }, by decide⟩]

/-- Two nodes for which the ids `Box1` and `Box11` are generated, and one that comes with the id
`Box3`; then the second is renamed to `Box2`. -/
def crateCalls : List Call :=
  [.apply 0 (.createNode "Box" none none),
    .apply 0 (.createNode "kit::Box1" (some ⟨"Box1", "items", none⟩) none),
    .apply 0 (.createNode "kit::Box1" (some ⟨"Box1", "items", none⟩) (some "Box3")),
    .apply 0 (.renameNode "Box11" "Box2")]

/-- After that the number of the next box is four. -/
theorem generates_run_crateCalls :
    crateDefinitions.node "Box" = .ok crateSchema ∧
      ((Document.new "crate" crateDefinitions).run crateCalls).Generates "Box" crateSchema 4 := by
  have hs : crateDefinitions.node "Box" = .ok crateSchema := by rfl
  obtain ⟨n, hn⟩ := generates_run "crate" crateDefinitions {} crateCalls hs
  have hused : ∀ k ∈ [1, 2, 3], ((Document.new "crate" crateDefinitions).run crateCalls).tree.has
      (crateSchema.idStem ++ toString k) = true := by decide +kernel
  have hfree : ((Document.new "crate" crateDefinitions).run crateCalls).tree.has
      (crateSchema.idStem ++ toString 4) = false := by decide +kernel
  simp only [List.forall_mem_cons, Tree.has_eq_true_iff] at hused
  obtain ⟨⟨_, h₁⟩, ⟨_, h₂⟩, ⟨_, h₃⟩, -⟩ := hused
  have hfour : n = 4 := hn.search.unique
    (.next h₁ (.next h₂ (.next h₃ (.found (Tree.has_eq_false_iff.mp hfree)))))
  subst hfour
  exact ⟨hs, hn⟩

end Document

end SlotTree
