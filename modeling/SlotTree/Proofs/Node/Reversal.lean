import SlotTree.Proofs.Node.Bindings

/-!
# Children that come and go

A child that comes to a place and goes from it again leaves no trace.  One that goes and comes back
to its place does: the bindings that were made for it are lost, and only those.

## Main results

* `Node.detach_attach` — a child that comes and goes leaves the node as it was.
* `Node.slots_attach_detach`, `Node.input?_attach_detach` — what is back with a child that comes
  back, and what is not.
-/

namespace SlotTree.Node

variable {n : Node} {slotName c : String} {content : SlotContent} {index k : Option Nat}

/-! ### A child that comes and goes -/

/-- A node that gets a child and loses it again is what it was. -/
theorem detach_attach (hf : n.FitsSchema) (ht : n.Tidy)
    (hs : n.slots.get? slotName = some content) (ha : content.Admits index) :
    (n.attach slotName content (content.place index) c).detach slotName
      (content.attach (content.place index) c) (content.place index) = n := by
  have hext := extends_attach hs ha c
  have hs' : (n.attach slotName content (content.place index) c).slots.get? slotName =
      some (content.attach (content.place index) c) := get?_slots_attach ..
  have hchild : (content.attach (content.place index) c).child? (content.place index) = some c :=
    (ha.extends_attach c).new
  have hslots : ((n.attach slotName content (content.place index) c).detach slotName
      (content.attach (content.place index) c) (content.place index)).slots = n.slots := by
    refine OrderedMap.ext_keys ?_ fun s => ?_
    · rw [detach, OrderedMap.keys_insert hs', hext.keys]
    · rw [detach, OrderedMap.get?_insert, SlotContent.detach_attach ha, attach,
        OrderedMap.get?_insert]
      split
      · next h => rw [← h, hs]
      · rfl
  obtain ⟨hup, -, htraces⟩ := inherits_attach hf ht hs ha c
  obtain ⟨hdown, htraces'⟩ := inherits_detach (hext.fits_big hf) htraces.tidy hs' hchild
  refine Node.ext rfl rfl rfl hslots (htraces'.tidy.ext ht rfl hslots fun a hd => ?_)
  -- a binding goes up when the child comes, and down again when it goes
  have hident := hd.isIdentifier
  by_cases hname : a.name ∈ (n.schema.collectionInputs slotName).map Prod.fst
  · obtain ⟨name, i⟩ := a
    cases i with
    | none => exact (hdown.other _ hident fun _ => rfl).symm.trans (hup.other _ hident fun _ => rfl)
    | some i => exact (hdown.raised name hname i).symm.trans (hup.raised name hname i)
  · exact (hdown.other a hident fun h => absurd h hname).symm.trans
      (hup.other a hident fun h => absurd h hname)

/-! ### A child that goes and comes back -/

/-- The parent has the slots that it had. -/
theorem slots_attach_detach (hs : n.slots.get? slotName = some content)
    (hc : content.child? k = some c) :
    ((n.detach slotName content k).attach slotName (content.detach k) k c).slots = n.slots := by
  have hget : ∀ s, ((n.detach slotName content k).attach slotName (content.detach k) k c).slots.get?
      s = n.slots.get? s := by
    intro s
    rw [attach, detach, OrderedMap.get?_insert, OrderedMap.get?_insert,
      SlotContent.attach_detach hc]
    split
    · next h => rw [← h, hs]
    · rfl
  refine OrderedMap.ext_keys ?_ hget
  have hs' : (n.slots.insert slotName (content.detach k)).get? slotName =
      some (content.detach k) := by
    rw [OrderedMap.get?_insert, if_pos rfl]
  rw [attach, detach, OrderedMap.keys_insert hs', OrderedMap.keys_insert hs]

/-- The parent is still tidy. -/
theorem tidy_attach_detach (hf : n.FitsSchema) (ht : n.Tidy)
    (hs : n.slots.get? slotName = some content) (hc : content.child? k = some c) :
    ((n.detach slotName content k).attach slotName (content.detach k) k c).Tidy := by
  obtain ⟨hadmits, hplace⟩ := SlotContent.admits_detach hc
  have hs' : (n.detach slotName content k).slots.get? slotName = some (content.detach k) :=
    get?_slots_detach ..
  obtain ⟨-, htraces⟩ := inherits_detach hf ht hs hc
  obtain ⟨-, -, htraces'⟩ := inherits_attach ((extends_detach hs hc).fits_small hf) htraces.tidy hs'
    hadmits c
  rw [hplace] at htraces'
  exact htraces'.tidy

/-- The parent has the bindings that it had, but for those of the child. -/
theorem input?_attach_detach (hf : n.FitsSchema) (ht : n.Tidy)
    (hs : n.slots.get? slotName = some content) (hc : content.child? k = some c)
    {a : InputAddress} (ha : Declaration.isIdentifier a.name = true) :
    ((n.detach slotName content k).attach slotName (content.detach k) k c).input? a = n.input? a ∨
      ∃ i, k = some i ∧ a.index = some i ∧
        a.name ∈ (n.schema.collectionInputs slotName).map Prod.fst ∧
        ((n.detach slotName content k).attach slotName (content.detach k) k c).input? a =
          none := by
  have hext := extends_detach hs hc
  obtain ⟨hadmits, hplace⟩ := SlotContent.admits_detach hc
  have hs' : (n.detach slotName content k).slots.get? slotName = some (content.detach k) :=
    get?_slots_detach ..
  obtain ⟨hdown, htraces⟩ := inherits_detach hf ht hs hc
  obtain ⟨hup, hnone, -⟩ := inherits_attach (hext.fits_small hf) htraces.tidy hs' hadmits c
  rw [hplace] at hup hnone
  have hschema : (n.detach slotName content k).schema = n.schema := rfl
  by_cases hname : a.name ∈ (n.schema.collectionInputs slotName).map Prod.fst
  · obtain ⟨name, index⟩ := a
    cases index with
    | none => exact .inl ((hup.other _ ha fun _ => rfl).trans (hdown.other _ ha fun _ => rfl).symm)
    | some i =>
      cases k with
      | none =>
        -- a single slot has no inputs for its child
        cases content with
        | collection ids => cases hc
        | single child =>
          rw [hf.collectionInputs_single hs] at hname
          cases hname
      | some k =>
        by_cases hik : i = k
        · subst hik
          exact .inr ⟨i, rfl, rfl, hname, hnone name hname⟩
        · -- the child that the binding is for has gone down and come up again
          obtain ⟨j, hj⟩ : ∃ j, makeRoom (some k) (some j) = some i := by
            by_cases hlt : i < k
            · exact ⟨i, by simp [makeRoom, hlt]⟩
            · refine ⟨i - 1, ?_⟩
              have h1 : ¬ i - 1 < k := by omega
              have h2 : i - 1 + 1 = i := by omega
              simp [makeRoom, h1, h2]
          have hraised := hup.raised name hname j
          have hraised' := hdown.raised name hname j
          rw [hj] at hraised hraised'
          exact .inl (hraised.trans hraised'.symm)
  · have hother := hup.other a ha fun h => absurd h hname
    exact .inl (hother.trans (hdown.other a ha fun h => absurd h hname).symm)

end SlotTree.Node
