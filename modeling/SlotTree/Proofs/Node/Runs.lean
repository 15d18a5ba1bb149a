import SlotTree.Proofs.Node.Bindings

/-!
# Runs of a node

A node may be changed on its own, outside of any document: then no one sees to it that a child is
put in only once, or that a single slot is taken by someone before it is cleared.  Still every
change leaves the slots those that the schema declares, and binds only addresses that exist.

## Main definitions

* `Node.Change`, `Node.after`, `Node.run` — changes, and what becomes of a node.
* `Node.Sound` — the slots fit the schema, and only declared addresses are bound.

## Main results

* `Node.sound_after` — a change leaves a sound node sound.
* `Node.sound_run` — whatever is done to an empty node, it is sound.
-/

namespace SlotTree

namespace SlotContent

/-- What a slot holds when another child is put in a place. -/
def put (content : SlotContent) (k : Option Nat) (c : String) : SlotContent :=
  match content, k with
  | .collection ids, some k => .collection (ids.set k c)
  | .collection ids, none => .collection ids
  | .single _, _ => .single (some c)

@[simp] theorem isCollection_put (content : SlotContent) (k : Option Nat) (c : String) :
    (content.put k c).isCollection = content.isCollection := by
  cases content <;> cases k <;> rfl

theorem size_put {content : SlotContent} (h : content.isCollection = true) (k : Option Nat)
    (c : String) : (content.put k c).size = content.size := by
  cases content with
  | single child => cases h
  | collection ids =>
    cases k with
    | none => rfl
    | some k => exact List.length_set

end SlotContent

namespace Node

/-! ### Changes -/

/-- A change of a node. -/
inductive Change where
  /-- A child comes to a slot. -/
  | addChild (childId slotName : String) (index : Option Nat) : Change
  /-- The child at a place goes. -/
  | removeChild (slotName : String) (index : Option Nat) : Change
  /-- The node gets another id. -/
  | rename (newId : String) : Change
  /-- Another id is put in the place of a child. -/
  | renameChild (childId slotName : String) (index : Option Nat) : Change
  /-- The node gets another place. -/
  | moveTo (parent : ParentLink) : Change
  /-- An input is bound, or cleared. -/
  | setInput (expression : Option TypedExpression) (address : InputAddress) : Change

/-- The node that a change gives. -/
def change (n : Node) : Change → Except NodeError Node
  | .addChild childId slotName index => (n.addChild childId slotName index).map Prod.fst
  | .removeChild slotName index => (n.removeChild slotName index).map Prod.fst
  | .rename newId => .ok (n.rename newId).1
  | .renameChild childId slotName index => n.renameChild childId slotName index
  | .moveTo parent => .ok (n.moveTo parent)
  | .setInput expression address => n.setInput expression address

/-- The node after a change; one that is refused leaves it as it is. -/
def after (n : Node) (c : Change) : Node :=
  match n.change c with
  | .ok n' => n'
  | .error _ => n

/-- The node after some changes. -/
def run (n : Node) (changes : List Change) : Node := changes.foldl after n

/-- Another id is put in a place exactly if the slot has the place. -/
theorem renameChild_eq_ok_iff {n n' : Node} {c slotName : String} {index : Option Nat} :
    n.renameChild c slotName index = .ok n' ↔
      ∃ content, n.slots.get? slotName = some content ∧ content.HasPlace index ∧
        n' = { n with slots := n.slots.insert slotName (content.put index c) } := by
  rw [renameChild]
  cases hs : n.slots.get? slotName with
  | none => simp [slot, hs]
  | some content =>
    rw [slot_eq_ok.mpr hs, Outcome.ok_bind]
    simp only [Option.some.injEq, exists_eq_left']
    cases content with
    | single child =>
      cases index with
      | none => simp [SlotContent.HasPlace, SlotContent.put, Outcome.pure_eq_ok, eq_comm]
      | some i => simp [SlotContent.HasPlace, Outcome.throw_eq_error]
    | collection ids =>
      cases index with
      | none => simp [SlotContent.HasPlace, Outcome.throw_eq_error]
      | some i =>
        by_cases hi : i < ids.length
        · simp [hi, SlotContent.HasPlace, SlotContent.put, Outcome.pure_eq_ok, eq_comm]
        · simp [hi, SlotContent.HasPlace, Outcome.throw_eq_error]

/-! ### Sound nodes -/

/-- The slots are those of the schema, and only declared addresses are bound. -/
structure Sound (n : Node) : Prop where
  /-- The slots are those that the schema declares. -/
  fits : n.FitsSchema
  /-- Only declared addresses are bound. -/
  tidy : n.Tidy

namespace Sound

variable {n n' : Node} {slotName c : String} {content content' : SlotContent} {k : Option Nat}

/-- A node without children and bindings. -/
theorem empty (schema : NodeSchema) (id : String) (parent : Option ParentLink) :
    (Node.empty schema id parent).Sound where
  fits := fitsSchema_empty schema id parent
  tidy := fun k e he => by cases he

/-- Neither the id nor the place of a node matters. -/
theorem of_eq (h : n.Sound) (hslots : n'.slots = n.slots) (hschema : n'.schema = n.schema)
    (hinputs : n'.inputs = n.inputs) : n'.Sound where
  fits := h.fits.of_eq hslots hschema
  tidy := by
    intro k e he
    rw [hinputs] at he
    obtain ⟨a, hkey, ha⟩ := h.tidy k e he
    exact ⟨a, hkey, (declares_congr hschema hslots).mpr ha⟩

/-- A child comes to a slot. -/
theorem attach {index : Option Nat} (h : n.Sound) (hs : n.slots.get? slotName = some content)
    (ha : content.Admits index) (c : String) :
    (n.attach slotName content (content.place index) c).Sound where
  fits := (extends_attach hs ha c).fits_big h.fits
  tidy := (inherits_attach h.fits h.tidy hs ha c).2.2.tidy

/-- A slot holds something else: the same number of children, or it is a single slot, which has no
inputs. -/
theorem insert_slot (h : n.Sound) (hs : n.slots.get? slotName = some content)
    (hkind : content'.isCollection = content.isCollection)
    (hsize : content.isCollection = true → content'.size = content.size) :
    ({ n with slots := n.slots.insert slotName content' } : Node).Sound where
  fits := {
    keys := (OrderedMap.keys_insert hs _).trans h.fits.keys
    kind := by
      intro s c decl hc hd
      rw [OrderedMap.get?_insert] at hc
      split at hc
      · next heq =>
        cases hc
        exact hkind.trans (h.fits.kind s content decl (heq ▸ hs) hd)
      · exact h.fits.kind s c decl hc hd }
  tidy := by
    intro k e he
    obtain ⟨⟨name, index⟩, hkey, hd⟩ := h.tidy k e he
    refine ⟨⟨name, index⟩, hkey, ?_⟩
    cases index with
    | none => exact hd
    | some i =>
      obtain ⟨s, held, hn, hheld, hi⟩ := hd
      by_cases heq : slotName = s
      · -- the slot of the address has an input, so it is a collection
        subst heq
        rw [hs, Option.some.injEq] at hheld
        subst hheld
        have hcollection := h.fits.isCollection_of_input hs hn
        refine ⟨slotName, content', hn, ?_, (hsize hcollection).symm ▸ hi⟩
        rw [OrderedMap.get?_insert, if_pos rfl]
      · refine ⟨s, held, hn, ?_, hi⟩
        rw [OrderedMap.get?_insert, if_neg heq]
        exact hheld

/-- The child at a place goes; in a single slot there may be none. -/
theorem detach (h : n.Sound) (hs : n.slots.get? slotName = some content)
    (hk : content.HasPlace k) : (n.detach slotName content k).Sound := by
  cases content with
  | single child =>
    cases hk
    exact h.insert_slot hs rfl fun hcollection => by cases hcollection
  | collection ids =>
    cases k with
    | none => exact hk.elim
    | some i =>
      have hc : (SlotContent.collection ids).child? (some i) = some ids[i] :=
        List.getElem?_eq_getElem hk
      exact ⟨(extends_detach hs hc).fits_small h.fits, (inherits_detach h.fits h.tidy hs hc).2.tidy⟩

end Sound

/-! ### Runs -/

/-- A change leaves a sound node sound. -/
theorem sound_change {n n' : Node} {c : Change} (h : n.Sound) (hc : n.change c = .ok n') :
    n'.Sound := by
  cases c with
  | addChild childId slotName index =>
    obtain ⟨r, hr, rfl⟩ := Outcome.map_eq_ok.mp hc
    obtain ⟨content, hs, ha, rfl⟩ := addChild_eq_ok_iff.mp hr
    exact h.attach hs ha childId
  | removeChild slotName index =>
    obtain ⟨r, hr, rfl⟩ := Outcome.map_eq_ok.mp hc
    obtain ⟨content, hs, hk, rfl⟩ := removeChild_eq_ok_iff.mp hr
    exact h.detach hs hk
  | rename newId =>
    cases hc
    exact h.of_eq rfl rfl rfl
  | renameChild childId slotName index =>
    obtain ⟨content, hs, -, rfl⟩ := renameChild_eq_ok_iff.mp hc
    exact h.insert_slot hs (content.isCollection_put index childId)
      fun hcollection => SlotContent.size_put hcollection index childId
  | moveTo parent =>
    cases hc
    exact h.of_eq rfl rfl rfl
  | setInput expression address =>
    obtain ⟨hd, rfl⟩ := (setInput_eq_ok_iff h.fits).mp hc
    exact ⟨h.fits.of_eq rfl rfl, h.tidy.bind hd expression⟩

theorem sound_after {n : Node} (h : n.Sound) (c : Change) : (n.after c).Sound := by
  rw [after]
  cases hc : n.change c with
  | ok n' => exact sound_change h hc
  | error e => exact h

/-- Whatever is done to a sound node, it stays sound. -/
theorem Sound.run {n : Node} (h : n.Sound) (changes : List Change) : (n.run changes).Sound := by
  induction changes generalizing n with
  | nil => exact h
  | cons c rest ih => exact ih (sound_after h c)

/-- Whatever is done to an empty node, it is sound. -/
theorem sound_run (schema : NodeSchema) (id : String) (parent : Option ParentLink)
    (changes : List Change) : ((Node.empty schema id parent).run changes).Sound :=
  (Sound.empty schema id parent).run changes

end Node

end SlotTree
