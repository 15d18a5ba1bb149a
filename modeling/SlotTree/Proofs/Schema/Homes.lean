import SlotTree.Proofs.Schema.Inputs

/-!
# Where inputs are declared

A schema is asked for an input in three ways: for its declaration, for the slot to which it belongs,
and for all inputs of a slot.  Each of the three searches the tables on its own, the tables of the
slots one after the other.  They agree since the check refuses a name that stands in two tables:
whatever name is looked up, all of them find the same table, or none finds any.

## Main definitions

* `Declaration.Tabulates` — the table of a slot declares an input.
* `InputHome` — where an input may be declared: for the node as a whole, in a slot, or nowhere.
* `NodeSchema.OfNode`, `NodeSchema.OfSlot`, `NodeSchema.Undeclared` — what the tables say of a name,
  and what the look-ups find, for each of the three.

## Main results

* `NodeSchema.tabulates_unique` — an input of a slot stands in one table, with one declaration.
* `NodeSchema.existsUnique_home` — every name has exactly one home, for the tables and for all
  look-ups.
-/

namespace SlotTree

/-- Where an input may be declared. -/
inductive InputHome where
  /-- Among the inputs of a node as a whole. -/
  | node : InputHome
  /-- In the table of a slot. -/
  | slot (slotName : String) : InputHome
  /-- Nowhere. -/
  | nowhere : InputHome
  deriving DecidableEq, Repr

/-! ### Tables of slots -/

/-- The table of a slot declares an input under a name.  A slot without a table declares none. -/
def Declaration.Tabulates (d : Declaration) (slotName name : String) (input : InputDecl) : Prop :=
  ∃ slot table, d.slots.get? slotName = some slot ∧ slot.inputs = some table ∧
    table.get? name = some input

/-- The entries of a slot are those of its table. -/
theorem SlotDecl.lookup_inputEntries_eq_some_iff {slot : SlotDecl} {name : String}
    {input : InputDecl} :
    List.lookup name slot.inputEntries = some input ↔
      ∃ table, slot.inputs = some table ∧ table.get? name = some input := by
  cases h : slot.inputs with
  | none => simp [inputEntries, h]
  | some table => simp [inputEntries, h, OrderedMap.get?]

theorem Declaration.tabulates_iff {d : Declaration} {slotName name : String} {input : InputDecl} :
    d.Tabulates slotName name input ↔
      ∃ slot, d.slots.get? slotName = some slot ∧
        List.lookup name slot.inputEntries = some input := by
  simp only [Tabulates, SlotDecl.lookup_inputEntries_eq_some_iff, exists_and_left]

namespace NodeSchema

variable {s : NodeSchema} {name slotName : String} {input : InputDecl}

/-- The inputs of a slot are what its table declares. -/
theorem mem_collectionInputs_iff_tabulates :
    (name, input) ∈ s.collectionInputs slotName ↔ s.Tabulates slotName name input := by
  rw [Declaration.tabulates_iff]
  constructor
  · intro h
    obtain ⟨slot, hs, -⟩ := mem_collectionInputs_iff.mp (List.mem_map_of_mem h)
    rw [collectionInputs_eq hs] at h
    exact ⟨slot, hs, lookup_eq_some_of_mem (nodup_slot_inputs hs) h⟩
  · rintro ⟨slot, hs, hi⟩
    rw [collectionInputs_eq hs]
    exact mem_of_lookup hi

theorem mem_names_collectionInputs_iff :
    name ∈ (s.collectionInputs slotName).map Prod.fst ↔
      ∃ input, s.Tabulates slotName name input := by
  simp [← mem_collectionInputs_iff_tabulates]

/-- What the table of a slot declares belongs to the slot. -/
theorem collectionSlotOf_of_tabulates (h : s.Tabulates slotName name input) :
    s.collectionSlotOf name = .ok (some slotName) :=
  collectionSlotOf_eq_some_iff.mpr (mem_names_collectionInputs_iff.mpr ⟨input, h⟩)

/-- An input of a slot stands in one table, with one declaration. -/
theorem tabulates_unique {slotName' : String} {input' : InputDecl}
    (h : s.Tabulates slotName name input) (h' : s.Tabulates slotName' name input') :
    slotName = slotName' ∧ input = input' := by
  have hslot := collectionSlotOf_of_tabulates h
  rw [collectionSlotOf_of_tabulates h', Except.ok.injEq, Option.some.injEq] at hslot
  subst hslot
  obtain ⟨slot, hs, hi⟩ := Declaration.tabulates_iff.mp h
  obtain ⟨slot', hs', hi'⟩ := Declaration.tabulates_iff.mp h'
  rw [hs, Option.some.injEq] at hs'
  subst hs'
  rw [hi, Option.some.injEq] at hi'
  exact ⟨rfl, hi'⟩

/-- What the table of a slot declares is no input of the node as a whole. -/
theorem get?_inputs_of_tabulates (h : s.Tabulates slotName name input) :
    s.inputs.get? name = none := by
  rw [Option.eq_none_iff_forall_ne_some]
  intro plain hplain
  have hnone := collectionSlotOf_eq_none_iff.mpr (OrderedMap.mem_keys_iff.mpr ⟨plain, hplain⟩)
  rw [collectionSlotOf_of_tabulates h] at hnone
  cases hnone

/-! ### Declarations that are found -/

/-- What the search through the slots finds stands in the table of one of them. -/
theorem tabulates_of_findSome?
    (h : (s.slots.values.findSome? fun slot => List.lookup name slot.inputEntries) = some input) :
    ∃ slotName, s.Tabulates slotName name input := by
  obtain ⟨slot, hmem, hi⟩ := List.exists_of_findSome?_eq_some h
  obtain ⟨⟨slotName, _⟩, he, rfl⟩ := List.mem_map.mp hmem
  exact ⟨slotName, Declaration.tabulates_iff.mpr ⟨_, OrderedMap.mem_entries_iff.mp he, hi⟩⟩

/-- The search through the slots finds what stands in the table of any of them. -/
theorem findSome?_slots_eq_some_iff :
    (s.slots.values.findSome? fun slot => List.lookup name slot.inputEntries) = some input ↔
      ∃ slotName, s.Tabulates slotName name input := by
  refine ⟨tabulates_of_findSome?, ?_⟩
  rintro ⟨slotName, h⟩
  cases hfound : s.slots.values.findSome? fun slot => List.lookup name slot.inputEntries with
  | none =>
    obtain ⟨slot, hs, hi⟩ := Declaration.tabulates_iff.mp h
    have hmem : slot ∈ s.slots.values :=
      List.mem_map.mpr ⟨(slotName, slot), OrderedMap.mem_entries_iff.mpr hs, rfl⟩
    rw [List.findSome?_eq_none_iff.mp hfound slot hmem] at hi
    cases hi
  | some other =>
    -- whichever slot is found first, it is the only one with the name
    obtain ⟨slotName', h'⟩ := tabulates_of_findSome? hfound
    rw [(tabulates_unique h h').2]

/-- The declaration that is found is that of the node as a whole, or that of a slot. -/
theorem input_eq_ok_iff :
    s.input name = .ok input ↔
      s.inputs.get? name = some input ∨ ∃ slotName, s.Tabulates slotName name input := by
  rw [NodeSchema.input]
  cases hplain : s.inputs.get? name with
  | some plain =>
    have hslots : ¬ ∃ slotName, s.Tabulates slotName name input := by
      rintro ⟨slotName, h⟩
      rw [get?_inputs_of_tabulates h] at hplain
      cases hplain
    simp [hslots]
  | none =>
    rw [← findSome?_slots_eq_some_iff]
    cases s.slots.values.findSome? fun slot => List.lookup name slot.inputEntries <;> simp

/-- A look-up of a declaration that finds nothing says so. -/
theorem error_of_input {e : SchemaError} (h : s.input name = .error e) :
    e = .unknownInput s.name name := by
  rw [NodeSchema.input] at h
  split at h
  · cases h
  · exact (Except.error.inj h).symm

/-- A look-up of a slot that finds nothing says so. -/
theorem error_of_collectionSlotOf {e : SchemaError} (h : s.collectionSlotOf name = .error e) :
    e = .unknownInput s.name name := by
  rw [collectionSlotOf] at h
  split at h
  · cases h
  · split at h
    · cases h
    · exact (Except.error.inj h).symm

/-! ### Homes -/

/-- A name is that of an input of the node as a whole, for the tables and for all look-ups. -/
structure OfNode (s : NodeSchema) (name : String) : Prop where
  /-- It is among the inputs of the node, and its declaration is the one that is found. -/
  declared : ∃ input, s.inputs.get? name = some input ∧ s.input name = .ok input
  /-- It stands in the table of no slot. -/
  noTable : ∀ slotName input, ¬ s.Tabulates slotName name input
  /-- It belongs to no slot. -/
  owner : s.collectionSlotOf name = .ok none
  /-- It is not among the inputs of any slot. -/
  noSlot : ∀ slotName, name ∉ (s.collectionInputs slotName).map Prod.fst

/-- A name is that of an input of a slot, for the tables and for all look-ups. -/
structure OfSlot (s : NodeSchema) (slotName name : String) : Prop where
  /-- The slot is a collection. -/
  collection : s.isCollectionSlot slotName = .ok true
  /-- The name stands in the table of the slot.  Its entry is the declaration that is found, and the
  one that it has among the inputs of the slot. -/
  declared : ∃ input, s.Tabulates slotName name input ∧ s.input name = .ok input ∧
    (name, input) ∈ s.collectionInputs slotName
  /-- It stands in the table of no other slot. -/
  onlyTable : ∀ other input, s.Tabulates other name input → other = slotName
  /-- It is not among the inputs of the node as a whole. -/
  notOfNode : s.inputs.get? name = none
  /-- It belongs to the slot. -/
  owner : s.collectionSlotOf name = .ok (some slotName)
  /-- It is once among the inputs of the slot. -/
  once : ((s.collectionInputs slotName).map Prod.fst).count name = 1
  /-- It is not among the inputs of any other slot. -/
  noOtherSlot : ∀ other, other ≠ slotName → name ∉ (s.collectionInputs other).map Prod.fst

/-- A name is that of no input, for the tables and for all look-ups. -/
structure Undeclared (s : NodeSchema) (name : String) : Prop where
  /-- It is not among the inputs of the node as a whole. -/
  notOfNode : s.inputs.get? name = none
  /-- It stands in the table of no slot. -/
  noTable : ∀ slotName input, ¬ s.Tabulates slotName name input
  /-- No declaration is found. -/
  input : s.input name = .error (.unknownInput s.name name)
  /-- No slot is found. -/
  owner : s.collectionSlotOf name = .error (.unknownInput s.name name)
  /-- It is not among the inputs of any slot. -/
  noSlot : ∀ slotName, name ∉ (s.collectionInputs slotName).map Prod.fst

/-- A name has its home in a place, for the tables and for all look-ups. -/
def Houses (s : NodeSchema) (name : String) : InputHome → Prop
  | .node => s.OfNode name
  | .slot slotName => s.OfSlot slotName name
  | .nowhere => s.Undeclared name

/-- What is among the inputs of the node as a whole is so for all look-ups. -/
theorem ofNode_of_get? (h : s.inputs.get? name = some input) : s.OfNode name := by
  have hnot : ∀ slotName input, ¬ s.Tabulates slotName name input := by
    intro slotName other htable
    rw [get?_inputs_of_tabulates htable] at h
    cases h
  exact {
    declared := ⟨input, h, input_eq_ok_iff.mpr (.inl h)⟩
    noTable := hnot
    owner := collectionSlotOf_eq_none_iff.mpr (OrderedMap.mem_keys_iff.mpr ⟨input, h⟩)
    noSlot := fun slotName hmem => by
      obtain ⟨other, htable⟩ := mem_names_collectionInputs_iff.mp hmem
      exact hnot slotName other htable }

/-- What the table of a slot declares belongs to the slot for all look-ups. -/
theorem ofSlot_of_tabulates (h : s.Tabulates slotName name input) : s.OfSlot slotName name where
  collection := by
    obtain ⟨slot, table, hs, htable, -⟩ := h
    rw [isCollectionSlot, NodeSchema.slot, hs]
    simp [Except.map, SlotDecl.isCollection, htable]
  declared := ⟨input, h, input_eq_ok_iff.mpr (.inr ⟨slotName, h⟩),
    mem_collectionInputs_iff_tabulates.mpr h⟩
  onlyTable other input' h' := (tabulates_unique h' h).1
  notOfNode := get?_inputs_of_tabulates h
  owner := collectionSlotOf_of_tabulates h
  once := List.count_eq_one_of_mem (s.nodup_collectionInputs slotName)
    (mem_names_collectionInputs_iff.mpr ⟨input, h⟩)
  noOtherSlot other hne hmem := by
    obtain ⟨input', h'⟩ := mem_names_collectionInputs_iff.mp hmem
    exact hne (tabulates_unique h' h).1

/-- What no table declares is unknown to all look-ups. -/
theorem undeclared_of_forall (hplain : s.inputs.get? name = none)
    (hslots : ∀ slotName input, ¬ s.Tabulates slotName name input) : s.Undeclared name where
  notOfNode := hplain
  noTable := hslots
  input := by
    cases h : s.input name with
    | error e => rw [error_of_input h]
    | ok found =>
      rcases input_eq_ok_iff.mp h with hfound | ⟨slotName, htable⟩
      · rw [hplain] at hfound
        cases hfound
      · exact absurd htable (hslots slotName found)
  owner := by
    cases h : s.collectionSlotOf name with
    | error e => rw [error_of_collectionSlotOf h]
    | ok owner =>
      cases owner with
      | none =>
        obtain ⟨found, hfound⟩ := OrderedMap.mem_keys_iff.mp (collectionSlotOf_eq_none_iff.mp h)
        rw [hplain] at hfound
        cases hfound
      | some slotName =>
        obtain ⟨found, htable⟩ :=
          mem_names_collectionInputs_iff.mp (collectionSlotOf_eq_some_iff.mp h)
        exact absurd htable (hslots slotName found)
  noSlot slotName hmem := by
    obtain ⟨found, htable⟩ := mem_names_collectionInputs_iff.mp hmem
    exact hslots slotName found htable

/-- Every name has a home. -/
theorem exists_home (s : NodeSchema) (name : String) : ∃ home, s.Houses name home := by
  cases hplain : s.inputs.get? name with
  | some input => exact ⟨.node, ofNode_of_get? hplain⟩
  | none =>
    by_cases hslots : ∃ slotName input, s.Tabulates slotName name input
    · obtain ⟨slotName, input, h⟩ := hslots
      exact ⟨.slot slotName, ofSlot_of_tabulates h⟩
    · refine ⟨.nowhere, undeclared_of_forall hplain fun slotName input h => ?_⟩
      exact hslots ⟨slotName, input, h⟩

/-- Where a name has its home is told by the slot that is found for it. -/
theorem Houses.collectionSlotOf_eq {home : InputHome} (h : s.Houses name home) :
    s.collectionSlotOf name = match home with
      | .node => .ok none
      | .slot slotName => .ok (some slotName)
      | .nowhere => .error (.unknownInput s.name name) := by
  cases home with
  | node => exact OfNode.owner h
  | slot slotName => exact OfSlot.owner h
  | nowhere => exact Undeclared.owner h

/-- A name has no two homes. -/
theorem Houses.unique {home home' : InputHome} (h : s.Houses name home)
    (h' : s.Houses name home') : home = home' := by
  have heq := h.collectionSlotOf_eq
  rw [h'.collectionSlotOf_eq] at heq
  cases home <;> cases home' <;> simp_all

/-- A declaration that passes the check is kept as it is, and every name has exactly one home in it:
it is an input of the node as a whole, or an input of exactly one slot, which is a collection, or
declared nowhere.  All look-ups agree on which. -/
theorem existsUnique_home {d : Declaration} {s : NodeSchema}
    (h : NodeSchema.ofDeclaration d = .ok s) (name : String) :
    s.toDeclaration = d ∧ ∃! home, s.Houses name home := by
  obtain ⟨home, hhome⟩ := s.exists_home name
  exact ⟨ofDeclaration_eq_ok_iff.mp h, home, hhome, fun _ hother => hother.unique hhome⟩

/-- A panel with a gap, rows and tabs: the gap is an input of the panel, every row has a height, and
every tab a title. -/
def panelDeclaration : Declaration :=
  ((({ name := "Panel" : Declaration }.withInput "gap" .number).withCollectionSlot "rows"
    [("height", .number)]).withSlot "footer").withCollectionSlot "tabs"
      [("icon", .entity "Image"), ("title", .string)]

/-- The schema of a panel. -/
def panelSchema : NodeSchema := ⟨panelDeclaration, by decide⟩

/-- The title of a tab has its only home in the slot of the tabs. -/
theorem existsUnique_home_title :
    ofDeclaration panelDeclaration = .ok panelSchema ∧
      (∃! home, panelSchema.Houses "title" home) ∧ panelSchema.OfSlot "tabs" "title" := by
  have hpanel : ofDeclaration panelDeclaration = .ok panelSchema :=
    ofDeclaration_eq_ok_iff.mpr rfl
  obtain ⟨-, hunique⟩ := existsUnique_home hpanel "title"
  have ⟨home, hhome, _⟩ := hunique
  have htabs : panelSchema.collectionSlotOf "title" = .ok (some "tabs") := by rfl
  rw [Houses.collectionSlotOf_eq hhome] at htabs
  cases home with
  | node => cases htabs
  | slot slotName =>
    cases htabs
    exact ⟨hpanel, hunique, hhome⟩
  | nowhere => cases htabs

end NodeSchema

end SlotTree
