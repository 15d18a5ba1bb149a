import Mathlib.Data.List.Perm.Basic
import SlotTree.Proofs.Node.Runs

/-!
# The bindings that are enumerated

Bindings are kept under composed keys, but they are shown by walking over the addresses that the
schema and the slots declare.  A binding under the key of no such address would be hidden, and one
under the key of two would be shown twice.  Neither happens to a node, whatever is done to it.

## Main definitions

* `Node.Enumerated` — the enumeration of the inputs shows every binding once.

## Main results

* `Node.nodup_inputAddresses` — no address is visited twice.
* `Node.Tidy.perm_boundInputs` — the bound inputs of a tidy node are its bindings.
* `Node.enumerated_run` — whatever is done to an empty node, its bindings are enumerated.
-/

namespace SlotTree.Node

variable {n : Node}

/-! ### Addresses -/

/-- The addresses of a slot are those of its inputs at the positions of its children. -/
theorem mem_slotAddresses_iff {slotName : String} {content : SlotContent} {a : InputAddress} :
    a ∈ n.slotAddresses slotName content ↔
      a.name ∈ (n.schema.collectionInputs slotName).map Prod.fst ∧
        ∃ i < content.size, a.index = some i := by
  obtain ⟨name, index⟩ := a
  simp only [slotAddresses, List.mem_flatMap, List.mem_range, List.mem_map, InputAddress.mk.injEq]
  constructor
  · rintro ⟨i, hi, input, hinput, hname, rfl⟩
    exact ⟨⟨input, hinput, hname⟩, i, hi, rfl⟩
  · rintro ⟨⟨input, hinput, hname⟩, i, hi, rfl⟩
    exact ⟨i, hi, input, hinput, hname, rfl⟩

/-- Within a slot no address comes twice. -/
theorem nodup_slotAddresses (n : Node) (slotName : String) (content : SlotContent) :
    (n.slotAddresses slotName content).Nodup := by
  rw [slotAddresses, List.nodup_flatMap]
  constructor
  · -- for one child the names differ
    intro i _
    refine List.Nodup.of_map InputAddress.name ?_
    rw [List.map_map]
    exact n.schema.nodup_collectionInputs slotName
  · -- for two children the positions differ
    refine List.nodup_range.imp ?_
    intro i j hne a ha hb
    obtain ⟨_, _, rfl⟩ := List.mem_map.mp ha
    obtain ⟨_, _, heq⟩ := List.mem_map.mp hb
    exact hne (Option.some.inj (congrArg InputAddress.index heq)).symm

/-- No address is visited twice. -/
theorem nodup_inputAddresses (n : Node) : n.inputAddresses.Nodup := by
  rw [inputAddresses, List.nodup_append]
  refine ⟨?_, ?_, ?_⟩
  · refine List.Nodup.of_map InputAddress.name ?_
    rw [List.map_map, Function.comp_def, List.map_id']
    exact n.schema.inputs.distinct
  · rw [List.nodup_flatMap]
    refine ⟨fun slot _ => n.nodup_slotAddresses slot.1 slot.2, ?_⟩
    -- an input belongs to one slot only
    refine (List.pairwise_map.mp n.slots.distinct).imp ?_
    intro slot slot' hne a ha hb
    have hslot := NodeSchema.collectionSlotOf_eq_some_iff.mpr (mem_slotAddresses_iff.mp ha).1
    have hslot' := NodeSchema.collectionSlotOf_eq_some_iff.mpr (mem_slotAddresses_iff.mp hb).1
    rw [hslot'] at hslot
    exact hne (Option.some.inj (Except.ok.inj hslot)).symm
  · -- what belongs to the node as a whole has no position
    rintro a ha b hb rfl
    obtain ⟨name, -, rfl⟩ := List.mem_map.mp ha
    obtain ⟨slot, -, hb⟩ := List.mem_flatMap.mp hb
    obtain ⟨-, i, -, hi⟩ := mem_slotAddresses_iff.mp hb
    cases hi

theorem map_fst_allInputs (n : Node) : n.allInputs.map Prod.fst = n.inputAddresses := by
  rw [allInputs, List.map_map, Function.comp_def, List.map_id']

theorem mem_allInputs_iff {a : InputAddress} {e : Option TypedExpression} :
    (a, e) ∈ n.allInputs ↔ n.Declares a ∧ e = n.input? a := by
  rw [allInputs, List.mem_map, ← mem_inputAddresses_iff]
  constructor
  · rintro ⟨b, hb, heq⟩
    cases heq
    exact ⟨hb, rfl⟩
  · rintro ⟨ha, rfl⟩
    exact ⟨a, ha, rfl⟩

/-! ### Bindings -/

/-- No two bound inputs have the same key. -/
theorem nodup_keys_boundInputs (n : Node) : (n.boundInputs.map fun b => b.1.key).Nodup := by
  have haddresses : n.boundInputs.Pairwise fun b b' => b.1 ≠ b'.1 := by
    have hall := n.nodup_inputAddresses
    rw [← map_fst_allInputs, List.Nodup, List.pairwise_map] at hall
    refine List.pairwise_filterMap.mpr (hall.imp ?_)
    rintro a a' hne _ hb _ hb'
    obtain ⟨e, -, rfl⟩ := Option.map_eq_some_iff.mp hb
    obtain ⟨e', -, rfl⟩ := Option.map_eq_some_iff.mp hb'
    exact hne
  refine List.pairwise_map.mpr (haddresses.imp_of_mem ?_)
  intro b b' hb hb' hne heq
  exact hne ((mem_boundInputs_iff.mp hb).1.key_inj (mem_boundInputs_iff.mp hb').1 heq)

/-- The bound inputs of a tidy node are its bindings, each of them once. -/
theorem Tidy.perm_boundInputs (h : n.Tidy) :
    (n.boundInputs.map fun b => (b.1.key, b.2)).Perm n.inputs.entries := by
  have hlisted : (n.boundInputs.map fun b => (b.1.key, b.2)).Nodup := by
    refine List.Nodup.of_map Prod.fst ?_
    rw [List.map_map]
    exact n.nodup_keys_boundInputs
  have hkept : n.inputs.entries.Nodup := List.Nodup.of_map Prod.fst n.inputs.nodup_keys
  rw [List.perm_ext_iff_of_nodup hlisted hkept]
  rintro ⟨k, e⟩
  rw [SortedMap.mem_entries_iff, List.mem_map]
  constructor
  · rintro ⟨b, hb, heq⟩
    cases heq
    exact (mem_boundInputs_iff.mp hb).2
  · intro he
    obtain ⟨a, rfl, ha⟩ := h k e he
    exact ⟨(a, e), mem_boundInputs_iff.mpr ⟨ha, he⟩, rfl⟩

/-! ### Nodes whose bindings are enumerated -/

/-- The enumeration of the inputs shows every binding once, and nothing else. -/
structure Enumerated (n : Node) : Prop where
  /-- Every key is that of exactly one declared address. -/
  key : ∀ k ∈ n.inputs.keys, ∃! a : InputAddress, n.Declares a ∧ a.key = k
  /-- No address is visited twice. -/
  once : (n.allInputs.map Prod.fst).Nodup
  /-- The addresses that are visited are the declared ones, each with what is bound to it. -/
  visits : ∀ a e, (a, e) ∈ n.allInputs ↔ n.Declares a ∧ e = n.input? a
  /-- The bound inputs are the bindings. -/
  bound : (n.boundInputs.map fun b => (b.1.key, b.2)).Perm n.inputs.entries

theorem Tidy.enumerated (h : n.Tidy) : n.Enumerated where
  key k hk := by
    obtain ⟨e, he⟩ := Option.isSome_iff_exists.mp (SortedMap.mem_keys_iff.mp hk)
    obtain ⟨a, hkey, ha⟩ := h k e he
    exact ⟨a, ⟨ha, hkey⟩, fun b hb => hb.1.key_inj ha (hb.2.trans hkey.symm)⟩
  once := by
    rw [map_fst_allInputs]
    exact n.nodup_inputAddresses
  visits _ _ := mem_allInputs_iff
  bound := h.perm_boundInputs

/-- Whatever is done to an empty node, the enumeration of its inputs shows every binding once, and
nothing else. -/
theorem enumerated_run (schema : NodeSchema) (id : String) (parent : Option ParentLink)
    (changes : List Change) : ((Node.empty schema id parent).run changes).Enumerated :=
  (sound_run schema id parent changes).tidy.enumerated

end SlotTree.Node
