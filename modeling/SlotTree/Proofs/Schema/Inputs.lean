import Mathlib.Data.List.Nodup
import Mathlib.Data.List.Pairwise
import SlotTree.Node.Basic
import SlotTree.Proofs.Maps

/-!
# Inputs of a schema

A declaration without fault names no input twice, in no two of its tables, and all the names are
identifiers.  So an input belongs either to the node as a whole or to exactly one collection slot,
and the keys under which bindings are kept tell their addresses apart.

## Main results

* `NodeSchema.isIdentifier_of_mem`, `NodeSchema.nodup_inputNames` — what the check ensures.
* `NodeSchema.collectionSlotOf_eq_some_iff`, `NodeSchema.collectionSlotOf_eq_none_iff` — to which
  slot an input belongs.
* `InputAddress.key_injective` — addresses with identifiers for names have different keys.
-/

namespace SlotTree

/-! ### What the check ensures -/

namespace Declaration

theorem inputFault?_eq_none {nodeType : String} {before names : List String}
    (h : inputFault? nodeType before names = none) :
    (∀ name ∈ names, isIdentifier name = true) ∧ names.Nodup ∧ ∀ name ∈ names, name ∉ before := by
  induction names generalizing before with
  | nil => simp
  | cons name rest ih =>
    rw [inputFault?] at h
    split at h
    · cases h
    · next hid =>
      split at h
      · cases h
      · next hbefore =>
        obtain ⟨hids, hnodup, hnot⟩ := ih h
        refine ⟨?_, ?_, ?_⟩
        · intro j hj
          rcases List.mem_cons.mp hj with rfl | hj
          · simpa using hid
          · exact hids j hj
        · exact List.nodup_cons.mpr
            ⟨fun hmem => hnot name hmem List.mem_cons_self, hnodup⟩
        · intro j hj
          rcases List.mem_cons.mp hj with rfl | hj
          · exact hbefore
          · exact fun hb => hnot j hj (List.mem_cons_of_mem _ hb)

end Declaration

namespace NodeSchema

theorem inputFault?_inputNames (s : NodeSchema) :
    Declaration.inputFault? s.name [] s.inputNames = none := by
  have h := s.faultless
  rw [Declaration.fault?] at h
  split at h
  · cases h
  · exact (Option.or_eq_none_iff.mp h).1

theorem isIdentifier_of_mem {s : NodeSchema} {name : String} (h : name ∈ s.inputNames) :
    Declaration.isIdentifier name = true :=
  (Declaration.inputFault?_eq_none s.inputFault?_inputNames).1 name h

theorem nodup_inputNames (s : NodeSchema) : s.inputNames.Nodup :=
  (Declaration.inputFault?_eq_none s.inputFault?_inputNames).2.1

/-- The names of a slot's inputs stand among all input names. -/
theorem mem_inputNames_of_slot {s : NodeSchema} {slotName name : String} {decl : SlotDecl}
    (hs : s.slots.get? slotName = some decl) (hn : name ∈ decl.inputEntries.map Prod.fst) :
    name ∈ s.inputNames := by
  refine List.mem_append_right _ (List.mem_flatMap.mpr ⟨decl, ?_, hn⟩)
  exact List.mem_map.mpr ⟨(slotName, decl), OrderedMap.mem_entries_iff.mpr hs, rfl⟩

theorem not_mem_slot_of_mem_inputs {s : NodeSchema} {slotName name : String} {decl : SlotDecl}
    (hi : name ∈ s.inputs.keys) (hs : s.slots.get? slotName = some decl) :
    name ∉ decl.inputEntries.map Prod.fst := by
  intro hn
  have hd := List.disjoint_of_nodup_append s.nodup_inputNames
  refine hd hi (List.mem_flatMap.mpr ⟨decl, ?_, hn⟩)
  exact List.mem_map.mpr ⟨(slotName, decl), OrderedMap.mem_entries_iff.mpr hs, rfl⟩

/-- No two slots have an input of one name. -/
theorem slot_unique {s : NodeSchema} {slotName slotName' name : String} {decl decl' : SlotDecl}
    (hs : s.slots.get? slotName = some decl) (hs' : s.slots.get? slotName' = some decl')
    (hn : name ∈ decl.inputEntries.map Prod.fst) (hn' : name ∈ decl'.inputEntries.map Prod.fst) :
    slotName = slotName' := by
  have hnodup : (s.slots.entries.flatMap fun e => e.2.inputEntries.map Prod.fst).Nodup := by
    have := (List.nodup_append.mp s.nodup_inputNames).2.1
    rwa [OrderedMap.values, List.flatMap_map] at this
  have hpair := (List.nodup_flatMap.mp hnodup).2
  by_contra hne
  have hmem := OrderedMap.mem_entries_iff.mpr hs
  have hmem' := OrderedMap.mem_entries_iff.mpr hs'
  have hsymm : Std.Symm (Function.onFun List.Disjoint
      fun e : String × SlotDecl => e.2.inputEntries.map Prod.fst) :=
    ⟨fun _ _ h _ hm hm' => h hm' hm⟩
  have hdis := hpair.forall hmem hmem' (by simp [hne])
  exact hdis hn hn'

theorem nodup_slot_inputs {s : NodeSchema} {slotName : String} {decl : SlotDecl}
    (hs : s.slots.get? slotName = some decl) : (decl.inputEntries.map Prod.fst).Nodup := by
  have hnodup := (List.nodup_append.mp s.nodup_inputNames).2.1
  refine (List.nodup_flatMap.mp hnodup).1 decl ?_
  exact List.mem_map.mpr ⟨(slotName, decl), OrderedMap.mem_entries_iff.mpr hs, rfl⟩

/-! ### To which slot an input belongs -/

theorem collectionInputs_eq {s : NodeSchema} {slotName : String} {decl : SlotDecl}
    (hs : s.slots.get? slotName = some decl) : s.collectionInputs slotName = decl.inputEntries := by
  rw [collectionInputs, hs]
  rfl

theorem mem_collectionInputs_iff {s : NodeSchema} {slotName name : String} :
    name ∈ (s.collectionInputs slotName).map Prod.fst ↔
      ∃ decl, s.slots.get? slotName = some decl ∧ name ∈ decl.inputEntries.map Prod.fst := by
  cases hs : s.slots.get? slotName with
  | none => simp [collectionInputs, hs]
  | some decl => simp [collectionInputs_eq hs]

theorem nodup_collectionInputs (s : NodeSchema) (slotName : String) :
    ((s.collectionInputs slotName).map Prod.fst).Nodup := by
  cases hs : s.slots.get? slotName with
  | none => simp [collectionInputs, hs]
  | some decl => exact collectionInputs_eq hs ▸ nodup_slot_inputs hs

/-- An input of a node as a whole belongs to no slot. -/
theorem collectionSlotOf_eq_none_iff {s : NodeSchema} {name : String} :
    s.collectionSlotOf name = .ok none ↔ name ∈ s.inputs.keys := by
  rw [← OrderedMap.contains_iff, collectionSlotOf]
  split
  · next h => simp [h]
  · next h =>
    simp only [h]
    split <;> simp

theorem collectionSlotOf_eq_some_iff {s : NodeSchema} {name slotName : String} :
    s.collectionSlotOf name = .ok (some slotName) ↔
      name ∈ (s.collectionInputs slotName).map Prod.fst := by
  rw [mem_collectionInputs_iff]
  constructor
  · intro h
    rw [collectionSlotOf] at h
    split at h
    · cases h
    · split at h
      · next e he =>
        cases h
        have hmem := List.mem_of_find?_eq_some he
        have hsome := List.find?_some he
        exact ⟨e.2, OrderedMap.mem_entries_iff.mp hmem, lookup_isSome_iff.mp hsome⟩
      · cases h
  · rintro ⟨decl, hs, hn⟩
    have hnot : ¬ s.inputs.contains name = true := fun hc =>
      not_mem_slot_of_mem_inputs (OrderedMap.contains_iff.mp hc) hs hn
    rw [collectionSlotOf, if_neg hnot]
    split
    · next e he =>
      have hmem := List.mem_of_find?_eq_some he
      have hsome := List.find?_some he
      have := slot_unique (OrderedMap.mem_entries_iff.mp hmem) hs
        (lookup_isSome_iff.mp hsome) hn
      rw [this]
    · next hnone =>
      have := List.find?_eq_none.mp hnone _ (OrderedMap.mem_entries_iff.mpr hs)
      exact absurd (lookup_isSome_iff.mpr hn) this

/-- Whatever belongs to a slot, or to the node as a whole, is an identifier. -/
theorem isIdentifier_of_collectionSlotOf {s : NodeSchema} {name : String} {owner : Option String}
    (h : s.collectionSlotOf name = .ok owner) : Declaration.isIdentifier name = true := by
  cases owner with
  | none => exact isIdentifier_of_mem (List.mem_append_left _ (collectionSlotOf_eq_none_iff.mp h))
  | some slotName =>
    obtain ⟨decl, hs, hn⟩ := mem_collectionInputs_iff.mp (collectionSlotOf_eq_some_iff.mp h)
    exact isIdentifier_of_mem (mem_inputNames_of_slot hs hn)

theorem isIdentifier_of_mem_collectionInputs {s : NodeSchema} {name slotName : String}
    (h : name ∈ (s.collectionInputs slotName).map Prod.fst) :
    Declaration.isIdentifier name = true :=
  isIdentifier_of_collectionSlotOf (collectionSlotOf_eq_some_iff.mpr h)

end NodeSchema

/-! ### Keys of addresses -/

theorem Declaration.colon_not_mem {name : String} (h : isIdentifier name = true) :
    ':' ∉ name.toList := by
  intro hmem
  rw [isIdentifier] at h
  split at h
  · cases h
  · next c rest heq =>
    rw [heq] at hmem
    rw [Bool.and_eq_true] at h
    rcases List.mem_cons.mp hmem with rfl | hr
    · exact absurd h.1 (by decide)
    · exact absurd (List.all_eq_true.mp h.2 _ hr) (by decide)

theorem toString_nat_injective {m n : Nat} (h : toString m = toString n) : m = n := by
  have hl := congrArg String.toList h
  rw [Nat.toString_eq_ofList_toDigits, Nat.toString_eq_ofList_toDigits, String.toList_ofList,
    String.toList_ofList] at hl
  rw [← Nat.ofDigitChars_ten_toDigits (n := m), ← Nat.ofDigitChars_ten_toDigits (n := n), hl]

/-- Different numbers behind one text make different texts. -/
theorem append_toString_injective (s : String) :
    Function.Injective fun n : Nat => s ++ toString n := by
  intro m n h
  have hl := congrArg String.toList h
  simp only [String.toList_append] at hl
  exact toString_nat_injective (String.toList_inj.mp (List.append_cancel_left hl))

/-- A list is cut at its first colon in one way only. -/
theorem append_colon_inj {a b c d : List Char} (ha : ':' ∉ a) (hb : ':' ∉ b)
    (h : a ++ ':' :: c = b ++ ':' :: d) : a = b ∧ c = d := by
  induction a generalizing b with
  | nil =>
    cases b with
    | nil => exact ⟨rfl, (List.cons.inj h).2⟩
    | cons y b => exact absurd (by rw [(List.cons.inj h).1]; exact List.mem_cons_self) hb
  | cons x a ih =>
    cases b with
    | nil => exact absurd (by rw [(List.cons.inj h).1]; exact List.mem_cons_self) ha
    | cons y b =>
      simp only [List.cons_append, List.cons.injEq] at h
      rw [List.mem_cons, not_or] at ha hb
      obtain ⟨rfl, hcd⟩ := ih ha.2 hb.2 h.2
      exact ⟨by rw [h.1], hcd⟩

/-- Addresses whose names are identifiers are told apart by their keys. -/
theorem InputAddress.key_injective {a b : InputAddress}
    (ha : Declaration.isIdentifier a.name = true) (hb : Declaration.isIdentifier b.name = true)
    (h : a.key = b.key) : a = b := by
  obtain ⟨m, i⟩ := a
  obtain ⟨n, j⟩ := b
  have hca := Declaration.colon_not_mem ha
  have hcb := Declaration.colon_not_mem hb
  have hl := congrArg String.toList h
  cases i with
  | none =>
    cases j with
    | none =>
      have : m = n := h
      rw [this]
    | some j =>
      have hmem : ':' ∈ m.toList := by
        simp only [key] at hl
        rw [hl]
        simp
      exact absurd hmem hca
  | some i =>
    cases j with
    | none =>
      have hmem : ':' ∈ n.toList := by
        simp only [key] at hl
        rw [← hl]
        simp
      exact absurd hmem hcb
    | some j =>
      simp only [key, String.toList_append, List.append_assoc] at hl
      have hl' : m.toList ++ ':' :: (':' :: (toString i).toList) =
          n.toList ++ ':' :: (':' :: (toString j).toList) := hl
      obtain ⟨hmn, hij⟩ := append_colon_inj hca hcb hl'
      rw [List.cons.injEq] at hij
      have hname : m = n := String.toList_inj.mp hmn
      have hindex : i = j := toString_nat_injective (String.toList_inj.mp hij.2)
      rw [hname, hindex]

end SlotTree
