import SlotTree.Proofs.Node.Places

/-!
# Putting children in and taking them out

One child more or less: a node and the same node with another child at some place.  The children
behind that place stand one position further up in the larger node, and the links that the change
gives them are those of the places they come to.

## Main definitions

* `makeRoom` — the position of a child when another has come to a position.
* `SlotContent.attach`, `SlotContent.detach` — the changes of one slot.
* `SlotContent.Admits`, `SlotContent.HasPlace` — when a child may come, and when one may go.
* `Node.Extends` — a node that has one child more than another.
* `Node.Settles` — the children whose links change get the links of their places.

## Main results

* `Node.addChild_eq_ok_iff`, `Node.removeChild_eq_ok_iff` — when a child is put in and taken out,
  and what comes of it.
* `Node.settles_addChild`, `Node.settles_removeChild` — the links of the children that move.
-/

namespace SlotTree

/-- The position of a child when another one has come to position `k` of the collection. -/
def makeRoom (k : Option Nat) (i : Option Nat) : Option Nat :=
  match k, i with
  | some k, some i => some (if i < k then i else i + 1)
  | _, i => i

theorem makeRoom_injective {k i j : Option Nat} (h : makeRoom k i = makeRoom k j) : i = j := by
  cases k <;> cases i <;> cases j <;> simp only [makeRoom, Option.some.injEq, reduceCtorEq] at h ⊢
  · exact h
  · split at h <;> split at h <;> omega

/-! ### One slot -/

namespace SlotContent

/-- Whether a child may come to a slot: a single slot has to be empty, and a collection has to reach
to the position. -/
def Admits : SlotContent → Option Nat → Prop
  | .single child, index => child = none ∧ index = none
  | .collection ids, index => ∀ i, index = some i → i ≤ ids.length

/-- The place that a child comes to: in a collection the given position, or the last one. -/
def place : SlotContent → Option Nat → Option Nat
  | .single _, _ => none
  | .collection ids, index => some (index.getD ids.length)

/-- Whether a slot has a place: a single slot has one, and a collection has one for each child. -/
def HasPlace : SlotContent → Option Nat → Prop
  | .single _, index => index = none
  | .collection _, none => False
  | .collection ids, some i => i < ids.length

/-- What a slot holds when a child has come to a place. -/
def attach (content : SlotContent) (k : Option Nat) (c : String) : SlotContent :=
  match content, k with
  | .collection ids, some k => .collection (ids.take k ++ c :: ids.drop k)
  | content, none | content@(.single _), _ =>
    match content with
    | .single _ => .single (some c)
    | content => content

/-- What a slot holds when the child at a place has gone. -/
def detach (content : SlotContent) (k : Option Nat) : SlotContent :=
  match content, k with
  | .collection ids, some k => .collection (ids.eraseIdx k)
  | .collection ids, none => .collection ids
  | .single _, _ => .single none

/-- Where a child stands is a place. -/
theorem hasPlace_of_child? {content : SlotContent} {k : Option Nat} {c : String}
    (h : content.child? k = some c) : content.HasPlace k := by
  cases content with
  | single child =>
    cases k with
    | none => rfl
    | some i => cases h
  | collection ids =>
    cases k with
    | none => cases h
    | some i => exact (List.getElem?_eq_some_iff.mp h).1

/-- One slot holds what another does, and one child more, at place `k`. -/
structure Extends (big small : SlotContent) (k : Option Nat) (c : String) : Prop where
  /-- The child stands at its place. -/
  new : big.child? k = some c
  /-- The others make room for it. -/
  old : ∀ i y, small.child? i = some y → big.child? (makeRoom k i) = some y ∧ makeRoom k i ≠ k
  /-- There are no further children. -/
  only : ∀ i y, big.child? i = some y →
    (i = k ∧ y = c) ∨ ∃ j, i = makeRoom k j ∧ small.child? j = some y
  /-- There is one child more. -/
  size : big.size = small.size + 1
  /-- The slots are of one kind. -/
  kind : big.isCollection = small.isCollection

end SlotContent

/-- The items of a list into which one was put. -/
theorem getElem?_splice {ids : List String} {k : Nat} (hk : k ≤ ids.length) (c : String) (i : Nat) :
    (ids.take k ++ c :: ids.drop k)[i]? =
      if i < k then ids[i]? else if i = k then some c else ids[i - 1]? := by
  have hlen : (ids.take k).length = k := by rw [List.length_take]; omega
  rw [List.getElem?_append, hlen]
  split
  · next h => rw [List.getElem?_take, if_pos h]
  · next h =>
    split
    · next heq => simp [heq]
    · next hne =>
      obtain ⟨m, hm⟩ : ∃ m, i - k = m + 1 := ⟨i - k - 1, by omega⟩
      rw [hm, List.getElem?_cons_succ, List.getElem?_drop]
      congr 1
      omega

theorem splice_eraseIdx {ids : List String} {k : Nat} {c : String} (h : ids[k]? = some c) :
    (ids.eraseIdx k).take k ++ c :: (ids.eraseIdx k).drop k = ids := by
  obtain ⟨hk, hc⟩ := List.getElem?_eq_some_iff.mp h
  refine List.ext_getElem? fun i => ?_
  have hle : k ≤ (ids.eraseIdx k).length := by rw [List.length_eraseIdx_of_lt hk]; omega
  rw [getElem?_splice hle]
  split
  · next hi => rw [List.getElem?_eraseIdx_of_lt hi]
  · next hi =>
    split
    · next heq => rw [heq, h]
    · next hne =>
      rw [List.getElem?_eraseIdx_of_ge (by omega)]
      congr 1
      omega

theorem eraseIdx_splice {ids : List String} {k : Nat} (hk : k ≤ ids.length) (c : String) :
    (ids.take k ++ c :: ids.drop k).eraseIdx k = ids := by
  have hlen : (ids.take k).length = k := by rw [List.length_take]; omega
  rw [List.eraseIdx_append_of_length_le (by omega), hlen, Nat.sub_self, List.eraseIdx_cons_zero,
    List.take_append_drop]

namespace SlotContent

theorem extends_splice {ids : List String} {k : Nat} (hk : k ≤ ids.length) (c : String) :
    Extends (.collection (ids.take k ++ c :: ids.drop k)) (.collection ids) (some k) c where
  new := by
    rw [child?_collection_some, getElem?_splice hk, if_neg (Nat.lt_irrefl k), if_pos rfl]
  old := by
    intro i y hy
    cases i with
    | none => cases hy
    | some i =>
      rw [child?_collection_some] at hy
      simp only [makeRoom, child?_collection_some, getElem?_splice hk, ne_eq, Option.some.injEq]
      by_cases hi : i < k
      · exact ⟨by simp [hi, hy], by simp [hi]; omega⟩
      · have h1 : ¬ i + 1 < k := by omega
        have h2 : ¬ i + 1 = k := by omega
        exact ⟨by simp [hi, h1, h2, hy], by simp [hi, h2]⟩
  -- what stands at a position is the new child, or stood there or one position before
  only := by
    intro i y hy
    cases i with
    | none => cases hy
    | some i =>
      rw [child?_collection_some, getElem?_splice hk] at hy
      split at hy
      · next hi => exact .inr ⟨some i, by simp [makeRoom, hi], hy⟩
      · next hi =>
        split at hy
        · next heq => exact .inl ⟨by rw [heq], (Option.some.inj hy).symm⟩
        · next hne =>
          refine .inr ⟨some (i - 1), ?_, hy⟩
          have h1 : ¬ i - 1 < k := by omega
          simp only [makeRoom, h1, if_false, Option.some.injEq]
          omega
  size := by
    simp only [SlotContent.size, List.length_append, List.length_take, List.length_cons,
      List.length_drop]
    omega
  kind := rfl

theorem extends_single (c : String) : Extends (.single (some c)) (.single none) none c where
  new := rfl
  old := by
    intro i y hy
    cases i <;> cases hy
  only := by
    intro i y hy
    cases i with
    | none => exact .inl ⟨rfl, (Option.some.inj hy).symm⟩
    | some i => cases hy
  size := rfl
  kind := rfl

/-- A slot into which a child was put. -/
theorem Admits.extends_attach {content : SlotContent} {index : Option Nat}
    (h : content.Admits index) (c : String) :
    Extends (content.attach (content.place index) c) content (content.place index) c := by
  cases content with
  | single child =>
    obtain ⟨rfl, -⟩ := h
    exact extends_single c
  | collection ids =>
    refine extends_splice ?_ c
    cases index with
    | none => exact Nat.le_refl _
    | some i => exact h i rfl

/-- A slot from which a child was taken. -/
theorem extends_detach {content : SlotContent} {k : Option Nat} {c : String}
    (h : content.child? k = some c) : Extends content (content.detach k) k c := by
  cases content with
  | single child =>
    cases k with
    | none =>
      rw [child?_single_none] at h
      subst h
      exact extends_single c
    | some k => cases h
  | collection ids =>
    cases k with
    | none => cases h
    | some k =>
      rw [child?_collection_some] at h
      obtain ⟨hk, -⟩ := List.getElem?_eq_some_iff.mp h
      have hle : k ≤ (ids.eraseIdx k).length := by rw [List.length_eraseIdx_of_lt hk]; omega
      have := extends_splice hle c
      rwa [splice_eraseIdx h] at this

theorem detach_attach {content : SlotContent} {index : Option Nat} (h : content.Admits index)
    (c : String) :
    (content.attach (content.place index) c).detach (content.place index) = content := by
  cases content with
  | single child =>
    obtain ⟨rfl, -⟩ := h
    rfl
  | collection ids =>
    simp only [place, attach, detach, collection.injEq]
    refine eraseIdx_splice ?_ c
    cases index with
    | none => exact Nat.le_refl _
    | some i => exact h i rfl

theorem attach_detach {content : SlotContent} {k : Option Nat} {c : String}
    (h : content.child? k = some c) : (content.detach k).attach k c = content := by
  cases content with
  | single child =>
    cases k with
    | none =>
      rw [child?_single_none] at h
      subst h
      rfl
    | some k => cases h
  | collection ids =>
    cases k with
    | none => cases h
    | some k =>
      simp only [detach, attach, collection.injEq]
      exact splice_eraseIdx h

/-- The place of a child that was taken out is free again. -/
theorem admits_detach {content : SlotContent} {k : Option Nat} {c : String}
    (h : content.child? k = some c) :
    (content.detach k).Admits k ∧ (content.detach k).place k = k := by
  cases content with
  | single child =>
    cases k with
    | none => exact ⟨⟨rfl, rfl⟩, rfl⟩
    | some k => cases h
  | collection ids =>
    cases k with
    | none => cases h
    | some k =>
      rw [child?_collection_some] at h
      obtain ⟨hk, -⟩ := List.getElem?_eq_some_iff.mp h
      refine ⟨?_, rfl⟩
      rintro i ⟨⟩
      rw [List.length_eraseIdx_of_lt hk]
      omega

end SlotContent

/-! ### One node -/

namespace Node

/-- One node holds what another does, and one child more, at place `k` of a slot. -/
structure Extends (big small : Node) (slotName : String) (k : Option Nat) (c : String) : Prop where
  /-- The nodes have one id. -/
  id : big.id = small.id
  /-- The nodes have one schema. -/
  schema : big.schema = small.schema
  /-- The nodes hang at one place. -/
  parent : big.parent = small.parent
  /-- The slots have the same names. -/
  keys : big.slots.keys = small.slots.keys
  /-- The other slots hold the same. -/
  other : ∀ s, s ≠ slotName → big.slots.get? s = small.slots.get? s
  /-- The slot holds one child more. -/
  slot : ∃ b a, big.slots.get? slotName = some b ∧ small.slots.get? slotName = some a ∧
    b.Extends a k c

namespace Extends

variable {big small : Node} {slotName c : String} {k : Option Nat}

theorem new (h : Extends big small slotName k c) : big.child? slotName k = some c := by
  obtain ⟨b, a, hb, -, hab⟩ := h.slot
  rw [child?_of_get? hb]
  exact hab.new

/-- A child of the smaller node stands at some place of the larger one, not that of the new
child. -/
theorem old (h : Extends big small slotName k c) {s y : String} {i : Option Nat}
    (hy : small.child? s i = some y) :
    ∃ j, big.child? s j = some y ∧ ¬ (s = slotName ∧ j = k) ∧
      j = if s = slotName then makeRoom k i else i := by
  by_cases hs : s = slotName
  · subst hs
    obtain ⟨b, a, hb, ha, hab⟩ := h.slot
    rw [child?_of_get? ha] at hy
    obtain ⟨hold, hne⟩ := hab.old i y hy
    exact ⟨makeRoom k i, by rw [child?_of_get? hb]; exact hold, fun hc => hne hc.2, by simp⟩
  · refine ⟨i, ?_, fun hc => hs hc.1, by simp [hs]⟩
    rwa [child?, h.other s hs]

theorem only (h : Extends big small slotName k c) {s y : String} {i : Option Nat}
    (hy : big.child? s i = some y) :
    (s = slotName ∧ i = k ∧ y = c) ∨
      ∃ j, small.child? s j = some y ∧ i = if s = slotName then makeRoom k j else j := by
  by_cases hs : s = slotName
  · subst hs
    obtain ⟨b, a, hb, ha, hab⟩ := h.slot
    rw [child?_of_get? hb] at hy
    rcases hab.only i y hy with ⟨hi, hc⟩ | ⟨j, hi, hj⟩
    · exact .inl ⟨rfl, hi, hc⟩
    · exact .inr ⟨j, by rw [child?_of_get? ha]; exact hj, by simp [hi]⟩
  · refine .inr ⟨i, ?_, by simp [hs]⟩
    rwa [child?, ← h.other s hs]

theorem fits_small (h : Extends big small slotName k c) (hf : big.FitsSchema) :
    small.FitsSchema where
  keys := by rw [← h.keys, ← h.schema]; exact hf.keys
  kind := by
    intro s content decl hc hd
    rw [← h.schema] at hd
    by_cases hs : s = slotName
    · subst hs
      obtain ⟨b, a, hb, ha, hab⟩ := h.slot
      rw [ha, Option.some.injEq] at hc
      rw [← hc, ← hab.kind]
      exact hf.kind s b decl hb hd
    · rw [← h.other s hs] at hc
      exact hf.kind s content decl hc hd

theorem fits_big (h : Extends big small slotName k c) (hf : small.FitsSchema) :
    big.FitsSchema where
  keys := by rw [h.keys, h.schema]; exact hf.keys
  kind := by
    intro s content decl hc hd
    rw [h.schema] at hd
    by_cases hs : s = slotName
    · subst hs
      obtain ⟨b, a, hb, ha, hab⟩ := h.slot
      rw [hb, Option.some.injEq] at hc
      rw [← hc, hab.kind]
      exact hf.kind s a decl ha hd
    · rw [h.other s hs] at hc
      exact hf.kind s content decl hc hd

/-- Two places of the smaller node come to two places of the larger one. -/
theorem distinct_small (h : Extends big small slotName k c) (hd : big.Distinct) :
    small.Distinct := by
  intro s i s' i' y hy hy'
  obtain ⟨j, hj, -, hjeq⟩ := h.old hy
  obtain ⟨j', hj', -, hjeq'⟩ := h.old hy'
  obtain ⟨rfl, rfl⟩ := hd _ _ _ _ _ hj hj'
  refine ⟨rfl, ?_⟩
  rw [hjeq] at hjeq'
  split at hjeq'
  · exact makeRoom_injective hjeq'
  · exact hjeq'

/-- The new child was no child of the smaller node. -/
theorem not_mem_small (h : Extends big small slotName k c) (hd : big.Distinct) {s : String}
    {i : Option Nat} : small.child? s i ≠ some c := by
  intro hc
  obtain ⟨j, hj, hne, -⟩ := h.old hc
  exact hne (hd _ _ _ _ _ hj h.new)

theorem distinct_big (h : Extends big small slotName k c) (hd : small.Distinct)
    (hc : ∀ s i, small.child? s i ≠ some c) : big.Distinct := by
  intro s i s' i' y hy hy'
  rcases h.only hy with ⟨rfl, rfl, rfl⟩ | ⟨j, hj, rfl⟩
  · rcases h.only hy' with ⟨rfl, rfl, -⟩ | ⟨j', hj', -⟩
    · exact ⟨rfl, rfl⟩
    · exact absurd hj' (hc _ _)
  · rcases h.only hy' with ⟨rfl, rfl, rfl⟩ | ⟨j', hj', rfl⟩
    · exact absurd hj (hc _ _)
    · obtain ⟨rfl, rfl⟩ := hd _ _ _ _ _ hj hj'
      exact ⟨rfl, rfl⟩

end Extends

theorem slot_eq_ok {n : Node} {s : String} {content : SlotContent} :
    n.slot s = .ok content ↔ n.slots.get? s = some content := by
  rw [slot]
  cases n.slots.get? s <;> simp

/-- The links of the children that a node gives when a child has come to a place or gone from it. -/
def movedLinks (n : Node) (slotName : String) (from? : Option Nat) (content : SlotContent) :
    MovedChildren :=
  match content, from? with
  | .collection ids, some k => n.linksFrom slotName k ids
  | _, _ => .empty

/-- The bindings of a node when a child has come to place `k` of a slot that held `size` children.
-/
def inputsWithRoom (n : Node) (slotName : String) (k : Option Nat) (size : Nat) :
    SortedMap TypedExpression :=
  match k with
  | none => n.inputs
  | some k => n.shiftInputs slotName (shiftUp k size)

/-- The bindings of a node when the child at place `k` has gone from a slot that held `size`
children. -/
def inputsWithoutGap (n : Node) (slotName : String) (k : Option Nat) (size : Nat) :
    SortedMap TypedExpression :=
  match k with
  | none => n.inputs
  | some k => n.shiftInputs slotName (shiftDown k size)

/-- What a node becomes when a child comes to a place. -/
def attach (n : Node) (slotName : String) (content : SlotContent) (k : Option Nat) (c : String) :
    Node :=
  { n with
    slots := n.slots.insert slotName (content.attach k c)
    inputs := n.inputsWithRoom slotName k content.size }

/-- What a node becomes when the child at a place goes. -/
def detach (n : Node) (slotName : String) (content : SlotContent) (k : Option Nat) : Node :=
  { n with
    slots := n.slots.insert slotName (content.detach k)
    inputs := n.inputsWithoutGap slotName k content.size }

@[simp] theorem get?_slots_attach (n : Node) (slotName : String) (content : SlotContent)
    (k : Option Nat) (c : String) :
    (n.attach slotName content k c).slots.get? slotName = some (content.attach k c) := by
  rw [attach, OrderedMap.get?_insert, if_pos rfl]

@[simp] theorem get?_slots_detach (n : Node) (slotName : String) (content : SlotContent)
    (k : Option Nat) : (n.detach slotName content k).slots.get? slotName =
      some (content.detach k) := by
  rw [detach, OrderedMap.get?_insert, if_pos rfl]

/-- A child is put in exactly if the slot exists and admits it. -/
theorem addChild_eq_ok_iff {n : Node} {c slotName : String} {index : Option Nat}
    {r : Node × ParentLink × MovedChildren} :
    n.addChild c slotName index = .ok r ↔
      ∃ content, n.slots.get? slotName = some content ∧ content.Admits index ∧
        r = (n.attach slotName content (content.place index) c,
          ⟨n.id, slotName, content.place index⟩,
          n.movedLinks slotName ((content.place index).map (· + 1))
            (content.attach (content.place index) c)) := by
  rw [addChild]
  cases hs : n.slots.get? slotName with
  | none => simp [slot, hs]
  | some content =>
    rw [slot_eq_ok.mpr hs, Outcome.ok_bind]
    simp only [Option.some.injEq, exists_eq_left']
    cases content with
    | single child =>
      cases index <;> cases child <;>
        simp [SlotContent.Admits, SlotContent.place, SlotContent.attach, attach, movedLinks,
          inputsWithRoom, Outcome.pure_eq_ok, Outcome.throw_eq_error, eq_comm]
    | collection ids =>
      -- a position behind the last one is refused; without a position the child comes last
      by_cases hlt : ids.length < index.getD ids.length
      · have hnot : ¬ ∀ i, index = some i → i ≤ ids.length := by
          intro h
          cases index with
          | none => exact absurd hlt (Nat.lt_irrefl _)
          | some i => exact absurd (h i rfl) (Nat.not_le.mpr hlt)
        simp [hlt, SlotContent.Admits, hnot, Outcome.throw_eq_error]
      · have hall : ∀ i, index = some i → i ≤ ids.length := by
          rintro i rfl
          exact Nat.not_lt.mp hlt
        have hadmits : (SlotContent.collection ids).Admits index := hall
        simp only [hlt, if_false, hadmits, true_and, SlotContent.place, SlotContent.attach,
          Outcome.pure_eq_ok, Except.ok.injEq]
        exact eq_comm

/-- A child is taken out exactly if the slot has the place. -/
theorem removeChild_eq_ok_iff {n : Node} {slotName : String} {index : Option Nat}
    {r : Node × MovedChildren} :
    n.removeChild slotName index = .ok r ↔
      ∃ content, n.slots.get? slotName = some content ∧ content.HasPlace index ∧
        r = (n.detach slotName content index,
          n.movedLinks slotName index (content.detach index)) := by
  rw [removeChild]
  cases hs : n.slots.get? slotName with
  | none => simp [slot, hs]
  | some content =>
    rw [slot_eq_ok.mpr hs, Outcome.ok_bind]
    simp only [Option.some.injEq, exists_eq_left']
    cases content with
    | single child =>
      cases index with
      | none =>
        simp only [Option.isSome_none, Bool.false_eq_true, if_false, Outcome.pure_eq_ok,
          Except.ok.injEq, SlotContent.HasPlace, true_and]
        exact eq_comm
      | some i => simp [SlotContent.HasPlace, Outcome.throw_eq_error]
    | collection ids =>
      cases index with
      | none => simp [SlotContent.HasPlace, Outcome.throw_eq_error]
      | some i =>
        by_cases hi : i < ids.length
        · simp only [Nat.not_le.mpr hi, if_false, Outcome.pure_eq_ok, Except.ok.injEq,
            SlotContent.HasPlace, hi, true_and]
          exact eq_comm
        · simp [SlotContent.HasPlace, Nat.not_lt.mp hi, hi, Outcome.throw_eq_error]

theorem removeChild_eq_ok {n : Node} {c slotName : String} {content : SlotContent}
    {k : Option Nat} (hs : n.slots.get? slotName = some content)
    (hc : content.child? k = some c) :
    n.removeChild slotName k = .ok (n.detach slotName content k,
      n.movedLinks slotName k (content.detach k)) :=
  removeChild_eq_ok_iff.mpr ⟨content, hs, SlotContent.hasPlace_of_child? hc, rfl⟩

theorem extends_attach {n : Node} {slotName : String} {content : SlotContent}
    {index : Option Nat} (hs : n.slots.get? slotName = some content) (ha : content.Admits index)
    (c : String) :
    Extends (n.attach slotName content (content.place index) c) n slotName (content.place index)
      c where
  id := rfl
  schema := rfl
  parent := rfl
  keys := OrderedMap.keys_insert hs _
  other := by
    intro s hne
    rw [attach, OrderedMap.get?_insert, if_neg (Ne.symm hne)]
  slot := ⟨_, content, get?_slots_attach .., hs, ha.extends_attach c⟩

theorem extends_detach {n : Node} {slotName c : String} {content : SlotContent} {k : Option Nat}
    (hs : n.slots.get? slotName = some content) (hc : content.child? k = some c) :
    Extends n (n.detach slotName content k) slotName k c where
  id := rfl
  schema := rfl
  parent := rfl
  keys := (OrderedMap.keys_insert hs _).symm
  other := by
    intro s hne
    rw [detach, OrderedMap.get?_insert, if_neg (Ne.symm hne)]
  slot := ⟨content, _, hs, get?_slots_detach .., SlotContent.extends_detach hc⟩

/-! ### The links of the children that move -/

/-- The links that a change gives to the children that move: those of the places where they stand
after it.  The child `c`, which comes or goes, is not among them. -/
structure Settles (n n' : Node) (c : String) (moved : MovedChildren) : Prop where
  /-- A child stands where it did, or has a new link to where it stands. -/
  links : ∀ s i y, n'.child? s i = some y → y ≠ c → moved.get? y = some ⟨n.id, s, i⟩ ∨
    (moved.get? y = none ∧ n.child? s i = some y)
  /-- New links are those of places, and only children have them. -/
  given : ∀ y l, moved.get? y = some l → y ≠ c ∧ l.nodeId = n.id ∧
    n'.child? l.slotName l.index = some y ∧ ∃ i, n.child? l.slotName i = some y
  /-- A child without a new link stands where it did. -/
  still : ∀ s i y, n.child? s i = some y → y ≠ c → moved.get? y = none → n'.child? s i = some y

theorem get?_linksFrom {n : Node} {slotName y : String} {position : Nat} {ids : List String}
    {l : ParentLink} (hd : ids.Nodup) :
    (n.linksFrom slotName position ids).get? y = some l ↔
      ∃ j, position ≤ j ∧ ids[j]? = some y ∧ l = ⟨n.id, slotName, some j⟩ := by
  have hkeys : ((((SlotContent.numbered position (ids.drop position)).map fun child =>
      (child.2, (⟨n.id, slotName, child.1⟩ : ParentLink)))).map Prod.fst).Nodup := by
    rw [List.map_map]
    have := SlotContent.map_snd_numbered position (ids.drop position)
    rw [show (Prod.fst ∘ fun child : Option Nat × String =>
      (child.2, (⟨n.id, slotName, child.1⟩ : ParentLink))) = Prod.snd from rfl, this]
    exact hd.sublist (List.drop_sublist _ _)
  rw [linksFrom, SortedMap.get?_ofList hkeys]
  constructor
  · intro h
    obtain ⟨⟨i, id⟩, hmem, heq⟩ := List.mem_map.mp (mem_of_lookup h)
    cases heq
    obtain ⟨j, rfl, hj⟩ := SlotContent.mem_numbered_iff.mp hmem
    rw [List.getElem?_drop] at hj
    exact ⟨position + j, by omega, hj, rfl⟩
  · rintro ⟨j, hle, hj, rfl⟩
    refine lookup_eq_some_of_mem hkeys (List.mem_map.mpr ⟨(some j, y), ?_, rfl⟩)
    refine SlotContent.mem_numbered_iff.mpr ⟨j - position, by congr; omega, ?_⟩
    rw [List.getElem?_drop, ← hj]
    congr 1
    omega

/-- A child that does not stand among those behind a position gets no link. -/
theorem get?_linksFrom_eq_none {n : Node} {slotName y : String} {position : Nat} {ids : List String}
    (hd : ids.Nodup) (h : ∀ j, position ≤ j → ids[j]? ≠ some y) :
    (n.linksFrom slotName position ids).get? y = none := by
  rw [Option.eq_none_iff_forall_ne_some]
  intro l hl
  obtain ⟨j, hj, hy, -⟩ := (get?_linksFrom hd).mp hl
  exact h j hj hy

theorem Distinct.nodup_collection {n : Node} (hd : n.Distinct) {s : String} {ids : List String}
    (hs : n.slots.get? s = some (.collection ids)) : ids.Nodup := by
  rw [List.nodup_iff_pairwise_ne, List.pairwise_iff_getElem]
  intro i j hi hj hlt heq
  have h1 : n.child? s (some i) = some ids[i] := by rw [child?_of_get? hs]; simp [hi]
  have h2 : n.child? s (some j) = some ids[i] := by rw [child?_of_get? hs]; simp [hj, heq]
  obtain ⟨-, hij⟩ := hd _ _ _ _ _ h1 h2
  cases hij
  exact Nat.lt_irrefl _ hlt

/-- A single slot moves no child. -/
theorem Extends.settles_single {big small : Node} {slotName c : String} {k : Option Nat}
    (h : Extends big small slotName k c) (hk : k = none) :
    Settles small big c .empty ∧ Settles big small c .empty := by
  subst hk
  have hroom : ∀ s i, (if s = slotName then makeRoom none i else i) = i := by
    intro s i
    split <;> cases i <;> rfl
  constructor
  · exact {
      links := by
        intro s i y hy hne
        rcases h.only hy with ⟨-, -, rfl⟩ | ⟨j, hj, rfl⟩
        · exact absurd rfl hne
        · rw [hroom]
          exact .inr ⟨rfl, hj⟩
      given := by
        intro y l hl
        cases hl
      still := by
        intro s i y hy _ _
        obtain ⟨j, hj, -, rfl⟩ := h.old hy
        rwa [hroom] at hj }
  · exact {
      links := by
        intro s i y hy _
        obtain ⟨j, hj, -, rfl⟩ := h.old hy
        rw [hroom] at hj
        exact .inr ⟨rfl, hj⟩
      given := by
        intro y l hl
        cases hl
      still := by
        intro s i y hy hne _
        rcases h.only hy with ⟨-, -, rfl⟩ | ⟨j, hj, rfl⟩
        · exact absurd rfl hne
        · rwa [hroom] }

/-- In a collection the children behind the new one come one position further up. -/
theorem Extends.settles_up {big small : Node} {slotName c : String} {k : Nat}
    {ids : List String} (h : Extends big small slotName (some k) c) (hb : big.Distinct)
    (hids : big.slots.get? slotName = some (.collection ids)) :
    Settles small big c (small.linksFrom slotName (k + 1) ids) where
  links := by
    have hnd := hb.nodup_collection hids
    intro s i y hy hne
    rcases h.only hy with ⟨-, -, rfl⟩ | ⟨j, hj, rfl⟩
    · exact absurd rfl hne
    · by_cases hs : s = slotName
      · subst hs
        rw [if_pos rfl] at hy ⊢
        rw [child?_of_get? hids] at hy
        cases j with
        | none => cases hy
        | some j =>
          by_cases hjk : j < k
          · -- the child stands in front of the new one
            simp only [makeRoom, hjk, if_true] at hy ⊢
            refine .inr ⟨get?_linksFrom_eq_none hnd fun m hm hy' => ?_, hj⟩
            have := (List.getElem?_inj (List.getElem?_eq_some_iff.mp hy).1 hnd).mp
              (hy.trans hy'.symm)
            omega
          · -- it stands behind, and has its new link
            simp only [makeRoom, hjk, if_false] at hy ⊢
            exact .inl ((get?_linksFrom hnd).mpr ⟨j + 1, by omega, hy, rfl⟩)
      · -- the other slots are as they were
        rw [if_neg hs] at hy ⊢
        refine .inr ⟨get?_linksFrom_eq_none hnd fun m _ hy' => ?_, hj⟩
        exact hs (hb _ _ _ _ _ hy ((child?_of_get? hids (some m)).trans hy')).1
  given := by
    intro y l hl
    obtain ⟨j, hj, hy, rfl⟩ := (get?_linksFrom (hb.nodup_collection hids)).mp hl
    have hy' : big.child? slotName (some j) = some y := (child?_of_get? hids _).trans hy
    have hne : y ≠ c := by
      rintro rfl
      have := (hb _ _ _ _ _ hy' h.new).2
      cases this
      omega
    refine ⟨hne, rfl, hy', ?_⟩
    rcases h.only hy' with ⟨-, -, rfl⟩ | ⟨m, hm, -⟩
    · exact absurd rfl hne
    · exact ⟨m, hm⟩
  still := by
    intro s i y hy hne hnone
    obtain ⟨j, hj, -, rfl⟩ := h.old hy
    by_cases hs : s = slotName
    · subst hs
      rw [if_pos rfl] at hj
      cases i with
      | none => exact hj
      | some i =>
        by_cases hik : i < k
        · simpa only [makeRoom, hik, if_true] using hj
        · -- a child behind the new one has a link
          simp only [makeRoom, hik, if_false] at hj
          have hmoved : (small.linksFrom s (k + 1) ids).get? y = some ⟨small.id, s, some (i + 1)⟩ :=
            (get?_linksFrom (hb.nodup_collection hids)).mpr
              ⟨i + 1, by omega, (child?_of_get? hids _).symm.trans hj, rfl⟩
          rw [hnone] at hmoved
          cases hmoved
    · rwa [if_neg hs] at hj

/-- In a collection the children behind the one that has gone come one position further down. -/
theorem Extends.settles_down {big small : Node} {slotName c : String} {k : Nat}
    {ids : List String} (h : Extends big small slotName (some k) c) (hb : big.Distinct)
    (hids : small.slots.get? slotName = some (.collection ids)) :
    Settles big small c (big.linksFrom slotName k ids) where
  links := by
    have hsmall := h.distinct_small hb
    have hnd := hsmall.nodup_collection hids
    intro s i y hy hne
    obtain ⟨j, hj, -, rfl⟩ := h.old hy
    by_cases hs : s = slotName
    · subst hs
      rw [if_pos rfl] at hj
      rw [child?_of_get? hids] at hy
      cases i with
      | none => cases hy
      | some i =>
        by_cases hik : i < k
        · -- the child stands in front of the one that has gone
          simp only [makeRoom, hik, if_true] at hj
          refine .inr ⟨get?_linksFrom_eq_none hnd fun m hm hy' => ?_, hj⟩
          have := (List.getElem?_inj (List.getElem?_eq_some_iff.mp hy).1 hnd).mp
            (hy.trans hy'.symm)
          omega
        · -- it stood behind, and has its new link
          exact .inl ((get?_linksFrom hnd).mpr ⟨i, by omega, hy, rfl⟩)
    · -- the other slots are as they were
      rw [if_neg hs] at hj
      refine .inr ⟨get?_linksFrom_eq_none hnd fun m _ hy' => ?_, hj⟩
      exact hs (hsmall _ _ _ _ _ hy ((child?_of_get? hids (some m)).trans hy')).1
  given := by
    intro y l hl
    obtain ⟨j, hj, hy, rfl⟩ :=
      (get?_linksFrom ((h.distinct_small hb).nodup_collection hids)).mp hl
    have hy' : small.child? slotName (some j) = some y := (child?_of_get? hids _).trans hy
    have hne : y ≠ c := fun he => h.not_mem_small hb (he ▸ hy')
    obtain ⟨m, hm, -, -⟩ := h.old hy'
    exact ⟨hne, rfl, hy', m, hm⟩
  still := by
    have hnd := (h.distinct_small hb).nodup_collection hids
    intro s i y hy hne hnone
    rcases h.only hy with ⟨-, -, rfl⟩ | ⟨j, hj, rfl⟩
    · exact absurd rfl hne
    · by_cases hs : s = slotName
      · subst hs
        rw [if_pos rfl]
        cases j with
        | none => exact hj
        | some j =>
          by_cases hjk : j < k
          · simpa only [makeRoom, hjk, if_true] using hj
          · -- a child behind the one that has gone has a link
            have hmoved : (big.linksFrom s k ids).get? y = some ⟨big.id, s, some j⟩ :=
              (get?_linksFrom hnd).mpr
                ⟨j, by omega, (child?_of_get? hids _).symm.trans hj, rfl⟩
            rw [hnone] at hmoved
            cases hmoved
      · rwa [if_neg hs]

/-- The children that move when a child is put in get the links of their places. -/
theorem settles_addChild {n : Node} {slotName c : String} {content : SlotContent}
    {index : Option Nat} (hs : n.slots.get? slotName = some content) (ha : content.Admits index)
    (hb : (n.attach slotName content (content.place index) c).Distinct) :
    Settles n (n.attach slotName content (content.place index) c) c
      (n.movedLinks slotName ((content.place index).map (· + 1))
        (content.attach (content.place index) c)) := by
  have hext := extends_attach hs ha c
  cases content with
  | single child => exact (hext.settles_single rfl).1
  | collection ids =>
    exact hext.settles_up hb (get?_slots_attach ..)

/-- The children that move when a child is taken out get the links of their places. -/
theorem settles_removeChild {n : Node} {slotName c : String} {content : SlotContent}
    {k : Option Nat} (hs : n.slots.get? slotName = some content)
    (hc : content.child? k = some c) (hb : n.Distinct) :
    Settles n (n.detach slotName content k) c
      (n.movedLinks slotName k (content.detach k)) := by
  have hext := extends_detach hs hc
  cases content with
  | single child =>
    cases k with
    | none => exact (hext.settles_single rfl).2
    | some k => cases hc
  | collection ids =>
    cases k with
    | none => cases hc
    | some k =>
      exact hext.settles_down hb (get?_slots_detach ..)

end Node

end SlotTree
