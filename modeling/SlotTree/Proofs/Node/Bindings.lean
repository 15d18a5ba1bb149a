import SlotTree.Proofs.Node.Children
import SlotTree.Proofs.Schema.Inputs

/-!
# Bindings of a node

Bindings are kept under keys, and enumerated by the addresses that the schema and the slots declare.
In a tidy node every key is that of a declared address, so nothing is bound that the enumeration
does not show.  When a child comes or goes, each binding of a collection slot follows its child.

## Main definitions

* `Node.Declares` — the addresses of a node that can be bound.
* `Node.Tidy` — only declared addresses are bound.
* `Node.Inherits` — bindings that follow their children.

## Main results

* `Node.setInput_eq_ok_iff` — an address is bound exactly if it is declared.
* `Node.mem_boundInputs_iff` — the bound addresses are what look-ups find.
* `Node.inherits_attach`, `Node.inherits_detach` — bindings follow their children.
* `Node.Tidy.ext` — tidy nodes with the same bindings at the declared addresses are the same.
-/

namespace SlotTree

/-! ### Moving bindings along keys -/

section Shift

variable {K : Nat → String}

theorem get?_moveBinding {m : SortedMap TypedExpression} {source target : String}
    (ht : m.get? target = none) (k : String) :
    (Node.moveBinding m source target).get? k =
      if target = k then m.get? source else if source = k then none else m.get? k := by
  rw [Node.moveBinding]
  cases hs : m.get? source with
  | some e => simp only [SortedMap.get?_insert, SortedMap.get?_erase]
  | none =>
    by_cases htk : target = k
    · rw [if_pos htk, ← htk]
      exact ht
    · by_cases hsk : source = k
      · rw [if_neg htk, if_pos hsk, ← hsk]
        exact hs
      · rw [if_neg htk, if_neg hsk]

/-- From the last key downwards, every binding moves up by one. -/
theorem get?_moveUp (hK : Function.Injective K) (n : Nat) :
    ∀ (q : Nat) (m : SortedMap TypedExpression), m.get? (K (q + n)) = none →
      (∀ j, ((List.range' q n).reverse.foldl
        (fun m i => Node.moveBinding m (K i) (K (i + 1))) m).get? (K j) =
          if j < q then m.get? (K j) else if j = q then none
          else if j ≤ q + n then m.get? (K (j - 1)) else m.get? (K j)) ∧
      ∀ k, (∀ j, k ≠ K j) → ((List.range' q n).reverse.foldl
        (fun m i => Node.moveBinding m (K i) (K (i + 1))) m).get? k = m.get? k := by
  induction n with
  | zero =>
    intro q m htop
    refine ⟨fun j => ?_, fun k _ => rfl⟩
    rw [Nat.add_zero] at htop ⊢
    split
    · rfl
    · split
      · next h => rw [h]; exact htop
      · split
        · omega
        · rfl
  | succ n ih =>
    intro q m htop
    rw [List.range'_succ, List.reverse_cons, List.foldl_append, List.foldl_cons, List.foldl_nil]
    obtain ⟨hown, hother⟩ := ih (q + 1) m (by rwa [Nat.add_right_comm])
    -- the key that the last binding moves to has been vacated before
    have hvacant := hown (q + 1)
    rw [if_neg (Nat.lt_irrefl _), if_pos rfl] at hvacant
    refine ⟨fun j => ?_, fun k hk => ?_⟩
    · rw [get?_moveBinding hvacant, hown, hown, if_pos (Nat.lt_succ_self q)]
      simp only [hK.eq_iff]
      rcases Nat.lt_trichotomy j q with hj | rfl | hj
      · rw [if_neg (by omega), if_neg (by omega), if_pos (by omega), if_pos hj]
      · rw [if_neg (by omega), if_pos rfl, if_neg (Nat.lt_irrefl j), if_pos rfl]
      · rcases Nat.eq_or_lt_of_le hj with rfl | hj'
        · rw [if_pos rfl, if_neg (by omega), if_neg (by omega), if_pos (by omega)]
          rfl
        · rw [if_neg (by omega), if_neg (by omega), if_neg (by omega), if_neg (by omega),
            if_neg (show ¬ j < q by omega), if_neg (show ¬ j = q by omega), Nat.add_assoc,
            Nat.add_comm 1 n]
    · rw [get?_moveBinding hvacant, if_neg (Ne.symm (hk _)), if_neg (Ne.symm (hk _)), hother k hk]

/-- From a key upwards, every binding moves down by one, the first one to a vacant key. -/
theorem get?_moveDown (hK : Function.Injective K) (p n : Nat) (m : SortedMap TypedExpression)
    (hvacant : m.get? (K p) = none) :
    (∀ j, ((List.range' (p + 1) n).foldl
      (fun m i => Node.moveBinding m (K i) (K (i - 1))) m).get? (K j) =
        if j < p then m.get? (K j) else if j < p + n then m.get? (K (j + 1))
        else if j = p + n then none else m.get? (K j)) ∧
    ∀ k, (∀ j, k ≠ K j) → ((List.range' (p + 1) n).foldl
      (fun m i => Node.moveBinding m (K i) (K (i - 1))) m).get? k = m.get? k := by
  induction n with
  | zero =>
    refine ⟨fun j => ?_, fun k _ => rfl⟩
    rw [List.range'_zero, List.foldl_nil]
    by_cases hj : j = p
    · rw [if_neg (by omega), if_neg (by omega), if_pos (by omega), hj]
      exact hvacant
    · rw [if_neg (show ¬ j = p + 0 by omega)]
      split
      · rfl
      · rw [if_neg (by omega)]
  | succ n ih =>
    obtain ⟨hown, hother⟩ := ih
    rw [List.range'_concat, List.foldl_append, List.foldl_cons, List.foldl_nil, Nat.one_mul,
      show p + 1 + n - 1 = p + n by omega]
    -- the key that the last binding moves to has been vacated before
    have hfree := hown (p + n)
    rw [if_neg (by omega), if_neg (Nat.lt_irrefl _), if_pos rfl] at hfree
    refine ⟨fun j => ?_, fun k hk => ?_⟩
    · rw [get?_moveBinding hfree, hown, hown]
      simp only [hK.eq_iff]
      rcases Nat.lt_trichotomy j (p + n) with hj | rfl | hj
      · rw [if_neg (by omega), if_neg (by omega), if_pos hj, if_pos (show j < p + (n + 1) by omega)]
      · rw [if_pos rfl, if_neg (by omega), if_neg (by omega), if_neg (by omega), if_neg (by omega),
          if_pos (by omega), Nat.add_right_comm p 1 n]
      · rcases Nat.eq_or_lt_of_le hj with rfl | hj'
        · rw [if_neg (by omega), if_pos (by omega), if_neg (by omega), if_neg (by omega),
            if_pos (by omega)]
        · rw [if_neg (by omega), if_neg (by omega), if_neg (by omega), if_neg (by omega),
            if_neg (by omega), if_neg (by omega), if_neg (by omega), if_neg (by omega)]
    · rw [get?_moveBinding hfree, if_neg (Ne.symm (hk _)), if_neg (Ne.symm (hk _)), hother k hk]

end Shift

theorem InputAddress.key_index_injective (name : String) :
    Function.Injective fun i : Nat => InputAddress.key ⟨name, some i⟩ :=
  append_toString_injective (name ++ "::")

namespace Node

/-! ### Declared addresses -/

/-- The addresses of a node: an input of the node itself has no position, and an input of a
collection slot the position of one of its children. -/
def Declares (n : Node) (a : InputAddress) : Prop :=
  match a.index with
  | none => a.name ∈ n.schema.inputs.keys
  | some i => ∃ s content, a.name ∈ (n.schema.collectionInputs s).map Prod.fst ∧
      n.slots.get? s = some content ∧ i < content.size

/-- Only declared addresses are bound. -/
def Tidy (n : Node) : Prop :=
  ∀ k e, n.inputs.get? k = some e → ∃ a, a.key = k ∧ n.Declares a

/-- The node with an address bound, or cleared. -/
def bind (n : Node) (a : InputAddress) (expression : Option TypedExpression) : Node :=
  { n with
    inputs := match expression with
      | some e => n.inputs.insert a.key e
      | none => n.inputs.erase a.key }

theorem declares_congr {m n : Node} (hschema : m.schema = n.schema) (hslots : m.slots = n.slots)
    {a : InputAddress} : m.Declares a ↔ n.Declares a := by
  rw [Declares, Declares, hschema, hslots]

theorem Declares.isIdentifier {n : Node} {a : InputAddress} (h : n.Declares a) :
    Declaration.isIdentifier a.name = true := by
  obtain ⟨name, index⟩ := a
  cases index with
  | none => exact NodeSchema.isIdentifier_of_mem (List.mem_append_left _ h)
  | some i =>
    obtain ⟨s, -, hn, -⟩ := h
    exact NodeSchema.isIdentifier_of_mem_collectionInputs hn

theorem Declares.key_inj {m n : Node} {a b : InputAddress} (ha : m.Declares a) (hb : n.Declares b)
    (h : a.key = b.key) : a = b :=
  InputAddress.key_injective ha.isIdentifier hb.isIdentifier h

/-- The slot to which an input of a position belongs is the one whose children are counted. -/
theorem Declares.lt_size {n : Node} {name s : String} {i : Nat} {content : SlotContent}
    (h : n.Declares ⟨name, some i⟩) (hn : name ∈ (n.schema.collectionInputs s).map Prod.fst)
    (hs : n.slots.get? s = some content) : i < content.size := by
  obtain ⟨s', content', hn', hs', hi⟩ := h
  have heq := NodeSchema.collectionSlotOf_eq_some_iff.mpr hn
  rw [NodeSchema.collectionSlotOf_eq_some_iff.mpr hn'] at heq
  cases heq
  rw [hs, Option.some.injEq] at hs'
  rwa [hs']

theorem hasAddress_eq_ok_true_iff {n : Node} (hf : n.FitsSchema) {a : InputAddress} :
    n.hasAddress a = .ok true ↔ n.Declares a := by
  obtain ⟨name, index⟩ := a
  rw [hasAddress]
  cases hc : n.schema.collectionSlotOf name with
  | error e =>
    -- a name that is not declared
    simp only [Outcome.error_mapError, Outcome.error_bind, reduceCtorEq, false_iff]
    intro hd
    cases index with
    | none => rw [NodeSchema.collectionSlotOf_eq_none_iff.mpr hd] at hc; cases hc
    | some i =>
      obtain ⟨s, -, hn, -⟩ := hd
      rw [NodeSchema.collectionSlotOf_eq_some_iff.mpr hn] at hc
      cases hc
  | ok owner =>
    simp only [Outcome.ok_mapError, Outcome.ok_bind]
    cases owner with
    | none =>
      cases index with
      | none => simp [Declares, Outcome.pure_eq_ok, NodeSchema.collectionSlotOf_eq_none_iff.mp hc]
      | some i =>
        simp only [Outcome.pure_eq_ok, Except.ok.injEq, Bool.false_eq_true, false_iff]
        rintro ⟨s, -, hn, -⟩
        rw [NodeSchema.collectionSlotOf_eq_some_iff.mpr hn] at hc
        cases hc
    | some s =>
      have hn := NodeSchema.collectionSlotOf_eq_some_iff.mp hc
      cases index with
      | none =>
        simp only [Outcome.pure_eq_ok, Except.ok.injEq, Bool.false_eq_true, false_iff]
        intro hd
        rw [NodeSchema.collectionSlotOf_eq_none_iff.mpr hd] at hc
        cases hc
      | some i =>
        obtain ⟨decl, hdecl, -⟩ := NodeSchema.mem_collectionInputs_iff.mp hn
        obtain ⟨content, hs⟩ := hf.slot_of_decl hdecl
        simp only [slot_eq_ok.mpr hs, Outcome.ok_bind, Outcome.pure_eq_ok, Except.ok.injEq,
          decide_eq_true_eq]
        exact ⟨fun hi => ⟨s, content, hn, hs, hi⟩, fun hd => hd.lt_size hn hs⟩

/-- An address is bound, or cleared, exactly if it is declared. -/
theorem setInput_eq_ok_iff {n n' : Node} (hf : n.FitsSchema) {a : InputAddress}
    {expression : Option TypedExpression} :
    n.setInput expression a = .ok n' ↔ n.Declares a ∧ n' = n.bind a expression := by
  rw [← hasAddress_eq_ok_true_iff hf]
  unfold setInput
  cases h : n.hasAddress a with
  | error e => simp [Outcome.error_bind]
  | ok b =>
    cases b with
    | false => simp [Outcome.throw_eq_error]
    | true =>
      simp only [Outcome.ok_bind, if_true, Outcome.pure_eq_ok, Except.ok.injEq, true_and]
      exact eq_comm

/-! ### Enumerations -/

theorem mem_inputAddresses_iff {n : Node} {a : InputAddress} :
    a ∈ n.inputAddresses ↔ n.Declares a := by
  obtain ⟨name, index⟩ := a
  rw [inputAddresses, List.mem_append, List.mem_map, List.mem_flatMap]
  constructor
  · rintro (⟨_, hm, heq⟩ | ⟨⟨s, content⟩, hs, hm⟩)
    · cases heq
      exact hm
    · obtain ⟨i, hi, hm⟩ := List.mem_flatMap.mp hm
      obtain ⟨input, hinput, heq⟩ := List.mem_map.mp hm
      cases heq
      exact ⟨s, content, List.mem_map_of_mem hinput, OrderedMap.mem_entries_iff.mp hs,
        List.mem_range.mp hi⟩
  · cases index with
    | none => exact fun h => .inl ⟨name, h, rfl⟩
    | some i =>
      rintro ⟨s, content, hn, hs, hi⟩
      obtain ⟨input, hinput, rfl⟩ := List.mem_map.mp hn
      refine .inr ⟨(s, content), OrderedMap.mem_entries_iff.mpr hs, ?_⟩
      exact List.mem_flatMap.mpr
        ⟨i, List.mem_range.mpr hi, List.mem_map.mpr ⟨input, hinput, rfl⟩⟩

theorem mem_boundInputs_iff {n : Node} {a : InputAddress} {e : TypedExpression} :
    (a, e) ∈ n.boundInputs ↔ n.Declares a ∧ n.input? a = some e := by
  rw [boundInputs, allInputs, List.filterMap_map, List.mem_filterMap]
  constructor
  · rintro ⟨b, hb, heq⟩
    obtain ⟨f, hf, heq⟩ := Option.map_eq_some_iff.mp heq
    cases heq
    exact ⟨mem_inputAddresses_iff.mp hb, hf⟩
  · rintro ⟨hd, he⟩
    exact ⟨a, mem_inputAddresses_iff.mpr hd, by simp [he]⟩

/-! ### Tidy nodes -/

theorem Tidy.declares {n : Node} (h : n.Tidy) {a : InputAddress} {e : TypedExpression}
    (ha : Declaration.isIdentifier a.name = true) (he : n.input? a = some e) : n.Declares a := by
  obtain ⟨b, hkey, hb⟩ := h _ _ he
  rw [← InputAddress.key_injective hb.isIdentifier ha hkey]
  exact hb

/-- Tidy nodes with the same bindings at the declared addresses have the same bindings. -/
theorem Tidy.ext {m n : Node} (hm : m.Tidy) (hn : n.Tidy) (hschema : m.schema = n.schema)
    (hslots : m.slots = n.slots) (h : ∀ a, n.Declares a → m.input? a = n.input? a) :
    m.inputs = n.inputs := by
  refine SortedMap.ext_get? fun k => ?_
  refine Option.ext fun e => ⟨fun he => ?_, fun he => ?_⟩
  · obtain ⟨a, rfl, ha⟩ := hm k e he
    exact (h a ((declares_congr hschema hslots).mp ha)).symm.trans he
  · obtain ⟨a, rfl, ha⟩ := hn k e he
    exact (h a ha).trans he

theorem Tidy.bind {n : Node} (h : n.Tidy) {a : InputAddress} (ha : n.Declares a)
    (e : Option TypedExpression) : (n.bind a e).Tidy := by
  have hcongr : ∀ b, n.Declares b → (n.bind a e).Declares b :=
    fun b => (declares_congr rfl rfl).mpr
  intro k f hf
  by_cases hk : a.key = k
  · exact ⟨a, hk, hcongr a ha⟩
  · obtain ⟨b, hkey, hb⟩ := h k f (by cases e <;> simpa [Node.bind, hk] using hf)
    exact ⟨b, hkey, hcongr b hb⟩

/-! ### Bindings that follow their children -/

/-- What a shift does to the bindings of one input of a slot with `size` children: position `j` gets
the binding of position `source j`.  Other bindings stay. -/
structure ShiftLaw (shift : SortedMap TypedExpression → String → SortedMap TypedExpression)
    (size : Nat) (source : Nat → Option Nat) : Prop where
  /-- The bindings of the input move. -/
  own : ∀ m name, (∀ i, size ≤ i → m.get? (InputAddress.key ⟨name, some i⟩) = none) →
    ∀ j, (shift m name).get? (InputAddress.key ⟨name, some j⟩) =
      (source j).bind fun i => m.get? (InputAddress.key ⟨name, some i⟩)
  /-- All others stay. -/
  other : ∀ m name, (∀ i, size ≤ i → m.get? (InputAddress.key ⟨name, some i⟩) = none) →
    ∀ k, (∀ j, k ≠ InputAddress.key ⟨name, some j⟩) → (shift m name).get? k = m.get? k

/-- From where the binding at a position has come, when a child has come to position `p`. -/
def sourceUp (p j : Nat) : Option Nat :=
  if j < p then some j else if j = p then none else some (j - 1)

/-- From where the binding at a position has come, when the child at position `p` has gone. -/
def sourceDown (p j : Nat) : Option Nat := some (if j < p then j else j + 1)

theorem shiftLaw_up {p size : Nat} (h : p ≤ size) :
    ShiftLaw (shiftUp p size) size (sourceUp p) where
  own := by
    intro m name hm j
    have htop : m.get? (InputAddress.key ⟨name, some (p + (size - p))⟩) = none :=
      hm _ (by omega)
    have hj := (get?_moveUp (InputAddress.key_index_injective name) (size - p) p m htop).1 j
    rw [shiftUp, hj, sourceUp]
    -- in front of the new child, at it, behind it, and beyond the last one
    by_cases h1 : j < p
    · rw [if_pos h1, if_pos h1]
      rfl
    · rw [if_neg h1, if_neg h1]
      by_cases h2 : j = p
      · rw [if_pos h2, if_pos h2]
        rfl
      · rw [if_neg h2, if_neg h2]
        by_cases h3 : j ≤ p + (size - p)
        · rw [if_pos h3]
          rfl
        · rw [if_neg h3, Option.bind_some, hm j (by omega), hm (j - 1) (by omega)]
  other := by
    intro m name hm k hk
    have htop : m.get? (InputAddress.key ⟨name, some (p + (size - p))⟩) = none :=
      hm _ (by omega)
    exact (get?_moveUp (InputAddress.key_index_injective name) (size - p) p m htop).2 k hk

theorem shiftLaw_down {p size : Nat} (h : p < size) :
    ShiftLaw (shiftDown p size) size (sourceDown p) where
  own := by
    intro m name hm j
    have hvacant : (m.erase (InputAddress.key ⟨name, some p⟩)).get?
        (InputAddress.key ⟨name, some p⟩) = none := by simp
    have hj := (get?_moveDown (InputAddress.key_index_injective name) p (size - (p + 1)) _
      hvacant).1 j
    have hget : ∀ i, i ≠ p → (m.erase (InputAddress.key ⟨name, some p⟩)).get?
        (InputAddress.key ⟨name, some i⟩) = m.get? (InputAddress.key ⟨name, some i⟩) := by
      intro i hi
      rw [SortedMap.get?_erase, if_neg fun he => hi (InputAddress.key_index_injective name he).symm]
    rw [shiftDown, hj, sourceDown, Option.bind_some]
    -- in front of the child that has gone, behind it, and beyond the last one
    by_cases h1 : j < p
    · rw [if_pos h1, if_pos h1, hget j (by omega)]
    · rw [if_neg h1, if_neg h1]
      by_cases h2 : j < p + (size - (p + 1))
      · rw [if_pos h2, hget (j + 1) (by omega)]
      · rw [if_neg h2, hm (j + 1) (by omega)]
        by_cases h3 : j = p + (size - (p + 1))
        · rw [if_pos h3]
        · rw [if_neg h3, hget j (by omega), hm j (by omega)]
  other := by
    intro m name hm k hk
    have hvacant : (m.erase (InputAddress.key ⟨name, some p⟩)).get?
        (InputAddress.key ⟨name, some p⟩) = none := by simp
    have hother := (get?_moveDown (InputAddress.key_index_injective name) p (size - (p + 1)) _
      hvacant).2 k hk
    rw [shiftDown, hother, SortedMap.get?_erase, if_neg (Ne.symm (hk p))]

/-- A shift of several inputs moves the bindings of each of them. -/
theorem ShiftLaw.foldl {shift : SortedMap TypedExpression → String → SortedMap TypedExpression}
    {size : Nat} {source : Nat → Option Nat} (law : ShiftLaw shift size source)
    (names : List String) : ∀ m : SortedMap TypedExpression,
      (∀ name ∈ names, Declaration.isIdentifier name = true) → names.Nodup →
      (∀ name ∈ names, ∀ i, size ≤ i → m.get? (InputAddress.key ⟨name, some i⟩) = none) →
      (∀ name ∈ names, ∀ j, (names.foldl shift m).get? (InputAddress.key ⟨name, some j⟩) =
        (source j).bind fun i => m.get? (InputAddress.key ⟨name, some i⟩)) ∧
      ∀ k, (∀ name ∈ names, ∀ j, k ≠ InputAddress.key ⟨name, some j⟩) →
        (names.foldl shift m).get? k = m.get? k := by
  induction names with
  | nil => exact fun m _ _ _ => ⟨fun name h => absurd h List.not_mem_nil, fun k _ => rfl⟩
  | cons name rest ih =>
    intro m hid hnd hm
    rw [List.nodup_cons] at hnd
    have hmname := hm name List.mem_cons_self
    -- the first shift leaves the keys of the other inputs alone
    have hfirst : ∀ other, Declaration.isIdentifier other = true → other ≠ name → ∀ i,
        (shift m name).get? (InputAddress.key ⟨other, some i⟩) =
          m.get? (InputAddress.key ⟨other, some i⟩) := by
      intro other hother hne i
      refine law.other m name hmname _ fun j he => hne ?_
      have := InputAddress.key_injective hother (hid name List.mem_cons_self) he
      exact congrArg InputAddress.name this
    have hrest : ∀ other ∈ rest, other ≠ name := fun other ho he => hnd.1 (he ▸ ho)
    obtain ⟨hown, hother⟩ := ih (shift m name)
      (fun other ho => hid other (List.mem_cons_of_mem _ ho)) hnd.2 (by
        intro other ho i hi
        rw [hfirst other (hid other (List.mem_cons_of_mem _ ho)) (hrest other ho)]
        exact hm other (List.mem_cons_of_mem _ ho) i hi)
    refine ⟨fun other ho j => ?_, fun k hk => ?_⟩
    · rw [List.foldl_cons]
      rcases List.mem_cons.mp ho with rfl | ho
      · rw [hother, law.own m other hmname]
        intro name' hn' i he
        have := InputAddress.key_injective (hid other List.mem_cons_self)
          (hid name' (List.mem_cons_of_mem _ hn')) he
        exact hrest name' hn' (congrArg InputAddress.name this).symm
      · rw [hown other ho]
        simp only [hfirst other (hid other (List.mem_cons_of_mem _ ho)) (hrest other ho)]
    · rw [List.foldl_cons, hother k fun name' hn' => hk name' (List.mem_cons_of_mem _ hn')]
      exact law.other m name hmname k (hk name List.mem_cons_self)

/-- The bindings of the larger of two nodes follow those children that the smaller one has, too;
other bindings are the same. -/
structure Inherits (big small : Node) (slotName : String) (k : Option Nat) : Prop where
  /-- Inputs of the node itself and of other slots are bound alike. -/
  other : ∀ a : InputAddress, Declaration.isIdentifier a.name = true →
    (a.name ∈ (small.schema.collectionInputs slotName).map Prod.fst → a.index = none) →
      big.input? a = small.input? a
  /-- Inputs of the slot are bound alike for every child. -/
  raised : ∀ name ∈ (small.schema.collectionInputs slotName).map Prod.fst, ∀ i,
    big.input? ⟨name, makeRoom k (some i)⟩ = small.input? ⟨name, some i⟩

/-- Every binding of the second node was one of the first, under the same name. -/
def Traces (n n' : Node) : Prop :=
  ∀ k e, n'.inputs.get? k = some e → ∃ a a' : InputAddress, a'.key = k ∧ n'.Declares a' ∧
    a'.name = a.name ∧ n.Declares a ∧ n.input? a = some e

theorem Traces.tidy {n n' : Node} (h : Traces n n') : n'.Tidy := by
  intro k e he
  obtain ⟨_, a', hkey, hd, -⟩ := h k e he
  exact ⟨a', hkey, hd⟩

/-- The keys under which the bindings of the inputs of a slot are kept. -/
def SlotKey (n : Node) (slotName k : String) : Prop :=
  ∃ name ∈ (n.schema.collectionInputs slotName).map Prod.fst, ∃ j,
    k = InputAddress.key ⟨name, some j⟩

/-- A shift of the inputs of a slot moves their bindings, and all others stay. -/
theorem Tidy.get?_shiftInputs {n : Node} {slotName : String} {content : SlotContent}
    {shift : SortedMap TypedExpression → String → SortedMap TypedExpression}
    {source : Nat → Option Nat} (ht : n.Tidy) (law : ShiftLaw shift content.size source)
    (hs : n.slots.get? slotName = some content) :
    (∀ name ∈ (n.schema.collectionInputs slotName).map Prod.fst, ∀ j,
      (n.shiftInputs slotName shift).get? (InputAddress.key ⟨name, some j⟩) =
        (source j).bind fun i => n.input? ⟨name, some i⟩) ∧
    ∀ k, ¬ n.SlotKey slotName k → (n.shiftInputs slotName shift).get? k = n.inputs.get? k := by
  -- behind the last child nothing is bound
  have hfree : ∀ name ∈ (n.schema.collectionInputs slotName).map Prod.fst, ∀ i,
      content.size ≤ i → n.inputs.get? (InputAddress.key ⟨name, some i⟩) = none := by
    intro name hn i hi
    rw [Option.eq_none_iff_forall_ne_some]
    intro e he
    have hd : n.Declares ⟨name, some i⟩ :=
      ht.declares (a := ⟨name, some i⟩) (NodeSchema.isIdentifier_of_mem_collectionInputs hn) he
    exact absurd (hd.lt_size hn hs) (Nat.not_lt.mpr hi)
  have hfold : n.shiftInputs slotName shift =
      ((n.schema.collectionInputs slotName).map Prod.fst).foldl shift n.inputs := by
    rw [shiftInputs, List.foldl_map]
  rw [hfold]
  obtain ⟨hown, hother⟩ := law.foldl _ n.inputs
    (fun name hn => NodeSchema.isIdentifier_of_mem_collectionInputs hn)
    (NodeSchema.nodup_collectionInputs n.schema slotName) hfree
  exact ⟨hown, fun k hk => hother k fun name hn j hj => hk ⟨name, hn, j, hj⟩⟩

/-- A shift of the inputs of a slot, for a node whose slot changes with it. -/
theorem Tidy.shifted {n n' : Node} {slotName : String} {content content' : SlotContent}
    {shift : SortedMap TypedExpression → String → SortedMap TypedExpression}
    {source : Nat → Option Nat} (ht : n.Tidy) (law : ShiftLaw shift content.size source)
    (hs : n.slots.get? slotName = some content) (hs' : n'.slots.get? slotName = some content')
    (hother : ∀ s, s ≠ slotName → n'.slots.get? s = n.slots.get? s)
    (hschema : n'.schema = n.schema) (hinputs : n'.inputs = n.shiftInputs slotName shift)
    (hsize : ∀ name ∈ (n.schema.collectionInputs slotName).map Prod.fst, ∀ i j,
      source j = some i → i < content.size → j < content'.size) :
    (∀ name ∈ (n.schema.collectionInputs slotName).map Prod.fst, ∀ j,
      n'.input? ⟨name, some j⟩ = (source j).bind fun i => n.input? ⟨name, some i⟩) ∧
    (∀ a : InputAddress, Declaration.isIdentifier a.name = true →
      (a.name ∈ (n.schema.collectionInputs slotName).map Prod.fst → a.index = none) →
        n'.input? a = n.input? a) ∧ Traces n n' := by
  obtain ⟨hown, hrest⟩ := ht.get?_shiftInputs law hs
  rw [← hinputs] at hown hrest
  refine ⟨hown, fun a ha hindex => hrest _ ?_, fun k e he => ?_⟩
  · rintro ⟨name, hn, j, heq⟩
    have := InputAddress.key_injective ha
      (NodeSchema.isIdentifier_of_mem_collectionInputs hn) heq
    rw [this] at hindex
    exact absurd (hindex hn) (by simp)
  · by_cases hk : n.SlotKey slotName k
    · -- the binding has moved with its child
      obtain ⟨name, hn, j, rfl⟩ := hk
      rw [hown name hn j] at he
      obtain ⟨i, hi, he⟩ := Option.bind_eq_some_iff.mp he
      have hd : n.Declares ⟨name, some i⟩ :=
        ht.declares (a := ⟨name, some i⟩) (NodeSchema.isIdentifier_of_mem_collectionInputs hn) he
      refine ⟨⟨name, some i⟩, ⟨name, some j⟩, rfl, ?_, rfl, hd, he⟩
      refine ⟨slotName, content', by rwa [hschema], hs', ?_⟩
      exact hsize name hn i j hi (hd.lt_size hn hs)
    · -- the binding is none of the slot, and stays
      rw [hrest k hk] at he
      obtain ⟨⟨name, index⟩, rfl, hd⟩ := ht k e he
      refine ⟨⟨name, index⟩, ⟨name, index⟩, rfl, ?_, rfl, hd, he⟩
      cases index with
      | none =>
        rw [Declares, hschema]
        exact hd
      | some i =>
        obtain ⟨s, c, hn, hc, hi⟩ := hd
        have hne : s ≠ slotName := fun h => hk ⟨name, h ▸ hn, i, rfl⟩
        exact ⟨s, c, by rwa [hschema], by rwa [hother s hne], hi⟩

theorem FitsSchema.collectionInputs_single {n : Node} (hf : n.FitsSchema) {s : String}
    {child : Option String} (hs : n.slots.get? s = some (.single child)) :
    n.schema.collectionInputs s = [] := by
  obtain ⟨decl, hd⟩ := hf.decl_of_slot hs
  have hkind : false = decl.isCollection := hf.kind s _ decl hs hd
  rw [SlotDecl.isCollection, eq_comm, Option.isSome_eq_false_iff,
    Option.isNone_iff_eq_none] at hkind
  rw [NodeSchema.collectionInputs_eq hd, SlotDecl.inputEntries, hkind]
  rfl

/-- A slot that has inputs is a collection. -/
theorem FitsSchema.isCollection_of_input {n : Node} (hf : n.FitsSchema) {s name : String}
    {content : SlotContent} (hs : n.slots.get? s = some content)
    (hn : name ∈ (n.schema.collectionInputs s).map Prod.fst) : content.isCollection = true := by
  cases content with
  | single child =>
    rw [hf.collectionInputs_single hs] at hn
    cases hn
  | collection ids => rfl

/-- What is bound when a child has come: the bindings follow the children, and nothing is bound for
the new one. -/
theorem inherits_attach {n : Node} {slotName : String} {content : SlotContent}
    {index : Option Nat} (hf : n.FitsSchema) (ht : n.Tidy)
    (hs : n.slots.get? slotName = some content) (ha : content.Admits index) (c : String) :
    Inherits (n.attach slotName content (content.place index) c) n slotName
        (content.place index) ∧
      (∀ name ∈ (n.schema.collectionInputs slotName).map Prod.fst,
        (n.attach slotName content (content.place index) c).input? ⟨name, content.place index⟩ =
          none) ∧
      Traces n (n.attach slotName content (content.place index) c) := by
  have hext := extends_attach hs ha c
  have hs' : (n.attach slotName content (content.place index) c).slots.get? slotName =
      some (content.attach (content.place index) c) := get?_slots_attach ..
  cases content with
  | single child =>
    -- a single slot has no inputs, so nothing is shifted
    have hnil := hf.collectionInputs_single hs
    have law : ShiftLaw (fun m _ => m) (SlotContent.single child).size some :=
      ⟨fun _ _ _ _ => rfl, fun _ _ _ _ _ => rfl⟩
    obtain ⟨-, hother, htraces⟩ := ht.shifted law hs hs' hext.other rfl
      (by rw [shiftInputs, hnil]; rfl) (by simp [hnil])
    exact ⟨⟨hother, by simp [hnil]⟩, by simp [hnil], htraces⟩
  | collection ids =>
    have hle : index.getD ids.length ≤ ids.length := by
      cases index with
      | none => exact Nat.le_refl _
      | some i => exact ha i rfl
    have hsize : ((SlotContent.collection ids).attach
        ((SlotContent.collection ids).place index) c).size = ids.length + 1 :=
      (ha.extends_attach c).size
    obtain ⟨hown, hother, htraces⟩ := ht.shifted (shiftLaw_up hle) hs hs' hext.other rfl rfl (by
      intro _ _ i j hj hi
      rw [hsize]
      have hi' : i < ids.length := hi
      rw [sourceUp] at hj
      split at hj
      · cases hj
        omega
      · split at hj
        · cases hj
        · cases hj
          omega)
    refine ⟨⟨hother, fun name hn i => ?_⟩, fun name hn => ?_, htraces⟩
    · simp only [SlotContent.place, makeRoom]
      rw [← SlotContent.place, hown name hn, sourceUp]
      by_cases hi : i < index.getD ids.length
      · simp only [hi, if_true]
        rfl
      · simp only [hi, if_false, show ¬ i + 1 < index.getD ids.length by omega,
          show ¬ i + 1 = index.getD ids.length by omega]
        rfl
    · have := hown name hn (index.getD ids.length)
      rwa [sourceUp, if_neg (Nat.lt_irrefl _), if_pos rfl] at this

/-- What is bound when a child has gone: the bindings follow the children that are left. -/
theorem inherits_detach {n : Node} {slotName c : String} {content : SlotContent}
    {k : Option Nat} (hf : n.FitsSchema) (ht : n.Tidy)
    (hs : n.slots.get? slotName = some content) (hc : content.child? k = some c) :
    Inherits n (n.detach slotName content k) slotName k ∧
      Traces n (n.detach slotName content k) := by
  have hext := extends_detach hs hc
  have hs' : (n.detach slotName content k).slots.get? slotName = some (content.detach k) :=
    get?_slots_detach ..
  have hslots : ∀ s, s ≠ slotName →
      (n.detach slotName content k).slots.get? s = n.slots.get? s :=
    fun s hne => (hext.other s hne).symm
  cases content with
  | single child =>
    -- no input follows a single slot, and nothing is shifted
    have hnil := hf.collectionInputs_single hs
    have law : ShiftLaw (fun m _ => m) (SlotContent.single child).size some :=
      ⟨fun _ _ _ _ => rfl, fun _ _ _ _ _ => rfl⟩
    have hinputs : (n.detach slotName (.single child) k).inputs =
        n.shiftInputs slotName fun m _ => m := by
      cases k with
      | none => rw [shiftInputs, hnil]; rfl
      | some k => cases hc
    obtain ⟨-, hother, htraces⟩ := ht.shifted law hs hs' hslots rfl hinputs (by simp [hnil])
    refine ⟨⟨fun a ha hi => (hother a ha hi).symm, fun name hn => ?_⟩, htraces⟩
    rw [show (n.detach slotName (.single child) k).schema = n.schema from rfl, hnil] at hn
    cases hn
  | collection ids =>
    cases k with
    | none => cases hc
    | some k =>
      obtain ⟨hk, -⟩ := List.getElem?_eq_some_iff.mp hc
      have hsize : ids.length = ((SlotContent.collection ids).detach (some k)).size + 1 :=
        (SlotContent.extends_detach hc).size
      obtain ⟨hown, hother, htraces⟩ := ht.shifted (shiftLaw_down hk) hs hs' hslots rfl rfl (by
        intro _ _ i j hj hi
        have hi' : i < ids.length := hi
        rw [sourceDown, Option.some.injEq] at hj
        split at hj <;> omega)
      refine ⟨⟨fun a ha hi => (hother a ha hi).symm, fun name hn i => ?_⟩, htraces⟩
      rw [hown name hn, sourceDown, Option.bind_some]
      rfl

end Node

end SlotTree
