import Mathlib.Order.Bounds.Basic
import SlotTree.Proofs.Schema.Inputs
import SlotTree.Proofs.Tree.Linked
import SlotTree.Tree.Edit

/-!
# Ids that are not in use

An id for a new node is searched for by trying numbers behind a stem, one after the other.
Different numbers make different ids, so that of one number more than there are nodes not all can be
in use, whatever the ids of the nodes look like.  So the search ends, and it ends with the smallest
number.

## Main definitions

* `Tree.Search` — the search for a number without a bound.

## Main results

* `Tree.Search.isLeast` — a search that ends has found the smallest number.
* `Tree.exists_search` — every search ends, and the id that it finds is the one that is generated.
* `Tree.get?_freshId` — the id that is generated is not in use.
-/

namespace SlotTree.Tree

variable {t : Tree} {stem : String} {n m : Nat}

/-- The search for a number that makes an id not in use, from a number on, and the number with which
it ends. -/
inductive Search (t : Tree) (stem : String) : Nat → Nat → Prop where
  /-- A number whose id is not in use ends the search. -/
  | found {n : Nat} : t.nodes.get? (stem ++ toString n) = none → Search t stem n n
  /-- Behind a number whose id is in use the search goes on with the next one. -/
  | next {n m : Nat} {x : Node} : t.nodes.get? (stem ++ toString n) = some x →
    Search t stem (n + 1) m → Search t stem n m

/-- A search ends with the smallest number, from its first on, that makes an id not in use. -/
theorem Search.isLeast (h : t.Search stem n m) :
    IsLeast {k | n ≤ k ∧ t.nodes.get? (stem ++ toString k) = none} m := by
  induction h with
  | found hfree => exact ⟨⟨Nat.le_refl _, hfree⟩, fun k hk => hk.1⟩
  | @next n m x hused _ ih =>
    refine ⟨⟨Nat.le_of_succ_le ih.1.1, ih.1.2⟩, fun k hk => ih.2 ⟨?_, hk.2⟩⟩
    -- it is not the first number, for that one is in use
    refine Nat.lt_of_le_of_ne hk.1 ?_
    rintro rfl
    rw [hk.2] at hused
    cases hused

/-- A search ends with one number only. -/
theorem Search.unique {m' : Nat} (h : t.Search stem n m) (h' : t.Search stem n m') : m = m' :=
  h.isLeast.unique h'.isLeast

/-- Of one number more than there are nodes, not all make ids in use. -/
theorem exists_unused (t : Tree) (stem : String) (n : Nat) :
    ∃ i, i ≤ t.size ∧ t.nodes.get? (stem ++ toString (n + i)) = none := by
  by_contra hused
  have hids : ((List.range (t.size + 1)).map fun i => stem ++ toString (n + i)).Nodup := by
    refine List.nodup_range.map fun i j heq => ?_
    exact Nat.add_left_cancel (append_toString_injective stem heq)
  have hlength := SortedMap.length_le_size hids (m := t.nodes) (by
    intro id hid
    obtain ⟨i, hi, rfl⟩ := List.mem_map.mp hid
    rw [Option.isSome_iff_ne_none]
    exact fun hnone => hused ⟨i, Nat.le_of_lt_succ (List.mem_range.mp hi), hnone⟩)
  rw [List.length_map, List.length_range] at hlength
  exact Nat.not_succ_le_self _ hlength

/-- If one of the ids that are tried is not in use, the search ends, and finds the id that comes of
the tries. -/
theorem search_of_freshIdFrom (stem : String) : ∀ tries n,
    (∃ i, i ≤ tries ∧ t.nodes.get? (stem ++ toString (n + i)) = none) →
      ∃ m, m ≤ n + tries ∧ t.freshIdFrom stem tries n = stem ++ toString m ∧
        t.Search stem n m := by
  intro tries
  induction tries with
  | zero =>
    rintro n ⟨i, hi, hfree⟩
    rw [Nat.le_zero.mp hi] at hfree
    exact ⟨n, Nat.le_refl _, rfl, .found hfree⟩
  | succ tries ih =>
    rintro n ⟨i, hi, hfree⟩
    rw [freshIdFrom]
    split
    · next hused =>
      obtain ⟨x, hx⟩ := has_eq_true_iff.mp hused
      -- the first number is in use, so one of the others is not
      cases i with
      | zero =>
        rw [Nat.add_zero, hx] at hfree
        cases hfree
      | succ i =>
        rw [← Nat.add_assoc, Nat.add_right_comm] at hfree
        obtain ⟨m, hm, hid, hsearch⟩ := ih (n + 1) ⟨i, Nat.le_of_succ_le_succ hi, hfree⟩
        exact ⟨m, by omega, hid, .next hx hsearch⟩
    · next hunused =>
      exact ⟨n, Nat.le_add_right _ _, rfl,
        .found (has_eq_false_iff.mp (Bool.not_eq_true _ ▸ hunused))⟩

/-- Every search ends after at most one number more than there are nodes, and finds the id that is
generated. -/
theorem exists_search (t : Tree) (stem : String) :
    ∃ n, n ≤ t.size + 1 ∧ t.freshId stem = stem ++ toString n ∧ t.Search stem 1 n := by
  obtain ⟨n, hn, hid, hsearch⟩ :=
    search_of_freshIdFrom stem t.size 1 (t.exists_unused stem 1)
  exact ⟨n, by omega, hid, hsearch⟩

/-- The id that a new node is given is not in use. -/
theorem get?_freshId (t : Tree) (stem : String) : t.nodes.get? (t.freshId stem) = none := by
  obtain ⟨n, -, hid, hsearch⟩ := t.exists_search stem
  rw [hid]
  exact hsearch.isLeast.1.2

end SlotTree.Tree
