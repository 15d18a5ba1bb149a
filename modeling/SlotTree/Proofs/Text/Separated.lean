import Mathlib.Data.List.Basic

/-!
# Reading lists with separators

A reader takes something from the front of a text and gives back the rest.  Items with a separator
between two are read by reading an item as long as a separator follows.  This gives the items back
if each of them can be told from what follows it.

## Main definitions

* `TextReader` — readers.
* `TextReader.separated`, `TextReader.enclosed` — read items with separators, and such items up to
  a closing mark.

## Main results

* `TextReader.separated_intercalate`, `TextReader.enclosed_intercalate` — the items are read back.
-/

namespace SlotTree

/-- A reader takes something from the front of a text, and gives the rest. -/
abbrev TextReader (α : Type) := List Char → Option (α × List Char)

namespace TextReader

variable {α β : Type}

/-- Read items, at most so many, as long as a separator follows. -/
def separated (item : TextReader α) (separator : List Char) : Nat → TextReader (List α)
  | 0, _ => none
  | n + 1, s => do
    let (x, s) ← item s
    match s.dropPrefix? separator with
    | none => return ([x], s)
    | some s => do
      let (xs, s) ← separated item separator n s
      return (x :: xs, s)

/-- Read items, at most so many, up to a closing mark.  There may be none. -/
def enclosed (item : TextReader α) (separator close : List Char) (n : Nat) :
    TextReader (List α) := fun s =>
  match s.dropPrefix? close with
  | some s => some ([], s)
  | none => do
    let (xs, s) ← separated item separator n s
    let s ← s.dropPrefix? close
    return (xs, s)

variable {item : TextReader α} {text : β → List Char} {value : β → α} {separator close : List Char}

theorem dropPrefix?_append_self (mark rest : List Char) :
    (mark ++ rest).dropPrefix? mark = some rest :=
  List.dropPrefix?_append_of_beq rest (beq_self_eq_true mark)

theorem separated_last {n : Nat} {s rest : List Char} {x : α} (hx : item s = some (x, rest))
    (hrest : rest.dropPrefix? separator = none) :
    separated item separator (n + 1) s = some ([x], rest) := by
  simp only [separated, hx, Option.bind_eq_bind, Option.bind_some, hrest]
  rfl

theorem separated_next {n : Nat} {s s' rest : List Char} {x : α} {xs : List α}
    (hx : item s = some (x, separator ++ s'))
    (hxs : separated item separator n s' = some (xs, rest)) :
    separated item separator (n + 1) s = some (x :: xs, rest) := by
  simp only [separated, hx, Option.bind_eq_bind, Option.bind_some, dropPrefix?_append_self, hxs]
  rfl

/-- Items are read back if each is, in front of a separator, and the last is, in front of the
rest. -/
theorem separated_intercalate {rest : List Char} (hrest : rest.dropPrefix? separator = none) :
    ∀ {xs : List β} {n : Nat}, xs ≠ [] → xs.length ≤ n →
      (∀ x ∈ xs.dropLast, ∀ s,
        item (text x ++ (separator ++ s)) = some (value x, separator ++ s)) →
      (∀ x ∈ xs.getLast?, item (text x ++ rest) = some (value x, rest)) →
      separated item separator n (separator.intercalate (xs.map text) ++ rest) =
        some (xs.map value, rest)
  | [x], n + 1, _, _, _, hlast => by
    rw [List.map_singleton, List.intercalate_singleton]
    exact separated_last (hlast x rfl) hrest
  | x :: y :: ys, n + 1, _, hn, hinner, hlast => by
    rw [List.map_cons, List.map_cons, List.intercalate_cons_cons, ← List.map_cons,
      List.append_assoc, List.append_assoc]
    exact separated_next (hinner x List.mem_cons_self _)
      (separated_intercalate hrest (List.cons_ne_nil y ys) (Nat.le_of_succ_le_succ hn)
        (fun z hz => hinner z (List.mem_cons_of_mem _ hz)) fun z hz => hlast z hz)

/-! ### Joined texts -/

theorem intercalate_append {xs ys : List (List Char)} (hxs : xs ≠ []) (hys : ys ≠ []) :
    separator.intercalate (xs ++ ys) =
      separator.intercalate xs ++ separator ++ separator.intercalate ys := by
  induction xs with
  | nil => exact absurd rfl hxs
  | cons x rest ih =>
    by_cases hrest : rest = []
    · subst hrest
      rw [List.singleton_append, List.intercalate_cons_of_ne_nil hys, List.intercalate_singleton]
    · have happend : rest ++ ys ≠ [] := List.append_ne_nil_of_left_ne_nil hrest ys
      rw [List.cons_append, List.intercalate_cons_of_ne_nil happend, ih hrest,
        List.intercalate_cons_of_ne_nil hrest]
      simp only [List.append_assoc]

/-- Joined texts, joined with the same separator, are one joined text. -/
theorem intercalate_flatMap {f : β → List (List Char)} {xs : List β} (h : ∀ x ∈ xs, f x ≠ []) :
    separator.intercalate (xs.map fun x => separator.intercalate (f x)) =
      separator.intercalate (xs.flatMap f) := by
  induction xs with
  | nil => rfl
  | cons x rest ih =>
    rw [List.forall_mem_cons] at h
    by_cases hrest : rest = []
    · subst hrest
      rw [List.map_singleton, List.intercalate_singleton, List.flatMap_singleton]
    · obtain ⟨y, hy⟩ := List.exists_mem_of_ne_nil rest hrest
      obtain ⟨t, ht⟩ := List.exists_mem_of_ne_nil _ (h.2 y hy)
      have hne : rest.flatMap f ≠ [] := List.ne_nil_of_mem (List.mem_flatMap.mpr ⟨y, hy, ht⟩)
      rw [List.map_cons, List.intercalate_cons_of_ne_nil (mt List.map_eq_nil_iff.mp hrest),
        ih h.2, List.flatMap_cons, intercalate_append h.1 hne]

/-! ### Items with a closing mark -/

/-- Items up to a closing mark are read back if each is, in front of a separator and of the mark,
and nothing is read from a text that starts with the mark. -/
theorem enclosed_intercalate {xs : List β} {n : Nat} {rest : List Char} (hn : xs.length ≤ n)
    (hsep : ∀ x ∈ xs, ∀ s, item (text x ++ (separator ++ s)) = some (value x, separator ++ s))
    (hitem : ∀ x ∈ xs, ∀ s, item (text x ++ (close ++ s)) = some (value x, close ++ s))
    (hclose : ∀ s, (close ++ s).dropPrefix? separator = none)
    (hempty : ∀ s, item (close ++ s) = none) :
    enclosed item separator close n (separator.intercalate (xs.map text) ++ (close ++ rest)) =
      some (xs.map value, rest) := by
  cases xs with
  | nil =>
    rw [enclosed, List.map_nil, List.intercalate_nil, List.nil_append, dropPrefix?_append_self]
    rfl
  | cons x xs =>
    have hread := separated_intercalate (hclose rest) (List.cons_ne_nil x xs) hn
      (fun z hz => hsep z (List.dropLast_subset _ hz))
      (fun z hz => hitem z (List.mem_of_mem_getLast? hz) rest)
    -- what an item is read from does not start with the mark
    have hopen : (separator.intercalate ((x :: xs).map text) ++ (close ++ rest)).dropPrefix? close
        = none := by
      cases hdrop : (separator.intercalate ((x :: xs).map text) ++
        (close ++ rest)).dropPrefix? close with
      | none => rfl
      | some s =>
        obtain ⟨mark, heq, hmark⟩ := List.dropPrefix?_eq_some_iff.mp hdrop
        obtain rfl := eq_of_beq hmark
        rw [heq] at hread
        cases n with
        | zero => cases hread
        | succ n =>
          rw [separated, hempty] at hread
          cases hread
    rw [enclosed, hopen, hread]
    simp only [Option.bind_eq_bind, Option.bind_some, dropPrefix?_append_self]
    rfl

end TextReader

end SlotTree
