import SlotTree.ValueType.Codec
import SlotTree.Proofs.Json.Decoding
import SlotTree.Proofs.Json.Tagged

/-!
# Types read back

A type is made again of its value, the order of properties included.  Object types whose properties
have distinct names are taken for granted: of two properties with one name only one would come back.

## Main results

* `ValueType.ofJson?_encode`, `ValueType.reads_encode` — a type is made again of its value.
* `ValueType.numbers_encode` — the value of a type holds no number.
-/

namespace SlotTree

open Json

/-- The kind and the fields of an encoded type. -/
theorem TypeKind.tagged?_tagged (kind : TypeKind) (inside : Bool) {fields : List (String × Json)}
    (h : once? "kind" fields = some none) :
    (kind.tagged fields).tagged? "kind" TypeKind.all TypeKind.tag inside =
      some (kind, .named fields) :=
  tagged?_object (by cases kind <;> rfl) h

namespace ValueType

mutual

/-- A type is made again of its value. -/
theorem ofJson?_encode : ∀ (t : ValueType) (inside : Bool) {n : Nat}, t.DistinctNames →
    t.encode.levels < n → ofJson? inside n t.encode = some t
  | .any, _, n + 1, _, _ | .string, _, n + 1, _, _ | .number, _, n + 1, _, _
  | .boolean, _, n + 1, _, _ | .null, _, n + 1, _, _ | .undefined, _, n + 1, _, _
  | .void, _, n + 1, _, _ | .entity _, _, n + 1, _, _ => by
    simp [encode, ofJson?, TypeKind.tagged?_tagged, Body.fields?]
  | .array t, _, n + 1, hd, h => by
    simp only [encode, TypeKind.tagged, levels, fieldLevels] at h
    have ht := ofJson?_encode t true (n := n) (by rwa [DistinctNames] at hd) (by omega)
    simp [encode, ofJson?, TypeKind.tagged?_tagged, Body.fields?, ht]
  | .tuple ts, _, n + 1, hd, h => by
    simp only [encode, TypeKind.tagged, levels, fieldLevels] at h
    have hts := mapM_encodeList ts (n := n) (by rwa [DistinctNames] at hd) (by omega)
    simp [encode, ofJson?, TypeKind.tagged?_tagged, Body.fields?, hts]
  | .object ps, _, n + 1, hd, h => by
    rw [DistinctNames] at hd
    simp only [encode, TypeKind.tagged, levels, fieldLevels] at h
    have hps := mapM_encodeProperties ps (n := n) hd.2 (by omega)
    simp [encode, ofJson?, TypeKind.tagged?_tagged, Body.fields?, hps,
      OrderedMap.entries_ofList hd.1]
  | .union ts, _, n + 1, hd, h => by
    simp only [encode, TypeKind.tagged, levels, fieldLevels] at h
    have hts := mapM_encodeList ts (n := n) (by rwa [DistinctNames] at hd) (by omega)
    simp [encode, ofJson?, TypeKind.tagged?_tagged, Body.fields?, hts]
  | .function ts t, _, n + 1, hd, h => by
    rw [DistinctNames] at hd
    simp only [encode, TypeKind.tagged, levels, fieldLevels] at h
    have hts := mapM_encodeList ts (n := n) hd.1 (by omega)
    have ht := ofJson?_encode t true (n := n) hd.2 (by omega)
    simp [encode, ofJson?, TypeKind.tagged?_tagged, Body.fields?, hts, ht]

theorem mapM_encodeList : ∀ (ts : List ValueType) {n : Nat}, DistinctNamesAll ts →
    itemLevels (encodeList ts) < n → (encodeList ts).mapM (ofJson? true n) = some ts
  | [], _, _, _ => rfl
  | t :: rest, n, hd, h => by
    rw [DistinctNamesAll] at hd
    rw [encodeList, itemLevels, Nat.max_lt] at h
    simp [encodeList, ofJson?_encode t true hd.1 h.1, mapM_encodeList rest hd.2 h.2]

theorem mapM_encodeProperties : ∀ (ps : List (String × ValueType)) {n : Nat},
    DistinctNamesFields ps → fieldLevels (encodeProperties ps) < n →
      ((encodeProperties ps).mapM fun p => (ofJson? true n p.2).map fun t => (p.1, t)) = some ps
  | [], _, _, _ => rfl
  | (name, t) :: rest, n, hd, h => by
    rw [DistinctNamesFields] at hd
    rw [encodeProperties, fieldLevels, Nat.max_lt] at h
    simp [encodeProperties, ofJson?_encode t true hd.1 h.1, mapM_encodeProperties rest hd.2 h.2]

end

theorem reads_encode {ε : Type} {t : ValueType} (hd : t.DistinctNames) :
    (decoder : Decoder ε ValueType).Reads t.encode t :=
  Decoder.reads_ofJson? fun h => t.ofJson?_encode false hd (Nat.lt_succ_of_le h)

mutual

/-- The value of a type holds no number. -/
theorem numbers_encode : ∀ t : ValueType, t.encode.numbers = []
  | .any | .string | .number | .boolean | .null | .undefined | .void | .entity _ => by
    simp [encode, TypeKind.tagged, numbers, fieldNumbers]
  | .array t => by simp [encode, TypeKind.tagged, numbers, fieldNumbers, numbers_encode t]
  | .tuple ts => by
    simp [encode, TypeKind.tagged, numbers, fieldNumbers, itemNumbers_encodeList ts]
  | .object ps => by
    simp [encode, TypeKind.tagged, numbers, fieldNumbers, fieldNumbers_encodeProperties ps]
  | .union ts => by
    simp [encode, TypeKind.tagged, numbers, fieldNumbers, itemNumbers_encodeList ts]
  | .function ts t => by
    simp [encode, TypeKind.tagged, numbers, fieldNumbers, itemNumbers_encodeList ts,
      numbers_encode t]

theorem itemNumbers_encodeList : ∀ ts : List ValueType, itemNumbers (encodeList ts) = []
  | [] => rfl
  | t :: rest => by
    rw [encodeList, itemNumbers, numbers_encode t, itemNumbers_encodeList rest, List.nil_append]

theorem fieldNumbers_encodeProperties :
    ∀ ps : List (String × ValueType), fieldNumbers (encodeProperties ps) = []
  | [] => rfl
  | (name, t) :: rest => by
    rw [encodeProperties, fieldNumbers, numbers_encode t, fieldNumbers_encodeProperties rest,
      List.nil_append]

end

end ValueType

end SlotTree
