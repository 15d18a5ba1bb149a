import SlotTree.Patch.Codec
import SlotTree.Proofs.Expression.Decoding

/-!
# Patches read back

The text of a patch, and that of an expression, is decoded as the patch or the expression that was
written.  This takes finite numbers, since others have no text, and texts that nest no deeper than
decoders go.  Of the binary64 numbers that occur, in literals and in free-form data, it is assumed
that they are read back; reading is not exact for all of them.

## Main definitions

* `Patch.literals` — the numbers among the literals of a patch.

## Main results

* `Patch.ofJson?_encode` — a patch is made again of its value.
* `Patch.run_patch_text` — a patch and an expression are decoded from their texts.
-/

namespace SlotTree

open Json

/-! ### Fields that are left out without a value -/

namespace Json

variable {α : Type} {encode : α → Json} {o : Option α} {name k : String}

@[simp]
theorem once?_present_append (h : k ≠ name) (rest : List (String × Json)) :
    once? name (present k encode o ++ rest) = once? name rest := by
  cases o with
  | none => rfl
  | some a => exact once?_cons_of_ne h _ rest

@[simp]
theorem once?_present (h : k ≠ name) : once? name (present k encode o) = some none := by
  rw [← List.append_nil (present k encode o), once?_present_append h, once?_nil]

@[simp]
theorem once?_present_append_self {rest : List (String × Json)} (h : once? name rest = some none) :
    once? name (present name encode o ++ rest) = some (o.map encode) := by
  cases o with
  | none => exact h
  | some a => exact once?_cons_self h

@[simp]
theorem once?_present_self : once? name (present name encode o) = some (o.map encode) := by
  rw [← List.append_nil (present name encode o), once?_present_append_self (once?_nil name)]

theorem position_eq (i : UInt32) :
    position i = .number (.integer i.toNat (by have := i.toNat_lt; omega)) := by
  rw [position, natural, Number.ofInt?_eq_some]
  rfl

/-- A position is made again of its value. -/
theorem uint32?_position (i : UInt32) : uint32? (position i) = some i := by
  rw [position_eq, uint32?]
  simp [Number.natural?, i.toNat_lt]

theorem position_ne_null (i : UInt32) : position i ≠ .null := by
  rw [position_eq]
  nofun

@[simp]
theorem absentOr_position (o : Option UInt32) : absentOr uint32? (o.map position) = some o :=
  absentOr_map (fun i _ => uint32?_position i) position_ne_null

@[simp]
theorem absentOr_string (o : Option String) : absentOr string? (o.map .string) = some o :=
  absentOr_map (fun _ _ => rfl) nofun

end Json

/-! ### Patches -/

/-- The kind and the fields of an encoded patch. -/
theorem PatchKind.tagged?_object (kind : PatchKind) {fields : List (String × Json)}
    (h : once? "type" fields = some none) :
    tagged? "type" PatchKind.all PatchKind.tag false
      (.object (("type", .string kind.tag) :: fields)) = some (kind, .named fields) :=
  Json.tagged?_object (by cases kind <;> rfl) h

/-- A parent is made again of its value. -/
theorem PatchParent.ofJson?_encode (p : PatchParent) : ofJson? p.encode = some p := by
  simp [encode, ofJson?, Body.fields?]

namespace Patch

/-- The numbers among the literals of a patch, at any depth. -/
def literals : Patch → List Binary64
  | .setNodeInput _ _ _ (some e) => e.literals
  | .setNodeInput _ _ _ none | .createNode _ _ _ | .deleteNode _ | .renameNode _ _ => []

/-- A patch is made again of its value. -/
theorem ofJson?_encode (p : Patch) (hx : ∀ x ∈ p.literals, x.isFinite = true)
    (h : p.encode.levels ≤ Reading.maxLevels) : ofJson? p.encode = some p := by
  cases p with
  | createNode nodeType parent nodeId =>
    have hkind : (createNode nodeType parent nodeId).kind = PatchKind.createNode.tag := rfl
    have hparent : absentOr PatchParent.ofJson? (parent.map PatchParent.encode) = some parent :=
      absentOr_map (fun p _ => p.ofJson?_encode) nofun
    simp [ofJson?, encode, hkind, PatchKind.tagged?_object, Body.fields?, hparent]
  | deleteNode nodeId =>
    have hkind : (deleteNode nodeId).kind = PatchKind.deleteNode.tag := rfl
    simp [ofJson?, encode, hkind, PatchKind.tagged?_object, Body.fields?]
  | renameNode nodeId newId =>
    have hkind : (renameNode nodeId newId).kind = PatchKind.renameNode.tag := rfl
    simp [ofJson?, encode, hkind, PatchKind.tagged?_object, Body.fields?]
  | setNodeInput nodeId inputName index expression =>
    have hkind : (setNodeInput nodeId inputName index expression).kind =
      PatchKind.setNodeInput.tag := rfl
    have hexpression : absentOr (Expression.ofJson? true (Reading.maxLevels + 1))
        (some (optional Expression.encode expression)) = some expression := by
      refine absentOr_optional (fun e he => ?_) Expression.encode_ne_null
      cases he
      refine e.ofJson?_encode true hx (Nat.lt_succ_of_le (Nat.le_trans ?_ h))
      rw [encode, Json.levels]
      exact Nat.le_succ_of_le
        (Decoder.levels_le_fieldLevels (k := "expression") (by simp [Json.optional]))
    simp [ofJson?, encode, hkind, PatchKind.tagged?_object, Body.fields?, Body.isListed,
      hexpression]

theorem reads_encode {ε : Type} {p : Patch} (hx : ∀ x ∈ p.literals, x.isFinite = true) :
    (decoder : Decoder ε Patch).Reads p.encode p :=
  Decoder.reads_ofJson? (p.ofJson?_encode hx)

/-- The texts of patches and of expressions are decoded as the patches and the expressions that were
written, be they indented or not. -/
theorem run_patch_text {ε : Type} :
    (∀ p : Patch, (∀ x ∈ p.literals, x.isFinite = true) → p.encode.FloatsReadBack →
      p.encode.levels ≤ Reading.maxLevels → ∀ text ∈ [p.encode.compact, p.encode.pretty],
        (decoder : Decoder ε Patch).run text = .ok p) ∧
    (∀ e : Expression, (∀ x ∈ e.literals, x.isFinite = true) → e.encode.FloatsReadBack →
      e.encode.levels ≤ Reading.maxLevels → ∀ text ∈ [e.encode.compact, e.encode.pretty],
        (Expression.decoder : Decoder ε Expression).run text = .ok e) := by
  constructor
  · intro p hx hfloats hlevels text htext
    exact (reads_encode hx).run hfloats.readsBack hlevels htext
  · intro e hx hfloats hlevels text htext
    exact (Expression.reads_encode hx).run hfloats.readsBack hlevels htext

/-! ### A patch with every kind of part -/

/-- One and a half. -/
def oneAndHalf : Binary64 := ⟨0x3ff8000000000000⟩

/-- Free-form data with a number in it. -/
def noteData : FreeForm :=
  Json.freeForm (.object [("size", .number (.integer (-7) (by decide))), ("lines", .array [.null])])

/-- An expression with every kind of part: a name with a quotation mark and a backslash, an argument
that is left out, a number, an expression in an argument, and free-form data. -/
def pickExpression : Expression :=
  .output "Root1" "items \"\\\"" [.property "first", .call [],
    .method "pick" [none, some (.number oneAndHalf), some (.output "Leaf1" "value" []),
      some (.json "Note" noteData)]]

/-- The patch that binds the expression at a position. -/
def pickPatch : Patch := .setNodeInput "Shelf1" "item\n" (some 3) (some pickExpression)

theorem isFinite_oneAndHalf : oneAndHalf.isFinite = true := by decide

theorem readsBack_oneAndHalf : (Number.float oneAndHalf isFinite_oneAndHalf).ReadsBack :=
  ⟨⟨false, [1], some [5], none⟩, by decide +kernel, by decide +kernel⟩

theorem numbers_pickExpression : pickExpression.encode.numbers =
    [.float oneAndHalf isFinite_oneAndHalf, .integer (-7) (by decide)] := by decide +kernel

theorem numbers_pickPatch :
    pickPatch.encode.numbers = .integer 3 (by decide) :: pickExpression.encode.numbers := by
  decide +kernel

theorem run_patch_text_pickPatch :
    (∀ x ∈ pickPatch.literals, x.isFinite = true) ∧ pickPatch.encode.FloatsReadBack ∧
      pickPatch.encode.levels ≤ Reading.maxLevels ∧
      (decoder : Decoder Empty Patch).run pickPatch.encode.compact = .ok pickPatch ∧
      (Expression.decoder : Decoder Empty Expression).run pickExpression.encode.pretty =
        .ok pickExpression := by
  have hfinite : ∀ x ∈ pickPatch.literals, x.isFinite = true := by decide
  have hexpression : pickExpression.encode.FloatsReadBack := by
    intro x finite hx
    rw [numbers_pickExpression] at hx
    simp only [List.mem_cons, Number.float.injEq, reduceCtorEq, List.not_mem_nil, or_false] at hx
    subst hx
    exact readsBack_oneAndHalf
  have hpatch : pickPatch.encode.FloatsReadBack := by
    intro x finite hx
    rw [numbers_pickPatch] at hx
    exact hexpression x finite (by simpa using hx)
  exact ⟨hfinite, hpatch, by decide,
    run_patch_text.1 pickPatch hfinite hpatch (by decide) _ (by simp),
    run_patch_text.2 pickExpression hfinite hexpression (by decide) _ (by simp)⟩

end Patch

end SlotTree
