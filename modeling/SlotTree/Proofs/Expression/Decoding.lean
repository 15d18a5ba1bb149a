import SlotTree.Expression.Codec
import SlotTree.Proofs.Json.Decoding
import SlotTree.Proofs.Json.Tagged

/-!
# Expressions read back

An expression is made again of its value, if its numbers are finite; of one that is not, nothing is
left but a null.  Expressions inside one another are decoded down to a certain level only, but the
value of an expression has more levels than there are expressions inside one another.

## Main definitions

* `Expression.literals` — the numbers among the literals of an expression, at any depth.

## Main results

* `Expression.ofJson?_encode`, `Expression.reads_encode` — an expression is made again of its value.
-/

namespace SlotTree

open Json

/-- The kind and the fields of an encoded expression. -/
theorem ExpressionKind.tagged?_tagged (kind : ExpressionKind) (inside : Bool)
    {fields : List (String × Json)} (h : once? "type" fields = some none) :
    (kind.tagged fields).tagged? "type" ExpressionKind.all ExpressionKind.tag inside =
      some (kind, .named fields) :=
  tagged?_object (by cases kind <;> rfl) h

/-- The kind and the fields of an encoded selector. -/
theorem SelectorKind.tagged?_tagged (kind : SelectorKind) (inside : Bool)
    {fields : List (String × Json)} (h : once? "type" fields = some none) :
    (kind.tagged fields).tagged? "type" SelectorKind.all SelectorKind.tag inside =
      some (kind, .named fields) :=
  tagged?_object (by cases kind <;> rfl) h

namespace Expression

mutual

/-- The numbers among the literals of an expression, at any depth. -/
def literals : Expression → List Binary64
  | .number x => [x]
  | .output _ _ selectors => selectorLiterals selectors
  | .string _ | .boolean _ | .json _ _ => []

/-- The numbers in the arguments of some selectors. -/
def selectorLiterals : List (Selector Expression) → List Binary64
  | [] => []
  | .property _ :: rest => selectorLiterals rest
  | .method _ args :: rest => argLiterals args ++ selectorLiterals rest
  | .call args :: rest => argLiterals args ++ selectorLiterals rest

/-- The numbers in some arguments. -/
def argLiterals : List (Option Expression) → List Binary64
  | [] => []
  | none :: rest => argLiterals rest
  | some e :: rest => literals e ++ argLiterals rest

end

theorem encode_ne_null (e : Expression) : e.encode ≠ .null := by
  cases e with
  | output _ _ selectors => cases selectors <;> nofun
  | string _ | number _ | boolean _ | json _ _ => nofun

theorem float_eq {x : Binary64} (h : x.isFinite = true) : Json.float x = .number (.float x h) := by
  simp [Json.float, Number.ofBinary64?, h]

mutual

/-- An expression is made again of its value. -/
theorem ofJson?_encode : ∀ (e : Expression) (inside : Bool) {n : Nat},
    (∀ x ∈ e.literals, x.isFinite = true) → e.encode.levels < n →
      ofJson? inside n e.encode = some e
  | .string value, inside, n + 1, _, _ => by
    simp [encode, ofJson?, ExpressionKind.tagged?_tagged, Body.fields?]
  | .number x, inside, n + 1, hx, _ => by
    have hfinite : x.isFinite = true := hx x (by simp [literals])
    simp [encode, ofJson?, ExpressionKind.tagged?_tagged, Body.fields?, float_eq hfinite,
      Number.toBinary64]
  | .boolean value, inside, n + 1, _, _ => by
    simp [encode, ofJson?, ExpressionKind.tagged?_tagged, Body.fields?]
  | .json schemaName value, inside, n + 1, _, _ => by
    simp [encode, ofJson?, ExpressionKind.tagged?_tagged, Body.fields?]
  | .output nodeId outputName [], inside, n + 1, _, _ => by
    simp [encode, ofJson?, ExpressionKind.tagged?_tagged, Body.fields?, selectorsOf?]
  | .output nodeId outputName (s :: rest), inside, n + 1, hx, h => by
    -- the object and the list around the selectors are two levels of the value, but one level here
    simp only [encode, ExpressionKind.tagged, levels, fieldLevels] at h
    have hselectors := mapM_encodeSelectors (s :: rest) (n := n) (by rwa [literals] at hx)
      (by omega)
    simp [encode, ofJson?, ExpressionKind.tagged?_tagged, Body.fields?, selectorsOf?, hselectors]

theorem mapM_encodeSelectors : ∀ (ss : List (Selector Expression)) {n : Nat},
    (∀ x ∈ selectorLiterals ss, x.isFinite = true) → itemLevels (encodeSelectors ss) < n →
      (encodeSelectors ss).mapM (selectorOf? (ofJson? true n)) = some ss
  | [], _, _, _ => rfl
  | .property name :: rest, n, hx, h => by
    rw [encodeSelectors, itemLevels, Nat.max_lt] at h
    have hrest := mapM_encodeSelectors rest (by rwa [selectorLiterals] at hx) h.2
    simp [encodeSelectors, selectorOf?, SelectorKind.tagged?_tagged, Body.fields?, hrest]
  | .method name args :: rest, n, hx, h => by
    rw [encodeSelectors, itemLevels, Nat.max_lt] at h
    rw [selectorLiterals, List.forall_mem_append] at hx
    simp only [SelectorKind.tagged, levels, fieldLevels] at h
    have hargs := argsOf?_encodeArgs args hx.1 (n := n) (by omega)
    have hrest := mapM_encodeSelectors rest hx.2 h.2
    simp [encodeSelectors, selectorOf?, SelectorKind.tagged?_tagged, Body.fields?, hargs, hrest]
  | .call args :: rest, n, hx, h => by
    rw [encodeSelectors, itemLevels, Nat.max_lt] at h
    rw [selectorLiterals, List.forall_mem_append] at hx
    simp only [SelectorKind.tagged, levels, fieldLevels] at h
    have hargs := argsOf?_encodeArgs args hx.1 (n := n) (by omega)
    have hrest := mapM_encodeSelectors rest hx.2 h.2
    simp [encodeSelectors, selectorOf?, SelectorKind.tagged?_tagged, Body.fields?, hargs, hrest]

theorem argsOf?_encodeArgs : ∀ (args : List (Option Expression)) {n : Nat},
    (∀ x ∈ argLiterals args, x.isFinite = true) → itemLevels (encodeArgs args) < n →
      argsOf? (ofJson? true n) (some (.array (encodeArgs args))) = some args
  | [], _, _, _ => rfl
  | none :: rest, n, hx, h => by
    rw [encodeArgs, itemLevels, Nat.max_lt] at h
    have hrest := argsOf?_encodeArgs rest (by rwa [argLiterals] at hx) h.2
    rw [argsOf?] at hrest ⊢
    simp [encodeArgs, hrest]
  | some e :: rest, n, hx, h => by
    rw [encodeArgs, itemLevels, Nat.max_lt] at h
    rw [argLiterals, List.forall_mem_append] at hx
    have he : absentOr (ofJson? true n) (some e.encode) = some (some e) :=
      absentOr_map (o := some e) (by simpa using ofJson?_encode e true hx.1 h.1) encode_ne_null
    have hrest := argsOf?_encodeArgs rest hx.2 h.2
    rw [argsOf?] at hrest ⊢
    simp [encodeArgs, he, hrest]

end

theorem reads_encode {ε : Type} {e : Expression} (hx : ∀ x ∈ e.literals, x.isFinite = true) :
    (decoder : Decoder ε Expression).Reads e.encode e :=
  Decoder.reads_ofJson? fun h => e.ofJson?_encode false hx (Nat.lt_succ_of_le h)

end Expression

end SlotTree
