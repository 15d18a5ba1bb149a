import SlotTree.Proofs.Expression.Checking
import SlotTree.Proofs.Expression.Decoding
import SlotTree.Proofs.Json.Sameness

/-!
# Expressions known from their data

The value of an expression shows all of it, so expressions whose values have the same data are the
same, numbers compared by value.  The types that were found for an expression are not shown, but
they can be found again: in one context, expressions that are the same get the same types.

## Main definitions

* `TypedExpression.types` — the types that were found for an expression, at any depth.
* `TypedExpression.Matches` — typed expressions that are the same.

## Main results

* `Expression.equals_of_same` — expressions with the same data are the same.
* `Expression.types_eq_of_equals` — expressions that are the same get the same types.
-/

namespace SlotTree

open Json

/-! ### The parts of a value -/

theorem ExpressionKind.tag_injective : ExpressionKind.tag.Injective := by
  intro k l h
  cases k <;> cases l <;> first | rfl | exact absurd h (by decide)

theorem SelectorKind.tag_injective : SelectorKind.tag.Injective := by
  intro k l h
  cases k <;> cases l <;> first | rfl | exact absurd h (by decide)

namespace Expression

/-- The kind of an expression. -/
def kind : Expression → ExpressionKind
  | .string _ => .string
  | .number _ => .number
  | .boolean _ => .boolean
  | .json _ _ => .json
  | .output _ _ _ => .output

/-- The kind of a selector. -/
def selectorKind : Selector Expression → SelectorKind
  | .property _ => .property
  | .method _ _ => .method
  | .call _ => .call

/-- The value of a selector. -/
def encodeSelector : Selector Expression → Json
  | .property name => SelectorKind.property.tagged [("propertyName", .string name)]
  | .method name args =>
    SelectorKind.method.tagged [("methodName", .string name), ("args", .array (encodeArgs args))]
  | .call args => SelectorKind.call.tagged [("args", .array (encodeArgs args))]

/-- Lists of selectors with the same data have selectors with the same data. -/
theorem forall₂_of_same_selectors {ss ts : List (Selector Expression)}
    (h : Same (.array (encodeSelectors ss)) (.array (encodeSelectors ts))) :
    List.Forall₂ (fun s t => Same (encodeSelector s) (encodeSelector t)) ss ts := by
  have hmap : ∀ ss : List (Selector Expression), encodeSelectors ss = ss.map encodeSelector := by
    intro ss
    induction ss with
    | nil => rfl
    | cons s rest ih => cases s <;> rw [encodeSelectors, ih, List.map_cons, encodeSelector]
  rwa [same_array_iff, hmap, hmap, List.forall₂_map_left_iff, List.forall₂_map_right_iff] at h

/-- Lists of arguments with the same data have arguments with the same data, and leave out the same
ones. -/
theorem forall₂_of_same_args {as bs : List (Option Expression)}
    (h : Same (.array (encodeArgs as)) (.array (encodeArgs bs))) :
    List.Forall₂ (Option.Rel fun a b => Same a.encode b.encode) as bs := by
  have hmap : ∀ as : List (Option Expression), encodeArgs as = as.map (Json.optional encode) := by
    intro as
    induction as with
    | nil => rfl
    | cons a rest ih => cases a <;> rw [encodeArgs, ih, List.map_cons, Json.optional]
  rw [same_array_iff, hmap, hmap, List.forall₂_map_left_iff, List.forall₂_map_right_iff] at h
  exact h.imp fun _ _ hab => hab.optional (fun e _ => e.encode_ne_null) fun e _ => e.encode_ne_null

/-- Expressions with the same data are of one kind. -/
theorem kind_eq_of_same {e e' : Expression} (h : Same e.encode e'.encode) : e.kind = e'.kind := by
  have htagged : ∀ e : Expression, ∃ fields, e.encode = e.kind.tagged fields ∧
      ("type" :: fields.map Prod.fst).Nodup := by
    intro e
    cases e with
    | output nodeId outputName ss => cases ss <;> exact ⟨_, rfl, by simp⟩
    | string _ | number _ | boolean _ | json _ _ => exact ⟨_, rfl, by simp⟩
  obtain ⟨fs, hfs, hd⟩ := htagged e
  obtain ⟨gs, hgs, hd'⟩ := htagged e'
  rw [hfs, hgs] at h
  exact ExpressionKind.tag_injective (same_string_iff.mp (h.field hd hd' "type" rfl rfl))

/-- Selectors with the same data are of one kind. -/
theorem selectorKind_eq_of_same {s s' : Selector Expression}
    (h : Same (encodeSelector s) (encodeSelector s')) : selectorKind s = selectorKind s' := by
  have htagged : ∀ s : Selector Expression, ∃ fields,
      encodeSelector s = (selectorKind s).tagged fields ∧
        ("type" :: fields.map Prod.fst).Nodup := by
    intro s
    cases s <;> exact ⟨_, rfl, by simp⟩
  obtain ⟨fs, hfs, hd⟩ := htagged s
  obtain ⟨gs, hgs, hd'⟩ := htagged s'
  rw [hfs, hgs] at h
  exact SelectorKind.tag_injective (same_string_iff.mp (h.field hd hd' "type" rfl rfl))

/-! ### Expressions with the same data -/

/-- The fields of a reference.  Its list of selectors is left out when it is empty. -/
theorem exists_encode_output (nodeId outputName : String) (ss : List (Selector Expression)) :
    ∃ fields, (Expression.output nodeId outputName ss).encode = .object fields ∧
      (fields.map Prod.fst).Nodup ∧ List.lookup "nodeId" fields = some (.string nodeId) ∧
      List.lookup "outputName" fields = some (.string outputName) ∧
      List.lookup "selectors" fields =
        if ss = [] then none else some (.array (encodeSelectors ss)) := by
  cases ss <;> exact ⟨_, rfl, by simp, rfl, rfl, rfl⟩

theorem of_same_output {n n' o o' : String} {ss ts : List (Selector Expression)}
    (h : Same (Expression.output n o ss).encode (Expression.output n' o' ts).encode) :
    n = n' ∧ o = o' ∧
      List.Forall₂ (fun s t => Same (encodeSelector s) (encodeSelector t)) ss ts := by
  obtain ⟨fs, hfs, hd, hnode, houtput, hselectors⟩ := exists_encode_output n o ss
  obtain ⟨gs, hgs, hd', hnode', houtput', hselectors'⟩ := exists_encode_output n' o' ts
  rw [hfs, hgs] at h
  refine ⟨same_string_iff.mp (h.field hd hd' "nodeId" hnode hnode'),
    same_string_iff.mp (h.field hd hd' "outputName" houtput houtput'), ?_⟩
  have hrel := h.fields hd hd' "selectors"
  rw [hselectors, hselectors'] at hrel
  cases ss with
  | nil =>
    cases ts with
    | nil => exact .nil
    | cons t ts => cases hrel
  | cons s ss =>
    cases ts with
    | nil => cases hrel
    | cons t ts =>
      cases hrel with
      | some hlists => exact forall₂_of_same_selectors hlists

mutual

/-- Expressions with the same data are the same, numbers compared by value. -/
theorem equals_of_same : ∀ {e e' : Expression}, (∀ x ∈ e.literals, x.isFinite = true) →
    (∀ x ∈ e'.literals, x.isFinite = true) → Same e.encode e'.encode → e.equals e' = true
  | .string s, e', _, _, h => by
    have hkind := kind_eq_of_same h
    cases e' with
    | string t =>
      rw [equals, decide_eq_true_eq]
      exact same_string_iff.mp (h.field (by simp) (by simp) "value" rfl rfl)
    | number _ | boolean _ | json _ _ | output _ _ _ => cases hkind
  | .number x, e', hx, hy, h => by
    have hkind := kind_eq_of_same h
    cases e' with
    | number y =>
      have hvalue := h.field (by simp) (by simp) "value" rfl rfl
      rw [float_eq (hx x (by simp [literals])), float_eq (hy y (by simp [literals])),
        same_number_iff] at hvalue
      rw [equals]
      exact hvalue
    | string _ | boolean _ | json _ _ | output _ _ _ => cases hkind
  | .boolean a, e', _, _, h => by
    have hkind := kind_eq_of_same h
    cases e' with
    | boolean b =>
      rw [equals, decide_eq_true_eq]
      exact same_bool_iff.mp (h.field (by simp) (by simp) "value" rfl rfl)
    | string _ | number _ | json _ _ | output _ _ _ => cases hkind
  | .json m x, e', _, _, h => by
    have hkind := kind_eq_of_same h
    cases e' with
    | json n y =>
      have hname := h.field (by simp) (by simp) "schemaName" rfl rfl
      have hvalue := h.field (by simp) (by simp) "value" rfl rfl
      rw [Same, normalize_of_canonical _ x.canonical, normalize_of_canonical _ y.canonical]
        at hvalue
      rw [equals, Bool.and_eq_true, decide_eq_true_eq]
      exact ⟨same_string_iff.mp hname, hvalue⟩
    | string _ | number _ | boolean _ | output _ _ _ => cases hkind
  | .output n o ss, e', hx, hy, h => by
    have hkind := kind_eq_of_same h
    cases e' with
    | output n' o' ts =>
      obtain ⟨rfl, rfl, hselectors⟩ := of_same_output h
      rw [literals] at hx hy
      rw [equals, equalSelectors_of_same hx hy hselectors]
      simp
    | string _ | number _ | boolean _ | json _ _ => cases hkind

theorem equalSelectors_of_same : ∀ {ss ts : List (Selector Expression)},
    (∀ x ∈ selectorLiterals ss, x.isFinite = true) →
      (∀ x ∈ selectorLiterals ts, x.isFinite = true) →
        List.Forall₂ (fun s t => Same (encodeSelector s) (encodeSelector t)) ss ts →
          equalSelectors ss ts = true
  | [], [], _, _, _ => by rw [equalSelectors]
  | .property name :: ss, t :: ts, hx, hy, .cons h hrest => by
    have hkind := selectorKind_eq_of_same h
    cases t with
    | property name' =>
      rw [selectorLiterals] at hx hy
      have hname := h.field (by simp) (by simp) "propertyName" rfl rfl
      rw [equalSelectors, equalSelectors_of_same hx hy hrest, same_string_iff.mp hname]
      simp
    | method _ _ | call _ => cases hkind
  | .method name args :: ss, t :: ts, hx, hy, .cons h hrest => by
    have hkind := selectorKind_eq_of_same h
    cases t with
    | method name' args' =>
      rw [selectorLiterals, List.forall_mem_append] at hx hy
      have hname := h.field (by simp) (by simp) "methodName" rfl rfl
      have hargs := h.field (by simp) (by simp) "args" rfl rfl
      rw [equalSelectors, equalArgs_of_same hx.1 hy.1 (forall₂_of_same_args hargs),
        equalSelectors_of_same hx.2 hy.2 hrest, same_string_iff.mp hname]
      simp
    | property _ | call _ => cases hkind
  | .call args :: ss, t :: ts, hx, hy, .cons h hrest => by
    have hkind := selectorKind_eq_of_same h
    cases t with
    | call args' =>
      rw [selectorLiterals, List.forall_mem_append] at hx hy
      have hargs := h.field (by simp) (by simp) "args" rfl rfl
      rw [equalSelectors, equalArgs_of_same hx.1 hy.1 (forall₂_of_same_args hargs),
        equalSelectors_of_same hx.2 hy.2 hrest, Bool.and_self]
    | property _ | method _ _ => cases hkind

theorem equalArgs_of_same : ∀ {as bs : List (Option Expression)},
    (∀ x ∈ argLiterals as, x.isFinite = true) → (∀ x ∈ argLiterals bs, x.isFinite = true) →
      List.Forall₂ (Option.Rel fun a b => Same a.encode b.encode) as bs →
        equalArgs as bs = true
  | [], [], _, _, _ => by rw [equalArgs]
  | none :: as, none :: bs, hx, hy, .cons _ hrest => by
    rw [argLiterals] at hx hy
    rw [equalArgs, equalArgs_of_same hx hy hrest]
  | some a :: as, some b :: bs, hx, hy, .cons (.some h) hrest => by
    rw [argLiterals, List.forall_mem_append] at hx hy
    rw [equalArgs, equals_of_same hx.1 hy.1 h, equalArgs_of_same hx.2 hy.2 hrest, Bool.and_self]

end

/-! ### Numbers of checked expressions -/

variable {ctx : Context}

mutual

/-- The numbers of an expression for which types are found are finite. -/
theorem isFinite_of_resolve : ∀ {e : Expression} {te : TypedExpression}, resolve ctx e = .ok te →
    ∀ x ∈ e.literals, x.isFinite = true
  | .number y, _, h, x, hx => by
    rw [literals, List.mem_singleton] at hx
    exact hx ▸ (resolve_number_eq_ok.mp h).1
  | .output nodeId outputName ss, _, h, x, hx => by
    obtain ⟨_, r, -, hr, -⟩ := resolve_output_eq_ok.mp h
    rw [literals] at hx
    exact isFinite_of_resolveSelectors hr x hx
  | .string _, _, _, _, hx | .boolean _, _, _, _, hx | .json _ _, _, _, _, hx => by
    rw [literals] at hx
    cases hx

theorem isFinite_of_resolveSelectors : ∀ {ss : List (Selector Expression)} {type : ValueType}
    {r : List (Selector TypedExpression) × ValueType}, resolveSelectors ctx type ss = .ok r →
      ∀ x ∈ selectorLiterals ss, x.isFinite = true
  | [], _, _, _, _, hx => by
    rw [selectorLiterals] at hx
    cases hx
  | .property name :: rest, _, _, h, x, hx => by
    obtain ⟨_, _, -, hr, -⟩ := resolveSelectors_property_eq_ok.mp h
    rw [selectorLiterals] at hx
    exact isFinite_of_resolveSelectors hr x hx
  | .method name args :: rest, _, _, h, x, hx => by
    obtain ⟨_, _, _, -, -, hlen, ha, hr, -⟩ := resolveSelectors_method_eq_ok.mp h
    rw [selectorLiterals, List.mem_append] at hx
    exact hx.elim (isFinite_of_resolveArgs ha hlen x) (isFinite_of_resolveSelectors hr x)
  | .call args :: rest, _, _, h, x, hx => by
    obtain ⟨_, _, _, _, -, hlen, ha, hr, -⟩ := resolveSelectors_call_eq_ok.mp h
    rw [selectorLiterals, List.mem_append] at hx
    exact hx.elim (isFinite_of_resolveArgs ha hlen x) (isFinite_of_resolveSelectors hr x)

theorem isFinite_of_resolveArgs : ∀ {args : List (Option Expression)} {index : Nat}
    {params : List ValueType} {r : List (Option TypedExpression)},
    resolveArgs ctx index params args = .ok r → args.length = params.length →
      ∀ x ∈ argLiterals args, x.isFinite = true
  | [], _, _, _, _, _, _, hx => by
    rw [argLiterals] at hx
    cases hx
  | none :: rest, _, param :: params, _, h, hlen, x, hx => by
    obtain ⟨_, -, hr, -⟩ := resolveArgs_none_eq_ok.mp h
    rw [argLiterals] at hx
    exact isFinite_of_resolveArgs hr (Nat.succ.inj hlen) x hx
  | some e :: rest, _, param :: params, _, h, hlen, x, hx => by
    obtain ⟨_, _, he, -, hr, -⟩ := resolveArgs_some_eq_ok.mp h
    rw [argLiterals, List.mem_append] at hx
    exact hx.elim (isFinite_of_resolve he x) (isFinite_of_resolveArgs hr (Nat.succ.inj hlen) x)

end

end Expression

/-! ### Types -/

namespace TypedExpression

mutual

/-- The types that were found for an expression, at any depth. -/
def types : TypedExpression → List ValueType
  | .json _ _ type => [type]
  | .output _ _ selectors type => type :: selectorTypes selectors
  | .string _ | .number _ | .boolean _ => []

/-- The types that were found in the arguments of some selectors. -/
def selectorTypes : List (Selector TypedExpression) → List ValueType
  | [] => []
  | .property _ :: rest => selectorTypes rest
  | .method _ args :: rest => argTypes args ++ selectorTypes rest
  | .call args :: rest => argTypes args ++ selectorTypes rest

/-- The types that were found for some arguments. -/
def argTypes : List (Option TypedExpression) → List ValueType
  | [] => []
  | none :: rest => argTypes rest
  | some e :: rest => types e ++ argTypes rest

end

/-- Two typed expressions are the same expression, numbers compared by value, with the same types
at every depth. -/
structure Matches (e f : TypedExpression) : Prop where
  /-- The expressions are the same. -/
  expression : e.erase.equals f.erase = true
  /-- The types are the same. -/
  types : e.types = f.types

end TypedExpression

namespace Expression

open TypedExpression

variable {ctx : Context}

mutual

/-- In one context, expressions that are the same get the same types. -/
theorem types_eq_of_equals : ∀ {e e' : Expression} {te te' : TypedExpression},
    e.equals e' = true → resolve ctx e = .ok te → resolve ctx e' = .ok te' → te.types = te'.types
  | .string _, .string _, _, _, _, h, h' => by
    rw [resolve] at h h'
    cases h
    cases h'
    rfl
  | .number _, .number _, _, _, _, h, h' => by
    obtain ⟨-, rfl⟩ := resolve_number_eq_ok.mp h
    obtain ⟨-, rfl⟩ := resolve_number_eq_ok.mp h'
    rfl
  | .boolean _, .boolean _, _, _, _, h, h' => by
    rw [resolve] at h h'
    cases h
    cases h'
    rfl
  | .json m x, .json n y, _, _, heq, h, h' => by
    rw [equals, Bool.and_eq_true, decide_eq_true_eq] at heq
    obtain ⟨rfl, -⟩ := heq
    obtain ⟨l, hl, -, rfl⟩ := resolve_json_eq_ok.mp h
    obtain ⟨l', hl', -, rfl⟩ := resolve_json_eq_ok.mp h'
    rw [hl, Except.ok.injEq] at hl'
    rw [hl']
    rfl
  | .output n o ss, .output n' o' ts, _, _, heq, h, h' => by
    rw [equals, Bool.and_eq_true, Bool.and_eq_true, decide_eq_true_eq, decide_eq_true_eq] at heq
    obtain ⟨⟨rfl, rfl⟩, hselectors⟩ := heq
    obtain ⟨t, r, ht, hr, rfl⟩ := resolve_output_eq_ok.mp h
    obtain ⟨t', r', ht', hr', rfl⟩ := resolve_output_eq_ok.mp h'
    rw [ht, Except.ok.injEq] at ht'
    subst ht'
    obtain ⟨hlast, htypes⟩ := selectorTypes_eq_of_equals hselectors hr hr'
    rw [types, types, hlast, htypes]

theorem selectorTypes_eq_of_equals : ∀ {ss ts : List (Selector Expression)} {type : ValueType}
    {r r' : List (Selector TypedExpression) × ValueType}, equalSelectors ss ts = true →
      resolveSelectors ctx type ss = .ok r → resolveSelectors ctx type ts = .ok r' →
        r.2 = r'.2 ∧ selectorTypes r.1 = selectorTypes r'.1
  | [], [], _, _, _, _, h, h' => by
    rw [resolveSelectors] at h h'
    cases h
    cases h'
    exact ⟨rfl, rfl⟩
  | .property m :: ss, .property n :: ts, _, _, _, heq, h, h' => by
    rw [equalSelectors, Bool.and_eq_true, decide_eq_true_eq] at heq
    obtain ⟨rfl, hrest⟩ := heq
    obtain ⟨next, r, hnext, hr, rfl⟩ := resolveSelectors_property_eq_ok.mp h
    obtain ⟨next', r', hnext', hr', rfl⟩ := resolveSelectors_property_eq_ok.mp h'
    rw [hnext, Option.some.injEq] at hnext'
    subst hnext'
    obtain ⟨hlast, htypes⟩ := selectorTypes_eq_of_equals hrest hr hr'
    rw [selectorTypes, selectorTypes]
    exact ⟨hlast, htypes⟩
  | .method m as :: ss, .method n bs :: ts, _, _, _, heq, h, h' => by
    rw [equalSelectors, Bool.and_eq_true, Bool.and_eq_true, decide_eq_true_eq] at heq
    obtain ⟨⟨rfl, hargs⟩, hrest⟩ := heq
    obtain ⟨l, a, r, hl, -, -, ha, hr, rfl⟩ := resolveSelectors_method_eq_ok.mp h
    obtain ⟨l', a', r', hl', -, -, ha', hr', rfl⟩ := resolveSelectors_method_eq_ok.mp h'
    rw [hl, Except.ok.injEq] at hl'
    subst hl'
    obtain ⟨hlast, htypes⟩ := selectorTypes_eq_of_equals hrest hr hr'
    rw [selectorTypes, selectorTypes, argTypes_eq_of_equals hargs ha ha', htypes]
    exact ⟨hlast, rfl⟩
  | .call as :: ss, .call bs :: ts, _, _, _, heq, h, h' => by
    rw [equalSelectors, Bool.and_eq_true] at heq
    obtain ⟨hargs, hrest⟩ := heq
    obtain ⟨_, _, a, r, rfl, -, ha, hr, rfl⟩ := resolveSelectors_call_eq_ok.mp h
    obtain ⟨_, _, a', r', heq, -, ha', hr', rfl⟩ := resolveSelectors_call_eq_ok.mp h'
    cases heq
    obtain ⟨hlast, htypes⟩ := selectorTypes_eq_of_equals hrest hr hr'
    rw [selectorTypes, selectorTypes, argTypes_eq_of_equals hargs ha ha', htypes]
    exact ⟨hlast, rfl⟩

theorem argTypes_eq_of_equals : ∀ {as bs : List (Option Expression)} {index : Nat}
    {params : List ValueType} {r r' : List (Option TypedExpression)}, equalArgs as bs = true →
      resolveArgs ctx index params as = .ok r → resolveArgs ctx index params bs = .ok r' →
        argTypes r = argTypes r'
  | [], [], _, _, _, _, _, h, h' => by
    rw [h, Except.ok.injEq] at h'
    rw [h']
  | _ :: _, _ :: _, _, [], _, _, _, h, h' => by
    rw [resolveArgs] at h h'
    rw [h, Except.ok.injEq] at h'
    rw [h']
  | none :: as, none :: bs, _, param :: params, _, _, heq, h, h' => by
    rw [equalArgs] at heq
    obtain ⟨r, -, hr, rfl⟩ := resolveArgs_none_eq_ok.mp h
    obtain ⟨r', -, hr', rfl⟩ := resolveArgs_none_eq_ok.mp h'
    rw [argTypes, argTypes, argTypes_eq_of_equals heq hr hr']
  | some a :: as, some b :: bs, _, param :: params, _, _, heq, h, h' => by
    rw [equalArgs, Bool.and_eq_true] at heq
    obtain ⟨e, r, he, -, hr, rfl⟩ := resolveArgs_some_eq_ok.mp h
    obtain ⟨e', r', he', -, hr', rfl⟩ := resolveArgs_some_eq_ok.mp h'
    rw [argTypes, argTypes, types_eq_of_equals heq.1 he he', argTypes_eq_of_equals heq.2 hr hr']

end

/-- Typed expressions whose values have the same data are the same, if their types were found in one
context. -/
theorem matches_of_same {e f : TypedExpression} (he : resolve ctx e.erase = .ok e)
    (hf : resolve ctx f.erase = .ok f) (h : Same e.erase.encode f.erase.encode) : e.Matches f where
  expression := equals_of_same (isFinite_of_resolve he) (isFinite_of_resolve hf) h
  types := types_eq_of_equals
    (equals_of_same (isFinite_of_resolve he) (isFinite_of_resolve hf) h) he hf

end Expression

end SlotTree
