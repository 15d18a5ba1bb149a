import SlotTree.Expression.Typed
import SlotTree.Proofs.Outcomes

/-!
# Checking expressions

What a successful check says about an expression, and that it does not hang on how nodes are named:
if one context knows under new names what another knows about the heads of an expression, and this
passes the check in the other, then it passes it, renamed, in the one, and gets the same types.

## Main definitions

* `TypedExpression.relabel` — a function applied to the node of every head.
* `Context.Simulates` — a context that knows at some heads, under new names, what another knows.

## Main results

* `Expression.erase_of_check` — a typed expression is the expression it came from.
* `Expression.check_relabel` — the check does not hang on how nodes are named.
* `Expression.heads_of_check` — every head of a checked expression is known to the context.
-/

namespace SlotTree

/-! ### Renaming typed expressions -/

namespace TypedExpression

mutual

/-- The expression with a function applied to the node of every head, at any depth. -/
def relabel (f : String → String) : TypedExpression → TypedExpression
  | .output nodeId outputName selectors type =>
    .output (f nodeId) outputName (relabelSelectors f selectors) type
  | .string value => .string value
  | .number value => .number value
  | .boolean value => .boolean value
  | .json schemaName value type => .json schemaName value type

/-- `relabel` in the arguments of some selectors. -/
def relabelSelectors (f : String → String) :
    List (Selector TypedExpression) → List (Selector TypedExpression)
  | [] => []
  | .property name :: rest => .property name :: relabelSelectors f rest
  | .method name args :: rest => .method name (relabelArgs f args) :: relabelSelectors f rest
  | .call args :: rest => .call (relabelArgs f args) :: relabelSelectors f rest

/-- `relabel` in some arguments. -/
def relabelArgs (f : String → String) :
    List (Option TypedExpression) → List (Option TypedExpression)
  | [] => []
  | none :: rest => none :: relabelArgs f rest
  | some e :: rest => some (relabel f e) :: relabelArgs f rest

end

@[simp]
theorem type_relabel (f : String → String) (e : TypedExpression) : (e.relabel f).type = e.type := by
  cases e <;> simp only [relabel, type]

theorem conform_eq_ok_iff {expected : ValueType} {e e' : TypedExpression} :
    e.conform expected = .ok e' ↔ e.type.assignable expected = true ∧ e' = e := by
  rw [conform]
  split
  · next h => simp [h, eq_comm]
  · next h => simp [h]

mutual

theorem erase_relabel (f : String → String) : ∀ e : TypedExpression,
    (e.relabel f).erase = e.erase.relabel f
  | .output nodeId outputName selectors type => by
    simp only [relabel, erase, Expression.relabel, eraseSelectors_relabel f selectors]
  | .string _ | .number _ | .boolean _ | .json _ _ _ => by
    simp only [relabel, erase, Expression.relabel]

theorem eraseSelectors_relabel (f : String → String) : ∀ ss : List (Selector TypedExpression),
    eraseSelectors (relabelSelectors f ss) = Expression.relabelSelectors f (eraseSelectors ss)
  | [] => by simp only [relabelSelectors, eraseSelectors, Expression.relabelSelectors]
  | .property name :: rest => by
    simp only [relabelSelectors, eraseSelectors, Expression.relabelSelectors,
      eraseSelectors_relabel f rest]
  | .method name args :: rest => by
    simp only [relabelSelectors, eraseSelectors, Expression.relabelSelectors,
      eraseSelectors_relabel f rest, eraseArgs_relabel f args]
  | .call args :: rest => by
    simp only [relabelSelectors, eraseSelectors, Expression.relabelSelectors,
      eraseSelectors_relabel f rest, eraseArgs_relabel f args]

theorem eraseArgs_relabel (f : String → String) : ∀ args : List (Option TypedExpression),
    eraseArgs (relabelArgs f args) = Expression.relabelArgs f (eraseArgs args)
  | [] => by simp only [relabelArgs, eraseArgs, Expression.relabelArgs]
  | none :: rest => by
    simp only [relabelArgs, eraseArgs, Expression.relabelArgs, eraseArgs_relabel f rest]
  | some e :: rest => by
    simp only [relabelArgs, eraseArgs, Expression.relabelArgs, eraseArgs_relabel f rest,
      erase_relabel f e]

end

mutual

/-- Only what the function does at the heads counts. -/
theorem relabel_congr {f g : String → String} : ∀ {e : TypedExpression},
    (∀ h ∈ e.erase.heads, f h.1 = g h.1) → e.relabel f = e.relabel g
  | .output nodeId outputName selectors type, hfg => by
    simp only [erase, Expression.heads, List.mem_cons, forall_eq_or_imp] at hfg
    simp only [relabel, hfg.1, relabelSelectors_congr hfg.2]
  | .string _, _ | .number _, _ | .boolean _, _ | .json _ _ _, _ => by simp only [relabel]

theorem relabelSelectors_congr {f g : String → String} : ∀ {ss : List (Selector TypedExpression)},
    (∀ h ∈ Expression.selectorHeads (eraseSelectors ss), f h.1 = g h.1) →
      relabelSelectors f ss = relabelSelectors g ss
  | [], _ => by simp only [relabelSelectors]
  | .property name :: rest, hfg => by
    simp only [eraseSelectors, Expression.selectorHeads] at hfg
    simp only [relabelSelectors, relabelSelectors_congr hfg]
  | .method name args :: rest, hfg => by
    simp only [eraseSelectors, Expression.selectorHeads, List.mem_append] at hfg
    simp only [relabelSelectors, relabelArgs_congr fun h hh => hfg h (.inl hh),
      relabelSelectors_congr fun h hh => hfg h (.inr hh)]
  | .call args :: rest, hfg => by
    simp only [eraseSelectors, Expression.selectorHeads, List.mem_append] at hfg
    simp only [relabelSelectors, relabelArgs_congr fun h hh => hfg h (.inl hh),
      relabelSelectors_congr fun h hh => hfg h (.inr hh)]

theorem relabelArgs_congr {f g : String → String} : ∀ {args : List (Option TypedExpression)},
    (∀ h ∈ Expression.argHeads (eraseArgs args), f h.1 = g h.1) →
      relabelArgs f args = relabelArgs g args
  | [], _ => by simp only [relabelArgs]
  | none :: rest, hfg => by
    simp only [eraseArgs, Expression.argHeads] at hfg
    simp only [relabelArgs, relabelArgs_congr hfg]
  | some e :: rest, hfg => by
    simp only [eraseArgs, Expression.argHeads, List.mem_append] at hfg
    simp only [relabelArgs, relabel_congr fun h hh => hfg h (.inl hh),
      relabelArgs_congr fun h hh => hfg h (.inr hh)]

end

mutual

theorem relabel_id : ∀ e : TypedExpression, e.relabel id = e
  | .output nodeId outputName selectors type => by
    simp only [relabel, id_eq, relabelSelectors_id selectors]
  | .string _ | .number _ | .boolean _ | .json _ _ _ => by simp only [relabel]

theorem relabelSelectors_id : ∀ ss : List (Selector TypedExpression), relabelSelectors id ss = ss
  | [] => by simp only [relabelSelectors]
  | .property name :: rest => by simp only [relabelSelectors, relabelSelectors_id rest]
  | .method name args :: rest => by
    simp only [relabelSelectors, relabelSelectors_id rest, relabelArgs_id args]
  | .call args :: rest => by
    simp only [relabelSelectors, relabelSelectors_id rest, relabelArgs_id args]

theorem relabelArgs_id : ∀ args : List (Option TypedExpression), relabelArgs id args = args
  | [] => by simp only [relabelArgs]
  | none :: rest => by simp only [relabelArgs, relabelArgs_id rest]
  | some e :: rest => by simp only [relabelArgs, relabelArgs_id rest, relabel_id e]

end

/-- Names that the function does not change at any head leave the expression as it is. -/
theorem relabel_eq_self {f : String → String} {e : TypedExpression}
    (hf : ∀ h ∈ e.erase.heads, f h.1 = h.1) : e.relabel f = e :=
  (relabel_congr hf).trans (relabel_id e)

mutual

/-- Renaming there and back again gives the expression. -/
theorem relabel_relabel {f g : String → String} (hfg : ∀ id, g (f id) = id) :
    ∀ e : TypedExpression, (e.relabel f).relabel g = e
  | .output nodeId outputName selectors type => by
    simp only [relabel, hfg, relabelSelectors_relabelSelectors hfg selectors]
  | .string _ | .number _ | .boolean _ | .json _ _ _ => by simp only [relabel]

theorem relabelSelectors_relabelSelectors {f g : String → String} (hfg : ∀ id, g (f id) = id) :
    ∀ ss : List (Selector TypedExpression), relabelSelectors g (relabelSelectors f ss) = ss
  | [] => by simp only [relabelSelectors]
  | .property name :: rest => by
    simp only [relabelSelectors, relabelSelectors_relabelSelectors hfg rest]
  | .method name args :: rest => by
    simp only [relabelSelectors, relabelSelectors_relabelSelectors hfg rest,
      relabelArgs_relabelArgs hfg args]
  | .call args :: rest => by
    simp only [relabelSelectors, relabelSelectors_relabelSelectors hfg rest,
      relabelArgs_relabelArgs hfg args]

theorem relabelArgs_relabelArgs {f g : String → String} (hfg : ∀ id, g (f id) = id) :
    ∀ args : List (Option TypedExpression), relabelArgs g (relabelArgs f args) = args
  | [] => by simp only [relabelArgs]
  | none :: rest => by simp only [relabelArgs, relabelArgs_relabelArgs hfg rest]
  | some e :: rest => by
    simp only [relabelArgs, relabelArgs_relabelArgs hfg rest, relabel_relabel hfg e]

end

end TypedExpression

/-! ### Steps of the check -/

namespace Expression

theorem resolve_output_eq_ok {ctx : Context} {nodeId outputName : String}
    {ss : List (Selector Expression)} {te : TypedExpression} :
    resolve ctx (.output nodeId outputName ss) = .ok te ↔
      ∃ t r, ctx.outputType nodeId outputName = .ok t ∧ resolveSelectors ctx t ss = .ok r ∧
        te = .output nodeId outputName r.1 r.2 := by
  rw [resolve]
  simp only [Outcome.bind_eq_ok, Outcome.pure_eq_ok, Except.ok.injEq]
  constructor
  · rintro ⟨t, ht, r, hr, rfl⟩
    exact ⟨t, r, ht, hr, rfl⟩
  · rintro ⟨t, r, ht, hr, rfl⟩
    exact ⟨t, ht, r, hr, rfl⟩

theorem resolve_json_eq_ok {ctx : Context} {schemaName : String} {value : FreeForm}
    {te : TypedExpression} :
    resolve ctx (.json schemaName value) = .ok te ↔
      ∃ l, ctx.literal schemaName = .ok l ∧ l.type.accepts value.json = true ∧
        te = .json schemaName value l.type := by
  rw [resolve, Outcome.bind_eq_ok]
  refine exists_congr fun l => and_congr_right fun _ => ?_
  split
  · next h => simp [h, eq_comm]
  · next h => simp [h]

theorem resolve_number_eq_ok {ctx : Context} {value : Binary64} {te : TypedExpression} :
    resolve ctx (.number value) = .ok te ↔ value.isFinite = true ∧ te = .number value := by
  rw [resolve]
  split
  · next h => simp [h, eq_comm]
  · next h => simp [h]

theorem resolveSelectors_property_eq_ok {ctx : Context} {type : ValueType} {name : String}
    {rest : List (Selector Expression)} {r : List (Selector TypedExpression) × ValueType} :
    resolveSelectors ctx type (.property name :: rest) = .ok r ↔
      ∃ next r', type.property? name = some next ∧ resolveSelectors ctx next rest = .ok r' ∧
        r = (.property name :: r'.1, r'.2) := by
  rw [resolveSelectors]
  cases type.property? name with
  | none => simp
  | some next =>
    simp only [Outcome.bind_eq_ok, Outcome.pure_eq_ok, Except.ok.injEq]
    constructor
    · rintro ⟨r', hr, rfl⟩
      exact ⟨next, r', rfl, hr, rfl⟩
    · rintro ⟨_, r', ⟨⟩, hr, rfl⟩
      exact ⟨r', hr, rfl⟩

theorem resolveSelectors_method_eq_ok {ctx : Context} {type : ValueType} {name : String}
    {args : List (Option Expression)} {rest : List (Selector Expression)}
    {r : List (Selector TypedExpression) × ValueType} :
    resolveSelectors ctx type (.method name args :: rest) = .ok r ↔
      ∃ m args' r', ctx.method name = .ok m ∧ type.assignable m.selfType = true ∧
        args.length = m.params.length ∧ resolveArgs ctx 0 m.params args = .ok args' ∧
        resolveSelectors ctx m.returns rest = .ok r' ∧ r = (.method name args' :: r'.1, r'.2) := by
  rw [resolveSelectors, Outcome.bind_eq_ok]
  refine exists_congr fun m => ?_
  by_cases hself : type.assignable m.selfType = true
  · by_cases hlen : args.length = m.params.length
    · simp only [hself, hlen, if_true, true_and, Outcome.bind_eq_ok, Outcome.pure_eq_ok,
        Except.ok.injEq, exists_and_left]
      simp [eq_comm]
    · simp [hself, hlen]
  · simp [hself]

theorem resolveSelectors_call_eq_ok {ctx : Context} {type : ValueType}
    {args : List (Option Expression)} {rest : List (Selector Expression)}
    {r : List (Selector TypedExpression) × ValueType} :
    resolveSelectors ctx type (.call args :: rest) = .ok r ↔
      ∃ params returns args' r', type = .function params returns ∧ args.length = params.length ∧
        resolveArgs ctx 0 params args = .ok args' ∧ resolveSelectors ctx returns rest = .ok r' ∧
        r = (.call args' :: r'.1, r'.2) := by
  by_cases hfun : ∃ params returns, type = .function params returns
  · obtain ⟨params, returns, rfl⟩ := hfun
    rw [resolveSelectors]
    by_cases hlen : args.length = params.length
    · simp only [hlen, if_true, Outcome.bind_eq_ok, Outcome.pure_eq_ok, Except.ok.injEq,
        ValueType.function.injEq]
      constructor
      · rintro ⟨args', ha, r', hr, rfl⟩
        exact ⟨params, returns, args', r', ⟨rfl, rfl⟩, rfl, ha, hr, rfl⟩
      · rintro ⟨_, _, args', r', ⟨rfl, rfl⟩, -, ha, hr, rfl⟩
        exact ⟨args', ha, r', hr, rfl⟩
    · simp only [hlen, if_false, reduceCtorEq, false_iff]
      rintro ⟨_, _, _, _, heq, hlen', -⟩
      cases heq
      exact hlen hlen'
  · rw [resolveSelectors]
    · simp only [reduceCtorEq, false_iff]
      rintro ⟨params, returns, _, _, heq, -⟩
      exact hfun ⟨params, returns, heq⟩
    · exact fun params returns h => hfun ⟨params, returns, h⟩

theorem resolveArgs_none_eq_ok {ctx : Context} {index : Nat} {param : ValueType}
    {params : List ValueType} {rest : List (Option Expression)}
    {r : List (Option TypedExpression)} :
    resolveArgs ctx index (param :: params) (none :: rest) = .ok r ↔
      ∃ r', param.isOptional = true ∧ resolveArgs ctx (index + 1) params rest = .ok r' ∧
        r = none :: r' := by
  rw [resolveArgs]
  by_cases hopt : param.isOptional = true
  · simp only [hopt, if_true, Outcome.ok_bind, Outcome.bind_eq_ok, Outcome.pure_eq_ok,
      Except.ok.injEq, true_and]
    simp only [eq_comm]
  · simp [hopt]

theorem resolveArgs_some_eq_ok {ctx : Context} {index : Nat} {param : ValueType}
    {params : List ValueType} {e : Expression} {rest : List (Option Expression)}
    {r : List (Option TypedExpression)} :
    resolveArgs ctx index (param :: params) (some e :: rest) = .ok r ↔
      ∃ te r', resolve ctx e = .ok te ∧ te.type.assignable param = true ∧
        resolveArgs ctx (index + 1) params rest = .ok r' ∧ r = some te :: r' := by
  rw [resolveArgs]
  simp only [Outcome.bind_eq_ok, Outcome.map_eq_ok, Outcome.pure_eq_ok, Except.ok.injEq,
    TypedExpression.conform_eq_ok_iff]
  constructor
  · rintro ⟨_, hte, _, ⟨te, ⟨hconf, rfl⟩, rfl⟩, r', hr, rfl⟩
    exact ⟨te, r', hte, hconf, hr, rfl⟩
  · rintro ⟨te, r', hte, hconf, hr, rfl⟩
    exact ⟨te, hte, _, ⟨te, ⟨hconf, rfl⟩, rfl⟩, r', hr, rfl⟩

theorem check_eq_ok_iff {ctx : Context} {expected : ValueType} {e : Expression}
    {te : TypedExpression} :
    e.check ctx expected = .ok te ↔
      resolve ctx e = .ok te ∧ te.type.assignable expected = true := by
  rw [check, Outcome.bind_eq_ok]
  constructor
  · rintro ⟨te', hte, hconf⟩
    obtain ⟨hconf, rfl⟩ := TypedExpression.conform_eq_ok_iff.mp hconf
    exact ⟨hte, hconf⟩
  · rintro ⟨hte, hconf⟩
    exact ⟨te, hte, TypedExpression.conform_eq_ok_iff.mpr ⟨hconf, rfl⟩⟩

/-! ### Typed expressions are the expressions they came from -/

mutual

theorem erase_of_resolve {ctx : Context} : ∀ {e : Expression} {te : TypedExpression},
    resolve ctx e = .ok te → te.erase = e
  | .output nodeId outputName ss, te, h => by
    obtain ⟨t, r, -, hr, rfl⟩ := resolve_output_eq_ok.mp h
    rw [TypedExpression.erase, erase_of_resolveSelectors hr]
  | .string value, te, h => by
    rw [resolve, Except.ok.injEq] at h
    rw [← h, TypedExpression.erase]
  | .number value, te, h => by
    obtain ⟨-, rfl⟩ := resolve_number_eq_ok.mp h
    rw [TypedExpression.erase]
  | .boolean value, te, h => by
    rw [resolve, Except.ok.injEq] at h
    rw [← h, TypedExpression.erase]
  | .json schemaName value, te, h => by
    obtain ⟨l, -, -, rfl⟩ := resolve_json_eq_ok.mp h
    rw [TypedExpression.erase]

theorem erase_of_resolveSelectors {ctx : Context} : ∀ {ss : List (Selector Expression)}
    {type : ValueType} {r : List (Selector TypedExpression) × ValueType},
    resolveSelectors ctx type ss = .ok r → TypedExpression.eraseSelectors r.1 = ss
  | [], type, r, h => by
    rw [resolveSelectors, Except.ok.injEq] at h
    rw [← h, TypedExpression.eraseSelectors]
  | .property name :: rest, type, r, h => by
    obtain ⟨next, r', -, hr, rfl⟩ := resolveSelectors_property_eq_ok.mp h
    rw [TypedExpression.eraseSelectors, erase_of_resolveSelectors hr]
  | .method name args :: rest, type, r, h => by
    obtain ⟨m, args', r', -, -, hlen, ha, hr, rfl⟩ := resolveSelectors_method_eq_ok.mp h
    rw [TypedExpression.eraseSelectors, erase_of_resolveSelectors hr, erase_of_resolveArgs hlen ha]
  | .call args :: rest, type, r, h => by
    obtain ⟨params, returns, args', r', -, hlen, ha, hr, rfl⟩ := resolveSelectors_call_eq_ok.mp h
    rw [TypedExpression.eraseSelectors, erase_of_resolveSelectors hr, erase_of_resolveArgs hlen ha]

theorem erase_of_resolveArgs {ctx : Context} : ∀ {args : List (Option Expression)} {index : Nat}
    {params : List ValueType} {r : List (Option TypedExpression)}, args.length = params.length →
    resolveArgs ctx index params args = .ok r → TypedExpression.eraseArgs r = args
  | [], index, params, r, _, h => by
    rw [resolveArgs, Except.ok.injEq] at h
    rw [← h, TypedExpression.eraseArgs]
  | _ :: _, _, [], _, hlen, _ => by cases hlen
  | none :: rest, index, param :: params, r, hlen, h => by
    obtain ⟨r', -, hr, rfl⟩ := resolveArgs_none_eq_ok.mp h
    rw [TypedExpression.eraseArgs, erase_of_resolveArgs (Nat.succ.inj hlen) hr]
  | some e :: rest, index, param :: params, r, hlen, h => by
    obtain ⟨te, r', hte, -, hr, rfl⟩ := resolveArgs_some_eq_ok.mp h
    rw [TypedExpression.eraseArgs, erase_of_resolveArgs (Nat.succ.inj hlen) hr,
      erase_of_resolve hte]

end

theorem erase_of_check {ctx : Context} {expected : ValueType} {e : Expression}
    {te : TypedExpression} (h : e.check ctx expected = .ok te) : te.erase = e :=
  erase_of_resolve (check_eq_ok_iff.mp h).1

/-! ### Renaming what an expression refers to -/

end Expression

/-- A context that knows at some heads, under new names, what another knows. -/
structure Context.Simulates (ctx' ctx : Context) (f : String → String)
    (heads : List (String × String)) : Prop where
  /-- The kinds of literals are the same. -/
  literal : ∀ name, ctx'.literal name = ctx.literal name
  /-- The methods are the same. -/
  method : ∀ name, ctx'.method name = ctx.method name
  /-- The outputs of a node are those of the node with the new name. -/
  outputType : ∀ head ∈ heads, ∀ t, ctx.outputType head.1 head.2 = .ok t →
    ctx'.outputType (f head.1) head.2 = .ok t

/-- A simulation is one at fewer heads. -/
theorem Context.Simulates.mono {ctx' ctx : Context} {f : String → String}
    {heads heads' : List (String × String)} (hs : ctx'.Simulates ctx f heads)
    (hsub : ∀ head ∈ heads', head ∈ heads) : ctx'.Simulates ctx f heads' where
  literal := hs.literal
  method := hs.method
  outputType head hhead := hs.outputType head (hsub head hhead)

namespace Expression

theorem length_relabelArgs (f : String → String) : ∀ args : List (Option Expression),
    (relabelArgs f args).length = args.length
  | [] => by rw [relabelArgs]
  | none :: rest => by
    rw [relabelArgs, List.length_cons, List.length_cons, length_relabelArgs f rest]
  | some e :: rest => by
    rw [relabelArgs, List.length_cons, List.length_cons, length_relabelArgs f rest]

mutual

theorem resolve_relabel {ctx ctx' : Context} {f : String → String} :
    ∀ {e : Expression} {te : TypedExpression}, ctx'.Simulates ctx f e.heads →
      resolve ctx e = .ok te → resolve ctx' (e.relabel f) = .ok (te.relabel f)
  | .output nodeId outputName ss, te, hs, h => by
    obtain ⟨t, r, ht, hr, rfl⟩ := resolve_output_eq_ok.mp h
    rw [heads] at hs
    rw [relabel, TypedExpression.relabel, resolve_output_eq_ok]
    have hrest := hs.mono fun head hhead => List.mem_cons_of_mem (nodeId, outputName) hhead
    exact ⟨t, _, hs.outputType (nodeId, outputName) List.mem_cons_self t ht,
      resolveSelectors_relabel hrest hr, rfl⟩
  | .string value, te, _, h => by
    rw [resolve, Except.ok.injEq] at h
    rw [← h, relabel, TypedExpression.relabel, resolve]
  | .number value, te, _, h => by
    obtain ⟨hfin, rfl⟩ := resolve_number_eq_ok.mp h
    rw [relabel, TypedExpression.relabel, resolve_number_eq_ok]
    exact ⟨hfin, rfl⟩
  | .boolean value, te, _, h => by
    rw [resolve, Except.ok.injEq] at h
    rw [← h, relabel, TypedExpression.relabel, resolve]
  | .json schemaName value, te, hs, h => by
    obtain ⟨l, hl, hacc, rfl⟩ := resolve_json_eq_ok.mp h
    rw [relabel, TypedExpression.relabel, resolve_json_eq_ok]
    exact ⟨l, (hs.literal _).trans hl, hacc, rfl⟩

theorem resolveSelectors_relabel {ctx ctx' : Context} {f : String → String} :
    ∀ {ss : List (Selector Expression)} {type : ValueType}
      {r : List (Selector TypedExpression) × ValueType}, ctx'.Simulates ctx f (selectorHeads ss) →
      resolveSelectors ctx type ss = .ok r →
      resolveSelectors ctx' type (relabelSelectors f ss) =
        .ok (TypedExpression.relabelSelectors f r.1, r.2)
  | [], type, r, _, h => by
    rw [resolveSelectors, Except.ok.injEq] at h
    rw [← h, relabelSelectors, TypedExpression.relabelSelectors, resolveSelectors]
  | .property name :: rest, type, r, hs, h => by
    obtain ⟨next, r', hp, hr, rfl⟩ := resolveSelectors_property_eq_ok.mp h
    rw [selectorHeads] at hs
    rw [relabelSelectors, TypedExpression.relabelSelectors, resolveSelectors_property_eq_ok]
    exact ⟨next, _, hp, resolveSelectors_relabel hs hr, rfl⟩
  | .method name args :: rest, type, r, hs, h => by
    obtain ⟨m, args', r', hm, hself, hlen, ha, hr, rfl⟩ := resolveSelectors_method_eq_ok.mp h
    rw [selectorHeads] at hs
    have hargs := hs.mono fun head => List.mem_append_left (selectorHeads rest)
    have hrest := hs.mono fun head => List.mem_append_right (argHeads args)
    rw [relabelSelectors, TypedExpression.relabelSelectors, resolveSelectors_method_eq_ok]
    exact ⟨m, _, _, (hs.method _).trans hm, hself, (length_relabelArgs f args).trans hlen,
      resolveArgs_relabel hargs hlen ha, resolveSelectors_relabel hrest hr, rfl⟩
  | .call args :: rest, type, r, hs, h => by
    obtain ⟨params, returns, args', r', htype, hlen, ha, hr, rfl⟩ :=
      resolveSelectors_call_eq_ok.mp h
    rw [selectorHeads] at hs
    have hargs := hs.mono fun head => List.mem_append_left (selectorHeads rest)
    have hrest := hs.mono fun head => List.mem_append_right (argHeads args)
    rw [relabelSelectors, TypedExpression.relabelSelectors, resolveSelectors_call_eq_ok]
    exact ⟨params, returns, _, _, htype, (length_relabelArgs f args).trans hlen,
      resolveArgs_relabel hargs hlen ha, resolveSelectors_relabel hrest hr, rfl⟩

theorem resolveArgs_relabel {ctx ctx' : Context} {f : String → String} :
    ∀ {args : List (Option Expression)} {index : Nat} {params : List ValueType}
      {r : List (Option TypedExpression)}, ctx'.Simulates ctx f (argHeads args) →
      args.length = params.length → resolveArgs ctx index params args = .ok r →
      resolveArgs ctx' index params (relabelArgs f args) = .ok (TypedExpression.relabelArgs f r)
  | [], index, params, r, _, _, h => by
    rw [resolveArgs, Except.ok.injEq] at h
    rw [← h, relabelArgs, TypedExpression.relabelArgs, resolveArgs]
  | _ :: _, _, [], _, _, hlen, _ => by cases hlen
  | none :: rest, index, param :: params, r, hs, hlen, h => by
    obtain ⟨r', hopt, hr, rfl⟩ := resolveArgs_none_eq_ok.mp h
    rw [argHeads] at hs
    rw [relabelArgs, TypedExpression.relabelArgs, resolveArgs_none_eq_ok]
    exact ⟨_, hopt, resolveArgs_relabel hs (Nat.succ.inj hlen) hr, rfl⟩
  | some e :: rest, index, param :: params, r, hs, hlen, h => by
    obtain ⟨te, r', hte, hconf, hr, rfl⟩ := resolveArgs_some_eq_ok.mp h
    rw [argHeads] at hs
    have harg := hs.mono fun head => List.mem_append_left (argHeads rest)
    have hrest := hs.mono fun head => List.mem_append_right e.heads
    rw [relabelArgs, TypedExpression.relabelArgs, resolveArgs_some_eq_ok]
    exact ⟨_, _, resolve_relabel harg hte, by rw [TypedExpression.type_relabel]; exact hconf,
      resolveArgs_relabel hrest (Nat.succ.inj hlen) hr, rfl⟩

end

/-- An expression that passes the check passes it under new names, and gets the same types. -/
theorem check_relabel {ctx ctx' : Context} {f : String → String} {expected : ValueType}
    {e : Expression} {te : TypedExpression} (hs : ctx'.Simulates ctx f e.heads)
    (h : e.check ctx expected = .ok te) :
    (e.relabel f).check ctx' expected = .ok (te.relabel f) := by
  obtain ⟨hte, hconf⟩ := check_eq_ok_iff.mp h
  rw [check_eq_ok_iff, TypedExpression.type_relabel]
  exact ⟨resolve_relabel hs hte, hconf⟩

/-! ### The heads of checked expressions -/

mutual

theorem heads_of_resolve {ctx : Context} : ∀ {e : Expression} {te : TypedExpression},
    resolve ctx e = .ok te → ∀ h ∈ e.heads, ∃ t, ctx.outputType h.1 h.2 = .ok t
  | .output nodeId outputName ss, te, h => by
    obtain ⟨t, r, ht, hr, rfl⟩ := resolve_output_eq_ok.mp h
    rw [heads, List.forall_mem_cons]
    exact ⟨⟨t, ht⟩, heads_of_resolveSelectors hr⟩
  | .string _, _, _ | .number _, _, _ | .boolean _, _, _ | .json _ _, _, _ => by
    rw [heads]
    exact fun _ hh => absurd hh List.not_mem_nil

theorem heads_of_resolveSelectors {ctx : Context} : ∀ {ss : List (Selector Expression)}
    {type : ValueType} {r : List (Selector TypedExpression) × ValueType},
    resolveSelectors ctx type ss = .ok r →
      ∀ h ∈ selectorHeads ss, ∃ t, ctx.outputType h.1 h.2 = .ok t
  | [], type, r, _ => by
    rw [selectorHeads]
    exact fun _ hh => absurd hh List.not_mem_nil
  | .property name :: rest, type, r, h => by
    obtain ⟨next, r', -, hr, rfl⟩ := resolveSelectors_property_eq_ok.mp h
    rw [selectorHeads]
    exact heads_of_resolveSelectors hr
  | .method name args :: rest, type, r, h => by
    obtain ⟨m, args', r', -, -, hlen, ha, hr, rfl⟩ := resolveSelectors_method_eq_ok.mp h
    rw [selectorHeads, List.forall_mem_append]
    exact ⟨heads_of_resolveArgs hlen ha, heads_of_resolveSelectors hr⟩
  | .call args :: rest, type, r, h => by
    obtain ⟨params, returns, args', r', -, hlen, ha, hr, rfl⟩ := resolveSelectors_call_eq_ok.mp h
    rw [selectorHeads, List.forall_mem_append]
    exact ⟨heads_of_resolveArgs hlen ha, heads_of_resolveSelectors hr⟩

theorem heads_of_resolveArgs {ctx : Context} : ∀ {args : List (Option Expression)} {index : Nat}
    {params : List ValueType} {r : List (Option TypedExpression)}, args.length = params.length →
    resolveArgs ctx index params args = .ok r →
      ∀ h ∈ argHeads args, ∃ t, ctx.outputType h.1 h.2 = .ok t
  | [], index, params, r, _, _ => by
    rw [argHeads]
    exact fun _ hh => absurd hh List.not_mem_nil
  | _ :: _, _, [], _, hlen, _ => by cases hlen
  | none :: rest, index, param :: params, r, hlen, h => by
    obtain ⟨r', -, hr, rfl⟩ := resolveArgs_none_eq_ok.mp h
    rw [argHeads]
    exact heads_of_resolveArgs (Nat.succ.inj hlen) hr
  | some e :: rest, index, param :: params, r, hlen, h => by
    obtain ⟨te, r', hte, -, hr, rfl⟩ := resolveArgs_some_eq_ok.mp h
    rw [argHeads, List.forall_mem_append]
    exact ⟨heads_of_resolve hte, heads_of_resolveArgs (Nat.succ.inj hlen) hr⟩

end

/-- Every head of a checked expression is an output that the context knows. -/
theorem heads_of_check {ctx : Context} {expected : ValueType} {e : Expression}
    {te : TypedExpression} (h : e.check ctx expected = .ok te) :
    ∀ head ∈ e.heads, ∃ t, ctx.outputType head.1 head.2 = .ok t :=
  heads_of_resolve (check_eq_ok_iff.mp h).1

end Expression

end SlotTree
