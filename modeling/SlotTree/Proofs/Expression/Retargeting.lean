import SlotTree.Expression.Visitor

/-!
# Retargeting

The walk that points references to one node at another is a renaming: it puts the new id at every
head that has the old one, at any depth, and tells whether there was such a head.

## Main definitions

* `replaceId` — one id put in place of another.

## Main results

* `Expression.retarget?_eq` — what the walk gives.
* `Expression.relabel_congr` — only the ids at the heads count for a renaming.
-/

namespace SlotTree

/-- One id put in place of another; all others stay. -/
def replaceId (old new id : String) : String := if id = old then new else id

namespace Expression

/-- Whether an expression refers to a node. -/
def refersTo (id : String) (heads : List (String × String)) : Bool := heads.any fun h => h.1 = id

theorem refersTo_eq_true_iff {id : String} {heads : List (String × String)} :
    refersTo id heads = true ↔ ∃ h ∈ heads, h.1 = id := by
  simp [refersTo]

theorem refersTo_cons (id : String) (h : String × String) (hs : List (String × String)) :
    refersTo id (h :: hs) = (decide (h.1 = id) || refersTo id hs) := rfl

theorem refersTo_append (id : String) (hs hs' : List (String × String)) :
    refersTo id (hs ++ hs') = (refersTo id hs || refersTo id hs') := List.any_append

@[simp] theorem expression_retargeting (old new : String) (e : Expression) (s : Bool) :
    (retargeting old new).expression e s = s := rfl

@[simp] theorem selector_retargeting (old new : String) (sel : Selector Expression) (s : Bool) :
    (retargeting old new).selector sel s = (true, s) := rfl

theorem head_retargeting (old new nodeId outputName : String) (s : Bool) :
    (retargeting old new).head nodeId outputName s =
      ((replaceId old new nodeId, outputName), s || decide (nodeId = old)) := by
  simp only [retargeting, replaceId]
  split <;> simp [*]

mutual

/-- The walk renames, and notes whether there was anything to rename. -/
theorem walk_retargeting (old new : String) : ∀ (e : Expression) (s : Bool),
    e.walk (retargeting old new) s =
      (e.relabel (replaceId old new), s || refersTo old e.heads)
  | .output nodeId outputName ss, s => by
    rw [walk, relabel, heads, refersTo_cons]
    simp only [expression_retargeting, head_retargeting, walkSelectors_retargeting old new ss,
      Bool.or_assoc]
  | .string _, s | .number _, s | .boolean _, s | .json _ _, s => by
    rw [walk, relabel, heads]
    simp [refersTo]

theorem walkSelectors_retargeting (old new : String) :
    ∀ (ss : List (Selector Expression)) (s : Bool),
      walkSelectors (retargeting old new) ss s =
        (relabelSelectors (replaceId old new) ss, s || refersTo old (selectorHeads ss))
  | [], s => by
    rw [walkSelectors, relabelSelectors, selectorHeads]
    simp [refersTo]
  | .property name :: rest, s => by
    rw [walkSelectors, relabelSelectors, selectorHeads]
    simp only [selector_retargeting, walkSelectors_retargeting old new rest]
  | .method name args :: rest, s => by
    rw [walkSelectors, relabelSelectors, selectorHeads, refersTo_append]
    simp only [selector_retargeting, if_true, walkArgs_retargeting old new args,
      walkSelectors_retargeting old new rest, Bool.or_assoc]
  | .call args :: rest, s => by
    rw [walkSelectors, relabelSelectors, selectorHeads, refersTo_append]
    simp only [selector_retargeting, if_true, walkArgs_retargeting old new args,
      walkSelectors_retargeting old new rest, Bool.or_assoc]

theorem walkArgs_retargeting (old new : String) :
    ∀ (args : List (Option Expression)) (s : Bool),
      walkArgs (retargeting old new) args s =
        (relabelArgs (replaceId old new) args, s || refersTo old (argHeads args))
  | [], s => by
    rw [walkArgs, relabelArgs, argHeads]
    simp [refersTo]
  | none :: rest, s => by
    rw [walkArgs, relabelArgs, argHeads, walkArgs_retargeting old new rest s]
  | some e :: rest, s => by
    rw [walkArgs, relabelArgs, argHeads, refersTo_append]
    simp only [walk_retargeting old new e, walkArgs_retargeting old new rest, Bool.or_assoc]

end

/-- Retargeting renames an expression that refers to the old node, and gives nothing for others. -/
theorem retarget?_eq (old new : String) (e : Expression) :
    e.retarget? old new =
      if refersTo old e.heads then some (e.relabel (replaceId old new)) else none := by
  rw [retarget?, walk_retargeting, Bool.false_or]
  cases refersTo old e.heads <;> rfl

mutual

/-- Only the ids at the heads count for a renaming. -/
theorem relabel_congr {f g : String → String} : ∀ {e : Expression},
    (∀ h ∈ e.heads, f h.1 = g h.1) → e.relabel f = e.relabel g
  | .output nodeId outputName ss, hfg => by
    rw [heads, List.forall_mem_cons] at hfg
    rw [relabel, relabel, relabelSelectors_congr hfg.2, hfg.1]
  | .string _, _ | .number _, _ | .boolean _, _ | .json _ _, _ => by rw [relabel, relabel]

theorem relabelSelectors_congr {f g : String → String} : ∀ {ss : List (Selector Expression)},
    (∀ h ∈ selectorHeads ss, f h.1 = g h.1) → relabelSelectors f ss = relabelSelectors g ss
  | [], _ => by rw [relabelSelectors, relabelSelectors]
  | .property name :: rest, hfg => by
    rw [selectorHeads] at hfg
    rw [relabelSelectors, relabelSelectors, relabelSelectors_congr hfg]
  | .method name args :: rest, hfg => by
    rw [selectorHeads, List.forall_mem_append] at hfg
    rw [relabelSelectors, relabelSelectors, relabelArgs_congr hfg.1, relabelSelectors_congr hfg.2]
  | .call args :: rest, hfg => by
    rw [selectorHeads, List.forall_mem_append] at hfg
    rw [relabelSelectors, relabelSelectors, relabelArgs_congr hfg.1, relabelSelectors_congr hfg.2]

theorem relabelArgs_congr {f g : String → String} : ∀ {args : List (Option Expression)},
    (∀ h ∈ argHeads args, f h.1 = g h.1) → relabelArgs f args = relabelArgs g args
  | [], _ => by rw [relabelArgs, relabelArgs]
  | none :: rest, hfg => by
    rw [argHeads] at hfg
    rw [relabelArgs, relabelArgs, relabelArgs_congr hfg]
  | some e :: rest, hfg => by
    rw [argHeads, List.forall_mem_append] at hfg
    rw [relabelArgs, relabelArgs, relabel_congr hfg.1, relabelArgs_congr hfg.2]

end

end Expression

end SlotTree
