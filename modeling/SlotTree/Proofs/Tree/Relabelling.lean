import Mathlib.Logic.Equiv.Basic
import SlotTree.Proofs.Tree.Visible

/-!
# Trees under other ids

A tree and the same tree with its ids exchanged.  Neither the links nor the checks of bindings look
at the ids themselves, so they go through under the new ids.  Under ids that are not exchanged at
all, this speaks of trees that differ in bindings alone.

## Main definitions

* `Node.rehang`, `Node.relabel` — a node with other ids in its links, and in its bindings, too.
* `Tree.Rehung` — the same tree under other ids, whatever is bound in it.
* `Tree.Relabels` — the same tree under other ids.

## Main results

* `Tree.Rehung.linked` — the tree stays linked.
* `Tree.Relabels.valid` — its bindings stay valid.
* `Tree.Relabels.undo` — exchanging the ids again gives the tree back.
-/

namespace SlotTree

/-! ### Other ids in links -/

/-- A link with another id. -/
def ParentLink.relabel (f : String → String) (link : ParentLink) : ParentLink :=
  { link with nodeId := f link.nodeId }

namespace SlotContent

/-- A slot that holds other ids. -/
def relabel (f : String → String) : SlotContent → SlotContent
  | .single child => .single (child.map f)
  | .collection ids => .collection (ids.map f)

@[simp] theorem size_relabel (f : String → String) (content : SlotContent) :
    (content.relabel f).size = content.size := by
  cases content with
  | single child => cases child <;> rfl
  | collection ids => exact List.length_map f

@[simp] theorem isCollection_relabel (f : String → String) (content : SlotContent) :
    (content.relabel f).isCollection = content.isCollection := by
  cases content <;> rfl

@[simp] theorem child?_relabel (f : String → String) (content : SlotContent) (i : Option Nat) :
    (content.relabel f).child? i = (content.child? i).map f := by
  cases content <;> cases i <;> simp [relabel]

/-- Only what the function does to the ids in a slot counts. -/
theorem relabel_congr {f g : String → String} {content : SlotContent}
    (h : ∀ i c, content.child? i = some c → f c = g c) : content.relabel f = content.relabel g := by
  cases content with
  | single child =>
    cases child with
    | none => rfl
    | some c => rw [relabel, relabel, Option.map_some, Option.map_some, h none c rfl]
  | collection ids =>
    rw [relabel, relabel, collection.injEq]
    refine List.map_congr_left fun c hc => ?_
    obtain ⟨i, hi⟩ := List.mem_iff_getElem?.mp hc
    exact h (some i) c hi

/-- A slot that holds none of the ids that are exchanged stays as it is. -/
theorem relabel_eq_self {f : String → String} {content : SlotContent}
    (h : ∀ i c, content.child? i = some c → f c = c) : content.relabel f = content := by
  refine (relabel_congr (g := id) h).trans ?_
  cases content <;> simp [relabel]

theorem relabel_relabel {f g : String → String} (h : ∀ c, g (f c) = c) (content : SlotContent) :
    (content.relabel f).relabel g = content := by
  cases content with
  | single child => cases child <;> simp [relabel, h]
  | collection ids => simp [relabel, Function.comp_def, h]

end SlotContent

namespace Node

/-- A node with another id, other ids in its links, and other bindings. -/
def rehang (f : String → String) (n : Node) (inputs : SortedMap TypedExpression) : Node where
  schema := n.schema
  id := f n.id
  parent := n.parent.map (ParentLink.relabel f)
  slots := n.slots.mapValues fun _ content => content.relabel f
  inputs := inputs

/-- A node with other ids in its links and its bindings. -/
def relabel (f : String → String) (n : Node) : Node :=
  n.rehang f (n.inputs.map (TypedExpression.relabel f))

variable {f : String → String} {n : Node} {inputs : SortedMap TypedExpression}

@[simp] theorem child?_rehang (f : String → String) (n : Node)
    (inputs : SortedMap TypedExpression) (s : String) (i : Option Nat) :
    (n.rehang f inputs).child? s i = (n.child? s i).map f := by
  rw [child?, child?, rehang, OrderedMap.get?_mapValues]
  cases n.slots.get? s <;> simp

theorem FitsSchema.rehang (hf : n.FitsSchema) : (n.rehang f inputs).FitsSchema where
  keys := by
    rw [Node.rehang, OrderedMap.keys_mapValues]
    exact hf.keys
  kind := by
    intro s content decl hc hd
    rw [Node.rehang, OrderedMap.get?_mapValues] at hc
    obtain ⟨old, hold, rfl⟩ := Option.map_eq_some_iff.mp hc
    rw [SlotContent.isCollection_relabel]
    exact hf.kind s old decl hold hd

/-- The addresses of a node do not depend on ids. -/
theorem declares_rehang {a : InputAddress} : (n.rehang f inputs).Declares a ↔ n.Declares a := by
  obtain ⟨name, index⟩ := a
  cases index with
  | none => exact Iff.rfl
  | some i =>
    constructor
    · rintro ⟨s, content, hn, hs, hi⟩
      rw [Node.rehang, OrderedMap.get?_mapValues] at hs
      obtain ⟨old, hold, rfl⟩ := Option.map_eq_some_iff.mp hs
      exact ⟨s, old, hn, hold, by rwa [SlotContent.size_relabel] at hi⟩
    · rintro ⟨s, content, hn, hs, hi⟩
      refine ⟨s, content.relabel f, hn, ?_, by rwa [SlotContent.size_relabel]⟩
      rw [Node.rehang, OrderedMap.get?_mapValues, hs]
      rfl

/-- Under ids that are not exchanged only the bindings differ. -/
theorem rehang_id (n : Node) (inputs : SortedMap TypedExpression) :
    n.rehang (fun c => c) inputs = { n with inputs } := by
  have hslots : (n.slots.mapValues fun _ content => content.relabel fun c => c) = n.slots := by
    refine OrderedMap.ext_keys (by simp) fun s => ?_
    rw [OrderedMap.get?_mapValues]
    cases n.slots.get? s with
    | none => rfl
    | some content => rw [Option.map_some, SlotContent.relabel_eq_self fun _ _ _ => rfl]
  have hparent : n.parent.map (ParentLink.relabel fun c => c) = n.parent := by
    cases n.parent <;> rfl
  rw [rehang, hslots, hparent]

theorem relabel_relabel {g : String → String} (h : ∀ c, g (f c) = c) (n : Node) :
    (n.relabel f).relabel g = n := by
  have hlink : ∀ link : ParentLink, (link.relabel f).relabel g = link := by
    intro link
    cases link
    simp [ParentLink.relabel, h]
  have hslots : (n.slots.mapValues fun _ content => content.relabel f).mapValues
      (fun _ content => content.relabel g) = n.slots := by
    refine OrderedMap.ext_keys (by simp) fun s => ?_
    rw [OrderedMap.get?_mapValues, OrderedMap.get?_mapValues, Option.map_map]
    cases n.slots.get? s <;> simp [SlotContent.relabel_relabel h]
  have hinputs := SortedMap.map_map (TypedExpression.relabel f) (TypedExpression.relabel g) n.inputs
    fun e => TypedExpression.relabel_relabel h e
  have hparent : (n.parent.map (ParentLink.relabel f)).map (ParentLink.relabel g) = n.parent := by
    cases n.parent <;> simp [hlink]
  simp only [relabel, rehang, h, hslots, hinputs, hparent]

end Node

/-! ### Trees -/

namespace Tree

variable {defs : Definitions} {f : Equiv.Perm String} {t t' : Tree}

/-- The same tree under other ids, whatever is bound in it. -/
structure Rehung (f : Equiv.Perm String) (t t' : Tree) : Prop where
  /-- The root is the same. -/
  root : t'.root = t.root.map f
  /-- Every node is the same. -/
  node : ∀ {id n}, t.nodes.get? id = some n →
    ∃ inputs, t'.nodes.get? (f id) = some (n.rehang f inputs)
  /-- There are no further nodes. -/
  none : ∀ {id}, t.nodes.get? id = none → t'.nodes.get? (f id) = none

/-- The same tree under other ids. -/
structure Relabels (f : Equiv.Perm String) (t t' : Tree) : Prop where
  /-- The root is the same. -/
  root : t'.root = t.root.map f
  /-- Every node is the same, and there are no further ones. -/
  nodes : ∀ id, t'.nodes.get? (f id) = (t.nodes.get? id).map (Node.relabel f)

namespace Rehung

/-- Every node of the tree is one that was there before. -/
theorem origin (hr : Rehung f t t') {id' : String} {m : Node} (hm : t'.nodes.get? id' = some m) :
    ∃ id n inputs, id' = f id ∧ t.nodes.get? id = some n ∧ m = n.rehang f inputs := by
  obtain ⟨id, rfl⟩ := f.surjective id'
  cases hn : t.nodes.get? id with
  | none =>
    rw [hr.none hn] at hm
    cases hm
  | some n =>
    obtain ⟨inputs, hm'⟩ := hr.node hn
    rw [hm, Option.some.injEq] at hm'
    exact ⟨id, n, inputs, rfl, hn, hm'⟩

theorem carries (hr : Rehung f t t') : Carries t t' f fun _ => True where
  node := by
    intro id n _ hn
    obtain ⟨inputs, hm⟩ := hr.node hn
    refine ⟨_, hm, rfl, fun hnone => ?_, fun link hlink => ⟨trivial, link.relabel f, ?_, rfl, rfl⟩⟩
    · simp only [Node.rehang, hnone, Option.map_none]
    · simp only [Node.rehang, hlink, Option.map_some]

theorem ownId (hr : Rehung f t t') (h : Linked defs t) {id : String} {m : Node}
    (hm : t'.nodes.get? id = some m) : m.id = id := by
  obtain ⟨id, n, inputs, rfl, hn, rfl⟩ := hr.origin hm
  simp only [Node.rehang, h.ownId hn]

/-- The tree stays linked. -/
theorem linked (hr : Rehung f t t') (h : Linked defs t) : Linked defs t' where
  ownId := hr.ownId h
  known := by
    intro id m hm
    obtain ⟨id, n, inputs, rfl, hn, rfl⟩ := hr.origin hm
    have hknown := h.known hn
    exact hknown
  fits := by
    intro id m hm
    obtain ⟨id, n, inputs, rfl, hn, rfl⟩ := hr.origin hm
    exact (h.fits hn).rehang
  top := by
    intro id m hm hnone
    obtain ⟨id, n, inputs, rfl, hn, rfl⟩ := hr.origin hm
    rw [hr.root, h.top hn (Option.map_eq_none_iff.mp hnone), Option.map_some]
  rooted := by
    intro id hroot
    rw [hr.root] at hroot
    obtain ⟨r, hr', rfl⟩ := Option.map_eq_some_iff.mp hroot
    obtain ⟨n, hn, hnone⟩ := h.rooted hr'
    obtain ⟨inputs, hm⟩ := hr.node hn
    exact ⟨_, hm, by simp only [Node.rehang, hnone, Option.map_none]⟩
  up := by
    intro id m link hm hlink
    obtain ⟨id, n, inputs, rfl, hn, rfl⟩ := hr.origin hm
    obtain ⟨link, hlink', rfl⟩ := Option.map_eq_some_iff.mp hlink
    obtain ⟨p, hp, hc⟩ := h.up hn hlink'
    obtain ⟨inputs', hp'⟩ := hr.node hp
    refine ⟨_, hp', ?_⟩
    rw [Node.child?_rehang]
    simp only [ParentLink.relabel, hc, Option.map_some]
  down := by
    intro id m s i c hm hc
    obtain ⟨id, n, inputs, rfl, hn, rfl⟩ := hr.origin hm
    rw [Node.child?_rehang] at hc
    obtain ⟨c, hc', rfl⟩ := Option.map_eq_some_iff.mp hc
    obtain ⟨q, hq, hlink⟩ := h.down hn hc'
    obtain ⟨inputs', hq'⟩ := hr.node hq
    exact ⟨_, hq', by simp only [Node.rehang, hlink, Option.map_some, ParentLink.relabel]⟩
  climbs := by
    intro id m hm
    obtain ⟨id, n, inputs, rfl, hn, rfl⟩ := hr.origin hm
    obtain ⟨path, hpath⟩ := h.climbs hn
    obtain ⟨path', hpath', -⟩ := hr.carries.climbs h.ownId (hr.ownId h) hpath trivial hn hm
    exact ⟨path', hpath'⟩

/-- What is below a node stays below it. -/
theorem below (hr : Rehung f t t') {x y : String} (hb : t.Below x y) : t'.Below (f x) (f y) := by
  induction hb with
  | self => exact .self
  | @child y n link hn hlink _ ih =>
    obtain ⟨inputs, hm⟩ := hr.node hn
    have hlink' : (n.rehang f inputs).parent = some (link.relabel f) := by
      rw [Node.rehang, hlink, Option.map_some]
    exact .child hm hlink' ih

theorem refl (t : Tree) : Rehung (Equiv.refl _) t t where
  root := by cases t.root <;> rfl
  node := fun {_ n} hn => ⟨n.inputs, hn.trans (congrArg some (n.rehang_id n.inputs).symm)⟩
  none := fun hn => hn

/-- Other bindings of a node make no difference. -/
theorem put (hr : Rehung f t t') {id : String} {m : Node} (hm : t'.nodes.get? id = some m)
    (inputs : SortedMap TypedExpression) : Rehung f t (t'.put id { m with inputs }) where
  root := hr.root
  node := by
    intro j n hn
    obtain ⟨old, hold⟩ := hr.node hn
    by_cases hj : id = f j
    · subst hj
      rw [hm, Option.some.injEq] at hold
      exact ⟨inputs, by rw [get?_put, if_pos rfl, hold]; rfl⟩
    · exact ⟨old, by rw [get?_put, if_neg hj]; exact hold⟩
  none := by
    intro j hn
    have hnone := hr.none hn
    rw [get?_put, if_neg, hnone]
    rintro rfl
    rw [hm] at hnone
    cases hnone

end Rehung

namespace Relabels

theorem rehung (hr : Relabels f t t') : Rehung f t t' where
  root := hr.root
  node := by
    intro id n hn
    exact ⟨_, by rw [hr.nodes, hn]; rfl⟩
  none := by
    intro id hn
    rw [hr.nodes, hn]
    rfl

/-- The bindings stay valid. -/
theorem valid (hr : Relabels f t t') (h : Valid defs t) : Valid defs t' where
  linked := hr.rehung.linked h.linked
  bound := by
    intro id' m k e' hm he'
    obtain ⟨id, rfl⟩ := f.surjective id'
    rw [hr.nodes] at hm
    obtain ⟨n, hn, rfl⟩ := Option.map_eq_some_iff.mp hm
    simp only [Node.relabel, Node.rehang, SortedMap.get?_map] at he'
    obtain ⟨e, he, rfl⟩ := Option.map_eq_some_iff.mp he'
    obtain ⟨a, hkey, hd, hok⟩ := h.bound hn he
    refine ⟨a, hkey, Node.declares_rehang.mpr hd, ?_⟩
    rw [TypedExpression.erase_relabel]
    have hid : (n.relabel f).id = f id := by
      simp only [Node.relabel, Node.rehang, h.linked.ownId hn]
    exact hr.rehung.carries.checkInput h.linked (hr.rehung.linked h.linked) f.injective trivial hn
      hid rfl hok

/-- Exchanging the ids again gives the tree back. -/
theorem undo {t'' : Tree} (hr : Relabels f t t') (hr' : Relabels f.symm t' t'') : t'' = t := by
  have hf : ∀ id, f.symm (f id) = id := f.symm_apply_apply
  have hnodes : t''.nodes = t.nodes := by
    refine SortedMap.ext_get? fun id => ?_
    have h := hr'.nodes (f id)
    rw [hf, hr.nodes, Option.map_map] at h
    rw [h]
    cases t.nodes.get? id with
    | none => rfl
    | some n =>
      rw [Option.map_some, Function.comp_apply, Node.relabel_relabel hf]
  have hroot : t''.root = t.root := by
    rw [hr'.root, hr.root, Option.map_map]
    cases t.root <;> simp
  exact Tree.ext hroot hnodes

end Relabels

end Tree

end SlotTree
