import SlotTree.Proofs.Document.Undoing
import SlotTree.Proofs.History.Debouncing

/-!
# Bursts of edits

Edits of one input that follow one another closely are undone together.  An edit that comes later
than the window allows begins a group; the window is measured from the edit that began the last
group, so edits that are taken into a group do not make it longer.  Each group is one entry, which
binds the input again to what it was bound to before the edit that began the group.

## Main definitions

* `Burst`, `Document.during` — edits of one input, and a document after some of them.
* `Document.Opens`, `Document.Openings` — the edits at which a group begins.
* `Document.Collapses` — what becomes of a burst.

## Main results

* `Document.Archives.edit` — what an edit does to the tree and to the log.
* `Document.Bursts.opens_iff` — when a group begins.
* `Document.Bursts.undo` — what undoing leads to.
* `Document.collapses_run` — bursts in a run.
-/

namespace SlotTree

/-! ### Trees -/

namespace Tree

variable {defs : Definitions} {t t' t'' : Tree} {x : String} {a : InputAddress}

/-- What an input is bound to. -/
def bound? (t : Tree) (x : String) (a : InputAddress) : Option Expression :=
  (t.nodes.get? x).bind fun n => (n.input? a).map TypedExpression.erase

/-- A tree is another one in which an input has been bound or cleared. -/
def Rebinds (t t' : Tree) (x : String) (a : InputAddress) : Prop :=
  ∃ n e, t.nodes.get? x = some n ∧ n.Declares a ∧ t' = t.put x (n.bind a e)

theorem Rebinds.trans (h : t.Rebinds t' x a) (h' : t'.Rebinds t'' x a) : t.Rebinds t'' x a := by
  obtain ⟨n, e, hn, ha, rfl⟩ := h
  obtain ⟨m, e', hm, -, rfl⟩ := h'
  rw [get?_put, if_pos rfl, Option.some.injEq] at hm
  subst hm
  exact ⟨n, e', hn, ha, by rw [put_put, Node.bind_bind]⟩

/-- To bind the input to what it was bound to leads back. -/
theorem Rebinds.replays {inputName : String} {index : Option UInt32}
    (h : t.Rebinds t' x ⟨inputName, index.map UInt32.toNat⟩) (hvalid : Valid defs t) :
    Replays defs t'
      [.setNodeInput x inputName index (t.bound? x ⟨inputName, index.map UInt32.toNat⟩)] t := by
  obtain ⟨n, e, hn, ha, rfl⟩ := h
  have hback := setInput_replays hvalid.linked hn ha (hvalid.accepts hn ha) e
  rw [Node.bind_self, put_self hn] at hback
  rw [bound?, hn]
  exact hback

end Tree

namespace Document

/-! ### One edit -/

/-- A document with a valid tree, which keeps all groups and records first bindings. -/
structure Archives (doc : Document) : Prop where
  /-- The tree is valid. -/
  valid : Tree.Valid doc.definitions doc.tree
  /-- The groups are numbered below the next one. -/
  lt_next : ∀ e ∈ doc.log.entries, e.group < doc.log.nextGroup
  /-- All groups are kept. -/
  unbounded : doc.log.config.maxGroups = 0
  /-- First bindings are recorded. -/
  first : doc.log.config.recordFirstBinding = true

namespace Archives

variable {doc : Document} {now : Instant} {r : Document × Commit}

theorem run (h : Archives doc) (calls : List Call) : Archives (doc.run calls) := by
  refine List.foldlRecOn _ _ h fun doc h c _ => ⟨?_, lt_nextGroup_after h.lt_next c, ?_, ?_⟩
  · rw [definitions_after]
    exact valid_after h.valid c
  · rw [config_after]
    exact h.unbounded
  · rw [config_after]
    exact h.first

/-- An edit of an input rebinds it, and if it does not belong to the entry on top, puts an entry on
that binds the input again to what it was bound to. -/
theorem edit (h : Archives doc) {x inputName : String} {index : Option UInt32}
    {expression : Option Expression}
    (hr : doc.apply now (.setNodeInput x inputName index expression) = .ok r) :
    doc.tree.Rebinds r.1.tree x ⟨inputName, index.map UInt32.toNat⟩ ∧
      r.1.log = if doc.log.debounces x inputName index now then doc.log else
        { doc.log with
          entries := ⟨doc.log.nextGroup, now, .setNodeInput x inputName index
            (doc.tree.bound? x ⟨inputName, index.map UInt32.toNat⟩)⟩ :: doc.log.entries
          nextGroup := doc.log.nextGroup + 1 } := by
  obtain ⟨q, inverses, d, hq, hinv, hd, rfl⟩ := apply_eq_ok_iff.mp hr
  cases hq
  obtain ⟨n, e, hn, ha, -, htree⟩ :=
    (Draft.setInput_eq_ok_iff (d := { tree := doc.tree }) h.valid.linked).mp ⟨d, hd, rfl⟩
  refine ⟨⟨n, e, hn, ha, htree⟩, ?_⟩
  -- the inverse binds what was bound, or clears what was not
  have hinverse : inverses = [.setNodeInput x inputName index
      (doc.tree.bound? x ⟨inputName, index.map UInt32.toNat⟩)] := by
    rw [h.first, Tree.inverses, Tree.node_eq_ok_iff.mpr hn, Outcome.ok_bind] at hinv
    rw [Tree.bound?, hn, Option.bind_some]
    cases hin : n.input? ⟨inputName, index.map UInt32.toNat⟩ <;>
    · rw [hin] at hinv
      cases hinv
      rfl
  rw [record, hinverse, UndoLog.push_eq _ _ (List.cons_ne_nil _ _), UndoLog.trim,
    if_pos h.unbounded]
  rfl

/-- An edit that is accepted begins a group exactly if it does not belong to the entry on top. -/
theorem pushes_iff (h : Archives doc) {x inputName : String} {index : Option UInt32}
    {expression : Option Expression} {g : Nat}
    (hr : doc.apply now (.setNodeInput x inputName index expression) = .ok r) :
    doc.Pushes now (.setNodeInput x inputName index expression) g ↔
      doc.log.debounces x inputName index now = false ∧ g = doc.log.nextGroup := by
  obtain ⟨-, hlog⟩ := h.edit hr
  cases hdeb : doc.log.debounces x inputName index now with
  | true =>
    rw [hdeb, if_pos rfl] at hlog
    refine ⟨?_, fun hfalse => by cases hfalse.1⟩
    rintro ⟨r', hr', htop, hfresh⟩
    cases hr.symm.trans hr'
    rw [hlog] at htop
    obtain ⟨e, he, hg⟩ := UndoLog.exists_of_top? htop
    exact absurd hg (hfresh e he)
  | false =>
    rw [hdeb, if_neg Bool.false_ne_true] at hlog
    have htop : r.1.log.top? = some doc.log.nextGroup := by
      rw [hlog]
      rfl
    constructor
    · rintro ⟨r', hr', htop', -⟩
      cases hr.symm.trans hr'
      exact ⟨rfl, Option.some.inj (htop'.symm.trans htop)⟩
    · rintro ⟨-, rfl⟩
      exact ⟨r, hr, htop, fun e he => Nat.ne_of_lt (h.lt_next e he)⟩

end Archives

end Document

/-! ### Many edits -/

/-- Edits of one input. -/
structure Burst where
  /-- The node. -/
  nodeId : String
  /-- The name of the input. -/
  inputName : String
  /-- Its position, if it belongs to a child. -/
  index : Option UInt32
  /-- When the edits are made. -/
  time : Nat → Instant
  /-- What the input is bound to; nothing clears it. -/
  expression : Nat → Option Expression

namespace Burst

/-- The address of the input. -/
def address (b : Burst) : InputAddress := ⟨b.inputName, b.index.map UInt32.toNat⟩

/-- The edits. -/
def patch (b : Burst) (k : Nat) : Patch :=
  .setNodeInput b.nodeId b.inputName b.index (b.expression k)

/-- The patch that binds the input to what it is bound to in a tree. -/
def restoring (b : Burst) (t : Tree) : Patch :=
  .setNodeInput b.nodeId b.inputName b.index (t.bound? b.nodeId b.address)

end Burst

namespace Document

variable {doc : Document} {b : Burst} {n k : Nat} {ks : List Nat}

/-- A document after the first edits of a burst. -/
def during (doc : Document) (b : Burst) (k : Nat) : Document :=
  doc.run ((List.range k).map fun j => .apply (b.time j) (b.patch j))

/-- A group begins at an edit. -/
def Opens (doc : Document) (b : Burst) (k : Nat) : Prop :=
  ∃ g, (doc.during b k).Pushes (b.time k) (b.patch k) g

/-- The edits at which groups begin, among the first so many, the last one at the front. -/
inductive Openings (doc : Document) (b : Burst) : Nat → List Nat → Prop where
  /-- Before the first edit. -/
  | start : Openings doc b 0 []
  /-- An edit at which a group begins. -/
  | opens {k : Nat} {ks : List Nat} : Openings doc b k ks → doc.Opens b k →
      Openings doc b (k + 1) (k :: ks)
  /-- An edit that is taken into a group. -/
  | joins {k : Nat} {ks : List Nat} : Openings doc b k ks → ¬ doc.Opens b k →
      Openings doc b (k + 1) ks

/-- The entry that is put on the log if a group begins at an edit. -/
def entryOf (doc : Document) (b : Burst) (k : Nat) : UndoEntry :=
  ⟨(doc.during b k).log.nextGroup, b.time k, b.restoring (doc.during b k).tree⟩

theorem Archives.during (h : Archives doc) (b : Burst) (k : Nat) : Archives (doc.during b k) :=
  h.run _

theorem exists_openings (doc : Document) (b : Burst) : ∀ k, ∃ ks, doc.Openings b k ks
  | 0 => ⟨[], .start⟩
  | k + 1 => by
    obtain ⟨ks, hks⟩ := exists_openings doc b k
    by_cases ho : doc.Opens b k
    · exact ⟨_, hks.opens ho⟩
    · exact ⟨_, hks.joins ho⟩

namespace Openings

theorem mem_iff (h : doc.Openings b k ks) {j : Nat} : j ∈ ks ↔ j < k ∧ doc.Opens b j := by
  induction h with
  | start => simp
  | @opens k ks _ ho ih =>
    rw [List.mem_cons, ih, Nat.lt_succ_iff_lt_or_eq]
    constructor
    · rintro (rfl | ⟨hlt, hj⟩)
      · exact ⟨.inr rfl, ho⟩
      · exact ⟨.inl hlt, hj⟩
    · rintro ⟨hlt | rfl, hj⟩
      · exact .inr ⟨hlt, hj⟩
      · exact .inl rfl
  | @joins k ks _ ho ih =>
    rw [ih, Nat.lt_succ_iff_lt_or_eq]
    constructor
    · exact fun ⟨hlt, hj⟩ => ⟨.inl hlt, hj⟩
    · rintro ⟨hlt | rfl, hj⟩
      · exact ⟨hlt, hj⟩
      · exact absurd hj ho

/-- Behind each of them are those that came before it. -/
theorem split (h : doc.Openings b k ks) : ∀ {front : List Nat} {j : Nat} {rest : List Nat},
    ks = front ++ j :: rest → j < k ∧ doc.Openings b j rest := by
  induction h with
  | start =>
    intro front j rest heq
    cases front <;> cases heq
  | @opens k ks hks _ ih =>
    intro front j rest heq
    cases front with
    | nil =>
      cases heq
      exact ⟨Nat.lt_succ_self _, hks⟩
    | cons i front =>
      obtain ⟨hlt, hrest⟩ := ih (List.cons.inj heq).2
      exact ⟨Nat.lt_succ_of_lt hlt, hrest⟩
  | joins _ _ ih =>
    intro front j rest heq
    obtain ⟨hlt, hrest⟩ := ih heq
    exact ⟨Nat.lt_succ_of_lt hlt, hrest⟩

end Openings

/-- Edits of one input that are all accepted, one after the other in time; the first one does not
belong to what was done before. -/
structure Bursts (doc : Document) (b : Burst) (n : Nat) : Prop where
  /-- They are accepted. -/
  accepted : ∀ k < n, ∃ r, (doc.during b k).apply (b.time k) (b.patch k) = .ok r
  /-- They are in the order of time. -/
  ordered : ∀ j k, j ≤ k → k < n → b.time j ≤ b.time k
  /-- The first one does not belong to the entry on top. -/
  apart : 0 < n → doc.log.debounces b.nodeId b.inputName b.index (b.time 0) = false

/-- A document is back where another one was at an edit of a burst. -/
structure Back (doc : Document) (b : Burst) (k : Nat) (d : Document) : Prop where
  /-- The definitions are the same. -/
  definitions : d.definitions = doc.definitions
  /-- The tree is what it was. -/
  tree : d.tree = (doc.during b k).tree
  /-- What can be undone is what it was. -/
  entries : d.log.entries = (doc.during b k).log.entries

namespace Bursts

variable (hb : doc.Bursts b n) (h : Archives doc)

theorem during_succ {r : Document × Commit}
    (hr : (doc.during b k).apply (b.time k) (b.patch k) = .ok r) : doc.during b (k + 1) = r.1 := by
  have hafter : (doc.during b k).after (.apply (b.time k) (b.patch k)) = r.1 := by rw [after, hr]
  rw [during, List.range_succ, List.map_append, run_append]
  exact hafter

include hb h

/-- A group begins where an edit does not belong to the entry on top. -/
theorem opens_iff_debounces (hk : k < n) : doc.Opens b k ↔
    (doc.during b k).log.debounces b.nodeId b.inputName b.index (b.time k) = false := by
  obtain ⟨r, hr⟩ := hb.accepted k hk
  constructor
  · rintro ⟨g, hpushes⟩
    exact (((h.during b _).pushes_iff hr).mp hpushes).1
  · exact fun hdeb => ⟨_, ((h.during b _).pushes_iff hr).mpr ⟨hdeb, rfl⟩⟩

theorem rebinds_succ (hk : k < n) :
    (doc.during b k).tree.Rebinds (doc.during b (k + 1)).tree b.nodeId b.address := by
  obtain ⟨r, hr⟩ := hb.accepted k hk
  rw [during_succ hr]
  exact ((h.during b _).edit hr).1

/-- The input alone makes the difference between two trees of a burst. -/
theorem rebinds {j : Nat} (hjk : j < k) (hk : k ≤ n) :
    (doc.during b j).tree.Rebinds (doc.during b k).tree b.nodeId b.address := by
  induction k with
  | zero => exact absurd hjk (Nat.not_lt_zero j)
  | succ k ih =>
    have hstep := hb.rebinds_succ h hk
    rcases Nat.lt_succ_iff_lt_or_eq.mp hjk with hlt | rfl
    · exact (ih hlt (Nat.le_of_succ_le hk)).trans hstep
    · exact hstep

/-- On the log are the entries of the edits at which groups begin, on top of what was there. -/
theorem entries (hks : doc.Openings b k ks) (hk : k ≤ n) :
    (doc.during b k).log.entries = ks.map (doc.entryOf b) ++ doc.log.entries := by
  induction hks with
  | start => rfl
  | @opens k ks _ ho ih =>
    obtain ⟨r, hr⟩ := hb.accepted k hk
    have hlog := ((h.during b _).edit hr).2
    rw [(hb.opens_iff_debounces h hk).mp ho, if_neg Bool.false_ne_true] at hlog
    rw [during_succ hr, hlog, List.map_cons, List.cons_append, ← ih (Nat.le_of_succ_le hk)]
    rfl
  | @joins k ks _ ho ih =>
    obtain ⟨r, hr⟩ := hb.accepted k hk
    have hlog := ((h.during b _).edit hr).2
    rw [hb.opens_iff_debounces h hk, Bool.not_eq_false] at ho
    rw [ho, if_pos rfl] at hlog
    rw [during_succ hr, hlog]
    exact ih (Nat.le_of_succ_le hk)

/-- Behind the entry of an edit is the log as it was at that edit. -/
theorem entries_split (hks : doc.Openings b k ks) (hk : k ≤ n) {front : List Nat} {j : Nat}
    {rest : List Nat} (heq : ks = front ++ j :: rest) : (doc.during b k).log.entries =
      front.map (doc.entryOf b) ++ doc.entryOf b j :: (doc.during b j).log.entries := by
  obtain ⟨hj, hrest⟩ := hks.split heq
  rw [hb.entries h hks hk, hb.entries h hrest (Nat.le_of_lt (Nat.lt_of_lt_of_le hj hk)), heq,
    List.map_append, List.append_assoc, List.map_cons, List.cons_append]

/-- A group begins with the first edit, and whenever an edit is later than the window allows after
the last edit at which one began. -/
theorem opens_iff (hwindow : doc.log.config.debounceMs.toNat < 2 ^ 63) (hk : k < n)
    (hks : doc.Openings b k ks) : doc.Opens b k ↔ ∀ j ∈ ks.head?,
      (doc.log.config.debounceMs.toNat : Int) < Instant.elapsedMillis (b.time j) (b.time k) := by
  have hconfig : (doc.during b k).log.config = doc.log.config := config_run _ doc
  cases ks with
  | nil =>
    refine iff_of_true ?_ fun j hj => by cases hj
    have hfirst : doc.Opens b 0 :=
      (hb.opens_iff_debounces h (Nat.zero_lt_of_lt hk)).mpr (hb.apart (Nat.zero_lt_of_lt hk))
    rcases Nat.eq_zero_or_pos k with rfl | hpos
    · exact hfirst
    · -- the first edit is among those at which groups begin
      exact absurd (hks.mem_iff.mpr ⟨hpos, hfirst⟩) List.not_mem_nil
  | cons j rest =>
    have hsplit : j :: rest = [] ++ j :: rest := rfl
    obtain ⟨hj, -⟩ := hks.split hsplit
    have hentries := hb.entries_split h hks (Nat.le_of_lt hk) hsplit
    have hdeb : (doc.during b k).log.debounces b.nodeId b.inputName b.index (b.time k) = true ↔
        0 ≤ Instant.elapsedMillis (b.time j) (b.time k) ∧
          Instant.elapsedMillis (b.time j) (b.time k) ≤ (doc.during b k).log.window :=
      UndoLog.debounces_cons hentries rfl (h.during b j).lt_next
    have hnonneg : 0 ≤ Instant.elapsedMillis (b.time j) (b.time k) :=
      Instant.elapsedMillis_nonneg (hb.ordered j k (Nat.le_of_lt hj) hk)
    rw [UndoLog.window_eq (hconfig ▸ hwindow), hconfig] at hdeb
    rw [hb.opens_iff_debounces h hk, ← Bool.not_eq_true, hdeb, and_iff_right hnonneg, Int.not_le]
    simp

/-- Groups that begin later have larger numbers. -/
theorem group_lt (hks : doc.Openings b n ks) {front rest : List Nat}
    (heq : ks = front ++ k :: rest) :
    ∀ e ∈ front.map (doc.entryOf b), (doc.during b k).log.nextGroup < e.group := by
  intro e he
  obtain ⟨j, hj, rfl⟩ := List.mem_map.mp he
  obtain ⟨front', between, rfl⟩ := List.append_of_mem hj
  obtain ⟨hlt, hjs⟩ := hks.split (heq.trans (List.append_assoc _ _ _))
  -- at the later edit, the entry of the earlier one was on the log
  have hentries := hb.entries_split h hjs (Nat.le_of_lt hlt) rfl
  refine (h.during b j).lt_next (doc.entryOf b k) ?_
  rw [hentries]
  exact List.mem_append_right _ List.mem_cons_self

/-- A group that begins in the burst is one entry. -/
theorem filter_group (hk : k < n) {g : Nat}
    (hpushes : (doc.during b k).Pushes (b.time k) (b.patch k) g) :
    (doc.during b n).log.entries.filter (fun e => e.group = g) =
      [⟨g, b.time k, b.restoring (doc.during b k).tree⟩] := by
  obtain ⟨ks, hks⟩ := exists_openings doc b n
  obtain ⟨front, rest, heq⟩ := List.append_of_mem (hks.mem_iff.mpr ⟨hk, g, hpushes⟩)
  obtain ⟨r, hr⟩ := hb.accepted k hk
  obtain ⟨-, rfl⟩ := ((h.during b k).pushes_iff hr).mp hpushes
  have hlater : (front.map (doc.entryOf b)).filter
      (fun e => e.group = (doc.during b k).log.nextGroup) = [] :=
    List.filter_eq_nil_iff.mpr fun e he => by simpa using Nat.ne_of_gt (hb.group_lt h hks heq e he)
  have hearlier : (doc.during b k).log.entries.filter
      (fun e => e.group = (doc.during b k).log.nextGroup) = [] :=
    List.filter_eq_nil_iff.mpr fun e he => by
      simpa using Nat.ne_of_lt ((h.during b k).lt_next e he)
  rw [hb.entries_split h hks (Nat.le_refl n) heq, List.filter_append, hlater, List.nil_append,
    List.filter_cons_of_pos (by simp [entryOf]), hearlier]
  rfl

/-! ### Undoing a burst -/

/-- Undoing one group leads to the edit at which it began. -/
theorem undo_one {d : Document} {j : Nat} {rest : List Nat} (hk : k ≤ n)
    (hks : doc.Openings b k (j :: rest)) (hd : doc.Back b k d) :
    ∃ r, d.undo = .ok (some r) ∧ doc.Back b j r.1 := by
  have hsplit : j :: rest = [] ++ j :: rest := rfl
  obtain ⟨hj, -⟩ := hks.split hsplit
  have hentries : d.log.entries = [doc.entryOf b j] ++ (doc.during b j).log.entries :=
    hd.entries.trans (hb.entries_split h hks hk hsplit)
  have hpop := UndoLog.pop?_append hentries (List.cons_ne_nil _ _)
    (fun e he => congrArg UndoEntry.group (List.mem_singleton.mp he)) (h.during b j).lt_next
  obtain ⟨e, he, htree⟩ := (hb.rebinds h hj hk).replays (h.during b j).valid
    { tree := d.tree } hd.tree
  rw [show (doc.during b j).definitions = d.definitions from
    (definitions_run _ doc).trans hd.definitions.symm] at he
  exact ⟨_, undo_eq_ok_some_iff.mpr ⟨_, _, e, hpop, he, rfl⟩, hd.definitions, htree, rfl⟩

/-- Undoing several groups leads to the edit at which the last of them began. -/
theorem undo {j : Nat} {rest : List Nat} (front : List Nat) : ∀ {k : Nat} {d : Document}, k ≤ n →
    doc.Openings b k (front ++ j :: rest) → doc.Back b k d →
      ∃ r, (d.run (List.replicate front.length .undo)).undo = .ok (some r) ∧ doc.Back b j r.1 := by
  induction front with
  | nil => exact fun hk hks hd => hb.undo_one h hk hks hd
  | cons i front ih =>
    intro k d hk hks hd
    obtain ⟨r, hr, hback⟩ := hb.undo_one h hk hks hd
    have hsplit : i :: front ++ j :: rest = [] ++ i :: (front ++ j :: rest) := rfl
    obtain ⟨hi, hrest⟩ := hks.split hsplit
    have hafter : d.after .undo = r.1 := by rw [after, hr]
    rw [List.length_cons, List.replicate_succ, run, List.foldl_cons, hafter]
    exact ih (Nat.le_of_lt (Nat.lt_of_lt_of_le hi hk)) hrest hback

/-- The last group begins with the first edit. -/
theorem exists_eq_append_zero (hn : 0 < n) (hks : doc.Openings b n ks) :
    ∃ front, ks = front ++ [0] := by
  have hfirst : doc.Opens b 0 := (hb.opens_iff_debounces h hn).mpr (hb.apart hn)
  obtain ⟨front, rest, heq⟩ := List.append_of_mem (hks.mem_iff.mpr ⟨hn, hfirst⟩)
  obtain ⟨-, hrest⟩ := hks.split heq
  have hnil : rest = [] :=
    List.eq_nil_iff_forall_not_mem.mpr fun j hj => Nat.not_lt_zero j (hrest.mem_iff.mp hj).1
  exact ⟨front, hnil ▸ heq⟩

theorem undo_all (hks : doc.Openings b n ks) :
    doc.Back b 0 ((doc.during b n).run (List.replicate ks.length .undo)) := by
  have hstart : doc.Back b n (doc.during b n) := ⟨definitions_run _ doc, rfl, rfl⟩
  rcases Nat.eq_zero_or_pos n with rfl | hn
  · cases hks
    exact hstart
  · obtain ⟨front, rfl⟩ := hb.exists_eq_append_zero h hn hks
    obtain ⟨r, hr, hback⟩ := hb.undo h front (Nat.le_refl n) hks hstart
    have hafter : ((doc.during b n).run (List.replicate front.length .undo)).after .undo = r.1 := by
      rw [after, hr]
    rw [List.length_append, List.replicate_add, run_append]
    rw [← hafter] at hback
    exact hback

end Bursts

/-! ### Runs -/

/-- What becomes of a burst of edits under a window of so many milliseconds; a list says at which of
the edits groups begin, the last one at the front. -/
structure Collapses (doc : Document) (b : Burst) (n window : Nat) (ks : List Nat) : Prop where
  /-- At these edits groups begin. -/
  openings : doc.Openings b n ks
  /-- A group begins at the first edit, and at every edit that is more milliseconds later than the
  window allows after the last edit at which a group began. -/
  opens : ∀ k < n, ∀ js, doc.Openings b k js → (doc.Opens b k ↔
    ∀ j ∈ js.head?, (window : Int) < Instant.elapsedMillis (b.time j) (b.time k))
  /-- Every group is one entry, which binds the input to what it was bound to before the edit at
  which the group began. -/
  groups : ∀ k < n, ∀ g, (doc.during b k).Pushes (b.time k) (b.patch k) g →
    (doc.during b n).log.entries.filter (fun e => e.group = g) =
      [⟨g, b.time k, b.restoring (doc.during b k).tree⟩]
  /-- Undoing the groups one after the other leads back to the edits at which they began. -/
  undoes : ∀ front j rest, ks = front ++ j :: rest →
    ∃ r, ((doc.during b n).run (List.replicate front.length .undo)).undo = .ok (some r) ∧
      r.1.tree = (doc.during b j).tree ∧ r.1.log.entries = (doc.during b j).log.entries
  /-- Undoing all of them leads to where the document was before the first edit. -/
  ends : ((doc.during b n).run (List.replicate ks.length .undo)).tree = doc.tree ∧
    ((doc.during b n).run (List.replicate ks.length .undo)).log.entries = doc.log.entries

theorem Bursts.collapses (hb : doc.Bursts b n) (h : Archives doc)
    (hwindow : doc.log.config.debounceMs.toNat < 2 ^ 63) (hks : doc.Openings b n ks) :
    doc.Collapses b n doc.log.config.debounceMs.toNat ks where
  openings := hks
  opens _ hk _ hjs := hb.opens_iff h hwindow hk hjs
  groups _ hk _ hpushes := hb.filter_group h hk hpushes
  undoes := by
    rintro front j rest rfl
    obtain ⟨r, hr, hback⟩ := hb.undo h front (Nat.le_refl n) hks ⟨definitions_run _ doc, rfl, rfl⟩
    exact ⟨r, hr, hback.tree, hback.entries⟩
  ends := ⟨(hb.undo_all h hks).tree, (hb.undo_all h hks).entries⟩

theorem archives_new (name : String) (defs : Definitions) {config : DocumentConfig}
    (hmax : config.undo.maxGroups = 0) (hfirst : config.undo.recordFirstBinding = true) :
    Archives (Document.new name defs config) where
  valid := Tree.valid_empty defs
  lt_next := fun _ he => by cases he
  unbounded := hmax
  first := hfirst

/-- Wherever a burst of edits of one input comes in a run, if all groups are kept and first bindings
are recorded: a group begins exactly with the first edit and with each that is later than the window
allows after the last edit with which one began; each group is one entry, which binds the input
again to what it was bound to before; and undoing them leads back through these bindings, to the one
before the first edit. -/
theorem collapses_run (name : String) (defs : Definitions) (config : DocumentConfig)
    (hfirst : config.undo.recordFirstBinding = true) (hmax : config.undo.maxGroups = 0)
    (hwindow : config.undo.debounceMs.toNat < 2 ^ 63) (calls : List Call) (b : Burst) (n : Nat)
    (hb : ((Document.new name defs config).run calls).Bursts b n) :
    ∃ ks, ((Document.new name defs config).run calls).Collapses b n
      config.undo.debounceMs.toNat ks := by
  have hconfig : ((Document.new name defs config).run calls).log.config = config.undo :=
    config_run calls _
  obtain ⟨ks, hks⟩ := exists_openings ((Document.new name defs config).run calls) b n
  have h := hb.collapses ((archives_new name defs hmax hfirst).run calls) (hconfig ▸ hwindow) hks
  rw [hconfig] at h
  exact ⟨ks, h⟩

/-- The label of a leaf is set, cleared, and set again, an eighth of a second apart. -/
def labelBurst : Burst where
  nodeId := "leaf"
  inputName := "label"
  index := none
  time k := .ofMicros (125000 * k)
  expression k := if k = 1 then none else some (.string "text")

/-- To clear the label is undone together with the first edit; the last one comes too late for
that. -/
theorem collapses_run_labelBurst :
    let doc := (Document.new "leaf" leafDefinitions { undo := { maxGroups := 0 } }).run
      [.apply 0 (.createNode "Leaf" none (some "leaf"))]
    doc.Bursts labelBurst 3 ∧ (∃ ks, doc.Collapses labelBurst 3 200 ks) ∧
      ¬ doc.Opens labelBurst 1 ∧ doc.Opens labelBurst 2 := by
  intro doc
  have haccepted : ∀ k < 3, ∃ r, (doc.during labelBurst k).apply (labelBurst.time k)
      (labelBurst.patch k) = .ok r ∧ True := by decide +kernel
  have hb : doc.Bursts labelBurst 3 := {
    accepted := fun k hk => (haccepted k hk).imp fun _ => And.left
    ordered := fun j k hjk _ => Instant.ofMicros_le_ofMicros
      (Int.mul_le_mul_of_nonneg_left (Int.ofNat_le.mpr hjk) (by decide))
    apart := by decide +kernel }
  obtain ⟨ks, h⟩ := collapses_run "leaf" leafDefinitions { undo := { maxGroups := 0 } } rfl rfl
    (by decide) [.apply 0 (.createNode "Leaf" none (some "leaf"))] labelBurst 3 hb
  have hfirst : doc.Opens labelBurst 0 := (h.opens 0 (by decide) [] .start).mpr (by simp)
  have hsecond : ¬ doc.Opens labelBurst 1 := fun ho => by
    have := (h.opens 1 (by decide) [0] (.opens .start hfirst)).mp ho 0 rfl
    revert this
    decide
  refine ⟨hb, ⟨ks, h⟩, hsecond, (h.opens 2 (by decide) [0] (.joins (.opens .start hfirst)
    hsecond)).mpr ?_⟩
  decide

end Document

end SlotTree
