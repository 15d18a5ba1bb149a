import SlotTree.Listeners

/-!
# Delivery

Who is called when the listeners of a registry are told something, in any run in which listeners are
added, handles are used, and listeners are told something.  Whenever a listener is called it may do
the same: use any handles, its own included, and add any listeners.

What a listener does may depend on everything that has happened so far, and everything that happens
is kept in a history.  The history alone says which listeners should be registered, so the registry,
which is a list under numbers, can be compared with it.

## Main definitions

* `Ticket` — a handle by where it comes from: from one addition, or joined from others.
* `Audience` — a registry with the handles it has given and the history.
* `Audience.run` — a run of demands, with listeners that react to what they are told.
* `Audience.standing` — the additions that, by the history, nobody has taken back.
* `Audience.Delivers` — what is promised of a registry.

## Main results

* `remaining_unsubscribe` — what a change takes out of the additions that remain.
* `Audience.Sound.run` — the registry agrees with the history throughout a run.
* `Audience.delivers_run` — the registry keeps its promise, in the middle of a notification too.
-/

namespace SlotTree

/-! ### Removing -/

namespace Registry

variable {α : Type}

@[simp] theorem remove_nextId (r : Registry α) (h : Handle) : (r.remove h).nextId = r.nextId := by
  obtain ⟨ids⟩ := h
  induction ids generalizing r with
  | nil => rfl
  | cons id rest ih => exact ih (r.removeId id)

@[simp] theorem remove_entries (r : Registry α) (h : Handle) :
    (r.remove h).entries = r.entries.filter fun e => e.1 ∉ h.ids := by
  obtain ⟨ids⟩ := h
  induction ids generalizing r with
  | nil => exact (List.filter_eq_self.mpr fun e _ => decide_eq_true List.not_mem_nil).symm
  | cons id rest ih =>
    refine (ih (r.removeId id)).trans ?_
    rw [removeId, List.filter_filter]
    refine List.filter_congr fun e _ => ?_
    simp [Bool.and_comm]

end Registry

/-! ### What happens -/

/-- A handle, by where it comes from. -/
inductive Ticket where
  /-- The handle that an addition gave; the additions are counted from zero. -/
  | one (k : Nat)
  /-- Several handles that were joined to one. -/
  | all (tickets : List Ticket)

namespace Ticket

mutual

/-- The additions that a handle is there to take back. -/
def additions : Ticket → List Nat
  | one k => [k]
  | all tickets => additionsAll tickets

/-- The additions that some handles are there to take back. -/
def additionsAll : List Ticket → List Nat
  | [] => []
  | t :: rest => t.additions ++ additionsAll rest

end

mutual

/-- The handle itself, where the additions have given some handles; a handle that has not been given
removes nothing. -/
def handle (given : List Handle) : Ticket → Handle
  | one k => given[k]?.getD (.join [])
  | all tickets => .join (handles given tickets)

/-- Some handles themselves. -/
def handles (given : List Handle) : List Ticket → List Handle
  | [] => []
  | t :: rest => t.handle given :: handles given rest

end

mutual

/-- A handle removes what it is there to take back, as far as this has been added. -/
theorem ids_handle (n : Nat) : ∀ t : Ticket,
    (t.handle ((List.range n).map fun k => ⟨[k]⟩)).ids = t.additions.filter (· < n)
  | .one k => by
    rw [handle, additions, List.getElem?_map]
    by_cases hk : k < n
    · rw [List.getElem?_range hk, List.filter_cons_of_pos (by simpa using hk)]
      rfl
    · rw [List.getElem?_eq_none (by simpa using hk), List.filter_cons_of_neg (by simpa using hk)]
      rfl
  | .all ts => ids_handles n ts

theorem ids_handles (n : Nat) : ∀ ts : List Ticket,
    (Handle.join (handles ((List.range n).map fun k => ⟨[k]⟩) ts)).ids =
      (additionsAll ts).filter (· < n)
  | [] => rfl
  | t :: rest => by
    have hjoin : ∀ (h : Handle) (hs : List Handle),
        (Handle.join (h :: hs)).ids = h.ids ++ (Handle.join hs).ids := fun _ _ => rfl
    rw [handles, additionsAll, hjoin, ids_handle n t,
      ids_handles n rest, List.filter_append]

end

end Ticket

/-- A change of who listens. -/
inductive Change (α : Type) where
  /-- A listener is added. -/
  | add (listener : α)
  /-- A handle is used. -/
  | unsubscribe (ticket : Ticket)

/-- Something that happens at a registry. -/
inductive Occurrence (α β : Type) where
  /-- Who listens has changed. -/
  | changed (change : Change α)
  /-- A listener was told something. -/
  | called (listener : α) (event : β)

/-- What is asked for from outside. -/
inductive Demand (α β : Type) where
  /-- Change who listens. -/
  | change (change : Change α)
  /-- Tell those who listen something. -/
  | notify (event : β)

/-- A registry, the handles that it has given, and what has happened. -/
structure Audience (α β : Type) where
  /-- The registry. -/
  registry : Registry α := {}
  /-- The handles that the additions gave. -/
  given : List Handle := []
  /-- What has happened, in order. -/
  history : List (Occurrence α β) := []

/-- The changes that a listener makes when it is told something, which may depend on everything that
has happened. -/
abbrev Reaction (α β : Type) : Type := α → β → Audience α β → List (Change α)

namespace Audience

variable {α β : Type}

/-- Make a change. -/
def change (x : Audience α β) : Change α → Audience α β
  | .add listener =>
    let (registry, handle) := x.registry.add listener
    { registry, given := x.given ++ [handle],
      history := x.history ++ [.changed (.add listener)] }
  | .unsubscribe ticket =>
    { x with
      registry := x.registry.remove (ticket.handle x.given)
      history := x.history ++ [.changed (.unsubscribe ticket)] }

/-- A listener is told something, and makes the changes that it then wants to make. -/
def call (react : Reaction α β) (event : β) (listener : α) (x : Audience α β) : Audience α β :=
  let x := { x with history := x.history ++ [.called listener event] }
  (react listener event x).foldl change x

/-- Tell those who listen something. -/
def notify (react : Reaction α β) (event : β) (x : Audience α β) : Audience α β :=
  announce registry (call react event) x

/-- The middle of a notification: as many of those who listened when it began have been called. -/
def amid (react : Reaction α β) (event : β) (n : Nat) (x : Audience α β) : Audience α β :=
  (x.registry.listeners.take n).foldl (fun x listener => x.call react event listener) x

/-- Do what is asked for. -/
def step (react : Reaction α β) (x : Audience α β) : Demand α β → Audience α β
  | .change c => x.change c
  | .notify event => x.notify react event

/-- A run, beginning with nobody who listens. -/
def run (react : Reaction α β) (demands : List (Demand α β)) : Audience α β :=
  demands.foldl (step react) {}

/-! ### What the history says -/

/-- The changes in a history. -/
def changes (history : List (Occurrence α β)) : List (Change α) :=
  history.filterMap fun
    | .changed c => some c
    | .called _ _ => none

/-- The calls in a history. -/
def calls (history : List (Occurrence α β)) : List (α × β) :=
  history.filterMap fun
    | .changed _ => none
    | .called listener event => some (listener, event)

end Audience

namespace Change

variable {α : Type}

/-- Whether a change takes an addition back. -/
def cancels (k : Nat) : Change α → Bool
  | .add _ => false
  | .unsubscribe ticket => k ∈ ticket.additions

/-- The number of additions among some changes. -/
def additions : List (Change α) → Nat
  | [] => 0
  | .add _ :: rest => additions rest + 1
  | .unsubscribe _ :: rest => additions rest

/-- The additions that no later change takes back, in order and with their numbers; the first one
has the number that is given. -/
def remaining (k : Nat) : List (Change α) → List (Nat × α)
  | [] => []
  | .add listener :: rest =>
    if rest.any (cancels k) then remaining (k + 1) rest
    else (k, listener) :: remaining (k + 1) rest
  | .unsubscribe _ :: rest => remaining k rest

@[simp] theorem additions_append (cs ds : List (Change α)) :
    additions (cs ++ ds) = additions cs + additions ds := by
  induction cs with
  | nil => simp [additions]
  | cons c rest ih =>
    cases c with
    | add listener =>
      rw [List.cons_append, additions, additions, ih]
      omega
    | unsubscribe ticket => exact ih

/-- An addition comes last, under a new number. -/
theorem remaining_add (listener : α) : ∀ (cs : List (Change α)) (k : Nat),
    remaining k (cs ++ [.add listener]) = remaining k cs ++ [(k + additions cs, listener)]
  | [], k => rfl
  | .add l :: rest, k => by
    have ih := remaining_add listener rest (k + 1)
    have hcancels : (rest ++ [add listener]).any (cancels k) = rest.any (cancels k) := by
      rw [List.any_append]
      exact Bool.or_false _
    have hnumber : k + additions (.add l :: rest) = k + 1 + additions rest := by
      rw [additions]
      omega
    rw [List.cons_append, remaining, remaining, hcancels, hnumber, ih]
    split <;> rfl
  | .unsubscribe _ :: rest, k => remaining_add listener rest k

/-- A handle takes back what it is there for, and leaves the rest in order. -/
theorem remaining_unsubscribe (t : Ticket) : ∀ (cs : List (Change α)) (k : Nat),
    remaining k (cs ++ [.unsubscribe t]) = (remaining k cs).filter fun e => e.1 ∉ t.additions
  | [], k => rfl
  | .add l :: rest, k => by
    have ih := remaining_unsubscribe t rest (k + 1)
    have hcancels : (rest ++ [unsubscribe t]).any (cancels k) =
        (rest.any (cancels k) || decide (k ∈ t.additions)) := by
      rw [List.any_append]
      exact congrArg _ (Bool.or_false _)
    rw [List.cons_append, remaining, remaining, hcancels, ih]
    by_cases hrest : rest.any (cancels k) = true
    · rw [if_pos (by rw [hrest, Bool.true_or]), if_pos hrest]
    · rw [if_neg hrest]
      by_cases hk : k ∈ t.additions
      · rw [if_pos (by simp [hk]), List.filter_cons_of_neg (by simp [hk])]
      · rw [if_neg (by simp [hrest, hk]), List.filter_cons_of_pos (by simp [hk])]
  | .unsubscribe _ :: rest, k => remaining_unsubscribe t rest k

/-- The numbers are those of additions. -/
theorem lt_of_mem_remaining {e : Nat × α} : ∀ (cs : List (Change α)) (k : Nat),
    e ∈ remaining k cs → k ≤ e.1 ∧ e.1 < k + additions cs
  | [], _, h => by cases h
  | .add l :: rest, k, h => by
    rw [remaining] at h
    rw [additions]
    have hrest : e ∈ remaining (k + 1) rest → k ≤ e.1 ∧ e.1 < k + (additions rest + 1) := by
      intro h
      obtain ⟨hle, hlt⟩ := lt_of_mem_remaining rest (k + 1) h
      omega
    split at h
    · exact hrest h
    · rcases List.mem_cons.mp h with rfl | h
      · exact ⟨Nat.le_refl k, by omega⟩
      · exact hrest h
  | .unsubscribe _ :: rest, k, h => lt_of_mem_remaining rest k h

theorem pairwise_remaining : ∀ (cs : List (Change α)) (k : Nat),
    ((remaining k cs).map Prod.fst).Pairwise (· < ·)
  | [], _ => List.Pairwise.nil
  | .add l :: rest, k => by
    rw [remaining]
    split
    · exact pairwise_remaining rest (k + 1)
    · refine List.Pairwise.cons ?_ (pairwise_remaining rest (k + 1))
      rintro j hj
      obtain ⟨e, he, rfl⟩ := List.mem_map.mp hj
      exact (lt_of_mem_remaining rest (k + 1) he).1
  | .unsubscribe _ :: rest, k => pairwise_remaining rest k

end Change

namespace Audience

variable {α β : Type}

/-- The additions that, by the history, nobody has taken back, in order and with their numbers. -/
def standing (x : Audience α β) : List (Nat × α) := Change.remaining 0 (changes x.history)

variable {x : Audience α β} {react : Reaction α β}

@[simp] theorem changes_append (h g : List (Occurrence α β)) :
    changes (h ++ g) = changes h ++ changes g := List.filterMap_append

@[simp] theorem calls_append (h g : List (Occurrence α β)) : calls (h ++ g) = calls h ++ calls g :=
  List.filterMap_append

theorem history_change (x : Audience α β) (c : Change α) :
    (x.change c).history = x.history ++ [.changed c] := by
  cases c <;> rfl

/-- Changes are no calls. -/
theorem calls_foldl_change (cs : List (Change α)) : ∀ x : Audience α β,
    calls (cs.foldl change x).history = calls x.history := by
  induction cs with
  | nil => exact fun _ => rfl
  | cons c rest ih =>
    intro x
    rw [List.foldl_cons, ih, history_change, calls_append]
    exact List.append_nil _

/-- Those who are called one after the other are called once each, whatever they change. -/
theorem calls_foldl_call (event : β) (listeners : List α) : ∀ x : Audience α β,
    calls (listeners.foldl (fun x listener => x.call react event listener) x).history =
      calls x.history ++ listeners.map fun listener => (listener, event) := by
  induction listeners with
  | nil => exact fun x => (List.append_nil _).symm
  | cons listener rest ih =>
    intro x
    rw [List.foldl_cons, ih, call, calls_foldl_change, calls_append, List.append_assoc]
    rfl

/-! ### The registry agrees with the history -/

/-- The registry holds what it should by the history, and the numbers of its listeners are those of
their additions. -/
structure Sound (x : Audience α β) : Prop where
  /-- The additions are counted. -/
  nextId : x.registry.nextId = Change.additions (changes x.history)
  /-- Every addition gave a handle of its own. -/
  given : x.given = (List.range x.registry.nextId).map fun k => ⟨[k]⟩
  /-- The additions that nobody has taken back are there. -/
  entries : x.registry.entries = x.standing

theorem sound_start : Sound ({} : Audience α β) := ⟨rfl, rfl, rfl⟩

theorem standing_add (x : Audience α β) (listener : α) :
    (x.change (.add listener)).standing =
      x.standing ++ [(Change.additions (changes x.history), listener)] := by
  rw [standing, history_change, changes_append]
  refine (Change.remaining_add listener (changes x.history) 0).trans ?_
  rw [Nat.zero_add]
  rfl

theorem standing_unsubscribe (x : Audience α β) (t : Ticket) :
    (x.change (.unsubscribe t)).standing = x.standing.filter fun e => e.1 ∉ t.additions := by
  rw [standing, history_change, changes_append]
  exact Change.remaining_unsubscribe t (changes x.history) 0

/-- Every change is made as the history says. -/
theorem Sound.change (h : Sound x) (c : Change α) : Sound (x.change c) := by
  cases c with
  | add listener =>
    refine ⟨?_, ?_, ?_⟩
    · rw [history_change, changes_append, Change.additions_append, ← h.nextId]
      rfl
    · change x.given ++ [⟨[x.registry.nextId]⟩] = _
      rw [h.given, Audience.change, Registry.add, List.range_succ, List.map_append]
      rfl
    · rw [standing_add, ← h.entries, ← h.nextId]
      rfl
  | unsubscribe t =>
    have hnext : (x.change (.unsubscribe t)).registry.nextId = x.registry.nextId :=
      Registry.remove_nextId _ _
    refine ⟨?_, ?_, ?_⟩
    · rw [hnext, history_change, changes_append, Change.additions_append, h.nextId]
      rfl
    · rw [hnext]
      exact h.given
    · rw [standing_unsubscribe, ← h.entries]
      refine (Registry.remove_entries _ _).trans (List.filter_congr fun e he => ?_)
      -- what has not been added yet cannot be removed, and is not there either
      have hlt : e.1 < x.registry.nextId := by
        rw [h.entries] at he
        rw [h.nextId, ← Nat.zero_add (Change.additions _)]
        exact (Change.lt_of_mem_remaining _ 0 he).2
      rw [h.given, Ticket.ids_handle, decide_eq_decide, List.mem_filter]
      simp [hlt]

theorem Sound.foldl_change (h : Sound x) (cs : List (Change α)) :
    Sound (cs.foldl Audience.change x) :=
  List.foldlRecOn _ _ h fun _ hx c _ => hx.change c

theorem Sound.call (h : Sound x) (event : β) (listener : α) :
    Sound (x.call react event listener) := by
  have hcalled : Sound { x with history := x.history ++ [.called listener event] } := by
    have hsame : changes (x.history ++ [.called listener event]) = changes x.history :=
      (changes_append _ _).trans (List.append_nil _)
    refine ⟨?_, h.given, ?_⟩
    · rw [hsame]
      exact h.nextId
    · rw [standing, hsame]
      exact h.entries
  exact hcalled.foldl_change _

theorem Sound.amid (h : Sound x) (event : β) (n : Nat) : Sound (x.amid react event n) :=
  List.foldlRecOn _ _ h fun _ hx listener _ => hx.call event listener

theorem Sound.step (h : Sound x) (c : Demand α β) : Sound (x.step react c) := by
  cases c with
  | change c => exact h.change c
  | notify event => exact List.foldlRecOn _ _ h fun _ hx listener _ => hx.call event listener

/-- The registry agrees with the history throughout a run. -/
theorem Sound.run (react : Reaction α β) (demands : List (Demand α β)) :
    Sound (run react demands) :=
  List.foldlRecOn _ _ sound_start fun _ hx c _ => hx.step c

/-! ### The promise -/

/-- What is promised of a registry, whatever its listeners do when they are called. -/
structure Delivers (react : Reaction α β) (x : Audience α β) : Prop where
  /-- Registered are the listeners whose additions nobody has taken back. -/
  registered : x.registry.listeners = x.standing.map Prod.snd
  /-- They are in the order of their additions, and each is there once. -/
  ordered : (x.standing.map Prod.fst).Pairwise (· < ·)
  /-- The first calls of a notification are those of the first of the listeners that are registered
  when it begins. -/
  calls : ∀ event n, Audience.calls (x.amid react event n).history =
    Audience.calls x.history ++ (x.standing.take n).map fun e => (e.2, event)
  /-- A notification makes these calls once each, and no others. -/
  notifies : ∀ event, Audience.calls (x.notify react event).history =
    Audience.calls x.history ++ x.standing.map fun e => (e.2, event)
  /-- A listener is added last. -/
  adds : ∀ listener, (x.change (.add listener)).registry.listeners =
    x.registry.listeners ++ [listener]
  /-- A handle removes the listeners of the additions that it is there for, and leaves the others in
  order. -/
  unsubscribes : ∀ t : Ticket, (x.change (.unsubscribe t)).registry.listeners =
    (x.standing.filter fun e => e.1 ∉ t.additions).map Prod.snd

theorem Sound.listeners (h : Sound x) : x.registry.listeners = x.standing.map Prod.snd := by
  rw [Registry.listeners, h.entries]

theorem Sound.delivers (h : Sound x) : x.Delivers react where
  registered := h.listeners
  ordered := Change.pairwise_remaining _ 0
  calls event n := by
    rw [Audience.amid, calls_foldl_call, h.listeners, ← List.map_take, List.map_map]
    rfl
  notifies event := by
    rw [notify, announce, calls_foldl_call, h.listeners, List.map_map]
    rfl
  adds listener := by
    rw [Registry.listeners]
    exact List.map_append
  unsubscribes t := by
    rw [(h.change _).listeners, standing_unsubscribe]

/-- In every run, and in the middle of a notification after any changes too: those who are told
something are the listeners that were registered when the notification began, each once and in the
order of their additions, whatever they change meanwhile; what they change is in force from then on,
so for the next notification; and a handle removes exactly what it was given for. -/
theorem delivers_run (react : Reaction α β) (demands : List (Demand α β)) :
    let x := run react demands
    x.Delivers react ∧ ∀ event n cs, (List.foldl change (x.amid react event n) cs).Delivers react :=
  ⟨(Sound.run react demands).delivers,
    fun event n cs => (((Sound.run react demands).amid event n).foldl_change cs).delivers⟩

/-- The first of two listeners takes itself back when it is called, and adds a third one. -/
example :
    calls (run (fun listener _ _ => if listener = 0 then [.unsubscribe (.one 0), .add 2] else [])
      [.change (.add 0), .change (.add 1), .notify "first", .notify "second"]).history =
        [(0, "first"), (1, "first"), (1, "second"), (2, "second")] := rfl

end Audience

end SlotTree
