import ChordV.Lib.Machine

/-!
# The lock of a subscription inside one process

`runWithLocalSubscriptionLock` and `waitForLocalSubscriptionLock` of `usage-lock.utils.ts`, for the
callers of one key.

* A caller waits for the tail of the caller that the map names when it arrives, and puts its own
  tail there.  A tail settles some time after its caller has called `releaseCurrent` and the tail
  before it has settled.
* The result of `Promise.race` is used some time after the race, so a caller can also give up when
  the tail before it has settled meanwhile.
* A caller that holds the key already runs its task inside the task that holds it, and is no caller
  here.
* `one_task_at_a_time` is for the runs in which no caller gives up as the last one of the chain
  while another one is still before it.  The `catch` block takes the chain out of the map there.
-/

namespace ChordV.Api.LocalLocks

open Lib

/-! ## The chain -/

/-- Where a caller is. -/
inductive Status where
  | waiting
  | running
  | returned
  | threw
  | timedOut
deriving DecidableEq, Repr

/-- `releaseCurrent` has been called. -/
def Status.released : Status → Bool
  | waiting | running => false
  | returned | threw | timedOut => true

/-- A call for the key. -/
structure Caller where
  /-- The caller whose tail is waited for, if it is not `Promise.resolve()`. -/
  previous : Option Nat
  status : Status := .waiting
  tailSettled : Bool := false
deriving DecidableEq, Repr

/-- The callers of one key. -/
structure State where
  /-- The callers in the order of their arrival. -/
  callers : List Caller := []
  /-- The caller whose tail `localSubscriptionLocks` has for the key. -/
  entry : Option Nat := none
deriving DecidableEq, Repr

/-- What happens to a caller. -/
inductive Event where
  | arrive
  | settleTail (caller : Nat)
  | enter (caller : Nat)
  | timeout (caller : Nat)
  | complete (caller : Nat)
  | fail (caller : Nat)
deriving DecidableEq, Repr

namespace State

/-- The tail that is waited for has settled. -/
def settled (s : State) : Option Nat → Bool
  | none => true
  | some i => s.callers[i]?.any (·.tailSettled)

/-- The caller has changed. -/
def put (s : State) (i : Nat) (c : Caller) : State := { s with callers := s.callers.set i c }

/-- A new caller waits for the tail it finds. -/
def arrive (s : State) : State where
  callers := s.callers ++ [{ previous := s.entry }]
  entry := some s.callers.length

/-- The tail settles after the one before it and after the release. -/
def settleTail (s : State) (i : Nat) (c : Caller) : State :=
  if c.status.released && s.settled c.previous then s.put i { c with tailSettled := true } else s

/-- The work begins once the tail before it has settled. -/
def enter (s : State) (i : Nat) (c : Caller) : State :=
  if c.status = .waiting ∧ s.settled c.previous then s.put i { c with status := .running } else s

/-- `releaseCurrent`, and the entry is deleted if it is the tail of the caller. -/
def release (s : State) (i : Nat) (c : Caller) (status : Status) : State :=
  { s.put i { c with status } with entry := if s.entry = some i then none else s.entry }

/-- The caller gives up or returns, from the status it has to be in. -/
def leave (s : State) (i : Nat) (c : Caller) (whenever status : Status) : State :=
  if c.status = whenever then s.release i c status else s

/-- What a caller does. -/
def step (s : State) (i : Nat) (f : Caller → State) : State :=
  match s.callers[i]? with
  | some c => f c
  | none => s

end State

/-- One turn of the event loop. -/
def step (s : State) : Event → State
  | .arrive => s.arrive
  | .settleTail i => s.step i (s.settleTail i)
  | .enter i => s.step i (s.enter i)
  | .timeout i => s.step i (s.leave i · .waiting .timedOut)
  | .complete i => s.step i (s.leave i · .running .returned)
  | .fail i => s.step i (s.leave i · .running .threw)

/-- The work of the caller is under way. -/
def State.isRunning (s : State) (i : Nat) : Bool := s.callers[i]?.any (·.status = .running)

/-- The tasks of the key that run at a time. -/
def State.AtMostOne (s : State) : Prop := ∀ i j, s.isRunning i → s.isRunning j → i = j

/-- The first callers have all called `releaseCurrent`. -/
def State.Released (s : State) (n : Nat) : Prop :=
  ∀ c ∈ s.callers.take n, c.status.released = true

instance (s : State) (n : Nat) : Decidable (s.Released n) :=
  inferInstanceAs (Decidable (∀ c ∈ s.callers.take n, c.status.released = true))

/-- A caller that gives up as the last one of the chain has no other one before it. -/
def LeavesEmpty (s : State) : Event → Prop
  | .timeout i => s.entry = some i → s.Released i
  | _ => True

instance (s : State) : ∀ e, Decidable (LeavesEmpty s e)
  | .timeout i => inferInstanceAs (Decidable (s.entry = some i → s.Released i))
  | .arrive | .settleTail _ | .enter _ | .complete _ | .fail _ => isTrue trivial

variable {s : State} {i j n : Nat} {c c' : Caller}

/-! ## One caller changes -/

theorem released_iff :
    s.Released n ↔ ∀ j c, j < n → s.callers[j]? = some c → c.status.released = true := by
  unfold State.Released
  simp only [List.mem_iff_getElem?, List.getElem?_take]
  constructor
  · intro h j c hj hc
    exact h c ⟨j, by rwa [if_pos hj]⟩
  · intro h c hc
    obtain ⟨j, hj⟩ := hc
    split at hj
    next hlt => exact h j c hlt hj
    · cases hj

theorem getElem?_put (hc : s.callers[i]? = some c) (c' : Caller) (j : Nat) :
    (s.put i c').callers[j]? = if i = j then some c' else s.callers[j]? := by
  have hlt : i < s.callers.length := (List.getElem?_eq_some_iff.1 hc).1
  simp [State.put, List.getElem?_set, hlt]

@[simp] theorem length_put (s : State) (i : Nat) (c : Caller) :
    (s.put i c).callers.length = s.callers.length := List.length_set

/-- A caller that has released stays so. -/
theorem State.Released.put (h : s.Released n) (hc : s.callers[i]? = some c)
    (hreleased : c.status.released = true → c'.status.released = true) :
    (s.put i c').Released n := by
  rw [released_iff] at h ⊢
  intro j d hj hd
  rw [getElem?_put hc] at hd
  split at hd
  next heq =>
    subst heq
    cases hd
    exact hreleased (h i c hj hc)
  · exact h j d hj hd

/-- The callers that were there before. -/
theorem getElem?_arrive (h : j < s.callers.length) : s.arrive.callers[j]? = s.callers[j]? :=
  List.getElem?_append_left h

theorem getElem?_arrive_eq_some (h : s.arrive.callers[j]? = some c) :
    s.callers[j]? = some c ∨ j = s.callers.length ∧ c = { previous := s.entry } := by
  have hlt : j < (s.callers ++ [({ previous := s.entry } : Caller)]).length :=
    (List.getElem?_eq_some_iff.1 h).1
  rw [List.length_append, List.length_singleton] at hlt
  by_cases hj : j < s.callers.length
  · left
    rwa [getElem?_arrive hj] at h
  · have hlast : j = s.callers.length := by omega
    subst hlast
    right
    simpa [State.arrive, eq_comm] using h

theorem released_arrive (hn : n ≤ s.callers.length) : s.arrive.Released n ↔ s.Released n := by
  rw [State.Released, State.Released, State.arrive, List.take_append_of_le_length hn]

/-! ## The chain is whole -/

/-- What the chain knows of the callers before a tail. -/
structure Chained (s : State) : Prop where
  entry_some : ∀ m, s.entry = some m → m + 1 = s.callers.length
  entry_none : s.entry = none → s.Released s.callers.length
  previous_some : ∀ i c m, s.callers[i]? = some c → c.previous = some m → m + 1 = i
  previous_none : ∀ i c, s.callers[i]? = some c → c.previous = none → s.Released i
  tail : ∀ i c, s.callers[i]? = some c → c.tailSettled = true → s.Released (i + 1)
  running : ∀ i c, s.callers[i]? = some c → c.status = .running → s.Released i

theorem chained_init : Chained {} where
  entry_some := by simp
  entry_none := by simp [State.Released]
  previous_some := by simp
  previous_none := by simp
  tail := by simp
  running := by simp

namespace Chained

variable (h : Chained s)
include h

/-- A caller whose turn it is has only callers before it that have released. -/
theorem released_of_settled (hc : s.callers[i]? = some c) (hsettled : s.settled c.previous = true) :
    s.Released i := by
  cases hprevious : c.previous with
  | none => exact h.previous_none i c hc hprevious
  | some m =>
    rw [hprevious, State.settled, Option.any_eq_true] at hsettled
    obtain ⟨d, hd, htail⟩ := hsettled
    have hnext : m + 1 = i := h.previous_some i c m hc hprevious
    rw [← hnext]
    exact h.tail m d hd htail

theorem put (hc : s.callers[i]? = some c) (hprevious : c'.previous = c.previous)
    (hreleased : c.status.released = true → c'.status.released = true)
    (htail : c'.tailSettled = true → (s.put i c').Released (i + 1))
    (hrunning : c'.status = .running → s.Released i) : Chained (s.put i c') where
  entry_some := by
    rw [length_put]
    exact h.entry_some
  entry_none := by
    intro hentry
    rw [length_put]
    exact (h.entry_none hentry).put hc hreleased
  previous_some := by
    intro j d m hd hm
    rw [getElem?_put hc] at hd
    split at hd
    next heq =>
      subst heq
      cases hd
      exact h.previous_some i c m hc (by rw [← hprevious, hm])
    · exact h.previous_some j d m hd hm
  previous_none := by
    intro j d hd hnone
    rw [getElem?_put hc] at hd
    split at hd
    next heq =>
      subst heq
      cases hd
      exact (h.previous_none i c hc (by rw [← hprevious, hnone])).put hc hreleased
    · exact (h.previous_none j d hd hnone).put hc hreleased
  tail := by
    intro j d hd hsettled
    rw [getElem?_put hc] at hd
    split at hd
    next heq =>
      subst heq
      cases hd
      exact htail hsettled
    · exact (h.tail j d hd hsettled).put hc hreleased
  running := by
    intro j d hd hrun
    rw [getElem?_put hc] at hd
    split at hd
    next heq =>
      subst heq
      cases hd
      exact (hrunning hrun).put hc hreleased
    · exact (h.running j d hd hrun).put hc hreleased

/-- The entry may go when all callers have released. -/
theorem deleteEntry (hreleased : s.Released s.callers.length) :
    Chained { s with entry := none } where
  entry_some := by simp
  entry_none := fun _ => hreleased
  previous_some := h.previous_some
  previous_none := h.previous_none
  tail := h.tail
  running := h.running

theorem arrive : Chained s.arrive where
  entry_some := by
    intro m hm
    simp only [State.arrive, Option.some.injEq] at hm ⊢
    simp [← hm]
  entry_none := by simp [State.arrive]
  previous_some := by
    intro i c m hc hm
    cases getElem?_arrive_eq_some hc with
    | inl hold => exact h.previous_some i c m hold hm
    | inr hnew =>
      rw [hnew.1]
      rw [hnew.2] at hm
      exact h.entry_some m hm
  previous_none := by
    intro i c hc hnone
    cases getElem?_arrive_eq_some hc with
    | inl hold =>
      have hlt := (List.getElem?_eq_some_iff.1 hold).1
      exact (released_arrive (Nat.le_of_lt hlt)).2 (h.previous_none i c hold hnone)
    | inr hnew =>
      rw [hnew.2] at hnone
      rw [hnew.1]
      exact (released_arrive (Nat.le_refl _)).2 (h.entry_none hnone)
  tail := by
    intro i c hc hsettled
    cases getElem?_arrive_eq_some hc with
    | inl hold =>
      have hlt := (List.getElem?_eq_some_iff.1 hold).1
      exact (released_arrive hlt).2 (h.tail i c hold hsettled)
    | inr hnew =>
      rw [hnew.2] at hsettled
      cases hsettled
  running := by
    intro i c hc hrun
    cases getElem?_arrive_eq_some hc with
    | inl hold =>
      have hlt := (List.getElem?_eq_some_iff.1 hold).1
      exact (released_arrive (Nat.le_of_lt hlt)).2 (h.running i c hold hrun)
    | inr hnew =>
      rw [hnew.2] at hrun
      cases hrun

theorem settleTail (hc : s.callers[i]? = some c) : Chained (s.settleTail i c) := by
  unfold State.settleTail
  split
  next hif =>
    rw [Bool.and_eq_true] at hif
    have hbefore : s.Released i := h.released_of_settled hc hif.2
    refine h.put hc rfl (fun hreleased => hreleased) (fun _ => ?_) fun _ => hbefore
    rw [released_iff]
    intro j d hj hd
    rw [getElem?_put hc] at hd
    split at hd
    · cases hd
      exact hif.1
    · exact released_iff.1 hbefore j d (by omega) hd
  · exact h

theorem enter (hc : s.callers[i]? = some c) : Chained (s.enter i c) := by
  unfold State.enter
  split
  next hif =>
    refine h.put hc rfl (fun hreleased => ?_) (fun hsettled => ?_) fun _ =>
      h.released_of_settled hc hif.2
    · rw [hif.1] at hreleased
      cases hreleased
    · have hreleased := released_iff.1 (h.tail i c hc hsettled) i c (Nat.lt_succ_self i) hc
      rw [hif.1] at hreleased
      cases hreleased
  · exact h

theorem leave (hc : s.callers[i]? = some c) {whenever status : Status}
    (hstatus : status.released = true)
    (hbefore : c.status = whenever → s.entry = some i → s.Released i) :
    Chained (s.leave i c whenever status) := by
  unfold State.leave
  split
  next hwhenever =>
    have hput : Chained (s.put i { c with status }) := by
      refine h.put hc rfl (fun _ => hstatus) (fun hsettled => ?_) fun hrun => ?_
      · exact (h.tail i c hc hsettled).put hc fun _ => hstatus
      · rw [show status = .running from hrun] at hstatus
        cases hstatus
    unfold State.release
    split
    next hentry =>
      apply hput.deleteEntry
      have hbefore' := hbefore hwhenever hentry
      rw [released_iff]
      intro j d hj hd
      rw [length_put, ← h.entry_some i hentry] at hj
      rw [getElem?_put hc] at hd
      split at hd
      · cases hd
        exact hstatus
      · exact released_iff.1 hbefore' j d (by omega) hd
    · exact hput
  · exact h

theorem step {f : Caller → State} (hf : ∀ c, s.callers[i]? = some c → Chained (f c)) :
    Chained (s.step i f) := by
  unfold State.step
  cases hc : s.callers[i]? with
  | none => exact h
  | some c => exact hf c hc

end Chained

theorem chained_step (s : State) (e : Event) (h : Chained s) (hempty : LeavesEmpty s e) :
    Chained (step s e) := by
  cases e with
  | arrive => exact h.arrive
  | settleTail i => exact h.step fun c hc => h.settleTail hc
  | enter i => exact h.step fun c hc => h.enter hc
  | timeout i => exact h.step fun c hc => h.leave hc rfl fun _ => hempty
  | complete i => exact h.step fun c hc => h.leave hc rfl fun hrun _ => h.running i c hc hrun
  | fail i => exact h.step fun c hc => h.leave hc rfl fun hrun _ => h.running i c hc hrun

/-- Of two callers that run, the earlier one would have released. -/
theorem Chained.not_lt (h : Chained s) (hi : s.isRunning i) (hj : s.isRunning j) : ¬ i < j := by
  intro hlt
  rw [State.isRunning, Option.any_eq_true] at hi hj
  obtain ⟨c, hc, hrun⟩ := hi
  obtain ⟨d, hd, hrun'⟩ := hj
  have hreleased := released_iff.1 (h.running j d hd (of_decide_eq_true hrun')) i c hlt hc
  rw [of_decide_eq_true hrun] at hreleased
  cases hreleased

theorem Chained.atMostOne (h : Chained s) : s.AtMostOne := by
  intro i j hi hj
  have hij := h.not_lt hi hj
  have hji := h.not_lt hj hi
  omega

/-- **One task at a time.**  Every state of a run has at most one task that runs, if no caller of
the run gives up as the last of the chain while another one is still before it. -/
theorem one_task_at_a_time (events : List Event) (h : Machine.Meets step LeavesEmpty {} events) :
    (Machine.run step {} events).AtMostOne :=
  (Machine.run_keeps_of_meets chained_step chained_init h).atMostOne

/-- Where a task runs and the last caller of the chain gives up, the next caller runs beside it. -/
theorem runs_beside_of_timeout (hc : s.callers[i]? = some c) (hwaiting : c.status = .waiting)
    (hlast : s.entry = some i) (hrunning : s.isRunning j = true) :
    ¬ (Machine.run step s [.timeout i, .arrive, .enter s.callers.length]).AtMostOne := by
  rw [State.isRunning, Option.any_eq_true] at hrunning
  obtain ⟨d, hd, hrun⟩ := hrunning
  have hrun : d.status = .running := of_decide_eq_true hrun
  have hne : i ≠ j := by
    intro heq
    subst heq
    rw [hc] at hd
    cases hd
    rw [hwaiting] at hrun
    cases hrun
  have hlt : j < s.callers.length := (List.getElem?_eq_some_iff.1 hd).1
  have hleft : step s (.timeout i) =
      { callers := s.callers.set i { c with status := .timedOut }, entry := none } := by
    simp [step, State.step, hc, State.leave, hwaiting, State.release, hlast, State.put]
  have hentered : Machine.run step s [.timeout i, .arrive, .enter s.callers.length] =
      { callers := s.callers.set i { c with status := .timedOut } ++
          [{ previous := none, status := .running }]
        entry := some s.callers.length } := by
    rw [Machine.run_cons, hleft]
    simp [Machine.run, step, State.arrive, State.step, State.enter, State.settled, State.put]
  have hholder : (s.callers.set i { c with status := .timedOut } ++
      [{ previous := none, status := .running }])[j]? = some d := by
    rw [List.getElem?_append_left (by rwa [List.length_set]), List.getElem?_set_ne hne, hd]
  intro hone
  rw [hentered] at hone
  have hsame := hone j s.callers.length (by simp [State.isRunning, hholder, hrun])
    (by simp [State.isRunning])
  omega

/-- A caller holds the lock, a second one gives up, and a third one waits for it and runs. -/
theorem one_task_at_a_time_handed_on :
    (Machine.run step {} [.arrive, .enter 0, .arrive, .arrive, .timeout 1, .complete 0,
      .settleTail 0, .settleTail 1, .enter 2]).AtMostOne :=
  one_task_at_a_time _ (by decide)

/-- A caller that gives up as the last of the chain leaves the map empty, so the next one runs
beside the holder. -/
theorem runs_beside_holder :
    ¬ ∀ events, (Machine.run step {} events).AtMostOne := by
  intro h
  have hsame := h [.arrive, .enter 0, .arrive, .timeout 1, .arrive, .enter 2] 0 2 (by decide)
    (by decide)
  exact absurd hsame (by decide)

end ChordV.Api.LocalLocks
