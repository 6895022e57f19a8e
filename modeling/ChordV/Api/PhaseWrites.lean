import Mathlib.Logic.Function.Basic
import ChordV.Lib.Machine

/-!
# The phase writes of a system update

`markPhase`, `markRunning` and `finishOperation` of `system-update.service.ts`, with the rows they
write.

* The chain runs one callback at a time.  A callback takes `pendingPhaseWrite` when it starts, the
  database executes its write at some later moment, and the promise settles after that.
* A step is one of these moments, a call, or a write of the operation row that is not on the
  chain.  Callers stop waiting after a budget, so a call can come at any moment.
* `Call` keeps the operation that made it, which the columns of the source do not.  `calls`,
  `written` and `failures` are what has happened so far.
* `phases_keep_order` is for the runs in which no call finds the queued write of another operation.
  `markPhase` replaces the columns of that write and leaves its operation.
-/

namespace ChordV.Api.PhaseWrites

open Lib

/-! ## Rows -/

/-- `DeploymentPhase`. -/
inductive Phase where
  | checking
  | downloading
  | extracting
  | draining
  | snapshotting
  | migrating
  | healthGating
  | stabilizing
  | rollbackHealthGating
  | rollbackStabilizing
deriving DecidableEq, Repr

/-- The terminal statuses. -/
inductive Outcome where
  | succeeded
  | failed
  | rolledBack
deriving DecidableEq, Repr

/-- Where the operation stands. -/
inductive Status where
  | pending
  | running
  | finished (outcome : Outcome)
deriving DecidableEq, Repr

/-- What is read of a `DeploymentOperation`. -/
structure Row where
  status : Status
  phase : Option Phase := none
  progress : Option Nat := none
deriving DecidableEq, Repr

/-- A call of `markPhase`, which is also what its write sets. -/
structure Call where
  operationId : String
  phase : Phase
  progress : Option Nat := none
deriving DecidableEq, Repr

/-- A write of the chain: the row it is for, and its columns. -/
structure Write where
  operationId : String
  data : Call
deriving DecidableEq, Repr

/-- The `where` of the write on a row of its operation. -/
def Write.selects (w : Write) (row : Row) : Bool :=
  row.status == .running || (w.data.phase == .checking && row.status == .pending)

/-- The `data` of the `updateMany`. -/
def Write.update (w : Write) (row : Row) : Row :=
  { row with phase := some w.data.phase, progress := w.data.progress <|> row.progress }

/-! ## The process -/

/-- The rows and the chain of writes. -/
structure State where
  rows : String → Option Row
  pendingPhaseWrite : Option Write := none
  /-- The callbacks of `phaseWriteChain` that have not started. -/
  queued : Nat := 0
  /-- The write of the running callback, and whether the database has executed it. -/
  executing : Option (Write × Bool) := none
  /-- `workLifecycle.isDraining` or `shutdownFailed`. -/
  isDraining : Bool := false
  /-- The calls that were not refused. -/
  calls : List Call := []
  /-- The writes that changed a row. -/
  written : List Write := []
  /-- The operations of the writes that settled with a database error. -/
  failures : List String := []

/-- What happens to the operations. -/
inductive Event where
  | createOperation (operationId : String)
  | markRunning (operationId : String) (initialPhase : Phase)
  | markPhase (call : Call)
  /-- The next callback of the chain starts. -/
  | start
  /-- The database executes the write of the running callback. -/
  | execute
  /-- The promise of that write settles. -/
  | settle (error : Bool)
  | finishOperation (operationId : String) (outcome : Outcome)
  | drain (isDraining : Bool)
deriving DecidableEq, Repr

namespace State

/-- The row of the operation. -/
def setRow (s : State) (operationId : String) (row : Row) : State :=
  { s with rows := Function.update s.rows operationId (some row) }

/-- The calls for the operation. -/
def callsFor (s : State) (operationId : String) : List Call :=
  s.calls.filter (·.operationId = operationId)

/-- The last call for the operation. -/
def lastCall (s : State) (operationId : String) : Option Call :=
  (s.callsFor operationId).getLast?

/-- Identifiers are fresh, so no row has it and no call was made for it. -/
def createOperation (s : State) (operationId : String) : State :=
  if (s.rows operationId).isSome ∨ s.callsFor operationId ≠ [] then s
  else s.setRow operationId { status := .running }

/-- An update calls it after the call of the same phase, and a rollback and a restart before any
call. -/
def markRunning (s : State) (operationId : String) (initialPhase : Phase) : State :=
  match s.rows operationId with
  | some _ =>
    if (s.lastCall operationId).all (·.phase = initialPhase) then
      s.setRow operationId { status := .running, phase := some initialPhase }
    else s
  | none => s

/-- Merges into the write that waits, or queues another one. -/
def markPhase (s : State) (call : Call) : State :=
  if s.isDraining then s
  else
    match s.pendingPhaseWrite with
    | some pending =>
      { s with calls := s.calls ++ [call], pendingPhaseWrite := some { pending with data := call } }
    | none =>
      { s with
        calls := s.calls ++ [call]
        pendingPhaseWrite := some { operationId := call.operationId, data := call }
        queued := s.queued + 1 }

/-- The next callback takes the write that waits. -/
def start (s : State) : State :=
  if s.executing.isSome ∨ s.queued = 0 then s
  else
    { s with
      queued := s.queued - 1
      pendingPhaseWrite := none
      executing := s.pendingPhaseWrite.map (·, false) }

/-- The write reaches its row if the operation still runs. -/
def execute (s : State) : State :=
  match s.executing with
  | some (w, false) =>
    match s.rows w.operationId with
    | some row =>
      if w.selects row then
        { s.setRow w.operationId (w.update row) with
          executing := some (w, true)
          written := s.written ++ [w] }
      else { s with executing := some (w, true) }
    | none => { s with executing := some (w, true) }
  | _ => s

/-- A write that settles with an error was executed or not.  Without a row to update it settles
after its execution, and the error is not one of the database. -/
def settle (s : State) (error : Bool) : State :=
  match s.executing with
  | some (w, executed) =>
    if error then { s with executing := none, failures := s.failures ++ [w.operationId] }
    else if executed then { s with executing := none }
    else s
  | none => s

/-- The row of an operation that has ended. -/
def finishOperation (s : State) (operationId : String) (outcome : Outcome) : State :=
  match s.rows operationId with
  | some _ => s.setRow operationId { status := .finished outcome }
  | none => s

/-- The chain is drained. -/
def Drained (s : State) : Prop := s.queued = 0 ∧ s.executing = none

end State

open State

/-- One step of the service. -/
def step (s : State) : Event → State
  | .createOperation operationId => s.createOperation operationId
  | .markRunning operationId initialPhase => s.markRunning operationId initialPhase
  | .markPhase call => s.markPhase call
  | .start => s.start
  | .execute => s.execute
  | .settle error => s.settle error
  | .finishOperation operationId outcome => s.finishOperation operationId outcome
  | .drain isDraining => { s with isDraining }

/-! ## Calls and rows -/

/-- The phases of an operation's row are those of its calls, in their order, and the last one is
not lost. -/
structure InOrder (s : State) : Prop where
  ordered : ∀ operationId,
    ((s.written.filter (·.operationId = operationId)).map (·.data.phase)).Sublist
      ((s.callsFor operationId).map (·.phase))
  owned : ∀ w ∈ s.written, w.data.operationId = w.operationId
  last : s.Drained → ∀ operationId ∉ s.failures, ∀ row, s.rows operationId = some row →
    row.status = .running → ∀ call ∈ s.lastCall operationId, row.phase = some call.phase

/-- A call that is not refused finds no queued write, or one of its own operation. -/
def FindsOwnWrite (s : State) : Event → Prop
  | .markPhase call =>
    s.isDraining ∨ ∀ pending ∈ s.pendingPhaseWrite, pending.operationId = call.operationId
  | _ => True

/-! ## The invariant -/

/-- The writes that the database has not executed. -/
def State.queue (s : State) : List Write :=
  (s.executing.filter (!·.2)).toList.map Prod.fst ++ s.pendingPhaseWrite.toList

/-- The last write for the operation that is still to be executed. -/
def State.lastQueued (s : State) (operationId : String) : Option Write :=
  (s.queue.filter (·.operationId = operationId)).getLast?

/-- What is written follows the calls. -/
structure Chained (s : State) : Prop where
  /-- The chain never has more than one callback to start. -/
  single : s.queued = s.pendingPhaseWrite.toList.length
  owned : ∀ w ∈ s.written ++ s.queue, w.data.operationId = w.operationId
  ordered : ((s.written ++ s.queue).map (·.data)).Sublist s.calls
  queued : ∀ operationId, ∀ w ∈ s.lastQueued operationId, s.lastCall operationId = some w.data
  rows : ∀ operationId ∉ s.failures, ∀ row, s.rows operationId = some row →
    row.status = .running → s.lastQueued operationId = none →
    ∀ call ∈ s.lastCall operationId, row.phase = some call.phase

variable {s : State}

theorem chained_init (rows : String → Option Row) : Chained { rows } where
  single := rfl
  owned := by simp [State.queue]
  ordered := by simp [State.queue]
  queued := by simp [State.lastQueued, State.queue]
  rows := by simp [State.lastCall, State.callsFor]

/-! ### Writes of a row that are not on the chain -/

/-- A row may be set where it is not running, or has the phase of the last call. -/
theorem chained_setRow (h : Chained s) {operationId : String} {row : Row}
    (hrow : row.status = .running →
      ∀ call ∈ s.lastCall operationId, row.phase = some call.phase) :
    Chained (s.setRow operationId row) where
  single := h.single
  owned := h.owned
  ordered := h.ordered
  queued := h.queued
  rows := by
    intro op hop row' hrow' hrunning hqueued
    by_cases heq : op = operationId
    · subst heq
      simp only [State.setRow, Function.update_self, Option.some.injEq] at hrow'
      subst hrow'
      exact hrow hrunning
    · simp only [State.setRow, Function.update_of_ne heq] at hrow'
      exact h.rows op hop row' hrow' hrunning hqueued

theorem chained_createOperation (h : Chained s) (operationId : String) :
    Chained (s.createOperation operationId) := by
  unfold State.createOperation
  split
  · exact h
  next hfresh =>
    have hcalls : s.callsFor operationId = [] := by
      by_contra hne
      exact hfresh (.inr hne)
    exact chained_setRow h (by simp [State.lastCall, hcalls])

theorem chained_markRunning (h : Chained s) (operationId : String) (initialPhase : Phase) :
    Chained (s.markRunning operationId initialPhase) := by
  unfold State.markRunning
  split
  · split
    next hall =>
      refine chained_setRow h fun _ call hcall => ?_
      rw [Option.mem_def.1 hcall] at hall
      simp only [Option.all_some, decide_eq_true_eq] at hall
      rw [hall]
    · exact h
  · exact h

theorem chained_finishOperation (h : Chained s) (operationId : String) (outcome : Outcome) :
    Chained (s.finishOperation operationId outcome) := by
  unfold State.finishOperation
  split
  · exact chained_setRow h (by simp)
  · exact h

/-! ### Calls -/

theorem getLast?_filter_concat {α : Type} (p : α → Bool) (l : List α) (x : α) :
    ((l ++ [x]).filter p).getLast? = if p x then some x else (l.filter p).getLast? := by
  rw [List.filter_append]
  by_cases h : p x <;> simp [h]

/-- What a call does to the chain: its write is the last of the queue, in the place of the last
write before if that was of the same operation. -/
structure Enqueued (s s' : State) (call : Call) (before : List Write) : Prop where
  single : s'.queued = s'.pendingPhaseWrite.toList.length
  calls : s'.calls = s.calls ++ [call]
  written : s'.written = s.written
  rows : s'.rows = s.rows
  failures : s'.failures = s.failures
  queue : s'.queue = before ++ [{ operationId := call.operationId, data := call }]
  replaced : s.queue = before ∨
    ∃ pending : Write, pending.operationId = call.operationId ∧ s.queue = before ++ [pending]

namespace Enqueued

variable {s' : State} {call : Call} {before : List Write} (he : Enqueued s s' call before)
include he

theorem lastCall (operationId : String) :
    s'.lastCall operationId =
      if call.operationId = operationId then some call else s.lastCall operationId := by
  simp only [State.lastCall, State.callsFor, he.calls, getLast?_filter_concat, decide_eq_true_eq]

theorem lastQueued (operationId : String) :
    s'.lastQueued operationId =
      if call.operationId = operationId then some { operationId := call.operationId, data := call }
      else s.lastQueued operationId := by
  simp only [State.lastQueued, he.queue, getLast?_filter_concat, decide_eq_true_eq]
  split
  · rfl
  next hne =>
    obtain h | ⟨pending, hpending, h⟩ := he.replaced
    · rw [h]
    · rw [h, getLast?_filter_concat, hpending]
      simp [hne]

/-- The writes that stay come before the new one. -/
theorem sublist : (s.written ++ before).Sublist (s.written ++ s.queue) := by
  obtain h | ⟨pending, -, h⟩ := he.replaced
  · exact h ▸ List.Sublist.refl _
  · rw [h, ← List.append_assoc]
    exact List.sublist_append_left _ _

theorem chained (h : Chained s) : Chained s' where
  single := he.single
  owned := by
    intro w hw
    rw [he.written, he.queue, ← List.append_assoc] at hw
    obtain hw | hw := List.mem_append.1 hw
    · exact h.owned w (he.sublist.subset hw)
    · simp only [List.mem_singleton] at hw
      subst hw
      rfl
  ordered := by
    rw [he.written, he.queue, he.calls, ← List.append_assoc, List.map_append]
    refine List.Sublist.append ?_ (List.Sublist.refl _)
    exact (he.sublist.map _).trans h.ordered
  queued := by
    intro operationId w hw
    rw [he.lastQueued] at hw
    rw [he.lastCall]
    split at hw
    next heq =>
      cases hw
      rw [if_pos heq]
    next hne =>
      rw [if_neg hne]
      exact h.queued operationId w hw
  rows := by
    intro operationId hop row hrow hrunning hqueued last hlast
    rw [he.lastQueued] at hqueued
    rw [he.lastCall] at hlast
    rw [he.rows] at hrow
    rw [he.failures] at hop
    split at hqueued
    · cases hqueued
    next hne =>
      rw [if_neg hne] at hlast
      exact h.rows operationId hop row hrow hrunning hqueued last hlast

end Enqueued

theorem chained_markPhase (h : Chained s) {call : Call} (hown : FindsOwnWrite s (.markPhase call)) :
    Chained (s.markPhase call) := by
  unfold State.markPhase
  split
  · exact h
  next hdraining =>
    have hown := hown.resolve_left hdraining
    split
    next pending hpending =>
      have hid : pending.operationId = call.operationId := hown pending (by simp [hpending])
      suffices hadds : Enqueued s _ call ((s.executing.filter (!·.2)).toList.map Prod.fst) from
        hadds.chained h
      exact
        { single := by simpa [hpending] using h.single
          calls := rfl
          written := rfl
          rows := rfl
          failures := rfl
          queue := by simp [State.queue, hid]
          replaced := .inr ⟨pending, hid, by simp [State.queue, hpending]⟩ }
    next hpending =>
      suffices hadds : Enqueued s _ call s.queue from hadds.chained h
      exact
        { single := by simpa [hpending] using h.single
          calls := rfl
          written := rfl
          rows := rfl
          failures := rfl
          queue := by simp [State.queue, hpending]
          replaced := .inl rfl }

/-! ### The chain -/

/-- A step of the chain that leaves the queue as it is. -/
theorem Chained.of_queue (h : Chained s) {s' : State}
    (hsingle : s'.queued = s'.pendingPhaseWrite.toList.length) (hqueue : s'.queue = s.queue)
    (hcalls : s'.calls = s.calls) (hwritten : s'.written = s.written) (hrows : s'.rows = s.rows)
    (hfailures : s.failures ⊆ s'.failures) : Chained s' where
  single := hsingle
  owned := by
    rw [hwritten, hqueue]
    exact h.owned
  ordered := by
    rw [hwritten, hqueue, hcalls]
    exact h.ordered
  queued := by
    simp only [State.lastQueued, State.lastCall, State.callsFor, hqueue, hcalls]
    exact h.queued
  rows := by
    simp only [State.lastQueued, State.lastCall, State.callsFor, hqueue, hcalls, hrows]
    exact fun operationId hop => h.rows operationId fun hmem => hop (hfailures hmem)

/-- A step of the chain that takes the first write off the queue.  A row that is still running
has got the phase, if no write of its operation failed. -/
theorem Chained.of_dequeue (h : Chained s) {s' : State} {w : Write}
    (hsingle : s'.queued = s'.pendingPhaseWrite.toList.length) (hqueue : s.queue = w :: s'.queue)
    (hcalls : s'.calls = s.calls)
    (hwritten : s'.written = s.written ∨ s'.written = s.written ++ [w])
    (hfailures : s.failures ⊆ s'.failures)
    (hother : ∀ operationId ≠ w.operationId, s'.rows operationId = s.rows operationId)
    (hown : w.operationId ∉ s'.failures → ∀ row, s'.rows w.operationId = some row →
      row.status = .running → row.phase = some w.data.phase) : Chained s' := by
  have hsub : (s'.written ++ s'.queue).Sublist (s.written ++ s.queue) := by
    rw [hqueue]
    obtain heq | heq := hwritten
    · rw [heq]
      exact List.Sublist.append (List.Sublist.refl _) (List.sublist_cons_self _ _)
    · rw [heq, List.append_assoc]
      exact List.Sublist.refl _
  have hcall : ∀ operationId, s'.lastCall operationId = s.lastCall operationId := by
    simp only [State.lastCall, State.callsFor, hcalls, implies_true]
  have hlast : ∀ operationId, s.lastQueued operationId =
      if w.operationId = operationId then (s'.lastQueued operationId).or (some w)
      else s'.lastQueued operationId := by
    intro operationId
    simp only [State.lastQueued, hqueue, List.filter_cons, decide_eq_true_eq]
    split
    · rw [List.getLast?_cons]
      cases (s'.queue.filter (·.operationId = operationId)).getLast? <;> rfl
    · rfl
  refine
    { single := hsingle
      owned := fun v hv => h.owned v (hsub.subset hv)
      ordered := by
        rw [hcalls]
        exact (hsub.map _).trans h.ordered
      queued := ?_
      rows := ?_ }
  · intro operationId v hv
    rw [hcall]
    refine h.queued operationId v ?_
    rw [hlast, Option.mem_def.1 hv]
    split <;> rfl
  · intro operationId hop row hrow hrunning hnone call hmem
    rw [hcall] at hmem
    by_cases heq : operationId = w.operationId
    · subst heq
      have hdata := h.queued w.operationId w (by rw [hlast, if_pos rfl, hnone]; rfl)
      rw [Option.mem_def.1 hmem, Option.some.injEq] at hdata
      rw [hown hop row hrow hrunning, hdata]
    · refine h.rows operationId (fun hf => hop (hfailures hf)) row ?_ hrunning ?_ call hmem
      · rw [← hother operationId heq]
        exact hrow
      · rw [hlast, if_neg (Ne.symm heq)]
        exact hnone

theorem chained_start (h : Chained s) : Chained s.start := by
  unfold State.start
  split
  · exact h
  next hidle =>
    simp only [not_or, Bool.not_eq_true, Option.isSome_eq_false_iff, Option.isNone_iff_eq_none]
      at hidle
    have hsingle := h.single
    refine h.of_queue ?_ ?_ rfl rfl rfl (List.Subset.refl _)
    · show s.queued - 1 = 0
      rw [hsingle]
      cases s.pendingPhaseWrite <;> rfl
    · cases hpending : s.pendingPhaseWrite with
      | none => simp [State.queue, hidle.1, hpending]
      | some pending => simp [State.queue, hidle.1, hpending, Option.filter]

theorem chained_execute (h : Chained s) : Chained s.execute := by
  unfold State.execute
  split
  next w hexecuting =>
    have hqueue : s.queue = w :: s.pendingPhaseWrite.toList := by
      simp [State.queue, hexecuting, Option.filter]
    split
    next row hrow =>
      split
      next hselects =>
        refine h.of_dequeue (w := w) h.single ?_ rfl (.inr rfl) (List.Subset.refl _) ?_ ?_
        · simp [State.queue, State.setRow, hexecuting, Option.filter]
        · intro operationId hne
          simp [State.setRow, Function.update_of_ne hne]
        · intro _ row' hrow' _
          simp only [State.setRow, Function.update_self, Option.some.injEq] at hrow'
          rw [← hrow']
          rfl
      next hselects =>
        refine h.of_dequeue (w := w) h.single ?_ rfl (.inl rfl) (List.Subset.refl _) ?_ ?_
        · simp [State.queue, hexecuting, Option.filter]
        · intros
          rfl
        · intro _ row' hrow' hrunning
          rw [hrow, Option.some.injEq] at hrow'
          subst hrow'
          simp [Write.selects, hrunning] at hselects
    next hrow =>
      refine h.of_dequeue (w := w) h.single ?_ rfl (.inl rfl) (List.Subset.refl _) ?_ ?_
      · simp [State.queue, hexecuting, Option.filter]
      · intros
        rfl
      · intro _ row' hrow'
        rw [hrow] at hrow'
        cases hrow'
  · exact h

theorem chained_settle (h : Chained s) (error : Bool) : Chained (s.settle error) := by
  unfold State.settle
  split
  next w executed hexecuting =>
    split
    · cases executed with
      | true =>
        refine h.of_queue h.single ?_ rfl rfl rfl (List.subset_append_left _ _)
        simp [State.queue, hexecuting, Option.filter]
      | false =>
        refine h.of_dequeue (w := w) h.single ?_ rfl (.inl rfl) (List.subset_append_left _ _) ?_ ?_
        · simp [State.queue, hexecuting, Option.filter]
        · intros
          rfl
        · intro hop
          simp at hop
    · split
      next hexecuted =>
        refine h.of_queue h.single ?_ rfl rfl rfl (List.Subset.refl _)
        simp [State.queue, hexecuting, hexecuted, Option.filter]
      · exact h
  · exact h

/-! ## Runs -/

theorem chained_step (s : State) (e : Event) (h : Chained s) (hown : FindsOwnWrite s e) :
    Chained (step s e) := by
  cases e with
  | createOperation operationId => exact chained_createOperation h operationId
  | markRunning operationId initialPhase => exact chained_markRunning h operationId initialPhase
  | markPhase call => exact chained_markPhase h hown
  | start => exact chained_start h
  | execute => exact chained_execute h
  | settle error => exact chained_settle h error
  | finishOperation operationId outcome => exact chained_finishOperation h operationId outcome
  | drain isDraining =>
    exact h.of_queue h.single rfl rfl rfl rfl (List.Subset.refl _)

theorem Chained.inOrder (h : Chained s) : InOrder s where
  ordered := by
    intro operationId
    have hwritten : (s.written.map (·.data)).Sublist s.calls := by
      refine List.Sublist.trans ?_ h.ordered
      rw [List.map_append]
      exact List.sublist_append_left _ _
    have hfilter := (hwritten.filter (·.operationId = operationId)).map (·.phase)
    rw [List.filter_map, List.map_map] at hfilter
    have howner : s.written.filter (·.operationId = operationId) =
        s.written.filter
          ((fun call : Call => decide (call.operationId = operationId)) ∘ (·.data)) :=
      List.filter_congr fun w hw => by
        simp only [Function.comp_apply, h.owned w (List.mem_append_left _ hw)]
    rw [howner]
    exact hfilter
  owned := fun w hw => h.owned w (List.mem_append_left _ hw)
  last := by
    rintro ⟨hqueued, hexecuting⟩ operationId hop row hrow hrunning
    have hpending : s.pendingPhaseWrite = none := by
      have hsingle := h.single
      rw [hqueued] at hsingle
      cases hp : s.pendingPhaseWrite with
      | none => rfl
      | some pending => simp [hp] at hsingle
    refine h.rows operationId hop row hrow hrunning ?_
    simp [State.lastQueued, State.queue, hexecuting, hpending]

/-- **Progress writes keep program order.**  Every state of a run has them in order, if no call of
the run finds the queued write of another operation. -/
theorem phases_keep_order (rows : String → Option Row) (events : List Event)
    (h : Machine.Meets step FindsOwnWrite { rows } events) :
    InOrder (Machine.run step { rows } events) :=
  (Machine.run_keeps_of_meets chained_step (chained_init rows) h).inOrder

/-- A first update whose first write is slow, with a queued write that waits for it. -/
def firstUpdate : List Event :=
  [.createOperation "a", .markPhase { operationId := "a", phase := .checking }, .start,
    .markRunning "a" .checking, .markPhase { operationId := "a", phase := .downloading }]

/-- The chain runs until both writes are settled. -/
def drainChain : List Event := [.execute, .settle false, .start, .execute, .settle false]

theorem phases_keep_order_first :
    InOrder (Machine.run step { rows := fun _ => none } (firstUpdate ++ drainChain)) :=
  phases_keep_order _ _ (by
    simp [Machine.Meets, firstUpdate, drainChain, FindsOwnWrite, step, State.createOperation,
      State.callsFor, State.setRow, State.markPhase, State.start, State.markRunning,
      State.lastCall])

/-- The first update fails, and `finishOperation` fails to write it.  The first call of a second
update becomes the columns of the write that waits, and the row of the first gets its phase. -/
theorem second_update_writes_first_row :
    ¬ ∀ rows events, InOrder (Machine.run step { rows } events) := by
  intro h
  have howned := (h (fun _ => none) (firstUpdate ++
    [.createOperation "b", .markPhase { operationId := "b", phase := .checking }] ++
    drainChain)).owned
  exact absurd (howned ⟨"a", { operationId := "b", phase := .checking }⟩ (by decide +kernel))
    (by decide)

end ChordV.Api.PhaseWrites
