import ChordV.Api.Provisioning

/-!
# Runs of the control plane

A run is a list of requests, each with the fates of its transactions.  Requests of agents,
of administrators and of the sweeps come in any order.

* `Request.program` is the handler of a request with the checks of its DTO.
* `Database.step` is what a request leaves behind, and `Database.reply` the acknowledgement
  that an agent gets.
* `Preserved` and `run_preserved` reduce a statement about all runs to the transactions, and
  `run_along` is the rule for the runs whose requests meet a condition.
-/

namespace ChordV.Api

open Lib Fallible

/-- One request to the control plane, or one action of its own. -/
inductive Request where
  | heartbeat (agentId bootId : String)
  | upload (agentId : String) (batch : UsageBatch)
  | complete (agentId : String) (key : JobKey) (result : CommandResult)
  | disable (subscriptionId : String) (filter : BindingFilter)
  | delete (subscriptionId : String) (filter : BindingFilter)
  | quiesce (subscriptionId : String) (userId : Option String)
  | activate (input : Activation)
  | reset (subscriptionId : String) (userId : Option String)
  | cancelExhausted (key : JobKey)
  | claimDue (key : JobKey)
  | createCredential (nodeId agentId : String)
  | revokeCredential (nodeId agentId : String)
  | register (nodeId agentId bootId : String)
  /-- Time passes. -/
  | tick (milliseconds : Nat)

/-- One request with the fates of its transactions. -/
abbrev Step := Request × List Fate

/-- An acknowledgement: the batches of a boot through a sequence need not be kept. -/
structure Ack where
  agentId : String
  bootId : String
  ackThrough : Nat
  deriving DecidableEq, Repr

/-- A handler without an acknowledgement. -/
def silently (f : Database → Except ApiError (Unit × Database)) : ApiM (Option Ack) := do
  transaction f
  return none

/-- The handler of a request. -/
def Request.program (payloadHash : UsageBatch → String) : Request → ApiM (Option Ack)
  | .heartbeat agentId bootId => do
    ensure (bootId ≠ "") .invalidRequest
    let ackThrough ← transaction (Api.heartbeat agentId bootId)
    return some { agentId, bootId, ackThrough }
  | .upload agentId batch => do
    ensure (batch.bootId ≠ "" ∧ 1 ≤ batch.sequence) .invalidRequest
    let ackThrough ← ingestUsageBatch payloadHash agentId batch
    return some { agentId, bootId := batch.bootId, ackThrough }
  | .complete agentId key result => silently (completeCommand agentId key result)
  | .disable subscriptionId filter => silently (queuePanelDisableJobs subscriptionId filter)
  | .delete subscriptionId filter => silently (queuePanelDeleteJobs subscriptionId filter)
  | .quiesce subscriptionId userId => silently (quiesceDirectBindings subscriptionId userId)
  | .activate input => silently (ensurePanelClientBinding input)
  | .reset subscriptionId userId => silently (resetTraffic subscriptionId userId)
  | .cancelExhausted key => silently (Api.cancelExhausted key)
  | .claimDue key => silently (Api.claimDue key)
  | .createCredential nodeId agentId => silently (Api.createCredential nodeId agentId)
  | .revokeCredential nodeId agentId => silently (Api.revokeCredential nodeId agentId)
  | .register nodeId agentId bootId => do
    ensure (bootId ≠ "") .invalidRequest
    silently (registerAgent nodeId agentId bootId)
  | .tick milliseconds => silently fun s => .ok ((), { s with clock := s.clock + milliseconds })

namespace Database

variable (payloadHash : UsageBatch → String)

/-- What a request leaves behind, whichever way it ends. -/
def step (s : Database) (step : Step) : Database :=
  finalWorld (step.1.program payloadHash) s step.2

/-- The acknowledgement of a request, if it is answered with one. -/
def reply (s : Database) (step : Step) : Option Ack :=
  (result? (step.1.program payloadHash) s step.2).join

/-- A run of the control plane. -/
def run (s : Database) (steps : List Step) : Database := steps.foldl (step payloadHash) s

/-- Every request of a run meets a condition in the state that it finds. -/
def Along (C : Database → Request → Prop) : Database → List Step → Prop
  | _, [] => True
  | s, next :: rest => C s next.1 ∧ Along C (s.step payloadHash next) rest

/-- The condition holds of every request of the run. -/
theorem Along.at_split {C : Database → Request → Prop} {s : Database} {earlier later : List Step}
    {step : Step} (h : s.Along payloadHash C (earlier ++ step :: later)) :
    C (s.run payloadHash earlier) step.1 := by
  induction earlier generalizing s with
  | nil => exact h.1
  | cons first earlier ih => exact ih h.2

end Database

/-! ## Statements about runs -/

/-- A transaction that keeps a statement. -/
def Preserves {α : Type} (I : Database → Prop) (f : Database → Except ApiError (α × Database)) :
    Prop := ∀ s a s', I s → f s = .ok (a, s') → I s'

section Preserved

variable {payloadHash : UsageBatch → String} {I : Database → Prop} {s : Database}

theorem Preserves.keeps {α : Type} {f : Database → Except ApiError (α × Database)}
    (h : Preserves I f) : Keeps I (transaction f) := Keeps.atomic h

theorem Preserves.silently {f : Database → Except ApiError (Unit × Database)}
    (h : Preserves I f) : Keeps I (silently f) :=
  Keeps.bind h.keeps fun _ => Keeps.pure

/-- The retry ends with an attempt that returned, or keeps the statement. -/
theorem triple_withSerializableRetry {α : Type} {operation : ApiM α} {Q : α → Database → Prop}
    (h : Triple I operation Q I) : ∀ attempts,
      Triple I (withSerializableRetry operation attempts) Q I
  | 0 => h
  | attempts + 1 => by
    refine Triple.bind (S := fun r t => match r with | .ok a => Q a t | .error _ => I t)
      (Triple.attempt (h.conseq (fun _ ht => ht) (fun _ _ ht => ht) fun _ ht => ⟨ht, fun _ => ht⟩))
      fun r => ?_
    cases r with
    | ok a => exact Triple.pure fun _ ht => ht
    | error e =>
      dsimp only
      split
      · next heq => cases heq
      · exact triple_withSerializableRetry h attempts
      · exact Triple.fail fun _ ht => ht

/-- A handler without an acknowledgement answers nothing. -/
theorem triple_silently {f : Database → Except ApiError (Unit × Database)} {P : Database → Prop}
    {Q : Ack → Database → Prop} :
    Triple P (silently f) (fun answer t => ∀ ack, answer = some ack → Q ack t) fun _ => True :=
  Triple.bind (S := fun _ _ => True)
    (Triple.atomic (fun _ _ _ _ _ => ⟨trivial, trivial⟩) fun _ _ => trivial)
    fun _ => Triple.pure fun _ _ _ hack => by cases hack

/-- Every transaction of a request keeps the statement. -/
def Request.Preserved (payloadHash : UsageBatch → String) (I : Database → Prop) : Request → Prop
  | .heartbeat agentId bootId => bootId ≠ "" → Preserves I (Api.heartbeat agentId bootId)
  | .upload agentId batch => batch.bootId ≠ "" → 1 ≤ batch.sequence →
      Preserves I (ingestTx payloadHash agentId batch)
  | .complete agentId key result => Preserves I (completeCommand agentId key result)
  | .disable subscriptionId filter => Preserves I (queuePanelDisableJobs subscriptionId filter)
  | .delete subscriptionId filter => Preserves I (queuePanelDeleteJobs subscriptionId filter)
  | .quiesce subscriptionId userId => Preserves I (quiesceDirectBindings subscriptionId userId)
  | .activate input => Preserves I (ensurePanelClientBinding input)
  | .reset subscriptionId userId => Preserves I (resetTraffic subscriptionId userId)
  | .cancelExhausted key => Preserves I (Api.cancelExhausted key)
  | .claimDue key => Preserves I (Api.claimDue key)
  | .createCredential nodeId agentId => Preserves I (Api.createCredential nodeId agentId)
  | .revokeCredential nodeId agentId => Preserves I (Api.revokeCredential nodeId agentId)
  | .register nodeId agentId bootId => bootId ≠ "" →
      Preserves I (registerAgent nodeId agentId bootId)
  | .tick milliseconds => ∀ s, I s → I { s with clock := s.clock + milliseconds }

theorem Request.Preserved.keeps {request : Request} (h : request.Preserved payloadHash I) :
    Keeps I (request.program payloadHash) := by
  cases request with
  | heartbeat agentId bootId =>
    refine Triple.bind (Triple.ensure fun _ hw => hw) fun _ => Triple.lift fun hboot => ?_
    exact Keeps.bind (h (of_decide_eq_true hboot)).keeps fun _ => Keeps.pure
  | upload agentId batch =>
    refine Triple.bind (Triple.ensure fun _ hw => hw) fun _ => Triple.lift fun hvalid => ?_
    obtain ⟨hboot, hsequence⟩ := of_decide_eq_true hvalid
    refine Keeps.bind (Keeps.bind ?_ fun _ => Keeps.pure) fun _ => Keeps.pure
    exact triple_withSerializableRetry (h hboot hsequence).keeps 2
  | register nodeId agentId bootId =>
    refine Triple.bind (Triple.ensure fun _ hw => hw) fun _ => Triple.lift fun hboot => ?_
    exact (h (of_decide_eq_true hboot)).silently
  | tick milliseconds =>
    refine Preserves.silently fun s a s' hs hrun => ?_
    cases hrun
    exact h s hs
  | _ => exact Preserves.silently h

/-- The rule of one request. -/
theorem Database.step_preserved (hs : I s) (step : Step) (h : step.1.Preserved payloadHash I) :
    I (s.step payloadHash step) := h.keeps.finalWorld hs step.2

/-- The rule of a run. -/
theorem Database.run_preserved (hs : I s) (steps : List Step)
    (h : ∀ step ∈ steps, step.1.Preserved payloadHash I) : I (s.run payloadHash steps) :=
  List.foldlRecOn (motive := I) _ _ hs fun _ hs step hstep => step_preserved hs step (h step hstep)

/-- The rule of a run whose requests meet a condition. -/
theorem Database.run_along {C : Database → Request → Prop}
    (hstep : ∀ s step, I s → C s step.1 → I (s.step payloadHash step)) :
    ∀ (steps : List Step) (s : Database), I s → s.Along payloadHash C steps →
      I (s.run payloadHash steps)
  | [], _, hs, _ => hs
  | step :: rest, s, hs, halong =>
    run_along hstep rest (s.step payloadHash step) (hstep s step hs halong.1) halong.2

end Preserved

end ChordV.Api
