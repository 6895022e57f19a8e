import ChordV.Lib.Machine
import ChordV.Lib.Table
import Mathlib.Logic.Function.Basic

/-!
# Commands that have run out of retries

The retry sweep of `apps/api/src/modules/agent/agent-events.service.ts` cancels a command after
its last attempt, and a newer command that replaces it marks it as resolved.  The mark is made in
two places: `resolveExhaustedCommands` in `common/node-command-job.utils.ts` looks for cancelled
commands when a command is enqueued, and `retryDueCommands` looks for newer commands when it
cancels one.

* `queueCommand` and most callers of `createOrRefreshNodeCommandJob` enqueue in a transaction that
  has locked the row of the node, and so does the sweep.  Each of these is one step.
* `connect` enqueues without a transaction.  Its revision, its `resolveExhaustedCommands` and its
  `upsert` are three steps.
* Metering enqueues in a serializable transaction.  What it reads is as old as the snapshot with
  which the transaction began, and so the snapshot and the commit are two steps.
* `registerOnce` in `agent-register.service.ts` creates the first `ENSURE_INBOUND` of a node in one
  transaction and looks for no cancelled command.
* A binding belongs to the same node for ever.  Marks that an administrator sets are not modelled,
  and neither are times: the sweep may take any command that has used up its attempts.
-/

namespace ChordV.Api.ExhaustedCommands

open Lib Lib.Machine

/-! ## Which command replaces which -/

/-- `NodeCommandType`. -/
inductive CommandType where
  | ensureUser
  | enableUser
  | disableUser
  | removeUser
  | reconcileUsers
  | refreshQuota
  | ensureInbound
  deriving DecidableEq, Repr

/-- As the database spells it. -/
def CommandType.name : CommandType → String
  | .ensureUser => "ensure_user"
  | .enableUser => "enable_user"
  | .disableUser => "disable_user"
  | .removeUser => "remove_user"
  | .reconcileUsers => "reconcile_users"
  | .refreshQuota => "refresh_quota"
  | .ensureInbound => "ensure_inbound"

/-- `MOOTED_BY`. -/
def mootedBy : List (CommandType × List CommandType) :=
  [(.disableUser, [.ensureUser, .enableUser, .refreshQuota])]

/-- The types that a new command resolves on its binding, where `none` is all types. -/
def bindingCommandTypesResolvedBy (type : CommandType) : Option (List CommandType) :=
  if type = .removeUser then none else some (type :: (mootedBy.lookup type).getD [])

/-- `commandType: { in: types }`, or no condition if a new command resolves all types. -/
def resolvesType (type older : CommandType) : Bool :=
  match bindingCommandTypesResolvedBy type with
  | none => true
  | some types => types.contains older

/-- The types of a newer command that replaces one on the same binding. -/
def bindingCommandTypesSuperseding (type : CommandType) : List CommandType :=
  [type, .removeUser] ++ (mootedBy.filter fun p => p.2.contains type).map (·.1)

/-- The fields of a payload that name a user.  A field is `none` if it is absent or no string. -/
structure Payload where
  bindingId : Option String := none
  userKey : Option String := none
  email : Option String := none
  uuid : Option String := none
  deriving DecidableEq, Repr

/-- A target is named. -/
def hasUserTargeting (payload : Payload) : Bool :=
  [payload.bindingId, payload.userKey, payload.email, payload.uuid].any (·.any (· ≠ ""))

/-- The binding that `queueCommand` looks up. -/
def Payload.binding (payload : Payload) : Option String := payload.bindingId.filter (· ≠ "")

/-! ## Jobs -/

/-- `NodeCommandJobStatus`. -/
inductive Status where
  | pending
  | running
  | completed
  | failed
  | cancelled
  deriving DecidableEq, Repr

/-- A row of `NodeCommandJob`. -/
structure Job where
  dedupeKey : String
  nodeId : String
  commandType : CommandType
  targetRevision : Nat
  payload : Payload
  bindingId : Option String
  status : Status := .pending
  attempts : Nat := 0
  resolved : Bool := false
  deriving DecidableEq, Repr

/-- The job is still to be done. -/
def Job.outstanding (job : Job) : Bool :=
  job.status = .pending || job.status = .running || job.status = .failed

/-- The agent has used up its attempts and nothing has replaced the command. -/
def Job.exhausted (job : Job) : Bool := job.status = .cancelled && !job.resolved

/-- What a caller wants to enqueue. -/
structure Order where
  nodeId : String
  commandType : CommandType
  payload : Payload
  deriving DecidableEq, Repr

/-- The row of the order. -/
def Order.job (order : Order) (dedupeKey : String) (targetRevision : Nat) : Job :=
  { dedupeKey, nodeId := order.nodeId, commandType := order.commandType, targetRevision
    payload := order.payload, bindingId := order.payload.binding }

/-- The `where` of `resolveExhaustedCommands` besides the status: a command of a binding covers
that binding, one without a user covers its node, and any other nothing. -/
def Order.covers (order : Order) (job : Job) : Bool :=
  match order.payload.binding with
  | some bindingId =>
    job.bindingId = some bindingId && resolvesType order.commandType job.commandType
  | none =>
    !hasUserTargeting order.payload && job.nodeId = order.nodeId &&
      job.commandType = order.commandType

/-- The query of the sweep for the replacements of a job. -/
def Job.replacedBy (job replacement : Job) : Bool :=
  replacement.nodeId = job.nodeId && decide (job.targetRevision < replacement.targetRevision) &&
    (job.bindingId.isSome && replacement.bindingId = job.bindingId &&
        (bindingCommandTypesSuperseding job.commandType).contains replacement.commandType ||
      replacement.bindingId = none && replacement.commandType = job.commandType) &&
    (replacement.bindingId.isSome || !hasUserTargeting replacement.payload)

/-! ## The state -/

/-- An enqueue between two of its steps. -/
inductive Call where
  /-- Without a transaction: it has a revision. -/
  | allocated (order : Order) (revision : Nat)
  /-- It has marked the exhausted commands. -/
  | resolved (order : Order) (revision : Nat) (marked : List String)
  /-- In a serializable transaction: the exhausted commands of the snapshot.  The orders come
  with the ids of their rows and are all for one node. -/
  | snapshot (nodeId : String) (orders : List (String × Order)) (seen : List String)

/-- The jobs, and the enqueues that are under way. -/
structure Store where
  /-- `agentConfigRevision` of the nodes. -/
  revisions : String → Nat := fun _ => 0
  jobs : Table String Job := ∅
  calls : Table Nat Call := ∅

/-- What happens to the jobs. -/
inductive Event where
  /-- `queueCommand` with a key, which the caller may have chosen. -/
  | queueCommand (id : String) (order : Order) (dedupeKey : String) (chosen : Bool)
  /-- `queueDirectBindingCommand` in a transaction. -/
  | queueBinding (id : String) (order : Order)
  /-- `queueDirectBindingCommand` without one takes its revision. -/
  | connect (call : Nat) (order : Order)
  /-- `disableDirectBindingsForSubscriptions` begins. -/
  | meter (call : Nat) (nodeId : String) (orders : List (String × Order))
  /-- The next step of an enqueue, with the id of a new row. -/
  | advance (call : Nat) (id : String)
  | abort (call : Nat)
  /-- `registerOnce` for a node with an inbound to validate. -/
  | register (id : String) (nodeId : String)
  /-- The agent is sent a command, or has answered. -/
  | attempt (id : String)
  | report (id : String) (completed : Bool)
  /-- The sweep cancels a command that has used up its attempts. -/
  | cancel (id : String)

/-! ## Steps -/

/-- `agent:<type>:<binding>:<revision>`. -/
def bindingKey (order : Order) (revision : Nat) : String :=
  "agent:" ++ order.commandType.name ++ ":" ++ order.payload.binding.getD "" ++ ":" ++
    toString revision

/-- `auto-disable:<binding>:<revision>`. -/
def autoDisableKey (order : Order) (revision : Nat) : String :=
  "auto-disable:" ++ order.payload.binding.getD "" ++ ":" ++ toString revision

/-- `onboarding:<node>`. -/
def onboardingKey (nodeId : String) : String := "onboarding:" ++ nodeId

/-- The first validation of the inbound of a node.  Its payload names no user. -/
def onboarding (nodeId : String) : Order := { nodeId, commandType := .ensureInbound, payload := {} }

/-- The order is for no binding, or for one of its node. -/
def Order.belongs (nodeOf : String → Option String) (order : Order) : Bool :=
  order.payload.binding.all fun bindingId => nodeOf bindingId = some order.nodeId

namespace Store

/-- `agentConfigRevision: { increment: 1n }`. -/
def bump (s : Store) (nodeId : String) : Store :=
  { s with revisions := Function.update s.revisions nodeId (s.revisions nodeId + 1) }

/-- The row that has the key. -/
def holder (s : Store) (dedupeKey : String) : Option String :=
  (s.jobs.pairs.find? fun p => p.2.dedupeKey = dedupeKey).map (·.1)

/-- The rows that `resolveExhaustedCommands` marks. -/
def marks (s : Store) (order : Order) : List String :=
  (s.jobs.pairs.filter fun p => p.2.exhausted && order.covers p.2).map (·.1)

/-- `resolveExhaustedCommands`, on the rows that the transaction sees as cancelled. -/
def resolveExhaustedCommands (s : Store) (order : Order) (sees : String → Bool) : Store :=
  { s with
    jobs := s.jobs.updateWhere (fun id job => sees id && job.exhausted && order.covers job)
      fun job => { job with resolved := true } }

/-- A new row. -/
def insertJob (s : Store) (id : String) (job : Job) : Store :=
  { s with jobs := s.jobs.insert id job }

/-- The `upsert` of `createOrRefreshNodeCommandJob`. -/
def upsert (s : Store) (id : String) (job : Job) : Store :=
  match s.holder job.dedupeKey with
  | some old =>
    { s with
      jobs := s.jobs.modify old fun row =>
        { job with dedupeKey := row.dedupeKey, nodeId := row.nodeId, resolved := row.resolved } }
  | none => s.insertJob id job

/-- `queueCommand` releases the key of a deployment that is not the newest any more or that has
failed. -/
def releaseKey (s : Store) (order : Order) (dedupeKey : String) (chosen : Bool) : Store :=
  if order.commandType = .ensureInbound && !chosen then
    match s.holder dedupeKey with
    | some old =>
      { s with
        jobs := s.jobs.modify old fun row =>
          if (s.jobs.pairs.any fun p =>
              p.2.nodeId = order.nodeId && p.2.commandType = .ensureInbound &&
                decide (row.targetRevision < p.2.targetRevision)) ||
              row.status = .failed || row.status = .cancelled then
            { row with dedupeKey := dedupeKey ++ ":superseded:" ++ old }
          else row }
    | none => s
  else s

/-- Enqueues under a key, unless the key is held. -/
def queueCommand (nodeOf : String → Option String) (s : Store) (id : String) (order : Order)
    (dedupeKey : String) (chosen : Bool) : Store :=
  let s₁ := (s.bump order.nodeId).releaseKey order dedupeKey chosen
  if (s₁.holder dedupeKey).isSome then s₁
  else if order.belongs nodeOf then
    (s₁.resolveExhaustedCommands order fun _ => true).insertJob id
      (order.job dedupeKey (s.revisions order.nodeId + 1))
  else s

/-- Enqueues for a binding. -/
def queueBinding (s : Store) (id : String) (order : Order) : Store :=
  let revision := s.revisions order.nodeId + 1
  ((s.bump order.nodeId).resolveExhaustedCommands order fun _ => true).upsert id
    (order.job (bindingKey order revision) revision)

/-- The end of a registration.  If the key is taken then all of it is rolled back. -/
def register (s : Store) (id nodeId : String) : Store :=
  if (s.holder (onboardingKey nodeId)).isSome then s
  else
    (s.bump nodeId).insertJob id
      ((onboarding nodeId).job (onboardingKey nodeId) (s.revisions nodeId + 1))

/-- One command of a metering transaction. -/
def autoDisable (revision : Nat) (seen : List String) (s : Store) (p : String × Order) : Store :=
  let job := p.2.job (autoDisableKey p.2 revision) revision
  if (s.holder job.dedupeKey).isSome || (s.jobs.lookup p.1).isSome then s
  else (s.resolveExhaustedCommands p.2 fun id => seen.contains id).insertJob p.1 job

/-- The enqueue is at another point. -/
def setCall (s : Store) (call : Nat) (c : Call) : Store :=
  { s with calls := s.calls.insert call c }

/-- The enqueue is over. -/
def endCall (s : Store) (call : Nat) : Store := { s with calls := s.calls.erase call }

/-- The next step of an enqueue. -/
def advance (s : Store) (call : Nat) (id : String) : Call → Store
  | .allocated order revision =>
    (s.resolveExhaustedCommands order fun _ => true).setCall call
      (.resolved order revision (s.marks order))
  | .resolved order revision _ =>
    if (s.jobs.lookup id).isNone then
      (s.upsert id (order.job (bindingKey order revision) revision)).endCall call
    else s
  | .snapshot nodeId orders seen =>
    (orders.foldl (autoDisable (s.revisions nodeId + 1) seen) (s.bump nodeId)).endCall call

/-- The sweep, when it has the lock of the node. -/
def cancel (s : Store) (id : String) (job : Job) : Store :=
  let superseded := s.jobs.pairs.any fun p => job.replacedBy p.2
  s.insertJob id
    { job with
      status := .cancelled
      resolved := job.resolved || superseded
      dedupeKey :=
        if job.commandType = .ensureInbound then job.dedupeKey ++ ":cancelled:" ++ id
        else job.dedupeKey }

end Store

/-- One step.  `nodeOf` is the node of a binding. -/
def step (nodeOf : String → Option String) (s : Store) : Event → Store
  | .queueCommand id order dedupeKey chosen =>
    if (s.jobs.lookup id).isNone then s.queueCommand nodeOf id order dedupeKey chosen else s
  | .queueBinding id order =>
    if (s.jobs.lookup id).isNone && order.payload.binding.isSome && order.belongs nodeOf then
      s.queueBinding id order
    else s
  | .connect call order =>
    if (s.calls.lookup call).isNone && order.payload.binding.isSome && order.belongs nodeOf then
      (s.bump order.nodeId).setCall call
        (.allocated order (s.revisions order.nodeId + 1))
    else s
  | .meter call nodeId orders =>
    if (s.calls.lookup call).isNone && orders.all fun p =>
        p.2.nodeId = nodeId && p.2.payload.binding.isSome && p.2.belongs nodeOf then
      s.setCall call (.snapshot nodeId orders
        ((s.jobs.pairs.filter fun p => p.2.exhausted).map (·.1)))
    else s
  | .advance call id =>
    match s.calls.lookup call with
    | some c => s.advance call id c
    | none => s
  | .abort call => s.endCall call
  | .register id nodeId => if (s.jobs.lookup id).isNone then s.register id nodeId else s
  | .attempt id =>
    { s with
      jobs := s.jobs.modify id fun job =>
        if job.outstanding && decide (job.attempts < 8) then
          { job with status := .running, attempts := job.attempts + 1 }
        else job }
  | .report id completed =>
    { s with
      jobs := s.jobs.modify id fun job =>
        if job.outstanding then
          { job with
            status := if completed then .completed else .failed
            dedupeKey :=
              if completed && job.commandType = .ensureInbound then
                job.dedupeKey ++ ":done:" ++ id
              else job.dedupeKey }
        else job }
  | .cancel id =>
    match s.jobs.lookup id with
    | some job => if job.outstanding && decide (8 ≤ job.attempts) then s.cancel id job else s
    | none => s

end ChordV.Api.ExhaustedCommands
