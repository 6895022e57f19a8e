import ChordV.Api.Model

/-!
# Direct metering

`applyDirectBatch` and the disables it orders, from
`apps/api/src/modules/agent/agent-direct-metering.ts`.

The source reads all bindings, subscriptions and snapshots of a batch before it writes
anything, so the loops over the samples see the tables as they were.  The passes are
definitions of their own, in the order in which they run.  The job that revokes the
leases of an exhausted subscription belongs to another table and is left out.
-/

namespace ChordV.Api

open Lib Fallible

/-! ## Preparing the samples -/

/-- One sample with its binding. -/
structure Entry where
  sample : UsageSample
  binding : Binding
  deriving DecidableEq, Repr

/-- `buildSnapshotKey` for a binding. -/
def Binding.snapshotKey (b : Binding) : SnapshotKey :=
  { nodeId := b.nodeId, subscriptionId := b.subscriptionId, userId := b.userId }

/-- The snapshot of the binding. -/
def Entry.snapshotKey (e : Entry) : SnapshotKey := e.binding.snapshotKey

/-- Whether a sample of a disabled or deleted binding lies behind its stored watermarks.
Without watermarks nothing does. -/
def Binding.behindCutoff (b : Binding) (bootId : String) (sequence : Nat) : Bool :=
  match b.directDisableWatermarks with
  | none => false
  | some watermarks =>
    !watermarks.any fun w => w.bootId = bootId && decide (sequence ≤ w.sequenceThrough)

/-- The binding of one sample: `none` is a sample that is left out. -/
def prepareSample (s : Database) (key : BatchKey) (sample : UsageSample) :
    Except ApiError (Option Entry) :=
  match s.bindings.lookup sample.bindingId with
  | none => .error (.invalidBinding sample.bindingId)
  | some binding =>
    if binding.nodeId ≠ key.nodeId ∨ binding.source ≠ .direct then
      .error (.invalidBinding sample.bindingId)
    else match binding.status with
      | .active => .ok (some { sample, binding })
      | .disabled | .deleted =>
        if binding.behindCutoff key.bootId key.sequence then .ok none
        else .ok (some { sample, binding })
      | .other _ => .error (.invalidBinding sample.bindingId)

/-! ## Deltas -/

/-- The bytes one entry bills: the growth within a generation, the whole reading of a new
one, and nothing without a baseline. -/
def entryDelta (s : Database) (e : Entry) : Except ApiError Nat :=
  match s.snapshots.lookup e.snapshotKey with
  | none => .ok 0
  | some snapshot =>
    if snapshot.counterGeneration = e.sample.counterGeneration then
      if e.sample.uplinkBytes < snapshot.uplinkBytes ∨
          e.sample.downlinkBytes < snapshot.downlinkBytes then
        .error (.counterRollback e.binding.panelClientEmail)
      else .ok (e.sample.uplinkBytes - snapshot.uplinkBytes +
        (e.sample.downlinkBytes - snapshot.downlinkBytes))
    else .ok (e.sample.uplinkBytes + e.sample.downlinkBytes)

/-- The baseline an entry leaves behind. -/
def Entry.baseline (e : Entry) : TrafficSnapshot :=
  { uplinkBytes := e.sample.uplinkBytes, downlinkBytes := e.sample.downlinkBytes
    counterGeneration := e.sample.counterGeneration }

/-- The snapshot and the binding already hold the reading. -/
def Entry.unchanged (s : Database) (e : Entry) : Bool :=
  decide (s.snapshots.lookup e.snapshotKey = some e.baseline) &&
    decide (e.binding.lastUplinkBytes = e.sample.uplinkBytes ∧
      e.binding.lastDownlinkBytes = e.sample.downlinkBytes)

/-- Write the reading of one changed entry. -/
def writeEntry (e : Entry) (s : Database) : Database :=
  { s with
    snapshots := s.snapshots.insert e.snapshotKey e.baseline
    bindings := s.bindings.modify e.sample.bindingId fun b => { b with
      lastUplinkBytes := e.sample.uplinkBytes, lastDownlinkBytes := e.sample.downlinkBytes } }

/-- The usage of one subscription in a batch, with the first binding that used it. -/
structure Usage where
  subscriptionId : String
  binding : Binding
  deltaBytes : Nat
  deriving DecidableEq, Repr

/-- `deltasBySubscription`: the billed entries by subscription, in the order of the first. -/
def addUsage (usages : List Usage) (p : Entry × Nat) : List Usage :=
  let (e, delta) := p
  if delta = 0 then usages
  else if usages.any (·.subscriptionId = e.binding.subscriptionId) then
    usages.map fun u =>
      if u.subscriptionId = e.binding.subscriptionId then
        { u with deltaBytes := u.deltaBytes + delta }
      else u
  else usages ++ [⟨e.binding.subscriptionId, e.binding, delta⟩]

/-- The ledger row of one billed entry, for a member of a team. -/
def ledgerRow (sampledAt : Nat) (p : Entry × Nat) : Option LedgerRow :=
  match p.1.binding.teamId, p.1.binding.userId with
  | some teamId, some userId =>
    if p.2 = 0 then none
    else some { teamId, userId, subscriptionId := p.1.binding.subscriptionId
                nodeId := p.1.binding.nodeId, usedTrafficBytes := p.2, recordedAt := sampledAt }
  | _, _ => none

/-! ## Subscriptions -/

/-- What is published of a subscription that has ended. -/
structure SubscriptionTransition where
  subscriptionId : String
  userId : Option String
  teamId : Option String
  state : SubscriptionState
  deriving DecidableEq, Repr

/-- The quota of a subscription in bytes. -/
def Subscription.totalBytes (sub : Subscription) : Nat :=
  if 0 < sub.totalTrafficBytes then sub.totalTrafficBytes
  else trafficGbNumberToBytes sub.totalTrafficGb

/-- The used bytes of a subscription. -/
def Subscription.usedBytes (sub : Subscription) : Nat :=
  if 0 < sub.usedTrafficBytes then sub.usedTrafficBytes
  else trafficGbNumberToBytes sub.usedTrafficGb

/-- The state of a subscription after it used some bytes. -/
def Subscription.nextState (sub : Subscription) (sampledAt used : Nat) : SubscriptionState :=
  if sub.state ≠ .active then sub.state
  else if sub.expireAt ≤ sampledAt then .expired
  else if sub.totalBytes ≤ used then .exhausted
  else .active

/-- One subscription after the usage of a batch.  `read` is the table as the batch found
it. -/
def chargeSubscription (read : Database) (sampledAt : Nat) (usage : Usage) (s : Database) :
    Except ApiError (SubscriptionState × List SubscriptionTransition × Database) := do
  let sub ← find read.subscriptions usage.subscriptionId .subscriptionMissing
  let used := sub.usedBytes + usage.deltaBytes
  let state := sub.nextState sampledAt used
  let usedTrafficGb ← trafficBytesToGbNumber used
  let remainingTrafficGb ← trafficBytesToGbNumber (sub.totalBytes - used)
  let transitions := if sub.state = state then [] else
    [{ subscriptionId := usage.subscriptionId, userId := usage.binding.userId
       teamId := usage.binding.teamId, state }]
  return (state, transitions, { s with
    subscriptions := s.subscriptions.modify usage.subscriptionId fun row => { row with
      totalTrafficBytes := sub.totalBytes, usedTrafficBytes := used
      usedTrafficGb, remainingTrafficGb, state } })

/-! ## Disables ordered by metering -/

/-- `bindingCommandTypesResolvedBy`: `none` is every type. -/
def bindingCommandTypesResolvedBy : CommandType → Option (List CommandType)
  | .removeUser => none
  | .disableUser => some [.disableUser, .ensureUser, .enableUser, .refreshQuota]
  | type => some [type]

/-- `resolveExhaustedCommands` for a command of a binding. -/
def resolveExhaustedCommands (bindingId : String) (type : CommandType) (s : Database) : Database :=
  let covered := fun job : Job => job.status = .cancelled && !job.resolved &&
    job.bindingId = bindingId &&
    match bindingCommandTypesResolvedBy type with
    | none => true
    | some types => types.contains job.commandType
  let keys := (s.jobs.pairs.filter fun p => covered p.2).map Prod.fst
  let resolve := fun (jobs : Table JobKey Job) key => jobs.modify key ({ · with resolved := true })
  { s with jobs := keys.foldl resolve s.jobs }

/-- `agentConfigRevision: { increment: 1n }`, with the new revision. -/
def bumpRevision (nodeId : String) (s : Database) : Except ApiError (Nat × Database) := do
  let node ← find s.nodes nodeId .nodeMissing
  let revision := node.agentConfigRevision + 1
  return (revision, { s with
    nodes := s.nodes.insert nodeId { node with agentConfigRevision := revision } })

/-- The job of one disabled binding, unless its key exists. -/
def autoDisable (nodeId agentId : String) (revision : Nat) (s : Database)
    (p : String × Binding) : Database :=
  if (s.jobs.lookup (.autoDisable p.1 revision)).isSome then s
  else
    let s := resolveExhaustedCommands p.1 .disableUser s
    let job : Job :=
      { nodeId, agentId, commandType := .disableUser, targetRevision := revision
        payload := { bindingId := p.1, email := p.2.panelClientEmail, uuid := p.2.panelClientId }
        bindingId := p.1 }
    { s with jobs := s.jobs.insert (.autoDisable p.1 revision) job }

/-- Disable one binding at a revision: its watermarks are gone until the agent reports. -/
def disableAt (revision : Nat) (s : Database) (p : String × Binding) : Database :=
  { s with bindings := s.bindings.modify p.1 fun b => { b with
      status := .disabled, directRevision := revision, directDisableWatermarks := none } }

/-- The disables of one node.  A node without an agent gets no job. -/
def disableOnNode (currentNodeId currentAgentId nodeId : String)
    (bindings : List (String × Binding)) (s : Database) :
    Except ApiError (List String × Database) := do
  let agent := if nodeId = currentNodeId then some currentAgentId else s.agentOf nodeId
  let (revision, s) ← bumpRevision nodeId s
  let s := bindings.foldl (disableAt revision) s
  match agent with
  | none => return ([], s)
  | some agentId => return ([agentId], bindings.foldl (autoDisable nodeId agentId revision) s)

/-- One node of `disableDirectBindingsForSubscriptions`. -/
def disableNext (currentNodeId currentAgentId : String) (bindings : List (String × Binding))
    (acc : List String × Database) (nodeId : String) :
    Except ApiError (List String × Database) := do
  let (more, s) ← disableOnNode currentNodeId currentAgentId nodeId
    (bindings.filter (·.2.nodeId = nodeId)) acc.2
  return (acc.1 ++ more, s)

/-- `disableDirectBindingsForSubscriptions`: the agents that got a command. -/
def disableDirectBindingsForSubscriptions (currentNodeId currentAgentId : String)
    (disabled : List String) (s : Database) : Except ApiError (List String × Database) :=
  let bindings := s.bindings.pairs.filter fun p =>
    disabled.contains p.2.subscriptionId && p.2.source = .direct && p.2.status = .active
  let nodeIds := (bindings.map (·.2.nodeId)).dedup
  nodeIds.foldlM (disableNext currentNodeId currentAgentId bindings) ([], s)

/-! ## The batch -/

/-- `DirectBatchApplication`. -/
structure Application where
  transitions : List SubscriptionTransition := []
  commandAgentIds : List String := []
  deriving DecidableEq, Repr

/-- One subscription of a batch, with the ones that are not active and the transitions so
far. -/
def chargeNext (read : Database) (sampledAt : Nat)
    (acc : List String × List SubscriptionTransition × Database) (usage : Usage) :
    Except ApiError (List String × List SubscriptionTransition × Database) := do
  let (state, more, s) ← chargeSubscription read sampledAt usage acc.2.2
  return (if state = .active then acc.1 else acc.1 ++ [usage.subscriptionId], acc.2.1 ++ more, s)

/-- The subscriptions of a batch, one after the other. -/
def chargeAll (read : Database) (sampledAt : Nat) (usages : List Usage) (s : Database) :
    Except ApiError (List String × List SubscriptionTransition × Database) :=
  usages.foldlM (chargeNext read sampledAt) ([], [], s)

/-- The entries of a batch and the bindings of the samples it leaves out. -/
def prepareSamples (s : Database) (key : BatchKey) (samples : List UsageSample) :
    Except ApiError (List Entry × List String) := do
  let prepared ← samples.mapM fun sample => do
    let entry ← prepareSample s key sample
    return (sample.bindingId, entry)
  return (prepared.filterMap (·.2),
    (prepared.filter (·.2.isNone)).map Prod.fst)

/-- The bytes each entry bills. -/
def billEntries (s : Database) (entries : List Entry) : Except ApiError (List (Entry × Nat)) :=
  entries.mapM fun e => do
    let delta ← entryDelta s e
    return (e, delta)

/-- The writes of a batch to snapshots and bindings, and its history. -/
def writeEntries (key : BatchKey) (billed : List (Entry × Nat)) (skipped : List String)
    (s : Database) : Database :=
  let s' := (billed.filter fun p => !p.1.unchanged s).foldl (fun t p => writeEntry p.1 t) s
  let revision := fun bindingId => ((s.bindings.lookup bindingId).map (·.directRevision)).getD 0
  { s' with log := s'.log ++
      billed.map (fun p => .billed p.1.sample.bindingId p.1.snapshotKey p.1.sample p.2) ++
      skipped.map (fun bindingId => .skipped bindingId (revision bindingId) key) }

/-- `applyDirectBatch`. -/
def applyDirectBatch (agentId : String) (key : BatchKey) (sampledAt : Nat)
    (samples : List UsageSample) (s : Database) : Except ApiError (Application × Database) := do
  if samples.isEmpty then return ({}, s)
  require (samples.map (·.bindingId)).Nodup .duplicateBinding
  let (entries, skipped) ← prepareSamples s key samples
  let billed ← billEntries s entries
  let written := writeEntries key billed skipped s
  let (disabled, transitions, charged) ←
    chargeAll s sampledAt (billed.foldl addUsage []) written
  let charged := { charged with ledger := charged.ledger ++ billed.filterMap (ledgerRow sampledAt) }
  if disabled.isEmpty then return ({ transitions }, charged)
  let (commandAgentIds, s) ←
    disableDirectBindingsForSubscriptions key.nodeId agentId disabled charged
  return ({ transitions, commandAgentIds }, s)

end ChordV.Api
