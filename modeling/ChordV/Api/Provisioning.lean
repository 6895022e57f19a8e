import ChordV.Api.Ingest

/-!
# Bindings and their commands

The life of a binding on the control plane, from
`apps/api/src/modules/common/runtime-session.service.ts`: the activation of a binding, the
disables and deletions of a subscription, the boundary of a traffic reset, and the node
commands they queue.  With them stand the result of a command, the retry sweep and the
baseline of a traffic reset.

* Every queued command takes the next configuration revision of its node, and the binding
  takes the same one as its `directRevision`.
* `completeCommand` is the only place that writes disable watermarks.  It does not look at
  the revision of the job.
* A request of an agent is made with a credential that is not revoked, as `authenticate`
  demands.  When a command is due for another attempt is up to the clock, so a claim and a
  cancellation of the sweep are steps of their own with the guards of their transactions.
* `usesAgentControl` admits `direct_primary` alone, so the shadow branch of an activation
  never runs and is left out.
-/

namespace ChordV.Api

open Lib Fallible

/-! ## Queueing -/

/-- `queueDirectBindingCommand`. -/
def queueDirectBindingCommand (type : CommandType) (payload : Binding → Agent.Payload)
    (bindingId : String) (s : Database) : Except ApiError Database := do
  let binding ← find s.bindings bindingId .bindingMissing
  let (revision, s) ← bumpRevision binding.nodeId s
  let updated := { binding with source := .direct, directRevision := revision }
  let s := { s with bindings := s.bindings.insert bindingId updated }
  match s.agentOf binding.nodeId with
  | none => throw .noAgent
  | some agentId =>
    let s := resolveExhaustedCommands bindingId type s
    let job : Job :=
      { nodeId := binding.nodeId, agentId, commandType := type, targetRevision := revision
        payload := payload binding, bindingId }
    return { s with jobs := s.jobs.insert (.agent type bindingId revision) job }

/-- The payload that names the account of a binding. -/
def accountPayload (bindingId : String) (b : Binding) : Agent.Payload :=
  { bindingId, userKey := b.panelClientEmail, email := b.panelClientEmail, uuid := b.panelClientId }

/-- Queue one command for each of some bindings. -/
def queueAll (type : CommandType) (bindingIds : List String) (s : Database) :
    Except ApiError Database :=
  bindingIds.foldlM (fun s id => queueDirectBindingCommand type (accountPayload id) id s) s

/-- Write a status that drops the watermarks, where the old status allows it. -/
def markBindings (status : BindingStatus) (old : List BindingStatus) (bindingIds : List String)
    (s : Database) : Database :=
  let mark := fun (bindings : Table String Binding) id => bindings.modify id fun b =>
    if old.contains b.status then { b with status, directDisableWatermarks := none } else b
  { s with bindings := bindingIds.foldl mark s.bindings }

/-- Which bindings of a subscription an operation is about. -/
structure BindingFilter where
  userId : Option String := none
  nodeIds : Option (List String) := none
  deriving DecidableEq, Repr

/-- The binding passes the filter. -/
def BindingFilter.admits (f : BindingFilter) (b : Binding) : Bool :=
  (f.userId.isNone || f.userId = b.userId) &&
    match f.nodeIds with
    | none => true
    | some nodeIds => nodeIds.contains b.nodeId

/-- The bindings of a subscription with one of some statuses. -/
def bindingsOf (s : Database) (subscriptionId : String) (f : BindingFilter)
    (statuses : List BindingStatus) : List (String × Binding) :=
  s.bindings.pairs.filter fun p => p.2.subscriptionId = subscriptionId && f.admits p.2 &&
    statuses.contains p.2.status

/-- `queuePanelDisableJobsForSubscriptionTx`. -/
def queuePanelDisableJobs (subscriptionId : String) (f : BindingFilter) (s : Database) :
    Except ApiError (Unit × Database) := do
  let ids := (bindingsOf s subscriptionId f [.active]).map Prod.fst
  let s ← queueAll .disableUser ids s
  return ((), markBindings .disabled [.active] ids s)

/-- `queuePanelDeleteJobsForSubscriptionTx`. -/
def queuePanelDeleteJobs (subscriptionId : String) (f : BindingFilter) (s : Database) :
    Except ApiError (Unit × Database) := do
  let ids := (bindingsOf s subscriptionId f [.active, .disabled]).map Prod.fst
  let s ← queueAll .removeUser ids s
  return ((), markBindings .deleted [.active, .disabled] ids s)

/-- `quiesceDirectBindingsForTrafficReset`. -/
def quiesceDirectBindings (subscriptionId : String) (userId : Option String) (s : Database) :
    Except ApiError (Unit × Database) := do
  let direct := (bindingsOf s subscriptionId { userId } [.active]).filter (·.2.source = .direct)
  let ids := direct.map Prod.fst
  let s ← queueAll .disableUser ids s
  return ((), markBindings .disabled [.active] ids s)

/-! ## Settlement -/

/-- `assertDirectTerminalWatermarksSettled`. -/
def assertDirectTerminalWatermarksSettled (bindingId : String) (b : Binding) (s : Database) :
    Except ApiError Unit :=
  match b.directDisableWatermarks with
  | none => .error (.watermarkUnconfirmed bindingId)
  | some watermarks =>
    require (∀ w ∈ watermarks, (s.batches.lookup
        { nodeId := b.nodeId, bootId := w.bootId, sequence := w.sequenceThrough }).map
          (·.accounted) = some true) (.usageUnsettled bindingId)

/-! ## Activation -/

/-- `ensureTrafficSnapshotBaseline`: a replaced snapshot keeps its generation, and a new one
starts with the default generation. -/
def ensureTrafficSnapshotBaseline (key : SnapshotKey) (uplinkBytes downlinkBytes : Nat)
    (replaceExisting : Bool) (s : Database) : Database :=
  match s.snapshots.lookup key with
  | none => { s with snapshots := s.snapshots.insert key { uplinkBytes, downlinkBytes } }
  | some current =>
    if replaceExisting then
      { s with snapshots := s.snapshots.insert key { current with uplinkBytes, downlinkBytes } }
    else s

/-- The binding an activation asks for, with the random ids it may use. -/
structure Activation where
  nodeId : String
  subscriptionId : String
  userId : String
  teamId : Option String := none
  /-- `buildPanelClientEmail`. -/
  email : String
  newBindingId : String
  newClientId : String
  /-- `createId` puts a word before the random part. -/
  named : newBindingId ≠ "" := by decide
  deriving DecidableEq, Repr

/-- The binding of a subscription, a node and a user. -/
def findBinding (input : Activation) (s : Database) : Option (String × Binding) :=
  s.bindings.pairs.find? fun p => p.2.subscriptionId = input.subscriptionId &&
    p.2.nodeId = input.nodeId && p.2.userId = some input.userId

/-- The `ENSURE_USER` payload of a binding. -/
def ensurePayload (bindingId flow : String) (sub : Subscription) (b : Binding) : Agent.Payload :=
  { bindingId, userKey := b.panelClientEmail, email := b.panelClientEmail, uuid := b.panelClientId
    flow := .text flow
    quotaRemainingBytes := some (some (if 0 < sub.totalTrafficBytes then
      sub.totalTrafficBytes - sub.usedTrafficBytes
      else trafficGbNumberToBytes sub.remainingTrafficGb))
    offlineAllowanceBytes := some (some (64 * 1024 * 1024)) }

/-- `queuePanelEnsureJobForBinding`. -/
def queuePanelEnsureJob (bindingId flow : String) (s : Database) : Except ApiError Database := do
  let binding ← find s.bindings bindingId .bindingMissing
  let sub ← find s.subscriptions binding.subscriptionId .subscriptionMissing
  queueDirectBindingCommand .ensureUser (ensurePayload bindingId flow sub) bindingId s

/-- The check of an activation: a binding that was disabled or deleted must be settled. -/
def assertSettledBefore (bindingId : String) (existing : Binding) (s : Database) :
    Except ApiError Unit :=
  if existing.status = .deleted ∨ existing.status = .disabled then
    assertDirectTerminalWatermarksSettled bindingId existing s
  else .ok ()

/-- The binding an activation makes of an existing one.  A deleted one gets a new client. -/
def Activation.revive (input : Activation) (existing : Binding) : Binding :=
  { existing with
    panelClientId :=
      if existing.status = .deleted then input.newClientId else existing.panelClientId
    status := .active, directDisableWatermarks := none, teamId := input.teamId
    source := .direct }

/-- The baseline an activation leaves for an existing binding: zero for a deleted one, and
the last counters where a snapshot is missing. -/
def rebaseline (existing : Binding) (s : Database) : Database :=
  if existing.status = .deleted then
    ensureTrafficSnapshotBaseline existing.snapshotKey 0 0 true s
  else ensureTrafficSnapshotBaseline existing.snapshotKey existing.lastUplinkBytes
    existing.lastDownlinkBytes false s

/-- The branch of `ensurePanelClientBindingLocally` for a binding that exists. -/
def activateExisting (input : Activation) (flow bindingId : String) (existing : Binding)
    (s : Database) : Except ApiError Database := do
  assertSettledBefore bindingId existing s
  let s := { s with bindings := s.bindings.insert bindingId (input.revive existing) }
  queuePanelEnsureJob bindingId flow (rebaseline existing s)

/-- The new binding of an activation. -/
def Activation.binding (input : Activation) : Binding :=
  { subscriptionId := input.subscriptionId, userId := some input.userId, teamId := input.teamId
    nodeId := input.nodeId, panelClientEmail := input.email, panelClientId := input.newClientId }

/-- The branch of `ensurePanelClientBindingLocally` for a new binding. -/
def activateNew (input : Activation) (flow : String) (s : Database) :
    Except ApiError Database := do
  require (s.bindings.lookup input.newBindingId = none) .unavailable
  let s := { s with bindings := s.bindings.insert input.newBindingId input.binding }
  let s := ensureTrafficSnapshotBaseline input.binding.snapshotKey 0 0 false s
  queuePanelEnsureJob input.newBindingId flow s

/-- `ensurePanelClientBindingLocally`. -/
def ensurePanelClientBindingLocally (input : Activation) (flow : String) (s : Database) :
    Except ApiError Database :=
  match findBinding input s with
  | some (bindingId, existing) => activateExisting input flow bindingId existing s
  | none => activateNew input flow s

/-- `ensurePanelClientBinding`. -/
def ensurePanelClientBinding (input : Activation) (s : Database) :
    Except ApiError (Unit × Database) := do
  let node ← find s.nodes input.nodeId .nodeMissing
  require (node.controlMode = .directPrimary) .controlModeUnusable
  let s ← ensurePanelClientBindingLocally input node.flow s
  return ((), s)

/-! ## Results and retries -/

/-- The result an agent reports: `completed` with the watermarks that
`parseDisableWatermarksInput` accepts, or `failed`. -/
inductive CommandResult where
  | completed (disableWatermarks : Option (List Watermark))
  | failed
  deriving DecidableEq, Repr

/-- The watermarks of a completed terminal command go to the binding, whatever its
revision. -/
def recordWatermarks (nodeId : String) (job : Job) (watermarks : Option (List Watermark))
    (s : Database) : Database :=
  match watermarks with
  | none => s
  | some watermarks =>
    if job.commandType.isTerminal ∧ job.payload.bindingId ≠ "" then
      { s with bindings := s.bindings.modify job.payload.bindingId fun b =>
          if b.nodeId = nodeId ∧ b.source = .direct then
            { b with directDisableWatermarks := some watermarks }
          else b }
    else s

/-- `completeCommand`. -/
def completeCommand (agentId : String) (key : JobKey) (result : CommandResult) (s : Database) :
    Except ApiError (Unit × Database) := do
  let agent ← currentAgent agentId s
  let job ← find s.jobs key .commandMissing
  require (job.nodeId = agent.nodeId ∧ job.agentId = agentId ∧ job.status.outstanding = true)
    .commandMissing
  match result with
  | .failed => return ((), { s with jobs := s.jobs.insert key { job with status := .failed } })
  | .completed watermarks =>
    let s := { s with jobs := s.jobs.insert key { job with status := .completed } }
    return ((), recordWatermarks agent.nodeId job watermarks s)

/-- `bindingCommandTypesSuperseding`. -/
def bindingCommandTypesSuperseding (type : CommandType) : List CommandType :=
  [type, .removeUser] ++
    if ([.ensureUser, .enableUser, .refreshQuota] : List CommandType).contains type then
      [.disableUser]
    else []

/-- The attempts after which the sweep gives a command up. -/
def maxAttempts : Nat := 8

/-- One cancellation of `retryDueCommands`: the command is given up, and it is resolved if a
newer one covers it. -/
def cancelExhausted (key : JobKey) (s : Database) : Except ApiError (Unit × Database) :=
  match s.jobs.lookup key with
  | none => .ok ((), s)
  | some job =>
    if job.status.outstanding ∧ maxAttempts ≤ job.attempts then
      let superseded := s.jobs.pairs.any fun p => p.2.nodeId = job.nodeId &&
        decide (job.targetRevision < p.2.targetRevision) && p.2.bindingId = job.bindingId &&
        (bindingCommandTypesSuperseding job.commandType).contains p.2.commandType
      let cancelled := { job with status := .cancelled, resolved := job.resolved || superseded }
      .ok ((), { s with jobs := s.jobs.insert key cancelled })
    else .ok ((), s)

/-- One claim of `retryDueCommands`: the command is sent again. -/
def claimDue (key : JobKey) (s : Database) : Except ApiError (Unit × Database) :=
  match s.jobs.lookup key with
  | none => .ok ((), s)
  | some job =>
    if job.status.outstanding ∧ job.attempts < maxAttempts then
      let claimed := { job with status := .running, attempts := job.attempts + 1 }
      .ok ((), { s with jobs := s.jobs.insert key claimed })
    else .ok ((), s)

/-! ## Traffic resets -/

/-- One baseline of `persistTrafficResetBaselineSamples`: the counters of the binding. -/
def persistBaseline (s : Database) (p : String × Binding) : Database :=
  match p.2.userId with
  | none => s
  | some _ =>
    let (uplinkBytes, downlinkBytes) :=
      if p.2.source = .direct then (p.2.lastUplinkBytes, p.2.lastDownlinkBytes) else (0, 0)
    let s := ensureTrafficSnapshotBaseline p.2.snapshotKey uplinkBytes downlinkBytes true s
    { s with bindings := s.bindings.modify p.1 fun b => { b with
        lastUplinkBytes := uplinkBytes, lastDownlinkBytes := downlinkBytes } }

/-- `resolveSubscriptionState` for a subscription that is not ended by hand. -/
def resetState (sub : Subscription) (now : Nat) (remainingGb : Rat) : SubscriptionState :=
  if sub.state = .paused then .paused
  else if sub.expireAt ≤ now then .expired
  else if remainingGb ≤ 0 then .exhausted
  else .active

/-- The committing transaction of a traffic reset, for a whole subscription or for one user:
the settled counters become the baselines, and the usage starts again. -/
def resetTraffic (subscriptionId : String) (userId : Option String) (s : Database) :
    Except ApiError (Unit × Database) := do
  let bindings := bindingsOf s subscriptionId { userId } [.active, .disabled]
  (bindings.filter fun p => p.2.source = .direct && p.2.status = .disabled).forM fun p =>
    assertDirectTerminalWatermarksSettled p.1 p.2 s
  let sub ← find s.subscriptions subscriptionId .subscriptionMissing
  let s := bindings.foldl persistBaseline s
  let removed := fun row : LedgerRow => sub.teamId = some row.teamId &&
    row.subscriptionId = subscriptionId && (userId.isNone || userId = some row.userId)
  let ledger := s.ledger.filter (!removed ·)
  let usedBytes := if sub.teamId.isSome && userId.isSome then
    ((ledger.filter (·.subscriptionId = subscriptionId)).map (·.usedTrafficBytes)).sum else 0
  let usedTrafficGb : Rat := usedBytes / gbInBytes
  let remainingTrafficGb := max 0 (sub.totalTrafficGb - usedTrafficGb)
  let renewed := { sub with
    usedTrafficGb, remainingTrafficGb, usedTrafficBytes := usedBytes
    totalTrafficBytes := trafficGbNumberToBytes sub.totalTrafficGb
    state := resetState sub s.clock remainingTrafficGb }
  return ((), { s with ledger, subscriptions := s.subscriptions.insert subscriptionId renewed })

end ChordV.Api
