import ChordV.Agent.Commands

/-!
# The runner

`apps/agent/internal/runner`: sampling, the refresh of the configuration, the detection
of a replaced Xray, and one delivered command.  The state lock makes each of them one
step of the node.

* `Reading` is what the environment answers during a step: the counters of the
  statistics service, the clock and the uptime of Xray.
* `Label` is a step of the node.  The panel and the Xray process take steps too.  A
  step of the agent comes with the fates of its atomic actions, and a process that
  died takes no step until it is restarted.
* `run` is a whole run.
-/

namespace ChordV.Agent

open Lib

/-- What the environment answers while a step runs. -/
structure Reading where
  stats : String → Nat × Nat := fun _ => (0, 0)
  now : Nat := 0
  uptime : Int := 0

/-- `MaxUptimeSeconds`: a hundred years. -/
def maxUptimeSeconds : Int := 100 * 365 * 24 * 3600

namespace Runner

/-- A change of the volatile fields. -/
def update (f : Runner → Runner) : AgentM Unit := poke fun w => { w with runner := f w.runner }

/-- A read of the volatile fields. -/
def read {α : Type} (f : Runner → α) : AgentM α := peek fun w => f w.runner

/-- Run a program, and note its failure in the volatile fields before passing it on. -/
def noting {α : Type} (p : AgentM α) (f : Runner → Runner) : AgentM α := do
  match ← attempt p with
  | .ok a => return a
  | .error e =>
    update f
    fail e

/-- The notes a failure leaves. -/
def unhealthy (r : Runner) : Runner := { r with xrayHealthy := false }

/-- Xray is down and a reconcile is due. -/
def unhealthyPending (r : Runner) : Runner :=
  { r with xrayHealthy := false, reconcilePending := true }

/-- Coming back from unhealthy is itself a reason to reconcile. -/
def healthy (r : Runner) : Runner :=
  { r with reconcilePending := r.reconcilePending || !r.xrayHealthy, xrayHealthy := true }

/-- `r.current = ConfigSnapshot()`. -/
def syncCurrent : AgentM Unit := poke fun w =>
  { w with runner := { w.runner with
      currentMode := w.store.controlMode, currentRevision := w.store.configRevision } }

/-! ## Health and restart detection -/

/-- `Health` of the adapter. -/
def health : AgentM Unit := atomic .unavailable fun w => .ok ((), w)

/-- `UptimeSeconds` of the adapter. -/
def uptimeSeconds (reading : Reading) : AgentM Int :=
  atomic .unavailable fun w => .ok (reading.uptime, w)

/-- `flushPendingReconcileLocked`. -/
def flushPendingReconcile (deps : Deps) : AgentM Unit := do
  let due ← peek fun w =>
    w.xray.inboundReady && w.runner.reconcilePending && w.runner.currentMode = .directPrimary
  if due then
    let users ← readStore Store.listDesiredUsers
    Processor.reconcile deps users
    update fun r => { r with reconcilePending := false }
  else return ()

/-- `checkXrayLocked`. -/
def checkXray (deps : Deps) : AgentM Unit := do
  noting health unhealthy
  update healthy
  noting (flushPendingReconcile deps) unhealthy

/-- `detectMissingUsersLocked`: an enabled user without an account asks for a
reconciliation. -/
def detectMissingUsers : AgentM Unit := do
  let relevant ← peek fun w => w.xray.inboundReady && w.runner.currentMode = .directPrimary
  let wanted ← readStore fun s => (s.listDesiredUsers.filter (·.enabled)).map (·.email)
  if relevant && !wanted.isEmpty then
    let live ← Adapter.listUsers
    if wanted.any fun email => (Processor.liveAt live email).isNone then
      update fun r => { r with reconcilePending := true }
    else return ()
  else return ()

/-- The estimated start of Xray moved by more than the tolerance. -/
def restarted (deps : Deps) (start : Int) (r : Runner) : Bool :=
  match r.lastXrayStart with
  | none => false
  | some last => deps.restartTolerance < start - last

/-- `detectXrayRestartLocked`. -/
def detectXrayRestart (deps : Deps) (reading : Reading) : AgentM Unit := do
  let uptime ← uptimeSeconds reading
  ensure (0 ≤ uptime && uptime ≤ maxUptimeSeconds) .implausibleUptime
  let start := (reading.now : Int) - uptime
  update fun r => { r with
    reconcilePending := r.reconcilePending || restarted deps start r
    lastXrayStart := some start }
  detectMissingUsers
  flushPendingReconcile deps

/-! ## Sampling -/

/-- `attributableCountersLocked`: a counter of a stored address whose live account does
not carry another identity. -/
def attributable (live : List LiveUser) (users : List DesiredUser) (counter : AbsoluteCounter) :
    Bool :=
  match users.find? (·.email = counter.email) with
  | none => false
  | some user =>
    match Processor.liveAt live counter.email with
    | none => true
    | some account => account.uuid = "" || user.uuid = "" || account.uuid = user.uuid

/-- The counters that `attributable` lets through. -/
def attributableCounters (counters : List AbsoluteCounter) : AgentM (List AbsoluteCounter) :=
  if counters.isEmpty then return counters
  else do
    let live ← Adapter.listUsers
    let users ← readStore Store.listDesiredUsers
    return counters.filter (attributable live users)

/-- `RecordSample` as an action.  It reports the addresses whose quota ran out. -/
def recordSample (counters : List AbsoluteCounter) (reading : Reading) (backendOnline : Bool) :
    AgentM (List String) :=
  atomic .unavailable fun w =>
    let ((_, disable), s) := w.store.recordSample counters reading.now backendOnline
    .ok (disable, { w with store := s })

/-- The recovery at the end of a sample.  Its failures are logged only. -/
def recover (deps : Deps) (reading : Reading) : AgentM Unit := do
  match ← attempt (checkXray deps) with
  | .error _ => return ()
  | .ok () =>
    match ← attempt (detectXrayRestart deps reading) with
    | .error _ => update unhealthyPending
    | .ok () => return ()

/-- `sampleLocked`. -/
def sample (deps : Deps) (reading : Reading) : AgentM Unit := do
  let ready ← peek fun w => w.xray.inboundReady
  if !ready then checkXray deps
  else
    let counters ← noting (Adapter.readAbsoluteCounters reading.stats) unhealthy
    let counters ← attributableCounters counters
    update healthy
    let online ← read (·.backendOnline)
    let disable ← recordSample counters reading online
    let mode ← read (·.currentMode)
    if mode = .directPrimary then noting (Processor.uninstallExhausted disable) unhealthyPending
    recover deps reading

/-! ## Refreshing the configuration -/

/-- `sampleBeforeRemovalLocked`: the snapshot takes an enabled user away, or changes what
it is installed as. -/
def takesAway (current next : List DesiredUser) : Bool :=
  current.any fun user => user.enabled &&
    match next.find? (·.bindingId = user.bindingId) with
    | none => true
    | some wanted => !wanted.enabled || wanted.email ≠ user.email || wanted.uuid ≠ user.uuid ||
        wanted.flow ≠ user.flow

/-- `preserveLocalDisablesLocked`. -/
def preserveLocalDisables (s : Store) : Bool := !s.batches.isEmpty && s.hasUsageDisabledUsers

/-- `withLocalDisables`: a locally disabled user stays as it is stored. -/
def withLocalDisables (incoming stored : List DesiredUser) : List DesiredUser :=
  incoming.map fun user =>
    (stored.find? fun held => !held.enabled && held.bindingId = user.bindingId).getD user

/-- Whether `restoreOfflineUsersLocked` takes one incoming user. -/
def restorable (s : Store) (user : DesiredUser) : Except Failure Bool :=
  match s.listDesiredUsers.find? (·.bindingId = user.bindingId) with
  | none => .ok false
  | some held =>
    if held.enabled || !user.enabled || held.quotaRemainingBytes = some 0 ||
        held.email ≠ user.email || held.uuid ≠ user.uuid then .ok false
    else do
      if ← decimalLess user.revision held.revision then return false
      return s.bindingTombstone user.bindingId = 0 && s.offlineDisabled user.bindingId

/-- `restoreOfflineUsersLocked` as one transaction. -/
def restoreOfflineUsers (incoming : List DesiredUser) (s : Store) : Except Failure Store := do
  let recovered ← incoming.filterM (restorable s)
  s.restoreBackendConfirmedUsers recovered

/-- The users a refresh applies: the prepared ones with the local disables, or the
snapshot merged again after the offline users came back. -/
def refreshedUsers (snapshot prepared : ConfigSnapshot) : AgentM ConfigSnapshot := do
  let preserve ← readStore preserveLocalDisables
  if preserve then
    let stored ← readStore Store.listDesiredUsers
    return { prepared with users := withLocalDisables prepared.users stored }
  else
    transact (restoreOfflineUsers snapshot.users)
    let again ← readStore (Processor.prepareSnapshot snapshot)
    liftExcept again

/-- `applyRefreshedLocked`. -/
def applyRefreshed (deps : Deps) (reading : Reading) (snapshot : ConfigSnapshot) :
    AgentM Unit := do
  let current ← readStore Store.configSnapshot
  let prepared ← readStore (Processor.prepareSnapshot snapshot)
  let prepared ← liftExcept prepared
  let older ← liftExcept (decimalLess snapshot.revision current.revision)
  if older then syncCurrent
  else
    if (current.controlMode = .directPrimary || prepared.controlMode = .directPrimary) &&
        takesAway current.users prepared.users then sample deps reading
    let prepared ← refreshedUsers snapshot prepared
    Processor.applySnapshot deps prepared
    syncCurrent

/-- `refreshConfig`.  `epoch` is the settlement epoch at which the request was made, and
a `response` of `none` is a request that failed. -/
def refreshConfig (deps : Deps) (reading : Reading) (epoch : Nat)
    (response : Option ConfigSnapshot) : AgentM Unit := do
  match response with
  | none =>
    update fun r => { r with backendOnline := false, refreshPending := true }
    fail .unavailable
  | some snapshot =>
    update fun r => { r with backendOnline := true }
    noting (do
      let now ← read (·.settlementEpoch)
      ensure (epoch = now) .settledDuringFetch
      applyRefreshed deps reading snapshot) fun r => { r with refreshPending := true }
    update fun r => { r with refreshPending := false }

/-- The checks of `start`.  Their failures are logged only. -/
def startChecks (deps : Deps) (reading : Reading) : AgentM Unit := do
  match ← attempt (checkXray deps) with
  | .error _ => return ()
  | .ok () =>
    let _ ← attempt (detectXrayRestart deps reading)

/-- `start`, after the store was opened: a node without any configuration refuses to run
without an answer of the control plane. -/
def start (deps : Deps) (reading : Reading) (epoch : Nat) (response : Option ConfigSnapshot) :
    AgentM Unit := do
  match ← attempt (refreshConfig deps reading epoch response) with
  | .ok () => startChecks deps reading
  | .error e =>
    let revision ← read (·.currentRevision)
    if revision = 0 then fail e else startChecks deps reading

/-! ## Commands and acknowledgements -/

/-- The command itself.  A failed final sample fails the command. -/
def afterSample (deps : Deps) (command : Command) (writable : Bool)
    (metered : Except Failure Unit) : AgentM Outcome :=
  match metered with
  | .error e => return .failed e
  | .ok () => do
    let outcome ← Processor.execute deps command writable
    syncCurrent
    return outcome

/-- `execute`. -/
def execute (deps : Deps) (reading : Reading) (command : Command) : AgentM Outcome := do
  update fun r => { r with backendOnline := true }
  match ← readStore (·.completedCommand command.commandId) with
  | some outcome => return outcome
  | none =>
    let mode ← read (·.currentMode)
    let writable := mode = .directPrimary
    match ← readStore (Processor.reconfiguresUser command) with
    | .error e => return .failed e
    | .ok reconfigures =>
      let metered ←
        if writable && (command.type.isTerminal || command.type = .reconcileUsers ||
          reconfigures) then attempt (sample deps reading) else pure (.ok ())
      afterSample deps command writable metered

/-- `ackLocked`. -/
def ack (bootId : String) (through : Nat) : AgentM Unit := do
  let removed ← atomic .unavailable fun w : World =>
    let (removed, s) := w.store.ackThrough bootId through
    .ok (removed, { w with store := s })
  if 0 < removed then update fun r => { r with settlementEpoch := r.settlementEpoch + 1 }
  update fun r => { r with backendOnline := true }

/-- Opening the store of a restarted process, action by action. -/
def openStore (bootId : String) : AgentM Unit := do
  write Store.backfillSnapshotRevision
  let parked ← readStore Store.parkedBindings
  parked.forM fun bindingId => write (Store.recoverParkedRow bindingId)
  write (Store.initializeBoot bootId)

/-- A new process: the store is opened, and the runner starts from what it holds. -/
def boot (bootId : String) : AgentM Unit := do
  openStore bootId
  update fun _ => {}
  syncCurrent

end Runner

/-! ## Runs of a node -/

/-- One step of the node. -/
inductive Label where
  /-- A command arrives on the event stream. -/
  | command (command : Command) (reading : Reading)
  /-- A configuration response arrives. -/
  | refresh (epoch : Nat) (response : Option ConfigSnapshot) (reading : Reading)
  /-- The first refresh and the first checks of a started process. -/
  | start (epoch : Nat) (response : Option ConfigSnapshot) (reading : Reading)
  | sample (reading : Reading)
  /-- An acknowledgement of a heartbeat or of an upload arrives. -/
  | ack (bootId : String) (through : Nat)
  | backendOffline
  | restart (bootId : String)
  /-- The panel adds an account, or replaces the one at the address. -/
  | panelAdd (email uuid flow : String)
  | panelRemove (email : String)
  /-- Xray restarts: the accounts that only its memory held are gone. -/
  | xrayRestart (kept : List String)
  /-- The binding of the agent to an inbound, and the addresses of the other ones. -/
  | inbound (ready : Bool) (otherEmails : List String)

/-- One step with the fates of its atomic actions. -/
abbrev Step := Label × List Fate

namespace World

/-- Run a program of a living process.  A death leaves a dead process. -/
def operate {α : Type} (p : AgentM α) (fates : List Fate) (w : World) : World :=
  match p ⟨w, fates⟩ with
  | .ok _ s => s.world
  | .error (.err _) s => s.world
  | .error .died s => { s.world with runner := { alive := false } }

/-- A step of the agent, which a dead process does not take. -/
def ifAlive (f : World → World) (w : World) : World := if w.runner.alive then f w else w

/-- The accounts that survive a restart of Xray. -/
def keepAccounts (kept : List String) (x : Xray) : Xray :=
  { x with accounts := x.accounts.eraseAll (x.accounts.keys.filter (!kept.contains ·)) }

/-- One step of the node. -/
def step (deps : Deps) (w : World) (s : Step) : World :=
  match s.1 with
  | .command command reading => w.ifAlive (operate (Runner.execute deps reading command) s.2)
  | .refresh epoch response reading =>
    w.ifAlive (operate (Runner.refreshConfig deps reading epoch response) s.2)
  | .start epoch response reading =>
    w.ifAlive (operate (Runner.start deps reading epoch response) s.2)
  | .sample reading => w.ifAlive (operate (Runner.sample deps reading) s.2)
  | .ack bootId through => w.ifAlive (operate (Runner.ack bootId through) s.2)
  | .backendOffline => { w with runner := { w.runner with backendOnline := false } }
  | .restart bootId =>
    operate (Runner.boot bootId) s.2 { w with runner := { alive := false } }
  | .panelAdd email uuid flow =>
    { w with xray := { w.xray with
        accounts := w.xray.accounts.insert email ⟨uuid, flow, .panel⟩ } }
  | .panelRemove email =>
    { w with xray := { w.xray with accounts := w.xray.accounts.erase email } }
  | .xrayRestart kept => { w with xray := keepAccounts kept w.xray }
  | .inbound inboundReady otherEmails =>
    { w with xray := { w.xray with inboundReady, otherEmails } }

/-- A run of the node. -/
def run (deps : Deps) (w : World) (steps : List Step) : World := steps.foldl (step deps) w

end World

end ChordV.Agent
