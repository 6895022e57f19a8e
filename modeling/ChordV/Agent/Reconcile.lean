import ChordV.Agent.Processor
import ChordV.Lib.Fallible

/-!
# Reconciliation and the two snapshot channels

`Reconcile` makes the installed accounts match a list of desired users.  It is the
one operation that works on the whole inbound, and both snapshot channels and the
repair of the runner end in it.

* The passes of `Reconcile` are definitions of their own, in the order in which they
  run: the collision preflight, the release of renamed accounts, the installs and
  disables, and the retirement of accounts that nobody wants.
* `reconcileCommand` is `RECONCILE_USERS`, and `applySnapshot` is an HTTP refresh.
  They differ in the revision they are judged by: the first one is measured against
  the snapshot revision, the second one against the configuration revision.
-/

namespace ChordV.Agent.Processor

open Lib

/-! ## The passes of a reconciliation -/

/-- The collision preflight for one user. -/
def preflightUser (deps : Deps) (live : List LiveUser) (ours : List String)
    (user : DesiredUser) : AgentM Unit :=
  if !user.enabled || (liveAt live user.email).isNone || ours.contains user.email then return ()
  else collision deps user

/-- Uninstall what is left at the old address of one renamed user.  The result is the
list of the addresses released so far. -/
def releaseRenamed (live : List LiveUser) (ours : List String) (recorded : List DesiredUser)
    (released : List String) (user : DesiredUser) : AgentM (List String) :=
  match recorded.find? (·.bindingId = user.bindingId) with
  | none => return released
  | some previous =>
    if previous.email = user.email || !ours.contains previous.email then return released
    else do
      Adapter.removeUser previous.email (expectation live previous.email)
      forgetProvisioned [previous.email]
      clearPendingRemoval [previous.email]
      return previous.email :: released

/-- The `clearPending` closure: a note is dropped once, and only if there is one. -/
def clearPending (stillPending : List String) (email : String) : AgentM (List String) :=
  if stillPending.contains email then do
    clearPendingRemoval [email]
    return stillPending.filter (· ≠ email)
  else return stillPending

/-- Install one enabled user, or uninstall one disabled user.  `liveNow` is the reading
without the released addresses. -/
def settleUser (deps : Deps) (live liveNow : List LiveUser) (ours : List String)
    (stillPending : List String) (user : DesiredUser) : AgentM (List String) :=
  if user.enabled then do
    write (Store.recordProvisionIntent user.bindingId user.email user.uuid)
    Adapter.ensureUser deps user (expectation liveNow user.email)
    write (Store.recordProvisioned user.bindingId user.email user.uuid)
    clearPending stillPending user.email
  else if (liveAt liveNow user.email).isSome && !ours.contains user.email &&
      !deps.adoptExistingAccounts then
    return stillPending
  else do
    Adapter.removeUser user.email (expectation live user.email)
    clearPending stillPending user.email

/-- Uninstall one live account that nobody wants, if it is ours. -/
def retireAccount (deps : Deps) (users : List DesiredUser) (ours : List String)
    (retired : List String) (account : LiveUser) : AgentM (List String) :=
  if users.any (·.email = account.email) then return retired
  else if ours.contains account.email || deps.removeUnknownUsers then do
    Adapter.removeUser account.email { uuid := account.uuid }
    return retired ++ [account.email]
  else return retired

/-- `Reconcile`, once the inbound is bound and the users are distinct. -/
def reconcileBound (deps : Deps) (users : List DesiredUser) : AgentM Unit := do
  let live ← Adapter.listUsers
  let recorded ← readStore Store.listDesiredUsers
  resolveIntents live
  let ours ← readStore (ownershipMap live)
  let pending ← readStore fun s => s.pendingRemovals.pairs.map Prod.fst
  users.forM (preflightUser deps live ours)
  let released ← users.foldlM (releaseRenamed live ours recorded) []
  let liveNow := live.filter fun account => !released.contains account.email
  transact (Store.applyDesiredUsers users)
  let stillPending ← users.foldlM (settleUser deps live liveNow ours) pending
  let removed ← live.foldlM (retireAccount deps users ours) []
  let gone := fun email => (liveAt live email).isNone
  let retired := removed ++ stillPending.filter gone ++
    ours.filter fun email => !users.any (·.email = email) && gone email
  clearPendingRemoval retired
  forgetProvisioned retired

/-- `Reconcile`. -/
def reconcile (deps : Deps) (users : List DesiredUser) : AgentM Unit := do
  let ready ← peek fun w => w.xray.inboundReady
  if !ready then ensure users.isEmpty .inboundUnbound
  else
    liftExcept (distinctBindings users)
    reconcileBound deps users

/-- The claims that a snapshot is about to drop, with their identities. -/
def droppedClaims (users : List DesiredUser) (s : Store) : List (String × String) :=
  s.listDesiredUsers.filterMap fun user =>
    if users.any (·.email = user.email) then none
    else (s.claimOn user.email).map fun claim => (user.email, claim.uuid)

/-- `rememberDroppedOwnership`. -/
def rememberDroppedOwnership (users : List DesiredUser) : AgentM Unit := do
  let dropped ← readStore (droppedClaims users)
  if dropped.isEmpty then return () else write (Store.recordPendingRemoval dropped)

/-- The Xray half of a snapshot: reconcile when the mode may write, and otherwise note
what the snapshot drops. -/
def reconcileOrRemember (deps : Deps) (mode : ControlMode) (users : List DesiredUser) :
    AgentM Unit :=
  if mode = .directPrimary then reconcile deps users else rememberDroppedOwnership users

/-- `ApplyConfigSnapshot` as an action.  It reports whether the snapshot was applied. -/
def storeSnapshot (snapshot : ConfigSnapshot) : AgentM Bool :=
  atomic .unavailable fun w => do
    let (applied, s) ← w.store.applyConfigSnapshot snapshot
    return (applied, { w with store := s })

/-! ## The command channel -/

/-- The users of a `RECONCILE_USERS`: its own list, or the stored one. -/
def reconcileUsers (command : Command) (current : ConfigSnapshot) :
    Except Failure (List DesiredUser) :=
  match command.payload.users with
  | .absent => .ok current.users
  | .notArray => .error .usersNotArray
  | .items payloads => parseDesiredUsers payloads command.targetRevision

/-- The mode a `RECONCILE_USERS` establishes: its own, or the stored one. -/
def reconcileMode (command : Command) (current : ConfigSnapshot) : Except Failure ControlMode :=
  match command.payload.controlMode with
  | .absent => .ok current.controlMode
  | .unknown => .error .unknownControlMode
  | .mode m => .ok m

/-- While a batch is unsettled, a user that this node cut off stays as it is stored. -/
def keepLocalCutoff (s : Store) (user : DesiredUser) : DesiredUser :=
  match s.userByBindingId user.bindingId with
  | none => user
  | some stored =>
    if stored.enabled then user
    else if s.offlineDisabled user.bindingId || stored.quotaRemainingBytes = some 0 then stored
    else user

/-- The users that a `RECONCILE_USERS` hands to the reconciliation, with its mode: every
check that precedes the first change. -/
def planReconcile (command : Command) (s : Store) :
    Except Failure (List DesiredUser × ControlMode) := do
  let current := s.configSnapshot
  if ← decimalLess command.targetRevision (some s.snapshotRev) then throw .staleReconcile
  let users ← reconcileUsers command current
  let mode ← reconcileMode command current
  if command.payload.users = .absent ∧ mode = .directPrimary ∧
      current.controlMode ≠ .directPrimary then throw .modeOnlyPromotion
  let users ← mergeNewerBindings users command.targetRevision s
  let users := if s.batches.isEmpty then users else users.map (keepLocalCutoff s)
  return (users, mode)

/-- `reconcileCommand`.  What `ApplyConfigSnapshot` reports is not looked at. -/
def reconcileCommand (deps : Deps) (command : Command) : AgentM Unit := do
  let plan ← readStore (planReconcile command)
  let (users, mode) ← liftExcept plan
  let nodeId ← readStore (·.nodeId)
  reconcileOrRemember deps mode users
  let _ ← storeSnapshot
    { nodeId, revision := command.targetRevision, controlMode := mode, users }

/-! ## The HTTP channel -/

/-- `PrepareSnapshot`.  The mode is a value of `ControlMode`, so the check that it is
known has nothing left to do. -/
def prepareSnapshot (snapshot : ConfigSnapshot) (s : Store) : Except Failure ConfigSnapshot := do
  Fallible.require (snapshot.nodeId = s.nodeId) .foreignNode
  let _ ← parseDecimal snapshot.revision
  distinctBindings snapshot.users
  Fallible.require (∀ user ∈ snapshot.users, user.flow = flowNone ∨ user.flow = flowVision) .badFlow
  let users ← mergeNewerBindings snapshot.users snapshot.revision s
  return { snapshot with users }

/-- `ApplySnapshot`. -/
def applySnapshot (deps : Deps) (snapshot : ConfigSnapshot) : AgentM Unit := do
  let prepared ← readStore (prepareSnapshot snapshot)
  let prepared ← liftExcept prepared
  let current ← readStore (·.configRevision)
  let older ← liftExcept (decimalLess prepared.revision (some current))
  if older then return ()
  else
    reconcileOrRemember deps prepared.controlMode prepared.users
    let _ ← storeSnapshot prepared

/-- `UninstallExhausted`. -/
def uninstallExhausted (emails : List String) : AgentM Unit :=
  if emails.isEmpty then return ()
  else do
    let live ← Adapter.listUsers
    let ours ← readStore (ownershipMap live)
    emails.forM fun email =>
      if ours.contains email then Adapter.removeUser email (expectation live email) else return ()

end ChordV.Agent.Processor
