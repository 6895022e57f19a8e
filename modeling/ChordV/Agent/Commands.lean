import ChordV.Agent.Reconcile

/-!
# Executing a command

`ensureUser`, `terminalUser`, the dispatch of `apply` and the bookkeeping of
`Execute`.  A command that was completed before is answered from the store.  A failed
one is stored as failed and runs again when it is delivered again.
-/

namespace ChordV.Agent.Processor

open Lib

/-! ## Installing one user -/

/-- The flow of `resolveUser`: the stored one, unless the payload has the entry. -/
def resolveFlow (field : FlowField) (stored : String) : Except Failure String :=
  match field with
  | .absent => .ok stored
  | field => parseFlow field

/-- `resolveUser`: the fields of the command over the stored user. -/
def resolveUser (command : Command) (stored : Option DesiredUser) :
    Except Failure DesiredUser :=
  let payload := command.payload.toUserPayload
  match stored with
  | none => parseDesiredUser payload command.targetRevision
  | some user => do
    let flow ← resolveFlow payload.flow user.flow
    return { user with
      email := if payloadEmail payload ≠ "" then payloadEmail payload else user.email
      uuid := if payload.uuid ≠ "" then payload.uuid else user.uuid
      flow
      quotaRemainingBytes := payload.quotaRemainingBytes.getD user.quotaRemainingBytes
      offlineAllowanceBytes := payload.offlineAllowanceBytes <|> user.offlineAllowanceBytes }

/-- Every check of `ensureUser` that reads the store alone.  `none` is a command that a
newer instruction supersedes. -/
def planEnsure (command : Command) (s : Store) :
    Except Failure (Option (Option DesiredUser × DesiredUser)) := do
  let payload := command.payload.toUserPayload
  let stored ← findStored payload s
  if ← supersededBinding (targetBinding payload stored) command.targetRevision stored s then
    return none
  let user ← resolveUser command stored
  let user := { user with enabled := true, revision := command.targetRevision }
  validateUser user
  return some (stored, user)

/-- The rename of `ensureUser`: uninstall the account at the old address, if it is
ours. -/
def releaseStored (stored : Option DesiredUser) (user : DesiredUser) : AgentM Unit :=
  match stored with
  | none => return ()
  | some previous =>
    if previous.email = user.email then return ()
    else do
      if ← owns previous.email then
        let expect ← claimedExpectation previous.email
        Adapter.removeUser previous.email expect
        forgetProvisioned [previous.email]
        clearPendingRemoval [previous.email]
      else return ()

/-- The writing half of `ensureUser`: the store first, then Xray, then the claim. -/
def installUser (deps : Deps) (user : DesiredUser) (expect : Expectation) : AgentM Unit := do
  transact (Store.upsertDesiredUserTx user)
  write (Store.clearBindingTombstone user.bindingId)
  write (Store.recordProvisionIntent user.bindingId user.email user.uuid)
  Adapter.ensureUser deps user expect
  write (Store.recordProvisioned user.bindingId user.email user.uuid)
  clearPendingRemoval [user.email]

/-- `ensureUser` once its checks have passed. -/
def installOver (deps : Deps) (stored : Option DesiredUser) (user : DesiredUser) : AgentM Unit := do
  let expect ← preflightCollision deps user
  releaseStored stored user
  installUser deps user expect

/-- `ensureUser`. -/
def ensureUser (deps : Deps) (command : Command) : AgentM Unit := do
  let plan ← readStore (planEnsure command)
  match ← liftExcept plan with
  | none => return ()
  | some (stored, user) => installOver deps stored user

/-! ## Terminal commands -/

/-- What a terminal command has to do. -/
inductive TerminalPlan where
  /-- A newer instruction has spoken. -/
  | stale
  /-- The address has a new owner, so there is nothing to uninstall. -/
  | settled (bindingId : String)
  /-- Uninstall what is ours at an address. -/
  | uninstall (bindingId email : String)
  deriving DecidableEq, Repr

/-- The address a terminal command is about when no row is stored for it: the payload's,
or the one the tombstone remembers unless it has a new owner. -/
def rememberedTarget (payload : UserPayload) (bindingId : String) (s : Store) :
    Except Failure TerminalPlan :=
  let email := payloadEmail payload
  if email ≠ "" then .ok (.uninstall bindingId email)
  else
    let remembered := if bindingId = "" then "" else s.tombstonedEmail bindingId
    if remembered = "" then .error .noTerminalTarget
    else match addressOwner remembered s with
      | none => .ok (.uninstall bindingId remembered)
      | some owner =>
        if owner ≠ "" ∧ owner ≠ bindingId then .ok (.settled bindingId)
        else .ok (.uninstall bindingId remembered)

/-- Every check of `terminalUser` that reads the store alone. -/
def planTerminal (payload : UserPayload) (target : Nat) (s : Store) :
    Except Failure TerminalPlan := do
  let stored ← findStored payload s
  let bindingId := targetBinding payload stored
  if ← staleTerminal bindingId target stored s then return .stale
  match stored with
  | some user => return .uninstall bindingId user.email
  | none => rememberedTarget payload bindingId s

/-- The uninstall of `terminalUser`: never an account this agent did not install. -/
def uninstallOwned (deps : Deps) (email : String) : AgentM Unit := do
  let live ← Adapter.listUsers
  resolveIntents live
  let owned ← owns email
  if !owned && !deps.adoptExistingAccounts && (liveAt live email).isSome then return ()
  else Adapter.removeUser email (expectation live email)

/-- `ApplyTerminal`, which a command without a binding does not reach. -/
def retireBinding (bindingId : String) (target : Nat) (email : String) (remove : Bool) :
    AgentM Unit :=
  if bindingId = "" then return ()
  else transact (Store.applyTerminal bindingId target email remove)

/-- `terminalUser`. -/
def terminalUser (deps : Deps) (payload : UserPayload) (target : Nat) (remove : Bool) :
    AgentM Unit := do
  let plan ← readStore (planTerminal payload target)
  match ← liftExcept plan with
  | .stale => return ()
  | .settled bindingId => transact (Store.applyTerminal bindingId target "" remove)
  | .uninstall bindingId email =>
    uninstallOwned deps email
    if remove then
      forgetProvisioned [email]
      clearPendingRemoval [email]
    retireBinding bindingId target email remove

/-! ## Dispatch -/

/-- `REFRESH_QUOTA`. -/
def refreshQuota (payload : UserPayload) (target : Nat) : AgentM Unit := do
  let bindingId ← liftExcept (stringField payload.bindingId "bindingId")
  match payload.quotaRemainingBytes with
  | none => fail (.missingField "quotaRemainingBytes")
  | some quota =>
    let quota ← liftExcept (parseDecimal quota)
    write (Store.updateQuota bindingId quota target)

/-- `ValidatePanel`: the environment decides, and nothing the agent stores changes. -/
def validatePanel : AgentM Unit := atomic .unavailable fun w => .ok ((), w)

/-- `apply`.  `target` is the parsed target revision. -/
def apply (deps : Deps) (command : Command) (target : Nat) (writable : Bool) : AgentM Unit := do
  let payload := command.payload.toUserPayload
  let panelValidation := command.type = .ensureInbound && command.payload.validatePanel
  let ready ← peek fun w => w.xray.inboundReady
  ensure (ready || panelValidation) .inboundUnbound
  ensure (writable || panelValidation || command.type = .refreshQuota ||
    command.type = .reconcileUsers) .notWritable
  match command.type with
  | .ensureUser => ensureUser deps command
  | .enableUser => ensureUser deps command
  | .disableUser => terminalUser deps payload target false
  | .removeUser => terminalUser deps payload target true
  | .reconcileUsers => reconcileCommand deps command
  | .refreshQuota => refreshQuota payload target
  | .ensureInbound => if panelValidation then validatePanel else fail .unsupportedInbound
  | .other name => fail (.unknownCommand name)

/-- The end of `Execute`: what a completed command reports. -/
def completion (command : Command) (target : Nat) : AgentM Outcome := do
  write (Store.advanceConfigRevision target)
  let watermarks ← readStore Store.pendingBatchWatermarks
  return .completed target (if command.type.isTerminal then some watermarks else none)

/-- What a command reports, given how it went. -/
def outcomeOf (command : Command) (target : Nat) : Except Failure Unit → AgentM Outcome
  | .ok () => completion command target
  | .error e => return .failed e

/-- `Execute` for a command that is not completed yet. -/
def runCommand (deps : Deps) (command : Command) (target : Nat) (writable : Bool) :
    AgentM Outcome := do
  write (Store.beginCommand command.commandId)
  let applied ← attempt (apply deps command target writable)
  let outcome ← outcomeOf command target applied
  write (Store.completeCommand command.commandId outcome)
  return outcome

/-- `Execute`. -/
def execute (deps : Deps) (command : Command) (writable : Bool) : AgentM Outcome := do
  let target ← liftExcept (parseDecimal command.targetRevision)
  let previous ← readStore (·.completedCommand command.commandId)
  match previous with
  | some outcome => return outcome
  | none => runCommand deps command target writable

/-- `ReconfiguresUser`: the command changes what an enabled user is installed as. -/
def reconfiguresUser (command : Command) (s : Store) : Except Failure Bool :=
  if command.type = .ensureUser ∨ command.type = .enableUser then do
    match ← findStored command.payload.toUserPayload s with
    | none => return false
    | some stored =>
      if !stored.enabled then return false
      let next ← resolveUser command (some stored)
      return next.email ≠ stored.email || next.uuid ≠ stored.uuid || next.flow ≠ stored.flow
  else .ok false

end ChordV.Agent.Processor
