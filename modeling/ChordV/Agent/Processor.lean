import ChordV.Agent.Xray

/-!
# The command processor

The functions of `apps/agent/internal/commands/processor.go`: reading a payload, the
staleness guards, ownership, `ensureUser`, `terminalUser`, `Reconcile`, the two
snapshot channels and `Execute`.

A reading of the account list is a value here, as it is in the source.  A function
that has one takes it as `live`.  A Go map that the source only looks up or ranges
over is a list or a predicate.  A range over a map has no order in Go, and no
statement here depends on the order of the list.
-/

namespace ChordV.Agent.Processor

open Lib

/-! ## Reading a payload -/

/-- The address a payload names: `email`, or `userKey` when that is empty. -/
def payloadEmail (payload : UserPayload) : String :=
  if payload.email ≠ "" then payload.email else payload.userKey

/-- `stringField`. -/
def stringField (value field : String) : Except Failure String :=
  if value = "" then .error (.missingField field) else .ok value

/-- `parseFlow`. -/
def parseFlow : FlowField → Except Failure String
  | .absent => .ok flowNone
  | .null => .ok flowNone
  | .text value =>
    if value = flowNone ∨ value = flowVision then .ok value else .error .badFlow
  | .other => .error .badFlow

/-- `parseDesiredUser`: an absent `enabled` means enabled. -/
def parseDesiredUser (payload : UserPayload) (revision : Decimal) : Except Failure DesiredUser := do
  let bindingId ← stringField payload.bindingId "bindingId"
  let email ← stringField (payloadEmail payload) "email"
  let uuid ← stringField payload.uuid "uuid"
  let flow ← parseFlow payload.flow
  return { bindingId, email, uuid, flow
           revision := payload.revision.getD revision
           enabled := payload.enabled.getD true
           quotaRemainingBytes := payload.quotaRemainingBytes.getD (some 0)
           offlineAllowanceBytes := payload.offlineAllowanceBytes }

/-- `validateUser`: everything the store will check, before anything is undone. -/
def validateUser (user : DesiredUser) : Except Failure Unit := do
  if user.bindingId = "" then throw (.incompleteUser user.bindingId "bindingId")
  if user.email = "" then throw (.incompleteUser user.bindingId "email")
  if user.uuid = "" then throw (.incompleteUser user.bindingId "uuid")
  let _ ← parseDecimal user.revision
  let _ ← parseDecimal user.quotaRemainingBytes
  match user.offlineAllowanceBytes with
  | none => return ()
  | some allowance => let _ ← parseDecimal allowance

/-- The loop of `distinctBindings`, with the users it has passed. -/
def distinctFrom (seen : List DesiredUser) : List DesiredUser → Except Failure Unit
  | [] => .ok ()
  | user :: rest => do
    validateUser user
    if seen.any (·.bindingId = user.bindingId) then throw (.duplicateBinding user.bindingId)
    if seen.any (·.email = user.email) then throw (.duplicateEmail user.email)
    distinctFrom (user :: seen) rest

/-- `distinctBindings`: no binding and no address twice. -/
def distinctBindings (users : List DesiredUser) : Except Failure Unit := distinctFrom [] users

/-- `parseDesiredUsers`. -/
def parseDesiredUsers (payloads : List (Option UserPayload)) (revision : Decimal) :
    Except Failure (List DesiredUser) := do
  let users ← payloads.mapM fun item =>
    match item with
    | none => .error .badUserPayload
    | some payload => parseDesiredUser payload revision
  distinctBindings users
  return users

/-! ## Staleness -/

/-- `findStored`: the binding id is the identity, and an address of another binding is
a conflict. -/
def findStored (payload : UserPayload) (s : Store) : Except Failure (Option DesiredUser) :=
  let bindingId := payload.bindingId
  let email := payloadEmail payload
  if bindingId = "" ∧ email = "" then .ok none
  else
    let users := s.listDesiredUsers
    let byBinding := users.find? fun user => bindingId ≠ "" && user.bindingId = bindingId
    let byEmail := users.find? fun user => email ≠ "" && user.email = email
    if bindingId = "" then .ok byEmail
    else match byEmail with
      | none => .ok byBinding
      | some other =>
        if other.bindingId ≠ bindingId then
          .error (.conflictingTarget bindingId email other.bindingId)
        else .ok byBinding

/-- The binding a command is about: the stored user's, or the one the payload names. -/
def targetBinding (payload : UserPayload) (stored : Option DesiredUser) : String :=
  match stored with
  | some user => user.bindingId
  | none => payload.bindingId

/-- The tombstone half of `supersededForBinding`: a floor at or above the revision.  A
floor of zero is the absence of a tombstone. -/
def tombstoneSupersedes (bindingId : String) (target : Decimal) (s : Store) :
    Except Failure Bool :=
  if bindingId = "" ∨ s.bindingTombstone bindingId = 0 then .ok false
  else (decimalLess (some (s.bindingTombstone bindingId)) target).map (! ·)

/-- `supersededForBinding`: the history of the binding alone. -/
def supersededForBinding (bindingId : String) (target : Decimal)
    (stored : Option DesiredUser) (s : Store) : Except Failure Bool := do
  if ← tombstoneSupersedes bindingId target s then return true
  match stored with
  | none => return false
  | some user =>
    if ← decimalLess target user.revision then return true
    return target = user.revision && !user.enabled

/-- `supersededBinding`: also measured against the last full snapshot. -/
def supersededBinding (bindingId : String) (target : Decimal)
    (stored : Option DesiredUser) (s : Store) : Except Failure Bool := do
  if ← decimalLess target (some s.snapshotRev) then return true
  supersededForBinding bindingId target stored s

/-- `staleTerminal`: the guards that mean a newer instruction has spoken. -/
def staleTerminal (bindingId : String) (target : Nat) (stored : Option DesiredUser)
    (s : Store) : Except Failure Bool := do
  if target < s.snapshotRev then return true
  if bindingId ≠ "" ∧ s.bindingTombstone bindingId ≠ 0 ∧
      target < s.bindingTombstone bindingId then return true
  match stored with
  | none => return false
  | some user => decimalLess (some target) user.revision

/-- `mergeNewerBindings` on one user of the snapshot. -/
def mergeUser (recorded : List DesiredUser) (s : Store) (user : DesiredUser) :
    Except Failure (Option DesiredUser) := do
  match recorded.find? (·.bindingId = user.bindingId) with
  | none =>
    if ← supersededForBinding user.bindingId user.revision none s then return none
    return some user
  | some existing =>
    if ← supersededForBinding user.bindingId user.revision (some existing) s then
      return some existing
    return some user

/-- `mergeNewerBindings`: a snapshot together with the stored state that is newer. -/
def mergeNewerBindings (users : List DesiredUser) (snapshotRevision : Decimal) (s : Store) :
    Except Failure (List DesiredUser) := do
  let recorded := s.listDesiredUsers
  let merged ← users.mapM (mergeUser recorded s)
  let omitted := recorded.filter fun user => !users.any (·.bindingId = user.bindingId)
  let kept ← omitted.filterM fun user => decimalLess snapshotRevision user.revision
  return merged.reduceOption ++ kept

/-! ## Ownership -/

/-- `claimStands`: whether a claim survives the account that lives at its address. -/
def claimStands (present : Option String) (claimed : List String) : Bool :=
  match present with
  | none => true
  | some uuid =>
    uuid = "" || claimed.any (fun candidate => candidate ≠ "" && candidate = uuid) ||
      claimed.all (· = "")

/-- The account that a reading shows at an address. -/
def liveAt (live : List LiveUser) (email : String) : Option LiveUser :=
  live.find? (·.email = email)

/-- `ownershipMap`: the addresses this agent owns, for a given reading. -/
def ownershipMap (live : List LiveUser) (s : Store) : List String :=
  ((s.provisionedAccounts.filter fun p =>
      claimStands ((liveAt live p.1).map (·.uuid)) [p.2.uuid, p.2.nextUuid]).map Prod.fst) ++
  ((s.pendingRemovals.pairs.filter fun p =>
      claimStands ((liveAt live p.1).map (·.uuid)) [p.2]).map Prod.fst)

/-- The identities that a claim, or else a pending note, accepts at an address. -/
def claimedIdentities (email : String) (s : Store) : Option (List String) :=
  match s.claimOn email with
  | some claim => some [claim.uuid, claim.nextUuid]
  | none => (s.pendingRemovals.lookup email).map ([·])

/-- `owns`. -/
def owns (email : String) : AgentM Bool := do
  match ← readStore (claimedIdentities email) with
  | none => return false
  | some candidates =>
    let live ← Adapter.listUsers
    return claimStands ((liveAt live email).map (·.uuid)) candidates

/-- `addressOwner`: the binding an address belongs to. -/
def addressOwner (email : String) (s : Store) : Option String :=
  match s.listDesiredUsers.find? (·.email = email) with
  | some user => some user.bindingId
  | none => (s.claimOn email).map (·.bindingId)

/-- One claim of `settleRotations`. -/
def settleClaim (live : List LiveUser) (p : String × Provisioned) : AgentM Unit :=
  match liveAt live p.1 with
  | none => return ()
  | some account =>
    if p.2.nextUuid = "" ∨ account.uuid = "" then return ()
    else if account.uuid = p.2.nextUuid then write (Store.settleRotation p.1 p.2.nextUuid)
    else if account.uuid = p.2.uuid then write (Store.settleRotation p.1 p.2.uuid)
    else return ()

/-- `settleRotations`. -/
def settleRotations (live : List LiveUser) : AgentM Unit := do
  let claims ← readStore Store.provisionedAccounts
  claims.forM (settleClaim live)

/-- One intent of `resolveIntents`: presence is not identity, so the uuid must match. -/
def resolveIntent (live : List LiveUser) (p : String × Provisioned) : AgentM Unit :=
  match liveAt live p.1 with
  | none => return ()
  | some account =>
    if account.uuid = "" ∨ p.2.uuid = "" ∨ account.uuid ≠ p.2.uuid then return ()
    else write (Store.recordProvisioned p.2.bindingId p.1 p.2.uuid)

/-- `ForgetProvisioned`, which does nothing for no addresses. -/
def forgetProvisioned (emails : List String) : AgentM Unit :=
  if emails.isEmpty then return () else write (Store.forgetProvisioned emails)

/-- `ClearPendingRemoval`, which does nothing for no addresses. -/
def clearPendingRemoval (emails : List String) : AgentM Unit :=
  if emails.isEmpty then return () else write (Store.clearPendingRemoval emails)

/-- `resolveIntents`: settle every rotation and every intent against a reading. -/
def resolveIntents (live : List LiveUser) : AgentM Unit := do
  settleRotations live
  let intents ← readStore Store.provisionIntents
  intents.forM (resolveIntent live)
  forgetProvisioned ((intents.filter fun p => (liveAt live p.1).isNone).map Prod.fst)

/-- `expectation` with an authoritative reading. -/
def expectation (live : List LiveUser) (email : String) : Expectation :=
  match liveAt live email with
  | some account => { uuid := account.uuid }
  | none => { absent := true }

/-- `expectation` without a reading: what the claim says, or nothing when the claim
cannot be read. -/
def claimedExpectation (email : String) : AgentM Expectation := do
  match ← attempt (atomic .unavailable fun w : World => .ok (w.store.claimOn email, w)) with
  | .ok (some claim) => return { uuid := claim.uuid }
  | _ => return {}

/-- `collision`: an address with a live account this agent has no record of. -/
def collision (deps : Deps) (user : DesiredUser) : AgentM Unit :=
  ensure deps.adoptExistingAccounts (.collision user.bindingId user.email)

/-- `preflightCollision`: what lives at the address the user is about to take. -/
def preflightCollision (deps : Deps) (user : DesiredUser) : AgentM Expectation := do
  let live ← Adapter.listUsers
  resolveIntents live
  let owned ← owns user.email
  match liveAt live user.email with
  | none => return { absent := true }
  | some account =>
    if !owned then collision deps user
    return { uuid := account.uuid }

end ChordV.Agent.Processor
