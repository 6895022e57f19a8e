import ChordV.Agent.Ledger
import ChordV.Lib.Program

/-!
# Xray and its adapter

The inbound that the agent shares with the 3x-ui panel, the adapter of
`apps/agent/internal/xray` that talks to it, and the world an agent program runs in.

Xray keys its accounts by address.  The adapter re-reads the account list right before
a change and refuses a change that does not match what the caller observed.  The
`origin` of an account is history, not data of Xray: it says who put the account
there, the agent never reads it, and the statements about ownership use it.  The log
of the changes the agent made to Xray is history in the same sense.

Every call to Xray is an atomic action, so it may be refused, lose its answer, or be
preceded by the death of the process.
-/

namespace ChordV.Agent

open Lib

/-- Who put an account into the inbound. -/
inductive Origin where
  | agent
  | panel
  deriving DecidableEq, Repr

/-- A live account. -/
structure Account where
  uuid : String
  flow : String
  origin : Origin
  deriving DecidableEq, Repr

/-- A live account as `ListUsers` reports it. -/
structure LiveUser where
  email : String
  uuid : String
  flow : String
  deriving DecidableEq, Repr

/-- A change the agent made to Xray. -/
inductive XrayEvent where
  /-- An account was installed for a binding. -/
  | added (bindingId email uuid : String)
  /-- The account at an address was uninstalled. -/
  | removed (email : String) (account : Account)
  deriving DecidableEq, Repr

/-- The shared inbound. -/
structure Xray where
  accounts : Table String Account := ∅
  /-- The addresses of the other inbounds of the process. -/
  otherEmails : List String := []
  /-- `InboundReady`: the agent is bound to an inbound. -/
  inboundReady : Bool := true
  log : List XrayEvent := []

/-- The volatile fields of the runner.  `current` is its copy of the stored mode and
revision. -/
structure Runner where
  alive : Bool := true
  currentMode : ControlMode := .shadowDirect
  currentRevision : Nat := 0
  backendOnline : Bool := false
  xrayHealthy : Bool := false
  lastXrayStart : Option Int := none
  reconcilePending : Bool := false
  settlementEpoch : Nat := 0
  refreshPending : Bool := false
  deriving DecidableEq, Repr

/-- Everything an agent program reads and writes. -/
structure World where
  store : Store := {}
  xray : Xray := {}
  runner : Runner := {}

/-- The switches of one deployment, and the key Xray derives from an identity. -/
structure Deps where
  removeUnknownUsers : Bool := false
  adoptExistingAccounts : Bool := false
  /-- `vless.ProcessUUID`. -/
  processUUID : String → String := id
  restartTolerance : Int := 5

/-- A program of the agent. -/
abbrev AgentM := Prog Failure World

/-- A store transaction. -/
def transact (f : Store → Except Failure Store) : AgentM Unit :=
  atomic .unavailable fun w => (f w.store).map fun s => ((), { w with store := s })

/-- A store write that cannot be rejected. -/
def write (f : Store → Store) : AgentM Unit := transact fun s => .ok (f s)

/-- A read of the store. -/
def readStore {α : Type} (f : Store → α) : AgentM α := peek fun w => f w.store

/-! ## Letter case -/

/-- `strings.EqualFold`. -/
def equalFold (a b : String) : Bool :=
  a.toList.map Char.toLower = b.toList.map Char.toLower

theorem equalFold_refl (a : String) : equalFold a a = true := by simp [equalFold]

/-- One digit of a UUID, in either letter case. -/
def isHexDigit (c : Char) : Bool :=
  c.isDigit || ('a' ≤ c && c ≤ 'f') || ('A' ≤ c && c ≤ 'F')

/-- The text is a UUID of 36 characters. -/
def isUUID (value : String) : Bool :=
  value.toList.length = 36 && value.toList.zipIdx.all fun p =>
    if p.2 = 8 ∨ p.2 = 13 ∨ p.2 = 18 ∨ p.2 = 23 then p.1 = '-' else isHexDigit p.1

/-- `canonicalUUID` with the `String` of its result: the spelling Xray reports. -/
def canonicalUUID (value : String) : Option String :=
  if isUUID value then some (String.ofList (value.toList.map Char.toLower)) else none

theorem canonicalUUID_ne_empty {value id : String} (h : canonicalUUID value = some id) :
    id ≠ "" := by
  unfold canonicalUUID at h
  split at h
  · next hu =>
    rintro rfl
    have hlen : value.toList.length = 36 := by simp [isUUID] at hu; simpa using hu.1
    have hnil := congrArg (fun o => o.map fun s : String => s.toList.length) h
    simp [hlen] at hnil
  · cases h

/-! ## The inbound -/

/-- What the caller observed at an address.  An empty `uuid` refuses nothing. -/
structure Expectation where
  uuid : String := ""
  absent : Bool := false
  deriving DecidableEq, Repr

/-- The accounts of the inbound, ordered by address. -/
def Xray.liveUsers (x : Xray) : List LiveUser :=
  (x.accounts.pairs.map fun p => ({ email := p.1, uuid := p.2.uuid, flow := p.2.flow } : LiveUser))
    |>.insertionSort fun u v => u.email ≤ v.email

/-- The removal of one account, as the handler service performs it. -/
def Xray.remove (email : String) (x : Xray) : Xray :=
  match x.accounts.lookup email with
  | none => x
  | some account =>
    { x with accounts := x.accounts.erase email, log := x.log ++ [.removed email account] }

/-- The installation of one account, as the handler service performs it. -/
def Xray.add (user : DesiredUser) (uuid : String) (x : Xray) : Xray :=
  { x with
    accounts := x.accounts.insert user.email ⟨uuid, user.flow, .agent⟩
    log := x.log ++ [.added user.bindingId user.email uuid] }

/-! ## The adapter -/

namespace Adapter

/-- `ListUsers`. -/
def listUsers : AgentM (List LiveUser) :=
  atomic .unavailable fun w =>
    if w.xray.inboundReady then .ok (w.xray.liveUsers, w) else .error .inboundUnbound

/-- `observed`: the account at an address, if it is the one the caller expects. -/
def observed (email : String) (expect : Expectation) : AgentM (Option LiveUser) := do
  let users ← listUsers
  match users.find? fun user => equalFold email user.email with
  | none => return none
  | some user =>
    if email ≠ user.email then fail (.emailCase email)
    else if expect.absent || (expect.uuid ≠ "" && !equalFold expect.uuid user.uuid) then
      fail (.identityChanged email)
    else return some user

/-- A change of the inbound. -/
def alterInbound (f : Xray → Xray) : AgentM Unit :=
  atomic .unavailable fun w => .ok ((), { w with xray := f w.xray })

/-- `RemoveUser`. -/
def removeUser (email : String) (expect : Expectation) : AgentM Unit := do
  ensure (email ≠ "") (.missingField "email")
  match ← observed email expect with
  | none => return ()
  | some _ => alterInbound (Xray.remove email)

/-- `uniqueCounterEmails`: no other inbound has one of the addresses. -/
def uniqueCounterEmails (emails : List String) : AgentM Unit :=
  atomic .unavailable fun w =>
    match emails.find? fun email => email ≠ "" && w.xray.otherEmails.contains email with
    | some email => .error (.ambiguousCounter email)
    | none => .ok ((), w)

/-- `uniqueIdentity`: no other address has the identity. -/
def uniqueIdentity (deps : Deps) (email id : String) : AgentM Unit := do
  let users ← listUsers
  let others := users.filter (·.email ≠ email)
  ensure (others.all fun other => (canonicalUUID other.uuid).isSome) .badUuid
  ensure (others.all fun other => deps.processUUID other.uuid ≠ deps.processUUID id) .uuidTaken

/-- `EnsureUser`: install one account, or replace the one the caller observed. -/
def ensureUser (deps : Deps) (user : DesiredUser) (expect : Expectation) : AgentM Unit := do
  ensure (user.email ≠ "") (.missingField "email")
  match canonicalUUID user.uuid with
  | none => fail .badUuid
  | some id =>
    ensure (user.flow = flowNone || user.flow = flowVision) .badFlow
    uniqueCounterEmails [user.email]
    let existing ← observed user.email expect
    uniqueIdentity deps user.email id
    match existing with
    | some account =>
      if account.uuid = id && account.flow = user.flow then return ()
      else
        removeUser user.email { uuid := account.uuid }
        let _ ← observed user.email { absent := true }
        alterInbound (Xray.add user id)
    | none =>
      let _ ← observed user.email { absent := true }
      alterInbound (Xray.add user id)

/-- `ReadAbsoluteCounters`: `stats` is what the statistics service holds for an
address, and an address it does not know reads zero. -/
def readAbsoluteCounters (stats : String → Nat × Nat) : AgentM (List AbsoluteCounter) := do
  let users ← listUsers
  uniqueCounterEmails (users.map (·.email))
  return (users.filter (·.email ≠ "")).map fun user =>
    { email := user.email, uplinkBytes := (stats user.email).1
      downlinkBytes := (stats user.email).2 }

end Adapter

end ChordV.Agent
