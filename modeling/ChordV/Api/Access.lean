import ChordV.Api.Runs
import ChordV.Api.Subscriptions

/-!
# Service for a user

Who gets a binding and who loses it: `connect` and the provisioning sync of
`apps/api/src/modules/common/runtime-session.service.ts`, and `updateUser` and
`deleteTeamMember` of `admin-subscription.service.ts` with the disconnects they queue.

* Eligibility is read in one statement and a binding is activated in another, and a disconnect
  looks the subscriptions up before it disables their bindings.  Each of these is a step of its
  own, and a `Task` holds what an operation has read so far.
* An account that is disabled and a member that is removed leave two tasks behind: the
  disconnect of the request and the one of the background follow-up.
* Every caller of the sync asks for `ensureOnly`, so its clean-up branches never run and are
  left out.  `queueDirectSubscriptionAccessSyncTx` is the sync without chunks.
* The locks that connects and syncs hold against each other are left out.  They only forbid
  some of the orders.
* `clientEmail` stands for `buildPanelClientEmail`.  Random ids come from a counter.
-/

namespace ChordV.Api.Access

open Lib Fallible
open Admin (Owner Team TeamMember Standing pickCurrentSubscription)

/-! ## The state -/

/-- The columns of a subscription that metering does not read. -/
structure Columns where
  owner : Owner
  createdAt : Nat := 0
  deriving DecidableEq, Repr

/-- What is read of a `User`. -/
structure Account where
  active : Bool := true
  email : String := ""
  deriving DecidableEq, Repr

/-- One row of `SubscriptionNodeAccess`. -/
structure NodeAccess where
  subscriptionId : String
  nodeId : String
  deriving DecidableEq, Repr

/-- Whose service ends. -/
inductive Revocation where
  | user (userId : String)
  | member (teamId : Nat) (userId : String)
  deriving DecidableEq, Repr

/-- The user whose access ends. -/
def Revocation.userId : Revocation → String
  | .user userId => userId
  | .member _ userId => userId

/-- An operation between two of its statements. -/
inductive Task where
  /-- A `connect` whose token was accepted. -/
  | connecting (userId nodeId : String)
  /-- A `connect` that found a subscription and is about to activate the binding. -/
  | activating (input : Activation)
  /-- A sync: the targets of the current chunk once they were checked again, and the rest. -/
  | provisioning (subscriptionId : String) (chunk : Option (List Activation))
      (rest : List Activation)
  /-- A disconnect before it looks the subscriptions up. -/
  | disconnecting (followUp : Bool) (revocation : Revocation)
  /-- A disconnect with the subscriptions that it still has to disable. -/
  | disabling (followUp : Bool) (revocation : Revocation) (subscriptionIds : List String)
  deriving DecidableEq, Repr

/-- The tables and what is under way. -/
structure Service where
  db : Database := {}
  accounts : Table String Account := ∅
  teams : Table Nat Team := ∅
  members : Table Nat TeamMember := ∅
  columns : Table String Columns := ∅
  accesses : List NodeAccess := []
  /-- The nodes that are active and whose onboarding is done. -/
  servable : List String := []
  tasks : Table Nat Task := ∅
  nextId : Nat := 0
  /-- What was revoked so far.  The source keeps no such record. -/
  revocations : List Revocation := []

namespace Service

/-! ## Subscriptions of an owner -/

/-- What `isEffective` reads of a subscription. -/
def standing (sub : Subscription) : Standing :=
  { state := sub.state, remainingTrafficGb := sub.remainingTrafficGb, expireAt := sub.expireAt }

/-- The owner columns of a subscription. -/
def ownerOf (s : Service) (subscriptionId : String) : Option Owner :=
  (s.columns.lookup subscriptionId).map (·.owner)

/-- The order in which subscriptions are listed: the last to expire first, then the newest. -/
def listedBefore (s : Service) (a b : String × Subscription) : Bool :=
  let created := fun id => ((s.columns.lookup id).map (·.createdAt)).getD 0
  decide (b.2.expireAt < a.2.expireAt) ||
    (a.2.expireAt = b.2.expireAt && decide (created b.1 ≤ created a.1))

/-- `findCurrentPersonalSubscription` and `findCurrentTeamSubscription`. -/
def currentSubscription (s : Service) (owner : Owner) : Option (String × Subscription) :=
  let rows := s.db.subscriptions.pairs.filter fun p => s.ownerOf p.1 = some owner
  pickCurrentSubscription (fun p => standing p.2) s.db.clock (rows.mergeSort s.listedBefore)

/-- The account exists and is active. -/
def isActiveUser (s : Service) (userId : String) : Bool :=
  (s.accounts.lookup userId).any (·.active)

/-- The user has a membership in the team. -/
def isMember (s : Service) (teamId : Nat) (userId : String) : Bool :=
  s.members.pairs.any fun p => p.2.teamId = teamId && p.2.userId = userId

/-- The team exists and is active. -/
def isActiveTeam (s : Service) (teamId : Nat) : Bool := (s.teams.lookup teamId).any (·.active)

/-- The user may use a subscription of the owner: it is the user's own, or that of a team of
the user. -/
def admits (s : Service) (owner : Owner) (userId : String) : Bool :=
  s.isActiveUser userId &&
    match owner with
    | .personal ownerId => ownerId = userId
    | .team teamId => s.isMember teamId userId

/-- `shouldProvisionPanelClients`. -/
def shouldProvision (s : Service) (owner : Owner) (sub : Subscription) : Bool :=
  (standing sub).effectiveState s.db.clock = .active &&
    match owner with
    | .personal userId => s.isActiveUser userId
    | .team teamId => s.isActiveTeam teamId

/-- The node is servable and granted to the subscription. -/
def hasAccess (s : Service) (subscriptionId nodeId : String) : Bool :=
  s.servable.contains nodeId && s.accesses.contains { subscriptionId, nodeId }

end Service

/-! ## Connects and syncs -/

section Operations

variable (clientEmail : String → String → String → String → String)

/-- The activation of a binding, with the ids of a number that is new. -/
def activation (s : Service) (number : Nat) (owner : Owner)
    (subscriptionId nodeId userId : String) : Activation :=
  { nodeId, subscriptionId, userId
    teamId := match owner with
      | .personal _ => none
      | .team teamId => some (toString teamId)
    email := clientEmail ((s.accounts.lookup userId).elim "" (·.email)) subscriptionId nodeId userId
    newBindingId := "panel_client_" ++ toString number
    newClientId := "client_" ++ toString number
    named := by simp }

namespace Service

/-- `resolveSubscriptionAccessForUser`: the subscription of the team of a member, or the
user's own. -/
def resolveSubscriptionAccess (s : Service) (userId : String) :
    Option (Owner × String × Subscription) :=
  let owner := match s.members.pairs.find? (·.2.userId = userId) with
    | some (_, member) => Owner.team member.teamId
    | none => .personal userId
  (s.currentSubscription owner).map fun p => (owner, p.1, p.2)

/-- The checks of a `connect` under its locks.  The account is looked at again for a personal
subscription only. -/
def connectable (s : Service) (owner : Owner) (subscriptionId nodeId : String)
    (sub : Subscription) : Bool :=
  (standing sub).effectiveState s.db.clock = .active && s.hasAccess subscriptionId nodeId &&
    match owner with
    | .personal userId => s.isActiveUser userId
    | .team teamId => s.isActiveTeam teamId

/-- The part of `connect` under its locks up to the activation. -/
def resolveConnect (s : Service) (userId nodeId : String) : Option Activation :=
  match s.resolveSubscriptionAccess userId with
  | none => none
  | some (owner, subscriptionId, sub) =>
    if s.connectable owner subscriptionId nodeId sub then
      some (activation clientEmail s s.nextId owner subscriptionId nodeId userId)
    else none

/-- The users that a sync provisions. -/
def targets (s : Service) (owner : Owner) : List String :=
  match owner with
  | .personal userId => if s.isActiveUser userId then [userId] else []
  | .team teamId => ((s.members.pairs.filter fun p =>
      p.2.teamId = teamId && s.isActiveUser p.2.userId).map (·.2.userId))

/-- The bindings of a subscription that a sync passes over: the active ones, if it was asked
to, and those whose disable has not settled. -/
def passedOver (s : Service) (subscriptionId : String) (skipActiveTargets : Bool)
    (nodeId userId : String) : Bool :=
  s.db.bindings.pairs.any fun p => p.2.subscriptionId = subscriptionId && p.2.nodeId = nodeId &&
    p.2.userId = some userId &&
    match p.2.status with
    | .active => skipActiveTargets
    | .disabled | .deleted =>
      (assertDirectTerminalWatermarksSettled p.1 p.2 s.db).toBool == false
    | .other _ => false

/-- The reads of `syncSubscriptionPanelAccessLocked`: the bindings that it will activate. -/
def planSync (s : Service) (subscriptionId : String) (skipActiveTargets : Bool) : List Activation :=
  match s.ownerOf subscriptionId, s.db.subscriptions.lookup subscriptionId with
  | some owner, some sub =>
    if s.shouldProvision owner sub then
      let nodeIds := (s.accesses.filter fun access => access.subscriptionId = subscriptionId &&
        s.servable.contains access.nodeId).map (·.nodeId)
      let pairs := (s.targets owner).flatMap fun userId => (nodeIds.filter fun nodeId =>
        !s.passedOver subscriptionId skipActiveTargets nodeId userId).map fun nodeId =>
          (userId, nodeId)
      pairs.zipIdx.map fun p =>
        activation clientEmail s (s.nextId + p.2) owner subscriptionId p.1.2 p.1.1
    else []
  | _, _ => []

end Service

end Operations

namespace Service

/-- The second look that the transaction of a chunk takes before it activates. -/
def recheck (s : Service) (subscriptionId : String) (chunk : List Activation) : List Activation :=
  match s.ownerOf subscriptionId, s.db.subscriptions.lookup subscriptionId with
  | some owner, some sub =>
    if s.shouldProvision owner sub then
      chunk.filter fun input => s.hasAccess subscriptionId input.nodeId &&
        s.admits owner input.userId
    else []
  | _, _ => []

/-- `queuePanelEnsureJobForBinding` outside a transaction: on a node without an agent the
revision is given out although no command is queued. -/
def queueByStatement (bindingId flow : String) (db : Database) : Database :=
  match queuePanelEnsureJob bindingId flow db, db.bindings.lookup bindingId with
  | .ok db', _ => db'
  | .error .noAgent, some binding =>
    match bumpRevision binding.nodeId db with
    | .ok (revision, db) =>
      let numbered := { binding with source := .direct, directRevision := revision }
      { db with bindings := db.bindings.insert bindingId numbered }
    | .error _ => db
  | .error _, _ => db

/-- `ensurePanelClientBinding` outside a transaction, as `connect` runs it: the binding is
active even if its command cannot be queued. -/
def ensureByStatement (input : Activation) (db : Database) : Database :=
  match db.nodes.lookup input.nodeId, findBinding input db with
  | none, _ => db
  | some node, some (bindingId, existing) =>
    if (assertSettledBefore bindingId existing db).toBool then
      queueByStatement bindingId node.flow (rebaseline existing
        { db with bindings := db.bindings.insert bindingId (input.revive existing) })
    else db
  | some node, none =>
    if db.bindings.lookup input.newBindingId = none then
      queueByStatement input.newBindingId node.flow
        (ensureTrafficSnapshotBaseline input.binding.snapshotKey 0 0 false
          { db with bindings := db.bindings.insert input.newBindingId input.binding })
    else db

/-- The activations of a chunk in one transaction. -/
def activateAll (chunk : List Activation) (db : Database) : Except ApiError Database :=
  chunk.foldlM (fun db input => (ensurePanelClientBinding input db).map Prod.snd) db

/-! ## Disconnects -/

/-- The subscriptions that a disconnect is for: `findCurrentSubscriptionIdsForUser`, or the
current one of the team. -/
def disconnected (s : Service) : Revocation → List String
  | .user userId =>
    ((s.currentSubscription (.personal userId)).map Prod.fst).toList ++
      (s.members.pairs.filter (·.2.userId = userId)).filterMap fun p =>
        (s.currentSubscription (.team p.2.teamId)).map Prod.fst
  | .member teamId _ => ((s.currentSubscription (.team teamId)).map Prod.fst).toList

end Service

/-- One statement of one operation, or one request to the rest of the control plane. -/
inductive ServiceStep where
  /-- `connect` accepts the token of a user. -/
  | authenticate (userId nodeId : String)
  /-- A sync reads what it has to provision. -/
  | sync (subscriptionId : String) (skipActiveTargets chunked : Bool)
  | updateUser (userId : String) (active : Bool)
  | deleteTeamMember (teamId memberId : Nat)
  /-- A running operation goes on.  A sync takes a chunk of a size, and a disconnect disables
  one of its subscriptions. -/
  | advance (taskId size : Nat) (subscriptionId : String)
  /-- The lookup of a disconnect takes longer than its budget. -/
  | lateLookup (taskId : Nat)
  /-- Agents, metering and sweeps. -/
  | request (step : Step)

namespace Service

variable (clientEmail : String → String → String → String → String)
  (payloadHash : UsageBatch → String)

/-- Start an operation. -/
def spawn (s : Service) (task : Task) : Service :=
  { s with tasks := s.tasks.insert s.nextId task, nextId := s.nextId + 1 }

/-- The task is over. -/
def endTask (s : Service) (taskId : Nat) : Service := { s with tasks := s.tasks.erase taskId }

/-- The task goes on. -/
def setTask (s : Service) (taskId : Nat) (task : Task) : Service :=
  { s with tasks := s.tasks.insert taskId task }

/-- Two disconnects follow a revocation. -/
def revoke (s : Service) (revocation : Revocation) : Service :=
  let s := { s with revocations := s.revocations ++ [revocation] }
  (s.spawn (.disconnecting false revocation)).spawn (.disconnecting true revocation)

/-- `updateUser` with a status: only a changed status has consequences. -/
def updateUser (s : Service) (userId : String) (active : Bool) : Service :=
  match s.accounts.lookup userId with
  | none => s
  | some account =>
    let saved := { s with accounts := s.accounts.insert userId { account with active } }
    if account.active && !active then saved.revoke (.user userId) else saved

/-- Takes a member out of the team and starts its disconnects. -/
def deleteTeamMember (s : Service) (teamId memberId : Nat) : Service :=
  match s.members.lookup memberId with
  | none => s
  | some member =>
    if member.teamId = teamId ∧ member.isOwner = false then
      { s with members := s.members.erase memberId }.revoke (.member teamId member.userId)
    else s

/-- The next statement of a task. -/
def advance (s : Service) (taskId : Nat) (size : Nat) (subscriptionId : String) : Task → Service
  | .connecting userId nodeId =>
    match s.resolveConnect clientEmail userId nodeId with
    | some input => { s with nextId := s.nextId + 1 }.setTask taskId (.activating input)
    | none => s.endTask taskId
  | .activating input => { s with db := ensureByStatement input s.db }.endTask taskId
  | .provisioning subscriptionId none rest =>
    s.setTask taskId (.provisioning subscriptionId
      (some (s.recheck subscriptionId (rest.take size))) (rest.drop size))
  | .provisioning subscriptionId (some chunk) rest =>
    match activateAll chunk s.db with
    | .error _ => s.endTask taskId
    | .ok db =>
      if rest = [] then { s with db }.endTask taskId
      else { s with db }.setTask taskId (.provisioning subscriptionId none rest)
  | .disconnecting followUp revocation =>
    s.setTask taskId (.disabling followUp revocation (s.disconnected revocation))
  | .disabling followUp revocation subscriptionIds =>
    if subscriptionId ∈ subscriptionIds then
      let db :=
        match queuePanelDisableJobs subscriptionId { userId := some revocation.userId } s.db with
        | .ok ((), db) => db
        | .error _ => s.db
      { s with db }.setTask taskId
        (.disabling followUp revocation (subscriptionIds.filter (· ≠ subscriptionId)))
    else if subscriptionIds = [] then s.endTask taskId
    else s

/-- `findTeamSubscriptionAfterLocalSaveBestEffort` out of time: the disconnect goes on without a
subscription. -/
def giveUpLookup (s : Service) (taskId : Nat) : Task → Service
  | .disconnecting followUp (.member teamId userId) =>
    s.setTask taskId (.disabling followUp (.member teamId userId) [])
  | _ => s

/-- One step of the service. -/
def step (s : Service) : ServiceStep → Service
  | .authenticate userId nodeId =>
    if s.isActiveUser userId ∧ s.servable.contains nodeId then s.spawn (.connecting userId nodeId)
    else s
  | .sync subscriptionId skipActiveTargets chunked =>
    let pairs := s.planSync clientEmail subscriptionId skipActiveTargets
    let s := { s with nextId := s.nextId + pairs.length }
    if pairs = [] then s
    else if chunked then s.spawn (.provisioning subscriptionId none pairs)
    else s.spawn (.provisioning subscriptionId (some pairs) [])
  | .updateUser userId active => s.updateUser userId active
  | .deleteTeamMember teamId memberId => s.deleteTeamMember teamId memberId
  | .advance taskId size subscriptionId =>
    match s.tasks.lookup taskId with
    | none => s
    | some task => s.advance clientEmail taskId size subscriptionId task
  | .lateLookup taskId =>
    match s.tasks.lookup taskId with
    | none => s
    | some task => s.giveUpLookup taskId task
  | .request step => { s with db := s.db.step payloadHash step }

/-- Any number of steps. -/
def run (s : Service) (steps : List ServiceStep) : Service :=
  steps.foldl (Service.step clientEmail payloadHash) s

end Service

end ChordV.Api.Access
