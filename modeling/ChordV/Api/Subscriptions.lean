import ChordV.Api.Model

/-!
# Subscriptions and their owners

The operations of `apps/api/src/modules/common/admin-subscription.service.ts` that create,
renew, change and convert subscriptions and that add and remove the members of a team.

* An operation reads and checks under its locks, and it writes in a transaction of its own.
  What other operations do in between is the matter here, so an operation is two steps:
  `Registry.check` decides what will be written, and `Registry.write` writes it.
* `createSubscription`, `createTeam`, `createTeamMember`, the conversion and the transfer of a
  team hold the owner lock of the user, a team subscription that of the team.  Renewals, plan
  changes, corrections and traffic resets hold the usage lock of their subscription.
* A subscription belongs to a user or to a team.  Rows that the source names by a random id
  take theirs from a counter.
* What the operations do to bindings, leases and support tickets is left out here, and so are
  the names of teams.
-/

namespace ChordV.Api.Admin

open Lib Fallible

/-! ## Rows -/

/-- The owner of a subscription, which is also the key of an owner lock. -/
inductive Owner where
  | personal (userId : String)
  | team (teamId : Nat)
  deriving DecidableEq, Repr

/-- What is read of a `User`. -/
structure User where
  active : Bool := true
  deriving DecidableEq, Repr

/-- What is read of a `Team`. -/
structure Team where
  ownerUserId : String
  active : Bool := true
  deriving DecidableEq, Repr

/-- A row of `TeamMember`. -/
structure TeamMember where
  teamId : Nat
  userId : String
  isOwner : Bool := false
  deriving DecidableEq, Repr

/-- `PlanScope`. -/
inductive PlanScope where
  | personal
  | team
  deriving DecidableEq, Repr

/-- The plans that `assertPlanScopeMatchesSubscription` admits. -/
def Owner.planScope : Owner → PlanScope
  | .personal _ => .personal
  | .team _ => .team

/-- What is read of a `Plan`. -/
structure Plan where
  isActive : Bool := true
  scope : PlanScope
  totalTrafficGb : Rat
  deriving DecidableEq, Repr

/-- What is read of a `Subscription`. -/
structure Subscription where
  owner : Owner
  planId : String
  totalTrafficGb : Rat
  usedTrafficGb : Rat
  remainingTrafficGb : Rat
  expireAt : Nat
  createdAt : Nat
  state : SubscriptionState
  deriving DecidableEq, Repr

/-! ## Effective subscriptions -/

/-- `resolveSubscriptionState`, at a time. -/
def resolveSubscriptionState (preferred : SubscriptionState) (remainingTrafficGb : Rat)
    (expireAt now : Nat) : SubscriptionState :=
  match preferred with
  | .paused => .paused
  | .expired => .expired
  | .exhausted => .exhausted
  | .active =>
    if expireAt ≤ now then .expired
    else if remainingTrafficGb ≤ 0 then .exhausted
    else .active

/-- What tells whether a subscription is effective. -/
structure Standing where
  state : SubscriptionState
  remainingTrafficGb : Rat
  expireAt : Nat
  deriving DecidableEq, Repr

/-- `readEffectiveSubscriptionState`. -/
def Standing.effectiveState (standing : Standing) (now : Nat) : SubscriptionState :=
  resolveSubscriptionState standing.state standing.remainingTrafficGb standing.expireAt now

/-- `isEffectiveSubscription`. -/
def Standing.isEffective (standing : Standing) (now : Nat) : Bool :=
  standing.effectiveState now = .active || standing.effectiveState now = .paused

/-- `pickCurrentSubscription`. -/
def pickCurrentSubscription {α : Type} (standing : α → Standing) (now : Nat) (rows : List α) :
    Option α :=
  rows.find? (fun row => (standing row).effectiveState now = .active) <|>
    rows.find? (fun row => (standing row).effectiveState now = .paused) <|>
    (rows.mergeSort fun a b => decide ((standing b).expireAt ≤ (standing a).expireAt)).head?

/-- What `isEffective` reads of it. -/
def Subscription.standing (sub : Subscription) : Standing :=
  { state := sub.state, remainingTrafficGb := sub.remainingTrafficGb, expireAt := sub.expireAt }

/-- The subscription can be used now. -/
def Subscription.isEffective (sub : Subscription) (now : Nat) : Bool := sub.standing.isEffective now

/-- The order in which subscriptions are listed: the last to expire first, then the newest. -/
def Subscription.listedBefore (a b : Subscription) : Bool :=
  decide (b.expireAt < a.expireAt) ||
    (a.expireAt = b.expireAt && decide (b.createdAt ≤ a.createdAt))

/-! ## Operations between their check and their write -/

/-- What a renewal, a plan change, a correction or a reset writes. -/
structure SubscriptionChange where
  planId : Option String := none
  totalTrafficGb : Rat
  usedTrafficGb : Option Rat := none
  remainingTrafficGb : Rat
  expireAt : Nat
  state : SubscriptionState
  deriving DecidableEq, Repr

/-- The row after the change. -/
def SubscriptionChange.apply (change : SubscriptionChange) (sub : Subscription) : Subscription :=
  { sub with
    planId := change.planId.getD sub.planId
    totalTrafficGb := change.totalTrafficGb
    usedTrafficGb := change.usedTrafficGb.getD sub.usedTrafficGb
    remainingTrafficGb := change.remainingTrafficGb
    expireAt := change.expireAt
    state := change.state }

/-- An operation that has checked and not yet written. -/
inductive Operation where
  /-- `createSubscription` and `createTeamSubscription`. -/
  | createSubscription (row : Subscription)
  | createTeam (ownerUserId : String) (active : Bool)
  | createTeamMember (teamId : Nat) (userId : String)
  | convertPersonalSubscriptionToTeam (subscriptionId teamId : Nat) (userId : String)
  /-- `transfers` says whether the request named a new owner. -/
  | updateTeam (teamId : Nat) (ownerUserId : Option String) (transfers : Bool)
      (active : Option Bool)
  | deleteTeamMember (memberId : Nat)
  /-- `renewSubscription`, `changeSubscriptionPlan`, `updateSubscription` and the traffic
  resets. -/
  | saveSubscription (subscriptionId : Nat) (change : SubscriptionChange)
  deriving DecidableEq, Repr

/-- The advisory locks: `runWithSubscriptionOwnerLock` and `runWithSubscriptionUsageLock`. -/
inductive Lock where
  | owner (owner : Owner)
  | usage (subscriptionId : Nat)
  deriving DecidableEq, Repr

/-- The locks that an operation holds from its check to its write. -/
def Operation.locks : Operation → List Lock
  | .createSubscription row => [.owner row.owner]
  | .createTeam ownerUserId _ => [.owner (.personal ownerUserId)]
  | .createTeamMember _ userId => [.owner (.personal userId)]
  | .convertPersonalSubscriptionToTeam _ _ userId => [.owner (.personal userId)]
  | .updateTeam teamId (some ownerUserId) _ _ =>
    [.owner (.team teamId), .owner (.personal ownerUserId)]
  | .updateTeam _ none _ _ => []
  | .deleteTeamMember _ => []
  | .saveSubscription subscriptionId _ => [.usage subscriptionId]

/-! ## The state -/

/-- The tables, the clock and the operations under way. -/
structure Registry where
  clock : Nat := 0
  users : Table String User := ∅
  plans : Table String Plan := ∅
  teams : Table Nat Team := ∅
  members : Table Nat TeamMember := ∅
  subscriptions : Table Nat Subscription := ∅
  /-- The operations that are between their check and their write. -/
  running : Table Nat Operation := ∅
  nextId : Nat := 0

/-- Why a request is refused. -/
inductive AdminError where
  | userMissing
  | userDisabled
  | alreadyMember
  | notMember
  | alreadyEffective
  | personalEffective
  | noTeamSubscription
  | planMissing
  | planInactive
  | planScope
  | subscriptionMissing
  | notPersonal
  | wrongUser
  | teamMissing
  | teamDisabled
  | teamResetNeedsMember
  | memberMissing
  | wrongTeam
  | ownerRole
  | uniqueViolation
  deriving DecidableEq, Repr

namespace Registry

/-- Find a row by its key, or refuse. -/
def get {κ α : Type} [DecidableEq κ] (table : Table κ α) (key : κ) (missing : AdminError) :
    Except AdminError α :=
  match table.lookup key with
  | some row => .ok row
  | none => .error missing

/-- `getUserMembership`. -/
def membership (s : Registry) (userId : String) : Option (Nat × TeamMember) :=
  s.members.pairs.find? (·.2.userId = userId)

/-- `findCurrentPersonalSubscription` and `findCurrentTeamSubscription`. -/
def currentSubscription (s : Registry) (owner : Owner) : Option Subscription :=
  let rows := (s.subscriptions.pairs.map Prod.snd).filter (·.owner = owner)
  pickCurrentSubscription Subscription.standing s.clock (rows.mergeSort Subscription.listedBefore)

/-- The current subscription of an owner is effective. -/
def hasEffective (s : Registry) (owner : Owner) : Bool :=
  (s.currentSubscription owner).any (·.isEffective s.clock)

/-- `assertUserCanJoinTeam`. -/
def assertUserCanJoinTeam (s : Registry) (userId : String) : Except AdminError Unit := do
  let user ← get s.users userId .userMissing
  require (user.active = true) .userDisabled
  require (s.membership userId = none) .alreadyMember
  require (s.hasEffective (.personal userId) = false) .personalEffective

/-- The row of a new subscription. -/
def newSubscription (s : Registry) (owner : Owner) (planId : String) (plan : Plan)
    (totalTrafficGb usedTrafficGb : Option Rat) (expireAt : Nat) (state : SubscriptionState) :
    Subscription :=
  let total := totalTrafficGb.getD plan.totalTrafficGb
  let used := usedTrafficGb.getD 0
  let remaining := max 0 (total - used)
  { owner, planId, totalTrafficGb := total, usedTrafficGb := used, remainingTrafficGb := remaining
    expireAt, createdAt := s.clock
    state := resolveSubscriptionState state remaining expireAt s.clock }

end Registry

/-! ## Requests -/

/-- A request of an administrator. -/
inductive AdminRequest where
  | createSubscription (userId planId : String) (totalTrafficGb usedTrafficGb : Option Rat)
      (expireAt : Nat) (state : Option SubscriptionState)
  | createTeamSubscription (teamId : Nat) (planId : String)
      (totalTrafficGb usedTrafficGb : Option Rat) (expireAt : Nat)
  | renewSubscription (subscriptionId : Nat) (expireAt : Option Nat) (totalTrafficGb : Option Rat)
  /-- `renewSubscription` with `resetTraffic`. -/
  | renewWithReset (subscriptionId : Nat) (expireAt : Option Nat) (totalTrafficGb : Option Rat)
  | changeSubscriptionPlan (subscriptionId : Nat) (planId : String) (expireAt : Option Nat)
      (totalTrafficGb : Option Rat)
  | updateSubscription (subscriptionId : Nat) (totalTrafficGb usedTrafficGb : Option Rat)
      (expireAt : Option Nat) (state : Option SubscriptionState)
  /-- `ledgerGb` is what the ledger of the team shows after the rows of the member are gone. -/
  | resetSubscriptionTraffic (subscriptionId : Nat) (userId : Option String) (ledgerGb : Rat)
  | convertPersonalSubscriptionToTeam (subscriptionId targetTeamId : Nat)
  | createTeam (ownerUserId : String) (active : Option Bool)
  | updateTeam (teamId : Nat) (ownerUserId : Option String) (active : Option Bool)
  | createTeamMember (teamId : Nat) (userId : String) (isOwner : Bool)
  | deleteTeamMember (teamId memberId : Nat)
  deriving DecidableEq, Repr

namespace Registry

/-- The change of a traffic reset.  A personal subscription and a whole team start again at
zero, a member of a team leaves what the other members used. -/
def resetChange (s : Registry) (sub : Subscription) (userId : Option String) (ledgerGb : Rat)
    (totalTrafficGb : Option Rat) (expireAt : Option Nat) (state : Option SubscriptionState) :
    SubscriptionChange :=
  let total := totalTrafficGb.getD sub.totalTrafficGb
  let used := match sub.owner, userId with
    | .team _, some _ => ledgerGb
    | _, _ => 0
  let remaining := max 0 (total - used)
  let expireAt := expireAt.getD sub.expireAt
  let preferred := state.getD (if sub.state = .paused then .paused else .active)
  { totalTrafficGb := total, usedTrafficGb := some used, remainingTrafficGb := remaining, expireAt
    state := resolveSubscriptionState preferred remaining expireAt s.clock }

/-- Whom a traffic reset is for. -/
def requireResetTarget (s : Registry) (sub : Subscription) (userId : Option String)
    (allowTeamWideReset : Bool) : Except AdminError Unit :=
  match sub.owner, userId with
  | .team teamId, some userId =>
    require (s.members.pairs.any fun p => p.2.teamId = teamId && p.2.userId = userId) .notMember
  | .team _, none => require (allowTeamWideReset = true) .teamResetNeedsMember
  | .personal owner, some userId => require (userId = owner) .wrongUser
  | .personal _, none => .ok ()

/-- The part of a request that runs under its locks and before its write: the reads and the
checks, and what is to be written. -/
def check (s : Registry) : AdminRequest → Except AdminError Operation
  | .createSubscription userId planId totalTrafficGb usedTrafficGb expireAt state => do
    let user ← get s.users userId .userMissing
    require (user.active = true) .userDisabled
    require (s.membership userId = none) .alreadyMember
    require (s.hasEffective (.personal userId) = false) .alreadyEffective
    let plan ← get s.plans planId .planMissing
    require (plan.isActive = true) .planInactive
    require (plan.scope = .personal) .planScope
    return .createSubscription (s.newSubscription (.personal userId) planId plan totalTrafficGb
      usedTrafficGb expireAt (state.getD .active))
  | .createTeamSubscription teamId planId totalTrafficGb usedTrafficGb expireAt => do
    let team ← get s.teams teamId .teamMissing
    require (team.active = true) .teamDisabled
    require (s.hasEffective (.team teamId) = false) .alreadyEffective
    let plan ← get s.plans planId .planMissing
    require (plan.isActive = true) .planInactive
    require (plan.scope = .team) .planScope
    return .createSubscription (s.newSubscription (.team teamId) planId plan totalTrafficGb
      usedTrafficGb expireAt .active)
  | .renewSubscription subscriptionId expireAt totalTrafficGb => do
    let sub ← get s.subscriptions subscriptionId .subscriptionMissing
    let expireAt := expireAt.getD sub.expireAt
    let total := totalTrafficGb.getD sub.totalTrafficGb
    let remaining := max 0 (total - sub.usedTrafficGb)
    return .saveSubscription subscriptionId {
      totalTrafficGb := total, remainingTrafficGb := remaining, expireAt
      state := resolveSubscriptionState .active remaining expireAt s.clock }
  | .renewWithReset subscriptionId expireAt totalTrafficGb => do
    let sub ← get s.subscriptions subscriptionId .subscriptionMissing
    s.requireResetTarget sub none true
    return .saveSubscription subscriptionId
      (s.resetChange sub none 0 totalTrafficGb expireAt (some .active))
  | .changeSubscriptionPlan subscriptionId planId expireAt totalTrafficGb => do
    let plan ← get s.plans planId .planMissing
    require (plan.isActive = true) .planInactive
    let sub ← get s.subscriptions subscriptionId .subscriptionMissing
    require (plan.scope = sub.owner.planScope) .planScope
    let expireAt := expireAt.getD sub.expireAt
    let total := totalTrafficGb.getD plan.totalTrafficGb
    let remaining := max 0 (total - sub.usedTrafficGb)
    return .saveSubscription subscriptionId {
      planId := some planId, totalTrafficGb := total, remainingTrafficGb := remaining, expireAt
      state := resolveSubscriptionState .active remaining expireAt s.clock }
  | .updateSubscription subscriptionId totalTrafficGb usedTrafficGb expireAt state => do
    let sub ← get s.subscriptions subscriptionId .subscriptionMissing
    let total := totalTrafficGb.getD sub.totalTrafficGb
    let used := usedTrafficGb.getD sub.usedTrafficGb
    let expireAt := expireAt.getD sub.expireAt
    let remaining := max 0 (total - used)
    return .saveSubscription subscriptionId {
      totalTrafficGb := total, usedTrafficGb := some used, remainingTrafficGb := remaining, expireAt
      state := resolveSubscriptionState (state.getD sub.state) remaining expireAt s.clock }
  | .resetSubscriptionTraffic subscriptionId userId ledgerGb => do
    let sub ← get s.subscriptions subscriptionId .subscriptionMissing
    s.requireResetTarget sub userId false
    return .saveSubscription subscriptionId (s.resetChange sub userId ledgerGb none none none)
  | .convertPersonalSubscriptionToTeam subscriptionId targetTeamId => do
    let sub ← get s.subscriptions subscriptionId .subscriptionMissing
    match sub.owner with
    | .team _ => throw .notPersonal
    | .personal userId =>
      let user ← get s.users userId .userMissing
      require (user.active = true) .userDisabled
      let team ← get s.teams targetTeamId .teamMissing
      require (team.active = true) .teamDisabled
      require (s.membership userId = none) .alreadyMember
      require (s.hasEffective (.team targetTeamId) = true) .noTeamSubscription
      return .convertPersonalSubscriptionToTeam subscriptionId targetTeamId userId
  | .createTeam ownerUserId active => do
    let user ← get s.users ownerUserId .userMissing
    require (user.active = true) .userDisabled
    s.assertUserCanJoinTeam ownerUserId
    return .createTeam ownerUserId (active.getD true)
  | .updateTeam teamId ownerUserId active => do
    let team ← get s.teams teamId .teamMissing
    match ownerUserId with
    | none => return .updateTeam teamId none false active
    | some nextOwner =>
      if nextOwner = team.ownerUserId then return .updateTeam teamId (some nextOwner) false active
      else
        let user ← get s.users nextOwner .userMissing
        require (user.active = true) .userDisabled
        require ((s.membership nextOwner).any (·.2.teamId = teamId)) .notMember
        require (s.hasEffective (.personal nextOwner) = false) .personalEffective
        return .updateTeam teamId (some nextOwner) true active
  | .createTeamMember teamId userId isOwner => do
    let _ ← get s.teams teamId .teamMissing
    require (isOwner = false) .ownerRole
    s.assertUserCanJoinTeam userId
    return .createTeamMember teamId userId
  | .deleteTeamMember teamId memberId => do
    let member ← get s.members memberId .memberMissing
    require (member.teamId = teamId) .wrongTeam
    require (member.isOwner = false) .ownerRole
    return .deleteTeamMember memberId

/-! ## Writes -/

/-- Insert a member.  `TeamMember.userId` is unique. -/
def addMember (s : Registry) (member : TeamMember) : Except AdminError Registry := do
  require (s.membership member.userId = none) .uniqueViolation
  return { s with members := s.members.insert s.nextId member, nextId := s.nextId + 1 }

/-- The roles of a team after its transfer to a member. -/
def transferRoles (s : Registry) (teamId ownerMemberId : Nat) : Registry :=
  let demote := fun (members : Table Nat TeamMember) (p : Nat × TeamMember) =>
    if p.2.teamId = teamId ∧ p.2.isOwner then members.insert p.1 { p.2 with isOwner := false }
    else members
  let members := s.members.pairs.foldl demote s.members
  { s with members := members.modify ownerMemberId fun m => { m with isOwner := true } }

/-- Save the name, the status and the owner of a team. -/
def saveTeam (s : Registry) (teamId : Nat) (ownerUserId : Option String) (active : Option Bool) :
    Except AdminError Registry := do
  let team ← get s.teams teamId .teamMissing
  let saved := { team with
    ownerUserId := ownerUserId.getD team.ownerUserId, active := active.getD team.active }
  return { s with teams := s.teams.insert teamId saved }

/-- The transaction of an operation. -/
def write (s : Registry) : Operation → Except AdminError Registry
  | .createSubscription row =>
    return { s with subscriptions := s.subscriptions.insert s.nextId row, nextId := s.nextId + 1 }
  | .createTeam ownerUserId active => do
    let teamId := s.nextId
    let s := { s with teams := s.teams.insert teamId { ownerUserId, active }, nextId := teamId + 1 }
    s.addMember { teamId, userId := ownerUserId, isOwner := true }
  | .createTeamMember teamId userId => s.addMember { teamId, userId }
  | .convertPersonalSubscriptionToTeam subscriptionId teamId userId => do
    let s ← s.addMember { teamId, userId }
    let sub ← get s.subscriptions subscriptionId .subscriptionMissing
    let ended := { sub with state := .expired, expireAt := s.clock, remainingTrafficGb := 0 }
    return { s with subscriptions := s.subscriptions.insert subscriptionId ended }
  | .updateTeam teamId ownerUserId transfers active =>
    match ownerUserId, transfers with
    | some nextOwner, true =>
      match s.membership nextOwner with
      | none => throw .notMember
      | some (memberId, member) => do
        require (member.teamId = teamId) .notMember
        (s.transferRoles teamId memberId).saveTeam teamId (some nextOwner) active
    | _, _ => s.saveTeam teamId none active
  | .deleteTeamMember memberId => do
    let _ ← get s.members memberId .memberMissing
    return { s with members := s.members.erase memberId }
  | .saveSubscription subscriptionId change => do
    let sub ← get s.subscriptions subscriptionId .subscriptionMissing
    return { s with subscriptions := s.subscriptions.insert subscriptionId (change.apply sub) }

/-! ## Runs -/

/-- No running operation holds one of the locks. -/
def locksFree (s : Registry) (locks : List Lock) : Bool :=
  s.running.pairs.all fun p => p.2.locks.all fun lock => !locks.contains lock

end Registry

/-- One step of a run. -/
inductive AdminStep where
  /-- A request gets its locks and passes its checks, or it is refused. -/
  | start (request : AdminRequest)
  /-- A running operation runs its transaction and gives its locks back. -/
  | finish (operationId : Nat)
  /-- A running operation ends without its write. -/
  | abandon (operationId : Nat)
  | updateUser (userId : String) (active : Bool)
  | savePlan (planId : String) (plan : Plan)
  /-- Time passes. -/
  | tick (milliseconds : Nat)
  deriving DecidableEq, Repr

namespace Registry

/-- A request begins, or an operation goes on or ends. -/
def step (s : Registry) : AdminStep → Registry
  | .start request =>
    match s.check request with
    | .error _ => s
    | .ok operation =>
      if s.locksFree operation.locks then
        { s with running := s.running.insert s.nextId operation, nextId := s.nextId + 1 }
      else s
  | .finish operationId =>
    match s.running.lookup operationId with
    | none => s
    | some operation =>
      let s := { s with running := s.running.erase operationId }
      match s.write operation with
      | .ok s' => s'
      | .error _ => s
  | .abandon operationId => { s with running := s.running.erase operationId }
  | .updateUser userId active => { s with users := s.users.insert userId { active } }
  | .savePlan planId plan => { s with plans := s.plans.insert planId plan }
  | .tick milliseconds => { s with clock := s.clock + milliseconds }

/-- Any number of steps. -/
def run (s : Registry) (steps : List AdminStep) : Registry := steps.foldl step s

end Registry

end ChordV.Api.Admin
