import ChordV.Lib.Machine
import ChordV.Lib.Table

/-!
# The owner of a team

`createTeam`, `updateTeam`, `createTeamMember`, `updateTeamMember` and `deleteTeamMember` of
`admin-subscription.service.ts`, on one team.

* A request reads outside its transaction.  Each read is a step of its own, and the transaction
  is another: `commit`.
* Where a read is about something outside the team (the status of a user, its other team, its
  personal subscription), the event says whether the request goes on.
* A request that names an owner holds the owner lock of the team, and those that let a user in
  hold the lock of the user.  Plain role updates and removals hold none.
* What a request does after its transaction (tickets, leases, events) is left out.
* The name of a team is given trimmed.  An owner that a request names is not empty.
-/

namespace ChordV.Api.Teams

open Lib

/-! ## Rows -/

/-- `TeamRole`. -/
inductive Role where
  | owner
  | member
deriving DecidableEq, Repr

/-- What is read of a `Team`. -/
structure Team where
  name : String
  ownerUserId : String
  active : Bool
deriving DecidableEq, Repr

/-- A row of `TeamMember` for the team. -/
structure Member where
  userId : String
  role : Role
deriving DecidableEq, Repr

/-! ## Requests -/

/-- A request of an administrator. -/
inductive Operation where
  | createTeam (name ownerUserId : String) (active : Option Bool)
  | updateTeam (name ownerUserId : Option String) (active : Option Bool)
  | createTeamMember (userId : String) (role : Option Role)
  | updateTeamMember (memberId : Nat) (role : Option Role)
  | deleteTeamMember (memberId : Nat)
deriving DecidableEq, Repr

/-- The owner locks. -/
inductive Lock where
  | team
  | personal (userId : String)
deriving DecidableEq, Repr

/-- The locks that the operation holds. -/
def Operation.locks : Operation → List Lock
  | .createTeam _ ownerUserId _ => [.personal ownerUserId]
  | .updateTeam _ (some ownerUserId) _ => [.team, .personal ownerUserId]
  | .createTeamMember userId _ => [.personal userId]
  | .updateTeamMember _ (some .owner) => [.team]
  | _ => []

/-- What a transaction writes. -/
inductive Write where
  | createTeam (name ownerUserId : String) (active : Bool)
  | saveTeam (name : Option String) (active : Option Bool)
  /-- `updateTeam` with a new owner. -/
  | transfer (ownerUserId : String) (name : Option String) (active : Option Bool)
  | addMember (userId : String)
  /-- `updateTeamMember` to the role of the owner.  The user is the one that was read. -/
  | promote (memberId : Nat) (userId : String)
  /-- `updateTeamMember` to the other role. -/
  | saveRole (memberId : Nat)
  | removeMember (memberId : Nat)
deriving DecidableEq, Repr

/-- How far a request is. -/
inductive Stage where
  | started
  /-- `requireTeam` has found the team, and the request goes on with a user. -/
  | teamRead
  /-- `ensureUserExists` has found the user that is to own the team. -/
  | userRead
  /-- `assertUserCanJoinTeam` has found an active user. -/
  | joining
  /-- The membership of the user is as it has to be. -/
  | membershipRead
  /-- `requireTeamMember` has found the member that is to own the team. -/
  | memberRead (userId : String)
  | ready (write : Write)
deriving DecidableEq, Repr

/-- An operation that is under way. -/
structure Call where
  operation : Operation
  stage : Stage := .started
deriving DecidableEq, Repr

/-- The team, its members and the operations under way. -/
structure Store where
  team : Option Team := none
  members : Table Nat Member := ∅
  calls : Table Nat Call := ∅
  nextId : Nat := 0

/-- The team has a member for the user.  `TeamMember.userId` is unique. -/
def Store.hasUser (s : Store) (userId : String) : Bool :=
  s.members.pairs.any (·.2.userId = userId)

/-! ## Reads -/

/-- The next read of a request, and what it does then: `none` is an exception. -/
def readNext (s : Store) (goesOn : Bool) : Operation → Stage → Option Stage
  | .createTeam .., .started => if goesOn then some .userRead else none
  | .createTeam .., .userRead => if goesOn then some .joining else none
  | .createTeam _ ownerUserId _, .joining =>
    if goesOn && !s.hasUser ownerUserId then some .membershipRead else none
  | .createTeam name ownerUserId active, .membershipRead =>
    if goesOn then some (.ready (.createTeam name ownerUserId (active.getD true))) else none
  | .updateTeam name ownerUserId active, .started => do
    let current ← s.team
    match ownerUserId with
    | some nextOwner =>
      if nextOwner = current.ownerUserId then some (.ready (.saveTeam name active))
      else some .teamRead
    | none => some (.ready (.saveTeam name active))
  | .updateTeam .., .teamRead => if goesOn then some .userRead else none
  | .updateTeam _ (some nextOwner) _, .userRead =>
    if s.hasUser nextOwner then some .membershipRead else none
  | .updateTeam name (some nextOwner) active, .membershipRead =>
    if goesOn then some (.ready (.transfer nextOwner name active)) else none
  | .createTeamMember _ role, .started =>
    if s.team.isSome && role != some .owner then some .teamRead else none
  | .createTeamMember .., .teamRead => if goesOn then some .joining else none
  | .createTeamMember userId _, .joining =>
    if goesOn && !s.hasUser userId then some .membershipRead else none
  | .createTeamMember userId _, .membershipRead =>
    if goesOn then some (.ready (.addMember userId)) else none
  | .updateTeamMember memberId role, .started => do
    let member ← s.members.lookup memberId
    match role.getD member.role with
    | .owner => some (.memberRead member.userId)
    | .member => if member.role = .owner then none else some (.ready (.saveRole memberId))
  | .updateTeamMember memberId _, .memberRead userId =>
    if goesOn then some (.ready (.promote memberId userId)) else none
  | .deleteTeamMember memberId, .started => do
    let member ← s.members.lookup memberId
    if member.role = .owner then none else some (.ready (.removeMember memberId))
  | _, _ => none

/-! ## Transactions -/

/-- The edit of the name and the status. -/
def saveTeam (name : Option String) (active : Option Bool) (team : Team) : Team :=
  { team with name := name.getD team.name, active := active.getD team.active }

/-- A transaction: `none` is an exception.  `elsewhere` says whether the user that is let in is
a member of another team. -/
def commit (s : Store) (elsewhere : Bool) : Write → Option Store
  | .createTeam name ownerUserId active =>
    -- The team is created once, later ones are other teams.
    if s.team.isSome || elsewhere || s.hasUser ownerUserId then none
    else some { s with
      team := some { name, ownerUserId, active }
      members := s.members.insert s.nextId { userId := ownerUserId, role := .owner }
      nextId := s.nextId + 1 }
  | .saveTeam name active => do
    let team ← s.team
    return { s with team := some (saveTeam name active team) }
  | .transfer ownerUserId name active => do
    let team ← s.team
    let membership ← s.members.pairs.find? (·.2.userId = ownerUserId)
    let demoted := s.members.updateWhere (fun _ m => m.role = .owner) ({ · with role := .member })
    return { s with
      team := some { saveTeam name active team with ownerUserId }
      members := demoted.modify membership.1 ({ · with role := .owner }) }
  | .addMember userId =>
    if s.team.isNone || elsewhere || s.hasUser userId then none
    else some { s with
      members := s.members.insert s.nextId { userId, role := .member }, nextId := s.nextId + 1 }
  | .promote memberId userId => do
    let team ← s.team
    let _ ← s.members.lookup memberId
    let promoted := s.members.modify memberId ({ · with role := .owner })
    return { s with
      team := some { team with ownerUserId := userId }
      members := promoted.updateWhere (fun id _ => id ≠ memberId) ({ · with role := .member }) }
  | .saveRole memberId => do
    let member ← s.members.lookup memberId
    return { s with members := s.members.insert memberId { member with role := .member } }
  | .removeMember memberId => do
    let _ ← s.members.lookup memberId
    return { s with members := s.members.erase memberId }

/-! ## Runs -/

/-- What happens to an operation. -/
inductive Event where
  | start (id : Nat) (operation : Operation)
  | read (id : Nat) (goesOn : Bool)
  | commit (id : Nat) (elsewhere : Bool)
  /-- The request ends early: an exception, a lost connection or a crash. -/
  | fail (id : Nat)
deriving DecidableEq, Repr

/-- No running request holds one of the locks. -/
def Store.unlocked (s : Store) (locks : List Lock) : Bool :=
  s.calls.pairs.all fun p => !p.2.operation.locks.any locks.contains

/-- The operation is over. -/
def Store.endCall (s : Store) (id : Nat) : Store := { s with calls := s.calls.erase id }

/-- The operation reads, or gives up. -/
def readCall (s : Store) (id : Nat) (goesOn : Bool) (call : Call) : Store :=
  match readNext s goesOn call.operation call.stage with
  | some stage => { s with calls := s.calls.insert id { call with stage } }
  | none => s.endCall id

/-- The operation writes, if all its reads are done. -/
def commitCall (s : Store) (id : Nat) (elsewhere : Bool) (call : Call) : Store :=
  match call.stage with
  | .ready write => ((commit s elsewhere write).getD s).endCall id
  | _ => s

/-- One step of the system. -/
def step (s : Store) : Event → Store
  | .start id operation =>
    if (s.calls.lookup id).isNone && s.unlocked operation.locks then
      { s with calls := s.calls.insert id { operation } }
    else s
  | .read id goesOn => (s.calls.lookup id).elim s (readCall s id goesOn)
  | .commit id elsewhere => (s.calls.lookup id).elim s (commitCall s id elsewhere)
  | .fail id => s.endCall id

/-- Before the team exists. -/
def start : Store := {}

end ChordV.Api.Teams
