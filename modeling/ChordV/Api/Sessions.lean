import ChordV.Lib.Machine
import ChordV.Lib.Table

/-!
# Login sessions

`apps/api/src/modules/common/auth-session.service.ts`: sessions are issued, rotated, checked and
revoked.  Requests interleave statement by statement under read-committed isolation.

* Every statement is a step of its own.  A `Call` is a request between two of its statements,
  with what it has read and what it has written without a commit.
* A row that a transaction has updated is locked until the transaction ends.  A statement that
  needs the row waits, which is a step that changes nothing, and then sees the committed row.
* The statement of `revokeAllUserSessions` that revokes the tokens takes its snapshot in one
  step and reaches the rows one after the other.  A row that it had to wait for is looked at
  again, and a row that was inserted after the snapshot is not seen.
* A request can be abandoned between any two statements.  A transaction then leaves nothing.
* A statement that compares with the time takes the time at which it runs.
* A refresh token is named by the id of its row: the hash of the token is a unique column and
  the token is random.  Other requests can change a user at any time but remove none.
-/

namespace ChordV.Api.Auth

open Lib Lib.Machine

/-! ## The state -/

/-- `UserRole`. -/
inductive Role where
  | user
  | admin
  deriving DecidableEq, Repr

/-- The columns of a user that sessions read. -/
structure User where
  role : Role := .user
  active : Bool := true
  authVersion : Nat := 1
  deriving DecidableEq, Repr

/-- A row of `RefreshToken`.  The last two fields are no columns: they record the first token of
the login and the token that this one was exchanged for. -/
structure RefreshToken where
  userId : String
  expiresAt : Nat
  revoked : Bool
  login : String
  previous : Option String
  deriving DecidableEq, Repr

/-- What an access token says. -/
structure AccessPayload where
  sub : String
  role : Role
  ver : Nat
  sid : String
  expiresAt : Nat
  deriving DecidableEq, Repr

/-- A request between two of its statements. -/
inductive Call where
  /-- `issueSession` has read the user. -/
  | issuing (userId : String) (user : User)
  /-- `rotateRefreshToken` has read the token. -/
  | found (tokenId : String) (token : RefreshToken)
  /-- It has read the user too and opens its transaction. -/
  | checked (tokenId userId : String) (authVersion : Nat)
  /-- It has read the user again, in the transaction. -/
  | verified (tokenId userId : String) (user : User)
  /-- It has revoked the token. -/
  | claimed (tokenId userId : String) (user : User)
  /-- It has inserted the successor, with the time at which it made the new session. -/
  | inserted (tokenId userId : String) (user : User) (newId : String) (createdAt : Nat)
  /-- `revokeAllUserSessions` has incremented the version of the user. -/
  | bumped (userId : String)
  /-- It revokes the tokens: those of the snapshot that it has yet to reach, those that it has
  revoked, and the logins that the user had when the statement started. -/
  | sweeping (userId : String) (todo reached logins : List String)
  /-- `revokeByRefreshToken` has read the token. -/
  | signingOut (tokenId : String)
  deriving DecidableEq, Repr

/-- The two times to live. -/
structure Config where
  accessTokenTtl : Nat
  refreshTokenTtl : Nat

/-- The tables, the requests under way and the clock. -/
structure Store where
  users : Table String User := ∅
  tokens : Table String RefreshToken := ∅
  calls : Table Nat Call := ∅
  now : Nat := 0
  /-- The access tokens that were handed out.  A signature cannot be forged. -/
  issued : List AccessPayload := []
  /-- The logins that a committed `revokeAllUserSessions` found when its statement started. -/
  ended : List String := []

/-! ## Locks -/

/-- The rotation holds the token. -/
def Call.rotating : Call → Option String
  | .claimed tokenId _ _ | .inserted tokenId _ _ _ _ => some tokenId
  | _ => none

/-- The transaction has updated the token. -/
def Call.holds (tokenId : String) : Call → Bool
  | .claimed id _ _ | .inserted id _ _ _ _ => id = tokenId
  | .sweeping _ _ reached _ => reached.contains tokenId
  | _ => false

/-- The transaction has updated the user. -/
def Call.holdsUser (userId : String) : Call → Bool
  | .bumped id | .sweeping id _ _ _ => id = userId
  | _ => false

namespace Store

/-- Another transaction has updated the token. -/
def locked (s : Store) (call : Nat) (tokenId : String) : Bool :=
  s.calls.pairs.any fun p => p.1 ≠ call && p.2.holds tokenId

/-- Another transaction has updated the user. -/
def lockedUser (s : Store) (call : Nat) (userId : String) : Bool :=
  s.calls.pairs.any fun p => p.1 ≠ call && p.2.holdsUser userId

/-! ## Statements -/

/-- The request is at another point. -/
def setCall (s : Store) (call : Nat) (c : Call) : Store :=
  { s with calls := s.calls.insert call c }

/-- The request is over. -/
def endCall (s : Store) (call : Nat) : Store := { s with calls := s.calls.erase call }

/-- A token that a statement with `revokedAt: null, expiresAt: { gt: now }` matches. -/
def live (s : Store) (tokenId : String) : Option RefreshToken :=
  (s.tokens.lookup tokenId).filter fun t => !t.revoked && s.now < t.expiresAt

/-- `createSessionForUser`, once its row is committed: the row and the access token. -/
def createSession (cfg : Config) (s : Store) (userId : String) (user : User) (newId : String)
    (createdAt : Nat) (login : String) (previous : Option String) : Store :=
  { s with
    tokens := s.tokens.insert newId
      { userId, expiresAt := createdAt + cfg.refreshTokenTtl, revoked := false, login, previous }
    issued :=
      { sub := userId, role := user.role, ver := user.authVersion, sid := newId,
        expiresAt := createdAt + cfg.accessTokenTtl } :: s.issued }

/-- `data: { revokedAt }` on one row. -/
def revoke (s : Store) (tokenId : String) : Store :=
  { s with tokens := s.tokens.modify tokenId fun t => { t with revoked := true } }

/-- The same on some rows. -/
def revokeAll (s : Store) (tokenIds : List String) : Store :=
  { s with
    tokens := tokenIds.foldl (fun ts id => ts.modify id fun t => { t with revoked := true })
      s.tokens }

/-- The `updateMany` of a logout.  It waits for a locked row, and `done` is what follows. -/
def signOut (s : Store) (call : Nat) (tokenId : String) (matching : RefreshToken → Bool)
    (done : Store → Store) : Store :=
  if s.locked call tokenId then s
  else
    match (s.live tokenId).filter matching with
    | some _ => done (s.revoke tokenId)
    | none => done s

/-- The tokens of a user. -/
def tokensOf (s : Store) (userId : String) : List (String × RefreshToken) :=
  s.tokens.pairs.filter fun p => p.2.userId = userId

/-- `authenticateAccessToken`. -/
def authenticateAccessToken (s : Store) (payload : AccessPayload) : Bool :=
  s.issued.contains payload && decide (s.now < payload.expiresAt) &&
    ((s.users.lookup payload.sub).any fun user =>
      user.active && user.role = payload.role && user.authVersion = payload.ver) &&
    (s.live payload.sid).any fun session => session.userId = payload.sub

end Store

/-! ## Requests -/

/-- A request to the service. -/
inductive Request where
  | issueSession (userId : String)
  | rotateRefreshToken (tokenId : String)
  | revokeByAccessToken (payload : AccessPayload)
  | revokeByRefreshToken (tokenId : String)
  | revokeAllUserSessions (userId : String)

/-- What happens to the sessions. -/
inductive Event where
  /-- A request arrives and its first statement runs. -/
  | start (call : Nat) (request : Request)
  /-- The next statement of a request runs.  `choice` is the random id of a new row, or the row
  that the statement of `revokeAllUserSessions` reaches next. -/
  | advance (call : Nat) (choice : String)
  /-- A request is abandoned. -/
  | abort (call : Nat)
  /-- Another request changes a user. -/
  | changeUser (userId : String) (user : User)
  /-- The clock moves on. -/
  | tick (seconds : Nat)

namespace Store

/-- The first statement of a request. -/
def start (s : Store) (call : Nat) : Request → Store
  | .issueSession userId =>
    match s.users.lookup userId with
    | some user => if user.active then s.setCall call (.issuing userId user) else s
    | none => s
  | .rotateRefreshToken tokenId =>
    match s.tokens.lookup tokenId with
    | some token => s.setCall call (.found tokenId token)
    | none => s
  | .revokeByAccessToken payload =>
    if s.issued.contains payload && decide (s.now < payload.expiresAt) then
      s.signOut call payload.sid (fun t => t.userId = payload.sub) id
    else s
  | .revokeByRefreshToken tokenId =>
    match s.live tokenId with
    | some _ => s.setCall call (.signingOut tokenId)
    | none => s
  | .revokeAllUserSessions userId =>
    if (s.users.lookup userId).isSome && !s.lockedUser call userId then
      s.setCall call (.bumped userId)
    else s

/-- The next statement of a request. -/
def advance (cfg : Config) (s : Store) (call : Nat) (choice : String) : Call → Store
  | .issuing userId user =>
    if (s.tokens.lookup choice).isNone then
      (s.createSession cfg userId user choice s.now choice none).endCall call
    else s.endCall call
  | .found tokenId token =>
    match s.users.lookup token.userId with
    | some user =>
      if !token.revoked && decide (s.now < token.expiresAt) && user.active then
        s.setCall call (.checked tokenId token.userId user.authVersion)
      else s.endCall call
    | none => s.endCall call
  | .checked tokenId userId authVersion =>
    match s.users.lookup userId with
    | some user =>
      if user.active && user.authVersion = authVersion then
        s.setCall call (.verified tokenId userId user)
      else s.endCall call
    | none => s.endCall call
  | .verified tokenId userId user =>
    if s.locked call tokenId then s
    else
      match s.live tokenId with
      | some _ => s.setCall call (.claimed tokenId userId user)
      | none => s.endCall call
  | .claimed tokenId userId user =>
    s.setCall call (.inserted tokenId userId user choice s.now)
  | .inserted tokenId userId user newId createdAt =>
    match s.tokens.lookup tokenId with
    | some token =>
      if (s.tokens.lookup newId).isNone then
        ((s.revoke tokenId).createSession cfg userId user newId createdAt token.login
          (some tokenId)).endCall call
      else s.endCall call
    | none => s.endCall call
  | .bumped userId =>
    let rows := s.tokensOf userId
    s.setCall call (.sweeping userId ((rows.filter fun p => !p.2.revoked).map (·.1)) []
      (rows.map (·.2.login)))
  | .sweeping userId todo reached logins =>
    if choice ∈ todo then
      if s.locked call choice then s
      else
        -- A row that was revoked while the statement waited does not match any more.
        let reached' :=
          if (s.tokens.lookup choice).any (!·.revoked) then choice :: reached else reached
        s.setCall call (.sweeping userId (todo.filter (· ≠ choice)) reached' logins)
    else if todo = [] then
      { (s.revokeAll reached).endCall call with
        users := s.users.modify userId fun user =>
          { user with authVersion := user.authVersion + 1 }
        ended := logins ++ s.ended }
    else s
  | .signingOut tokenId => s.signOut call tokenId (fun _ => true) fun s => s.endCall call

end Store

/-- One statement, or a change of the surroundings. -/
def step (cfg : Config) (s : Store) : Event → Store
  | .start call request => if (s.calls.lookup call).isNone then s.start call request else s
  | .advance call choice =>
    match s.calls.lookup call with
    | some c => s.advance cfg call choice c
    | none => s
  | .abort call => s.endCall call
  | .changeUser userId user =>
    if s.calls.pairs.any fun p => p.2.holdsUser userId then s
    else { s with users := s.users.insert userId user }
  | .tick seconds => { s with now := s.now + seconds }

/-! ## What a step can do -/

/-- The token that a rotation is about, and its user as the rotation has read it. -/
def Call.subject : Call → Option (String × String)
  | .found tokenId token => some (tokenId, token.userId)
  | .checked tokenId userId _ | .verified tokenId userId _ | .claimed tokenId userId _
  | .inserted tokenId userId _ _ _ => some (tokenId, userId)
  | _ => none

/-- The subject of a call was read from the tokens or is that of the call before. -/
def Call.Known (s : Store) (k : Nat) (c : Call) : Prop :=
  ∀ x, c.subject = some x → (∃ c₀, s.calls.lookup k = some c₀ ∧ c₀.subject = some x) ∨
    ∃ t, s.tokens.lookup x.1 = some t ∧ t.userId = x.2

/-- The call is not in the middle of a write. -/
def Call.Free (c : Call) : Prop :=
  c.rotating = none ∧ (∀ tokenId, c.holds tokenId = false) ∧
    ∀ userId todo reached logins, c ≠ .sweeping userId todo reached logins

/-- Everything that one step can do to tokens and to the calls that hold some. -/
inductive Moves (cfg : Config) (s : Store) : Event → Store → Prop
  /-- The tokens stay, and the calls that are new hold nothing. -/
  | other {e s'} (htokens : s'.tokens = s.tokens) (hissued : s'.issued = s.issued)
      (hended : s'.ended = s.ended)
      (hcalls : ∀ k c, s'.calls.lookup k = some c →
        s.calls.lookup k = some c ∨ c.Free ∧ c.Known s k) :
      Moves cfg s e s'
  | issue {call choice userId user} (hnew : s.tokens.lookup choice = none) :
      Moves cfg s (.advance call choice)
        ((s.createSession cfg userId user choice s.now choice none).endCall call)
  | claim {call choice tokenId userId user token}
      (hcall : s.calls.lookup call = some (.verified tokenId userId user))
      (hfree : s.locked call tokenId = false) (hlive : s.live tokenId = some token) :
      Moves cfg s (.advance call choice) (s.setCall call (.claimed tokenId userId user))
  | insert {call choice tokenId userId user}
      (hcall : s.calls.lookup call = some (.claimed tokenId userId user)) :
      Moves cfg s (.advance call choice)
        (s.setCall call (.inserted tokenId userId user choice s.now))
  | rotate {call choice tokenId userId user newId createdAt token}
      (hcall : s.calls.lookup call = some (.inserted tokenId userId user newId createdAt))
      (htoken : s.tokens.lookup tokenId = some token) (hnew : s.tokens.lookup newId = none) :
      Moves cfg s (.advance call choice)
        (((s.revoke tokenId).createSession cfg userId user newId createdAt token.login
          (some tokenId)).endCall call)
  | sweep {call choice userId} (hcall : s.calls.lookup call = some (.bumped userId)) :
      Moves cfg s (.advance call choice)
        (s.setCall call (.sweeping userId
          (((s.tokensOf userId).filter fun p => !p.2.revoked).map (·.1)) []
          ((s.tokensOf userId).map (·.2.login))))
  | reach {call choice userId todo reached logins}
      (hcall : s.calls.lookup call = some (.sweeping userId todo reached logins))
      (htodo : choice ∈ todo) (hfree : s.locked call choice = false) :
      Moves cfg s (.advance call choice)
        (s.setCall call (.sweeping userId (todo.filter (· ≠ choice))
          (if (s.tokens.lookup choice).any (!·.revoked) then choice :: reached else reached)
          logins))
  | commit {call choice userId reached logins}
      (hcall : s.calls.lookup call = some (.sweeping userId [] reached logins)) :
      Moves cfg s (.advance call choice)
        { (s.revokeAll reached).endCall call with
          users := s.users.modify userId fun user =>
            { user with authVersion := user.authVersion + 1 }
          ended := logins ++ s.ended }
  | logout {e call tokenId token s'} (hfree : s.locked call tokenId = false)
      (hlive : s.live tokenId = some token) (htokens : s'.tokens = (s.revoke tokenId).tokens)
      (hissued : s'.issued = s.issued) (hended : s'.ended = s.ended)
      (hself : ∀ c, s.calls.lookup call = some c → c.Free)
      (hcalls : ∀ k c, s'.calls.lookup k = some c → s.calls.lookup k = some c) :
      Moves cfg s e s'

theorem lookup_endCall {s : Store} {call k : Nat} {c : Call}
    (h : (s.endCall call).calls.lookup k = some c) : k ≠ call ∧ s.calls.lookup k = some c := by
  change (s.calls.erase call).lookup k = some c at h
  rw [Table.lookup_erase_ite] at h
  split at h
  · cases h
  · exact ⟨‹_›, h⟩

theorem lookup_setCall {s : Store} {call k : Nat} {c c' : Call}
    (h : (s.setCall call c').calls.lookup k = some c) :
    k = call ∧ c = c' ∨ k ≠ call ∧ s.calls.lookup k = some c := by
  change (s.calls.insert call c').lookup k = some c at h
  rw [Table.lookup_insert_ite] at h
  split at h
  case isTrue hk => exact .inl ⟨hk, (Option.some.inj h).symm⟩
  case isFalse hk => exact .inr ⟨hk, h⟩

theorem Moves.same (cfg : Config) (s : Store) (e : Event) : Moves cfg s e s :=
  .other rfl rfl rfl fun _ _ h => .inl h

theorem Moves.ends (cfg : Config) (s : Store) (e : Event) (call : Nat) :
    Moves cfg s e (s.endCall call) :=
  .other rfl rfl rfl fun _ _ h => .inl (lookup_endCall h).2

theorem Moves.sets (cfg : Config) {s : Store} (e : Event) {call : Nat} {c : Call} (hc : c.Free)
    (hknown : c.Known s call) : Moves cfg s e (s.setCall call c) := by
  refine .other rfl rfl rfl fun k c' h => ?_
  rcases lookup_setCall h with ⟨rfl, rfl⟩ | ⟨-, h⟩
  · exact .inr ⟨hc, hknown⟩
  · exact .inl h

/-- A call without a subject. -/
theorem Call.known_of_none {s : Store} {k : Nat} {c : Call} (h : c.subject = none) :
    c.Known s k := by
  intro x hx
  rw [h] at hx
  cases hx

/-- A call with the subject of the call before. -/
theorem Call.known_of_eq {s : Store} {k : Nat} {c c₀ : Call} (hk : s.calls.lookup k = some c₀)
    (h : c.subject = c₀.subject) : c.Known s k := by
  intro x hx
  rw [h] at hx
  exact .inl ⟨c₀, hk, hx⟩

theorem Moves.signOut {cfg : Config} {s : Store} {e : Event} {call : Nat} {tokenId : String}
    {matching : RefreshToken → Bool} {done : Store → Store}
    (hself : ∀ c, s.calls.lookup call = some c → c.Free)
    (htokens : ∀ s, (done s).tokens = s.tokens) (hissued : ∀ s, (done s).issued = s.issued)
    (hended : ∀ s, (done s).ended = s.ended)
    (hcalls : ∀ s k c, (done s).calls.lookup k = some c → s.calls.lookup k = some c) :
    Moves cfg s e (s.signOut call tokenId matching done) := by
  unfold Store.signOut
  split
  · exact .same cfg s e
  case isFalse hfree =>
    split
    case h_1 token hlive =>
      rw [Option.filter_eq_some_iff] at hlive
      refine .logout (by simpa using hfree) hlive.1 (htokens _) (hissued _) (hended _) hself
        fun k c h => ?_
      have hold := hcalls _ k c h
      exact hold
    case h_2 => exact .other (htokens s) (hissued s) (hended s) fun k c h => .inl (hcalls s k c h)

theorem start_moves (cfg : Config) (s : Store) {call : Nat} (hcall : s.calls.lookup call = none)
    (request : Request) : Moves cfg s (.start call request) (s.start call request) := by
  cases request with
  | issueSession userId =>
    simp only [Store.start]
    split
    · split
      · exact .sets cfg _ ⟨rfl, fun _ => rfl, fun _ _ _ _ h => by (cases h)⟩
          (Call.known_of_none rfl)
      · exact .same cfg s _
    · exact .same cfg s _
  | rotateRefreshToken tokenId =>
    simp only [Store.start]
    split
    case h_1 token htoken =>
      refine .sets cfg _ ⟨rfl, fun _ => rfl, fun _ _ _ _ h => by (cases h)⟩ fun x hx => ?_
      obtain rfl := Option.some.inj hx
      exact .inr ⟨token, htoken, rfl⟩
    case h_2 => exact .same cfg s _
  | revokeByAccessToken payload =>
    simp only [Store.start]
    split
    · refine .signOut (fun c hc => ?_) (fun _ => rfl) (fun _ => rfl) (fun _ => rfl)
        fun _ _ _ h => h
      rw [hcall] at hc
      cases hc
    · exact .same cfg s _
  | revokeByRefreshToken tokenId =>
    simp only [Store.start]
    split
    · exact .sets cfg _ ⟨rfl, fun _ => rfl, fun _ _ _ _ h => by (cases h)⟩
        (Call.known_of_none rfl)
    · exact .same cfg s _
  | revokeAllUserSessions userId =>
    simp only [Store.start]
    split
    · exact .sets cfg _ ⟨rfl, fun _ => rfl, fun _ _ _ _ h => by (cases h)⟩
        (Call.known_of_none rfl)
    · exact .same cfg s _

theorem advance_moves (cfg : Config) (s : Store) {call : Nat} {c : Call}
    (hcall : s.calls.lookup call = some c) (choice : String) :
    Moves cfg s (.advance call choice) (s.advance cfg call choice c) := by
  cases c with
  | issuing userId user =>
    simp only [Store.advance]
    split
    case isTrue hnew => exact .issue (Option.isNone_iff_eq_none.mp hnew)
    case isFalse => exact .ends cfg s _ call
  | found tokenId token =>
    simp only [Store.advance]
    split
    · split
      · exact .sets cfg _ ⟨rfl, fun _ => rfl, fun _ _ _ _ h => by (cases h)⟩
          (Call.known_of_eq hcall rfl)
      · exact .ends cfg s _ call
    · exact .ends cfg s _ call
  | checked tokenId userId authVersion =>
    simp only [Store.advance]
    split
    · split
      · exact .sets cfg _ ⟨rfl, fun _ => rfl, fun _ _ _ _ h => by (cases h)⟩
          (Call.known_of_eq hcall rfl)
      · exact .ends cfg s _ call
    · exact .ends cfg s _ call
  | verified tokenId userId user =>
    simp only [Store.advance]
    split
    · exact .same cfg s _
    case isFalse hfree =>
      split
      case h_1 token hlive => exact .claim hcall (by simpa using hfree) hlive
      case h_2 => exact .ends cfg s _ call
  | claimed tokenId userId user => exact .insert hcall
  | inserted tokenId userId user newId createdAt =>
    simp only [Store.advance]
    split
    case h_1 token htoken =>
      split
      case isTrue hnew => exact .rotate hcall htoken (Option.isNone_iff_eq_none.mp hnew)
      case isFalse => exact .ends cfg s _ call
    case h_2 => exact .ends cfg s _ call
  | bumped userId => exact .sweep hcall
  | sweeping userId todo reached logins =>
    simp only [Store.advance]
    split
    case isTrue htodo =>
      split
      · exact .same cfg s _
      case isFalse hfree => exact .reach hcall htodo (by simpa using hfree)
    case isFalse =>
      split
      case isTrue hdone =>
        subst hdone
        exact .commit hcall
      case isFalse => exact .same cfg s _
  | signingOut tokenId =>
    have hends : ∀ (s : Store) k c, (s.endCall call).calls.lookup k = some c →
        s.calls.lookup k = some c := fun s k c h => (lookup_endCall h).2
    show Moves cfg s _ (s.signOut call tokenId (fun _ => true) fun s => s.endCall call)
    refine .signOut (fun c hc => ?_) (fun _ => rfl) (fun _ => rfl) (fun _ => rfl) hends
    obtain rfl := Option.some.inj (hcall.symm.trans hc)
    exact ⟨rfl, fun _ => rfl, fun _ _ _ _ h => by cases h⟩

theorem step_moves (cfg : Config) (s : Store) (e : Event) : Moves cfg s e (step cfg s e) := by
  cases e with
  | start call request =>
    simp only [step]
    split
    case isTrue hcall => exact start_moves cfg s (Option.isNone_iff_eq_none.mp hcall) request
    case isFalse => exact .same cfg s _
  | advance call choice =>
    simp only [step]
    split
    case h_1 c hcall => exact advance_moves cfg s hcall choice
    case h_2 => exact .same cfg s _
  | abort call => exact .ends cfg s _ call
  | changeUser userId user =>
    simp only [step]
    split
    · exact .same cfg s _
    · exact .other rfl rfl rfl fun _ _ h => .inl h
  | tick seconds => exact .other rfl rfl rfl fun _ _ h => .inl h

end ChordV.Api.Auth
