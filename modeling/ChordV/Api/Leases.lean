import ChordV.Lib.Machine
import ChordV.Lib.Table
import Mathlib.Data.List.Sort

/-!
# Leases of connected clients

`connect`, `heartbeatSession`, `disconnect`, `evictExceededUserLeases`, `sweepExpiredLeases` and
`revokeLease` in `apps/api/src/modules/common/runtime-session.service.ts`, with the helpers for the
grace period in `runtime-session.utils.ts`.

* Every statement on the leases is a step of its own, and requests interleave between them.
* There is one clock, in milliseconds.  A statement runs when its time has come, also where the
  code took the time with which it compares earlier.
* `connect` and `enforceUserConcurrentLeaseLimit` hold the lock of the user from the list of the
  leases to their end, and so two of them for one user do not interleave.
* What `connect` and `assertLeaseCanHeartbeat` check about subscriptions, nodes and clients is
  not modelled: a connect or a heartbeat can be refused at any time.
* A lease is named by its id, which stands for its session too.  No lease is deleted.
-/

namespace ChordV.Api.Leases

open Lib Lib.Machine

/-! ## Leases and their grace period -/

/-- `SessionLeaseStatus`. -/
inductive LeaseStatus where
  | active
  | expired
  | revoked
  | evicted
  deriving DecidableEq, Repr

/-- What is read of a `NodeSessionLease`. -/
structure Lease where
  userId : String
  status : LeaseStatus := .active
  issuedAt : Nat
  expiresAt : Nat
  lastHeartbeatAt : Nat
  deriving DecidableEq, Repr

/-- The two times of the environment. -/
structure Config where
  leaseTtlSeconds : Nat := 1800
  leaseGraceSeconds : Nat := 300

/-- The limit if neither the plan nor the user has one. -/
def defaultMaxConcurrentSessions : Int := 3

/-- The reason of an eviction. -/
def securityReasonConcurrency : String := "concurrency_limit"

/-- The end of the grace period, in milliseconds. -/
def getLeaseGraceDeadline (cfg : Config) (expiresAt : Nat) : Nat :=
  expiresAt + cfg.leaseGraceSeconds * 1000

/-- The grace period is over. -/
def isLeaseHardExpired (cfg : Config) (expiresAt now : Nat) : Bool :=
  decide (getLeaseGraceDeadline cfg expiresAt < now)

/-- Leases that end before this have hard expired. -/
def getLeaseHardExpireCutoff (cfg : Config) (now : Nat) : Int :=
  (now : Int) - cfg.leaseGraceSeconds * 1000

/-- The limit that `connect` passes on: that of the user, else that of the plan. -/
def concurrentLimit (override plan : Option Int) : Nat :=
  (max 1 (override.getD (plan.getD defaultMaxConcurrentSessions))).toNat

/-- Without an override it is the limit of the plan. -/
theorem concurrentLimit_plan {limit : Nat} (h : 1 ≤ limit) :
    concurrentLimit none (some limit) = limit := by
  simp only [concurrentLimit, Option.getD_none, Option.getD_some]
  omega

/-! ## The state -/

/-- A request between two of its statements. -/
inductive Call where
  /-- `heartbeatSession` has read the lease. -/
  | found (leaseId userId : String) (expiresAt : Nat)
  /-- It has found at `now` that the lease is not hard expired. -/
  | checked (leaseId userId : String) (now : Nat)
  /-- The leases are to be revoked, one after the other. -/
  | revoking (todo : List String) (reason : String)
  /-- `evictExceededUserLeases` has listed the leases, and evicts the first of them. -/
  | evicting (userId : String) (limit reservedSlots : Nat) (todo kept : List String)
  /-- `connect` has created its lease. -/
  | created (userId : String) (limit : Nat) (kept : List String)
  deriving DecidableEq, Repr

/-- The user whose lock the call holds. -/
def Call.user : Call → Option String
  | .evicting userId _ _ _ _ | .created userId _ _ => some userId
  | _ => none

/-- The leases, the connects under way and the clock. -/
structure Store where
  leases : Table String Lease := ∅
  calls : Table Nat Call := ∅
  now : Nat := 0
  /-- Not stored by the program: the user and the limit, if the last step was the return of a
  successful `connect`. -/
  connected : Option (String × Nat) := none

/-- What happens to the leases. -/
inductive Event where
  /-- `connect` has the lock of the user and lists the leases, with the time `time`. -/
  | connect (call : Nat) (userId : String) (override plan : Option Int) (time : Nat)
  /-- `connect` creates the lease, with the time `time`. -/
  | create (call : Nat) (leaseId : String) (time : Nat)
  /-- `enforceUserConcurrentLeaseLimit`. -/
  | enforce (call : Nat) (userId : String) (maxConcurrentSessions : Int) (time : Nat)
  | heartbeat (call : Nat) (userId leaseId : String)
  /-- `assertLeaseCanHeartbeat` refuses the heartbeat. -/
  | refuse (call : Nat) (reason : String)
  | disconnect (call : Nat) (userId leaseId : String)
  /-- `sweepExpiredLeases` lists the leases, with the time `time`. -/
  | sweep (call : Nat) (time : Nat)
  /-- `revokeUserLeases`, `revokeSubscriptionLeases` or `revokeNodeLeases` has listed leases. -/
  | revokeLeases (call : Nat) (leaseIds : List String) (reason : String)
  /-- The next statement of a request. -/
  | advance (call : Nat)
  /-- A request fails. -/
  | abort (call : Nat)
  | tick (milliseconds : Nat)

/-! ## Statements -/

namespace Store

/-- The request is at another point. -/
def setCall (s : Store) (call : Nat) (c : Call) : Store :=
  { s with calls := s.calls.insert call c }

/-- The request is over. -/
def endCall (s : Store) (call : Nat) : Store := { s with calls := s.calls.erase call }

/-- Another request holds the lock of the user. -/
def lockedUser (s : Store) (userId : String) : Bool :=
  s.calls.pairs.any fun p => p.2.user = some userId

/-- The `updateMany` of `revokeLease`. -/
def revokeLease (s : Store) (leaseId reason : String) : Store :=
  { s with
    leases := s.leases.modify leaseId fun lease =>
      if lease.status = .active ∨ lease.status = .expired then
        { lease with
          status := if reason = securityReasonConcurrency then .evicted else .revoked }
      else lease }

/-- The `updateMany` of `heartbeatSession`. -/
def renewLease (cfg : Config) (s : Store) (leaseId userId : String) (now : Nat) : Store :=
  { s with
    leases := s.leases.modify leaseId fun lease =>
      if lease.userId = userId ∧ lease.status = .active then
        { lease with expiresAt := now + cfg.leaseTtlSeconds * 1000, lastHeartbeatAt := now }
      else lease }

/-- The leases that `evictExceededUserLeases` counts, the least recent first. -/
def activeLeases (cfg : Config) (s : Store) (userId : String) (time : Nat) : List String :=
  ((s.leases.pairs.filter fun p =>
      p.2.userId = userId && p.2.status = .active &&
        decide (getLeaseHardExpireCutoff cfg time < p.2.expiresAt)).insertionSort fun p q =>
    p.2.lastHeartbeatAt < q.2.lastHeartbeatAt ∨
      p.2.lastHeartbeatAt = q.2.lastHeartbeatAt ∧ p.2.issuedAt ≤ q.2.issuedAt).map (·.1)

/-- Picks the oldest leases that are over the limit. -/
def evictExceededUserLeases (cfg : Config) (s : Store) (call : Nat) (userId : String)
    (limit reservedSlots time : Nat) : Store :=
  let leases := s.activeLeases cfg userId time
  let evictCount := leases.length + reservedSlots - limit
  s.setCall call (.evicting userId limit reservedSlots (leases.take evictCount)
    (leases.drop evictCount))

/-- The leases that `sweepExpiredLeases` finds. -/
def expiredLeases (cfg : Config) (s : Store) (time : Nat) : List String :=
  ((s.leases.pairs.filter fun p =>
    (p.2.status = .active || p.2.status = .expired) &&
      decide ((p.2.expiresAt : Int) < getLeaseHardExpireCutoff cfg time)).take 100).map (·.1)

/-- The next statement of a request. -/
def advance (cfg : Config) (s : Store) (call : Nat) : Call → Store
  | .found leaseId userId expiresAt =>
    if isLeaseHardExpired cfg expiresAt s.now then
      s.setCall call (.revoking [leaseId] "lease_expired")
    else s.setCall call (.checked leaseId userId s.now)
  | .checked leaseId userId now => (s.renewLease cfg leaseId userId now).endCall call
  | .revoking (leaseId :: todo) reason =>
    (s.revokeLease leaseId reason).setCall call (.revoking todo reason)
  | .revoking [] _ => s.endCall call
  | .evicting userId limit reservedSlots (leaseId :: todo) kept =>
    (s.revokeLease leaseId securityReasonConcurrency).setCall call
      (.evicting userId limit reservedSlots todo kept)
  | .evicting _ _ reservedSlots [] _ => if reservedSlots = 0 then s.endCall call else s
  | .created userId limit _ => { s.endCall call with connected := some (userId, limit) }

/-- The statement of an event. -/
def next (cfg : Config) (s : Store) : Event → Store
  | .connect call userId override plan time =>
    if (s.calls.lookup call).isNone && !s.lockedUser userId && decide (time ≤ s.now) then
      s.evictExceededUserLeases cfg call userId (concurrentLimit override plan) 1 time
    else s
  | .create call leaseId time =>
    match s.calls.lookup call with
    | some (.evicting userId limit 1 [] kept) =>
      if (s.leases.lookup leaseId).isNone && decide (time ≤ s.now) then
        { s.setCall call (.created userId limit (leaseId :: kept)) with
          leases := s.leases.insert leaseId
            { userId, issuedAt := time, expiresAt := time + cfg.leaseTtlSeconds * 1000,
              lastHeartbeatAt := time } }
      else s
    | _ => s
  | .enforce call userId maxConcurrentSessions time =>
    if (s.calls.lookup call).isNone && !s.lockedUser userId && decide (time ≤ s.now) then
      s.evictExceededUserLeases cfg call userId (max 1 maxConcurrentSessions).toNat 0 time
    else s
  | .heartbeat call userId leaseId =>
    match s.calls.lookup call, s.leases.lookup leaseId with
    | none, some lease =>
      if lease.userId = userId ∧ lease.status = .active then
        s.setCall call (.found leaseId userId lease.expiresAt)
      else s
    | _, _ => s
  | .refuse call reason =>
    match s.calls.lookup call with
    | some (.checked leaseId _ _) => s.setCall call (.revoking [leaseId] reason)
    | _ => s
  | .disconnect call userId leaseId =>
    match s.calls.lookup call, s.leases.lookup leaseId with
    | none, some lease =>
      if lease.userId = userId ∧ lease.status = .active then
        s.setCall call (.revoking [leaseId] "revoked_by_client")
      else s
    | _, _ => s
  | .sweep call time =>
    if (s.calls.lookup call).isNone && decide (time ≤ s.now) then
      s.setCall call (.revoking (s.expiredLeases cfg time) "lease_expired")
    else s
  | .revokeLeases call leaseIds reason =>
    if (s.calls.lookup call).isNone then s.setCall call (.revoking leaseIds reason) else s
  | .advance call =>
    match s.calls.lookup call with
    | some c => s.advance cfg call c
    | none => s
  | .abort call => s.endCall call
  | .tick milliseconds => { s with now := s.now + milliseconds }

end Store

/-- One statement, or the passing of time. -/
def step (cfg : Config) (s : Store) (e : Event) : Store := { s with connected := none }.next cfg e

end ChordV.Api.Leases
