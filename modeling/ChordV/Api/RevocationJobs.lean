import Mathlib.Algebra.Ring.Nat
import ChordV.Lib.Machine
import ChordV.Lib.Table

/-!
# Lease revocation jobs

`createOrRefreshLeaseRevocationJob` in `apps/api/src/modules/common/lease-revocation-job.utils.ts`
asks for a job, and `retryPendingLeaseRevocationJobs` with `runLeaseRevocationJob` in
`runtime-session.service.ts` runs the jobs.  Requests and workers interleave statement by
statement under read-committed isolation.

* A `Call` is a caller of `createOrRefreshLeaseRevocationJob`.  Some callers pass a transaction
  and ask for several jobs in it, the others pass the client and every statement commits.
* A row that an open transaction has written is locked.  A statement that needs the row waits,
  which is a step that changes nothing.
* A `Worker` has one job of a batch.  It claims the row with the time of its batch, and the
  write at its end goes to the row whatever has become of it.
* Calls and workers can disappear between any two statements.
* Every process has its own clock: a step comes with the times that its statement writes and
  compares with, and nothing orders the times of two steps.
* A job is named by its `dedupeKey`, which is a unique column.  What a run revokes is not
  modelled, only whether it succeeds.
-/

namespace ChordV.Api.RevocationJobs

open Lib Lib.Machine

/-! ## Rows -/

/-- `LeaseRevocationJobStatus`. -/
inductive Status where
  | pending
  | running
  | completed
  | failed
  deriving DecidableEq, Repr

/-- The columns of a `LeaseRevocationJob` that decide when it runs.  Times are in milliseconds. -/
structure Job where
  status : Status := .pending
  attempts : Nat := 0
  nextRunAt : Nat
  lockedAt : Option Nat := none
  deriving DecidableEq, Repr

/-- `lockedAt: { lt: staleLockBefore }`. -/
def staleLock (now lockedAt : Nat) : Bool := decide (lockedAt + 10 * 60 * 1000 < now)

/-- The filter with which a worker selects its jobs and claims them. -/
def Job.due (now : Nat) (job : Job) : Bool :=
  match job.status with
  | .pending | .failed => decide (job.nextRunAt ≤ now) && job.lockedAt.all (staleLock now)
  | .running => job.lockedAt.any (staleLock now)
  | .completed => false

theorem Job.due_running {job : Job} (now : Nat) (hs : job.status = .running) :
    job.due now = job.lockedAt.any (staleLock now) := by
  rw [Job.due, hs]

theorem Job.due_waiting {job : Job} (now : Nat)
    (hs : job.status = .pending ∨ job.status = .failed) :
    job.due now = (decide (job.nextRunAt ≤ now) && job.lockedAt.all (staleLock now)) := by
  rcases hs with hs | hs
  · rw [Job.due, hs]
  · rw [Job.due, hs]

/-- The two times of the environment. -/
structure Config where
  retryBaseSeconds : Nat := 15
  retryMaxSeconds : Nat := 900

/-- The pause after a failed run. -/
def Config.retrySeconds (cfg : Config) (nextAttempts : Nat) : Nat :=
  min cfg.retryMaxSeconds (cfg.retryBaseSeconds * 2 ^ min (nextAttempts - 1) 6)

/-! ## Callers and workers -/

/-- Where a caller is in `createOrRefreshQueuedJob`. -/
inductive Stage where
  | idle
  /-- `updateMany` has updated no row. -/
  | missed (key : String) (now : Nat)
  /-- `findFirst` has found no row either. -/
  | looked (key : String) (now : Nat)
  deriving DecidableEq, Repr

/-- The job that the caller has asked for and not settled yet. -/
def Stage.key : Stage → Option String
  | .idle => none
  | .missed key _ | .looked key _ => some key

/-- A caller, and what its transaction has written. -/
structure Call where
  inTransaction : Bool
  stage : Stage := .idle
  /-- What the transaction has written and not committed. -/
  written : Table String Job := ∅

/-- A run of the worker. -/
inductive Worker where
  /-- It has read the job, with the time of its batch. -/
  | selected (key : String) (attempts now : Nat)
  /-- It has claimed the job and runs it. -/
  | running (key : String) (attempts : Nat)
  deriving DecidableEq, Repr

/-- The worker runs this job. -/
def Worker.runs (key : String) : Worker → Bool
  | .running key' _ => key' = key
  | .selected _ _ _ => false

/-- The jobs, the callers and the workers. -/
structure Store where
  jobs : Table String Job := ∅
  calls : Table Nat Call := ∅
  workers : Table Nat Worker := ∅
  /-- Not stored by the program: the requests of open calls for which no run has started yet.
  A request in a transaction is made when the transaction commits. -/
  asked : List (Nat × String) := []
  /-- Not stored by the program: the requests that have returned and for which no run has
  started yet. -/
  unserved : List String := []

/-- What happens to the jobs. -/
inductive Event where
  | start (call : Nat) (inTransaction : Bool)
  /-- `createOrRefreshLeaseRevocationJob` is called: its `updateMany`. -/
  | request (call : Nat) (key : String) (now : Nat)
  /-- Its next statement. -/
  | advance (call : Nat)
  /-- The caller returns.  A transaction commits. -/
  | close (call : Nat)
  | abort (call : Nat)
  /-- A worker reads a job that is due. -/
  | select (worker : Nat) (key : String) (now : Nat)
  | claim (worker : Nat) (lockedAt : Nat)
  | complete (worker : Nat)
  | fail (worker : Nat) (now : Nat)
  /-- A worker stops and writes nothing. -/
  | die (worker : Nat)
  /-- `retryLeaseRevocationJob`. -/
  | retry (key : String) (now : Nat)

/-! ## Statements -/

namespace Store

/-- A transaction other than that of `call` has written the row. -/
def locked (s : Store) (call : Option Nat) (key : String) : Bool :=
  s.calls.pairs.any fun p => some p.1 ≠ call && (p.2.written.lookup key).isSome

/-- The row as the caller sees it. -/
def seen (s : Store) (c : Call) (key : String) : Option Job := (c.written ∪ s.jobs).lookup key

/-- The caller is at another point. -/
def setCall (s : Store) (call : Nat) (c : Call) : Store :=
  { s with calls := s.calls.insert call c }

/-- The row is inserted, or all its columns are set anew. -/
def write (s : Store) (call : Nat) (c : Call) (key : String) (now : Nat) : Store :=
  if c.inTransaction then
    s.setCall call { c with stage := .idle, written := c.written.insert key { nextRunAt := now } }
  else
    { s.setCall call { c with stage := .idle } with
      jobs := s.jobs.insert key { nextRunAt := now } }

/-- `updateMany` where the job is not running. -/
def request (s : Store) (call : Nat) (c : Call) (key : String) (now : Nat) : Store :=
  let s' := { s with asked := (call, key) :: s.asked }
  match s.seen c key with
  | some job =>
    if s.locked (some call) key then s
    else if job.status = .running then s'.setCall call { c with stage := .missed key now }
    else s'.write call c key now
  | none => s'.setCall call { c with stage := .missed key now }

/-- `findFirst` where the job is not running, and `createMany` with `skipDuplicates`. -/
def advance (s : Store) (call : Nat) (c : Call) : Store :=
  match c.stage with
  | .idle => s
  | .missed key now =>
    match s.seen c key with
    | some job =>
      if job.status = .running then s.setCall call { c with stage := .looked key now }
      else s.setCall call { c with stage := .idle }
    | none => s.setCall call { c with stage := .looked key now }
  | .looked key now =>
    if s.locked (some call) key then s
    else
      match s.seen c key with
      | some _ => s.setCall call { c with stage := .idle }
      | none => s.write call c key now

/-- The transaction commits. -/
def close (s : Store) (call : Nat) (c : Call) : Store :=
  { s with
    jobs := c.written ∪ s.jobs
    calls := s.calls.erase call
    asked := s.asked.filter (·.1 ≠ call)
    unserved := ((s.asked.filter (·.1 = call)).map (·.2)) ++ s.unserved }

/-- The transaction is rolled back. -/
def abort (s : Store) (call : Nat) : Store :=
  { s with calls := s.calls.erase call, asked := s.asked.filter (·.1 ≠ call) }

/-- The worker is done with the job. -/
def endWorker (s : Store) (worker : Nat) : Store :=
  { s with workers := s.workers.erase worker }

/-- The worker's claim takes the job. -/
def taken (s : Store) (key : String) (now : Nat) : Bool :=
  !s.locked none key && (s.jobs.lookup key).any (·.due now)

/-- A run starts.  It serves the requests that were made before. -/
def startRun (s : Store) (worker : Nat) (key : String) (attempts lockedAt : Nat) : Store :=
  { s with
    jobs := s.jobs.modify key fun job => { job with status := .running, lockedAt := some lockedAt }
    workers := s.workers.insert worker (.running key attempts)
    asked := s.asked.filter fun p =>
      p.2 ≠ key || (s.calls.lookup p.1).any (·.inTransaction)
    unserved := s.unserved.filter (· ≠ key) }

/-- The `updateMany` that claims the job. -/
def claim (s : Store) (worker lockedAt : Nat) : Worker → Store
  | .selected key attempts now =>
    if s.taken key now then s.startRun worker key attempts lockedAt
    else if s.locked none key then s
    else s.endWorker worker
  | .running _ _ => s

/-- The write at the end of a run. -/
def finish (s : Store) (worker : Nat) (key : String) (f : Job → Job) : Store :=
  if s.locked none key then s
  else { s.endWorker worker with jobs := s.jobs.modify key f }

end Store

/-- One statement. -/
def step (cfg : Config) (s : Store) : Event → Store
  | .start call inTransaction =>
    if (s.calls.lookup call).isNone then s.setCall call { inTransaction } else s
  | .request call key now =>
    match s.calls.lookup call with
    | some c => if c.stage = .idle then s.request call c key now else s
    | none => s
  | .advance call =>
    match s.calls.lookup call with
    | some c => s.advance call c
    | none => s
  | .close call =>
    match s.calls.lookup call with
    | some c => if c.stage = .idle then s.close call c else s
    | none => s
  | .abort call => s.abort call
  | .select worker key now =>
    match s.workers.lookup worker, s.jobs.lookup key with
    | none, some job =>
      if job.due now then
        { s with workers := s.workers.insert worker (.selected key job.attempts now) }
      else s
    | _, _ => s
  | .claim worker lockedAt =>
    match s.workers.lookup worker with
    | some w => s.claim worker lockedAt w
    | none => s
  | .complete worker =>
    match s.workers.lookup worker with
    | some (.running key _) =>
      s.finish worker key fun job => { job with status := .completed, lockedAt := none }
    | _ => s
  | .fail worker now =>
    match s.workers.lookup worker with
    | some (.running key attempts) =>
      s.finish worker key fun job =>
        { job with
          status := .failed
          attempts := attempts + 1
          lockedAt := none
          nextRunAt := now + cfg.retrySeconds (attempts + 1) * 1000 }
    | _ => s
  | .die worker => s.endWorker worker
  | .retry key now =>
    match s.jobs.lookup key with
    | some job =>
      if !s.locked none key && (job.status = .pending || job.status = .failed) then
        { s with jobs := s.jobs.insert key { nextRunAt := now } }
      else s
    | none => s

/-! ## Requests that are not lost -/

namespace Store

/-- No run of the job is under way. -/
def NoRun (s : Store) (key : String) : Prop :=
  ∀ worker w, s.workers.lookup worker = some w → w.runs key = false

/-- The job will be selected again: from some time on it is due, and if it counts as running
then nobody runs it any more. -/
def Waiting (s : Store) (key : String) : Prop :=
  ∃ job, s.jobs.lookup key = some job ∧ (∃ t, ∀ now, t ≤ now → job.due now = true) ∧
    (job.status = .running → s.NoRun key)

/-- A request meets a run: it is made while a run of its job is under way, or a run starts
between the request and the commit of its transaction. -/
def overlaps (s : Store) : Event → Bool
  | .request _ key _ => s.workers.pairs.any fun p => p.2.runs key
  | .claim worker _ =>
    match s.workers.lookup worker with
    | some (.selected key _ now) =>
      s.taken key now &&
        s.asked.any fun p => p.2 = key && (s.calls.lookup p.1).any (·.inTransaction)
    | _ => false
  | _ => false

end Store

end ChordV.Api.RevocationJobs
