import Mathlib.Logic.Function.Basic
import Mathlib.Tactic.Common

/-!
# The stored versions of a runtime component

`runtime-version.service.ts`, with `prepareRuntimeVersion` of `runtime-version-files.ts` and
`removeOrQueue`, `references` and `processJob` of `file-maintenance.service.ts`, for one component
and all processes of the API.  Times are in milliseconds.

* The operations that lock the row of the component are transactions of two steps.  They read and
  decide when they get the lock, and their writes are seen at the commit.  A transaction that
  cannot have the lock waits, so its step changes nothing.
* A worker is the part of `processPending` after the claim.  Its statements take no lock, so they
  come between the two steps of a transaction too.  A statement may fail after it was done.
* `deduplicate` replaces a file by one with the same content, so it does not show here.
* `replaced` and `lastActivation` are no data of the program.  They record which version the
  latest activation has replaced, and when it was.
-/

namespace ChordV.Api.RuntimeVersions

/-- One day, in milliseconds. -/
def dayMs : Nat := 24 * 60 * 60000
/-- Six hours, in milliseconds. -/
def everySixHours : Nat := 6 * 60 * 60000
/-- `MANUAL_RETENTION_MS`. -/
def manualRetentionMs : Nat := 30 * dayMs
/-- `AUTO_RETENTION_MS`. -/
def autoRetentionMs : Nat := 2 * dayMs
/-- A download that was not written for so long is taken for interrupted. -/
def interruptedAfterMs : Nat := 15 * 60000

/-- `RuntimeComponentKind`. -/
inductive Kind where
  | xray | geoip | geosite
deriving DecidableEq, Repr

/-- `RuntimeComponentVersionStatus`. -/
inductive Status where
  | queued | downloading | verifying | ready | failed | unchanged
deriving DecidableEq, Repr

/-- `IN_PROGRESS`. -/
def Status.inProgress (status : Status) : Bool :=
  status == .queued || status == .downloading || status == .verifying

/-- The statuses that a clean-up of versions takes. -/
def Status.settled (status : Status) : Bool :=
  status == .ready || status == .failed || status == .unchanged

/-- A source address, with what the service reads of it: `latest` is that
`parseGithubLatestDownloadUrl` takes it, and `tag` is the release tag of a `github.com` path. -/
structure SourceUrl where
  href : String
  https : Bool := true
  credentials : Bool := false
  latest : Bool := false
  tag : Option String := none
deriving DecidableEq, Repr

/-- A row of `RuntimeComponentVersion`.  `storedFilePath` is that the column is set: it is always
set to the path of the version. -/
structure Row where
  sourceUrl : SourceUrl
  requestedVersion : Option String := none
  status : Status := .queued
  autoActivate : Bool := false
  fileHash : Option String := none
  fileSizeBytes : Option Nat := none
  storedFilePath : Bool := false
  createdAt : Nat
  updatedAt : Nat
  publishedAt : Option Nat := none
  retainUntil : Option Nat := none
deriving DecidableEq, Repr

/-- The row of `RuntimeComponentDelivery`. -/
structure Policy where
  sourceUrl : SourceUrl
  selectedVersion : Option String
  autoLatest : Bool
  nextCheckAt : Nat
  activeVersionId : Option Nat := none
deriving DecidableEq, Repr

/-! ## Retention -/

/-- How long a version is kept. -/
def runtimeRetentionMs (policy : Option Policy) (kind : Kind) : Nat :=
  if policy.any (·.autoLatest) && kind != .xray then autoRetentionMs else manualRetentionMs

/-- The version may go. -/
def isPastRetention (row : Row) (retentionMs now : Nat) : Bool :=
  !row.status.inProgress
    && row.publishedAt.all (· + retentionMs < now)
    && row.retainUntil.all (· ≤ now)

/-- The order of the sort of `selectExpiredAutoVersions`. -/
def publishedLater (a b : Nat × Row) : Bool :=
  b.2.publishedAt.getD 0 ≤ a.2.publishedAt.getD 0

/-- `previous`: the ready version that was published last, the active one apart. -/
def previousVersion (rows : List (Nat × Row)) (activeVersionId : Option Nat) : Option Nat :=
  let candidates := rows.filter fun (id, row) =>
    row.status == .ready && some id != activeVersionId && row.publishedAt.isSome
  (candidates.mergeSort publishedLater).head?.map (·.1)

/-- The versions of automatic updates that may go. -/
def selectExpiredAutoVersions (rows : List (Nat × Row)) (activeVersionId : Option Nat)
    (now : Nat) : List (Nat × Row) :=
  let protectedIds := activeVersionId.toList ++ (previousVersion rows activeVersionId).toList
  rows.filter fun (id, row) =>
    !protectedIds.contains id
      && row.status.settled
      && row.createdAt + autoRetentionMs < now
      && isPastRetention row autoRetentionMs now

/-- The order of the newest versions of a component that is not followed. -/
def createdLater (a b : Nat × Row) : Bool :=
  b.2.createdAt < a.2.createdAt || b.2.createdAt == a.2.createdAt && b.1 ≤ a.1

/-- The selection of `pruneVersions` for a component that is not followed. -/
def selectExpiredManualVersions (rows : List (Nat × Row)) (activeVersionId : Option Nat)
    (now : Nat) : List (Nat × Row) :=
  let newest := ((rows.mergeSort createdLater).take 20).map (·.1)
  let protectedIds := newest ++ activeVersionId.toList
  rows.filter fun (id, row) =>
    !protectedIds.contains id
      && row.status.settled
      && row.createdAt + manualRetentionMs < now
      && row.publishedAt.all (· + manualRetentionMs < now)
      && row.retainUntil.all (· ≤ now)

/-! ## One version -/

/-- What `prepareRuntimeVersion` returns. -/
structure Result where
  fileHash : String
  fileSizeBytes : Nat
deriving DecidableEq, Repr

/-- Where the worker is. -/
inductive Phase where
  /-- In `prepareRuntimeVersion`, before the file is at its path. -/
  | preparing
  | placed (result : Result)
  | policyRead (result : Result) (activeVersionId : Option Nat)
  | compared (result : Result) (sameAsActive : Bool)
  /-- The row was written `unchanged`. -/
  | unchanged
  /-- The row was written `ready`. -/
  | ready
  /-- In the handler of an error. -/
  | failing
  /-- The handler has read the row. -/
  | marking (wasReady : Bool)
  /-- In `removeOrQueue`. -/
  | removing
  | unlinking
deriving DecidableEq, Repr

/-- The `try` of the worker covers these phases. -/
def Phase.guarded : Phase → Bool
  | .preparing | .placed _ | .policyRead _ _ | .compared _ _ | .unchanged | .ready => true
  | .failing | .marking _ | .removing | .unlinking => false

/-- A worker on a version. -/
structure Worker where
  autoActivate : Bool
  phase : Phase
deriving DecidableEq, Repr

/-- A version: its row, the worker that has claimed it, whether its file is in place, and the
revision of the clean-up job of its path. -/
structure Version where
  row : Option Row := none
  worker : Option Worker := none
  file : Bool := false
  cleanupJob : Option Nat := none
deriving DecidableEq, Repr

namespace Version

/-- The row has changed. -/
def update (v : Version) (f : Row → Row) : Version := { v with row := v.row.map f }

/-- The worker goes on. -/
def go (v : Version) (worker : Worker) (phase : Phase) : Version :=
  { v with worker := some { worker with phase } }

/-- A cleanup is asked for, again if one is pending. -/
def enqueue (v : Version) : Version :=
  { v with cleanupJob := some (v.cleanupJob.elim 0 (· + 1)) }

/-- `elsewhere` is that another row or an alias refers to the file, or cannot be resolved. -/
def references (v : Version) (elsewhere : Bool) : Bool :=
  elsewhere || v.row.any fun row =>
    row.storedFilePath || row.status.inProgress || row.status == .ready

/-- The first statement of `processPending`. -/
def sweep (v : Version) (now : Nat) : Version :=
  v.update fun row =>
    if (row.status == .downloading || row.status == .verifying)
        && row.updatedAt + interruptedAfterMs < now then
      { row with status := .failed, updatedAt := now }
    else row

/-- The worker claims a version that is queued. -/
def claim (v : Version) (now : Nat) : Version :=
  match v.row with
  | some row =>
    if row.status = .queued then
      { v with
        row := some { row with status := .downloading, updatedAt := now }
        worker := some { autoActivate := row.autoActivate, phase := .preparing } }
    else v
  | none => v

/-- The callback of the download.  It throws where the row is gone. -/
def progress (v : Version) (verifying : Bool) (now : Nat) : Version :=
  match v.worker, v.row with
  | some { autoActivate, phase := .preparing }, some row =>
    let status := if verifying then .verifying else .downloading
    { v with
      row := some { row with status, updatedAt := now }
      worker := some { autoActivate, phase := .preparing } }
  | some { autoActivate, phase := .preparing }, none =>
    v.go { autoActivate, phase := .preparing } .failing
  | _, _ => v

/-- The rename at the end of `prepareRuntimeVersion`. -/
def place (v : Version) (result : Result) : Version :=
  match v.worker with
  | some { autoActivate, phase := .preparing } =>
    { v with file := true, worker := some { autoActivate, phase := .placed result } }
  | _ => v

/-- The worker reads the policy. -/
def readPolicy (v : Version) (activeVersionId : Option Nat) : Version :=
  match v.worker with
  | some { autoActivate, phase := .placed result } =>
    { v with worker := some { autoActivate, phase := .policyRead result activeVersionId } }
  | _ => v

/-- `activeHash` is of the version that the policy named when it was read. -/
def readActive (v : Version) (activeHash : Option String) : Version :=
  match v.worker with
  | some { autoActivate, phase := .policyRead result _ } =>
    let sameAsActive := autoActivate && activeHash == some result.fileHash
    { v with worker := some { autoActivate, phase := .compared result sameAsActive } }
  | _ => v

/-- The last statement of a download.  A file that is not needed is queued with it. -/
def settle (v : Version) (now : Nat) : Version :=
  match v.worker, v.row with
  | some { autoActivate, phase := .compared result true }, some row =>
    { v with
      row := some { row with
        status := .unchanged, fileHash := some result.fileHash
        fileSizeBytes := some result.fileSizeBytes, storedFilePath := false, updatedAt := now }
      worker := some { autoActivate, phase := .unchanged } }.enqueue
  | some { autoActivate, phase := .compared result false }, some row =>
    { v with
      row := some { row with
        status := .ready, fileHash := some result.fileHash
        fileSizeBytes := some result.fileSizeBytes, storedFilePath := true, updatedAt := now }
      worker := some { autoActivate, phase := .ready } }
  | some { autoActivate, phase := .compared result sameAsActive }, none =>
    v.go { autoActivate, phase := .compared result sameAsActive } .failing
  | _, _ => v

/-- The work has failed. -/
def fail (v : Version) : Version :=
  match v.worker with
  | some worker => if worker.phase.guarded then v.go worker .failing else v
  | none => v

/-- The worker returns, or its process ends. -/
def stop (v : Version) : Version := { v with worker := none }

/-- `existing` of the handler. -/
def readStatus (v : Version) : Version :=
  match v.worker, v.row with
  | some { autoActivate, phase := .failing }, some row =>
    { v with worker := some { autoActivate, phase := .marking (row.status == .ready) } }
  | some { autoActivate := _, phase := .failing }, none => v.stop
  | _, _ => v

/-- The worker writes the outcome. -/
def mark (v : Version) (now : Nat) : Version :=
  match v.worker, v.row with
  | some { autoActivate := _, phase := .marking true }, some row =>
    { v with row := some { row with status := .ready, updatedAt := now } }.stop
  | some { autoActivate, phase := .marking false }, some row =>
    { v with
      row := some { row with status := .failed, updatedAt := now }
      worker := some { autoActivate, phase := .removing } }
  | some { autoActivate := _, phase := .marking _ }, none => v.stop
  | _, _ => v

/-- `removeOrQueue` looks for the file and its references. -/
def check (v : Version) (elsewhere : Bool) : Version :=
  match v.worker with
  | some { autoActivate, phase := .removing } =>
    if v.file && !v.references elsewhere then
      { v with worker := some { autoActivate, phase := .unlinking } }
    else v.stop
  | _ => v

/-- The worker removes the file. -/
def unlink (v : Version) : Version :=
  match v.worker with
  | some { autoActivate := _, phase := .unlinking } => { v with file := false }.stop
  | _ => v

/-- `removeOrQueue` could not do its work. -/
def queue (v : Version) : Version :=
  match v.worker with
  | some { autoActivate := _, phase := .removing } => v.enqueue.stop
  | some { autoActivate := _, phase := .unlinking } => v.enqueue.stop
  | _ => v

end Version

/-- What happens to one version without the lock of the component. -/
inductive Work where
  | sweep (now : Nat)
  | claim (now : Nat)
  | progress (verifying : Bool) (now : Nat)
  | place (result : Result)
  | readPolicy
  | readActive
  | settle (now : Nat)
  | fail
  | stop
  | readStatus
  | mark (now : Nat)
  | check (elsewhere : Bool)
  | unlink
  | queue
deriving DecidableEq, Repr

/-- `activeVersionId` and `activeHash` are what `readPolicy` and `readActive` find. -/
def Version.work (v : Version) (activeVersionId : Option Nat) (activeHash : Option String) :
    Work → Version
  | .sweep now => v.sweep now
  | .claim now => v.claim now
  | .progress verifying now => v.progress verifying now
  | .place result => v.place result
  | .readPolicy => v.readPolicy activeVersionId
  | .readActive => v.readActive activeHash
  | .settle now => v.settle now
  | .fail => v.fail
  | .stop => v.stop
  | .readStatus => v.readStatus
  | .mark now => v.mark now
  | .check elsewhere => v.check elsewhere
  | .unlink => v.unlink
  | .queue => v.queue

/-! ## The component -/

/-- The writes of a transaction that has the lock. -/
inductive Tx where
  /-- The policy, and the row of a new version. -/
  | save (policy : Policy) (created : Option Row)
  | activate (id now retentionMs : Nat)
  /-- `followed` is that the component follows the latest version.  The others than the active
  version keep their `retainUntil` up to `clampTo`. -/
  | remove (followed : Bool) (clampTo : Option Nat) (ids : List Nat)
deriving DecidableEq, Repr

/-- Where a cleanup is. -/
inductive Stage where
  | checking | unlinking | finishing
deriving DecidableEq, Repr

/-- A call of `processJob`. -/
structure Cleaner where
  id : Nat
  revision : Nat
  stage : Stage := .checking
deriving DecidableEq, Repr

/-- The versions of a component, its policy and its lock. -/
structure State where
  kind : Kind
  /-- The component is one for iOS. -/
  ios : Bool := false
  versions : Nat → Version := fun _ => {}
  /-- The ids that `randomUUID` has not given yet start here. -/
  fresh : Nat := 0
  policy : Option Policy := none
  lock : Option Tx := none
  cleaners : Nat → Option Cleaner := fun _ => none
  replaced : Option Nat := none
  lastActivation : Option Nat := none

/-- What an administrator enters for a source. -/
structure SourceInput where
  sourceUrl : SourceUrl
  version : Option String := none
  autoLatest : Bool
deriving DecidableEq, Repr

/-- What happens to the component. -/
inductive Event where
  /-- `saved` is a version that was found ready, with a file that fits its row. -/
  | acquire (input : SourceInput) (saved : Option (Nat × Row)) (now : Nat)
  | setAutoLatest (enabled : Bool) (now : Nat)
  | scheduleLatest (now : Nat)
  | activate (id : Nat) (automatic : Bool) (now : Nat)
  | deleteVersion (id now : Nat)
  /-- `order` is the order in which the database gives the rows. -/
  | pruneVersions (order : List Nat) (now : Nat)
  | commit
  | rollback
  | work (id : Nat) (work : Work)
  /-- A call `cleaner` of `processJob` for the job of the path of `id`. -/
  | takeJob (cleaner id : Nat)
  | checkJob (cleaner : Nat) (elsewhere : Bool)
  | unlinkJob (cleaner : Nat)
  | finishJob (cleaner : Nat)
  /-- A statement of `processJob` throws, or its process ends. -/
  | failJob (cleaner : Nat)
deriving DecidableEq, Repr

namespace State

/-- The version in use. -/
def activeVersionId (s : State) : Option Nat := s.policy.bind (·.activeVersionId)

/-- The row of the version. -/
def row (s : State) (id : Nat) : Option Row := (s.versions id).row

/-- The version has changed. -/
def setVersion (s : State) (id : Nat) (v : Version) : State :=
  { s with versions := Function.update s.versions id v }

/-- Some version is queued, downloaded or verified. -/
def pending (s : State) : Bool :=
  (List.range s.fresh).any fun id => (s.row id).any (·.status.inProgress)

/-- The rows that a query finds. -/
def rowsIn (s : State) (order : List Nat) : List (Nat × Row) :=
  order.filterMap fun id => (s.row id).map (id, ·)

/-! ### The transactions, up to their commit -/

/-- Sets the source and queues a download. -/
def acquire (s : State) (input : SourceInput) (saved : Option (Nat × Row)) (now : Nat) :
    Option Tx :=
  let url := input.sourceUrl
  let accepted := !(s.kind == .xray && s.ios)
    && url.https && !url.credentials
    && !(s.kind == .xray && input.autoLatest) && (input.autoLatest || !url.latest)
    && (!input.autoLatest || url.latest)
    && (url.latest || input.version.isSome)
    && (url.tag.isNone || url.tag == input.version)
  if !accepted || s.pending then none
  else
    let policy : Policy :=
      { sourceUrl := url, selectedVersion := input.version, autoLatest := input.autoLatest
        nextCheckAt := now + everySixHours, activeVersionId := s.activeVersionId }
    let reused := saved.any fun (id, row) =>
      !input.autoLatest && row.sourceUrl.href == url.href && row.requestedVersion == input.version
        && row.fileHash.isSome
        && (s.row id).any fun existing =>
          existing.status == .ready && existing.fileHash == row.fileHash
            && existing.fileSizeBytes == row.fileSizeBytes
            && existing.storedFilePath == row.storedFilePath
    if reused then some (.save policy none)
    else
      some (.save policy (some
        { sourceUrl := url, requestedVersion := input.version
          autoActivate := input.autoLatest && s.kind != .xray
          createdAt := now, updatedAt := now }))

/-- Switches the automatic updates. -/
def setAutoLatest (s : State) (enabled : Bool) (now : Nat) : Option Tx :=
  match s.policy with
  | none => none
  | some policy =>
    if s.kind = .xray || enabled && !policy.sourceUrl.latest then none
    else some (.save { policy with autoLatest := enabled, nextCheckAt := now } none)

/-- Queues the download that is due. -/
def scheduleLatest (s : State) (now : Nat) : Option Tx :=
  match s.policy with
  | none => none
  | some policy =>
    if !policy.autoLatest || now < policy.nextCheckAt || s.kind == .xray
        || !policy.sourceUrl.latest || s.pending then none
    else
      some (.save { policy with nextCheckAt := now + everySixHours }
        (some { sourceUrl := policy.sourceUrl, autoActivate := true
                createdAt := now, updatedAt := now }))

/-- The worker of the version activates it, where the download was to be activated. -/
def automaticCall (v : Version) : Bool :=
  v.worker == some { autoActivate := true, phase := .ready }

/-- Puts a version that is ready into use. -/
def activate (s : State) (id : Nat) (automatic : Bool) (now : Nat) : Option Tx :=
  let v := s.versions id
  match v.row, s.policy with
  | some version, some policy =>
    if version.status ≠ .ready || !v.file then none
    else if automatic && (!automaticCall v || !policy.autoLatest
        || policy.sourceUrl.href != version.sourceUrl.href || s.kind == .xray) then none
    else some (.activate id now (runtimeRetentionMs s.policy s.kind))
  | _, _ => none

/-- Deletes a version that is neither used nor being worked on. -/
def deleteVersion (s : State) (id now : Nat) : Option Tx :=
  match s.row id with
  | none => none
  | some version =>
    if s.activeVersionId = some id || version.status.inProgress
        || !isPastRetention version (runtimeRetentionMs s.policy s.kind) now then none
    else some (.remove false none [id])

/-- `retainUntil` is at most `clampTo`, the active version apart. -/
def clampRow (s : State) (clampTo : Option Nat) (id : Nat) (row : Row) : Row :=
  match clampTo with
  | some limit =>
    if s.activeVersionId ≠ some id && row.retainUntil.any (limit < ·) then
      { row with retainUntil := some limit }
    else row
  | none => row

/-- Deletes the versions that may go. -/
def pruneVersions (s : State) (order : List Nat) (now : Nat) : Option Tx :=
  if s.policy.isNone || !order.isPerm (List.range s.fresh) then none
  else if runtimeRetentionMs s.policy s.kind = autoRetentionMs then
    let clampTo := some (now + autoRetentionMs)
    let rows := (s.rowsIn order).map fun (id, row) => (id, s.clampRow clampTo id row)
    let expired := (selectExpiredAutoVersions rows s.activeVersionId now).take 200
    some (.remove true clampTo (expired.map (·.1)))
  else
    let expired := (selectExpiredManualVersions (s.rowsIn order) s.activeVersionId now).take 200
    some (.remove false none (expired.map (·.1)))

/-- A transaction gets the lock when no other one has it. -/
def begin (s : State) (tx : Option Tx) : State :=
  match s.lock with
  | none => { s with lock := tx }
  | some _ => s

/-! ### The commits -/

/-- Writes the policy, and the new row if there is one. -/
def save (s : State) (policy : Policy) (created : Option Row) : State :=
  match created with
  | none => { s with policy := some policy }
  | some row =>
    { s with
      policy := some policy
      versions := Function.update s.versions s.fresh { s.versions s.fresh with row := some row }
      fresh := s.fresh + 1 }

/-- The version is in use, and the one before it is kept for a while. -/
def commitActivation (s : State) (id now retentionMs : Nat) : State :=
  { s with
    versions := fun other =>
      if other = id then
        (s.versions other).update fun row =>
          { row with publishedAt := some now, retainUntil := some (now + retentionMs) }
      else if s.activeVersionId = some other then
        (s.versions other).update fun row => { row with retainUntil := some (now + retentionMs) }
      else s.versions other
    policy := s.policy.map fun policy => { policy with activeVersionId := some id }
    replaced := if s.activeVersionId = some id then s.replaced else s.activeVersionId
    lastActivation := some now }

/-- Deletes the rows and asks for the cleanup of their files. -/
def remove (s : State) (clampTo : Option Nat) (ids : List Nat) : State :=
  { s with
    versions := fun id =>
      if ids.contains id then { s.versions id with row := none }.enqueue
      else (s.versions id).update (s.clampRow clampTo id) }

/-- The transaction commits. -/
def commit (s : State) : State :=
  match s.lock with
  | none => s
  | some (.save policy created) => { s.save policy created with lock := none }
  | some (.activate id now retentionMs) =>
    { s.commitActivation id now retentionMs with lock := none }
  | some (.remove _ clampTo ids) => { s.remove clampTo ids with lock := none }

/-- The transaction is rolled back. -/
def rollback (s : State) : State := { s with lock := none }

/-! ### The steps without the lock -/

/-- What a worker finds that reads the row of the version it knows as the active one. -/
def activeHash (s : State) (v : Version) : Option String :=
  match v.worker with
  | some { autoActivate := _, phase := .policyRead _ (some activeId) } =>
    (s.row activeId).bind (·.fileHash)
  | _ => none

/-- One step of the worker. -/
def work (s : State) (id : Nat) (work : Work) : State :=
  let v := s.versions id
  s.setVersion id (v.work s.activeVersionId (s.activeHash v) work)

/-- The cleanup is at another point. -/
def setCleaner (s : State) (cleaner : Nat) (call : Option Cleaner) : State :=
  { s with cleaners := Function.update s.cleaners cleaner call }

/-- A cleanup takes the job. -/
def takeJob (s : State) (cleaner id : Nat) : State :=
  match s.cleaners cleaner, (s.versions id).cleanupJob with
  | none, some revision => s.setCleaner cleaner (some { id, revision })
  | _, _ => s

/-- The cleanup looks for rows that use the file. -/
def checkJob (s : State) (cleaner : Nat) (elsewhere : Bool) : State :=
  match s.cleaners cleaner with
  | some { id, revision, stage := .checking } =>
    let stage := if (s.versions id).references elsewhere then .finishing else .unlinking
    s.setCleaner cleaner (some { id, revision, stage })
  | _ => s

/-- The cleanup removes the file. -/
def unlinkJob (s : State) (cleaner : Nat) : State :=
  match s.cleaners cleaner with
  | some { id, revision, stage := .unlinking } =>
    (s.setVersion id { s.versions id with file := false }).setCleaner cleaner
      (some { id, revision, stage := .finishing })
  | _ => s

/-- `deleteMany` with the revision. -/
def finishJob (s : State) (cleaner : Nat) : State :=
  match s.cleaners cleaner with
  | some { id, revision, stage := .finishing } =>
    let v := s.versions id
    let cleanupJob := if v.cleanupJob = some revision then none else v.cleanupJob
    (s.setVersion id { v with cleanupJob }).setCleaner cleaner none
  | _ => s

/-- The cleanup fails; its job stays. -/
def failJob (s : State) (cleaner : Nat) : State := s.setCleaner cleaner none

end State

/-- One step of the system. -/
def step (s : State) : Event → State
  | .acquire input saved now => s.begin (s.acquire input saved now)
  | .setAutoLatest enabled now => s.begin (s.setAutoLatest enabled now)
  | .scheduleLatest now => s.begin (s.scheduleLatest now)
  | .activate id automatic now => s.begin (s.activate id automatic now)
  | .deleteVersion id now => s.begin (s.deleteVersion id now)
  | .pruneVersions order now => s.begin (s.pruneVersions order now)
  | .commit => s.commit
  | .rollback => s.rollback
  | .work id work => s.work id work
  | .takeJob cleaner id => s.takeJob cleaner id
  | .checkJob cleaner elsewhere => s.checkJob cleaner elsewhere
  | .unlinkJob cleaner => s.unlinkJob cleaner
  | .finishJob cleaner => s.finishJob cleaner
  | .failJob cleaner => s.failJob cleaner

end ChordV.Api.RuntimeVersions
