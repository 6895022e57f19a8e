import ChordV.Api.Versions
import ChordV.Lib.Machine
import ChordV.Lib.Table
import Mathlib.Data.List.Sort

/-!
# The release center

Releases, their artifacts and the requests on them in
`apps/api/src/modules/common/release-center.service.ts`.

* A request is a sequence of statements, and requests interleave between them.  What a
  transaction writes appears with its commit.
* `withReleaseLineLock` holds a lock of the platform from `lock` to `commit`.  The transactions
  under `lockRelease` hold the row of the release throughout, and so each is one step.  The one
  of `createReleaseArtifact` is one step too, but nothing in it reads the release.
* The columns of an artifact that are computed from a request's input are a `Package`; an
  artifact transaction may write any.
* What the file system and the network answer about an artifact is part of the event.
* Ids are drawn from one counter, so none is used twice, and artifacts are listed in the order
  of their ids.
-/

namespace ChordV.Api.Releases

open Lib Lib.Machine Versions

/-! ## Rows -/

/-- `PlatformTarget`. -/
inductive Platform where
  | macos
  | windows
  | android
  | ios
deriving DecidableEq, Repr

/-- As the database spells it. -/
def Platform.name : Platform → String
  | .macos => "macos"
  | .windows => "windows"
  | .android => "android"
  | .ios => "ios"

/-- `ReleaseChannel`. -/
inductive Channel where
  | stable
  | beta
deriving DecidableEq, Repr

/-- `ReleaseStatus`. -/
inductive Status where
  | draft
  | published
  | archived
deriving DecidableEq, Repr

/-- What is read of a `Release`. -/
structure Release where
  platform : Platform
  channel : Channel
  version : Version
  displayTitle : Text
  changelog : List Text
  minimumVersion : Version
  forceUpgrade : Bool
  status : Status
  publishedAt : Option Nat

/-- `ReleaseArtifactType`. -/
inductive ArtifactType where
  | dmg
  | app
  | exe
  | setupExe
  | zip
  | apk
  | ipa
  | external
deriving DecidableEq, Repr

/-- What an administrator enters for an artifact. -/
structure Package where
  uploaded : Bool
  type : ArtifactType
  downloadUrl : Text
  fileName : Option Text := none
  storedFilePath : Option Text := none
  fileSizeBytes : Option Nat := none
  fileHash : Option Text := none
  updaterSignature : Option Text := none
deriving DecidableEq, Repr

/-- A row of `ReleaseArtifact`. -/
structure Artifact where
  releaseId : Nat
  isPrimary : Bool
  package : Package
deriving DecidableEq, Repr

/-- The same uploaded file. -/
def Package.duplicates (package other : Package) : Bool :=
  other.uploaded && other.type = package.type && other.fileHash = package.fileHash &&
    other.fileSizeBytes = package.fileSizeBytes

/-! ## Checks -/

/-- The release is not archived. -/
def assertReleaseRecordMutable (release : Release) : Except Exception Unit :=
  if release.status = .archived then .error (.badRequest "已归档的发布记录只读。") else .ok ()

/-- The release is a draft. -/
def assertReleaseArtifactsMutable (release : Release) : Except Exception Unit :=
  if release.status = .draft then .ok ()
  else .error (.badRequest "请先撤回发布，再编辑安装包。")

/-- The minimum is not above the version of the release. -/
def assertMinimumVersionNotAboveRelease (version minimumVersion : Version) :
    Except Exception Unit :=
  if precedence minimumVersion.semver version.semver = .gt then
    .error (.badRequest "最低可用版本不能高于发布版本。")
  else .ok ()

/-- The loop of `assertReleasePublishable` over the artifacts.  A failing one ends it on Windows,
a good one elsewhere.  `failure` is `lastArtifactError`. -/
def checkArtifacts (windows : Bool) (check : Nat → Option String) :
    List (Nat × Artifact) → Option String → Option String
  | [], failure => failure
  | (id, _) :: artifacts, _ =>
    match check id with
    | none => if windows then checkArtifacts windows check artifacts none else none
    | some message =>
      if windows then some message else checkArtifacts windows check artifacts (some message)

/-- `assertReleasePublishable` on the rows that it has read.  `check` answers for the files of an
artifact. -/
def assertReleasePublishable (release : Release) (artifacts : List (Nat × Artifact))
    (check : Nat → Option String) : Except Exception Unit := do
  assertReleaseRecordMutable release
  if artifacts.isEmpty then throw (.badRequest "发布前请至少添加一个安装包。")
  let windows := release.platform = .windows
  let publishArtifacts :=
    if windows then artifacts.filter fun a => a.2.package.type = .setupExe else artifacts
  if publishArtifacts.isEmpty then
    throw (.badRequest "Windows 发布需要签名的 EXE 安装包，不能继续发布旧 ZIP。")
  match checkArtifacts windows check publishArtifacts none with
  | some message =>
    throw (.badRequest (if windows then message
      else "当前发布没有可供客户端下载的 " ++ release.platform.name ++ " 安装包：" ++ message))
  | none => assertMinimumVersionNotAboveRelease release.version release.minimumVersion

/-- Rows that `assertReleasePublishable` has accepted.  `edits` counts the artifact transactions
of the release up to the read. -/
structure Verified where
  release : Release
  artifacts : List (Nat × Artifact)
  check : Nat → Option String
  accepted : assertReleasePublishable release artifacts check = .ok ()
  edits : Nat

/-- The newest version of a list, by `sort` with the arguments of `compareSemver` exchanged. -/
def latest (versions : List Version) : Option Version :=
  (versions.mergeSort fun left right => (precedence right.semver left.semver).isLE).head?

/-! ## Requests -/

/-- The columns that a status write changes. -/
structure Edit where
  channel : Option Channel := none
  displayTitle : Option Text := none
  changelog : Option (List Text) := none
  minimumVersion : Option Version := none
  forceUpgrade : Option Bool := none
  status : Option Status := none
  publishedAt : Option (Option Nat) := none
deriving DecidableEq

/-- The release after the edit. -/
def Edit.apply (data : Edit) (release : Release) : Release :=
  { release with
    channel := data.channel.getD release.channel
    displayTitle := data.displayTitle.getD release.displayTitle
    changelog := data.changelog.getD release.changelog
    minimumVersion := data.minimumVersion.getD release.minimumVersion
    forceUpgrade := data.forceUpgrade.getD release.forceUpgrade
    status := data.status.getD release.status
    publishedAt := data.publishedAt.getD release.publishedAt }

/-- The body of a creation. -/
structure CreateReleaseInput where
  platform : Platform
  channel : Channel := .stable
  version : Text
  displayTitle : Option Text := none
  changelog : List Text := []
  minimumVersion : Option Text := none
  forceUpgrade : Bool := false
  status : Status := .draft
  publishedAt : Option Nat := none
  initialArtifact : Option Package := none

/-- `status` is draft or published. -/
structure UpdateReleaseInput where
  channel : Option Channel := none
  displayTitle : Option Text := none
  changelog : Option (List Text) := none
  minimumVersion : Option Text := none
  forceUpgrade : Option Bool := none
  publish : Option Bool := none
  publishedAt : Option (Option Nat) := none

/-- `text.trim() || fallback`. -/
def titleOr (fallback title : Text) : Text :=
  if (Js.trim title).isEmpty then fallback else Js.trim title

/-- The lines that are not blank. -/
def normalizeChangelog (items : List Text) : List Text :=
  (items.map Js.trim).filter fun item => !item.isEmpty

/-- The minimum version of a new release, which by default is its version. -/
def CreateReleaseInput.minimumOr (input : CreateReleaseInput) (version : Version) :
    Except Exception Version :=
  match input.minimumVersion with
  | some text => if (Js.trim text).isEmpty then .ok version else readVersion text
  | none => .ok version

/-- The row that `createRelease` writes. -/
def CreateReleaseInput.release (input : CreateReleaseInput) : Except Exception Release := do
  if input.status = .published then
    throw (.badRequest "请先创建草稿并添加安装包，再发布版本。")
  let version ← readVersion input.version
  let minimumVersion ← input.minimumOr version
  assertMinimumVersionNotAboveRelease version minimumVersion
  return { platform := input.platform, channel := input.channel, version
           displayTitle := titleOr version.1 (input.displayTitle.getD [])
           changelog := normalizeChangelog input.changelog, minimumVersion
           forceUpgrade := input.forceUpgrade, status := input.status
           publishedAt := input.publishedAt }

/-- The minimum after the edit. -/
def UpdateReleaseInput.minimumOr (input : UpdateReleaseInput) (minimumVersion : Version) :
    Except Exception Version :=
  match input.minimumVersion with
  | some text => readVersion text
  | none => .ok minimumVersion

/-- The checks of `updateRelease` on the release that it has read, and `baseData`. -/
def UpdateReleaseInput.baseData (input : UpdateReleaseInput) (current : Release) :
    Except Exception Edit := do
  assertReleaseRecordMutable current
  let nextMinimumVersion ← input.minimumOr current.minimumVersion
  assertMinimumVersionNotAboveRelease current.version nextMinimumVersion
  return { channel := input.channel
           displayTitle := input.displayTitle.map (titleOr current.version.1)
           changelog := input.changelog.map normalizeChangelog
           minimumVersion := input.minimumVersion.map fun _ => nextMinimumVersion
           forceUpgrade := input.forceUpgrade
           publishedAt :=
             if input.publish.isNone && current.status = .published then input.publishedAt
             else none }

/-- What is done under the line lock. -/
inductive Task where
  /-- The update of `publishRelease` and of `writeReleaseEdit`. -/
  | edit (data : Edit)
  /-- `promoteRelease`, of the release as it was read. -/
  | promote (current : Release)

/-- The artifact transactions that take the lock of the release. -/
inductive Change where
  | update (artifactId : Nat)
  | upload
  | replace (artifactId : Nat)
  | delete (artifactId : Nat)
deriving DecidableEq, Repr

/-- The row that `unpublishRelease` leaves. -/
def Release.unpublish (release : Release) : Release :=
  { release with status := .draft, publishedAt := none }

/-- The row that the write under the line lock leaves. -/
def Task.write (task : Task) (now : Nat) (release : Release) : Release :=
  match task with
  | .edit data => data.apply release
  | .promote _ =>
    if release.channel = .beta ∧ release.status = .published then
      { release with channel := .stable, publishedAt := some now }
    else release

/-- A request between two of its statements. -/
inductive Call where
  /-- `updateRelease` is to publish, and has not yet verified the artifacts. -/
  | publishing (releaseId : Nat) (data : Edit) (publishedAt : Option Nat)
  /-- The request waits for the line lock. -/
  | waiting (releaseId : Nat) (task : Task) (verified : Option Verified)
  /-- It has the line lock of the platform, and has passed the check under it. -/
  | holding (platform : Platform) (releaseId : Nat) (task : Task) (verified : Option Verified)
  | unpublishing (releaseId : Nat)
  | deleting (releaseId : Nat)
  /-- `createReleaseArtifact` has read a draft. -/
  | creating (releaseId : Nat)
  /-- One of the other artifact requests has read a draft. -/
  | changing (releaseId : Nat) (change : Change)
  /-- `reuseReleaseArtifact` has read a draft and the artifact that it copies. -/
  | reusing (releaseId : Nat) (artifactId : Option Nat)

/-! ## The state -/

/-- The last field is no part of it: it counts the artifact transactions of each release. -/
structure Store where
  releases : Table Nat Release := ∅
  artifacts : Table Nat Artifact := ∅
  nextId : Nat := 0
  lineLocks : Table Platform Nat := ∅
  calls : Table Nat Call := ∅
  edits : Nat → Nat := fun _ => 0

/-- What happens to the releases. -/
inductive Event where
  | createRelease (input : CreateReleaseInput)
  | updateRelease (call releaseId : Nat) (input : UpdateReleaseInput)
  /-- `assertReleasePublishable` in `updateRelease`. -/
  | verify (call : Nat) (check : Nat → Option String) (now : Nat)
  /-- `publishRelease` up to the end of `assertReleasePublishable`. -/
  | publishRelease (call releaseId : Nat) (publishedAt : Option Nat)
      (check : Nat → Option String) (now : Nat)
  | promoteRelease (call releaseId : Nat)
  | unpublishRelease (call releaseId : Nat)
  | deleteRelease (call releaseId : Nat)
  | createReleaseArtifact (call releaseId : Nat)
  | changeReleaseArtifact (call releaseId : Nat) (change : Change)
  | reuseReleaseArtifact (call releaseId sourceArtifactId : Nat) (artifactId : Option Nat)
  /-- `reuseReleaseArtifact` has staged the file, and uploads it. -/
  | reuse (call : Nat)
  /-- The request gets the line lock and runs the check under it. -/
  | lock (call : Nat)
  /-- The last write of a request on a release, with the time. -/
  | commit (call now : Nat)
  /-- The transaction of an artifact request, with the columns that it writes. -/
  | write (call : Nat) (package : Package) (isPrimary : Option Bool)
  /-- A request fails, and with it its transaction. -/
  | abort (call : Nat)

namespace Store

/-- The request is at another point. -/
def setCall (s : Store) (call : Nat) (c : Call) : Store :=
  { s with calls := s.calls.insert call c }

/-- The request is over. -/
def endCall (s : Store) (call : Nat) : Store := { s with calls := s.calls.erase call }

/-- The artifacts of a release, the primary ones first. -/
def artifactsOf (s : Store) (releaseId : Nat) : List (Nat × Artifact) :=
  (s.artifacts.pairs.filter fun a => a.2.releaseId = releaseId).insertionSort fun a b =>
    (a.2.isPrimary && !b.2.isPrimary) = true ∨ a.2.isPrimary = b.2.isPrimary ∧ a.1 ≤ b.1

/-! ## Statements on releases -/

/-- The insertion of `createRelease`.  A platform has each version once. -/
def createRelease (s : Store) (input : CreateReleaseInput) : Store :=
  match input.release with
  | .error _ => s
  | .ok release =>
    if s.releases.pairs.any fun r =>
        r.2.platform = release.platform && r.2.version = release.version then s
    else
      match input.initialArtifact with
      | none => { s with releases := s.releases.insert s.nextId release, nextId := s.nextId + 1 }
      | some package =>
        { s with
          releases := s.releases.insert s.nextId release
          artifacts := s.artifacts.insert (s.nextId + 1)
            { releaseId := s.nextId, isPrimary := true, package }
          nextId := s.nextId + 2 }

/-- `updateRelease` up to its first write or to `assertReleasePublishable`. -/
def updateRelease (s : Store) (call releaseId : Nat) (input : UpdateReleaseInput) : Store :=
  match s.releases.lookup releaseId with
  | none => s
  | some current =>
    match input.baseData current with
    | .error _ => s
    | .ok data =>
      match input.publish with
      | some true => s.setCall call (.publishing releaseId data (input.publishedAt.getD none))
      | some false =>
        s.setCall call (.waiting releaseId
          (.edit { data with status := some .draft, publishedAt := some none }) none)
      | none =>
        if data = {} then s else s.setCall call (.waiting releaseId (.edit data) none)

/-- `assertReleasePublishable` reads the release with its artifacts.  If it accepts them, the
request goes on to publish. -/
def verify (s : Store) (call releaseId : Nat) (data : Edit) (publishedAt : Option Nat)
    (check : Nat → Option String) (now : Nat) : Store :=
  match s.releases.lookup releaseId with
  | none => s.endCall call
  | some release =>
    match h : assertReleasePublishable release (s.artifactsOf releaseId) check with
    | .error _ => s.endCall call
    | .ok _ =>
      s.setCall call (.waiting releaseId
        (.edit { data with status := some .published,
                           publishedAt := some (some (publishedAt.getD now)) })
        (some ⟨release, s.artifactsOf releaseId, check, h, s.edits releaseId⟩))

/-- The reads and checks of `promoteRelease` before the lock. -/
def promoteRelease (s : Store) (call releaseId : Nat) : Store :=
  match s.releases.lookup releaseId with
  | none => s
  | some current =>
    if current.channel = .beta ∧ current.status = .published then
      s.setCall call (.waiting releaseId (.promote current) none)
    else s

/-- The first read of a request, which only goes on if `assert` accepts the release. -/
def readRelease (s : Store) (releaseId : Nat) (assert : Release → Except Exception Unit)
    (call : Nat) (c : Call) : Store :=
  match s.releases.lookup releaseId with
  | none => s
  | some release =>
    match assert release with
    | .error _ => s
    | .ok _ => s.setCall call c

/-- The published stable versions of a platform. -/
def stableVersions (s : Store) (platform : Platform) : List Version :=
  (s.releases.pairs.filter fun r =>
    r.2.platform = platform && r.2.channel = .stable && r.2.status = .published).map
      fun r => r.2.version

/-- The check under the line lock. -/
def checkTask (s : Store) (persisted : Release) : Task → Except Exception Unit
  | .edit data =>
    match data.channel with
    | none => .ok ()
    | some nextChannel =>
      if persisted.channel ≠ nextChannel ∧ persisted.status ≠ .draft then
        .error (.badRequest "已发布版本不能直接切换通道；测试版验证通过后请使用“转为正式版”。")
      else .ok ()
  | .promote current =>
    match latest (s.stableVersions current.platform) with
    | none => .ok ()
    | some latestStable =>
      if (precedence latestStable.semver current.version.semver).isGE then
        .error (.badRequest
          ("正式版已是 " ++ String.ofList latestStable.1 ++ "，不低于此测试版，无需转正。"))
      else .ok ()

/-- The request gets the line lock, if no other has it. -/
def lock (s : Store) (call releaseId : Nat) (task : Task) (verified : Option Verified) : Store :=
  match s.releases.lookup releaseId with
  | none => s.endCall call
  | some persisted =>
    if (s.lineLocks.lookup persisted.platform).isSome then s
    else
      match s.checkTask persisted task with
      | .error _ => s.endCall call
      | .ok _ =>
        { s with
          lineLocks := s.lineLocks.insert persisted.platform call
          calls := s.calls.insert call (.holding persisted.platform releaseId task verified) }

/-- The last write of a request, and the end of its transaction. -/
def commit (s : Store) (call now : Nat) : Call → Store
  | .holding platform releaseId task _ =>
    { s with
      releases := s.releases.modify releaseId (Task.write task now)
      lineLocks := s.lineLocks.erase platform
      calls := s.calls.erase call }
  | .unpublishing releaseId =>
    { s with
      releases := s.releases.modify releaseId Release.unpublish
      calls := s.calls.erase call }
  | .deleting releaseId =>
    match s.releases.lookup releaseId with
    | none => s.endCall call
    | some release =>
      match assertReleaseRecordMutable release with
      | .error _ => s.endCall call
      | .ok _ =>
        { s with
          releases := s.releases.erase releaseId
          artifacts := s.artifacts.eraseAll ((s.artifactsOf releaseId).map Prod.fst)
          calls := s.calls.erase call }
  | _ => s

/-! ## Transactions on artifacts -/

/-- The artifact of a release with an id. -/
def artifact (s : Store) (releaseId artifactId : Nat) : Option Artifact :=
  (s.artifacts.lookup artifactId).filter fun a => a.releaseId = releaseId

/-- A new primary artifact takes the mark from the others. -/
def clearPrimary (s : Store) (releaseId : Nat) (isPrimary : Option Bool) : Table Nat Artifact :=
  if isPrimary = some true then
    s.artifacts.updateWhere (fun _ a => a.releaseId = releaseId) fun a =>
      { a with isPrimary := false }
  else s.artifacts

/-- Counts an artifact transaction. -/
def edited (s : Store) (releaseId : Nat) : Store :=
  { s with edits := Function.update s.edits releaseId (s.edits releaseId + 1) }

/-- Writes a new row. -/
def insertArtifact (s : Store) (releaseId : Nat) (package : Package) (isPrimary : Option Bool) :
    Store :=
  { s.edited releaseId with
    artifacts := (s.clearPrimary releaseId isPrimary).insert s.nextId
      { releaseId, isPrimary := isPrimary.getD false, package }
    nextId := s.nextId + 1 }

/-- Writes the row of an artifact that is there. -/
def replaceArtifact (s : Store) (releaseId artifactId : Nat) (current : Artifact)
    (package : Package) (isPrimary : Option Bool) : Store :=
  { s.edited releaseId with
    artifacts := (s.clearPrimary releaseId isPrimary).insert artifactId
      { releaseId, isPrimary := isPrimary.getD current.isPrimary, package } }

/-- The deletion of an artifact.  Another one of the release takes over the mark. -/
def deleteArtifact (s : Store) (releaseId artifactId : Nat) (current : Artifact) : Store :=
  let siblings := (s.artifactsOf releaseId).filter fun a => a.1 ≠ artifactId
  let remaining := s.artifacts.erase artifactId
  { s.edited releaseId with
    artifacts :=
      if current.isPrimary then
        match siblings.head? with
        | some next => Table.modify remaining next.1 fun a => { a with isPrimary := true }
        | none => remaining
      else remaining }

/-- What the transactions under `lockRelease` write. -/
def change (s : Store) (releaseId : Nat) (package : Package) (isPrimary : Option Bool) :
    Change → Store
  | .update artifactId | .replace artifactId =>
    match s.artifact releaseId artifactId with
    | none => s
    | some current => s.replaceArtifact releaseId artifactId current package isPrimary
  | .upload =>
    match (s.artifactsOf releaseId).find? fun a => package.duplicates a.2.package with
    | some duplicate => s.replaceArtifact releaseId duplicate.1 duplicate.2 package isPrimary
    | none => s.insertArtifact releaseId package isPrimary
  | .delete artifactId =>
    match s.artifact releaseId artifactId with
    | none => s
    | some current => s.deleteArtifact releaseId artifactId current

/-- `lockRelease`, and the transaction if it accepts the release. -/
def changeLocked (s : Store) (releaseId : Nat) (package : Package) (isPrimary : Option Bool)
    (c : Change) : Store :=
  match s.releases.lookup releaseId with
  | none => s
  | some release =>
    match assertReleaseArtifactsMutable release with
    | .error _ => s
    | .ok _ => s.change releaseId package isPrimary c

/-- The transaction of an artifact request.  The insertion of `createReleaseArtifact` only needs
the release to exist. -/
def write (s : Store) (call : Nat) (package : Package) (isPrimary : Option Bool) : Call → Store
  | .creating releaseId =>
    match s.releases.lookup releaseId with
    | none => s.endCall call
    | some _ => (s.insertArtifact releaseId package isPrimary).endCall call
  | .changing releaseId c => (s.changeLocked releaseId package isPrimary c).endCall call
  | _ => s

/-- Whether the artifact that a request names is there. -/
def hasTarget (s : Store) (releaseId : Nat) : Change → Bool
  | .upload => true
  | .update artifactId | .replace artifactId | .delete artifactId =>
    (s.artifact releaseId artifactId).isSome

/-- Reads that let an artifact request go on. -/
def readArtifact (s : Store) (call releaseId : Nat) (c : Change) : Store :=
  if s.hasTarget releaseId c then
    s.readRelease releaseId assertReleaseArtifactsMutable call (.changing releaseId c)
  else s

/-- The reads of `reuseReleaseArtifact`: a draft, and an uploaded artifact of its platform. -/
def reuseReleaseArtifact (s : Store) (call releaseId sourceArtifactId : Nat)
    (artifactId : Option Nat) : Store :=
  match s.releases.lookup releaseId, s.artifacts.lookup sourceArtifactId with
  | some target, some source =>
    match s.releases.lookup source.releaseId with
    | none => s
    | some sourceRelease =>
      if target.status = .draft ∧ source.package.uploaded = true ∧
          source.package.storedFilePath.isSome ∧ sourceRelease.platform = target.platform then
        s.setCall call (.reusing releaseId artifactId)
      else s
  | _, _ => s

/-- A failing request releases the lock that it holds. -/
def abort (s : Store) (call : Nat) : Call → Store
  | .holding platform _ _ _ =>
    { s with lineLocks := s.lineLocks.erase platform, calls := s.calls.erase call }
  | _ => s.endCall call

/-! ## The machine -/

/-- The first statement of a request. -/
def begin (s : Store) : Event → Store
  | .updateRelease call releaseId input => s.updateRelease call releaseId input
  | .publishRelease call releaseId publishedAt check now =>
    s.verify call releaseId {} publishedAt check now
  | .promoteRelease call releaseId => s.promoteRelease call releaseId
  | .unpublishRelease call releaseId =>
    s.readRelease releaseId assertReleaseRecordMutable call (.unpublishing releaseId)
  | .deleteRelease call releaseId =>
    s.readRelease releaseId assertReleaseRecordMutable call (.deleting releaseId)
  | .createReleaseArtifact call releaseId =>
    s.readRelease releaseId assertReleaseArtifactsMutable call (.creating releaseId)
  | .changeReleaseArtifact call releaseId c => s.readArtifact call releaseId c
  | .reuseReleaseArtifact call releaseId sourceArtifactId artifactId =>
    s.reuseReleaseArtifact call releaseId sourceArtifactId artifactId
  | _ => s

/-- A later statement of a request. -/
def advance (s : Store) (call : Nat) (c : Call) : Event → Store
  | .verify _ check now =>
    match c with
    | .publishing releaseId data publishedAt => s.verify call releaseId data publishedAt check now
    | _ => s
  | .lock _ =>
    match c with
    | .waiting releaseId task verified => s.lock call releaseId task verified
    | _ => s
  | .reuse _ =>
    match c with
    | .reusing releaseId artifactId =>
      (s.endCall call).readArtifact call releaseId ((artifactId.map .replace).getD .upload)
    | _ => s
  | .commit _ now => s.commit call now c
  | .write _ package isPrimary => s.write call package isPrimary c
  | .abort _ => s.abort call c
  | _ => s

end Store

/-- The request that an event starts or continues. -/
def Event.call : Event → Option Nat
  | .createRelease _ => none
  | .updateRelease call _ _ | .verify call _ _ | .publishRelease call _ _ _ _
  | .promoteRelease call _ | .unpublishRelease call _ | .deleteRelease call _
  | .createReleaseArtifact call _ | .changeReleaseArtifact call _ _
  | .reuseReleaseArtifact call _ _ _ | .reuse call | .lock call | .commit call _
  | .write call _ _ | .abort call => some call

/-- One statement of a request.  A request has one number from its first statement to its last. -/
def step (s : Store) (e : Event) : Store :=
  match e with
  | .createRelease input => s.createRelease input
  | e =>
    match e.call with
    | none => s
    | some call =>
      match s.calls.lookup call with
      | none => s.begin e
      | some c => s.advance call c e

/-- There is no release yet. -/
def start : Store := {}

end ChordV.Api.Releases
