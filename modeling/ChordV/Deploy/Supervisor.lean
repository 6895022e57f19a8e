import ChordV.Deploy.Journal
import ChordV.Lib.Machine
import Mathlib.Data.List.Basic

/-!
# The backend supervisor

The supervisor loop of the backend container, `entrypoint.sh`: it promotes the version that a
journal names, takes a snapshot, migrates, gates the new process on its health, rolls back and
records the outcome.  The container can die between any two durable writes and any write to
the state volume can fail, so the loop is a machine with one phase per action.

* `World` is what survives the container: the journals, the other files of the state volume,
  the release directories, the backups and the database.  Its `log` is not read by any action.
  It records what has happened so far, newest first.
* `Generation` holds the `GEN_*` variables, and `Phase` says which action is next.
* `Phase.writes` lists the durable writes of an action in their order.  An action that fails
  or is killed has done some first part of them.
* `finish` and `fallBack` are the two continuations of an action, `handleFailedPromotion` and
  `boot` the two decisions of the source.
* `step` takes one event.  An event that is not possible in a state changes nothing.

The texts of the state files are kept without the white space that `read_file_trim` removes.
The progress marker `phase.json` is left out, since no decision reads it, and the removal of
old releases by `prune_releases` is one of the changes of release directories that
`Event.release` allows at any time.
-/

namespace ChordV.Deploy

open ChordV.Lib

/-! ## What survives the container -/

/-- What the supervisor and the app look for in a release directory. -/
structure Release where
  hasApp : Bool
  hasAdmin : Bool
  hasMigrate : Bool
  migrations : List Text
  deriving DecidableEq, Repr

/-- The migration history of the database: the names that are finished and the names of
failed migrations that are not. -/
structure Database where
  finished : List Text
  unfinished : List Text
  deriving DecidableEq, Repr

/-- A finalized snapshot, with the version and the operation it was dumped for. -/
structure Backup where
  name : Text
  version : Text
  op : Text
  deriving DecidableEq, Repr

/-- The outcome that a result file states. -/
inductive Status where
  | success
  | failed
  | rolledback
  deriving DecidableEq, Repr

/-- The fields of `operation-result.<op>.json`. -/
structure Result where
  op : Text
  status : Status
  version : Text
  reason : Text
  migrationApplied : Bool
  deriving DecidableEq, Repr

/-- One thing that happened. -/
inductive Entry where
  /-- An operation was staged in `pending.json`. -/
  | staged (j : Journal)
  /-- A snapshot was finalized after its archive had been verified. -/
  | dumped (b : Backup)
  /-- The migration script was started. -/
  | migrating (version op : Text)
  /-- A version passed the health gate and the stabilization. -/
  | passed (version op : Text)
  /-- A version was found to have failed. -/
  | failed (version op : Text)
  /-- A result file was written. -/
  | result (r : Result)
  /-- The running process was approved. -/
  | approved (version : Text)
  deriving DecidableEq, Repr

/-- Everything the container reads and writes. -/
structure World where
  pending : Option Text
  promoting : Option Text
  desired : Text
  current : Text
  lastGood : Text
  previous : Text
  published : Text
  releases : Text → Option Release
  backups : List Backup
  db : Database
  stamp : Text
  log : List Entry

/-- The world after something happened. -/
def World.note (w : World) (e : Entry) : World := { w with log := e :: w.log }

/-- The settings of the container.  The entry names appear in reasons, and the seed is a
version or missing. -/
structure Config where
  appEntry : Text
  adminEntry : Text
  runMigrate : Bool
  snapshotEnabled : Bool
  snapshotKeep : Nat
  seedVersion : Text
  appEntry_safe : safeReason appEntry = true
  adminEntry_safe : safeReason adminEntry = true
  seedVersion_safe : seedVersion = [] ∨ safeVersion seedVersion = true

/-! ## Durable writes -/

/-- One durable write. -/
inductive Write where
  | promoting (j : Journal)
  | clearPromoting
  | removePending
  | link (version : Text)
  | desired (version : Text)
  | previous (version : Text)
  | lastGood (version : Text)
  | publish (version : Text)
  | discard (version : Text)
  | backup (b : Backup)
  | pruneBackups (keep : Nat)
  | result (r : Result)
  | approve (version : Text)

/-- What a write does. -/
def World.apply (w : World) : Write → World
  | .promoting j => { w with promoting := some (renderPromoting j) }
  | .clearPromoting => { w with promoting := none }
  | .removePending => { w with pending := none }
  | .link version => { w with current := version }
  | .desired version => { w with desired := version }
  | .previous version => { w with previous := version }
  | .lastGood version => { w with lastGood := version }
  | .publish version => { w with published := version }
  | .discard version =>
    { w with releases := fun v => if v = version then none else w.releases v }
  | .backup b => { w.note (.dumped b) with backups := b :: w.backups }
  | .pruneBackups keep => { w with backups := w.backups.take keep }
  | .result r => w.note (.result r)
  | .approve version => w.note (.approved version)

/-- A sequence of writes. -/
def World.applyAll (w : World) (ws : List Write) : World := ws.foldl World.apply w

/-! ## The state of the loop -/

/-- The `GEN_*` variables. -/
structure Generation where
  version : Text
  op : Text
  kind : Option Kind
  promotion : Bool
  mig : Bool
  rollbackFrom : Text
  rollbackReason : Text
  deriving DecidableEq, Repr

/-- The action that is next. -/
inductive Phase where
  /-- The resume: `rm -f pending.json` of a handoff that promoting.json has taken over. -/
  | dropPending (failure reason : Text)
  /-- `consume_pending`: write promoting.json. -/
  | consume
  /-- `consume_pending`: remove pending.json. -/
  | removePending
  /-- `atomic_promote "$GEN_VERSION"` -/
  | promote
  /-- `run_snapshot` -/
  | snapshot
  /-- `run_migrate`: the script runs. -/
  | migrate
  /-- `wait_healthy` -/
  | gate
  /-- `confirm_stable` -/
  | stabilize
  /-- `stop_failed_candidate`: the graceful stop. -/
  | stop
  /-- `stop_failed_candidate`: the decision before the forced stop. -/
  | forceMarker
  /-- `stop_failed_candidate`: the forced stop. -/
  | forceKill
  /-- `handle_failed_promotion`: the marker of the rollback to `lg`. -/
  | rollbackMarker (lg : Text) (mig : Bool)
  /-- `handle_failed_promotion`: `atomic_promote "$LG"`. -/
  | rollbackPromote (lg : Text) (mig : Bool)
  /-- `discard_failed_release` -/
  | discard (lg : Text) (mig : Bool)
  /-- `persist_failed_promotion`: the journal. -/
  | terminalMarker (attempted reason : Text) (mig : Bool)
  /-- `persist_failed_promotion`: the result. -/
  | terminalResult (attempted reason : Text) (mig : Bool)
  /-- `write_last_good` -/
  | lastGood
  /-- `write_result` of a generation that passed. -/
  | result
  /-- `approve_generation` -/
  | approve
  /-- `clear_promoting` -/
  | clear
  /-- `wait "$APP_PID"` of an approved process. -/
  | serving
  deriving DecidableEq, Repr

/-- A running supervisor. -/
structure Proc where
  phase : Phase
  gen : Generation
  deriving DecidableEq, Repr

/-- The world and the supervisor, if the container runs. -/
structure State where
  world : World
  proc : Option Proc

/-- The supervisor exits, or the container dies. -/
def down (w : World) : State := ⟨w, none⟩

/-- The supervisor goes on with a phase. -/
def go (phase : Phase) (g : Generation) (w : World) : State := ⟨w, some ⟨phase, g⟩⟩

/-! ## Reasons -/

/-- The reasons of the source. -/
def promoteReason : Text := "无法持久化提升状态（状态卷可能只读或已满），已自动回滚".toList
/-- The reason when a file of the release is missing. -/
def incompleteReason (entry : Text) : Text :=
  "新版本不完整（缺少 ".toList ++ entry ++ "），已自动回滚".toList
/-- The reason when the snapshot fails. -/
def snapshotReason : Text := "迁移前数据库快照失败，未执行迁移，已自动回滚".toList
/-- The reason when the migration fails. -/
def migrateReason : Text := "迁移失败，已回滚代码（数据库结构未回退）".toList
/-- The reason when the gate fails. -/
def gateReason : Text := "新版本健康检查未通过，已自动回滚".toList
/-- The reason when the app had to be stopped by force. -/
def forcedReason : Text := "健康检查失败且应用关闭超时，需确认恢复状态".toList
/-- The reason when the release of a resumption is missing. -/
def missingReason : Text := "提升过程中断且目标版本缺失，请检查数据库并人工恢复".toList
/-- What is added when the fallback does not start. -/
def restartNote : Text := "（重启失败，未切换版本，请人工恢复）".toList
/-- What is added when there is no fallback. -/
def noFallbackNote : Text := "（无可回滚版本）".toList

/-- The reason of a `rolledback` result. -/
def rolledbackReason (g : Generation) : Text :=
  orElse g.rollbackReason "新版本未通过验证，已自动回滚".toList ++ "（原版本 ".toList ++
    g.rollbackFrom ++ "）".toList

/-! ## The actions -/

/-- `pre-migrate-${version}-${op}` -/
def snapshotBase (version op : Text) : Text := "pre-migrate-".toList ++ version ++ '-' :: op

/-- The name of a finalized snapshot. -/
def snapshotName (version op stamp : Text) : Text :=
  snapshotBase version op ++ '-' :: stamp ++ ".sql.gz".toList

/-- The glob `"$BACKUP_DIR/$base"-*.sql.gz` on a file name. -/
def matchesGlob (version op name : Text) : Bool :=
  let front := snapshotBase version op ++ ['-']
  front.isPrefixOf name && ".sql.gz".toList.isSuffixOf (name.drop front.length)

/-- Whether `run_snapshot` finds a snapshot to reuse. -/
def hasSnapshot (w : World) (version op : Text) : Bool :=
  w.backups.any fun b => matchesGlob version op b.name

/-- The test on `SNAPSHOT_KEEP`. -/
def Config.keepValid (cfg : Config) : Bool := 1 ≤ cfg.snapshotKeep && cfg.snapshotKeep ≤ 999999

/-- `write_promoting "$GEN_VERSION" "$GEN_OP" "$GEN_KIND" "$GEN_MIG"` -/
def Generation.marker (g : Generation) : Journal :=
  { version := g.version, operationId := g.op, kind := g.kind, migrationApplied := g.mig,
    rollbackFrom := [], failureVersion := [], failureReason := [] }

/-- The result of a generation that passed: `rolledback` for a landing, `success` otherwise. -/
def Generation.outcome (g : Generation) : Result :=
  if g.rollbackFrom ≠ [] then
    { op := g.op, status := .rolledback, version := g.version, reason := rolledbackReason g,
      migrationApplied := g.mig }
  else
    { op := g.op, status := .success, version := g.version, reason := [],
      migrationApplied := g.mig }

/-- The durable writes of an action, in their order. -/
def Phase.writes (cfg : Config) (g : Generation) (w : World) : Phase → List Write
  | .dropPending _ _ | .removePending => [.removePending]
  | .consume => [.promoting g.marker]
  | .promote => [.link g.version, .desired g.version]
  | .snapshot =>
    if cfg.snapshotEnabled && cfg.keepValid && !hasSnapshot w g.version g.op then
      [.backup ⟨snapshotName g.version g.op w.stamp, g.version, g.op⟩,
       .pruneBackups cfg.snapshotKeep]
    else []
  | .forceMarker =>
    [.promoting { g.marker with
      rollbackFrom := g.rollbackFrom
      failureVersion := orElse g.rollbackFrom g.version
      failureReason := forcedReason }]
  | .rollbackMarker lg mig =>
    [.promoting
      { version := lg, operationId := g.op, kind := some .rollback, migrationApplied := mig,
        rollbackFrom := g.version, failureVersion := [], failureReason := [] }]
  | .rollbackPromote lg _ => [.link lg, .desired lg]
  | .discard _ _ => if g.kind = some .update then [.discard g.version] else []
  | .terminalMarker attempted reason mig =>
    [.promoting { g.marker with
      migrationApplied := mig
      rollbackFrom := g.rollbackFrom
      failureVersion := attempted
      failureReason := reason }]
  | .terminalResult attempted reason mig => [.result ⟨g.op, .failed, attempted, reason, mig⟩]
  | .lastGood =>
    -- The predecessor is kept only when the version changes.
    (if w.lastGood ≠ [] ∧ w.lastGood ≠ g.version then [.previous w.lastGood] else []) ++
      [.lastGood g.version, .publish g.version]
  | .result => if g.op ≠ [] then [.result g.outcome] else []
  | .approve => [.approve g.version]
  | .clear => [.clearPromoting]
  | .migrate | .gate | .stabilize | .stop | .forceKill | .serving => []

/-! ## The decisions -/

/-- The variables after an operation is closed. -/
def Generation.reset (g : Generation) : Generation :=
  { version := g.version, op := [], kind := none, promotion := false, mig := false,
    rollbackFrom := [], rollbackReason := [] }

/-- The version that `handle_failed_promotion` falls back to. -/
def fallbackVersion (g : Generation) (w : World) : Option Text :=
  let lg := if w.lastGood = g.version then w.previous else w.lastGood
  -- A failed landing must not bounce back to the version it came from.
  if lg ≠ g.rollbackFrom ∧ lg ≠ [] ∧ lg ≠ g.version ∧ (w.releases lg).isSome then some lg
  else none

/-- `handle_failed_promotion` up to its first write. -/
def handleFailedPromotion (g : Generation) (w : World) (reason : Text)
    (migOverride : Option Bool) : State :=
  let mig := migOverride.getD g.mig
  let w := w.note (.failed g.version g.op)
  if g.promotion then
    if g.kind = some .restart then
      go (.terminalMarker g.version (reason ++ restartNote) mig) g w
    else
      match fallbackVersion g w with
      | some lg =>
        go (.rollbackMarker lg mig) { g with rollbackFrom := g.version, rollbackReason := reason } w
      | none =>
        go (.terminalMarker (orElse g.rollbackFrom g.version) (reason ++ noFallbackNote) mig) g w
  else go .promote g.reset w

/-- The first entry that a release lacks. -/
def missingEntry (cfg : Config) (release : Option Release) : Option Text :=
  if !release.any (·.hasApp) then some cfg.appEntry
  else if cfg.adminEntry ≠ [] ∧ !release.any (·.hasAdmin) then some cfg.adminEntry
  else none

/-- The loop from `run_migrate` on: the script starts, or it is skipped. -/
def enterMigrate (cfg : Config) (g : Generation) (w : World) : State :=
  if g.kind ≠ some .rollback ∧ cfg.runMigrate ∧ (w.releases g.version).any (·.hasMigrate) then
    go .migrate g (w.note (.migrating g.version g.op))
  else go .gate g w

/-- Whether the loop takes a snapshot before it migrates. -/
def Generation.needsSnapshot (g : Generation) : Bool :=
  g.promotion && g.kind ≠ some .rollback && g.mig

/-- The loop behind `atomic_promote`: the check of the release, then the snapshot. -/
def afterPromote (cfg : Config) (g : Generation) (w : World) : State :=
  match missingEntry cfg (w.releases g.version) with
  | some entry =>
    if g.promotion then handleFailedPromotion g w (incompleteReason entry) (some false)
    else down w
  | none => if g.needsSnapshot then go .snapshot g w else enterMigrate cfg g w

/-- The readiness of a version: every migration that it ships is finished. -/
def ready (w : World) (version : Text) : Bool :=
  (w.releases version).any fun r => r.migrations.all fun m => m ∈ w.db.finished

/-- The resume behind the handoff of pending.json. -/
def resume (g : Generation) (w : World) (failure reason : Text) : State :=
  if failure ≠ [] then go (.terminalMarker failure reason g.mig) g w
  else if (w.releases g.version).isSome then go .promote g w
  else go (.terminalMarker (orElse g.rollbackFrom g.version) missingReason g.mig) g w

/-- `consume_pending` up to its first write. -/
def consumePending (g : Generation) (w : World) (text : Text) : State :=
  match parseJournal .pending text with
  | none => down w
  | some j =>
    go .consume
      { g with version := j.version, op := j.operationId, kind := j.kind, promotion := true,
               mig := j.migrationApplied } w

/-- The versions that `resolve_start_version` tries before the seed. -/
def startCandidates (w : World) : List Text := [w.desired, w.current, w.lastGood]

/-- `resolve_start_version` before it looks at the seed. -/
def resolveStartVersion (w : World) : Option Text :=
  (startCandidates w).find? fun v => v ≠ [] && (w.releases v).isSome

/-- A start without a journal.  `seed` is what the copy of the seed leaves, and `none` when
there is no seed or the copy fails. -/
def plainStart (cfg : Config) (w : World) (seed : Option Release) : State :=
  let g : Generation :=
    { version := [], op := [], kind := none, promotion := false, mig := false,
      rollbackFrom := [], rollbackReason := [] }
  match resolveStartVersion w with
  | some version => go .promote { g with version } w
  | none =>
    if cfg.seedVersion = [] then go .promote g w
    else if (w.releases cfg.seedVersion).any (·.hasApp) then
      go .promote { g with version := cfg.seedVersion } w
    else
      match seed with
      | some r =>
        if r.hasApp then
          go .promote { g with version := cfg.seedVersion }
            { w with releases := fun v => if v = cfg.seedVersion then some r else w.releases v }
        else go .promote g w
      | none => go .promote g w

/-- The variables that a promoting journal restores. -/
def Journal.generation (j : Journal) : Generation :=
  { version := j.version, op := j.operationId, kind := j.kind, promotion := true,
    mig := j.migrationApplied, rollbackFrom := j.rollbackFrom, rollbackReason := [] }

/-- Two journals of the same handoff. -/
def Journal.sameHandoff (j k : Journal) : Bool :=
  k.version = j.version && k.operationId = j.operationId && k.kind = j.kind &&
    k.migrationApplied = j.migrationApplied

/-- The start of the container. -/
def boot (cfg : Config) (w : World) (seed : Option Release) : State :=
  match w.promoting with
  | some text =>
    match parseJournal .promoting text with
    | none => down w
    | some j =>
      match w.pending with
      | none => resume j.generation w j.failureVersion j.failureReason
      | some text =>
        match parseJournal .pending text with
        | none => down w
        | some k =>
          if j.sameHandoff k then
            go (.dropPending j.failureVersion j.failureReason) j.generation w
          else down w
  | none =>
    match w.pending with
    | some text =>
      consumePending
        { version := [], op := [], kind := none, promotion := false, mig := false,
          rollbackFrom := [], rollbackReason := [] } w text
    | none => plainStart cfg w seed

/-! ## The continuations of an action -/

/-- What follows an action whose writes have all been done. -/
def finish (cfg : Config) (p : Proc) (w : World) : State :=
  let g := p.gen
  match p.phase with
  | .dropPending failure reason => resume g w failure reason
  | .consume => go .removePending g w
  | .removePending => go .promote g w
  | .promote => afterPromote cfg g w
  | .snapshot =>
    if cfg.snapshotEnabled && !cfg.keepValid then
      handleFailedPromotion g w snapshotReason (some false)
    else enterMigrate cfg g w
  | .migrate => go .gate g w
  | .gate => if ready w g.version then go .stabilize g w else go .stop g w
  | .stabilize => go .lastGood g (w.note (.passed g.version g.op))
  | .stop => handleFailedPromotion g w gateReason none
  | .forceMarker => go .forceKill g w
  | .forceKill => handleFailedPromotion g w gateReason none
  | .rollbackMarker lg mig => go (.rollbackPromote lg mig) g w
  | .rollbackPromote lg mig => go (.discard lg mig) g w
  | .discard lg mig =>
    go .promote { g with version := lg, kind := some .rollback, promotion := true, mig } w
  | .terminalMarker attempted reason mig =>
    if g.op ≠ [] then go (.terminalResult attempted reason mig) g w else down w
  | .terminalResult _ _ _ => down w
  | .lastGood => go .result g w
  | .result => go .approve g w
  | .approve => go .clear g w
  | .clear => go .serving g.reset w
  | .serving => go .serving g w

/-- What follows an action that failed. -/
def fallBack (cfg : Config) (p : Proc) (w : World) : State :=
  let g := p.gen
  match p.phase with
  | .dropPending _ _ | .removePending => down w
  | .promote =>
    if g.promotion then handleFailedPromotion g w promoteReason (some false)
    else afterPromote cfg g w
  | .snapshot => handleFailedPromotion g w snapshotReason (some false)
  | .migrate => handleFailedPromotion g w migrateReason (some true)
  | .gate | .stabilize => go .stop g w
  | .stop => if g.promotion then go .forceMarker g w else go .forceKill g w
  | .forceMarker | .forceKill => down w
  -- Nothing is switched, and the loop tries the failed version again.
  | .rollbackMarker _ _ => go .promote g w
  | .rollbackPromote lg mig => go (.discard lg mig) g w
  | .discard lg mig =>
    go .promote { g with version := lg, kind := some .rollback, promotion := true, mig } w
  -- The retry loops stay where they are.
  | .consume | .terminalMarker _ _ _ | .terminalResult _ _ _ | .lastGood | .result | .approve
  | .clear | .serving => go p.phase g w

/-- What follows when the app exits: an approved process is replaced, and one that is not yet
finalized is gated again with the same context. -/
def appExit (p : Proc) (w : World) : State :=
  match p.phase with
  | .lastGood | .result | .approve | .clear => go .promote p.gen w
  | .serving =>
    match w.pending with
    | some text => consumePending p.gen w text
    | none => go .promote p.gen w
  | _ => ⟨w, some p⟩

/-! ## Events -/

/-- What can happen next. -/
inductive Event where
  /-- The action succeeds. -/
  | done
  /-- The action fails after the first `n` of its writes. -/
  | fails (n : Nat)
  /-- The app exits. -/
  | exits
  /-- The container dies after the first `n` writes of the action. -/
  | killed (n : Nat)
  /-- The container starts. -/
  | starts (seed : Option Release)
  /-- The app stages an operation. -/
  | stages (text : Text)
  /-- The operator stages a new operation and removes the interlock while the container is
  down. -/
  | recovers (text : Text)
  /-- A release directory changes. -/
  | release (version : Text) (r : Option Release)
  /-- The database changes. -/
  | database (db : Database)
  /-- The clock moves on. -/
  | ticks (stamp : Text)

/-- The journals that have been staged, newest first. -/
def stagedJournals (log : List Entry) : List Journal :=
  log.filterMap fun
    | .staged j => some j
    | _ => none

/-- A journal for a new operation. -/
def newOperation (w : World) (text : Text) : Option Journal :=
  (parseJournal .pending text).filter fun j =>
    j.operationId ∉ (stagedJournals w.log).map (·.operationId)

/-- The world with a new operation staged. -/
def World.stage (w : World) (text : Text) (j : Journal) : World :=
  { w.note (.staged j) with pending := some text }

/-- One step of the container and its surroundings. -/
def step (cfg : Config) (s : State) : Event → State
  | .done =>
    match s.proc with
    | some p => finish cfg p (s.world.applyAll (p.phase.writes cfg p.gen s.world))
    | none => s
  | .fails n =>
    match s.proc with
    | some p => fallBack cfg p (s.world.applyAll ((p.phase.writes cfg p.gen s.world).take n))
    | none => s
  | .exits =>
    match s.proc with
    | some p => appExit p s.world
    | none => s
  | .killed n =>
    match s.proc with
    | some p => down (s.world.applyAll ((p.phase.writes cfg p.gen s.world).take n))
    | none => s
  | .starts seed =>
    match s.proc with
    | some _ => s
    | none => boot cfg s.world seed
  | .stages text =>
    match newOperation s.world text with
    | some j =>
      if s.world.pending = none ∧ s.world.promoting = none then ⟨s.world.stage text j, s.proc⟩
      else s
    | none => s
  | .recovers text =>
    match newOperation s.world text with
    | some j =>
      if s.proc = none ∧ s.world.promoting ≠ none then
        down { s.world.stage text j with promoting := none }
      else s
    | none => s
  | .release version r =>
    ⟨{ s.world with releases := fun v => if v = version then r else s.world.releases v }, s.proc⟩
  | .database db => ⟨{ s.world with db }, s.proc⟩
  | .ticks stamp => ⟨{ s.world with stamp }, s.proc⟩

/-! ## What one action writes -/

/-- The writes that an action can do, one constructor for each place of the source. -/
inductive Does (cfg : Config) (w : World) : Proc → Write → Prop
  | consume (g : Generation) : Does cfg w ⟨.consume, g⟩ (.promoting g.marker)
  | forced (g : Generation) : Does cfg w ⟨.forceMarker, g⟩ (.promoting { g.marker with
      rollbackFrom := g.rollbackFrom
      failureVersion := orElse g.rollbackFrom g.version
      failureReason := forcedReason })
  | landing (g : Generation) (lg : Text) (mig : Bool) :
      Does cfg w ⟨.rollbackMarker lg mig, g⟩ (.promoting
        { version := lg, operationId := g.op, kind := some .rollback, migrationApplied := mig,
          rollbackFrom := g.version, failureVersion := [], failureReason := [] })
  | terminal (g : Generation) (attempted reason : Text) (mig : Bool) :
      Does cfg w ⟨.terminalMarker attempted reason mig, g⟩ (.promoting { g.marker with
        migrationApplied := mig
        rollbackFrom := g.rollbackFrom
        failureVersion := attempted
        failureReason := reason })
  | clear (g : Generation) : Does cfg w ⟨.clear, g⟩ .clearPromoting
  | dropPending (g : Generation) (failure reason : Text) :
      Does cfg w ⟨.dropPending failure reason, g⟩ .removePending
  | removePending (g : Generation) : Does cfg w ⟨.removePending, g⟩ .removePending
  | link (g : Generation) : Does cfg w ⟨.promote, g⟩ (.link g.version)
  | desired (g : Generation) : Does cfg w ⟨.promote, g⟩ (.desired g.version)
  | linkBack (g : Generation) (lg : Text) (mig : Bool) :
      Does cfg w ⟨.rollbackPromote lg mig, g⟩ (.link lg)
  | desiredBack (g : Generation) (lg : Text) (mig : Bool) :
      Does cfg w ⟨.rollbackPromote lg mig, g⟩ (.desired lg)
  | discard (g : Generation) (lg : Text) (mig : Bool) (hkind : g.kind = some .update) :
      Does cfg w ⟨.discard lg mig, g⟩ (.discard g.version)
  | backup (g : Generation) (hkeep : cfg.keepValid = true)
      (hnone : hasSnapshot w g.version g.op = false) :
      Does cfg w ⟨.snapshot, g⟩
        (.backup ⟨snapshotName g.version g.op w.stamp, g.version, g.op⟩)
  | pruneBackups (g : Generation) (hkeep : cfg.keepValid = true)
      (hnone : hasSnapshot w g.version g.op = false) :
      Does cfg w ⟨.snapshot, g⟩ (.pruneBackups cfg.snapshotKeep)
  | previous (g : Generation) (hne : w.lastGood ≠ []) (hold : w.lastGood ≠ g.version) :
      Does cfg w ⟨.lastGood, g⟩ (.previous w.lastGood)
  | lastGood (g : Generation) : Does cfg w ⟨.lastGood, g⟩ (.lastGood g.version)
  | publish (g : Generation) : Does cfg w ⟨.lastGood, g⟩ (.publish g.version)
  | failure (g : Generation) (attempted reason : Text) (mig : Bool) :
      Does cfg w ⟨.terminalResult attempted reason mig, g⟩
        (.result ⟨g.op, .failed, attempted, reason, mig⟩)
  | outcome (g : Generation) (hop : g.op ≠ []) : Does cfg w ⟨.result, g⟩ (.result g.outcome)
  | approve (g : Generation) : Does cfg w ⟨.approve, g⟩ (.approve g.version)

/-- Every write of an action is one of those. -/
theorem does_of_mem_writes {cfg : Config} {w : World} {p : Proc} {wr : Write}
    (h : wr ∈ p.phase.writes cfg p.gen w) : Does cfg w p wr := by
  obtain ⟨phase, g⟩ := p
  cases phase with
  | dropPending failure reason =>
    rw [List.mem_singleton.mp h]
    exact .dropPending g failure reason
  | consume =>
    rw [List.mem_singleton.mp h]
    exact .consume g
  | removePending =>
    rw [List.mem_singleton.mp h]
    exact .removePending g
  | promote =>
    rcases List.mem_pair.mp h with rfl | rfl
    · exact .link g
    · exact .desired g
  | snapshot =>
    change wr ∈ ite _ _ _ at h
    split at h
    case isTrue hcond =>
      simp only [Bool.and_eq_true, Bool.not_eq_true'] at hcond
      rcases List.mem_pair.mp h with rfl | rfl
      · exact .backup g hcond.1.2 hcond.2
      · exact .pruneBackups g hcond.1.2 hcond.2
    case isFalse => simp at h
  | forceMarker =>
    rw [List.mem_singleton.mp h]
    exact .forced g
  | rollbackMarker lg mig =>
    rw [List.mem_singleton.mp h]
    exact .landing g lg mig
  | rollbackPromote lg mig =>
    rcases List.mem_pair.mp h with rfl | rfl
    · exact .linkBack g lg mig
    · exact .desiredBack g lg mig
  | discard lg mig =>
    change wr ∈ ite _ _ _ at h
    split at h
    case isTrue hkind =>
      rw [List.mem_singleton.mp h]
      exact .discard g lg mig hkind
    case isFalse => simp at h
  | terminalMarker attempted reason mig =>
    rw [List.mem_singleton.mp h]
    exact .terminal g attempted reason mig
  | terminalResult attempted reason mig =>
    rw [List.mem_singleton.mp h]
    exact .failure g attempted reason mig
  | lastGood =>
    change wr ∈ ite _ _ _ ++ _ at h
    rcases List.mem_append.mp h with h | h
    · split at h
      case isTrue hcond =>
        rw [List.mem_singleton.mp h]
        exact .previous g hcond.1 hcond.2
      case isFalse => simp at h
    · rcases List.mem_pair.mp h with rfl | rfl
      · exact .lastGood g
      · exact .publish g
  | result =>
    change wr ∈ ite _ _ _ at h
    split at h
    case isTrue hop =>
      rw [List.mem_singleton.mp h]
      exact .outcome g hop
    case isFalse => simp at h
  | approve =>
    rw [List.mem_singleton.mp h]
    exact .approve g
  | clear =>
    rw [List.mem_singleton.mp h]
    exact .clear g
  | migrate | gate | stabilize | stop | forceKill | serving => cases h

/-- The writes that only come first in their action. -/
def Write.leads : Write → Bool
  | .previous _ | .backup _ => true
  | _ => false

theorem nil_of_leads {cfg : Config} {w : World} {p : Proc} {pre post : List Write} {wr : Write}
    (h : p.phase.writes cfg p.gen w = pre ++ wr :: post) (hleads : wr.leads = true) : pre = [] := by
  have hpair : ∀ {a b : Write}, b.leads = false → [a, b] = pre ++ wr :: post → pre = [] := by
    intro a b hb heq
    match pre, heq with
    | [], _ => rfl
    | [_], heq =>
      simp only [List.cons_append, List.nil_append, List.cons.injEq] at heq
      rw [← heq.2.1, hb] at hleads
      cases hleads
    | _ :: _ :: _, heq => simp at heq
  obtain ⟨phase, g⟩ := p
  cases phase with
  | snapshot =>
    simp only [Phase.writes] at h
    split at h
    · exact hpair rfl h
    · simp at h
  | lastGood =>
    simp only [Phase.writes] at h
    split at h
    · match pre, h with
      | [], _ => rfl
      | _ :: rest, h =>
        simp only [List.cons_append, List.nil_append, List.cons.injEq] at h
        have hmem : wr ∈ [Write.lastGood g.version, .publish g.version] := by
          rw [h.2]
          simp
        rcases List.mem_pair.mp hmem with rfl | rfl <;> cases hleads
    · exact hpair rfl h
  | promote => exact hpair rfl h
  | rollbackPromote => exact hpair rfl h
  | discard lg mig =>
    simp only [Phase.writes] at h
    split at h
    · match pre, h with
      | [], _ => rfl
      | _ :: _, h => simp at h
    · simp at h
  | result =>
    simp only [Phase.writes] at h
    split at h
    · match pre, h with
      | [], _ => rfl
      | _ :: _, h => simp at h
    · simp at h
  | dropPending | consume | removePending | forceMarker | rollbackMarker | terminalMarker
  | terminalResult | approve | clear =>
    match pre, h with
    | [], _ => rfl
    | _ :: _, h => simp [Phase.writes] at h
  | migrate | gate | stabilize | stop | forceKill | serving => simp [Phase.writes] at h

/-- What every write keeps, the first writes of an action keep. -/
theorem applyAll_take_keeps {I : World → Prop} {w₀ : World} {ws : List Write}
    (h : ∀ w pre wr post, ws = pre ++ wr :: post → w = w₀.applyAll pre → I w → I (w.apply wr))
    (hw : I w₀) (n : Nat) : I (w₀.applyAll (ws.take n)) := by
  induction n with
  | zero => exact hw
  | succ n ih =>
    by_cases hn : n < ws.length
    · have hsplit : ws = ws.take n ++ ws[n] :: ws.drop (n + 1) := by
        rw [← List.drop_eq_getElem_cons hn, List.take_append_drop]
      rw [List.take_succ_eq_append_getElem hn, World.applyAll, List.foldl_append]
      exact h _ _ _ _ hsplit rfl ih
    · rw [List.take_of_length_le (by omega)] at ih ⊢
      exact ih

/-! ## What a decision changes -/

/-- A decision changes no file.  It can note what it found, and the start can copy the seed. -/
inductive Decides (w : World) : World → Prop
  | same : Decides w w
  | failed (version op : Text) : Decides w (w.note (.failed version op))
  | migrating (version op : Text) : Decides w (w.note (.migrating version op))
  | passed (version op : Text) : Decides w (w.note (.passed version op))
  | seeded (releases : Text → Option Release) : Decides w { w with releases }

theorem decides_handleFailedPromotion (g : Generation) (w : World) (reason : Text)
    (o : Option Bool) : Decides w (handleFailedPromotion g w reason o).world := by
  dsimp only [handleFailedPromotion]
  split
  · split
    · exact .failed g.version g.op
    · split
      · exact .failed g.version g.op
      · exact .failed g.version g.op
  · exact .failed g.version g.op

theorem decides_enterMigrate (cfg : Config) (g : Generation) (w : World) :
    Decides w (enterMigrate cfg g w).world := by
  unfold enterMigrate
  split
  · exact .migrating g.version g.op
  · exact .same

theorem decides_afterPromote (cfg : Config) (g : Generation) (w : World) :
    Decides w (afterPromote cfg g w).world := by
  unfold afterPromote
  split
  · split
    · exact decides_handleFailedPromotion _ _ _ _
    · exact .same
  · split
    · exact .same
    · exact decides_enterMigrate cfg g w

theorem decides_resume (g : Generation) (w : World) (failure reason : Text) :
    Decides w (resume g w failure reason).world := by
  unfold resume
  split
  · exact .same
  · split
    · exact .same
    · exact .same

theorem decides_consumePending (g : Generation) (w : World) (text : Text) :
    Decides w (consumePending g w text).world := by
  unfold consumePending
  split
  · exact .same
  · exact .same

theorem decides_finish (cfg : Config) (p : Proc) (w : World) :
    Decides w (finish cfg p w).world := by
  obtain ⟨phase, g⟩ := p
  cases phase with
  | dropPending failure reason => exact decides_resume g w failure reason
  | promote => exact decides_afterPromote cfg g w
  | snapshot =>
    simp only [finish]
    split
    · exact decides_handleFailedPromotion _ _ _ _
    · exact decides_enterMigrate cfg g w
  | gate =>
    simp only [finish]
    split
    · exact .same
    · exact .same
  | stabilize => exact .passed g.version g.op
  | stop | forceKill => exact decides_handleFailedPromotion _ _ _ _
  | terminalMarker attempted reason mig =>
    simp only [finish]
    split
    · exact .same
    · exact .same
  | consume | removePending | migrate | forceMarker | rollbackMarker | rollbackPromote | discard
  | terminalResult | lastGood | result | approve | clear | serving => exact .same

theorem decides_fallBack (cfg : Config) (p : Proc) (w : World) :
    Decides w (fallBack cfg p w).world := by
  obtain ⟨phase, g⟩ := p
  cases phase with
  | promote =>
    simp only [fallBack]
    split
    · exact decides_handleFailedPromotion _ _ _ _
    · exact decides_afterPromote cfg g w
  | snapshot | migrate => exact decides_handleFailedPromotion _ _ _ _
  | stop =>
    simp only [fallBack]
    split
    · exact .same
    · exact .same
  | dropPending | consume | removePending | gate | stabilize | forceMarker | forceKill
  | rollbackMarker | rollbackPromote | discard | terminalMarker | terminalResult | lastGood
  | result | approve | clear | serving => exact .same

theorem decides_appExit (p : Proc) (w : World) : Decides w (appExit p w).world := by
  obtain ⟨phase, g⟩ := p
  cases phase with
  | serving =>
    simp only [appExit]
    split
    · exact decides_consumePending _ _ _
    · exact .same
  | dropPending | consume | removePending | promote | snapshot | migrate | gate | stabilize | stop
  | forceMarker | forceKill | rollbackMarker | rollbackPromote | discard | terminalMarker
  | terminalResult | lastGood | result | approve | clear => exact .same

/-- A start without a journal promotes a version without an operation. -/
theorem plainStart_eq (cfg : Config) (w : World) (seed : Option Release) :
    ∃ version w', plainStart cfg w seed = go .promote
        { version, op := [], kind := none, promotion := false, mig := false,
          rollbackFrom := [], rollbackReason := [] } w' ∧
      (version = [] ∨ version = cfg.seedVersion ∨ version ∈ startCandidates w) ∧
      ∃ releases, w' = { w with releases } := by
  unfold plainStart
  split
  case h_1 version hversion =>
    exact ⟨version, w, rfl, .inr (.inr (List.mem_of_find?_eq_some hversion)), _, rfl⟩
  case h_2 =>
    split
    · exact ⟨[], w, rfl, .inl rfl, _, rfl⟩
    · split
      · exact ⟨cfg.seedVersion, w, rfl, .inr (.inl rfl), _, rfl⟩
      · split
        · split
          · exact ⟨cfg.seedVersion, _, rfl, .inr (.inl rfl), _, rfl⟩
          · exact ⟨[], w, rfl, .inl rfl, _, rfl⟩
        · exact ⟨[], w, rfl, .inl rfl, _, rfl⟩

theorem decides_plainStart (cfg : Config) (w : World) (seed : Option Release) :
    Decides w (plainStart cfg w seed).world := by
  obtain ⟨version, w', hstart, -, releases, rfl⟩ := plainStart_eq cfg w seed
  rw [hstart]
  exact .seeded releases

theorem decides_boot (cfg : Config) (w : World) (seed : Option Release) :
    Decides w (boot cfg w seed).world := by
  unfold boot
  split
  · split
    · exact .same
    · split
      · exact decides_resume _ _ _ _
      · split
        · exact .same
        · split
          · exact .same
          · exact .same
  · split
    · exact decides_consumePending _ _ _
    · exact decides_plainStart cfg w seed

theorem Decides.promoting {w w' : World} (h : Decides w w') : w'.promoting = w.promoting := by
  cases h <;> rfl

/-! ## The invariant rule of the machine -/

/-- What has to be shown of an invariant `I` for the steps that meet `C`.  The writes of an
action come first.  The continuations then start from a world with those writes. -/
structure StepRule (cfg : Config) (C : State → Event → Prop) (I : World → Option Proc → Prop) :
    Prop where
  write : ∀ {w₀ w p wr e}, I w₀ (some p) → C ⟨w₀, some p⟩ e → Does cfg w₀ p wr →
    (wr.leads = true → w = w₀) → I w (some p) → I (w.apply wr) (some p)
  down : ∀ {w p}, I w (some p) → I w none
  finish : ∀ {w w' p}, I w (some p) → C ⟨w, some p⟩ .done →
    w' = w.applyAll (p.phase.writes cfg p.gen w) → I w' (some p) →
    I (finish cfg p w').world (finish cfg p w').proc
  fallBack : ∀ {w w' p} n, I w (some p) → C ⟨w, some p⟩ (.fails n) →
    w' = w.applyAll ((p.phase.writes cfg p.gen w).take n) → I w' (some p) →
    I (fallBack cfg p w').world (fallBack cfg p w').proc
  appExit : ∀ {w p}, I w (some p) → I (appExit p w).world (appExit p w).proc
  boot : ∀ {w seed}, I w none → C ⟨w, none⟩ (.starts seed) →
    I (boot cfg w seed).world (boot cfg w seed).proc
  stage : ∀ {w proc text j}, I w proc → newOperation w text = some j → w.pending = none →
    w.promoting = none → I (w.stage text j) proc
  recover : ∀ {w text j}, I w none → newOperation w text = some j →
    I { w.stage text j with promoting := none } none
  release : ∀ {w proc} version r, I w proc →
    I { w with releases := fun v => if v = version then r else w.releases v } proc
  database : ∀ {w proc} db, I w proc → I { w with db } proc
  ticks : ∀ {w proc} stamp, I w proc → I { w with stamp } proc

/-- An invariant that obeys the rule is kept by every step that meets the condition. -/
theorem StepRule.step {cfg : Config} {C : State → Event → Prop} {I : World → Option Proc → Prop}
    (rule : StepRule cfg C I) {s : State} (e : Event) (hs : I s.world s.proc) (hC : C s e) :
    I (step cfg s e).world (step cfg s e).proc := by
  obtain ⟨w, proc⟩ := s
  have hwrites : ∀ {p}, proc = some p → ∀ n,
      I (w.applyAll ((p.phase.writes cfg p.gen w).take n)) (some p) := by
    rintro p rfl n
    refine applyAll_take_keeps (I := fun w => I w (some p)) ?_ hs n
    intro w' pre wr post hws hw' hI
    have hmem : wr ∈ p.phase.writes cfg p.gen w := by
      rw [hws]
      simp
    refine rule.write hs hC (does_of_mem_writes hmem) (fun hleads => ?_) hI
    rw [hw', nil_of_leads hws hleads]
    rfl
  cases proc with
  | none =>
    cases e with
    | done | fails n | exits | killed n => exact hs
    | starts seed => exact rule.boot hs hC
    | stages text =>
      simp only [Deploy.step]
      split
      · split
        case isTrue hnone => exact rule.stage hs ‹_› hnone.1 hnone.2
        case isFalse => exact hs
      · exact hs
    | recovers text =>
      simp only [Deploy.step]
      split
      · split
        · exact rule.recover hs ‹_›
        · exact hs
      · exact hs
    | release version r => exact rule.release version r hs
    | database db => exact rule.database db hs
    | ticks stamp => exact rule.ticks stamp hs
  | some p =>
    cases e with
    | done =>
      have hall := hwrites rfl (p.phase.writes cfg p.gen w).length
      rw [List.take_length] at hall
      exact rule.finish hs hC rfl hall
    | fails n => exact rule.fallBack n hs hC rfl (hwrites rfl n)
    | exits => exact rule.appExit hs
    | killed n => exact rule.down (hwrites rfl n)
    | starts seed => exact hs
    | stages text =>
      simp only [Deploy.step]
      split
      · split
        case isTrue hnone => exact rule.stage hs ‹_› hnone.1 hnone.2
        case isFalse => exact hs
      · exact hs
    | recovers text =>
      simp only [Deploy.step]
      split
      · split
        case isTrue hnone => cases hnone.1
        case isFalse => exact hs
      · exact hs
    | release version r => exact rule.release version r hs
    | database db => exact rule.database db hs
    | ticks stamp => exact rule.ticks stamp hs

end ChordV.Deploy
