import ChordV.Deploy.Flow

/-!
# A migrated schema is reported

An operation that migrates the database and does not end well has to say so in its result.
Some callers of `handle_failed_promotion` override the flag with `false` because they fail
before the migration.  An operation can pass the loop several times, so that point may come
after its migration all the same.

* `Reported` says that every `failed` or `rolledback` result of a migrating operation whose
  script was started carries the flag.
* `migrations_reported` is the result about all runs.  Two branches have to be left out
  (`hidesMigration`): an early failure after the script was started, and a start of the script
  while promoting.json still holds a marker with the flag `false`, whose write had been
  reported as failed.
-/

namespace ChordV.Deploy

open ChordV.Lib ChordV.Lib.Machine

/-! ## What has to be reported -/

/-- The operation was staged as one that migrates. -/
def migrates (log : List Entry) (op : Text) : Bool :=
  (request log op).any (·.migrationApplied)

/-- A result that says whether the schema may have been migrated. -/
def ReportsMigration (log : List Entry) (r : Result) : Prop :=
  r.status ≠ .success → migrates log r.op = true → started log r.op = true →
    r.migrationApplied = true

/-- Every result was one. -/
def Reported (log : List Entry) : Prop := EveryResult ReportsMigration log

/-- The two branches that lose the flag of an operation. -/
def hidesMigration (cfg : Config) (s : State) (e : Event) : Bool :=
  s.proc.any fun p => p.gen.promotion && migrates s.world.log p.gen.op &&
    ((started s.world.log p.gen.op && p.failsEarly cfg s.world e) ||
      match e with
      | .done => p.phase = .snapshot && s.world.loaded.any fun j => !j.migrationApplied
      | _ => false)

/-- What holds in every state of a run that hides no migration. -/
structure Reports (w : World) (proc : Option Proc) : Prop where
  requests : Requests w proc
  log : Reported w.log
  loaded : ∀ j, w.loaded = some j → migrates w.log j.operationId = true →
    started w.log j.operationId = true → j.migrationApplied = true
  proc : ∀ p, proc = some p → p.gen.promotion = true → migrates w.log p.gen.op = true →
    started w.log p.gen.op = true → p.Flagged

/-! ## The writes -/

/-- A change of the files that can only remove a journal. -/
theorem Reports.shrink {w w' : World} {proc : Option Proc} (h : Reports w proc)
    (hrequests : Requests w' proc) (hlog : Reported w.log → Reported w'.log)
    (hmigrates : ∀ op, migrates w'.log op = migrates w.log op)
    (hstarted : ∀ op, started w'.log op = started w.log op)
    (hloaded : ∀ j, w'.loaded = some j → w.loaded = some j) : Reports w' proc where
  requests := hrequests
  log := hlog h.log
  loaded := by
    intro j hj
    rw [hmigrates, hstarted]
    exact h.loaded j (hloaded j hj)
  proc := by
    intro p hp hprom
    rw [hmigrates, hstarted]
    exact h.proc p hp hprom

/-- The flag of a marker is one of those that the supervisor carries. -/
theorem Does.flag {cfg : Config} {w : World} {p : Proc} {j : Journal}
    (h : Does cfg w p (.promoting j)) (hp : p.Flagged) : j.migrationApplied = true := by
  cases h with
  | consume g => exact hp.1
  | forced g => exact hp.1
  | landing g lg mig => exact hp.2 mig rfl
  | terminal g attempted reason mig => exact hp.2 mig rfl

/-- So is the flag of a result that is not a success. -/
theorem Does.result_flag {cfg : Config} {w : World} {p : Proc} {r : Result}
    (h : Does cfg w p (.result r)) (hp : p.Flagged) : r.migrationApplied = true := by
  cases h with
  | failure g attempted reason mig => exact hp.2 mig rfl
  | outcome g hop =>
    unfold Generation.outcome
    split
    · exact hp.1
    · exact hp.1

theorem Fenced.result_op {cfg : Config} {w w' : World} {p : Proc} {r : Result}
    (h : Fenced w (some p)) (hdoes : Does cfg w' p (.result r)) :
    p.gen.promotion = true ∧ r.op = p.gen.op := by
  cases hdoes with
  | failure g attempted reason mig => exact ⟨h.2.1.1, rfl⟩
  | outcome g hop =>
    refine ⟨?_, ?_⟩
    · by_contra hidle
      exact hop (h.1.idle (by simpa using hidle)).op
    · unfold Generation.outcome
      split <;> rfl

theorem Reports.write {cfg : Config} {w₀ w : World} {p : Proc} {wr : Write}
    (h₀ : Reports w₀ (some p)) (hdoes : Does cfg w₀ p wr) (h : Reports w (some p)) :
    Reports (w.apply wr) (some p) := by
  have hrequests := h₀.requests.write hdoes h.requests
  cases wr with
  | promoting j =>
    obtain ⟨hprom, hplain, hop⟩ := h.requests.fenced.marker hdoes
    refine ⟨hrequests, h.log, fun k hk hmig hstarted => ?_, h.proc⟩
    obtain rfl : k = j := eq_of_parseJournal_renderPromoting hplain hk
    rw [hop] at hmig hstarted
    exact hdoes.flag (h.proc p rfl hprom hmig hstarted)
  | clearPromoting =>
    refine h.shrink hrequests id (fun _ => rfl) (fun _ => rfl) fun j hj => ?_
    cases hj
  | result r =>
    obtain ⟨hprom, hop⟩ := h.requests.fenced.result_op hdoes
    refine h.shrink hrequests (fun hlog => hlog.cons_result ?_) (fun _ => rfl) (fun _ => rfl)
      fun _ hj => hj
    intro _ hmig hstarted
    rw [hop] at hmig hstarted
    exact hdoes.result_flag (h.proc p rfl hprom hmig hstarted)
  | backup | approve =>
    exact h.shrink hrequests (fun hlog => hlog.cons rfl) (fun _ => rfl) (fun _ => rfl)
      fun _ hj => hj
  | removePending | link | desired | previous | lastGood | publish | discard | pruneBackups =>
    exact h.shrink hrequests id (fun _ => rfl) (fun _ => rfl) fun _ hj => hj

/-! ## The decisions -/

/-- A decision notes no result and stages nothing. -/
theorem Decides.reported {w w' : World} (h : Decides w w') (hlog : Reported w.log) :
    Reported w'.log := by
  cases h with
  | same => exact hlog
  | failed | migrating | passed => exact hlog.cons rfl
  | seeded => exact hlog

theorem Decides.migrates {w w' : World} (h : Decides w w') (op : Text) :
    migrates w'.log op = migrates w.log op := by
  cases h <;> rfl

theorem Decides.loaded {w w' : World} (h : Decides w w') : w'.loaded = w.loaded := by
  rw [World.loaded, h.promoting, World.loaded]

/-- Where a migrating operation may start its script, it carries the flag. -/
theorem Requests.flagged_of_mayMigrate {w : World} {p : Proc} (h : Requests w (some p))
    (hprom : p.gen.promotion = true) (hmig : migrates w.log p.gen.op = true)
    (hmay : p.MayMigrate) : p.phase = .snapshot ∧ p.Flagged := by
  obtain ⟨phase, g⟩ := p
  obtain ⟨hkind, hphase⟩ := hmay
  obtain ⟨k, hk, hfollows⟩ := h.proc _ rfl hprom
  have hkmig : k.migrationApplied = true := by
    have hk' : request w.log g.op = some k := hk
    simpa [Deploy.migrates, hk'] using hmig
  have hopen : phase.closing = false := by
    rcases hphase with rfl | ⟨rfl, -⟩ <;> rfl
  have hgmig : g.mig = true := (hfollows hopen hkind).2.trans hkmig
  rcases hphase with rfl | ⟨rfl, hneeds⟩
  · exact ⟨rfl, hgmig, fun mig hm => by cases hm⟩
  · have : g.needsSnapshot = true := Generation.needsSnapshot_iff.mpr ⟨hprom, hkind, hgmig⟩
    rw [show g.needsSnapshot = false from hneeds] at this
    cases this

theorem Reports.finish {cfg : Config} {w w' : World} {p : Proc}
    (hw' : w' = w.applyAll (p.phase.writes cfg p.gen w)) (h : Reports w' (some p))
    (hC : hidesMigration cfg ⟨w', some p⟩ .done = false) :
    Reports (finish cfg p w').world (finish cfg p w').proc := by
  have hdecides := decides_finish cfg p w'
  have hcond : p.gen.promotion = true → migrates w'.log p.gen.op = true →
      (started w'.log p.gen.op = true → p.failsEarly cfg w' .done = false) ∧
      (p.phase = .snapshot → ∀ j, w'.loaded = some j → j.migrationApplied = true) := by
    intro hprom hmig
    simp only [hidesMigration, Option.any_some, hprom, hmig, Bool.true_and,
      Bool.or_eq_false_iff] at hC
    refine ⟨fun hstarted => ?_, fun hphase j hj => ?_⟩
    · simpa [hstarted] using hC.1
    · simpa [hphase, hj] using hC.2
  refine ⟨h.requests.finish hw', hdecides.reported h.log, fun j hj hmig hstarted => ?_,
    fun p' hp' hprom' hmig hstarted => ?_⟩
  · rw [hdecides.loaded] at hj
    rw [hdecides.migrates] at hmig
    rcases finish_started hstarted with hold | ⟨hop, hmay, -⟩
    · exact h.loaded j hj hmig hold
    · -- The script starts now, under the operation that promoting.json is about.
      have hprom : p.gen.promotion = true := by
        by_contra hidle
        have hnone := (h.requests.fenced.1.idle (by simpa using hidle)).fence
        rw [World.loaded, hnone] at hj
        cases hj
      rw [hop] at hmig
      obtain ⟨hphase, -⟩ := h.requests.flagged_of_mayMigrate hprom hmig hmay
      exact (hcond hprom hmig).2 hphase j hj
  · have hcont := h.requests.fenced.finish_continues hp' hprom'
    rw [hdecides.migrates, hcont.op] at hmig
    rw [hcont.op] at hstarted
    rcases finish_started hstarted with hold | ⟨-, hmay, hearly⟩
    · exact hcont.flagged ⟨h.proc p rfl hcont.promotion hmig hold,
        (hcond hcont.promotion hmig).1 hold⟩
    · exact hcont.flagged ⟨(h.requests.flagged_of_mayMigrate hcont.promotion hmig hmay).2, hearly⟩

theorem Reports.fallBack {cfg : Config} {w : World} {p : Proc} {n : Nat} (h : Reports w (some p))
    (hC : hidesMigration cfg ⟨w, some p⟩ (.fails n) = false) :
    Reports (fallBack cfg p w).world (fallBack cfg p w).proc := by
  have hdecides := decides_fallBack cfg p w
  refine ⟨h.requests.fallBack cfg, hdecides.reported h.log, fun j hj hmig hstarted => ?_,
    fun p' hp' hprom' hmig hstarted => ?_⟩
  · rw [hdecides.loaded] at hj
    rw [hdecides.migrates] at hmig
    rcases fallBack_started hstarted with hold | ⟨-, hidle⟩
    · exact h.loaded j hj hmig hold
    · have hnone := (h.requests.fenced.1.idle hidle).fence
      rw [World.loaded, hnone] at hj
      cases hj
  · have hcont := h.requests.fenced.fallBack_continues hp' hprom' n
    rw [hdecides.migrates, hcont.op] at hmig
    rw [hcont.op] at hstarted
    rcases fallBack_started hstarted with hold | ⟨-, hidle⟩
    · refine hcont.flagged ⟨h.proc p rfl hcont.promotion hmig hold, ?_⟩
      simpa [hidesMigration, hcont.promotion, hmig, hold] using hC
    · rw [hcont.promotion] at hidle
      cases hidle

/-! ## The step and the run -/

/-- No write stages an operation or starts a script. -/
theorem applyAll_migrates (w : World) (ws : List Write) (op : Text) :
    migrates (w.applyAll ws).log op = migrates w.log op ∧
      started (w.applyAll ws).log op = started w.log op := by
  induction ws generalizing w with
  | nil => exact ⟨rfl, rfl⟩
  | cons wr ws ih =>
    obtain ⟨hm, hs⟩ := ih (w.apply wr)
    refine ⟨hm.trans ?_, hs.trans ?_⟩
    · cases wr <;> rfl
    · cases wr <;> rfl

/-- The snapshot leaves promoting.json alone. -/
theorem applyAll_snapshot_loaded {cfg : Config} {w : World} {p : Proc} (h : p.phase = .snapshot) :
    (w.applyAll (p.phase.writes cfg p.gen w)).loaded = w.loaded := by
  rw [h]
  simp only [Phase.writes]
  split
  · rfl
  · rfl

theorem hidesMigration_done_applyAll (cfg : Config) (w : World) (p : Proc) :
    hidesMigration cfg ⟨w.applyAll (p.phase.writes cfg p.gen w), some p⟩ .done =
      hidesMigration cfg ⟨w, some p⟩ .done := by
  obtain ⟨hm, hs⟩ := applyAll_migrates w (p.phase.writes cfg p.gen w) p.gen.op
  simp only [hidesMigration, Option.any_some, hm, hs, failsEarly_applyAll]
  by_cases hphase : p.phase = .snapshot
  · rw [applyAll_snapshot_loaded hphase]
  · simp [hphase]

theorem hidesMigration_fails_applyAll (cfg : Config) (w : World) (p : Proc) (ws : List Write)
    (n : Nat) : hidesMigration cfg ⟨w.applyAll ws, some p⟩ (.fails n) =
      hidesMigration cfg ⟨w, some p⟩ (.fails n) := by
  obtain ⟨hm, hs⟩ := applyAll_migrates w ws p.gen.op
  simp only [hidesMigration, Option.any_some, hm, hs]
  rfl

theorem migrates_stage {w : World} {text : Text} {j : Journal}
    (hnew : newOperation w text = some j) {op : Text} {k : Journal}
    (hk : request w.log op = some k) : migrates (w.stage text j).log op = migrates w.log op := by
  rw [migrates, request_stage hnew hk, migrates, hk]

theorem Reports.stage {w w' : World} {proc : Option Proc} (h : Reports w proc) {text : Text}
    {j : Journal} (hnew : newOperation w text = some j) (hrequests : Requests w' proc)
    (hlog : w'.log = (w.stage text j).log)
    (hloaded : ∀ k, w'.loaded = some k → w.loaded = some k) : Reports w' proc := by
  refine ⟨hrequests, ?_, fun k hk => ?_, fun p hp hprom => ?_⟩
  · rw [hlog]
    exact h.log.cons rfl
  · obtain ⟨k', hk', -⟩ := h.requests.world.loaded k (hloaded k hk)
    rw [hlog, migrates_stage hnew hk']
    exact h.loaded k (hloaded k hk)
  · obtain ⟨k, hk, -⟩ := h.requests.proc p hp hprom
    rw [hlog, migrates_stage hnew hk]
    exact h.proc p hp hprom

/-- The invariant is kept by every step that hides no migration. -/
theorem reports_rule (cfg : Config) :
    StepRule cfg (fun s e => hidesMigration cfg s e = false) Reports where
  write := fun h₀ _ hdoes _ h => h₀.write hdoes h
  down := fun h => ⟨(requests_rule cfg).down h.requests, h.log, h.loaded, fun p hp => by cases hp⟩
  finish := by
    rintro w w' p - hC rfl h
    refine h.finish rfl ?_
    rw [hidesMigration_done_applyAll]
    exact hC
  fallBack := by
    rintro w w' p n - hC rfl h
    refine h.fallBack (n := n) ?_
    rw [hidesMigration_fails_applyAll]
    exact hC
  appExit := by
    intro w p h
    refine ⟨h.requests.appExit, ?_, ?_, fun p' hp' hprom' hmig hstarted => ?_⟩
    · rw [appExit_world]
      exact h.log
    · rw [appExit_world]
      exact h.loaded
    · rw [appExit_world] at hmig hstarted
      rcases appExit_continues hp' hprom' with hcont | ⟨k, hk, hop, -⟩
      · rw [hcont.op] at hmig hstarted
        exact hcont.flagged (h.proc p rfl hcont.promotion hmig hstarted)
      · rw [hop, (h.requests.world.staged k hk).2] at hstarted
        cases hstarted
  boot := by
    intro w seed h _
    have hrequests := boot_requests h.requests.fenced h.requests.world cfg seed
    obtain ⟨releases, hworld⟩ := boot_world cfg w seed
    refine ⟨hrequests, ?_, ?_, fun p' hp' hprom' hmig hstarted => ?_⟩
    · rw [hworld]
      exact h.log
    · rw [hworld]
      exact h.loaded
    · rw [hworld] at hmig hstarted
      rcases boot_continues hp' hprom' with ⟨j, hj, hop, hflagged⟩ | ⟨k, hk, hop, -⟩
      · rw [hop] at hmig hstarted
        exact hflagged (h.loaded j hj hmig hstarted)
      · have hnot := (h.requests.world.staged k hk).2
        rw [hop] at hstarted
        rw [show started w.log k.operationId = true from hstarted] at hnot
        cases hnot
  stage := fun h hnew hpending hpromoting =>
    h.stage hnew ((requests_rule cfg).stage h.requests hnew hpending hpromoting) rfl fun _ hk => hk
  recover := fun h hnew =>
    h.stage hnew ((requests_rule cfg).recover h.requests hnew) rfl fun k hk => by cases hk
  release := fun version r h =>
    h.shrink ((requests_rule cfg).release version r h.requests) id (fun _ => rfl) (fun _ => rfl)
      fun _ hj => hj
  database := fun db h =>
    h.shrink ((requests_rule cfg).database db h.requests) id (fun _ => rfl) (fun _ => rfl)
      fun _ hj => hj
  ticks := fun stamp h =>
    h.shrink ((requests_rule cfg).ticks stamp h.requests) id (fun _ => rfl) (fun _ => rfl)
      fun _ hj => hj

/-- A world that a run starts from: nothing has been written or started yet, a pending journal
is what was staged, and a promoting journal follows it while it goes forward. -/
structure Fresh (w : World) : Prop where
  tidy : w.Tidy
  results : results w.log = []
  started : ∀ op, started w.log op = false
  staged : ∀ k, w.staged = some k → request w.log k.operationId = some k
  loaded : ∀ j, w.loaded = some j → ∃ k, request w.log j.operationId = some k ∧
    (j.failureVersion = [] → j.kind ≠ some .rollback →
      j.version = k.version ∧ j.migrationApplied = k.migrationApplied)

theorem Fresh.requests {w : World} (h : Fresh w) : Requests w none := by
  refine ⟨h.tidy, ⟨fun k hk => ⟨h.staged k hk, h.started _⟩, h.loaded, fun op hop => ?_⟩,
    fun p hp => by cases hp⟩
  rw [h.started] at hop
  cases hop

/-- **A migrated schema is always reported.**  In every run from a valid journal in which no
early failure meets an operation whose script was started, and no script starts under a stale
marker, every `failed` or `rolledback` result of an operation that was staged as migrating and
whose script was ever started carries `migrationApplied = true`. -/
theorem migrations_reported (cfg : Config) {w : World} (hw : Fresh w) {events : List Event}
    (h : Meets (step cfg) (fun s e => hidesMigration cfg s e = false) ⟨w, none⟩ events) :
    Reported (run (step cfg) ⟨w, none⟩ events).world.log := by
  have hstart : Reports w none := by
    refine ⟨hw.requests, everyResult_of_results_eq_nil hw.results, fun j _ _ hstarted => ?_,
      fun p hp => by cases hp⟩
    rw [hw.started] at hstarted
    cases hstarted
  have hrun := run_keeps_of_meets (I := fun s : State => Reports s.world s.proc)
    (fun s e hs hC => (reports_rule cfg).step (s := s) e hs hC) (s := ⟨w, none⟩) hstart h
  exact hrun.log

theorem sampleWorld_fresh {j : Journal} (h : j.Accepted .pending) : Fresh (sampleWorld j) where
  tidy := sampleWorld_tidy h
  results := rfl
  started := fun _ => rfl
  staged := by
    intro k hk
    have hparse : parseJournal .pending (renderPromoting j) = some j := by
      rw [parseJournal_renderPromoting h.plain, if_pos h]
    obtain rfl : k = j := Option.some.inj (hk.symm.trans hparse)
    show request [.staged k] k.operationId = some k
    rw [request_cons_staged, if_pos rfl]
  loaded := fun j hj => by cases hj

/-- The migrating update fails its gate and the first version is restored. -/
def reverted : List Event :=
  [.starts none, .done, .done, .done, .done, .done, .fails 0, .done, .done, .done, .done, .done,
   .done, .done, .done, .done]

/-- The run theorem at a rollback after a migration, which is reported. -/
theorem migrations_reported_reverted :
    (results (run (step sampleConfig) ⟨sampleWorld (sampleUpdate "op".toList true), none⟩
        reverted).world.log).map (fun r => (r.status, r.migrationApplied)) =
      [(.rolledback, true)] ∧
    Reported (run (step sampleConfig) ⟨sampleWorld (sampleUpdate "op".toList true), none⟩
        reverted).world.log := by
  have hmeets : Meets (step sampleConfig) (fun s e => hidesMigration sampleConfig s e = false)
      ⟨sampleWorld (sampleUpdate "op".toList true), none⟩ reverted := by decide +kernel
  have hfresh : Fresh (sampleWorld (sampleUpdate "op".toList true)) :=
    sampleWorld_fresh (by decide)
  have hreported := migrations_reported sampleConfig hfresh hmeets
  exact And.intro (by decide +kernel) hreported

/-- The update migrates and passes, the app exits while the journal is still there, and the
second attempt cannot publish the release. -/
def regated : List Event :=
  [.database ⟨["init".toList, "add".toList], []⟩, .starts none, .done, .done, .done, .done, .done,
   .done, .done, .exits, .fails 0, .done, .done, .done, .done, .done, .done, .done, .done]

/-- What the run above has recorded when the result is written. -/
theorem regated_log :
    (run (step sampleConfig) ⟨sampleWorld (sampleUpdate "op".toList true), none⟩
      regated).world.log =
    [.result ⟨"op".toList, .rolledback, "1.0.0".toList,
      promoteReason ++ "（原版本 ".toList ++ "2.0.0".toList ++ "）".toList, false⟩,
     .passed "1.0.0".toList "op".toList, .failed "2.0.0".toList "op".toList,
     .passed "2.0.0".toList "op".toList, .migrating "2.0.0".toList "op".toList,
     .dumped ⟨snapshotName "2.0.0".toList "op".toList "20260101T000000Z".toList,
       "2.0.0".toList, "op".toList⟩,
     .staged (sampleUpdate "op".toList true)] := by
  decide +kernel

/-- A migrated schema is not always reported: the script ran before the early failure. -/
theorem migrations_not_reported : ¬ ∀ (cfg : Config) (w : World) (events : List Event), Fresh w →
    Reported (run (step cfg) ⟨w, none⟩ events).world.log := by
  intro h
  have hfresh : Fresh (sampleWorld (sampleUpdate "op".toList true)) :=
    sampleWorld_fresh (by decide)
  have hreported := h sampleConfig _ regated hfresh
  rw [regated_log] at hreported
  have hflag := hreported [] _ _ rfl (fun hstatus => by cases hstatus) (by decide) (by decide)
  cases hflag

end ChordV.Deploy
