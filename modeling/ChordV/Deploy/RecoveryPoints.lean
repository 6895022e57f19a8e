import ChordV.Deploy.Reports

/-!
# No migration without its recovery point

Before an operation migrates the database, `run_snapshot` leaves a snapshot of its own: a
restore must not discard what was written after another operation.  A snapshot that is found
again on a resume is recognised by its name alone.

* `Backup.Early` says that a snapshot was taken before the script of its operation was ever
  started, and `Guarded` that an operation in flight has such a snapshot or has not started.
* `migrations_have_recovery_points` is the result about all runs.  One branch has to be left
  out (`reusesForeign`): the glob `pre-migrate-<version>-<op>-*.sql.gz` also matches the
  snapshot of an operation whose id begins with `<op>-`, and that one is then reused.
-/

namespace ChordV.Deploy

open ChordV.Lib ChordV.Lib.Machine

/-! ## The names of snapshots -/

/-- The glob of an operation matches its own snapshots. -/
theorem matchesGlob_snapshotName (version op stamp : Text) :
    matchesGlob version op (snapshotName version op stamp) = true := by
  have hname : snapshotName version op stamp =
      (snapshotBase version op ++ ['-']) ++ (stamp ++ ".sql.gz".toList) := by
    simp [snapshotName]
  unfold matchesGlob
  simp only [hname, List.drop_left, Bool.and_eq_true, List.isPrefixOf_iff_prefix,
    List.isSuffixOf_iff_suffix]
  exact ⟨List.prefix_append _ _, List.suffix_append _ _⟩

/-- Every snapshot has the name of its version and operation, and the operation was staged. -/
def World.Named (w : World) : Prop :=
  ∀ b ∈ w.backups, (∃ stamp, b.name = snapshotName b.version b.op stamp) ∧
    ∃ k ∈ stagedJournals w.log, k.operationId = b.op

theorem World.Named.hasSnapshot {w : World} (h : w.Named) {b : Backup} (hb : b ∈ w.backups) :
    Deploy.hasSnapshot w b.version b.op = true := by
  obtain ⟨⟨stamp, hname⟩, -⟩ := h b hb
  refine List.any_eq_true.mpr ⟨b, hb, ?_⟩
  rw [hname]
  exact matchesGlob_snapshotName b.version b.op stamp

/-! ## The invariant -/

/-- The snapshot was taken before the script of its operation was ever started. -/
def Backup.Early (log : List Entry) (b : Backup) : Prop :=
  ∃ newer older, log = newer ++ .dumped b :: older ∧ started older b.op = false

theorem Backup.Early.later {log log' : List Entry} {b : Backup} (h : b.Early log)
    (hlog : log <:+ log') : b.Early log' := by
  obtain ⟨newer, older, rfl, hold⟩ := h
  obtain ⟨front, rfl⟩ := hlog
  exact ⟨front ++ newer, older, (List.append_assoc _ _ _).symm, hold⟩

/-- The snapshots of an operation in flight.  It has none, and then its script was not started,
or it has an early one and that is the newest of all.  Only the operation in flight takes
snapshots, so the pruning keeps it. -/
def Guarded (w : World) (op : Text) : Prop :=
  ((∀ b ∈ w.backups, b.op ≠ op) ∧ (migrates w.log op = true → started w.log op = false)) ∨
    ∃ b rest, w.backups = b :: rest ∧ b.op = op ∧ b.Early w.log ∧
      ∀ k, request w.log op = some k → b.version = k.version

/-- Where the script runs, its start was noted and the operation goes forward. -/
def Scripted (w : World) (proc : Option Proc) : Prop :=
  ∀ p, proc = some p → p.phase = .migrate →
    started w.log p.gen.op = true ∧ p.gen.kind ≠ some .rollback

/-- What holds in every state of a run that reuses no foreign snapshot. -/
structure Recoverable (w : World) (proc : Option Proc) : Prop where
  requests : Requests w proc
  named : w.Named
  staged : ∀ k, w.staged = some k → ∀ b ∈ w.backups, b.op ≠ k.operationId
  loaded : ∀ j, w.loaded = some j → Guarded w j.operationId
  script : Scripted w proc
  proc : ∀ p, proc = some p → p.gen.promotion = true → Guarded w p.gen.op

/-- A world in which more has happened and the backups are the same.  A script is only started
where there is a snapshot. -/
theorem Guarded.later {w w' : World} {op : Text} (h : Guarded w op)
    (hbackups : w'.backups = w.backups) (hlog : w.log <:+ w'.log)
    (hrequest : request w'.log op = request w.log op)
    (hstarted : migrates w.log op = true → started w'.log op = true →
      started w.log op = true ∨ ∃ b ∈ w.backups, b.op = op) : Guarded w' op := by
  have hmigrates : migrates w'.log op = migrates w.log op := by
    rw [migrates, hrequest, migrates]
  rcases h with ⟨hnone, hnot⟩ | ⟨b, rest, hb, hop, hearly, hversion⟩
  · refine .inl ⟨hbackups ▸ hnone, fun hmig => ?_⟩
    rw [hmigrates] at hmig
    by_contra hnew
    rcases hstarted hmig (by simpa using hnew) with hold | ⟨b, hb, hop⟩
    · rw [hnot hmig] at hold
      cases hold
    · exact hnone b hb hop
  · refine .inr ⟨b, rest, hbackups ▸ hb, hop, hearly.later hlog, ?_⟩
    rw [hrequest]
    exact hversion

/-- The pruning keeps the newest snapshot. -/
theorem Guarded.prune {w : World} {op : Text} (h : Guarded w op) {keep : Nat} (hkeep : 1 ≤ keep) :
    Guarded (w.apply (.pruneBackups keep)) op := by
  rcases h with ⟨hnone, hnot⟩ | ⟨b, rest, hb, hop, hearly, hversion⟩
  · exact .inl ⟨fun b hb => hnone b (List.mem_of_mem_take hb), hnot⟩
  · refine .inr ⟨b, rest.take (keep - 1), ?_, hop, hearly, hversion⟩
    show w.backups.take keep = _
    obtain ⟨n, rfl⟩ : ∃ n, keep = n + 1 := ⟨keep - 1, by omega⟩
    rw [hb, List.take_succ_cons, Nat.add_sub_cancel]

/-! ## The writes -/

/-- A change of the files that leaves the backups alone and can only remove a journal. -/
theorem Recoverable.shrink {w w' : World} {proc : Option Proc} (h : Recoverable w proc)
    (hrequests : Requests w' proc) (hbackups : w'.backups = w.backups)
    (hlog : w.log <:+ w'.log) (hjournals : stagedJournals w'.log = stagedJournals w.log)
    (hstarted : ∀ op, started w'.log op = started w.log op)
    (hloaded : ∀ j, w'.loaded = some j → w.loaded = some j)
    (hstaged : ∀ k, w'.staged = some k → w.staged = some k) : Recoverable w' proc := by
  have hguarded : ∀ {op}, Guarded w op → Guarded w' op := by
    intro op hop
    refine hop.later hbackups hlog ?_ fun _ hs => .inl (hstarted op ▸ hs)
    rw [request, hjournals, request]
  refine ⟨hrequests, ?_, fun k hk => ?_, fun j hj => ?_, fun p hp hphase => ?_,
    fun p hp hprom => ?_⟩
  · rw [World.Named, hbackups, hjournals]
    exact h.named
  · rw [hbackups]
    exact h.staged k (hstaged k hk)
  · exact hguarded (h.loaded j (hloaded j hj))
  · rw [hstarted]
    exact h.script p hp hphase
  · exact hguarded (h.proc p hp hprom)

/-- An operation that takes a snapshot has none yet, so it has not started its script. -/
theorem Recoverable.dump {w : World} {g : Generation} (h : Recoverable w (some ⟨.snapshot, g⟩))
    (hnone : hasSnapshot w g.version g.op = false) :
    Guarded (w.apply (.backup ⟨snapshotName g.version g.op w.stamp, g.version, g.op⟩)) g.op := by
  obtain ⟨hprom, hkind, hmig⟩ := h.requests.fenced.2.1
  obtain ⟨k, hk, hfollows⟩ := h.requests.proc _ rfl hprom
  obtain ⟨hversion, hflag⟩ := hfollows rfl hkind
  have hk' : request w.log g.op = some k := hk
  have hnot : started w.log g.op = false := by
    rcases h.proc _ rfl hprom with ⟨-, hnot⟩ | ⟨b, rest, hb, hop, -, hreq⟩
    · refine hnot ?_
      have hkmig : k.migrationApplied = true := hflag.symm.trans hmig
      simp [migrates, hk, hkmig]
    · have hmem : b ∈ w.backups := by
        rw [hb]
        exact List.mem_cons_self
      have hfound := h.named.hasSnapshot hmem
      rw [hreq k hk, ← hversion, hop] at hfound
      rw [show hasSnapshot w g.version g.op = true from hfound] at hnone
      cases hnone
  refine .inr ⟨_, w.backups, rfl, rfl, ⟨[], w.log, rfl, hnot⟩, fun k' hk'' => ?_⟩
  obtain rfl := Option.some.inj (hk'.symm.trans hk'')
  exact hversion

theorem Recoverable.write {cfg : Config} {w₀ w : World} {p : Proc} {wr : Write}
    (h₀ : Recoverable w₀ (some p)) (hdoes : Does cfg w₀ p wr) (hleads : wr.leads = true → w = w₀)
    (h : Recoverable w (some p)) : Recoverable (w.apply wr) (some p) := by
  have hrequests := h₀.requests.write hdoes h.requests
  cases wr with
  | promoting j =>
    obtain ⟨hprom, hplain, hop⟩ := h.requests.fenced.marker hdoes
    refine ⟨hrequests, h.named, h.staged, fun k hk => ?_, h.script, h.proc⟩
    rw [eq_of_parseJournal_renderPromoting hplain hk, hop]
    exact h.proc p rfl hprom
  | clearPromoting =>
    refine h.shrink hrequests rfl List.suffix_rfl rfl (fun _ => rfl) (fun j hj => ?_) fun _ hk => hk
    cases hj
  | removePending =>
    refine h.shrink hrequests rfl List.suffix_rfl rfl (fun _ => rfl) (fun _ hj => hj) fun k hk => ?_
    cases hk
  | backup b =>
    obtain rfl := hleads rfl
    cases hdoes with
    | backup g hkeep hnone =>
      have hprom := h.requests.fenced.2.1.1
      have hactive := h.requests.fenced.1.active hprom
      have halone := h.requests.fenced.2.2 rfl
      have hguarded := h.dump hnone
      refine ⟨hrequests, ?_, fun k hk b hb => ?_, fun j hj => ?_, fun p hp hphase => ?_,
        fun p hp _ => ?_⟩
      · intro b hb
        rcases List.mem_cons.mp hb with rfl | hb
        · exact ⟨⟨_, rfl⟩, hactive.staged⟩
        · exact h.named b hb
      · rcases List.mem_cons.mp hb with rfl | hb
        · exact fun heq => halone k hk heq.symm
        · exact h.staged k hk b hb
      · rw [hactive.fence j hj]
        exact hguarded
      · obtain rfl := Option.some.inj hp
        cases hphase
      · obtain rfl := Option.some.inj hp
        exact hguarded
  | pruneBackups keep =>
    have hkeep : 1 ≤ keep := by
      cases hdoes with
      | pruneBackups g hvalid hnone =>
        rw [Config.keepValid, Bool.and_eq_true, decide_eq_true_eq] at hvalid
        exact hvalid.1
    exact ⟨hrequests, fun b hb => h.named b (List.mem_of_mem_take hb),
      fun k hk b hb => h.staged k hk b (List.mem_of_mem_take hb),
      fun j hj => (h.loaded j hj).prune hkeep, h.script,
      fun p hp hprom => (h.proc p hp hprom).prune hkeep⟩
  | result | approve =>
    exact h.shrink hrequests rfl (List.suffix_cons _ _) rfl (fun _ => rfl) (fun _ hj => hj)
      fun _ hk => hk
  | link | desired | previous | lastGood | publish | discard =>
    exact h.shrink hrequests rfl List.suffix_rfl rfl (fun _ => rfl) (fun _ hj => hj) fun _ hk => hk

/-! ## The decisions -/

/-- The state after a decision. -/
def State.Scripted (s : State) : Prop := Deploy.Scripted s.world s.proc

theorem scripted_down (w : World) : (down w).Scripted := fun p hp => by cases hp

theorem scripted_go {phase : Phase} (hphase : phase ≠ .migrate) (g : Generation) (w : World) :
    (go phase g w).Scripted := by
  intro p hp hmigrate
  obtain rfl := Option.some.inj hp
  exact absurd hmigrate hphase

theorem handleFailedPromotion_scripted (g : Generation) (w : World) (reason : Text)
    (o : Option Bool) : (handleFailedPromotion g w reason o).Scripted := by
  dsimp only [handleFailedPromotion]
  split
  · split
    · exact scripted_go (fun h => by cases h) _ _
    · split
      · exact scripted_go (fun h => by cases h) _ _
      · exact scripted_go (fun h => by cases h) _ _
  · exact scripted_go (fun h => by cases h) _ _

theorem enterMigrate_scripted (cfg : Config) (g : Generation) (w : World) :
    (enterMigrate cfg g w).Scripted := by
  unfold enterMigrate
  split
  case isTrue hcond =>
    intro p hp _
    obtain rfl := Option.some.inj hp
    refine ⟨?_, hcond.1⟩
    show (decide (g.op = g.op) || started w.log g.op) = true
    simp
  case isFalse => exact scripted_go (fun h => by cases h) _ _

theorem afterPromote_scripted (cfg : Config) (g : Generation) (w : World) :
    (afterPromote cfg g w).Scripted := by
  unfold afterPromote
  split
  · split
    · exact handleFailedPromotion_scripted _ _ _ _
    · exact scripted_down w
  · split
    · exact scripted_go (fun h => by cases h) _ _
    · exact enterMigrate_scripted cfg g w

theorem resume_scripted (g : Generation) (w : World) (failure reason : Text) :
    (resume g w failure reason).Scripted := by
  unfold resume
  split
  · exact scripted_go (fun h => by cases h) _ _
  · split
    · exact scripted_go (fun h => by cases h) _ _
    · exact scripted_go (fun h => by cases h) _ _

theorem consumePending_scripted (g : Generation) (w : World) (text : Text) :
    (consumePending g w text).Scripted := by
  unfold consumePending
  split
  · exact scripted_down w
  · exact scripted_go (fun h => by cases h) _ _

theorem finish_scripted (cfg : Config) (p : Proc) (w : World) : (finish cfg p w).Scripted := by
  obtain ⟨phase, g⟩ := p
  cases phase with
  | dropPending failure reason => exact resume_scripted g w failure reason
  | promote => exact afterPromote_scripted cfg g w
  | snapshot =>
    simp only [finish]
    split
    · exact handleFailedPromotion_scripted _ _ _ _
    · exact enterMigrate_scripted cfg g w
  | gate =>
    simp only [finish]
    split
    · exact scripted_go (fun h => by cases h) _ _
    · exact scripted_go (fun h => by cases h) _ _
  | stop | forceKill => exact handleFailedPromotion_scripted _ _ _ _
  | terminalMarker attempted reason mig =>
    simp only [finish]
    split
    · exact scripted_go (fun h => by cases h) _ _
    · exact scripted_down w
  | terminalResult => exact scripted_down w
  | consume | removePending | migrate | stabilize | forceMarker | rollbackMarker | rollbackPromote
  | discard | lastGood | result | approve | clear | serving =>
    exact scripted_go (fun h => by cases h) _ _

theorem fallBack_scripted (cfg : Config) (p : Proc) (w : World) : (fallBack cfg p w).Scripted := by
  obtain ⟨phase, g⟩ := p
  cases phase with
  | dropPending | removePending | forceMarker | forceKill => exact scripted_down w
  | promote =>
    simp only [fallBack]
    split
    · exact handleFailedPromotion_scripted _ _ _ _
    · exact afterPromote_scripted cfg g w
  | snapshot | migrate => exact handleFailedPromotion_scripted _ _ _ _
  | stop =>
    simp only [fallBack]
    split
    · exact scripted_go (fun h => by cases h) _ _
    · exact scripted_go (fun h => by cases h) _ _
  | consume | gate | stabilize | rollbackMarker | rollbackPromote | discard | terminalMarker
  | terminalResult | lastGood | result | approve | clear | serving =>
    exact scripted_go (fun h => by cases h) _ _

theorem appExit_scripted {p : Proc} {w : World} (h : Scripted w (some p)) :
    (appExit p w).Scripted := by
  obtain ⟨phase, g⟩ := p
  cases phase with
  | lastGood | result | approve | clear => exact scripted_go (fun h => by cases h) _ _
  | serving =>
    simp only [appExit]
    split
    · exact consumePending_scripted _ _ _
    · exact scripted_go (fun h => by cases h) _ _
  | dropPending | consume | removePending | promote | snapshot | migrate | gate | stabilize | stop
  | forceMarker | forceKill | rollbackMarker | rollbackPromote | discard | terminalMarker
  | terminalResult => exact h

theorem boot_scripted (cfg : Config) (w : World) (seed : Option Release) :
    (boot cfg w seed).Scripted := by
  unfold boot
  split
  · split
    · exact scripted_down w
    · split
      · exact resume_scripted _ _ _ _
      · split
        · exact scripted_down w
        · split
          · exact scripted_go (fun h => by cases h) _ _
          · exact scripted_down w
  · split
    · exact consumePending_scripted _ _ _
    · obtain ⟨version, w', hstart, -, -⟩ := plainStart_eq cfg w seed
      rw [hstart]
      exact scripted_go (fun h => by cases h) _ _

/-- The branch that takes a snapshot of something else for that of the operation. -/
def reusesForeign (s : State) (e : Event) : Bool :=
  match e with
  | .done => s.proc.any fun p =>
    p.phase = .snapshot && hasSnapshot s.world p.gen.version p.gen.op &&
      !s.world.backups.any fun b => b.version = p.gen.version && b.op = p.gen.op
  | _ => false

/-- After `run_snapshot` has succeeded, the operation has a snapshot. -/
theorem exists_backup_of_snapshot {cfg : Config} {w : World} {g : Generation}
    (henabled : cfg.snapshotEnabled = true) (hkeep : cfg.keepValid = true)
    (hC : reusesForeign ⟨w, some ⟨.snapshot, g⟩⟩ .done = false) :
    ∃ b ∈ (w.applyAll (Phase.writes cfg g w .snapshot)).backups, b.op = g.op := by
  cases hfound : hasSnapshot w g.version g.op with
  | true =>
    have hown : ∃ b ∈ w.backups, b.version = g.version ∧ b.op = g.op := by
      simpa [reusesForeign, hfound] using hC
    obtain ⟨b, hb, -, hop⟩ := hown
    refine ⟨b, ?_, hop⟩
    simp only [Phase.writes, henabled, hkeep, hfound]
    exact hb
  | false =>
    have hpos : 1 ≤ cfg.snapshotKeep := by
      rw [Config.keepValid, Bool.and_eq_true, decide_eq_true_eq] at hkeep
      exact hkeep.1
    obtain ⟨n, hn⟩ : ∃ n, cfg.snapshotKeep = n + 1 := ⟨cfg.snapshotKeep - 1, by omega⟩
    refine ⟨⟨snapshotName g.version g.op w.stamp, g.version, g.op⟩, ?_, rfl⟩
    simp only [Phase.writes, henabled, hkeep, hfound, hn]
    exact List.mem_cons_self

theorem Decides.later {w w' : World} (h : Decides w w') :
    w'.backups = w.backups ∧ w.log <:+ w'.log ∧ stagedJournals w'.log = stagedJournals w.log ∧
      w'.pending = w.pending := by
  cases h with
  | same | seeded => exact ⟨rfl, List.suffix_rfl, rfl, rfl⟩
  | failed | migrating | passed => exact ⟨rfl, List.suffix_cons _ _, rfl, rfl⟩

/-- What a decision keeps that starts a script only where there is a snapshot. -/
theorem Recoverable.decide {w w' : World} {p : Proc} {proc : Option Proc}
    (h : Recoverable w (some p)) (hdecides : Decides w w') (hrequests : Requests w' proc)
    (hscript : Scripted w' proc)
    (hstarted : ∀ op, migrates w.log op = true → started w'.log op = true →
      started w.log op = true ∨ (op = p.gen.op ∧
        (p.gen.promotion = true → ∃ b ∈ w.backups, b.op = op)))
    (hproc : ∀ p', proc = some p' → p'.gen.promotion = true →
      p.gen.promotion = true ∧ p'.gen.op = p.gen.op) : Recoverable w' proc := by
  obtain ⟨hbackups, hlog, hjournals, hpending⟩ := hdecides.later
  have hguarded : ∀ {op}, (op = p.gen.op → p.gen.promotion = true) → Guarded w op →
      Guarded w' op := by
    intro op hop hg
    refine hg.later hbackups hlog ?_ fun hmig hs => ?_
    · rw [request, hjournals, request]
    · rcases hstarted op hmig hs with hold | ⟨heq, hexists⟩
      · exact .inl hold
      · exact .inr (hexists (hop heq))
  refine ⟨hrequests, ?_, fun k hk => ?_, fun j hj => ?_, hscript, fun p' hp' hprom' => ?_⟩
  · rw [World.Named, hbackups, hjournals]
    exact h.named
  · rw [hbackups]
    rw [World.staged, hpending] at hk
    exact h.staged k hk
  · rw [hdecides.loaded] at hj
    refine hguarded (fun _ => ?_) (h.loaded j hj)
    by_contra hidle
    have hnone := (h.requests.fenced.1.idle (by simpa using hidle)).fence
    rw [World.loaded, hnone] at hj
    cases hj
  · obtain ⟨hprom, hop⟩ := hproc p' hp' hprom'
    rw [hop]
    exact hguarded (fun _ => hprom) (h.proc p rfl hprom)

theorem Recoverable.finish {cfg : Config} {w w' : World} {p : Proc}
    (henabled : cfg.snapshotEnabled = true)
    (hw' : w' = w.applyAll (p.phase.writes cfg p.gen w)) (h : Recoverable w' (some p))
    (hC : reusesForeign ⟨w, some p⟩ .done = false) :
    Recoverable (finish cfg p w').world (finish cfg p w').proc := by
  refine h.decide (decides_finish cfg p w') (h.requests.finish hw') (finish_scripted cfg p w')
    (fun op hmig hs => ?_) fun p' hp' hprom' => ?_
  · rcases finish_started hs with hold | ⟨rfl, hmay, hearly⟩
    · exact .inl hold
    · refine .inr ⟨rfl, fun hprom => ?_⟩
      obtain ⟨hphase, -⟩ := h.requests.flagged_of_mayMigrate hprom hmig hmay
      obtain ⟨phase, g⟩ := p
      obtain rfl : phase = .snapshot := hphase
      have hkeep : cfg.keepValid = true := by simpa [Proc.failsEarly, henabled] using hearly
      rw [hw']
      exact exists_backup_of_snapshot henabled hkeep hC
  · have hcont := h.requests.fenced.finish_continues hp' hprom'
    exact ⟨hcont.promotion, hcont.op⟩

theorem Recoverable.fallBack {w : World} {p : Proc} (h : Recoverable w (some p)) (cfg : Config)
    (n : Nat) : Recoverable (fallBack cfg p w).world (fallBack cfg p w).proc := by
  refine h.decide (decides_fallBack cfg p w) (h.requests.fallBack cfg) (fallBack_scripted cfg p w)
    (fun op _ hs => ?_) fun p' hp' hprom' => ?_
  · rcases fallBack_started hs with hold | ⟨heq, hidle⟩
    · exact .inl hold
    · refine .inr ⟨heq, fun hprom => ?_⟩
      rw [hidle] at hprom
      cases hprom
  · have hcont := h.requests.fenced.fallBack_continues hp' hprom' n
    exact ⟨hcont.promotion, hcont.op⟩

/-- A staged operation has no snapshot and has not started. -/
theorem Guarded.of_staged {w : World} {k : Journal} (hw : w.Requests) (hk : w.staged = some k)
    (hnone : ∀ b ∈ w.backups, b.op ≠ k.operationId) : Guarded w k.operationId :=
  .inl ⟨hnone, fun _ => (hw.staged k hk).2⟩

theorem Recoverable.appExit {w : World} {p : Proc} (h : Recoverable w (some p)) :
    Recoverable (appExit p w).world (appExit p w).proc := by
  have hrequests := h.requests.appExit
  have hscript := appExit_scripted h.script
  rw [State.Requests, appExit_world] at hrequests
  rw [State.Scripted, appExit_world] at hscript
  rw [appExit_world]
  refine ⟨hrequests, h.named, h.staged, h.loaded, hscript, fun p' hp' hprom' => ?_⟩
  rcases appExit_continues hp' hprom' with hcont | ⟨k, hk, hop, -⟩
  · rw [hcont.op]
    exact h.proc p rfl hcont.promotion
  · rw [hop]
    exact Guarded.of_staged h.requests.world hk (h.staged k hk)

theorem boot_recoverable {w : World} (h : Recoverable w none) (cfg : Config)
    (seed : Option Release) :
    Recoverable (boot cfg w seed).world (boot cfg w seed).proc := by
  have hrequests := boot_requests h.requests.fenced h.requests.world cfg seed
  have hscript := boot_scripted cfg w seed
  obtain ⟨releases, hworld⟩ := boot_world cfg w seed
  rw [State.Requests, hworld] at hrequests
  rw [State.Scripted, hworld] at hscript
  rw [hworld]
  refine ⟨hrequests, h.named, h.staged, h.loaded, hscript, fun p' hp' hprom' => ?_⟩
  rcases boot_continues hp' hprom' with ⟨j, hj, hop, -⟩ | ⟨k, hk, hop, -⟩
  · rw [hop]
    exact h.loaded j hj
  · have hguarded := Guarded.of_staged h.requests.world hk (h.staged k hk)
    rw [hop]
    exact hguarded

/-- A new operation has no snapshot, since its id is new. -/
theorem Recoverable.stage {w w' : World} {proc : Option Proc} (h : Recoverable w proc)
    {text : Text} {j : Journal} (hnew : newOperation w text = some j)
    (hrequests : Requests w' proc) (hlog : w'.log = (w.stage text j).log)
    (hbackups : w'.backups = w.backups) (hpending : w'.pending = some text)
    (hloaded : ∀ k, w'.loaded = some k → w.loaded = some k) : Recoverable w' proc := by
  obtain ⟨hparse, hfresh⟩ := newOperation_spec hnew
  have hguarded : ∀ {op k}, request w.log op = some k → Guarded w op → Guarded w' op := by
    intro op k hk hg
    refine hg.later hbackups ?_ ?_ fun _ hs => .inl ?_
    · rw [hlog]
      exact List.suffix_cons _ _
    · rw [hlog, request_stage hnew hk, hk]
    · rw [hlog] at hs
      exact hs
  refine ⟨hrequests, fun b hb => ?_, fun k hk b hb => ?_, fun k hk => ?_, fun p hp hphase => ?_,
    fun p hp hprom => ?_⟩
  · rw [hbackups] at hb
    obtain ⟨hname, k, hk, hop⟩ := h.named b hb
    rw [hlog]
    exact ⟨hname, k, List.mem_cons_of_mem _ hk, hop⟩
  · rw [World.staged, hpending] at hk
    obtain rfl : k = j := Option.some.inj (hk.symm.trans hparse)
    rw [hbackups] at hb
    obtain ⟨-, k', hk', hop⟩ := h.named b hb
    exact fun heq => hfresh k' hk' (hop.trans heq)
  · obtain ⟨k', hk', -⟩ := h.requests.world.loaded k (hloaded k hk)
    exact hguarded hk' (h.loaded k (hloaded k hk))
  · rw [hlog]
    exact h.script p hp hphase
  · obtain ⟨k, hk, -⟩ := h.requests.proc p hp hprom
    exact hguarded hk (h.proc p hp hprom)

/-! ## The step and the run -/

/-- The invariant is kept by every step that reuses no foreign snapshot. -/
theorem recoverable_rule (cfg : Config) (henabled : cfg.snapshotEnabled = true) :
    StepRule cfg (fun s e => reusesForeign s e = false) Recoverable where
  write := fun h₀ _ hdoes hleads h => h₀.write hdoes hleads h
  down := fun h => ⟨(requests_rule cfg).down h.requests, h.named, h.staged, h.loaded,
    fun p hp => by (cases hp), fun p hp => by cases hp⟩
  finish := fun _ hC hw' h => h.finish henabled hw' hC
  fallBack := fun n _ _ _ h => h.fallBack cfg n
  appExit := fun h => h.appExit
  boot := fun h _ => boot_recoverable h cfg _
  stage := fun h hnew hpending hpromoting =>
    h.stage hnew ((requests_rule cfg).stage h.requests hnew hpending hpromoting) rfl rfl rfl
      fun _ hk => hk
  recover := fun h hnew =>
    h.stage hnew ((requests_rule cfg).recover h.requests hnew) rfl rfl rfl fun k hk => by cases hk
  release := fun version r h =>
    h.shrink ((requests_rule cfg).release version r h.requests) rfl List.suffix_rfl rfl
      (fun _ => rfl) (fun _ hj => hj) fun _ hk => hk
  database := fun db h =>
    h.shrink ((requests_rule cfg).database db h.requests) rfl List.suffix_rfl rfl
      (fun _ => rfl) (fun _ hj => hj) fun _ hk => hk
  ticks := fun stamp h =>
    h.shrink ((requests_rule cfg).ticks stamp h.requests) rfl List.suffix_rfl rfl
      (fun _ => rfl) (fun _ hj => hj) fun _ hk => hk

/-- A world that a run starts from: every snapshot belongs to an operation that was staged, the
staged operation has none, and the one in promoting.json has none or an early one. -/
structure Prepared (w : World) : Prop where
  fresh : Fresh w
  named : w.Named
  staged : ∀ k, w.staged = some k → ∀ b ∈ w.backups, b.op ≠ k.operationId
  loaded : ∀ j, w.loaded = some j → Guarded w j.operationId

/-- A finalized snapshot that is named after the version and the operation and was taken before
any migration of that operation. -/
def HasRecoveryPoint (w : World) (version op : Text) : Prop :=
  ∃ b ∈ w.backups, (∃ stamp, b.name = snapshotName version op stamp) ∧
    b.version = version ∧ b.op = op ∧ b.Early w.log

/-- **No forward migration without its recovery point.**  With snapshots enabled, in every run
that never reuses a snapshot of something else, whenever the migration script runs under an
operation that was staged as migrating, the backup directory holds a snapshot of that version
and operation that was taken before any migration of the operation. -/
theorem migrations_have_recovery_points (cfg : Config) (henabled : cfg.snapshotEnabled = true)
    {w : World} (hw : Prepared w) {events : List Event}
    (h : Meets (step cfg) (fun s e => reusesForeign s e = false) ⟨w, none⟩ events) :
    ∀ p, (run (step cfg) ⟨w, none⟩ events).proc = some p → p.phase = .migrate →
      p.gen.promotion = true →
      migrates (run (step cfg) ⟨w, none⟩ events).world.log p.gen.op = true →
      HasRecoveryPoint (run (step cfg) ⟨w, none⟩ events).world p.gen.version p.gen.op := by
  have hstart : Recoverable w none :=
    ⟨hw.fresh.requests, hw.named, hw.staged, hw.loaded, fun p hp => by (cases hp),
      fun p hp => by cases hp⟩
  have hrun := run_keeps_of_meets (I := fun s : State => Recoverable s.world s.proc)
    (fun s e hs hC => (recoverable_rule cfg henabled).step (s := s) e hs hC) (s := ⟨w, none⟩)
    hstart h
  intro p hp hphase hprom hmig
  obtain ⟨hstarted, hkind⟩ := hrun.script p hp hphase
  obtain ⟨k, hk, hfollows⟩ := hrun.requests.proc p hp hprom
  obtain ⟨hversion, -⟩ := hfollows (by rw [hphase]; rfl) hkind
  rcases hrun.proc p hp hprom with ⟨-, hnot⟩ | ⟨b, rest, hb, hop, hearly, hreq⟩
  · rw [hnot hmig] at hstarted
    cases hstarted
  · have hmem : b ∈ (run (step cfg) ⟨w, none⟩ events).world.backups := by
      rw [hb]
      exact List.mem_cons_self
    have hown : b.version = p.gen.version := (hreq k hk).trans hversion.symm
    obtain ⟨⟨stamp, hname⟩, -⟩ := hrun.named b hmem
    rw [hown, hop] at hname
    exact ⟨b, hmem, ⟨stamp, hname⟩, hown, hop, hearly⟩

theorem sampleWorld_prepared {j : Journal} (h : j.Accepted .pending) :
    Prepared (sampleWorld j) where
  fresh := sampleWorld_fresh h
  named := fun b hb => by cases hb
  staged := fun k _ b hb => by cases hb
  loaded := fun j hj => by cases hj

/-- The migrating update is resumed after a kill in the middle of its first migration. -/
def resumed : List Event :=
  [.starts none, .done, .done, .done, .done, .killed 0, .starts none, .done, .done]

/-- The run theorem at a resumed migration. -/
theorem migrations_have_recovery_points_resumed :
    HasRecoveryPoint (run (step sampleConfig)
      ⟨sampleWorld (sampleUpdate "op".toList true), none⟩ resumed).world
      "2.0.0".toList "op".toList := by
  have hmeets : Meets (step sampleConfig) (fun s e => reusesForeign s e = false)
      ⟨sampleWorld (sampleUpdate "op".toList true), none⟩ resumed := by decide +kernel
  have hprepared : Prepared (sampleWorld (sampleUpdate "op".toList true)) :=
    sampleWorld_prepared (by decide)
  have hproc : (run (step sampleConfig) ⟨sampleWorld (sampleUpdate "op".toList true), none⟩
      resumed).proc = some ⟨.migrate, (sampleUpdate "op".toList true).generation⟩ := by
    decide +kernel
  have hmigrates : migrates (run (step sampleConfig)
      ⟨sampleWorld (sampleUpdate "op".toList true), none⟩ resumed).world.log
      "op".toList = true := by decide +kernel
  exact migrations_have_recovery_points sampleConfig rfl hprepared hmeets _ hproc rfl rfl hmigrates

/-- An update with the id `a-b` takes its snapshot and succeeds, and one with the id `a` to the
same version is staged later. -/
def retried : List Event :=
  [.database ⟨["init".toList, "add".toList], []⟩, .starts none, .done, .done, .done, .done, .done,
   .done, .done, .done, .done, .done, .done,
   .stages (renderPromoting (sampleUpdate "a".toList true)), .ticks "20260202T000000Z".toList,
   .exits, .done, .done, .done, .done]

/-- What the run above has recorded when the second migration runs. -/
theorem retried_run :
    ((run (step sampleConfig) ⟨sampleWorld (sampleUpdate "a-b".toList true), none⟩
      retried).proc = some ⟨.migrate, (sampleUpdate "a".toList true).generation⟩ ∧
    migrates (run (step sampleConfig) ⟨sampleWorld (sampleUpdate "a-b".toList true), none⟩
      retried).world.log "a".toList = true) ∧
    (run (step sampleConfig) ⟨sampleWorld (sampleUpdate "a-b".toList true), none⟩
      retried).world.backups.map (·.op) = ["a-b".toList] := by
  decide +kernel

/-- A forward migration does not always have its recovery point: the snapshot of another
operation is taken for it. -/
theorem migration_without_recovery_point : ¬ ∀ (cfg : Config) (w : World) (events : List Event)
    (p : Proc), cfg.snapshotEnabled = true → Prepared w →
      (run (step cfg) ⟨w, none⟩ events).proc = some p → p.phase = .migrate →
      p.gen.promotion = true →
      migrates (run (step cfg) ⟨w, none⟩ events).world.log p.gen.op = true →
      HasRecoveryPoint (run (step cfg) ⟨w, none⟩ events).world p.gen.version p.gen.op := by
  intro h
  obtain ⟨⟨hproc, hmigrates⟩, hbackups⟩ := retried_run
  have hprepared : Prepared (sampleWorld (sampleUpdate "a-b".toList true)) :=
    sampleWorld_prepared (by decide)
  obtain ⟨b, hb, -, -, hop, -⟩ :=
    h sampleConfig _ retried _ rfl hprepared hproc rfl rfl hmigrates
  have hmem : b.op ∈ ["a-b".toList] := hbackups ▸ List.mem_map_of_mem hb
  rw [List.mem_singleton.mp hmem] at hop
  exact absurd hop (by decide)

end ChordV.Deploy
