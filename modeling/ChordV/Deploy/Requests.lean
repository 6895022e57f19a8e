import ChordV.Deploy.Fence

/-!
# What an operation was staged with

The loop forgets the journal that an operation was staged with, and writes other ones for it.
As long as the operation goes forward, its version and its migration flag are those of the
staged journal.  A staged journal belongs to an operation that has not started a migration.

* `started` says that the migration script was started under an operation.
* `Requests` is the invariant, `requests_rule` the step.  It needs no condition, and the
  results about migrations build on it.
-/

namespace ChordV.Deploy

open ChordV.Lib ChordV.Lib.Machine

/-- The migration script was started under the operation. -/
def started (log : List Entry) (op : Text) : Bool :=
  log.any fun
    | .migrating _ op' => op' = op
    | _ => false

/-! ## The invariant -/

/-- The journals and the staged ones. -/
structure World.Requests (w : World) : Prop where
  staged : ∀ k, w.staged = some k →
    request w.log k.operationId = some k ∧ started w.log k.operationId = false
  loaded : ∀ j, w.loaded = some j → ∃ k, request w.log j.operationId = some k ∧
    (j.failureVersion = [] → j.kind ≠ some .rollback →
      j.version = k.version ∧ j.migrationApplied = k.migrationApplied)
  known : ∀ op, started w.log op = true →
    op = [] ∨ ∃ k ∈ stagedJournals w.log, k.operationId = op

/-- A generation that goes forward is what was staged. -/
def Generation.Follows (g : Generation) (k : Journal) : Prop :=
  g.kind ≠ some .rollback → g.version = k.version ∧ g.mig = k.migrationApplied

/-- What holds in every state. -/
structure Requests (w : World) (proc : Option Proc) : Prop where
  fenced : Fenced w proc
  world : w.Requests
  proc : ∀ p, proc = some p → p.gen.promotion = true → ∃ k, request w.log p.gen.op = some k ∧
    (p.phase.closing = false → p.gen.Follows k)

/-- The state after a decision. -/
def State.Requests (s : State) : Prop := Deploy.Requests s.world s.proc

/-! ## Frames -/

/-- A change that starts no migration, stages nothing and can only remove a journal. -/
theorem World.Requests.shrink {w w' : World} (h : w.Requests)
    (hstaged : stagedJournals w'.log = stagedJournals w.log)
    (hstarted : ∀ op, started w'.log op = started w.log op)
    (hloaded : ∀ j, w'.loaded = some j → w.loaded = some j)
    (hpending : ∀ k, w'.staged = some k → w.staged = some k) : w'.Requests := by
  have hrequest : ∀ op, request w'.log op = request w.log op := fun op => by
    rw [request, hstaged, request]
  refine ⟨fun k hk => ?_, fun j hj => ?_, fun op hop => ?_⟩
  · rw [hrequest, hstarted]
    exact h.staged k (hpending k hk)
  · rw [hrequest]
    exact h.loaded j (hloaded j hj)
  · rw [hstarted] at hop
    rw [hstaged]
    exact h.known op hop

theorem Requests.shrink {w w' : World} {proc : Option Proc} (h : Requests w proc)
    (hfenced : Fenced w' proc) (hstaged : stagedJournals w'.log = stagedJournals w.log)
    (hstarted : ∀ op, started w'.log op = started w.log op)
    (hloaded : ∀ j, w'.loaded = some j → w.loaded = some j)
    (hpending : ∀ k, w'.staged = some k → w.staged = some k) : Requests w' proc := by
  refine ⟨hfenced, h.world.shrink hstaged hstarted hloaded hpending, fun p hp hprom => ?_⟩
  obtain ⟨k, hk, hfollows⟩ := h.proc p hp hprom
  refine ⟨k, ?_, hfollows⟩
  rw [request, hstaged]
  exact hk

/-! ## The writes -/

theorem Requests.write_promoting {cfg : Config} {w₀ w : World} {p : Proc} {j : Journal}
    (hdoes : Does cfg w₀ p (.promoting j)) (h : Requests w (some p)) :
    Requests (w.apply (.promoting j)) (some p) := by
  obtain ⟨hprom, hplain, hop⟩ := h.fenced.marker hdoes
  have hfenced := h.fenced.promoting hprom hplain hop
  have hfits := h.fenced.2.1
  have hactive := h.fenced.1.active hprom
  obtain ⟨k, hk, hfollows⟩ := h.proc p rfl hprom
  -- What a commit of a marker without a failure says about the staged journal.
  have hjournal : j.failureVersion = [] → j.kind ≠ some .rollback →
      j.version = k.version ∧ j.migrationApplied = k.migrationApplied := by
    intro hfailure hkind
    cases hdoes with
    | consume g => exact hfollows rfl hkind
    | landing g lg mig => exact absurd rfl hkind
    | forced g => exact absurd hfailure hactive.attempted_ne_nil
    | terminal g attempted reason mig =>
      rw [hfits.2.1] at hfailure
      exact absurd hfailure hactive.attempted_ne_nil
  refine ⟨hfenced, ⟨h.world.staged, fun k' hk' => ?_, h.world.known⟩, fun p' hp' _ => ?_⟩
  · rw [eq_of_parseJournal_renderPromoting hplain hk', hop]
    exact ⟨k, hk, hjournal⟩
  · obtain rfl := Option.some.inj hp'
    exact ⟨k, hk, hfollows⟩

theorem Requests.write {cfg : Config} {w₀ w : World} {p : Proc} {wr : Write}
    (h₀ : Requests w₀ (some p)) (hdoes : Does cfg w₀ p wr) (h : Requests w (some p)) :
    Requests (w.apply wr) (some p) := by
  have hfenced := h₀.fenced.write hdoes h.fenced
  cases wr with
  | promoting j => exact h.write_promoting hdoes
  | clearPromoting =>
    refine h.shrink hfenced rfl (fun _ => rfl) (fun j hj => ?_) fun _ hk => hk
    cases hj
  | removePending =>
    refine h.shrink hfenced rfl (fun _ => rfl) (fun _ hj => hj) fun k hk => ?_
    cases hk
  | link | desired | previous | lastGood | publish | discard | backup | pruneBackups | result
  | approve => exact h.shrink hfenced rfl (fun _ => rfl) (fun _ hj => hj) fun _ hk => hk

/-! ## The decisions -/

theorem requests_down {w : World} (hf : (down w).Fenced) (hw : w.Requests) :
    (down w).Requests :=
  ⟨hf, hw, fun p hp => by cases hp⟩

theorem requests_go {phase : Phase} {g : Generation} {w : World} (hf : (go phase g w).Fenced)
    (hw : w.Requests)
    (hg : g.promotion = true → ∃ k, request w.log g.op = some k ∧
      (phase.closing = false → g.Follows k)) : (go phase g w).Requests := by
  refine ⟨hf, hw, fun p hp hprom => ?_⟩
  obtain rfl := Option.some.inj hp
  exact hg hprom

/-- What an open phase knows about the staged journal. -/
def Generation.Forward (w : World) (g : Generation) : Prop :=
  g.promotion = true → ∃ k, request w.log g.op = some k ∧ g.Follows k

theorem Generation.Forward.go {phase : Phase} {g : Generation} {w : World} (h : g.Forward w)
    (hf : (go phase g w).Fenced) (hw : w.Requests) : (go phase g w).Requests := by
  refine requests_go hf hw fun hp => ?_
  obtain ⟨k, hk, hfollows⟩ := h hp
  exact ⟨k, hk, fun _ => hfollows⟩

theorem Requests.forward {w : World} {p : Proc} (h : Requests w (some p))
    (hopen : p.phase.closing = false) : p.gen.Forward w := by
  intro hp
  obtain ⟨k, hk, hfollows⟩ := h.proc p rfl hp
  exact ⟨k, hk, hfollows hopen⟩

theorem handleFailedPromotion_requests {w : World} {g : Generation} {reason : Text}
    {o : Option Bool} (hf : (handleFailedPromotion g w reason o).Fenced) (hw : w.Requests)
    (hg : g.Forward w) : (handleFailedPromotion g w reason o).Requests := by
  have hw' : (w.note (.failed g.version g.op)).Requests :=
    hw.shrink rfl (fun _ => rfl) (fun _ hj => hj) fun _ hk => hk
  have hg' : g.Forward (w.note (.failed g.version g.op)) := hg
  unfold handleFailedPromotion at hf ⊢
  by_cases hp : g.promotion = true
  · rw [if_pos hp] at hf ⊢
    by_cases hkind : g.kind = some .restart
    · rw [if_pos hkind] at hf ⊢
      exact hg'.go hf hw'
    · rw [if_neg hkind] at hf ⊢
      cases hlg : fallbackVersion g (w.note (.failed g.version g.op)) with
      | some lg =>
        simp only [hlg] at hf ⊢
        refine requests_go hf hw' fun _ => ?_
        obtain ⟨k, hk, hfollows⟩ := hg' hp
        exact ⟨k, hk, fun _ => hfollows⟩
      | none =>
        simp only [hlg] at hf ⊢
        exact hg'.go hf hw'
  · rw [if_neg hp] at hf ⊢
    exact requests_go hf hw' fun hreset => by cases hreset

/-- The start of the script is noted under the operation in memory. -/
theorem World.Requests.migrating {w : World} {g : Generation} (h : w.Requests) (hfen : g.Fenced w)
    (halone : g.Alone w) : (w.note (.migrating g.version g.op)).Requests := by
  have hstarted : ∀ op, started (w.note (.migrating g.version g.op)).log op =
      (decide (g.op = op) || started w.log op) := fun _ => rfl
  refine ⟨fun k hk => ?_, h.loaded, fun op hop => ?_⟩
  · obtain ⟨hreq, hnot⟩ := h.staged k hk
    refine ⟨hreq, ?_⟩
    rw [hstarted, hnot, Bool.or_false]
    exact decide_eq_false fun heq => halone k hk heq.symm
  · rw [hstarted, Bool.or_eq_true, decide_eq_true_eq] at hop
    rcases hop with rfl | hop
    · cases hp : g.promotion with
      | true => exact .inr (hfen.active hp).staged
      | false => exact .inl (hfen.idle hp).op
    · exact h.known op hop

theorem enterMigrate_requests {cfg : Config} {w : World} {g : Generation} (hfen : g.Fenced w)
    (halone : g.Alone w) (hf : (enterMigrate cfg g w).Fenced) (hw : w.Requests)
    (hg : g.Forward w) : (enterMigrate cfg g w).Requests := by
  unfold enterMigrate at hf ⊢
  split at hf
  case isTrue hcond =>
    rw [if_pos hcond]
    have hg' : g.Forward (w.note (.migrating g.version g.op)) := hg
    exact hg'.go hf (hw.migrating hfen halone)
  case isFalse hcond =>
    rw [if_neg hcond]
    exact hg.go hf hw

theorem afterPromote_requests {cfg : Config} {w : World} {g : Generation} (hfen : g.Fenced w)
    (halone : g.Alone w) (hf : (afterPromote cfg g w).Fenced) (hw : w.Requests)
    (hg : g.Forward w) : (afterPromote cfg g w).Requests := by
  unfold afterPromote at hf ⊢
  cases hmissing : missingEntry cfg (w.releases g.version) with
  | some entry =>
    simp only [hmissing] at hf ⊢
    split at hf
    case isTrue hp =>
      rw [if_pos hp]
      exact handleFailedPromotion_requests hf hw hg
    case isFalse hp =>
      rw [if_neg hp]
      exact requests_down hf hw
  | none =>
    simp only [hmissing] at hf ⊢
    split at hf
    case isTrue hneeds =>
      rw [if_pos hneeds]
      exact hg.go hf hw
    case isFalse hneeds =>
      rw [if_neg hneeds]
      exact enterMigrate_requests hfen halone hf hw hg

theorem resume_requests {w : World} {g : Generation} {failure reason : Text}
    (hf : (resume g w failure reason).Fenced) (hw : w.Requests)
    (hg : ∃ k, request w.log g.op = some k ∧ (failure = [] → g.Follows k)) :
    (resume g w failure reason).Requests := by
  obtain ⟨k, hk, hfollows⟩ := hg
  unfold resume at hf ⊢
  split at hf
  case isTrue hfailure =>
    rw [if_pos hfailure]
    exact requests_go hf hw fun _ => ⟨k, hk, fun hopen => by cases hopen⟩
  case isFalse hfailure =>
    have hforward : g.Forward w := fun _ => ⟨k, hk, hfollows (not_not.mp hfailure)⟩
    rw [if_neg hfailure]
    split at hf
    case isTrue hrelease =>
      rw [if_pos hrelease]
      exact hforward.go hf hw
    case isFalse hrelease =>
      rw [if_neg hrelease]
      exact hforward.go hf hw

theorem consumePending_requests {w : World} {g : Generation} {text : Text}
    (hf : (consumePending g w text).Fenced) (hw : w.Requests) (hpending : w.pending = some text) :
    (consumePending g w text).Requests := by
  unfold consumePending at hf ⊢
  cases hparse : parseJournal .pending text with
  | none =>
    simp only [hparse] at hf ⊢
    exact requests_down hf hw
  | some k =>
    simp only [hparse] at hf ⊢
    have hstaged : w.staged = some k := by
      rw [World.staged, hpending]
      exact hparse
    exact requests_go hf hw fun _ => ⟨k, (hw.staged k hstaged).1, fun _ _ => ⟨rfl, rfl⟩⟩

/-! ## The step -/

/-- A phase that goes on with the same generation. -/
theorem Requests.carry {w : World} {phase phase' : Phase} {g : Generation}
    (h : Requests w (some ⟨phase, g⟩)) (hf : (go phase' g w).Fenced)
    (hopen : phase.closing = false) : (go phase' g w).Requests :=
  (h.forward hopen).go hf h.world

/-- The landing is a rollback, so it need not follow the staged journal. -/
theorem Requests.land {w : World} {g : Generation} {lg : Text} {mig : Bool}
    (h : Requests w (some ⟨.discard lg mig, g⟩))
    (hf : (go .promote
      { g with version := lg, kind := some .rollback, promotion := true, mig } w).Fenced) :
    (go .promote
      { g with version := lg, kind := some .rollback, promotion := true, mig } w).Requests := by
  obtain ⟨k, hk, -⟩ := h.proc _ rfl h.fenced.2.1.1
  exact requests_go hf h.world fun _ => ⟨k, hk, fun _ hkind => absurd rfl hkind⟩

theorem Requests.finish {cfg : Config} {w w' : World} {p : Proc}
    (hw' : w' = w.applyAll (p.phase.writes cfg p.gen w)) (h : Requests w' (some p)) :
    (finish cfg p w').Requests := by
  have hf := h.fenced.finish hw'
  have hfen := h.fenced.1
  have hfits := h.fenced.2.1
  have halone := h.fenced.2.2
  obtain ⟨phase, g⟩ := p
  cases phase with
  | dropPending failure reason =>
    obtain ⟨k, hk, hfollows⟩ := h.proc _ rfl hfits.1
    exact resume_requests hf h.world ⟨k, hk, fun hnil => hfollows (by simp [Phase.closing, hnil])⟩
  | promote => exact afterPromote_requests hfen (halone rfl) hf h.world (h.forward rfl)
  | snapshot =>
    simp only [Deploy.finish] at hf ⊢
    split at hf
    case isTrue hkeep =>
      rw [if_pos hkeep]
      exact handleFailedPromotion_requests hf h.world (h.forward rfl)
    case isFalse hkeep =>
      rw [if_neg hkeep]
      exact enterMigrate_requests hfen (halone rfl) hf h.world (h.forward rfl)
  | gate =>
    simp only [Deploy.finish] at hf ⊢
    split at hf
    case isTrue hready =>
      rw [if_pos hready]
      exact h.carry hf rfl
    case isFalse hready =>
      rw [if_neg hready]
      exact h.carry hf rfl
  | stabilize =>
    have hforward : g.Forward (w'.note (.passed g.version g.op)) := h.forward rfl
    exact hforward.go hf
      (h.world.shrink rfl (fun _ => rfl) (fun _ hj => hj) fun _ hk => hk)
  | stop | forceKill => exact handleFailedPromotion_requests hf h.world (h.forward rfl)
  | discard lg mig => exact h.land hf
  | terminalMarker attempted reason mig =>
    simp only [Deploy.finish] at hf ⊢
    split at hf
    case isTrue hop =>
      rw [if_pos hop]
      refine requests_go hf h.world fun hp => ?_
      obtain ⟨k, hk, -⟩ := h.proc _ rfl hp
      exact ⟨k, hk, fun hopen => by cases hopen⟩
    case isFalse hop =>
      rw [if_neg hop]
      exact requests_down hf h.world
  | terminalResult attempted reason mig => exact requests_down hf h.world
  | clear => exact requests_go hf h.world fun hreset => by cases hreset
  | consume | removePending | migrate | forceMarker | rollbackMarker | rollbackPromote | lastGood
  | result | approve | serving => exact h.carry hf rfl

theorem Requests.fallBack {w : World} {p : Proc} (h : Requests w (some p)) (cfg : Config) :
    (fallBack cfg p w).Requests := by
  have hf := h.fenced.fallBack cfg
  have hfen := h.fenced.1
  have halone := h.fenced.2.2
  obtain ⟨phase, g⟩ := p
  cases phase with
  | dropPending failure reason => exact requests_down hf h.world
  | removePending | forceMarker | forceKill => exact requests_down hf h.world
  | promote =>
    simp only [Deploy.fallBack] at hf ⊢
    split at hf
    case isTrue hp =>
      rw [if_pos hp]
      exact handleFailedPromotion_requests hf h.world (h.forward rfl)
    case isFalse hp =>
      rw [if_neg hp]
      exact afterPromote_requests hfen (halone rfl) hf h.world (h.forward rfl)
  | snapshot | migrate => exact handleFailedPromotion_requests hf h.world (h.forward rfl)
  | stop =>
    simp only [Deploy.fallBack] at hf ⊢
    split at hf
    case isTrue hp =>
      rw [if_pos hp]
      exact h.carry hf rfl
    case isFalse hp =>
      rw [if_neg hp]
      exact h.carry hf rfl
  | gate | stabilize | rollbackMarker | rollbackPromote => exact h.carry hf rfl
  | discard lg mig => exact h.land hf
  | consume | terminalMarker | terminalResult | lastGood | result | approve | clear | serving =>
    exact h

theorem Requests.appExit {w : World} {p : Proc} (h : Requests w (some p)) :
    (appExit p w).Requests := by
  have hf := h.fenced.appExit
  obtain ⟨phase, g⟩ := p
  cases phase with
  | lastGood | result | approve | clear => exact h.carry hf rfl
  | serving =>
    simp only [Deploy.appExit] at hf ⊢
    cases hpending : w.pending with
    | some text =>
      simp only [hpending] at hf ⊢
      exact consumePending_requests hf h.world hpending
    | none =>
      simp only [hpending] at hf ⊢
      exact h.carry hf rfl
  | dropPending | consume | removePending | promote | snapshot | migrate | gate | stabilize | stop
  | forceMarker | forceKill | rollbackMarker | rollbackPromote | discard | terminalMarker
  | terminalResult => exact h

theorem boot_requests {w : World} (htidy : w.Tidy) (hw : w.Requests) (cfg : Config)
    (seed : Option Release) : (boot cfg w seed).Requests := by
  have hf := htidy.boot cfg seed
  cases hpromoting : w.promoting with
  | none =>
    cases hpending : w.pending with
    | none =>
      simp only [boot, hpromoting, hpending] at hf ⊢
      obtain ⟨version, w', hstart, -, releases, rfl⟩ := plainStart_eq cfg w seed
      rw [hstart] at hf ⊢
      exact requests_go hf (hw.shrink rfl (fun _ => rfl) (fun _ hj => hj) fun _ hk => hk)
        fun hp => by cases hp
    | some text =>
      simp only [boot, hpromoting, hpending] at hf ⊢
      exact consumePending_requests hf hw hpending
  | some text =>
    simp only [boot, hpromoting] at hf ⊢
    cases hparse : parseJournal .promoting text with
    | none =>
      simp only [hparse] at hf ⊢
      exact requests_down hf hw
    | some j =>
      have hloaded : w.loaded = some j := by
        rw [World.loaded, hpromoting]
        exact hparse
      obtain ⟨k, hk, hfollows⟩ := hw.loaded j hloaded
      simp only [hparse] at hf ⊢
      cases hpending : w.pending with
      | none =>
        simp only [hpending] at hf ⊢
        exact resume_requests hf hw ⟨k, hk, hfollows⟩
      | some text' =>
        simp only [hpending] at hf ⊢
        cases hparse' : parseJournal .pending text' with
        | none =>
          simp only [hparse'] at hf ⊢
          exact requests_down hf hw
        | some k' =>
          simp only [hparse'] at hf ⊢
          split at hf
          case isTrue hsame =>
            rw [if_pos hsame]
            refine requests_go hf hw fun _ => ⟨k, hk, fun hopen => hfollows ?_⟩
            simpa [Phase.closing] using hopen
          case isFalse hsame =>
            rw [if_neg hsame]
            exact requests_down hf hw

theorem Requests.stage {w w' : World} {proc : Option Proc} (h : Requests w proc) {text : Text}
    {j : Journal} (hnew : newOperation w text = some j) (hfenced : Fenced w' proc)
    (hlog : w'.log = (w.stage text j).log) (hpending : w'.pending = some text)
    (hloaded : ∀ k, w'.loaded = some k → w.loaded = some k) : Requests w' proc := by
  obtain ⟨hparse, hfresh⟩ := newOperation_spec hnew
  refine ⟨hfenced, ⟨fun k hk => ?_, fun k hk => ?_, fun op hop => ?_⟩, fun p hp hprom => ?_⟩
  · rw [World.staged, hpending] at hk
    obtain rfl : k = j := Option.some.inj (hk.symm.trans hparse)
    rw [hlog]
    refine ⟨?_, ?_⟩
    · show request (.staged k :: w.log) k.operationId = some k
      rw [request_cons_staged, if_pos rfl]
    · show started w.log k.operationId = false
      by_contra hstarted
      rcases h.world.known k.operationId (by simpa using hstarted) with hnil | ⟨k', hk', hop⟩
      · exact ne_nil_of_safeOperation (accepted_of_parseJournal hparse).operation hnil
      · exact hfresh k' hk' hop
  · rw [hlog]
    obtain ⟨k', hk', hfollows⟩ := h.world.loaded k (hloaded k hk)
    exact ⟨k', request_stage hnew hk', hfollows⟩
  · rw [hlog] at hop ⊢
    rcases h.world.known op hop with hnil | ⟨k, hk, hkop⟩
    · exact .inl hnil
    · exact .inr ⟨k, List.mem_cons_of_mem _ hk, hkop⟩
  · rw [hlog]
    obtain ⟨k, hk, hfollows⟩ := h.proc p hp hprom
    exact ⟨k, request_stage hnew hk, hfollows⟩

/-- The invariant is kept by every step. -/
theorem requests_rule (cfg : Config) : StepRule cfg (fun _ _ => True) Requests where
  write := fun h₀ _ hdoes _ h => h₀.write hdoes h
  down := fun h => requests_down h.fenced.tidy h.world
  finish := fun _ _ hw' h => h.finish hw'
  fallBack := fun _ _ _ _ h => h.fallBack cfg
  appExit := fun h => h.appExit
  boot := fun h _ => boot_requests h.fenced h.world cfg _
  stage := fun h hnew _ _ => h.stage hnew (h.fenced.stage hnew) rfl rfl fun _ hk => hk
  recover := fun h hnew =>
    h.stage hnew ((fenced_rule cfg).recover h.fenced hnew) rfl rfl fun k hk => by cases hk
  release := fun version r h =>
    h.shrink ((fenced_rule cfg).release version r h.fenced) rfl (fun _ => rfl) (fun _ hj => hj)
      fun _ hk => hk
  database := fun db h =>
    h.shrink ((fenced_rule cfg).database db h.fenced) rfl (fun _ => rfl) (fun _ hj => hj)
      fun _ hk => hk
  ticks := fun stamp h =>
    h.shrink ((fenced_rule cfg).ticks stamp h.fenced) rfl (fun _ => rfl) (fun _ hj => hj)
      fun _ hk => hk

end ChordV.Deploy
