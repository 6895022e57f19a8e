import ChordV.Deploy.Supervisor

/-!
# One operation at a time

What holds in every state of the supervisor, whatever fails: the versions in the state files
are versions, the operation in memory is the one that promoting.json is about, and a staged
operation is another one until its handoff is complete.

* `World.Tidy`, `Generation.Active` and `Generation.Idle` are the parts of the invariant.
  `Phase.Fits` says what the arguments of a phase carry.
* `Fenced` is the invariant, `fenced_rule` the step and `fenced_run` the run.
-/

namespace ChordV.Deploy

open ChordV.Lib ChordV.Lib.Machine

/-! ## The invariant -/

/-- The content of a state file that names a version. -/
def IsVersionFile (v : Text) : Prop := v = [] ∨ safeVersion v = true

/-- The journal in pending.json. -/
def World.staged (w : World) : Option Journal := w.pending.bind (parseJournal .pending)

/-- The journal in promoting.json. -/
def World.loaded (w : World) : Option Journal := w.promoting.bind (parseJournal .promoting)

/-- The files are what the supervisor and the app leave there. -/
structure World.Tidy (w : World) : Prop where
  desired : IsVersionFile w.desired
  current : IsVersionFile w.current
  lastGood : IsVersionFile w.lastGood
  previous : IsVersionFile w.previous
  pending : ∀ text, w.pending = some text →
    ∃ k ∈ stagedJournals w.log, parseJournal .pending text = some k
  promoting : ∀ j, w.loaded = some j → ∃ k ∈ stagedJournals w.log, k.operationId = j.operationId
  distinct : ((stagedJournals w.log).map (·.operationId)).Nodup

/-- A generation that carries an operation. -/
structure Generation.Active (w : World) (g : Generation) : Prop where
  version : safeVersion g.version = true
  op : safeOperation g.op = true
  staged : ∃ k ∈ stagedJournals w.log, k.operationId = g.op
  kind : g.kind.isSome = true
  /-- The origin is another version, and then this is a landing, or it is the version itself:
  the marker of its rollback could not be written. -/
  origin : g.rollbackFrom = [] ∨ safeVersion g.rollbackFrom = true ∧
    (g.rollbackFrom = g.version ∨ g.kind = some .rollback)
  restart : g.kind = some .restart → g.rollbackFrom = []
  fence : ∀ j, w.loaded = some j → j.operationId = g.op

/-- A generation of an ordinary start. -/
structure Generation.Idle (w : World) (g : Generation) : Prop where
  version : IsVersionFile g.version
  op : g.op = []
  kind : g.kind = none
  mig : g.mig = false
  rollbackFrom : g.rollbackFrom = []
  fence : w.promoting = none

/-- The phases in which pending.json can still hold the operation in memory. -/
def Phase.isHandoff : Phase → Bool
  | .dropPending _ _ | .consume | .removePending => true
  | _ => false

/-- The phases that only lead to a `failed` result. -/
def Phase.closing : Phase → Bool
  | .terminalMarker _ _ _ | .terminalResult _ _ _ => true
  | .dropPending failure _ => failure ≠ []
  | _ => false

/-- What the arguments of a phase carry. -/
def Phase.Fits (g : Generation) : Phase → Prop
  | .dropPending failure reason => g.promotion = true ∧
      (failure ≠ [] → failure = orElse g.rollbackFrom g.version) ∧
      (failure = [] ↔ reason = []) ∧ safeReason reason = true
  | .consume | .removePending => g.promotion = true ∧ g.rollbackFrom = []
  | .snapshot => g.promotion = true ∧ g.kind ≠ some .rollback ∧ g.mig = true
  | .forceMarker => g.promotion = true
  | .rollbackMarker lg _ => g.promotion = true ∧ safeVersion lg = true ∧ lg ≠ g.version ∧
      g.rollbackFrom = g.version ∧ g.kind ≠ some .restart
  | .rollbackPromote lg _ | .discard lg _ => g.promotion = true ∧ safeVersion lg = true ∧
      lg ≠ g.version ∧ g.rollbackFrom = g.version
  | .terminalMarker attempted reason _ | .terminalResult attempted reason _ =>
      g.promotion = true ∧ attempted = orElse g.rollbackFrom g.version ∧ reason ≠ [] ∧
      safeReason reason = true
  | .serving => g.promotion = false
  | _ => True

/-- The generation fits the world. -/
structure Generation.Fenced (w : World) (g : Generation) : Prop where
  tidy : w.Tidy
  active : g.promotion = true → g.Active w
  idle : g.promotion = false → g.Idle w

/-- The staged operation is not the one in memory. -/
def Generation.Alone (w : World) (g : Generation) : Prop :=
  ∀ k, w.staged = some k → k.operationId ≠ g.op

/-- What holds in every state. -/
def Fenced (w : World) : Option Proc → Prop
  | none => w.Tidy
  | some p => p.gen.Fenced w ∧ p.phase.Fits p.gen ∧ (p.phase.isHandoff = false → p.gen.Alone w)

theorem Fenced.tidy {w : World} {proc : Option Proc} (h : Fenced w proc) : w.Tidy := by
  cases proc with
  | none => exact h
  | some p => exact h.1.tidy

/-! ## Frames -/

/-- Two worlds with the same journals and versions. -/
structure World.SameFiles (w w' : World) : Prop where
  pending : w'.pending = w.pending
  promoting : w'.promoting = w.promoting
  desired : w'.desired = w.desired
  current : w'.current = w.current
  lastGood : w'.lastGood = w.lastGood
  previous : w'.previous = w.previous
  staged : stagedJournals w'.log = stagedJournals w.log

theorem World.SameFiles.tidy {w w' : World} (h : w.SameFiles w') (ht : w.Tidy) : w'.Tidy where
  desired := h.desired ▸ ht.desired
  current := h.current ▸ ht.current
  lastGood := h.lastGood ▸ ht.lastGood
  previous := h.previous ▸ ht.previous
  pending := by
    rw [h.pending, h.staged]
    exact ht.pending
  promoting := by
    rw [World.loaded, h.promoting, h.staged]
    exact ht.promoting
  distinct := h.staged ▸ ht.distinct

theorem Generation.Active.frame {w w' : World} {g : Generation} (h : g.Active w)
    (hpromoting : w'.promoting = w.promoting)
    (hstaged : stagedJournals w'.log = stagedJournals w.log) : g.Active w' where
  version := h.version
  op := h.op
  staged := hstaged ▸ h.staged
  kind := h.kind
  origin := h.origin
  restart := h.restart
  fence := by
    rw [World.loaded, hpromoting]
    exact h.fence

theorem Generation.Idle.frame {w w' : World} {g : Generation} (h : g.Idle w)
    (hpromoting : w'.promoting = w.promoting) : g.Idle w' where
  version := h.version
  op := h.op
  kind := h.kind
  mig := h.mig
  rollbackFrom := h.rollbackFrom
  fence := hpromoting.trans h.fence

theorem World.SameFiles.fenced {w w' : World} (h : w.SameFiles w') {g : Generation}
    (hg : g.Fenced w) : g.Fenced w' where
  tidy := h.tidy hg.tidy
  active := fun hp => (hg.active hp).frame h.promoting h.staged
  idle := fun hp => (hg.idle hp).frame h.promoting

theorem World.SameFiles.alone {w w' : World} (h : w.SameFiles w') {g : Generation}
    (hg : g.Alone w) : g.Alone w' := by
  rw [Generation.Alone, World.staged, h.pending]
  exact hg

/-- A change that the invariant does not see. -/
theorem Fenced.frame {w w' : World} {proc : Option Proc} (hf : Fenced w proc)
    (h : w.SameFiles w') : Fenced w' proc := by
  cases proc with
  | none => exact h.tidy hf
  | some p => exact ⟨h.fenced hf.1, hf.2.1, fun hh => h.alone (hf.2.2 hh)⟩

/-! ## The writes -/

theorem Generation.Fenced.isVersionFile {w : World} {g : Generation} (h : g.Fenced w) :
    IsVersionFile g.version := by
  cases hp : g.promotion with
  | false => exact (h.idle hp).version
  | true => exact .inr (h.active hp).version

theorem plain_orElse {a b : Text} (ha : Plain a = true) (hb : Plain b = true) :
    Plain (orElse a b) = true := by
  unfold orElse
  split
  · exact hb
  · exact ha

theorem Generation.Active.plain_rollbackFrom {w : World} {g : Generation} (h : g.Active w) :
    Plain g.rollbackFrom = true := by
  rcases h.origin with ho | ⟨ho, -⟩
  · rw [ho]
    rfl
  · exact plain_of_safeVersion ho

/-- The version that is given up is never empty. -/
theorem Generation.Active.attempted_ne_nil {w : World} {g : Generation} (h : g.Active w) :
    orElse g.rollbackFrom g.version ≠ [] := by
  unfold orElse
  split
  · exact ne_nil_of_safeVersion h.version
  · assumption

/-- A commit of a journal of the operation in memory. -/
theorem Fenced.promoting {w : World} {p : Proc} {j : Journal} (h : Fenced w (some p))
    (hp : p.gen.promotion = true) (hplain : j.Plain) (hop : j.operationId = p.gen.op) :
    Fenced (w.apply (.promoting j)) (some p) := by
  obtain ⟨hg, hfits, halone⟩ := h
  have hactive := hg.active hp
  have hloaded : ∀ k, (w.apply (.promoting j)).loaded = some k → k = j := fun k hk =>
    eq_of_parseJournal_renderPromoting hplain hk
  refine ⟨⟨⟨hg.tidy.desired, hg.tidy.current, hg.tidy.lastGood, hg.tidy.previous, hg.tidy.pending,
    ?_, hg.tidy.distinct⟩, fun _ => ?_, fun hidle => ?_⟩, hfits, halone⟩
  · intro k hk
    rw [hloaded k hk, hop]
    exact hactive.staged
  · refine ⟨hactive.version, hactive.op, hactive.staged, hactive.kind, hactive.origin,
      hactive.restart, fun k hk => ?_⟩
    rw [hloaded k hk, hop]
  · rw [hp] at hidle
    cases hidle

/-- Every journal that an action commits is about the operation in memory and needs no
escape. -/
theorem Fenced.marker {cfg : Config} {w w' : World} {p : Proc} {j : Journal}
    (h : Fenced w (some p)) (hdoes : Does cfg w' p (.promoting j)) :
    p.gen.promotion = true ∧ j.Plain ∧ j.operationId = p.gen.op := by
  obtain ⟨hg, hfits, -⟩ := h
  cases hdoes with
  | consume g =>
    have hactive := hg.active hfits.1
    exact ⟨hfits.1, ⟨plain_of_safeVersion hactive.version, plain_of_safeOperation hactive.op,
      rfl, rfl, rfl⟩, rfl⟩
  | forced g =>
    have hactive := hg.active hfits
    have hversion := plain_of_safeVersion hactive.version
    exact ⟨hfits, ⟨hversion, plain_of_safeOperation hactive.op, hactive.plain_rollbackFrom,
      plain_orElse hactive.plain_rollbackFrom hversion,
      show Plain forcedReason = true by decide⟩, rfl⟩
  | landing g lg mig =>
    have hactive := hg.active hfits.1
    exact ⟨hfits.1, ⟨plain_of_safeVersion hfits.2.1, plain_of_safeOperation hactive.op,
      plain_of_safeVersion hactive.version, rfl, rfl⟩, rfl⟩
  | terminal g attempted reason mig =>
    have hactive := hg.active hfits.1
    have hversion := plain_of_safeVersion hactive.version
    refine ⟨hfits.1, ⟨hversion, plain_of_safeOperation hactive.op, hactive.plain_rollbackFrom,
      ?_, plain_of_safeReason hfits.2.2.2⟩, rfl⟩
    rw [hfits.2.1]
    exact plain_orElse hactive.plain_rollbackFrom hversion

theorem Fenced.write {cfg : Config} {w₀ w : World} {p : Proc} {wr : Write}
    (h₀ : Fenced w₀ (some p)) (hdoes : Does cfg w₀ p wr) (h : Fenced w (some p)) :
    Fenced (w.apply wr) (some p) := by
  cases wr with
  | promoting j =>
    obtain ⟨hp, hplain, hop⟩ := h₀.marker hdoes
    exact h.promoting hp hplain hop
  | clearPromoting =>
    obtain ⟨hg, hfits, halone⟩ := h
    refine ⟨⟨⟨hg.tidy.desired, hg.tidy.current, hg.tidy.lastGood, hg.tidy.previous,
      hg.tidy.pending, fun k hk => by (cases hk), hg.tidy.distinct⟩, fun hp => ?_, fun hp => ?_⟩,
      hfits, halone⟩
    · have hactive := hg.active hp
      exact ⟨hactive.version, hactive.op, hactive.staged, hactive.kind, hactive.origin,
        hactive.restart, fun k hk => by cases hk⟩
    · have hidle := hg.idle hp
      exact ⟨hidle.version, hidle.op, hidle.kind, hidle.mig, hidle.rollbackFrom, rfl⟩
  | removePending =>
    obtain ⟨hg, hfits, -⟩ := h
    exact ⟨⟨⟨hg.tidy.desired, hg.tidy.current, hg.tidy.lastGood, hg.tidy.previous,
      fun text htext => by (cases htext), hg.tidy.promoting, hg.tidy.distinct⟩,
      fun hp => (hg.active hp).frame rfl rfl, fun hp => (hg.idle hp).frame rfl⟩, hfits,
      fun _ k hk => by cases hk⟩
  | link version =>
    have hversion : IsVersionFile version := by
      cases hdoes with
      | link g => exact h₀.1.isVersionFile
      | linkBack g lg mig => exact .inr h₀.2.1.2.1
    obtain ⟨hg, hfits, halone⟩ := h
    exact ⟨⟨⟨hg.tidy.desired, hversion, hg.tidy.lastGood, hg.tidy.previous, hg.tidy.pending,
      hg.tidy.promoting, hg.tidy.distinct⟩, fun hp => (hg.active hp).frame rfl rfl,
      fun hp => (hg.idle hp).frame rfl⟩, hfits, halone⟩
  | desired version =>
    have hversion : IsVersionFile version := by
      cases hdoes with
      | desired g => exact h₀.1.isVersionFile
      | desiredBack g lg mig => exact .inr h₀.2.1.2.1
    obtain ⟨hg, hfits, halone⟩ := h
    exact ⟨⟨⟨hversion, hg.tidy.current, hg.tidy.lastGood, hg.tidy.previous, hg.tidy.pending,
      hg.tidy.promoting, hg.tidy.distinct⟩, fun hp => (hg.active hp).frame rfl rfl,
      fun hp => (hg.idle hp).frame rfl⟩, hfits, halone⟩
  | previous version =>
    have hversion : IsVersionFile version := by
      cases hdoes
      exact h₀.1.tidy.lastGood
    obtain ⟨hg, hfits, halone⟩ := h
    exact ⟨⟨⟨hg.tidy.desired, hg.tidy.current, hg.tidy.lastGood, hversion, hg.tidy.pending,
      hg.tidy.promoting, hg.tidy.distinct⟩, fun hp => (hg.active hp).frame rfl rfl,
      fun hp => (hg.idle hp).frame rfl⟩, hfits, halone⟩
  | lastGood version =>
    have hversion : IsVersionFile version := by
      cases hdoes
      exact h₀.1.isVersionFile
    obtain ⟨hg, hfits, halone⟩ := h
    exact ⟨⟨⟨hg.tidy.desired, hg.tidy.current, hversion, hg.tidy.previous, hg.tidy.pending,
      hg.tidy.promoting, hg.tidy.distinct⟩, fun hp => (hg.active hp).frame rfl rfl,
      fun hp => (hg.idle hp).frame rfl⟩, hfits, halone⟩
  | publish _ | discard _ | backup _ | pruneBackups _ | result _ | approve _ =>
    exact h.frame ⟨rfl, rfl, rfl, rfl, rfl, rfl, rfl⟩

/-! ## The decisions -/

/-- The state after a decision. -/
def State.Fenced (s : State) : Prop := Deploy.Fenced s.world s.proc

theorem World.sameFiles_note {w : World} {e : Entry} (he : stagedJournals [e] = []) :
    w.SameFiles (w.note e) where
  pending := rfl
  promoting := rfl
  desired := rfl
  current := rfl
  lastGood := rfl
  previous := rfl
  staged := by
    show stagedJournals ([e] ++ w.log) = _
    rw [stagedJournals, List.filterMap_append]
    change stagedJournals [e] ++ _ = _
    rw [he]
    rfl

/-- A version that the rollback falls back to is a version other than the failed one and
other than the version that the landing came from. -/
theorem fallbackVersion_spec {g : Generation} {w : World} {lg : Text}
    (h : fallbackVersion g w = some lg) :
    lg = (if w.lastGood = g.version then w.previous else w.lastGood) ∧ lg ≠ g.rollbackFrom ∧
      lg ≠ [] ∧ lg ≠ g.version ∧ (w.releases lg).isSome = true := by
  dsimp only [fallbackVersion] at h
  generalize (if w.lastGood = g.version then w.previous else w.lastGood) = v at h ⊢
  split at h
  case isTrue hcond =>
    obtain rfl := Option.some.inj h
    exact ⟨rfl, hcond⟩
  case isFalse => cases h

theorem World.Tidy.fallback_safe {g : Generation} {w : World} {lg : Text} (hw : w.Tidy)
    (h : fallbackVersion g w = some lg) : safeVersion lg = true := by
  obtain ⟨hlg, -, hne, -⟩ := fallbackVersion_spec h
  have hfile : IsVersionFile lg := by
    rw [hlg]
    split
    · exact hw.previous
    · exact hw.lastGood
  exact hfile.resolve_left hne

theorem Generation.Fenced.reset {w : World} {g : Generation} (h : g.Fenced w)
    (hfence : w.promoting = none) : g.reset.Fenced w where
  tidy := h.tidy
  active := fun hp => by cases hp
  idle := fun _ => ⟨h.isVersionFile, rfl, rfl, rfl, rfl, hfence⟩

/-- No staged operation has an empty id. -/
theorem Generation.alone_of_op_nil {w : World} {g : Generation} (hop : g.op = []) :
    g.Alone w := by
  intro k hk hkop
  rw [World.staged, Option.bind_eq_some_iff] at hk
  obtain ⟨text, -, hparse⟩ := hk
  exact ne_nil_of_safeOperation (accepted_of_parseJournal hparse).operation (hkop.trans hop)

theorem safeReason_append {a b : Text} (ha : safeReason a = true) (hb : safeReason b = true) :
    safeReason (a ++ b) = true := by
  simp only [safeReason, Plain, List.all_append, Bool.and_eq_true] at ha hb ⊢
  exact ⟨⟨ha.1, hb.1⟩, ha.2, hb.2⟩

theorem Generation.Fenced.handleFailedPromotion {w : World} {g : Generation} (h : g.Fenced w)
    (halone : g.Alone w) {reason : Text} (hne : reason ≠ []) (hsafe : safeReason reason = true)
    (o : Option Bool) : (handleFailedPromotion g w reason o).Fenced := by
  have hframe : w.SameFiles (w.note (.failed g.version g.op)) := World.sameFiles_note rfl
  have hg := hframe.fenced h
  have hal := hframe.alone halone
  unfold Deploy.handleFailedPromotion
  by_cases hp : g.promotion = true
  · have hactive := hg.active hp
    rw [if_pos hp]
    by_cases hkind : g.kind = some .restart
    · rw [if_pos hkind]
      refine ⟨hg, ⟨hp, ?_, by simp [hne], safeReason_append hsafe (by decide)⟩, fun _ => hal⟩
      rw [hactive.restart hkind]
      rfl
    · rw [if_neg hkind]
      split
      case h_1 lg hlg =>
        obtain ⟨-, -, -, hne', -⟩ := fallbackVersion_spec hlg
        refine ⟨⟨hg.tidy, fun _ => ?_, fun hidle => ?_⟩,
          ⟨hp, hg.tidy.fallback_safe hlg, hne', rfl, hkind⟩, fun _ => hal⟩
        · exact ⟨hactive.version, hactive.op, hactive.staged, hactive.kind,
            .inr ⟨hactive.version, .inl rfl⟩, fun hr => absurd hr hkind, hactive.fence⟩
        · rw [show g.promotion = false from hidle] at hp
          cases hp
      case h_2 =>
        exact ⟨hg, ⟨hp, rfl, by simp [hne], safeReason_append hsafe (by decide)⟩, fun _ => hal⟩
  · rw [if_neg hp]
    have hidle := hg.idle (by simpa using hp)
    exact ⟨hg.reset hidle.fence, trivial, fun _ => Generation.alone_of_op_nil rfl⟩

theorem Generation.Fenced.enterMigrate {w : World} {g : Generation} (h : g.Fenced w)
    (halone : g.Alone w) (cfg : Config) : (enterMigrate cfg g w).Fenced := by
  unfold Deploy.enterMigrate
  split
  · have hframe : w.SameFiles (w.note (.migrating g.version g.op)) := World.sameFiles_note rfl
    exact ⟨hframe.fenced h, trivial, fun _ => hframe.alone halone⟩
  · exact ⟨h, trivial, fun _ => halone⟩

theorem missingEntry_safe {cfg : Config} {r : Option Release} {entry : Text}
    (h : missingEntry cfg r = some entry) : safeReason entry = true := by
  unfold missingEntry at h
  split at h
  · cases h
    exact cfg.appEntry_safe
  · split at h
    · cases h
      exact cfg.adminEntry_safe
    · cases h

theorem incompleteReason_ne_nil (entry : Text) : incompleteReason entry ≠ [] := fun h =>
  absurd (List.append_eq_nil_iff.mp (List.append_eq_nil_iff.mp h).1).1 (by decide)

theorem incompleteReason_safe {entry : Text} (h : safeReason entry = true) :
    safeReason (incompleteReason entry) = true :=
  safeReason_append (safeReason_append (by decide) h) (by decide)

theorem Generation.needsSnapshot_iff {g : Generation} : g.needsSnapshot = true ↔
    g.promotion = true ∧ g.kind ≠ some .rollback ∧ g.mig = true := by
  simp [needsSnapshot, and_assoc]

theorem Generation.Fenced.afterPromote {w : World} {g : Generation} (h : g.Fenced w)
    (halone : g.Alone w) (cfg : Config) : (afterPromote cfg g w).Fenced := by
  unfold Deploy.afterPromote
  split
  case h_1 entry hentry =>
    split
    · exact h.handleFailedPromotion halone (incompleteReason_ne_nil entry)
        (incompleteReason_safe (missingEntry_safe hentry)) _
    · exact h.tidy
  case h_2 =>
    split
    case isTrue hneeds =>
      exact ⟨h, Generation.needsSnapshot_iff.mp hneeds, fun _ => halone⟩
    case isFalse => exact h.enterMigrate halone cfg

theorem Generation.Fenced.resume {w : World} {g : Generation} (h : g.Fenced w)
    (halone : g.Alone w) {failure reason : Text}
    (hfits : (Phase.dropPending failure reason).Fits g) :
    (resume g w failure reason).Fenced := by
  obtain ⟨hp, hfailure, hboth, hsafe⟩ := hfits
  unfold Deploy.resume
  split
  case isTrue hne =>
    exact ⟨h, ⟨hp, hfailure hne, fun hr => hne (hboth.mpr hr), hsafe⟩, fun _ => halone⟩
  case isFalse =>
    split
    · exact ⟨h, trivial, fun _ => halone⟩
    · exact ⟨h, ⟨hp, rfl, by decide, by decide⟩, fun _ => halone⟩

/-- The operation of a pending journal enters the memory. -/
theorem World.Tidy.consumePending {w : World} {g : Generation} {text : Text} (h : w.Tidy)
    (hfence : w.promoting = none) (hroll : g.rollbackFrom = []) (hpending : w.pending = some text) :
    (consumePending g w text).Fenced := by
  obtain ⟨k, hk, hparse⟩ := h.pending text hpending
  have hacc := accepted_of_parseJournal hparse
  have hgo : Deploy.consumePending g w text = go .consume { g with
      version := k.version
      op := k.operationId
      kind := k.kind
      promotion := true
      mig := k.migrationApplied } w := by
    rw [Deploy.consumePending, hparse]
  have hloaded : w.loaded = none := by
    rw [World.loaded, hfence]
    rfl
  rw [hgo]
  refine ⟨⟨h, fun _ => ?_, fun hidle => by cases hidle⟩, ⟨rfl, hroll⟩, fun hh => by cases hh⟩
  exact ⟨hacc.version, hacc.operation, ⟨k, hk, rfl⟩, hacc.kind, .inl hroll, fun _ => hroll,
    fun j hj => by cases hloaded.symm.trans hj⟩

/-! ## The step and the run -/

/-- After the removal of pending.json nothing is staged. -/
theorem Generation.alone_of_pending_none {w : World} {g : Generation} (h : w.pending = none) :
    g.Alone w := by
  intro k hk
  rw [World.staged, h] at hk
  cases hk

/-- The landing of a rollback takes over the operation. -/
theorem Generation.Fenced.land {w : World} {g : Generation} {lg : Text} (h : g.Fenced w)
    (hp : g.promotion = true) (hlg : safeVersion lg = true) (hroll : g.rollbackFrom = g.version)
    (mig : Bool) :
    ({ g with version := lg, kind := some .rollback, promotion := true, mig } :
      Generation).Fenced w := by
  have hactive := h.active hp
  refine ⟨h.tidy, fun _ => ?_, fun hidle => by cases hidle⟩
  exact ⟨hlg, hactive.op, hactive.staged, rfl, .inr ⟨hroll ▸ hactive.version, .inr rfl⟩,
    fun hr => by (cases hr), hactive.fence⟩

theorem Fenced.finish {cfg : Config} {w w' : World} {p : Proc}
    (hw' : w' = w.applyAll (p.phase.writes cfg p.gen w)) (h : Fenced w' (some p)) :
    (finish cfg p w').Fenced := by
  obtain ⟨phase, g⟩ := p
  obtain ⟨hg, hfits, halone⟩ := h
  cases phase with
  | dropPending failure reason =>
    have hpending : w'.pending = none := by
      rw [hw']
      rfl
    exact hg.resume (Generation.alone_of_pending_none hpending) hfits
  | consume => exact ⟨hg, hfits, fun hh => by cases hh⟩
  | removePending =>
    have hpending : w'.pending = none := by
      rw [hw']
      rfl
    exact ⟨hg, trivial, fun _ => Generation.alone_of_pending_none hpending⟩
  | promote => exact hg.afterPromote (halone rfl) cfg
  | snapshot =>
    simp only [Deploy.finish]
    split
    · exact hg.handleFailedPromotion (halone rfl) (by decide) (by decide) _
    · exact hg.enterMigrate (halone rfl) cfg
  | migrate => exact ⟨hg, trivial, halone⟩
  | gate =>
    simp only [Deploy.finish]
    split
    · exact ⟨hg, trivial, halone⟩
    · exact ⟨hg, trivial, halone⟩
  | stabilize =>
    have hframe : w'.SameFiles (w'.note (.passed g.version g.op)) := World.sameFiles_note rfl
    exact ⟨hframe.fenced hg, trivial, fun hh => hframe.alone (halone hh)⟩
  | stop | forceKill =>
    exact hg.handleFailedPromotion (halone rfl) (by decide) (by decide) _
  | forceMarker => exact ⟨hg, trivial, halone⟩
  | rollbackMarker lg mig =>
    exact ⟨hg, ⟨hfits.1, hfits.2.1, hfits.2.2.1, hfits.2.2.2.1⟩, halone⟩
  | rollbackPromote lg mig => exact ⟨hg, hfits, halone⟩
  | discard lg mig => exact ⟨hg.land hfits.1 hfits.2.1 hfits.2.2.2 mig, trivial, halone⟩
  | terminalMarker attempted reason mig =>
    simp only [Deploy.finish]
    split
    · exact ⟨hg, hfits, halone⟩
    · exact hg.tidy
  | terminalResult attempted reason mig => exact hg.tidy
  | lastGood => exact ⟨hg, trivial, halone⟩
  | result => exact ⟨hg, trivial, halone⟩
  | approve => exact ⟨hg, trivial, halone⟩
  | clear =>
    have hpromoting : w'.promoting = none := by
      rw [hw']
      rfl
    exact ⟨hg.reset hpromoting, rfl, fun _ => Generation.alone_of_op_nil rfl⟩
  | serving => exact ⟨hg, hfits, halone⟩

theorem Fenced.fallBack {w : World} {p : Proc} (h : Fenced w (some p)) (cfg : Config) :
    (fallBack cfg p w).Fenced := by
  obtain ⟨phase, g⟩ := p
  obtain ⟨hg, hfits, halone⟩ := h
  cases phase with
  | dropPending failure reason => exact hg.tidy
  | removePending => exact hg.tidy
  | promote =>
    simp only [Deploy.fallBack]
    split
    · exact hg.handleFailedPromotion (halone rfl) (by decide) (by decide) _
    · exact hg.afterPromote (halone rfl) cfg
  | snapshot => exact hg.handleFailedPromotion (halone rfl) (by decide) (by decide) _
  | migrate => exact hg.handleFailedPromotion (halone rfl) (by decide) (by decide) _
  | gate => exact ⟨hg, trivial, halone⟩
  | stabilize => exact ⟨hg, trivial, halone⟩
  | stop =>
    simp only [Deploy.fallBack]
    split
    case isTrue hp => exact ⟨hg, hp, halone⟩
    case isFalse => exact ⟨hg, trivial, halone⟩
  | forceMarker => exact hg.tidy
  | forceKill => exact hg.tidy
  | rollbackMarker lg mig => exact ⟨hg, trivial, halone⟩
  | rollbackPromote lg mig => exact ⟨hg, hfits, halone⟩
  | discard lg mig => exact ⟨hg.land hfits.1 hfits.2.1 hfits.2.2.2 mig, trivial, halone⟩
  | consume => exact ⟨hg, hfits, halone⟩
  | terminalMarker attempted reason mig => exact ⟨hg, hfits, halone⟩
  | terminalResult attempted reason mig => exact ⟨hg, hfits, halone⟩
  | lastGood => exact ⟨hg, hfits, halone⟩
  | result => exact ⟨hg, hfits, halone⟩
  | approve => exact ⟨hg, hfits, halone⟩
  | clear => exact ⟨hg, hfits, halone⟩
  | serving => exact ⟨hg, hfits, halone⟩

theorem Fenced.appExit {w : World} {p : Proc} (h : Fenced w (some p)) :
    (appExit p w).Fenced := by
  obtain ⟨phase, g⟩ := p
  have ⟨hg, hfits, halone⟩ := h
  cases phase with
  | lastGood => exact ⟨hg, trivial, halone⟩
  | result => exact ⟨hg, trivial, halone⟩
  | approve => exact ⟨hg, trivial, halone⟩
  | clear => exact ⟨hg, trivial, halone⟩
  | serving =>
    have hidle := hg.idle hfits
    simp only [Deploy.appExit]
    split
    · exact hg.tidy.consumePending hidle.fence hidle.rollbackFrom ‹_›
    · exact ⟨hg, trivial, halone⟩
  | dropPending | consume | removePending | promote | snapshot | migrate | gate | stabilize | stop
  | forceMarker | forceKill | rollbackMarker | rollbackPromote | discard | terminalMarker
  | terminalResult => exact h

/-- The journal of a resumed promotion gives a generation that fits. -/
theorem World.Tidy.generation {w : World} (h : w.Tidy) {j : Journal} (hj : w.loaded = some j) :
    j.generation.Fenced w ∧
      (Phase.dropPending j.failureVersion j.failureReason).Fits j.generation := by
  have hacc : j.Accepted .promoting := by
    rw [World.loaded, Option.bind_eq_some_iff] at hj
    obtain ⟨text, -, hparse⟩ := hj
    exact accepted_of_parseJournal hparse
  refine ⟨⟨h, fun _ => ?_, fun hidle => by cases hidle⟩,
    ⟨rfl, fun hne => (hacc.failure hne).2, hacc.both, hacc.reason⟩⟩
  refine ⟨hacc.version, hacc.operation, h.promoting j hj, hacc.kind, ?_, fun hr => ?_,
    fun k hk => ?_⟩
  · by_cases hroll : j.rollbackFrom = []
    · exact .inl hroll
    · exact .inr ⟨(hacc.rollback hroll).1, .inr (hacc.rollback hroll).2.1⟩
  · by_contra hroll
    exact absurd (hr.symm.trans (hacc.rollback hroll).2.1) (by decide)
  · rw [hj] at hk
    rw [Option.some.inj hk]
    rfl

theorem World.Tidy.plainStart {w : World} (h : w.Tidy) (cfg : Config) (seed : Option Release)
    (hfence : w.promoting = none) : (plainStart cfg w seed).Fenced := by
  obtain ⟨version, w', hstart, hversion, hw'⟩ := plainStart_eq cfg w seed
  have hframe : w.SameFiles w' := by
    obtain ⟨releases, rfl⟩ := hw'
    exact ⟨rfl, rfl, rfl, rfl, rfl, rfl, rfl⟩
  have hfile : IsVersionFile version := by
    rcases hversion with rfl | rfl | hversion
    · exact .inl rfl
    · exact cfg.seedVersion_safe
    · simp only [startCandidates, List.mem_cons, List.not_mem_nil, or_false] at hversion
      rcases hversion with rfl | rfl | rfl
      · exact h.desired
      · exact h.current
      · exact h.lastGood
  rw [hstart]
  exact ⟨⟨hframe.tidy h, fun hp => by (cases hp),
    fun _ => ⟨hfile, rfl, rfl, rfl, rfl, hframe.promoting.trans hfence⟩⟩, trivial,
    fun _ => Generation.alone_of_op_nil rfl⟩

theorem World.Tidy.boot {w : World} (h : w.Tidy) (cfg : Config) (seed : Option Release) :
    (boot cfg w seed).Fenced := by
  cases hpromoting : w.promoting with
  | none =>
    cases hpending : w.pending with
    | none =>
      simp only [Deploy.boot, hpromoting, hpending]
      exact h.plainStart cfg seed hpromoting
    | some text =>
      simp only [Deploy.boot, hpromoting, hpending]
      exact h.consumePending hpromoting rfl hpending
  | some text =>
    simp only [Deploy.boot, hpromoting]
    cases hparse : parseJournal .promoting text with
    | none => exact h
    | some j =>
      have hloaded : w.loaded = some j := by
        rw [World.loaded, hpromoting]
        exact hparse
      obtain ⟨hgen, hfits⟩ := h.generation hloaded
      cases hpending : w.pending with
      | none => exact hgen.resume (Generation.alone_of_pending_none hpending) hfits
      | some text' =>
        simp only
        split
        · exact h
        · split
          · exact ⟨hgen, hfits, fun hh => by cases hh⟩
          · exact h

/-- What `newOperation` gives is an accepted journal whose operation was never staged. -/
theorem newOperation_spec {w : World} {text : Text} {j : Journal}
    (h : newOperation w text = some j) : parseJournal .pending text = some j ∧
      ∀ k ∈ stagedJournals w.log, k.operationId ≠ j.operationId := by
  obtain ⟨hparse, hnew⟩ := Option.filter_eq_some_iff.mp h
  refine ⟨hparse, fun k hk hop => ?_⟩
  exact of_decide_eq_true hnew (List.mem_map.mpr ⟨k, hk, hop⟩)

theorem World.Tidy.stage {w : World} (h : w.Tidy) {text : Text} {j : Journal}
    (hnew : newOperation w text = some j) : (w.stage text j).Tidy := by
  obtain ⟨hparse, hfresh⟩ := newOperation_spec hnew
  refine ⟨h.desired, h.current, h.lastGood, h.previous, fun text' htext => ?_, fun k hk => ?_, ?_⟩
  · obtain rfl := Option.some.inj htext
    exact ⟨j, List.mem_cons_self, hparse⟩
  · obtain ⟨k', hk', hop⟩ := h.promoting k hk
    exact ⟨k', List.mem_cons_of_mem _ hk', hop⟩
  · refine List.nodup_cons.mpr ⟨fun hmem => ?_, h.distinct⟩
    obtain ⟨k, hk, hop⟩ := List.mem_map.mp hmem
    exact hfresh k hk hop

theorem Fenced.stage {w : World} {proc : Option Proc} (h : Fenced w proc) {text : Text}
    {j : Journal} (hnew : newOperation w text = some j) : Fenced (w.stage text j) proc := by
  cases proc with
  | none => exact World.Tidy.stage h hnew
  | some p =>
    obtain ⟨hparse, hfresh⟩ := newOperation_spec hnew
    obtain ⟨hg, hfits, -⟩ := h
    refine ⟨⟨hg.tidy.stage hnew, fun hp => ?_, fun hp => ?_⟩, hfits, fun _ k hk => ?_⟩
    · have hactive := hg.active hp
      obtain ⟨k, hk, hop⟩ := hactive.staged
      exact ⟨hactive.version, hactive.op, ⟨k, List.mem_cons_of_mem _ hk, hop⟩, hactive.kind,
        hactive.origin, hactive.restart, hactive.fence⟩
    · have hidle := hg.idle hp
      exact ⟨hidle.version, hidle.op, hidle.kind, hidle.mig, hidle.rollbackFrom, hidle.fence⟩
    · obtain rfl : k = j := Option.some.inj (hk.symm.trans hparse)
      cases hp : p.gen.promotion with
      | false =>
        rw [(hg.idle hp).op]
        exact ne_nil_of_safeOperation (accepted_of_parseJournal hparse).operation
      | true =>
        obtain ⟨k', hk', hop⟩ := (hg.active hp).staged
        rw [← hop]
        exact (hfresh k' hk').symm

/-- The invariant is kept by every step. -/
theorem fenced_rule (cfg : Config) : StepRule cfg (fun _ _ => True) Fenced where
  write := fun h₀ _ hdoes _ h => h₀.write hdoes h
  down := fun h => h.tidy
  finish := fun _ _ hw' h => h.finish hw'
  fallBack := fun _ _ _ _ h => h.fallBack cfg
  appExit := fun h => h.appExit
  boot := fun h _ => World.Tidy.boot h cfg _
  stage := fun h hnew _ _ => h.stage hnew
  recover := fun h hnew => by
    have ht := World.Tidy.stage h hnew
    exact ⟨ht.desired, ht.current, ht.lastGood, ht.previous, ht.pending, fun k hk => by (cases hk),
      ht.distinct⟩
  release := fun _ _ h => h.frame ⟨rfl, rfl, rfl, rfl, rfl, rfl, rfl⟩
  database := fun _ h => h.frame ⟨rfl, rfl, rfl, rfl, rfl, rfl, rfl⟩
  ticks := fun _ h => h.frame ⟨rfl, rfl, rfl, rfl, rfl, rfl, rfl⟩

/-- The invariant holds in every state that a run reaches. -/
theorem fenced_run {cfg : Config} {s : State} (hs : s.Fenced) (events : List Event) :
    (run (step cfg) s events).Fenced :=
  run_keeps (I := State.Fenced) (fun _ e h => (fenced_rule cfg).step e h trivial) hs events

/-! ## The journal that an operation was staged with -/

/-- The journal that was staged for an operation. -/
def request (log : List Entry) (op : Text) : Option Journal :=
  (stagedJournals log).find? fun j => j.operationId = op

theorem request_mem {log : List Entry} {op : Text} {k : Journal} (h : request log op = some k) :
    k ∈ stagedJournals log ∧ k.operationId = op :=
  ⟨List.mem_of_find?_eq_some h, by simpa using List.find?_some h⟩

theorem request_cons_staged (j : Journal) (log : List Entry) (op : Text) :
    request (.staged j :: log) op = if j.operationId = op then some j else request log op := by
  show (j :: stagedJournals log).find? _ = _
  rw [List.find?_cons]
  by_cases hop : j.operationId = op
  · simp [hop]
  · simp [hop, request]

/-- The request of an operation is not changed by a new one. -/
theorem request_stage {w : World} {text : Text} {j : Journal}
    (hnew : newOperation w text = some j) {op : Text} {k : Journal}
    (hk : request w.log op = some k) : request (w.stage text j).log op = some k := by
  obtain ⟨-, hfresh⟩ := newOperation_spec hnew
  obtain ⟨hmem, hop⟩ := request_mem hk
  show request (.staged j :: w.log) op = some k
  rw [request_cons_staged, if_neg (fun heq => hfresh k hmem (hop.trans heq.symm))]
  exact hk

/-! ## The results of a log -/

/-- The results that have been written, newest first. -/
def results (log : List Entry) : List Result :=
  log.filterMap fun
    | .result r => some r
    | _ => none

/-- Every result was written when `P` held of it and of what had happened before. -/
def EveryResult (P : List Entry → Result → Prop) (log : List Entry) : Prop :=
  ∀ newer r older, log = newer ++ .result r :: older → P older r

theorem EveryResult.cons_result {P : List Entry → Result → Prop} {log : List Entry}
    (h : EveryResult P log) {r : Result} (hr : P log r) : EveryResult P (.result r :: log) := by
  intro newer r' older heq
  cases newer with
  | nil =>
    obtain ⟨hr', rfl⟩ := List.cons.inj heq
    cases hr'
    exact hr
  | cons e newer => exact h newer r' older (List.cons.inj heq).2

theorem EveryResult.cons {P : List Entry → Result → Prop} {log : List Entry}
    (h : EveryResult P log) {e : Entry} (he : results [e] = []) : EveryResult P (e :: log) := by
  intro newer r older heq
  cases newer with
  | nil =>
    obtain ⟨rfl, -⟩ := List.cons.inj heq
    cases he
  | cons e' newer => exact h newer r older (List.cons.inj heq).2

theorem everyResult_of_results_eq_nil {P : List Entry → Result → Prop} {log : List Entry}
    (h : results log = []) : EveryResult P log := by
  rintro newer r older rfl
  rw [results, List.filterMap_append] at h
  cases (List.append_eq_nil_iff.mp h).2

theorem result_mem_of_mem_results {log : List Entry} {r : Result} (h : r ∈ results log) :
    .result r ∈ log := by
  obtain ⟨e, he, hr⟩ := List.mem_filterMap.mp h
  cases e with
  | result r' =>
    obtain rfl := Option.some.inj hr
    exact he
  | staged | dumped | migrating | passed | failed | approved => cases hr

/-! ## A small installation -/

/-- The settings of a container that migrates and takes snapshots. -/
def sampleConfig : Config where
  appEntry := "main.js".toList
  adminEntry := "index.html".toList
  runMigrate := true
  snapshotEnabled := true
  snapshotKeep := 5
  seedVersion := "1.0.0".toList
  appEntry_safe := by decide
  adminEntry_safe := by decide
  seedVersion_safe := by decide

/-- An update to a second version. -/
def sampleUpdate (op : Text) (migrates : Bool) : Journal where
  version := "2.0.0".toList
  operationId := op
  kind := some .update
  migrationApplied := migrates
  rollbackFrom := []
  failureVersion := []
  failureReason := []

/-- A container that is down, with an approved first version, the second version in place and
an update to it staged. -/
def sampleWorld (j : Journal) : World where
  pending := some (renderPromoting j)
  promoting := none
  desired := "1.0.0".toList
  current := "1.0.0".toList
  lastGood := "1.0.0".toList
  previous := []
  published := "1.0.0".toList
  releases := fun v =>
    if v = "1.0.0".toList then some ⟨true, true, true, ["init".toList]⟩
    else if v = "2.0.0".toList then some ⟨true, true, true, ["init".toList, "add".toList]⟩
    else none
  backups := []
  db := ⟨["init".toList], []⟩
  stamp := "20260101T000000Z".toList
  log := [.staged j]

theorem sampleWorld_tidy {j : Journal} (h : j.Accepted .pending) : (sampleWorld j).Tidy := by
  have hversion : IsVersionFile "1.0.0".toList := by
    unfold IsVersionFile
    decide
  refine ⟨hversion, hversion, hversion, .inl rfl, ?_, fun k hk => by (cases hk),
    List.nodup_cons.mpr ⟨List.not_mem_nil, List.nodup_nil⟩⟩
  rintro text htext
  obtain rfl := Option.some.inj htext
  refine ⟨j, List.mem_singleton_self j, ?_⟩
  rw [parseJournal_renderPromoting h.plain, if_pos h]

end ChordV.Deploy
