import ChordV.Deploy.Requests

/-!
# What a decision passes on

An operation keeps its id through every decision of the loop, and its migration flag travels
through the journals, the variables and the arguments of `handle_failed_promotion`.

* `Proc.Continues` relates the supervisor after a decision to the one before it.
  `Fenced.finish_continues` and `Fenced.fallBack_continues` say that a decision only passes
  the flag on, except that a failure at an early point of the loop drops it.
* `appExit_continues` and `boot_continues` do the same for the exit of the app and for the
  start of the container, where a staged operation can take over.
* `finish_started` and `fallBack_started` say when a decision starts the migration script.
-/

namespace ChordV.Deploy

open ChordV.Lib ChordV.Lib.Machine

/-! ## Flags -/

/-- The migration flag that a phase carries. -/
def Phase.flag : Phase → Option Bool
  | .rollbackMarker _ mig | .rollbackPromote _ mig | .discard _ mig | .terminalMarker _ _ mig
  | .terminalResult _ _ mig => some mig
  | _ => none

/-- Every flag that the supervisor carries says that the schema was migrated. -/
def Proc.Flagged (p : Proc) : Prop :=
  p.gen.mig = true ∧ ∀ mig, p.phase.flag = some mig → mig = true

/-- A failure at a point that is normally before the migration. -/
def Proc.failsEarly (cfg : Config) (w : World) (p : Proc) : Event → Bool
  | .fails _ => p.phase = .promote || p.phase = .snapshot
  | .done => (p.phase = .promote && (missingEntry cfg (w.releases p.gen.version)).isSome) ||
      (p.phase = .snapshot && cfg.snapshotEnabled && !cfg.keepValid)
  | _ => false

/-- A supervisor that goes on with the operation of a generation.  Under `kept` its flags say
that the schema was migrated. -/
structure Proc.Continues (p' : Proc) (g : Generation) (kept : Prop) : Prop where
  promotion : g.promotion = true
  op : p'.gen.op = g.op
  flagged : kept → p'.Flagged

theorem Proc.Continues.mono {p' : Proc} {g : Generation} {kept kept' : Prop}
    (h : p'.Continues g kept) (hkept : kept' → kept) : p'.Continues g kept' :=
  ⟨h.promotion, h.op, fun hk => h.flagged (hkept hk)⟩

theorem go_continues {phase : Phase} {g : Generation} {w : World} {p' : Proc}
    (h : (go phase g w).proc = some p') (hp : p'.gen.promotion = true) :
    p'.Continues g (Proc.Flagged ⟨phase, g⟩) := by
  obtain rfl := Option.some.inj h
  exact ⟨hp, rfl, id⟩

/-- A phase without a flag of its own. -/
theorem go_continues_plain {phase : Phase} {g : Generation} {w : World} {p' : Proc}
    (h : (go phase g w).proc = some p') (hp : p'.gen.promotion = true)
    (hflag : phase.flag = none) : p'.Continues g (g.mig = true) := by
  refine (go_continues h hp).mono fun hmig => ⟨hmig, fun mig hm => ?_⟩
  change phase.flag = some mig at hm
  rw [hflag] at hm
  cases hm

/-- A phase whose flag is that of the generation or of the phase before it. -/
theorem go_continues_flag {phase : Phase} {g : Generation} {w : World} {p' : Proc} {mig : Bool}
    (h : (go phase g w).proc = some p') (hp : p'.gen.promotion = true)
    (hflag : phase.flag = some mig) : p'.Continues g (g.mig = true ∧ mig = true) := by
  refine (go_continues h hp).mono fun hmig => ⟨hmig.1, fun mig' hm => ?_⟩
  change phase.flag = some mig' at hm
  rw [hflag] at hm
  exact Option.some.inj hm ▸ hmig.2

theorem handleFailedPromotion_continues {g : Generation} {w : World} {reason : Text}
    {o : Option Bool} {p' : Proc} (h : (handleFailedPromotion g w reason o).proc = some p')
    (hp : p'.gen.promotion = true) :
    p'.Continues g (g.mig = true ∧ o.getD g.mig = true) := by
  dsimp only [handleFailedPromotion] at h
  split at h
  case isTrue hprom =>
    split at h
    · exact go_continues_flag h hp rfl
    · split at h
      · have hcont := go_continues_flag h hp rfl
        exact ⟨hprom, hcont.op, hcont.flagged⟩
      · exact go_continues_flag h hp rfl
  case isFalse =>
    obtain rfl := Option.some.inj h
    cases hp

theorem enterMigrate_continues {cfg : Config} {g : Generation} {w : World} {p' : Proc}
    (h : (enterMigrate cfg g w).proc = some p') (hp : p'.gen.promotion = true) :
    p'.Continues g (g.mig = true) := by
  unfold enterMigrate at h
  split at h
  · exact go_continues_plain h hp rfl
  · exact go_continues_plain h hp rfl

theorem afterPromote_continues {cfg : Config} {g : Generation} {w : World} {p' : Proc}
    (h : (afterPromote cfg g w).proc = some p') (hp : p'.gen.promotion = true) :
    p'.Continues g (g.mig = true ∧ missingEntry cfg (w.releases g.version) = none) := by
  unfold afterPromote at h
  cases hmissing : missingEntry cfg (w.releases g.version) with
  | some entry =>
    simp only [hmissing] at h
    split at h
    · exact (handleFailedPromotion_continues h hp).mono fun hk => by cases hk.2
    · cases h
  | none =>
    simp only [hmissing] at h
    split at h
    · exact (go_continues_plain h hp rfl).mono And.left
    · exact (enterMigrate_continues h hp).mono And.left

theorem resume_continues {g : Generation} {w : World} {failure reason : Text} {p' : Proc}
    (h : (resume g w failure reason).proc = some p') (hp : p'.gen.promotion = true) :
    p'.Continues g (g.mig = true) := by
  unfold resume at h
  split at h
  · exact (go_continues_flag h hp rfl).mono fun hmig => ⟨hmig, hmig⟩
  · split at h
    · exact go_continues_plain h hp rfl
    · exact (go_continues_flag h hp rfl).mono fun hmig => ⟨hmig, hmig⟩

/-- The landing carries the flag of the rollback. -/
theorem land_continues {g : Generation} {w : World} {lg : Text} {mig : Bool} {p' : Proc}
    (hprom : g.promotion = true)
    (h : (go .promote { g with version := lg, kind := some .rollback, promotion := true, mig }
      w).proc = some p') (hp : p'.gen.promotion = true) : p'.Continues g (mig = true) := by
  have hcont := go_continues_plain h hp rfl
  exact ⟨hprom, hcont.op, hcont.flagged⟩

/-- A decision after a success passes the flags on, unless the promotion fails early. -/
theorem Fenced.finish_continues {cfg : Config} {w : World} {p p' : Proc} (hf : Fenced w (some p))
    (h : (Deploy.finish cfg p w).proc = some p') (hp : p'.gen.promotion = true) :
    p'.Continues p.gen (p.Flagged ∧ p.failsEarly cfg w .done = false) := by
  have hfits := hf.2.1
  obtain ⟨phase, g⟩ := p
  cases phase with
  | dropPending failure reason => exact (resume_continues h hp).mono fun hk => hk.1.1
  | promote =>
    refine (afterPromote_continues h hp).mono fun hk => ⟨hk.1.1, ?_⟩
    simpa [Proc.failsEarly] using hk.2
  | snapshot =>
    simp only [Deploy.finish] at h
    split at h
    case isTrue hkeep =>
      refine (handleFailedPromotion_continues h hp).mono fun hk => ?_
      have hearly := hk.2
      simp only [Proc.failsEarly, Bool.or_eq_false_iff] at hearly
      simp [hkeep] at hearly
    case isFalse => exact (enterMigrate_continues h hp).mono fun hk => hk.1.1
  | gate =>
    simp only [Deploy.finish] at h
    split at h
    · exact (go_continues_plain h hp rfl).mono fun hk => hk.1.1
    · exact (go_continues_plain h hp rfl).mono fun hk => hk.1.1
  | stop | forceKill =>
    exact (handleFailedPromotion_continues h hp).mono fun hk => ⟨hk.1.1, hk.1.1⟩
  | rollbackMarker lg mig | rollbackPromote lg mig =>
    exact (go_continues_flag h hp rfl).mono fun hk => ⟨hk.1.1, hk.1.2 mig rfl⟩
  | discard lg mig =>
    exact (land_continues hfits.1 h hp).mono fun hk => hk.1.2 mig rfl
  | terminalMarker attempted reason mig =>
    simp only [Deploy.finish] at h
    split at h
    · exact (go_continues_flag h hp rfl).mono fun hk => ⟨hk.1.1, hk.1.2 mig rfl⟩
    · cases h
  | terminalResult => cases h
  | clear =>
    obtain rfl := Option.some.inj h
    cases hp
  | consume | removePending | migrate | stabilize | forceMarker | lastGood | result | approve
  | serving => exact (go_continues_plain h hp rfl).mono fun hk => hk.1.1

/-- A decision after a failure passes the flags on, unless the promotion fails early. -/
theorem Fenced.fallBack_continues {cfg : Config} {w : World} {p p' : Proc}
    (hf : Fenced w (some p)) (h : (Deploy.fallBack cfg p w).proc = some p')
    (hp : p'.gen.promotion = true) (n : Nat) :
    p'.Continues p.gen (p.Flagged ∧ p.failsEarly cfg w (.fails n) = false) := by
  have hfits := hf.2.1
  obtain ⟨phase, g⟩ := p
  cases phase with
  | dropPending | removePending | forceMarker | forceKill => cases h
  | promote =>
    have hearly : Proc.failsEarly cfg w ⟨.promote, g⟩ (.fails n) ≠ false := by
      simp [Proc.failsEarly]
    simp only [Deploy.fallBack] at h
    split at h
    · exact (handleFailedPromotion_continues h hp).mono fun hk => absurd hk.2 hearly
    · exact (afterPromote_continues h hp).mono fun hk => absurd hk.2 hearly
  | snapshot =>
    have hearly : Proc.failsEarly cfg w ⟨.snapshot, g⟩ (.fails n) ≠ false := by
      simp [Proc.failsEarly]
    exact (handleFailedPromotion_continues h hp).mono fun hk => absurd hk.2 hearly
  | migrate => exact (handleFailedPromotion_continues h hp).mono fun hk => ⟨hk.1.1, rfl⟩
  | stop =>
    simp only [Deploy.fallBack] at h
    split at h
    · exact (go_continues_plain h hp rfl).mono fun hk => hk.1.1
    · exact (go_continues_plain h hp rfl).mono fun hk => hk.1.1
  | rollbackPromote lg mig | terminalMarker _ _ mig | terminalResult _ _ mig =>
    exact (go_continues_flag h hp rfl).mono fun hk => ⟨hk.1.1, hk.1.2 mig rfl⟩
  | discard lg mig => exact (land_continues hfits.1 h hp).mono fun hk => hk.1.2 mig rfl
  | consume | gate | stabilize | rollbackMarker | lastGood | result | approve | clear | serving =>
    exact (go_continues_plain h hp rfl).mono fun hk => hk.1.1

/-- When the app exits, the supervisor goes on with its operation or takes the staged one. -/
theorem appExit_continues {w : World} {p p' : Proc} (h : (appExit p w).proc = some p')
    (hp : p'.gen.promotion = true) :
    p'.Continues p.gen p.Flagged ∨
      ∃ k, w.staged = some k ∧ p'.gen.op = k.operationId ∧ p'.phase = .consume := by
  obtain ⟨phase, g⟩ := p
  cases phase with
  | lastGood | result | approve | clear => exact .inl ((go_continues_plain h hp rfl).mono And.left)
  | serving =>
    simp only [appExit] at h
    cases hpending : w.pending with
    | none =>
      simp only [hpending] at h
      exact .inl ((go_continues_plain h hp rfl).mono And.left)
    | some text =>
      simp only [hpending, consumePending] at h
      cases hparse : parseJournal .pending text with
      | none =>
        simp only [hparse] at h
        cases h
      | some k =>
        simp only [hparse] at h
        obtain rfl := Option.some.inj h
        refine .inr ⟨k, ?_, rfl, rfl⟩
        rw [World.staged, hpending]
        exact hparse
  | dropPending | consume | removePending | promote | snapshot | migrate | gate | stabilize | stop
  | forceMarker | forceKill | rollbackMarker | rollbackPromote | discard | terminalMarker
  | terminalResult =>
    obtain rfl := Option.some.inj h
    exact .inl ⟨hp, rfl, id⟩

/-- A start goes on with the operation of promoting.json or takes the staged one. -/
theorem boot_continues {cfg : Config} {w : World} {seed : Option Release} {p' : Proc}
    (h : (boot cfg w seed).proc = some p') (hp : p'.gen.promotion = true) :
    (∃ j, w.loaded = some j ∧ p'.gen.op = j.operationId ∧
      (j.migrationApplied = true → p'.Flagged)) ∨
      ∃ k, w.staged = some k ∧ p'.gen.op = k.operationId ∧ p'.phase = .consume := by
  cases hpromoting : w.promoting with
  | none =>
    cases hpending : w.pending with
    | none =>
      simp only [boot, hpromoting, hpending] at h
      obtain ⟨version, w', hstart, -, -⟩ := plainStart_eq cfg w seed
      rw [hstart] at h
      obtain rfl := Option.some.inj h
      cases hp
    | some text =>
      simp only [boot, hpromoting, hpending, consumePending] at h
      cases hparse : parseJournal .pending text with
      | none =>
        simp only [hparse] at h
        cases h
      | some k =>
        simp only [hparse] at h
        obtain rfl := Option.some.inj h
        refine .inr ⟨k, ?_, rfl, rfl⟩
        rw [World.staged, hpending]
        exact hparse
  | some text =>
    simp only [boot, hpromoting] at h
    cases hparse : parseJournal .promoting text with
    | none =>
      simp only [hparse] at h
      cases h
    | some j =>
      have hloaded : w.loaded = some j := by
        rw [World.loaded, hpromoting]
        exact hparse
      have hcont : p'.Continues j.generation (j.migrationApplied = true) := by
        simp only [hparse] at h
        split at h
        · exact resume_continues h hp
        · split at h
          · cases h
          · split at h
            · exact go_continues_plain h hp rfl
            · cases h
      exact .inl ⟨j, hloaded, hcont.op, hcont.flagged⟩

/-! ## When the script starts -/

/-- The generation goes into `run_migrate` where a script can start. -/
def Proc.MayMigrate (p : Proc) : Prop :=
  p.gen.kind ≠ some .rollback ∧
    (p.phase = .snapshot ∨ p.phase = .promote ∧ p.gen.needsSnapshot = false)

theorem handleFailedPromotion_started (g : Generation) (w : World) (reason : Text)
    (o : Option Bool) (op : Text) :
    started (handleFailedPromotion g w reason o).world.log op = started w.log op := by
  dsimp only [handleFailedPromotion]
  split
  · split
    · rfl
    · split <;> rfl
  · rfl

theorem enterMigrate_started {cfg : Config} {g : Generation} {w : World} {op : Text}
    (h : started (enterMigrate cfg g w).world.log op = true) :
    started w.log op = true ∨ op = g.op ∧ g.kind ≠ some .rollback := by
  unfold enterMigrate at h
  split at h
  case isTrue hcond =>
    have hor : (decide (g.op = op) || started w.log op) = true := h
    rw [Bool.or_eq_true, decide_eq_true_eq] at hor
    rcases hor with heq | hold
    · exact .inr ⟨heq.symm, hcond.1⟩
    · exact .inl hold
  case isFalse => exact .inl h

theorem afterPromote_started {cfg : Config} {g : Generation} {w : World} {op : Text}
    (h : started (afterPromote cfg g w).world.log op = true) :
    started w.log op = true ∨ op = g.op ∧ Proc.MayMigrate ⟨.promote, g⟩ ∧
      missingEntry cfg (w.releases g.version) = none := by
  unfold afterPromote at h
  split at h
  · split at h
    · rw [handleFailedPromotion_started] at h
      exact .inl h
    · exact .inl h
  case h_2 hmissing =>
    split at h
    · exact .inl h
    case isFalse hneeds =>
      rcases enterMigrate_started h with hold | ⟨heq, hkind⟩
      · exact .inl hold
      · exact .inr ⟨heq, ⟨hkind, .inr ⟨rfl, by simpa using hneeds⟩⟩, hmissing⟩

theorem resume_world (g : Generation) (w : World) (failure reason : Text) :
    (resume g w failure reason).world = w := by
  unfold resume
  split
  · rfl
  · split <;> rfl

/-- A script starts only under the operation in memory, where it may migrate and where the
promotion has not failed. -/
theorem finish_started {cfg : Config} {p : Proc} {w : World} {op : Text}
    (h : started (finish cfg p w).world.log op = true) :
    started w.log op = true ∨
      op = p.gen.op ∧ p.MayMigrate ∧ p.failsEarly cfg w .done = false := by
  obtain ⟨phase, g⟩ := p
  cases phase with
  | dropPending failure reason =>
    simp only [finish, resume_world] at h
    exact .inl h
  | promote =>
    rcases afterPromote_started h with hold | ⟨heq, hmay, hmissing⟩
    · exact .inl hold
    · exact .inr ⟨heq, hmay, by simp [Proc.failsEarly, hmissing]⟩
  | snapshot =>
    simp only [finish] at h
    split at h
    · rw [handleFailedPromotion_started] at h
      exact .inl h
    case isFalse hkeep =>
      rcases enterMigrate_started h with hold | ⟨heq, hkind⟩
      · exact .inl hold
      · refine .inr ⟨heq, ⟨hkind, .inl rfl⟩, ?_⟩
        simpa [Proc.failsEarly] using hkeep
  | gate =>
    simp only [finish] at h
    split at h
    · exact .inl h
    · exact .inl h
  | stop | forceKill =>
    simp only [finish, handleFailedPromotion_started] at h
    exact .inl h
  | terminalMarker attempted reason mig =>
    simp only [finish] at h
    split at h
    · exact .inl h
    · exact .inl h
  | consume | removePending | migrate | stabilize | forceMarker | rollbackMarker | rollbackPromote
  | discard | terminalResult | lastGood | result | approve | clear | serving => exact .inl h

theorem fallBack_started {cfg : Config} {p : Proc} {w : World} {op : Text}
    (h : started (fallBack cfg p w).world.log op = true) :
    started w.log op = true ∨ op = p.gen.op ∧ p.gen.promotion = false := by
  obtain ⟨phase, g⟩ := p
  cases phase with
  | promote =>
    simp only [fallBack] at h
    split at h
    · rw [handleFailedPromotion_started] at h
      exact .inl h
    case isFalse hp =>
      rcases afterPromote_started h with hold | ⟨heq, -⟩
      · exact .inl hold
      · exact .inr ⟨heq, by simpa using hp⟩
  | snapshot | migrate =>
    simp only [fallBack, handleFailedPromotion_started] at h
    exact .inl h
  | stop =>
    simp only [fallBack] at h
    split at h
    · exact .inl h
    · exact .inl h
  | dropPending | consume | removePending | gate | stabilize | forceMarker | forceKill
  | rollbackMarker | rollbackPromote | discard | terminalMarker | terminalResult | lastGood
  | result | approve | clear | serving => exact .inl h

/-- The writes of an action do not change whether it fails early. -/
theorem failsEarly_applyAll (cfg : Config) (w : World) (p : Proc) :
    p.failsEarly cfg (w.applyAll (p.phase.writes cfg p.gen w)) .done =
      p.failsEarly cfg w .done := by
  obtain ⟨phase, g⟩ := p
  cases phase <;> rfl

theorem consumePending_world (g : Generation) (w : World) (text : Text) :
    (consumePending g w text).world = w := by
  unfold consumePending
  split <;> rfl

theorem appExit_world (p : Proc) (w : World) : (appExit p w).world = w := by
  obtain ⟨phase, g⟩ := p
  cases phase with
  | serving =>
    simp only [appExit]
    split
    · exact consumePending_world g w _
    · rfl
  | dropPending | consume | removePending | promote | snapshot | migrate | gate | stabilize | stop
  | forceMarker | forceKill | rollbackMarker | rollbackPromote | discard | terminalMarker
  | terminalResult | lastGood | result | approve | clear => rfl

theorem boot_world (cfg : Config) (w : World) (seed : Option Release) :
    ∃ releases, (boot cfg w seed).world = { w with releases } := by
  unfold boot
  split
  · split
    · exact ⟨_, rfl⟩
    · split
      · exact ⟨_, resume_world _ _ _ _⟩
      · split
        · exact ⟨_, rfl⟩
        · split <;> exact ⟨_, rfl⟩
  · split
    · exact ⟨_, consumePending_world _ _ _⟩
    · obtain ⟨version, w', hstart, -, releases, rfl⟩ := plainStart_eq cfg w seed
      rw [hstart]
      exact ⟨releases, rfl⟩

end ChordV.Deploy
