import ChordV.Agent.Evidence

/-!
# What leaves the node

The control plane learns from the agent through two things: the usage batches that are not
acknowledged yet, and the results of the commands.  `Store.outbox` is this part of the
store.  Only a few transactions touch it: a sample, an acknowledgement, the opening of a
boot, and the two ends of a command.

* `OutboxInv I` says that `I` reads only the outbox, and `Outgoing I` that it survives a
  sample and the opening of a boot.
* `Grown w₀` compares the outbox with an earlier one: batches were added, and the completed
  commands are the same.  `Answered w₀` allows for a command that completed, and reports the
  watermarks of what is still pending.
* `World.step_answered` is the rule of every step but an acknowledgement.
* `Numbered` is the invariant that the sequences of a boot start at one.
-/

namespace ChordV.Agent

open Lib Fallible

namespace Store

variable {s s' : Store}

/-- The part of the store that is reported to the control plane. -/
def outbox (s : Store) :
    List UsageBatch × Table String Nat × String × Table String (Option Outcome) :=
  (s.batches, s.nextSequence, s.bootId, s.commands)

theorem outbox_of_apart (h : s'.apart = s.apart) : s'.outbox = s.outbox := by
  have := congrArg outbox h
  exact this

theorem outbox_of_records (h : s'.records = s.records) : s'.outbox = s.outbox := by
  have := congrArg outbox h
  exact this

theorem batches_of_outbox (h : s'.outbox = s.outbox) : s'.batches = s.batches :=
  congrArg Prod.fst h

theorem completedCommand_of_outbox (h : s'.outbox = s.outbox) (commandId : String) :
    s'.completedCommand commandId = s.completedCommand commandId := by
  have hcommands : s'.commands = s.commands := congrArg (·.2.2.2) h
  unfold completedCommand
  rw [hcommands]

/-- Beginning a command that is not completed completes nothing. -/
theorem beginCommand_completedCommand {commandId : String}
    (hnew : s.completedCommand commandId = none) (other : String) :
    (s.beginCommand commandId).completedCommand other = s.completedCommand other := by
  by_cases hother : other = commandId
  · subst hother
    rw [hnew]
    simp [completedCommand, beginCommand]
  · unfold completedCommand beginCommand
    dsimp only
    rw [AList.lookup_insert_ne hother]

theorem completeCommand_completedCommand_ne {commandId other : String} {outcome : Outcome}
    (hother : other ≠ commandId) :
    (s.completeCommand commandId outcome).completedCommand other = s.completedCommand other := by
  unfold completedCommand completeCommand
  dsimp only
  rw [Table.lookup_modify_ne _ _ hother]

/-- A command that is completed after its result was written has this result. -/
theorem completeCommand_completedCommand_self {commandId : String} {outcome found : Outcome}
    (h : (s.completeCommand commandId outcome).completedCommand commandId = some found) :
    found = outcome := by
  unfold completedCommand completeCommand at h
  dsimp only at h
  rw [Table.lookup_modify_self] at h
  cases hlookup : s.commands.lookup commandId with
  | none =>
    rw [hlookup] at h
    cases h
  | some _ =>
    rw [hlookup] at h
    cases outcome with
    | completed applied watermarks =>
      cases h
      rfl
    | failed e => cases h

/-- A reading of the counters adds one batch, or none. -/
theorem recordSample_outbox (s : Store) (counters : List AbsoluteCounter) (sampledAt : Nat)
    (online : Bool) : (s.recordSample counters sampledAt online).2.outbox = s.outbox ∨
      ∃ samples, (s.recordSample counters sampledAt online).2.outbox =
        (s.batches ++ [{ bootId := s.bootId, sequence := s.sequenceOf, sampledAt, samples }],
          s.nextSequence.insert s.bootId (s.sequenceOf + 1), s.bootId, s.commands) := by
  have htick : (counters.foldl (foldOne online) { store := s }).store.outbox = s.outbox := by
    refine List.foldlRecOn (motive := fun t : Tick => t.store.outbox = s.outbox) _ _ rfl ?_
    intro t ht counter _
    rcases foldOne_store online t counter with heq | ⟨b, row, -, -, -, heq⟩ <;>
      rw [heq] <;> exact ht
  have hsequence : (counters.foldl (foldOne online) { store := s }).store.sequenceOf =
      s.sequenceOf := by
    have hnext := congrArg (·.2.1) htick
    have hboot := congrArg (·.2.2.1) htick
    dsimp only [outbox] at hnext hboot
    unfold sequenceOf
    rw [hnext, hboot]
  unfold recordSample cutBatch
  dsimp only
  split
  · exact .inl htick
  · refine .inr ⟨(counters.foldl (foldOne online) { store := s }).samples, ?_⟩
    simp only [outbox, Prod.mk.injEq] at htick ⊢
    obtain ⟨hbatches, hnext, hboot, hcommands⟩ := htick
    rw [hbatches, hnext, hboot, hcommands, hsequence]
    exact ⟨rfl, rfl, rfl, rfl⟩

end Store

/-! ## Statements about the outbox -/

/-- The statement reads only the outbox. -/
def OutboxInv (I : World → Prop) : Prop :=
  ∀ w w' : World, w'.store.outbox = w.store.outbox → I w → I w'

/-- What a statement about the outbox needs to survive everything but commands and
acknowledgements. -/
structure Outgoing (I : World → Prop) : Prop where
  frame : OutboxInv I
  recordSample : ∀ w counters sampledAt online, I w →
    I { w with store := (w.store.recordSample counters sampledAt online).2 }
  initializeBoot : ∀ w bootId, I w → I { w with store := w.store.initializeBoot bootId }

namespace OutboxInv

variable {I : World → Prop} {deps : Deps} (hI : OutboxInv I)
include hI

theorem recordInv : RecordInv I :=
  fun w w' hrecords _ hw => hI w w' (Store.outbox_of_records hrecords) hw

theorem installStable (user : DesiredUser) : InstallStable I user :=
  fun w w' hrecords _ hw => hI w w' (Store.outbox_of_records hrecords) hw

theorem keeps_transact {f : Store → Except Failure Store}
    (hf : ∀ s s', f s = .ok s' → s'.apart = s.apart) : Keeps I (transact f) := by
  refine Keeps.atomic fun w a w' hw hrun => ?_
  obtain ⟨s', hok, heq⟩ := map_eq_ok.1 hrun
  cases heq
  exact hI w _ (Store.outbox_of_apart (hf _ _ hok)) hw

theorem keeps_write {f : Store → Store} (hf : ∀ s, (f s).outbox = s.outbox) :
    Keeps I (write f) := by
  refine Keeps.atomic fun w a w' hw hrun => ?_
  cases hrun
  exact hI w _ (hf _) hw

theorem keeps_reconcile {users : List DesiredUser} : Keeps I (Processor.reconcile deps users) :=
  hI.recordInv.reconcile_keeps (fun user _ _ => hI.installStable user)
    (hI.keeps_transact fun _ _ => Store.applyDesiredUsers_apart)

theorem keeps_reconcileOrRemember {mode : ControlMode} {users : List DesiredUser} :
    Keeps I (Processor.reconcileOrRemember deps mode users) :=
  Keeps.ite (fun _ => hI.keeps_reconcile) fun _ => hI.recordInv.keeps_rememberDroppedOwnership

theorem keeps_storeSnapshot {snapshot : ConfigSnapshot} :
    Keeps I (Processor.storeSnapshot snapshot) := by
  refine Keeps.atomic fun w applied w' hw hrun => ?_
  obtain ⟨⟨applied', s'⟩, hok, heq⟩ := bind_eq_ok.1 hrun
  cases heq
  exact hI w _ (Store.outbox_of_apart (Store.applyConfigSnapshot_apart hok)) hw

theorem keeps_applySnapshot {snapshot : ConfigSnapshot} :
    Keeps I (Processor.applySnapshot deps snapshot) := by
  refine Keeps.bind Keeps.peek fun _ => Keeps.bind Keeps.liftExcept fun prepared => ?_
  refine Keeps.bind Keeps.peek fun current => Keeps.bind Keeps.liftExcept fun older => ?_
  refine Keeps.ite (fun _ => Keeps.pure) fun _ => ?_
  refine Keeps.bind hI.keeps_reconcileOrRemember fun _ => ?_
  exact Keeps.bind hI.keeps_storeSnapshot fun _ => Keeps.pure

theorem keeps_ensureUser {command : Command} : Keeps I (Processor.ensureUser deps command) := by
  refine Keeps.bind Keeps.peek fun _ => Keeps.bind Keeps.liftExcept fun plan => ?_
  cases plan with
  | none => exact Keeps.pure
  | some found =>
    refine Keeps.bind hI.recordInv.keeps_preflightCollision fun expect => ?_
    refine Keeps.bind hI.recordInv.keeps_releaseStored fun _ => ?_
    refine Keeps.bind (hI.keeps_transact fun _ _ => Store.upsertDesiredUserTx_apart) fun _ => ?_
    refine Keeps.bind (hI.keeps_write fun _ => rfl) fun _ => ?_
    refine Keeps.bind hI.recordInv.keeps_recordProvisionIntent fun _ => ?_
    refine Keeps.bind (hI.recordInv.keeps_ensureUser (hI.installStable _)) fun _ => ?_
    exact Keeps.bind hI.recordInv.keeps_recordProvisioned fun _ =>
      hI.recordInv.keeps_clearPendingRemoval

theorem keeps_terminalUser {payload : UserPayload} {target : Nat} {remove : Bool} :
    Keeps I (Processor.terminalUser deps payload target remove) := by
  have hterminal : ∀ b e, Keeps I (transact (Store.applyTerminal b target e remove)) :=
    fun b e => hI.keeps_transact fun _ _ => Store.applyTerminal_apart
  have hretire : ∀ b e, Keeps I (Processor.retireBinding b target e remove) :=
    fun b e => Keeps.ite (fun _ => Keeps.pure) fun _ => hterminal b e
  refine Keeps.bind Keeps.peek fun _ => Keeps.bind Keeps.liftExcept fun plan => ?_
  cases plan with
  | stale => exact Keeps.pure
  | settled b => exact hterminal _ _
  | uninstall b e =>
    refine Keeps.bind hI.recordInv.keeps_uninstallOwned fun _ => ?_
    dsimp only
    split
    · refine Keeps.bind hI.recordInv.keeps_forgetProvisioned fun _ => ?_
      exact Keeps.bind hI.recordInv.keeps_clearPendingRemoval fun _ => hretire b e
    · exact hretire b e

theorem keeps_reconcileCommand {command : Command} :
    Keeps I (Processor.reconcileCommand deps command) := by
  refine Keeps.bind Keeps.peek fun _ => Keeps.bind Keeps.liftExcept fun plan => ?_
  refine Keeps.bind Keeps.peek fun nodeId => ?_
  refine Keeps.bind hI.keeps_reconcileOrRemember fun _ => ?_
  exact Keeps.bind hI.keeps_storeSnapshot fun _ => Keeps.pure

/-- The body of a command does not touch the outbox. -/
theorem keeps_apply {command : Command} {target : Nat} {writable : Bool} :
    Keeps I (Processor.apply deps command target writable) := by
  refine Keeps.bind Keeps.peek fun ready => Keeps.bind Keeps.ensure fun _ => ?_
  refine Keeps.bind Keeps.ensure fun _ => ?_
  split
  · exact hI.keeps_ensureUser
  · exact hI.keeps_ensureUser
  · exact hI.keeps_terminalUser
  · exact hI.keeps_terminalUser
  · exact hI.keeps_reconcileCommand
  · refine Keeps.bind Keeps.liftExcept fun bindingId => ?_
    split
    · exact Keeps.fail
    · exact Keeps.bind Keeps.liftExcept fun quota => hI.keeps_write fun _ => rfl
  · refine Keeps.ite (fun _ => Keeps.atomic fun w a w' hw hrun => ?_) fun _ => Keeps.fail
    cases hrun
    exact hw
  · exact Keeps.fail

end OutboxInv

namespace Outgoing

variable {I : World → Prop} {deps : Deps} (hI : Outgoing I)
include hI

theorem repairs (deps : Deps) : Repairs deps I where
  volatile := fun w _ hw => hI.frame w _ rfl hw
  stored := fun _ => Triple.pre hI.frame.keeps_reconcile fun _ hw => hw.1
  exhausted := fun _ => hI.frame.recordInv.keeps_uninstallExhausted
  recordSample := hI.recordSample

theorem keeps_refreshedUsers {snapshot prepared : ConfigSnapshot} :
    Keeps I (Runner.refreshedUsers snapshot prepared) := by
  refine Keeps.bind Keeps.peek fun preserve => Keeps.ite (fun _ => ?_) fun _ => ?_
  · exact Keeps.bind Keeps.peek fun _ => Keeps.pure
  · refine Keeps.bind (hI.frame.keeps_transact fun s s' hok => ?_) fun _ =>
      Keeps.bind Keeps.peek fun _ => Keeps.liftExcept
    obtain ⟨recovered, -, hok⟩ := bind_eq_ok.1 hok
    exact Store.restoreBackendConfirmedUsers_apart hok

theorem keeps_refreshConfig {reading : Reading} {epoch : Nat} {response : Option ConfigSnapshot} :
    Keeps I (Runner.refreshConfig deps reading epoch response) := by
  have hrepairs := hI.repairs deps
  cases response with
  | none => exact Keeps.bind hrepairs.keeps_update fun _ => Keeps.fail
  | some snapshot =>
    refine Keeps.bind hrepairs.keeps_update fun _ => Keeps.bind (hrepairs.keeps_noting ?_)
      fun _ => hrepairs.keeps_update
    refine Keeps.bind Keeps.peek fun now => Keeps.bind Keeps.ensure fun _ => ?_
    refine Keeps.bind Keeps.peek fun _ => Keeps.bind Keeps.peek fun _ => ?_
    refine Keeps.bind Keeps.liftExcept fun prepared => Keeps.bind Keeps.liftExcept fun older => ?_
    refine Keeps.ite (fun _ => hrepairs.keeps_syncCurrent) fun _ => ?_
    have hrest : Keeps I (do
        let prepared ← Runner.refreshedUsers snapshot prepared
        Processor.applySnapshot deps prepared
        Runner.syncCurrent) :=
      Keeps.bind hI.keeps_refreshedUsers fun _ =>
        Keeps.bind hI.frame.keeps_applySnapshot fun _ => hrepairs.keeps_syncCurrent
    split
    · exact Keeps.bind hrepairs.sample_keeps fun _ => hrest
    · exact hrest

theorem keeps_boot {bootId : String} : Keeps I (Runner.boot bootId) := by
  have hrepairs := hI.repairs {}
  refine Keeps.bind (Keeps.bind (hI.frame.keeps_write fun s => ?_) fun _ => ?_) fun _ => ?_
  · exact Store.outbox_of_apart (Store.backfillSnapshotRevision_apart s)
  · refine Keeps.bind Keeps.peek fun parked => Keeps.bind (Keeps.forM fun b _ => ?_) fun _ => ?_
    · exact hI.frame.keeps_write fun s => Store.outbox_of_apart (Store.recoverParkedRow_apart b s)
    · refine Keeps.atomic fun w a w' hw hrun => ?_
      cases hrun
      exact hI.initializeBoot w bootId hw
  · exact Keeps.bind hrepairs.keeps_update fun _ => hrepairs.keeps_syncCurrent

/-- The rule of a command: until its result is written the statement holds, and the result
carries the watermarks of what is pending at that moment. -/
theorem execute_triple {J : World → Prop} {reading : Reading} {command : Command}
    (hIJ : ∀ w, I w → J w) (hJ : OutboxInv J)
    (hbegin : ∀ w, w.store.completedCommand command.commandId = none → I w →
      I { w with store := w.store.beginCommand command.commandId })
    (hcomplete : ∀ w outcome, (∀ applied watermarks,
        outcome = .completed applied (some watermarks) →
          watermarks = w.store.pendingBatchWatermarks) → I w →
      J { w with store := w.store.completeCommand command.commandId outcome }) :
    Triple I (Runner.execute deps reading command) (fun _ => J) J := by
  have hrepairs := hI.repairs deps
  have hweaken : ∀ {α : Type} {p : AgentM α}, Keeps I p → Triple I p (fun _ => J) J :=
    fun hp => hp.conseq (fun _ hw => hw) (fun _ => hIJ) hIJ
  have hpass : ∀ {α : Type} {p : AgentM α}, Keeps I p → Triple I p (fun _ => I) J :=
    fun hp => hp.conseq (fun _ hw => hw) (fun _ _ hw => hw) hIJ
  -- The result of the command is made of the world in which it is written.
  have hresult : ∀ target applied, Triple I (Processor.outcomeOf command target applied)
      (fun outcome w => (∀ applied watermarks, outcome = .completed applied (some watermarks) →
        watermarks = w.store.pendingBatchWatermarks) ∧ I w) J := by
    intro target applied
    cases applied with
    | error e =>
      refine Triple.pure fun w hw => ⟨fun _ _ h => ?_, hw⟩
      cases h
    | ok _ =>
      refine Triple.bind (hpass (hI.frame.keeps_write fun _ => rfl)) fun _ => ?_
      refine Triple.bindPeek fun w₁ hw₁ => Triple.pure fun w hw =>
        ⟨fun applied ws h => ?_, hw ▸ hw₁⟩
      subst hw
      split at h
      · cases h
        rfl
      · cases h
  have hrun : ∀ target writable, Triple
      (fun w => w.store.completedCommand command.commandId = none ∧ I w)
      (Processor.runCommand deps command target writable) (fun _ => J) J := by
    intro target writable
    refine Triple.bind (S := fun _ => I) (Triple.atomic ?_ fun w hw => hIJ w hw.2) fun _ => ?_
    · intro w a w' hw hrun
      cases hrun
      exact ⟨hbegin w hw.1 hw.2, hIJ _ (hbegin w hw.1 hw.2)⟩
    refine Triple.bind (hpass (Keeps.attempt hI.frame.keeps_apply)) fun applied => ?_
    refine Triple.bind (hresult target applied) fun outcome => ?_
    refine Triple.bind (S := fun _ => J) (Triple.atomic ?_ fun w hw => hIJ w hw.2)
      fun _ => Triple.pure fun _ hw => hw
    intro w a w' hw hrun
    cases hrun
    exact ⟨hcomplete w outcome hw.1 hw.2, hcomplete w outcome hw.1 hw.2⟩
  have hafter : ∀ writable metered,
      Triple I (Runner.afterSample deps command writable metered) (fun _ => J) J := by
    intro writable metered
    cases metered with
    | error e => exact hweaken Keeps.pure
    | ok _ =>
      refine Triple.bind (S := fun _ => J) ?_ fun _ =>
        Keeps.bind (Keeps.poke fun w hw => hJ w _ rfl hw) fun _ => Keeps.pure
      refine Triple.bind (hpass Keeps.liftExcept) fun target => Triple.bindPeek fun w₁ hw₁ => ?_
      dsimp only
      cases hprevious : w₁.store.completedCommand command.commandId with
      | some outcome =>
        refine Triple.pure fun w hw => ?_
        subst hw
        exact hIJ w hw₁
      | none =>
        refine (hrun _ _).pre fun w hw => ?_
        subst hw
        exact ⟨hprevious, hw₁⟩
  refine Triple.bind (hpass hrepairs.keeps_update) fun _ => Triple.afterPeek fun previous => ?_
  cases previous with
  | some outcome => exact hweaken Keeps.pure
  | none =>
    refine Triple.afterPeek fun mode => Triple.afterPeek fun reconfigures => ?_
    cases reconfigures with
    | error e => exact hweaken Keeps.pure
    | ok reconfigures =>
      dsimp only
      split
      · exact Triple.bind (hpass (Keeps.attempt hrepairs.sample_keeps)) (hafter _)
      · exact Triple.bind (hpass Keeps.pure) (hafter _)

/-- The rule of a step that is neither a command nor an acknowledgement. -/
theorem step_keeps {w : World} (hw : I w) (step : Step)
    (hcommand : ∀ command reading, step.1 ≠ .command command reading)
    (hack : ∀ bootId through, step.1 ≠ .ack bootId through) : I (World.step deps w step) := by
  obtain ⟨label, fates⟩ := step
  have hrepairs := hI.repairs deps
  have hrefresh : ∀ {epoch response reading},
      Keeps I (Runner.refreshConfig deps reading epoch response) := hI.keeps_refreshConfig
  have hchecks : ∀ {reading}, Keeps I (Runner.startChecks deps reading) := by
    intro reading
    refine Keeps.bind (Keeps.attempt hrepairs.keeps_checkXray) fun r => ?_
    cases r with
    | error e => exact Keeps.pure
    | ok _ => exact Keeps.bind (Keeps.attempt hrepairs.keeps_detectXrayRestart) fun _ => Keeps.pure
  cases label with
  | command command reading => exact absurd rfl (hcommand command reading)
  | ack bootId through => exact absurd rfl (hack bootId through)
  | refresh epoch response reading =>
    exact World.ifAlive_keeps hw (World.operate_keeps hrefresh hrepairs.volatile fates hw)
  | start epoch response reading =>
    refine World.ifAlive_keeps hw (World.operate_keeps ?_ hrepairs.volatile fates hw)
    refine Keeps.bind (Keeps.attempt hrefresh) fun r => ?_
    cases r with
    | ok _ => exact hchecks
    | error e =>
      exact Keeps.bind Keeps.peek fun _ => Keeps.ite (fun _ => Keeps.fail) fun _ => hchecks
  | sample reading =>
    exact World.ifAlive_keeps hw
      (World.operate_keeps hrepairs.sample_keeps hrepairs.volatile fates hw)
  | restart bootId =>
    exact World.operate_keeps hI.keeps_boot hrepairs.volatile fates (hI.frame w _ rfl hw)
  | _ => exact hI.frame w _ rfl hw

end Outgoing

/-! ## One step -/

/-- The outbox since an earlier world: batches were added, and no command completed. -/
structure Grown (w₀ w : World) : Prop where
  batches : w₀.store.batches <+: w.store.batches
  completed : ∀ commandId, w.store.completedCommand commandId = w₀.store.completedCommand commandId

/-- The outbox since an earlier world: batches were added, and a command that completed
reports the watermarks of what is pending. -/
structure Answered (w₀ w : World) : Prop where
  batches : w₀.store.batches <+: w.store.batches
  kept : ∀ commandId outcome, w₀.store.completedCommand commandId = some outcome →
    w.store.completedCommand commandId = some outcome
  fresh : ∀ commandId applied watermarks,
    w.store.completedCommand commandId = some (.completed applied (some watermarks)) →
      w₀.store.completedCommand commandId = some (.completed applied (some watermarks)) ∨
        watermarks = w.store.pendingBatchWatermarks

theorem Grown.refl (w : World) : Grown w w := ⟨List.prefix_refl _, fun _ => rfl⟩

theorem Grown.answered {w₀ w : World} (h : Grown w₀ w) : Answered w₀ w where
  batches := h.batches
  kept := fun commandId _ hkept => (h.completed commandId).trans hkept
  fresh := fun commandId _ _ hfresh => .inl ((h.completed commandId).symm.trans hfresh)

theorem Grown.outgoing (w₀ : World) : Outgoing (Grown w₀) where
  frame := fun w w' houtbox h =>
    ⟨Store.batches_of_outbox houtbox ▸ h.batches, fun commandId =>
      (Store.completedCommand_of_outbox houtbox commandId).trans (h.completed commandId)⟩
  recordSample := by
    intro w counters sampledAt online h
    rcases w.store.recordSample_outbox counters sampledAt online with heq | ⟨samples, heq⟩
    · exact ⟨Store.batches_of_outbox heq ▸ h.batches, fun commandId =>
        (Store.completedCommand_of_outbox heq commandId).trans (h.completed commandId)⟩
    · refine ⟨?_, fun commandId => ?_⟩
      · have hbatches := congrArg Prod.fst heq
        dsimp only [Store.outbox] at hbatches ⊢
        rw [hbatches]
        exact h.batches.trans (List.prefix_append _ _)
      · have hcommands := congrArg (·.2.2.2) heq
        rw [← h.completed commandId]
        unfold Store.completedCommand
        rw [show (w.store.recordSample counters sampledAt online).2.commands = _ from hcommands]
  initializeBoot := by
    intro w bootId h
    unfold Store.initializeBoot
    split <;> exact ⟨h.batches, h.completed⟩

theorem Answered.frame (w₀ : World) : OutboxInv (Answered w₀) := by
  intro w w' houtbox h
  have hbatches := Store.batches_of_outbox houtbox
  have hcompleted := Store.completedCommand_of_outbox houtbox
  refine ⟨hbatches ▸ h.batches, fun commandId outcome hkept => ?_,
    fun commandId applied ws hfresh => ?_⟩
  · rw [hcompleted]
    exact h.kept commandId outcome hkept
  · rw [hcompleted] at hfresh
    have hpending : w'.store.pendingBatchWatermarks = w.store.pendingBatchWatermarks := by
      unfold Store.pendingBatchWatermarks
      rw [hbatches]
    rw [hpending]
    exact h.fresh commandId applied ws hfresh

/-- A command adds its result to the outbox, and nothing else changes a result. -/
theorem Answered.command {w₀ w : World} {command : Command} {outcome : Outcome}
    (hnew : w₀.store.completedCommand command.commandId = none) (h : Grown w₀ w)
    (hwatermarks : ∀ applied watermarks, outcome = .completed applied (some watermarks) →
      watermarks = w.store.pendingBatchWatermarks) :
    Answered w₀ { w with store := w.store.completeCommand command.commandId outcome } where
  batches := h.batches
  kept := by
    intro commandId found hkept
    have hother : commandId ≠ command.commandId := by
      rintro rfl
      rw [hnew] at hkept
      cases hkept
    rw [Store.completeCommand_completedCommand_ne hother, h.completed, hkept]
  fresh := by
    intro commandId applied watermarks hfresh
    by_cases hother : commandId = command.commandId
    · subst hother
      exact .inr (hwatermarks applied watermarks
        (Store.completeCommand_completedCommand_self hfresh).symm)
    · rw [Store.completeCommand_completedCommand_ne hother, h.completed] at hfresh
      exact .inl hfresh

/-- Every step but an acknowledgement adds to the outbox. -/
theorem World.step_answered (deps : Deps) (w : World) (step : Step)
    (hack : ∀ bootId through, step.1 ≠ .ack bootId through) :
    Answered w (World.step deps w step) := by
  obtain ⟨label, fates⟩ := step
  have hgrown := Grown.outgoing w
  by_cases hcommand : ∃ command reading, label = .command command reading
  · obtain ⟨command, reading, rfl⟩ := hcommand
    refine World.ifAlive_keeps (I := Answered w) (Grown.refl w).answered ?_
    cases hnew : w.store.completedCommand command.commandId with
    | some outcome =>
      refine World.operate_keeps (P := fun v => v = w) (I := Answered w) ?_
        (fun v r hv => Answered.frame w v _ rfl hv) fates rfl
      refine Triple.bind (S := fun _ v => v.store = w.store) (Triple.poke ?_) fun _ => ?_
      · rintro v rfl
        rfl
      refine Triple.bindPeek fun v hv => ?_
      dsimp only
      rw [show v.store.completedCommand _ = _ from by rw [hv], hnew]
      refine Triple.pure fun v' hv' => ?_
      subst hv'
      exact Answered.frame w w v' (by rw [hv]) (Grown.refl w).answered
    | none =>
      refine World.operate_keeps (P := Grown w) (I := Answered w) ?_
        (fun v r hv => Answered.frame w v _ rfl hv) fates (Grown.refl w)
      refine hgrown.execute_triple (fun _ hv => hv.answered) (Answered.frame w) ?_ ?_
      · intro v hv h
        exact ⟨h.batches, fun commandId =>
          (Store.beginCommand_completedCommand hv commandId).trans (h.completed commandId)⟩
      · exact fun v outcome hwatermarks h => Answered.command hnew h hwatermarks
  · refine (hgrown.step_keeps (Grown.refl w) (label, fates) ?_ hack).answered
    exact fun command reading heq => hcommand ⟨command, reading, heq⟩

/-! ## Sequences -/

/-- The sequences of every boot start at one. -/
structure Numbered (w : World) : Prop where
  batches : ∀ batch ∈ w.store.batches, 1 ≤ batch.sequence
  next : ∀ bootId sequence, w.store.nextSequence.lookup bootId = some sequence → 1 ≤ sequence

namespace Numbered

variable {w : World}

theorem sequenceOf (h : Numbered w) : 1 ≤ w.store.sequenceOf := by
  unfold Store.sequenceOf
  cases hnext : w.store.nextSequence.lookup w.store.bootId with
  | none => exact Nat.le_refl 1
  | some sequence => exact h.next _ sequence hnext

theorem of_outbox {w' : World} (h : Numbered w) (hbatches : w'.store.batches = w.store.batches)
    (hnext : w'.store.nextSequence = w.store.nextSequence) : Numbered w' where
  batches := hbatches ▸ h.batches
  next := hnext ▸ h.next

theorem outgoing : Outgoing Numbered where
  frame := fun w w' houtbox h =>
    h.of_outbox (congrArg Prod.fst houtbox) (congrArg (·.2.1) houtbox)
  recordSample := by
    intro w counters sampledAt online h
    rcases w.store.recordSample_outbox counters sampledAt online with heq | ⟨samples, heq⟩
    · exact h.of_outbox (congrArg Prod.fst heq) (congrArg (·.2.1) heq)
    · have hbatches := congrArg Prod.fst heq
      have hnext := congrArg (·.2.1) heq
      dsimp only [Store.outbox] at hbatches hnext
      refine ⟨fun batch hbatch => ?_, fun bootId sequence hlookup => ?_⟩
      · rw [hbatches] at hbatch
        rcases List.mem_append.1 hbatch with hold | hnew
        · exact h.batches batch hold
        · rw [List.mem_singleton.1 hnew]
          exact h.sequenceOf
      · rw [hnext, Table.lookup_insert_ite] at hlookup
        split at hlookup
        · cases hlookup
          exact Nat.le_add_left 1 _
        · exact h.next bootId sequence hlookup
  initializeBoot := by
    intro w bootId h
    unfold Store.initializeBoot
    split
    · exact ⟨h.batches, h.next⟩
    · refine ⟨h.batches, fun boot sequence hlookup => ?_⟩
      dsimp only at hlookup
      rw [Table.lookup_insert_ite] at hlookup
      split at hlookup
      · cases hlookup
        exact Nat.le_refl 1
      · exact h.next boot sequence hlookup

theorem step (h : Numbered w) (deps : Deps) (step : Step) : Numbered (World.step deps w step) := by
  obtain ⟨label, fates⟩ := step
  have hdead : ∀ (w : World) (r : Runner), Numbered w → Numbered { w with runner := r } :=
    fun w r hw => hw.of_outbox rfl rfl
  cases label with
  | command command reading =>
    refine World.ifAlive_keeps h (World.operate_keeps ?_ hdead fates h)
    refine outgoing.execute_triple (fun _ hw => hw) outgoing.frame ?_ ?_
    · exact fun w _ hw => hw.of_outbox rfl rfl
    · exact fun w _ _ hw => hw.of_outbox rfl rfl
  | ack bootId through =>
    refine World.ifAlive_keeps h (World.operate_keeps ?_ hdead fates h)
    refine Keeps.bind (Keeps.atomic ?_) fun removed => ?_
    · intro w a w' hw hrun
      cases hrun
      exact ⟨fun batch hbatch => hw.batches batch (List.mem_of_mem_filter hbatch), hw.next⟩
    · have hrepairs := outgoing.repairs deps
      split
      · exact Keeps.bind hrepairs.keeps_update fun _ => hrepairs.keeps_update
      · exact hrepairs.keeps_update
  | _ =>
    refine outgoing.step_keeps h (_, fates) ?_ ?_
    · exact fun _ _ heq => by cases heq
    · exact fun _ _ heq => by cases heq

theorem run (h : Numbered w) (deps : Deps) (steps : List Step) :
    Numbered (World.run deps w steps) :=
  List.foldlRecOn (motive := Numbered) _ _ h fun _ hw step _ => hw.step deps step

end Numbered

end ChordV.Agent
