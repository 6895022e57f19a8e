import ChordV.Agent.Records

/-!
# The settlement epoch

The runner counts the acknowledgements that removed a batch.  A response of the control plane is
applied only if the count is still the one that the request started with.  This file says that
nothing but an acknowledgement moves the count of a living process.

* `EpochInv I` says that `I` reads only the count and the life of the process.  The programs of
  the processor leave the whole runner alone, and those of the runner change its other fields.
* `World.step_epoch` is the rule of a step that is neither an acknowledgement nor a restart.
-/

namespace ChordV.Agent

open Lib

/-- The statement reads only the settlement epoch and whether the process lives. -/
def EpochInv (I : World → Prop) : Prop :=
  ∀ w w' : World, w'.runner.settlementEpoch = w.runner.settlementEpoch →
    w'.runner.alive = w.runner.alive → I w → I w'

namespace EpochInv

variable {I : World → Prop} {deps : Deps} {email : String} {live : List LiveUser}
  {users : List DesiredUser} (hI : EpochInv I)
include hI

/-! ## The processor -/

theorem of_runner {w w' : World} (hrunner : w'.runner = w.runner) (hw : I w) : I w' :=
  hI w w' (by rw [hrunner]) (by rw [hrunner]) hw

theorem keeps_transact {f : Store → Except Failure Store} : Keeps I (transact f) := by
  refine Keeps.atomic fun w a w' hw hrun => ?_
  obtain ⟨s', -, heq⟩ := Fallible.map_eq_ok.1 hrun
  cases heq
  exact hI w _ rfl rfl hw

theorem keeps_write {f : Store → Store} : Keeps I (write f) := hI.keeps_transact

theorem keeps_removeUser {expect : Expectation} : Keeps I (Adapter.removeUser email expect) := by
  have hremoved : ∀ w₀ w, I w₀ → Adapter.Removed email w₀ w → I w := by
    rintro w₀ w hw (rfl | rfl)
    · exact hw
    · exact hI w₀ _ rfl rfl hw
  refine Triple.atWorld fun w₀ hw => ?_
  exact (Adapter.removeUser_spec w₀).conseq (fun _ h => h)
    (fun _ w h => hremoved w₀ w hw h.1) fun w h => hremoved w₀ w hw h

theorem keeps_installs {user : DesiredUser} {expect : Expectation} :
    Keeps I (Adapter.ensureUser deps user expect) := by
  refine Triple.atWorld fun w₀ hw => ?_
  exact (Adapter.ensureUser_spec w₀).conseq (fun _ h => h)
    (fun _ w h => hI.of_runner h.1.runner hw) fun w h => hI.of_runner h.runner hw

theorem keeps_forgetProvisioned {emails : List String} :
    Keeps I (Processor.forgetProvisioned emails) :=
  Keeps.ite (fun _ => Keeps.pure) fun _ => hI.keeps_write

theorem keeps_clearPendingRemoval {emails : List String} :
    Keeps I (Processor.clearPendingRemoval emails) :=
  Keeps.ite (fun _ => Keeps.pure) fun _ => hI.keeps_write

theorem keeps_resolveIntents : Keeps I (Processor.resolveIntents live) := by
  have hclaim : ∀ p, Keeps I (Processor.settleClaim live p) := by
    intro p
    unfold Processor.settleClaim
    split
    · exact Keeps.pure
    · repeat' refine Keeps.ite (fun _ => ?_) fun _ => ?_
      all_goals first | exact Keeps.pure | exact hI.keeps_write
  have hintent : ∀ p, Keeps I (Processor.resolveIntent live p) := by
    intro p
    unfold Processor.resolveIntent
    split
    · exact Keeps.pure
    · exact Keeps.ite (fun _ => Keeps.pure) fun _ => hI.keeps_write
  refine Keeps.bind (Keeps.bind Keeps.peek fun _ => Keeps.forM fun p _ => hclaim p) fun _ => ?_
  refine Keeps.bind Keeps.peek fun _ => Keeps.bind (Keeps.forM fun p _ => hintent p) fun _ => ?_
  exact hI.keeps_forgetProvisioned

theorem keeps_preflightCollision {user : DesiredUser} :
    Keeps I (Processor.preflightCollision deps user) := by
  refine Keeps.bind RecordInv.keeps_listUsers fun live => ?_
  refine Keeps.bind hI.keeps_resolveIntents fun _ => Keeps.bind RecordInv.keeps_owns fun owned => ?_
  split
  · exact Keeps.pure
  · split
    · exact Keeps.bind RecordInv.keeps_collision fun _ => Keeps.pure
    · exact Keeps.pure

theorem keeps_releaseStored {stored : Option DesiredUser} {user : DesiredUser} :
    Keeps I (Processor.releaseStored stored user) := by
  unfold Processor.releaseStored
  split
  · exact Keeps.pure
  · refine Keeps.ite (fun _ => Keeps.pure) fun _ => Keeps.bind RecordInv.keeps_owns fun _ => ?_
    refine Keeps.ite (fun _ => ?_) fun _ => Keeps.pure
    refine Keeps.bind RecordInv.keeps_claimedExpectation fun _ => ?_
    refine Keeps.bind hI.keeps_removeUser fun _ => ?_
    exact Keeps.bind hI.keeps_forgetProvisioned fun _ => hI.keeps_clearPendingRemoval

theorem keeps_uninstallExhausted {emails : List String} :
    Keeps I (Processor.uninstallExhausted emails) := by
  refine Keeps.ite (fun _ => Keeps.pure) fun _ => Keeps.bind RecordInv.keeps_listUsers fun _ => ?_
  refine Keeps.bind Keeps.peek fun ours => Keeps.forM fun email _ => ?_
  exact Keeps.ite (fun _ => hI.keeps_removeUser) fun _ => Keeps.pure

theorem keeps_clearPending {stillPending : List String} :
    Keeps I (Processor.clearPending stillPending email) :=
  Keeps.ite (fun _ => Keeps.bind hI.keeps_clearPendingRemoval fun _ => Keeps.pure)
    fun _ => Keeps.pure

theorem keeps_reconcile : Keeps I (Processor.reconcile deps users) := by
  have hrelease : ∀ live ours recorded released user,
      Keeps I (Processor.releaseRenamed live ours recorded released user) := by
    intro live ours recorded released user
    unfold Processor.releaseRenamed
    split
    · exact Keeps.pure
    · refine Keeps.ite (fun _ => Keeps.pure) fun _ => Keeps.bind hI.keeps_removeUser fun _ => ?_
      refine Keeps.bind hI.keeps_forgetProvisioned fun _ => ?_
      exact Keeps.bind hI.keeps_clearPendingRemoval fun _ => Keeps.pure
  have hsettle : ∀ live liveNow ours stillPending user,
      Keeps I (Processor.settleUser deps live liveNow ours stillPending user) := by
    intro live liveNow ours stillPending user
    refine Keeps.ite (fun _ => ?_) fun _ => Keeps.ite (fun _ => Keeps.pure) fun _ => ?_
    · refine Keeps.bind hI.keeps_write fun _ => Keeps.bind hI.keeps_installs fun _ => ?_
      exact Keeps.bind hI.keeps_write fun _ => hI.keeps_clearPending
    · exact Keeps.bind hI.keeps_removeUser fun _ => hI.keeps_clearPending
  have hretire : ∀ ours retired account,
      Keeps I (Processor.retireAccount deps users ours retired account) := by
    intro ours retired account
    refine Keeps.ite (fun _ => Keeps.pure) fun _ => Keeps.ite (fun _ => ?_) fun _ => Keeps.pure
    exact Keeps.bind hI.keeps_removeUser fun _ => Keeps.pure
  refine Keeps.bind Keeps.peek fun ready => Keeps.ite (fun _ => Keeps.ensure) fun _ => ?_
  refine Keeps.bind Keeps.liftExcept fun _ => ?_
  refine Keeps.bind RecordInv.keeps_listUsers fun live => Keeps.bind Keeps.peek fun recorded => ?_
  refine Keeps.bind hI.keeps_resolveIntents fun _ => Keeps.bind Keeps.peek fun ours => ?_
  refine Keeps.bind Keeps.peek fun pending => ?_
  refine Keeps.bind (Keeps.forM fun user _ => ?_) fun _ => ?_
  · exact Keeps.ite (fun _ => Keeps.pure) fun _ => RecordInv.keeps_collision
  refine Keeps.bind (Keeps.foldlM fun _ user _ => hrelease _ _ _ _ _) fun released => ?_
  refine Keeps.bind hI.keeps_transact fun _ => ?_
  refine Keeps.bind (Keeps.foldlM fun _ user _ => hsettle _ _ _ _ _) fun stillPending => ?_
  refine Keeps.bind (Keeps.foldlM fun _ account _ => hretire _ _ _) fun removed => ?_
  exact Keeps.bind hI.keeps_clearPendingRemoval fun _ => hI.keeps_forgetProvisioned

theorem keeps_reconcileOrRemember {mode : ControlMode} :
    Keeps I (Processor.reconcileOrRemember deps mode users) := by
  refine Keeps.ite (fun _ => hI.keeps_reconcile) fun _ => Keeps.bind Keeps.peek fun _ => ?_
  exact Keeps.ite (fun _ => Keeps.pure) fun _ => hI.keeps_write

theorem keeps_storeSnapshot {snapshot : ConfigSnapshot} :
    Keeps I (Processor.storeSnapshot snapshot) := by
  refine Keeps.atomic fun w applied w' hw hrun => ?_
  obtain ⟨⟨applied', s'⟩, -, heq⟩ := Fallible.bind_eq_ok.1 hrun
  cases heq
  exact hI w _ rfl rfl hw

theorem keeps_applySnapshot {snapshot : ConfigSnapshot} :
    Keeps I (Processor.applySnapshot deps snapshot) := by
  refine Keeps.bind Keeps.peek fun _ => Keeps.bind Keeps.liftExcept fun prepared => ?_
  refine Keeps.bind Keeps.peek fun current => Keeps.bind Keeps.liftExcept fun older => ?_
  refine Keeps.ite (fun _ => Keeps.pure) fun _ => ?_
  refine Keeps.bind hI.keeps_reconcileOrRemember fun _ => ?_
  exact Keeps.bind hI.keeps_storeSnapshot fun _ => Keeps.pure

theorem keeps_ensureUser {command : Command} : Keeps I (Processor.ensureUser deps command) := by
  refine Keeps.bind Keeps.peek fun _ => Keeps.bind Keeps.liftExcept fun plan => ?_
  cases plan with
  | none => exact Keeps.pure
  | some found =>
    refine Keeps.bind hI.keeps_preflightCollision fun expect => ?_
    refine Keeps.bind hI.keeps_releaseStored fun _ => Keeps.bind hI.keeps_transact fun _ => ?_
    refine Keeps.bind hI.keeps_write fun _ => Keeps.bind hI.keeps_write fun _ => ?_
    refine Keeps.bind hI.keeps_installs fun _ => Keeps.bind hI.keeps_write fun _ => ?_
    exact hI.keeps_clearPendingRemoval

theorem keeps_terminalUser {payload : UserPayload} {target : Nat} {remove : Bool} :
    Keeps I (Processor.terminalUser deps payload target remove) := by
  have hretire : ∀ b e, Keeps I (Processor.retireBinding b target e remove) :=
    fun b e => Keeps.ite (fun _ => Keeps.pure) fun _ => hI.keeps_transact
  refine Keeps.bind Keeps.peek fun _ => Keeps.bind Keeps.liftExcept fun plan => ?_
  cases plan with
  | stale => exact Keeps.pure
  | settled b => exact hI.keeps_transact
  | uninstall b e =>
    have huninstall : Keeps I (Processor.uninstallOwned deps e) := by
      refine Keeps.bind RecordInv.keeps_listUsers fun live => ?_
      refine Keeps.bind hI.keeps_resolveIntents fun _ => ?_
      refine Keeps.bind RecordInv.keeps_owns fun owned => ?_
      exact Keeps.ite (fun _ => Keeps.pure) fun _ => hI.keeps_removeUser
    refine Keeps.bind huninstall fun _ => ?_
    dsimp only
    split
    · refine Keeps.bind hI.keeps_forgetProvisioned fun _ => ?_
      exact Keeps.bind hI.keeps_clearPendingRemoval fun _ => hretire b e
    · exact hretire b e

theorem keeps_apply {command : Command} {target : Nat} {writable : Bool} :
    Keeps I (Processor.apply deps command target writable) := by
  refine Keeps.bind Keeps.peek fun ready => Keeps.bind Keeps.ensure fun _ => ?_
  refine Keeps.bind Keeps.ensure fun _ => ?_
  split
  · exact hI.keeps_ensureUser
  · exact hI.keeps_ensureUser
  · exact hI.keeps_terminalUser
  · exact hI.keeps_terminalUser
  · refine Keeps.bind Keeps.peek fun _ => Keeps.bind Keeps.liftExcept fun plan => ?_
    refine Keeps.bind Keeps.peek fun nodeId => ?_
    refine Keeps.bind hI.keeps_reconcileOrRemember fun _ => ?_
    exact Keeps.bind hI.keeps_storeSnapshot fun _ => Keeps.pure
  · refine Keeps.bind Keeps.liftExcept fun bindingId => ?_
    split
    · exact Keeps.fail
    · exact Keeps.bind Keeps.liftExcept fun quota => hI.keeps_write
  · refine Keeps.ite (fun _ => Keeps.atomic fun w a w' hw hrun => ?_) fun _ => Keeps.fail
    cases hrun
    exact hw
  · exact Keeps.fail

theorem keeps_execute {command : Command} {writable : Bool} :
    Keeps I (Processor.execute deps command writable) := by
  have houtcome : ∀ target applied, Keeps I (Processor.outcomeOf command target applied) := by
    intro target applied
    cases applied with
    | error e => exact Keeps.pure
    | ok _ =>
      exact Keeps.bind hI.keeps_write fun _ => Keeps.bind Keeps.peek fun _ => Keeps.pure
  refine Keeps.bind Keeps.liftExcept fun target => Keeps.bind Keeps.peek fun previous => ?_
  cases previous with
  | some outcome => exact Keeps.pure
  | none =>
    refine Keeps.bind hI.keeps_write fun _ => ?_
    refine Keeps.bind (Keeps.attempt hI.keeps_apply) fun applied => ?_
    refine Keeps.bind (houtcome target applied) fun outcome => ?_
    exact Keeps.bind hI.keeps_write fun _ => Keeps.pure

/-! ## The runner -/

theorem keeps_update {f : Runner → Runner} (hepoch : ∀ r, (f r).settlementEpoch = r.settlementEpoch)
    (halive : ∀ r, (f r).alive = r.alive) : Keeps I (Runner.update f) :=
  Keeps.poke fun w hw => hI w _ (hepoch _) (halive _) hw

theorem keeps_syncCurrent : Keeps I Runner.syncCurrent := Keeps.poke fun w hw => hI w _ rfl rfl hw

theorem keeps_noting {α : Type} {p : AgentM α} {f : Runner → Runner} (hp : Keeps I p)
    (hepoch : ∀ r, (f r).settlementEpoch = r.settlementEpoch)
    (halive : ∀ r, (f r).alive = r.alive) :
    Keeps I (Runner.noting p f) := by
  refine Keeps.bind (Keeps.attempt hp) fun r => ?_
  split
  · exact Keeps.pure
  · exact Keeps.bind (hI.keeps_update hepoch halive) fun _ => Keeps.fail

theorem keeps_flushPendingReconcile : Keeps I (Runner.flushPendingReconcile deps) := by
  refine Keeps.bind Keeps.peek fun due => Keeps.ite (fun _ => ?_) fun _ => Keeps.pure
  refine Keeps.bind Keeps.peek fun users => Keeps.bind hI.keeps_reconcile fun _ => ?_
  exact hI.keeps_update (fun _ => rfl) fun _ => rfl

theorem keeps_checkXray : Keeps I (Runner.checkXray deps) := by
  refine Keeps.bind (hI.keeps_noting Repairs.keeps_health (fun _ => rfl) fun _ => rfl) fun _ => ?_
  refine Keeps.bind (hI.keeps_update (fun _ => rfl) fun _ => rfl) fun _ => ?_
  exact hI.keeps_noting hI.keeps_flushPendingReconcile (fun _ => rfl) fun _ => rfl

theorem keeps_detectXrayRestart {reading : Reading} :
    Keeps I (Runner.detectXrayRestart deps reading) := by
  refine Keeps.bind (Keeps.atomic ?_) fun uptime => Keeps.bind Keeps.ensure fun _ => ?_
  · intro w a w' hw hrun
    cases hrun
    exact hw
  refine Keeps.bind (hI.keeps_update (fun _ => rfl) fun _ => rfl) fun _ => ?_
  refine Keeps.bind ?_ fun _ => hI.keeps_flushPendingReconcile
  refine Keeps.bind Keeps.peek fun _ => Keeps.bind Keeps.peek fun _ => ?_
  refine Keeps.ite (fun _ => ?_) fun _ => Keeps.pure
  refine Keeps.bind RecordInv.keeps_listUsers fun live => ?_
  exact Keeps.ite (fun _ => hI.keeps_update (fun _ => rfl) fun _ => rfl) fun _ => Keeps.pure

theorem keeps_sample {reading : Reading} : Keeps I (Runner.sample deps reading) := by
  have hrecover : Keeps I (Runner.recover deps reading) := by
    refine Keeps.bind (Keeps.attempt hI.keeps_checkXray) fun r => ?_
    split
    · exact Keeps.pure
    · refine Keeps.bind (Keeps.attempt hI.keeps_detectXrayRestart) fun r => ?_
      split
      · exact hI.keeps_update (fun _ => rfl) fun _ => rfl
      · exact Keeps.pure
  refine Keeps.bind Keeps.peek fun ready => Keeps.ite (fun _ => hI.keeps_checkXray) fun _ => ?_
  refine Keeps.bind (hI.keeps_noting Repairs.keeps_readAbsoluteCounters (fun _ => rfl)
    fun _ => rfl) fun counters => ?_
  refine Keeps.bind (Keeps.ite (fun _ => Keeps.pure) fun _ => ?_) fun counters => ?_
  · exact Keeps.bind RecordInv.keeps_listUsers fun _ => Keeps.bind Keeps.peek fun _ => Keeps.pure
  refine Keeps.bind (hI.keeps_update (fun _ => rfl) fun _ => rfl) fun _ => ?_
  refine Keeps.bind Keeps.peek fun online => Keeps.bind (Keeps.atomic ?_) fun disable => ?_
  · intro w a w' hw hrun
    cases hrun
    exact hI w _ rfl rfl hw
  refine Keeps.bind Keeps.peek fun mode => ?_
  split
  · exact Keeps.bind (hI.keeps_noting hI.keeps_uninstallExhausted (fun _ => rfl) fun _ => rfl)
      fun _ => hrecover
  · exact hrecover

theorem keeps_refreshConfig {reading : Reading} {epoch : Nat} {response : Option ConfigSnapshot} :
    Keeps I (Runner.refreshConfig deps reading epoch response) := by
  cases response with
  | none => exact Keeps.bind (hI.keeps_update (fun _ => rfl) fun _ => rfl) fun _ => Keeps.fail
  | some snapshot =>
    refine Keeps.bind (hI.keeps_update (fun _ => rfl) fun _ => rfl) fun _ => ?_
    refine Keeps.bind (hI.keeps_noting ?_ (fun _ => rfl) fun _ => rfl) fun _ =>
      hI.keeps_update (fun _ => rfl) fun _ => rfl
    refine Keeps.bind Keeps.peek fun now => Keeps.bind Keeps.ensure fun _ => ?_
    refine Keeps.bind Keeps.peek fun _ => Keeps.bind Keeps.peek fun _ => ?_
    refine Keeps.bind Keeps.liftExcept fun prepared => Keeps.bind Keeps.liftExcept fun older => ?_
    refine Keeps.ite (fun _ => hI.keeps_syncCurrent) fun _ => ?_
    have hrest : Keeps I (do
        let prepared ← Runner.refreshedUsers snapshot prepared
        Processor.applySnapshot deps prepared
        Runner.syncCurrent) := by
      refine Keeps.bind ?_ fun _ => Keeps.bind hI.keeps_applySnapshot fun _ => hI.keeps_syncCurrent
      refine Keeps.bind Keeps.peek fun preserve => Keeps.ite (fun _ => ?_) fun _ => ?_
      · exact Keeps.bind Keeps.peek fun _ => Keeps.pure
      · exact Keeps.bind hI.keeps_transact fun _ => Keeps.bind Keeps.peek fun _ => Keeps.liftExcept
    split
    · exact Keeps.bind hI.keeps_sample fun _ => hrest
    · exact hrest

theorem keeps_start {reading : Reading} {epoch : Nat} {response : Option ConfigSnapshot} :
    Keeps I (Runner.start deps reading epoch response) := by
  have hchecks : Keeps I (Runner.startChecks deps reading) := by
    refine Keeps.bind (Keeps.attempt hI.keeps_checkXray) fun r => ?_
    cases r with
    | error e => exact Keeps.pure
    | ok _ => exact Keeps.bind (Keeps.attempt hI.keeps_detectXrayRestart) fun _ => Keeps.pure
  refine Keeps.bind (Keeps.attempt hI.keeps_refreshConfig) fun r => ?_
  cases r with
  | ok _ => exact hchecks
  | error e => exact Keeps.bind Keeps.peek fun _ => Keeps.ite (fun _ => Keeps.fail) fun _ => hchecks

theorem keeps_command {reading : Reading} {command : Command} :
    Keeps I (Runner.execute deps reading command) := by
  have hafter : ∀ writable metered, Keeps I (Runner.afterSample deps command writable metered) := by
    intro writable metered
    cases metered with
    | error e => exact Keeps.pure
    | ok _ =>
      exact Keeps.bind hI.keeps_execute fun _ => Keeps.bind hI.keeps_syncCurrent fun _ => Keeps.pure
  refine Keeps.bind (hI.keeps_update (fun _ => rfl) fun _ => rfl) fun _ => ?_
  refine Keeps.bind Keeps.peek fun previous => ?_
  cases previous with
  | some outcome => exact Keeps.pure
  | none =>
    refine Keeps.bind Keeps.peek fun mode => Keeps.bind Keeps.peek fun reconfigures => ?_
    cases reconfigures with
    | error e => exact Keeps.pure
    | ok reconfigures =>
      dsimp only
      split
      · exact Keeps.bind (Keeps.attempt hI.keeps_sample) (hafter _)
      · exact Keeps.bind Keeps.pure (hafter _)

end EpochInv

/-! ## Steps -/

namespace World

/-- If the process lives, it has lived all along and counted nothing. -/
def Uncounted (w₀ w : World) : Prop :=
  w.runner.alive = true →
    w₀.runner.alive = true ∧ w.runner.settlementEpoch = w₀.runner.settlementEpoch

theorem uncounted_epochInv (w₀ : World) : EpochInv (Uncounted w₀) := by
  intro w w' hepoch halive hw halive'
  rw [hepoch]
  exact hw (halive.symm.trans halive')

/-- Only an acknowledgement counts, and only a restart starts again. -/
theorem step_epoch (deps : Deps) (w : World) (step : Step)
    (hack : ∀ bootId through, step.1 ≠ .ack bootId through)
    (hrestart : ∀ bootId, step.1 ≠ .restart bootId) : Uncounted w (World.step deps w step) := by
  have hI := uncounted_epochInv w
  have hsame : Uncounted w w := fun halive => ⟨halive, rfl⟩
  have hoperate : ∀ {α : Type} {p : AgentM α}, Keeps (Uncounted w) p → ∀ fates,
      Uncounted w (w.ifAlive (operate p fates)) := by
    intro α p hp fates
    unfold ifAlive
    split
    · have hrun := hp ⟨w, fates⟩ hsame
      unfold operate
      cases hresult : p ⟨w, fates⟩ with
      | ok a s =>
        rw [hresult] at hrun
        exact hrun
      | error e s =>
        rw [hresult] at hrun
        cases e with
        | err e => exact hrun
        | died => exact fun halive => Bool.noConfusion halive
    · exact hsame
  obtain ⟨label, fates⟩ := step
  cases label with
  | command command reading => exact hoperate hI.keeps_command fates
  | refresh epoch response reading => exact hoperate hI.keeps_refreshConfig fates
  | start epoch response reading => exact hoperate hI.keeps_start fates
  | sample reading => exact hoperate hI.keeps_sample fates
  | ack bootId through => exact absurd rfl (hack bootId through)
  | restart bootId => exact absurd rfl (hrestart bootId)
  | _ => exact hsame

/-- An acknowledgement that removes a batch counts, unless the answer of its transaction is
lost. -/
theorem step_ack (deps : Deps) (w : World) {bootId : String} {through : Nat} {fates : List Fate}
    (hfates : fates.head? ≠ some .lose)
    (halive : (World.step deps w (.ack bootId through, fates)).runner.alive = true) :
    w.runner.alive = true ∧
      (((World.step deps w (.ack bootId through, fates)).store.batches = w.store.batches ∧
        (World.step deps w (.ack bootId through, fates)).runner.settlementEpoch =
          w.runner.settlementEpoch) ∨
      (World.step deps w (.ack bootId through, fates)).runner.settlementEpoch =
        w.runner.settlementEpoch + 1) := by
  have hrun : ∀ rest, (rest = [] ∨ ∃ rest', rest = .run :: rest') →
      let w' := operate (Runner.ack bootId through) rest w
      (w'.store.batches = w.store.batches ∧
        w'.runner.settlementEpoch = w.runner.settlementEpoch) ∨
        w'.runner.settlementEpoch = w.runner.settlementEpoch + 1 := by
    intro rest hrest w'
    by_cases hremoved : 0 < (w.store.ackThrough bootId through).1
    · right
      rcases hrest with rfl | ⟨rest', rfl⟩ <;>
        simp [w', operate, Runner.ack, atomic, perform, bind, EStateM.bind, hremoved,
          Runner.update, poke]
    · left
      have hbatches : (w.store.ackThrough bootId through).2.batches = w.store.batches := by
        unfold Store.ackThrough at hremoved ⊢
        dsimp only at hremoved ⊢
        refine List.filter_eq_self.2 (List.length_filter_eq_length_iff.1 ?_)
        have hle := List.length_filter_le (fun batch : UsageBatch =>
          !(batch.bootId = bootId && batch.sequence ≤ through)) w.store.batches
        omega
      rcases hrest with rfl | ⟨rest', rfl⟩ <;>
        simp [w', operate, Runner.ack, atomic, perform, bind, EStateM.bind, hremoved,
          Runner.update, poke, hbatches]
  simp only [World.step, ifAlive] at halive ⊢
  split at halive
  · next hlives =>
    rw [if_pos hlives]
    refine ⟨hlives, ?_⟩
    cases fates with
    | nil => exact hrun [] (.inl rfl)
    | cons fate rest =>
      cases fate with
      | run => exact hrun _ (.inr ⟨rest, rfl⟩)
      | refuse => exact .inl ⟨rfl, rfl⟩
      | lose => exact absurd rfl hfates
      | die => exact Bool.noConfusion halive
  · next hdead => exact absurd halive hdead

end World

end ChordV.Agent
