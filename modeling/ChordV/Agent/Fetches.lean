import ChordV.Agent.Epochs
import ChordV.Agent.RevokedRuns
import ChordV.Agent.Restoration

/-!
# Settlement before restoration

A user that the node cut off comes back with a fetched snapshot only if every batch had been
acknowledged when the request for the snapshot was made.  The request runs outside the state
lock, so samples, commands and acknowledgements come in between.

* `World.arrival_withheld` is the step lemma: a response that brings a cut-off row back finds no
  batch pending and the settlement epoch of its request.  It covers the rows that the sample of
  the response cuts off.
* `Exchange` is a node with its requests in flight.  It keeps a history of the batches that were
  recorded and of those that were acknowledged.
* `Sound` is the invariant of a run, and `settled_before_restoration` the result.  The rows that
  `Careful` excludes are parked: `withLocalDisables` does not see them.
-/

namespace ChordV.Agent

open Lib Fallible

variable {deps : Deps} {b : String} {row : UserRow} {installed : List XrayEvent}

/-! ## One response -/

theorem UserRow.disabled_of_cutOff (h : row.cutOff = true) : row.enabled = false := by
  rw [UserRow.cutOff, Bool.and_eq_true, Bool.not_eq_true'] at h
  exact h.1

/-- The row of the binding is cut off, and its account is not installed again. -/
structure CutDown (b : String) (row : UserRow) (installed : List XrayEvent) (w : World) : Prop where
  revoked : Revoked b 0 installed w
  stored : w.store.rows.lookup b = some row

theorem CutDown.sample (hdisabled : row.enabled = false) (reading : Reading) :
    Keeps (CutDown b row installed) (Runner.sample deps reading) := by
  refine Triple.atWorld fun w₀ hw₀ => ?_
  have hrevoked : Sampled (Revoked b 0 installed) := Revoked.sampled
  have hrow : Keeps (RowUntouched w₀ b row) (Runner.sample deps reading) :=
    RowUntouched.sample hdisabled reading
  refine (Keeps.and (hrevoked.repairs deps).sample_keeps hrow).conseq (fun w hw => ?_)
    (fun _ w hw => ⟨hw.1, hw.2.row⟩) fun w hw => ⟨hw.1, hw.2.row⟩
  subst hw
  exact ⟨hw₀.revoked, hw₀.stored, rfl, rfl, rfl, rfl, rfl⟩

/-- The users that a merge brings do not enable a binding that is down, if the snapshot does
not. -/
theorem Harmless.merge {w : World} {floor : Nat} (hw : Revoked b floor installed w)
    {users merged : List DesiredUser} {revision : Decimal} (husers : Harmless b users)
    (h : Processor.mergeNewerBindings users revision w.store = .ok merged) : Harmless b merged := by
  intro user hu hbinding
  rcases Processor.mem_mergeNewerBindings h hu with ⟨hstored, -⟩ | ⟨hnamed, -⟩
  · exact hw.enabled_of_mem hstored hbinding
  · exact husers user hnamed hbinding

theorem Processor.applySnapshot_harmless {floor : Nat} {snapshot : ConfigSnapshot}
    (husers : Harmless b snapshot.users) :
    Keeps (Revoked b floor installed) (Processor.applySnapshot deps snapshot) := by
  refine Triple.bindPeek fun w₀ hw₀ => ?_
  refine Triple.pre (P := Revoked b floor installed) ?_ fun w hw => hw ▸ hw₀
  refine Triple.bindLift (fun _ hw => hw) fun prepared hprepared => ?_
  have hharmless := husers.merge hw₀ (prepareSnapshot_users hprepared)
  refine Keeps.bind Keeps.peek fun current => Keeps.bind Keeps.liftExcept fun older => ?_
  refine Keeps.ite (fun _ => Keeps.pure) fun _ => ?_
  refine Keeps.bind (reconcileOrRemember_revoked hharmless) fun _ => ?_
  exact Keeps.bind (storeSnapshot_revoked hharmless) fun _ => Keeps.pure

namespace Runner

/-- A user of the list that enables the binding does not find its row parked. -/
def Listed (b : String) (row : UserRow) (users : List DesiredUser) : Prop :=
  ∀ user ∈ users, user.bindingId = b → user.enabled = true → row.parked = false

/-- A row that is not parked is one of the local disables. -/
theorem withLocalDisables_keeps {s : Store} (hrow : s.rows.lookup b = some row)
    (hdisabled : row.enabled = false) {users : List DesiredUser} (hlisted : Listed b row users) :
    Harmless b (withLocalDisables users s.listDesiredUsers) := by
  intro user hu hbinding
  obtain ⟨original, horiginal, rfl⟩ := List.mem_map.1 hu
  cases hfind : s.listDesiredUsers.find? fun held =>
      !held.enabled && held.bindingId = original.bindingId with
  | some found =>
    have hfound := List.find?_some hfind
    simp only [Bool.and_eq_true, Bool.not_eq_true'] at hfound
    exact hfound.1
  | none =>
    rw [hfind] at hbinding
    by_contra henabled
    -- The row of the binding is in the list, so the search finds a disabled user.
    have hreal := hlisted original horiginal hbinding (by simpa [hfind] using henabled)
    have hheld : ∃ held, Store.desired b row = some held := by
      unfold UserRow.parked at hreal
      unfold Store.desired
      cases haddress : row.address with
      | parked original =>
        rw [haddress] at hreal
        cases hreal
      | real email => exact ⟨_, rfl⟩
    obtain ⟨held, hheld⟩ := hheld
    obtain ⟨hbindingId, -, -, -, hstored, -⟩ := Store.desired_eq_some hheld
    have hnone := List.find?_eq_none.1 hfind held
      (Store.mem_listDesiredUsers.2 ⟨b, row, hrow, hheld⟩)
    have hsame : original.bindingId = b := hbinding
    simp [hbindingId, hsame, hstored, hdisabled] at hnone

/-- The users that were prepared for a response are those of the response and stored ones, and a
stored one is not parked. -/
theorem Listed.prepared {s : Store} {snapshot prepared : ConfigSnapshot}
    (hlisted : Listed b row snapshot.users)
    (hprepared : Processor.prepareSnapshot snapshot s = .ok prepared)
    (haddress : ∀ row', s.rows.lookup b = some row' → row'.address = row.address) :
    Listed b row prepared.users := by
  intro user hu hbinding henabled
  rcases Processor.mem_mergeNewerBindings (Processor.prepareSnapshot_users hprepared) hu with
    ⟨hstored, -⟩ | ⟨hnamed, -⟩
  · obtain ⟨row', hlookup, hdesired⟩ := Store.row_of_mem_listDesiredUsers hstored
    rw [hbinding] at hlookup
    unfold UserRow.parked
    rw [← haddress row' hlookup, (Store.desired_eq_some hdesired).2.1]
  · exact hlisted user hnamed hbinding henabled

/-- The binding stays down, or the condition holds and no batch is pending. -/
def Withheld (b : String) (installed : List XrayEvent) (φ : Prop) (w : World) : Prop :=
  Revoked b 0 installed w ∨ (φ ∧ w.store.batches = [])

theorem emptyOutbox : OutboxInv fun w => w.store.batches = [] := by
  intro w w' houtbox hw
  exact (Store.batches_of_outbox houtbox).trans hw

/-- The second half of a refresh. -/
theorem settleRefresh_withheld {φ : Prop} (hφ : φ) (hcut : row.cutOff = true)
    {snapshot prepared : ConfigSnapshot} (hlisted : Listed b row prepared.users) :
    Triple (CutDown b row installed) (settleRefresh deps snapshot prepared)
      (fun _ => Withheld b installed φ) (Withheld b installed φ) := by
  have hdisabled := UserRow.disabled_of_cutOff hcut
  refine Triple.bind (S := fun result w => (Harmless b result.users ∧ Revoked b 0 installed w) ∨
    w.store.batches = []) ?_ fun result => ?_
  · refine Triple.bindPeek fun w₁ hw₁ => Triple.ite (fun _ => ?_) fun hpreserve => ?_
    · refine Triple.bindPeek fun w₂ hw₂ => Triple.pure fun w hw => ?_
      subst hw₂ hw
      exact .inl ⟨withLocalDisables_keeps hw₁.stored hdisabled hlisted, hw₁.revoked⟩
    · -- The row is one that the node cut off, so nothing is pending.
      have hbatches : w₁.store.batches = [] := by
        have hsome := hasUsageDisabledUsers_of_cutOff hw₁.stored hcut
        simpa [preserveLocalDisables, hsome] using hpreserve
      have hempty : Keeps (fun w => w.store.batches = []) (do
          transact (restoreOfflineUsers snapshot.users)
          let again ← readStore (Processor.prepareSnapshot snapshot)
          liftExcept again) := by
        refine Keeps.bind (emptyOutbox.keeps_transact fun s s' hok => ?_) fun _ =>
          Keeps.bind Keeps.peek fun _ => Keeps.liftExcept
        obtain ⟨recovered, -, hok⟩ := bind_eq_ok.1 hok
        exact Store.restoreBackendConfirmedUsers_apart hok
      exact hempty.conseq (fun w hw => hw ▸ hbatches) (fun _ _ hw => .inr hw)
        fun _ hw => .inr ⟨hφ, hw⟩
  · have hdown : Harmless b result.users → Keeps (Revoked b 0 installed) (do
        Processor.applySnapshot deps result
        syncCurrent) := fun husers =>
      Keeps.bind (Processor.applySnapshot_harmless husers) fun _ =>
        Revoked.recordInv.keeps_syncCurrent
    have hempty : Keeps (fun w => w.store.batches = []) (do
        Processor.applySnapshot deps result
        syncCurrent) :=
      Keeps.bind emptyOutbox.keeps_applySnapshot fun _ => Keeps.poke fun _ hw => hw
    rintro s (⟨husers, hrevoked⟩ | hbatches)
    · exact (hdown husers).conseq (fun _ hw => hw) (fun _ _ hw => .inl hw) (fun _ hw => .inl hw) s
        hrevoked
    · exact hempty.conseq (fun _ hw => hw) (fun _ _ hw => .inr ⟨hφ, hw⟩)
        (fun _ hw => .inr ⟨hφ, hw⟩) s hbatches

theorem applyRefreshed_withheld {φ : Prop} (hφ : φ) (hcut : row.cutOff = true) {reading : Reading}
    {snapshot : ConfigSnapshot} (hlisted : Listed b row snapshot.users) :
    Triple (CutDown b row installed) (applyRefreshed deps reading snapshot)
      (fun _ => Withheld b installed φ) (Withheld b installed φ) := by
  have hdown : ∀ w, CutDown b row installed w → Withheld b installed φ w :=
    fun _ hw => .inl hw.revoked
  rw [applyRefreshed_eq]
  refine Triple.afterPeek fun current => Triple.bindPeek fun w₀ hw₀ => ?_
  refine Triple.pre (P := CutDown b row installed) ?_ fun w hw => hw ▸ hw₀
  refine Triple.bindLift hdown fun prepared hprepared => ?_
  have hrest : Triple (CutDown b row installed) (settleRefresh deps snapshot prepared)
      (fun _ => Withheld b installed φ) (Withheld b installed φ) := by
    refine settleRefresh_withheld hφ hcut (hlisted.prepared hprepared fun row' hlookup => ?_)
    rw [hw₀.stored] at hlookup
    cases hlookup
    rfl
  refine Triple.bindLift hdown fun older _ => Triple.ite (fun _ => ?_) fun _ => ?_
  · exact Triple.poke fun w hw => .inl (Revoked.recordInv w _ rfl rfl hw.revoked)
  · have hkept : Keeps (CutDown b row installed) (sample deps reading) :=
      CutDown.sample (UserRow.disabled_of_cutOff hcut) reading
    have hsample := hkept.conseq (fun _ hw => hw) (fun _ _ hw => hw) hdown
    split
    · exact Triple.bind hsample fun _ => hrest
    · exact hrest

theorem Withheld.volatile {φ : Prop} (w : World) (r : Runner) (hw : Withheld b installed φ w) :
    Withheld b installed φ { w with runner := r } := by
  rcases hw with hrevoked | hempty
  · exact .inl (Revoked.recordInv w _ rfl rfl hrevoked)
  · exact .inr hempty

theorem noting_withheld {P : World → Prop} {φ : Prop} {p : AgentM Unit} {f : Runner → Runner}
    (hp : Triple P p (fun _ => Withheld b installed φ) (Withheld b installed φ)) :
    Triple P (noting p f) (fun _ => Withheld b installed φ) (Withheld b installed φ) := by
  refine Triple.bind (S := fun _ => Withheld b installed φ) (Triple.attempt ?_) fun r => ?_
  · exact hp.conseq (fun _ hw => hw) (fun _ _ hw => hw) fun _ hw => ⟨hw, fun _ => hw⟩
  · cases r with
    | ok _ => exact Triple.pure fun _ hw => hw
    | error e => exact Triple.bind (Triple.poke fun w hw => hw.volatile w _) fun _ =>
        Triple.fail fun _ hw => hw

/-- A response that brings a cut-off row back finds no batch pending and the settlement epoch of
its request. -/
theorem refreshConfig_withheld (hcut : row.cutOff = true) {reading : Reading} {epoch : Nat}
    {response : Option ConfigSnapshot} {w₀ : World} (hw₀ : CutDown b row installed w₀)
    (hlisted : ∀ snapshot, response = some snapshot → Listed b row snapshot.users) :
    Triple (fun w => w = w₀) (refreshConfig deps reading epoch response)
      (fun _ => Withheld b installed (epoch = w₀.runner.settlementEpoch))
      (Withheld b installed (epoch = w₀.runner.settlementEpoch)) := by
  have hstart : ∀ r, CutDown b row installed { w₀ with runner := r } := fun r =>
    ⟨Revoked.recordInv w₀ _ rfl rfl hw₀.revoked, hw₀.stored⟩
  cases response with
  | none =>
    refine Triple.bind (S := fun _ => Revoked b 0 installed) (Triple.poke ?_) fun _ =>
      Triple.fail fun _ hw => .inl hw
    rintro w rfl
    exact (hstart _).revoked
  | some snapshot =>
    refine Triple.bind (S := fun _ w => CutDown b row installed w ∧
      w.runner.settlementEpoch = w₀.runner.settlementEpoch) (Triple.poke ?_) fun _ => ?_
    · rintro w rfl
      exact ⟨hstart _, rfl⟩
    refine Triple.bind (S := fun _ => Withheld b installed (epoch = w₀.runner.settlementEpoch))
      (noting_withheld ?_) fun _ => Triple.poke fun w hw => hw.volatile w _
    refine Triple.bindPeek fun w₁ hw₁ => ?_
    refine Triple.bind (Triple.ensure fun w hw => hw ▸ .inl hw₁.1.revoked) fun _ =>
      Triple.lift fun hepoch => ?_
    have hcurrent : epoch = w₀.runner.settlementEpoch := (of_decide_eq_true hepoch).trans hw₁.2
    exact (applyRefreshed_withheld hcurrent hcut (hlisted snapshot rfl)).pre fun w hw => hw ▸ hw₁.1

theorem keeps_startChecks_of_outbox {I : World → Prop} (hI : OutboxInv I) {reading : Reading} :
    Keeps I (startChecks deps reading) := by
  have hupdate : ∀ f, Keeps I (update f) := fun f => hI.recordInv.keeps_update
  have hnoting : ∀ {p : AgentM Unit} {f}, Keeps I p → Keeps I (noting p f) := by
    intro p f hp
    refine Keeps.bind (Keeps.attempt hp) fun r => ?_
    cases r with
    | ok _ => exact Keeps.pure
    | error e => exact Keeps.bind (hupdate f) fun _ => Keeps.fail
  have hflush : Keeps I (flushPendingReconcile deps) := by
    refine Keeps.bind Keeps.peek fun due => Keeps.ite (fun _ => ?_) fun _ => Keeps.pure
    exact Keeps.bind Keeps.peek fun users => Keeps.bind hI.keeps_reconcile fun _ => hupdate _
  have hcheck : Keeps I (checkXray deps) :=
    Keeps.bind (hnoting Repairs.keeps_health) fun _ =>
      Keeps.bind (hupdate _) fun _ => hnoting hflush
  have hmissing : Keeps I detectMissingUsers := by
    refine Keeps.bind Keeps.peek fun _ => Keeps.bind Keeps.peek fun _ => ?_
    refine Keeps.ite (fun _ => ?_) fun _ => Keeps.pure
    refine Keeps.bind RecordInv.keeps_listUsers fun live => ?_
    exact Keeps.ite (fun _ => hupdate _) fun _ => Keeps.pure
  have hdetect : Keeps I (detectXrayRestart deps reading) := by
    refine Keeps.bind (Keeps.atomic fun w a w' hw hrun => ?_) fun uptime => ?_
    · cases hrun
      exact hw
    refine Keeps.bind Keeps.ensure fun _ => Keeps.bind (hupdate _) fun _ => ?_
    exact Keeps.bind hmissing fun _ => hflush
  refine Keeps.bind (Keeps.attempt hcheck) fun r => ?_
  cases r with
  | error e => exact Keeps.pure
  | ok _ => exact Keeps.bind (Keeps.attempt hdetect) fun _ => Keeps.pure

theorem startChecks_withheld {φ : Prop} {reading : Reading} :
    Keeps (Withheld b installed φ) (startChecks deps reading) := by
  have hempty : OutboxInv fun w => φ ∧ w.store.batches = [] := fun w w' houtbox hw =>
    ⟨hw.1, (Store.batches_of_outbox houtbox).trans hw.2⟩
  exact Keeps.or quiet_revoked.keeps_startChecks (keeps_startChecks_of_outbox hempty)

/-- What `start` does after its refresh. -/
def afterRefresh (deps : Deps) (reading : Reading) : Except Failure Unit → AgentM Unit
  | .ok () => startChecks deps reading
  | .error e => do
    let revision ← read (·.currentRevision)
    if revision = 0 then fail e else startChecks deps reading

theorem start_eq (deps : Deps) (reading : Reading) (epoch : Nat)
    (response : Option ConfigSnapshot) :
    start deps reading epoch response =
      attempt (refreshConfig deps reading epoch response) >>= afterRefresh deps reading := by
  unfold start
  congr

/-- A program that is run as the refresh of a started process. -/
theorem afterRefresh_withheld {P : World → Prop} {φ : Prop} {p : AgentM Unit} {reading : Reading}
    (hp : Triple P p (fun _ => Withheld b installed φ) (Withheld b installed φ)) :
    Triple P (attempt p >>= afterRefresh deps reading) (fun _ => Withheld b installed φ)
      (Withheld b installed φ) := by
  refine Triple.bind (S := fun _ => Withheld b installed φ) (Triple.attempt ?_) fun r => ?_
  · exact hp.conseq (fun _ hw => hw) (fun _ _ hw => hw) fun _ hw => ⟨hw, fun _ => hw⟩
  · cases r with
    | ok _ => exact startChecks_withheld
    | error e =>
      exact Keeps.bind Keeps.peek fun _ => Keeps.ite (fun _ => Keeps.fail) fun _ =>
        startChecks_withheld

/-! ## The sample of a response -/

/-- The part of `refreshConfig` before the response is settled.  It ends with the sample of the
users that the response takes away. -/
def beforeSettling (deps : Deps) (reading : Reading) (epoch : Nat) (snapshot : ConfigSnapshot) :
    AgentM ConfigSnapshot := do
  update fun r => { r with backendOnline := true }
  let now ← read (·.settlementEpoch)
  ensure (epoch = now) .settledDuringFetch
  let current ← readStore Store.configSnapshot
  let prepared ← readStore (Processor.prepareSnapshot snapshot)
  let prepared ← liftExcept prepared
  let older ← liftExcept (decimalLess snapshot.revision current.revision)
  ensure (!older) .unavailable
  if (current.controlMode = .directPrimary || prepared.controlMode = .directPrimary) &&
      takesAway current.users prepared.users then sample deps reading
  return prepared

/-- The rest of `refreshConfig`. -/
def afterSettling (deps : Deps) (snapshot prepared : ConfigSnapshot) : AgentM Unit := do
  noting (settleRefresh deps snapshot prepared) fun r => { r with refreshPending := true }
  update fun r => { r with refreshPending := false }

theorem refreshConfig_of_before {reading : Reading} {epoch : Nat}
    {snapshot prepared : ConfigSnapshot} {s₀ s : Sched World}
    (h : beforeSettling deps reading epoch snapshot s₀ = .ok prepared s) :
    refreshConfig deps reading epoch (some snapshot) s₀ =
      afterSettling deps snapshot prepared s := by
  obtain ⟨_, s₁, hupdate, h⟩ := Prog.bind_eq_ok.1 h
  obtain ⟨now, s₂, hnow, h⟩ := Prog.bind_eq_ok.1 h
  obtain ⟨_, s₃, hepoch, h⟩ := Prog.bind_eq_ok.1 h
  obtain ⟨current, s₄, hcurrent, h⟩ := Prog.bind_eq_ok.1 h
  obtain ⟨result, s₅, hresult, h⟩ := Prog.bind_eq_ok.1 h
  obtain ⟨found, s₆, hfound, h⟩ := Prog.bind_eq_ok.1 h
  obtain ⟨older, s₇, holder, h⟩ := Prog.bind_eq_ok.1 h
  obtain ⟨_, s₈, hnewer, hlast⟩ := Prog.bind_eq_ok.1 h
  have hfresh : older = false := by simpa using (Prog.ensure_eq_ok.1 hnewer).1
  obtain ⟨-, rfl⟩ := Prog.ensure_eq_ok.1 hnewer
  subst hfresh
  have hrest : (if (current.controlMode = .directPrimary || found.controlMode = .directPrimary) &&
        takesAway current.users found.users then do
          sample deps reading
          settleRefresh deps snapshot found
      else settleRefresh deps snapshot found) s₈ = settleRefresh deps snapshot prepared s := by
    dsimp only at hlast
    split at hlast
    · obtain ⟨_, s₉, hsample, hlast⟩ := Prog.bind_eq_ok.1 hlast
      rw [if_pos ‹_›, Prog.bind_ok hsample]
      cases hlast
      rfl
    · rw [if_neg ‹_›]
      cases hlast
      rfl
  have happly : applyRefreshed deps reading snapshot s₃ =
      settleRefresh deps snapshot prepared s := by
    rw [applyRefreshed_eq, Prog.bind_ok hcurrent, Prog.bind_ok hresult, Prog.bind_ok hfound,
      Prog.bind_ok holder]
    exact hrest
  refine (Prog.bind_ok hupdate).trans ?_
  refine Prog.bind_congr (Prog.bind_congr (Prog.attempt_congr ?_))
  rw [Prog.bind_ok hnow, Prog.bind_ok hepoch]
  exact happly

/-- A sample leaves the addresses and the parked rows alone. -/
structure Unmoved (b : String) (w₀ w : World) : Prop where
  address : (w.store.rows.lookup b).map (·.address) = (w₀.store.rows.lookup b).map (·.address)
  parked : ∀ row, w₀.store.rows.lookup b = some row → row.parked = true →
    w.store.rows.lookup b = some row

theorem Unmoved.sampled (b : String) (w₀ : World) : Sampled (Unmoved b w₀) where
  records := fun w w' hrecords _ hw => by
    have hrows := Store.rows_of_records hrecords
    exact ⟨hrows ▸ hw.address, hrows ▸ hw.parked⟩
  installs := fun _ _ _ _ _ w w' hrecords _ hw => by
    have hrows := Store.rows_of_records hrecords
    exact ⟨hrows ▸ hw.address, hrows ▸ hw.parked⟩
  recordSample := by
    intro w counters sampledAt online hw
    let I := fun t : Store =>
      (t.rows.lookup b).map (·.address) = (w₀.store.rows.lookup b).map (·.address) ∧
        ∀ row, w₀.store.rows.lookup b = some row → row.parked = true →
          t.rows.lookup b = some row
    have hI : I (w.store.recordSample counters sampledAt online).2 := by
      refine Store.recordSample_induct_real (fun _ _ _ ht => ht) ?_ counters sampledAt online
        (I := I) ⟨hw.address, hw.parked⟩
      intro t b' row counter online hrow haddress henabled ht
      by_cases hb : b = b'
      · subst hb
        refine ⟨?_, fun row' hrow' hparked => ?_⟩
        · rw [← ht.1, hrow]
          simp [AList.lookup_insert, Store.foldCounter]
        · -- The counter found the row by its address, so it is not parked.
          have hsame := hrow.symm.trans (ht.2 row' hrow' hparked)
          cases hsame
          simp [UserRow.parked, haddress] at hparked
      · dsimp only [I]
        rw [AList.lookup_insert_ne hb]
        exact ht
    exact ⟨hI.1, hI.2⟩

theorem beforeSettling_spec {reading : Reading} {epoch : Nat} {snapshot : ConfigSnapshot}
    (w₀ : World) :
    Triple (fun w => w = w₀) (beforeSettling deps reading epoch snapshot)
      (fun prepared w => epoch = w₀.runner.settlementEpoch ∧
        Processor.prepareSnapshot snapshot w₀.store = .ok prepared ∧ Unmoved b w₀ w)
      fun _ => True := by
  have hunmoved : Repairs deps (Unmoved b w₀) := (Unmoved.sampled b w₀).repairs deps
  refine Triple.bind (S := fun _ w => w.store = w₀.store ∧
    w.runner.settlementEpoch = w₀.runner.settlementEpoch) (Triple.poke ?_) fun _ => ?_
  · rintro w rfl
    exact ⟨rfl, rfl⟩
  refine Triple.bindPeek fun w₁ hw₁ => Triple.bind (Triple.ensure fun _ _ => trivial) fun _ =>
    Triple.lift fun hepoch => ?_
  refine Triple.bindPeek fun w₂ hw₂ => Triple.bindPeek fun w₃ hw₃ => ?_
  subst hw₂ hw₃
  refine Triple.bindLift (fun _ _ => trivial) fun prepared hprepared => ?_
  refine Triple.bindLift (fun _ _ => trivial) fun older _ => ?_
  refine Triple.bind (Triple.ensure fun _ _ => trivial) fun _ => Triple.lift fun _ => ?_
  have hcurrent : epoch = w₀.runner.settlementEpoch := (of_decide_eq_true hepoch).trans hw₁.2
  rw [hw₁.1] at hprepared
  have hstart : ∀ w, w = w₃ → Unmoved b w₀ w := by
    rintro w rfl
    exact ⟨by rw [hw₁.1], fun row hrow _ => by rw [hw₁.1, hrow]⟩
  have hend : Triple (ε := Failure) (Unmoved b w₀) (pure prepared)
      (fun prepared w => epoch = w₀.runner.settlementEpoch ∧
        Processor.prepareSnapshot snapshot w₀.store = .ok prepared ∧ Unmoved b w₀ w)
      fun _ => True := Triple.pure fun w hw => ⟨hcurrent, hprepared, hw⟩
  dsimp only
  split
  · refine Triple.bind ?_ fun _ => hend
    exact hunmoved.sample_keeps.conseq hstart (fun _ _ hw => hw) fun _ _ => trivial
  · exact hend.pre hstart

/-- The state in which a response is settled. -/
theorem beforeSettling_run {reading : Reading} {epoch : Nat} {snapshot prepared : ConfigSnapshot}
    {s₀ s : Sched World} (h : beforeSettling deps reading epoch snapshot s₀ = .ok prepared s) :
    epoch = s₀.world.runner.settlementEpoch ∧
      Processor.prepareSnapshot snapshot s₀.world.store = .ok prepared ∧
      Unmoved b s₀.world s.world := by
  have hspec : Triple (fun w => w = s₀.world) (beforeSettling deps reading epoch snapshot)
      (fun prepared w => epoch = s₀.world.runner.settlementEpoch ∧
        Processor.prepareSnapshot snapshot s₀.world.store = .ok prepared ∧ Unmoved b s₀.world w)
      fun _ => True := beforeSettling_spec s₀.world
  have hrun := hspec s₀ rfl
  rw [h] at hrun
  exact hrun

theorem Unmoved.address_eq {w₀ w : World} {row₀ : UserRow} (h : Unmoved b w₀ w)
    (hrow₀ : w₀.store.rows.lookup b = some row₀) (hrow : w.store.rows.lookup b = some row) :
    row₀.address = row.address := by
  have haddress := h.address
  rw [hrow₀, hrow] at haddress
  exact (Option.some.inj haddress).symm

/-- A row that is parked after the sample was parked before it, with the same contents. -/
theorem Unmoved.of_parked {w₀ w : World} (h : Unmoved b w₀ w)
    (hrow : w.store.rows.lookup b = some row) (hparked : row.parked = true) :
    w₀.store.rows.lookup b = some row := by
  cases hrow₀ : w₀.store.rows.lookup b with
  | none =>
    have haddress := h.address
    rw [hrow₀, hrow] at haddress
    cases haddress
  | some row₀ =>
    have hparked₀ : row₀.parked = true := by
      unfold UserRow.parked at hparked ⊢
      rw [h.address_eq hrow₀ hrow]
      exact hparked
    exact (h.parked row₀ hrow₀ hparked₀).symm.trans hrow

theorem afterSettling_withheld {φ : Prop} (hφ : φ) (hcut : row.cutOff = true)
    {snapshot prepared : ConfigSnapshot} (hlisted : Listed b row prepared.users) :
    Triple (CutDown b row installed) (afterSettling deps snapshot prepared)
      (fun _ => Withheld b installed φ) (Withheld b installed φ) := by
  refine Triple.bind (S := fun _ => Withheld b installed φ) ?_ fun _ =>
    Triple.poke fun w hw => hw.volatile w _
  exact noting_withheld (settleRefresh_withheld hφ hcut hlisted)

end Runner

/-! ## The step of a response -/

namespace World

/-- The worlds that a response passes before it is settled: the one in which it arrives, and the
one that its sample leaves. -/
inductive Passes (deps : Deps) (reading : Reading) (epoch : Nat) (response : Option ConfigSnapshot)
    (fates : List Fate) (w : World) : World → Prop
  | arrival : Passes deps reading epoch response fates w w
  | settling {snapshot prepared : ConfigSnapshot} {s : Sched World} (halive : w.runner.alive = true)
      (hresponse : response = some snapshot)
      (hbefore : Runner.beforeSettling deps reading epoch snapshot ⟨w, fates⟩ = .ok prepared s) :
      Passes deps reading epoch response fates w s.world

/-- A response arrives at a running process, or at one that starts. -/
def arrival (starting : Bool) (epoch : Nat) (response : Option ConfigSnapshot) (reading : Reading) :
    Label :=
  if starting then .start epoch response reading else .refresh epoch response reading

/-- No user that the response enables has a row that is cut off and parked. -/
def Unparked (w : World) (response : Option ConfigSnapshot) : Prop :=
  ∀ snapshot ∈ response, ∀ user ∈ snapshot.users, user.enabled = true →
    ∀ row ∈ w.store.rows.lookup user.bindingId, row.cutOff = true → row.parked = false

instance (w : World) (response : Option ConfigSnapshot) : Decidable (w.Unparked response) :=
  inferInstanceAs (Decidable (∀ snapshot ∈ response, _))

/-- The node cut the binding off. -/
def CutOff (w : World) (b : String) : Prop :=
  ∃ row, w.store.rows.lookup b = some row ∧ row.cutOff = true

theorem cutDown_self {w : World} (hrow : w.store.rows.lookup b = some row)
    (hcut : row.cutOff = true) : CutDown b row (w.xray.installsFor b) w where
  revoked := {
    tombstone := Nat.zero_le _
    disabled := by
      intro b' row' hlookup hb
      subst hb
      rw [hrow] at hlookup
      cases hlookup
      exact UserRow.disabled_of_cutOff hcut
    installs := rfl }
  stored := hrow

/-- The program of an arrival ends as the program that its refresh goes over to. -/
theorem operate_of_run {I P : World → Prop} {p q : AgentM Unit} {w : World} {fates : List Fate}
    {s : Sched World} (hrun : p ⟨w, fates⟩ = q s) (hq : Triple P q (fun _ => I) I)
    (hdead : ∀ w r, I w → I { w with runner := r }) (hs : P s.world) : I (operate p fates w) := by
  have hresult : operate p fates w = operate q s.fates s.world := by
    unfold operate
    rw [hrun]
  rw [hresult]
  exact operate_keeps hq hdead s.fates hs

/-- The step lemma: a response that brings a binding back that the node cut off finds no batch
pending and the settlement epoch of its request. -/
theorem arrival_withheld {reading : Reading} {epoch : Nat} {response : Option ConfigSnapshot}
    {fates : List Fate} {w v : World} (hpasses : Passes deps reading epoch response fates w v)
    (hcutOff : v.CutOff b) (hunparked : w.Unparked response) (starting : Bool) :
    Runner.Withheld b (v.xray.installsFor b) (epoch = w.runner.settlementEpoch)
      (World.step deps w (arrival starting epoch response reading, fates)) := by
  obtain ⟨row, hrow, hcut⟩ := hcutOff
  have hdown := cutDown_self hrow hcut
  cases hpasses with
  | arrival =>
    have hlisted : ∀ snapshot, response = some snapshot → Runner.Listed b row snapshot.users := by
      intro snapshot hresponse user hu hbinding henabled
      subst hbinding
      exact hunparked snapshot hresponse user hu henabled row hrow hcut
    have hrefresh : Triple (fun v => v = w) (Runner.refreshConfig deps reading epoch response)
        (fun _ => Runner.Withheld b (w.xray.installsFor b) (epoch = w.runner.settlementEpoch))
        (Runner.Withheld b (w.xray.installsFor b) (epoch = w.runner.settlementEpoch)) :=
      Runner.refreshConfig_withheld hcut hdown hlisted
    cases starting with
    | true =>
      refine ifAlive_keeps (.inl hdown.revoked) ?_
      rw [Runner.start_eq]
      exact operate_keeps (Runner.afterRefresh_withheld hrefresh)
        (fun w r hw => hw.volatile w r) fates rfl
    | false =>
      exact ifAlive_keeps (.inl hdown.revoked)
        (operate_keeps hrefresh (fun w r hw => hw.volatile w r) fates rfl)
  | @settling snapshot prepared s halive hresponse hbefore =>
    subst hresponse
    obtain ⟨hepoch, hprepared, hunmoved⟩ := Runner.beforeSettling_run (b := b) hbefore
    have hlisted : Runner.Listed b row snapshot.users := by
      intro user hu hbinding henabled
      by_contra hparked
      rw [Bool.not_eq_false] at hparked
      subst hbinding
      have hrow₀ := hunmoved.of_parked hrow hparked
      rw [hunparked snapshot rfl user hu henabled row hrow₀ hcut] at hparked
      cases hparked
    have hsettle : Triple (CutDown b row (s.world.xray.installsFor b))
        (Runner.afterSettling deps snapshot prepared)
        (fun _ => Runner.Withheld b (s.world.xray.installsFor b) (epoch = w.runner.settlementEpoch))
        (Runner.Withheld b (s.world.xray.installsFor b) (epoch = w.runner.settlementEpoch)) :=
      Runner.afterSettling_withheld hepoch hcut (hlisted.prepared hprepared fun row₀ hrow₀ =>
        hunmoved.address_eq hrow₀ hrow)
    have hrun := Runner.refreshConfig_of_before hbefore
    have halive' : ∀ f, ifAlive f w = f w := fun _ => if_pos halive
    cases starting with
    | true =>
      have hstart : Runner.start deps reading epoch (some snapshot) ⟨w, fates⟩ =
          (attempt (Runner.afterSettling deps snapshot prepared) >>=
            Runner.afterRefresh deps reading) s := by
        rw [Runner.start_eq]
        exact Prog.bind_congr (Prog.attempt_congr hrun)
      exact (congrArg _ (halive' _)).mpr (operate_of_run hstart
        (Runner.afterRefresh_withheld hsettle) (fun w r hw => hw.volatile w r) hdown)
    | false =>
      exact (congrArg _ (halive' _)).mpr
        (operate_of_run hrun hsettle (fun w r hw => hw.volatile w r) hdown)

end World

/-! ## Requests in flight -/

/-- A request for the configuration, with what was acknowledged when it was made. -/
structure Fetch where
  epoch : Nat
  settled : List UsageBatch

/-- A node with its requests in flight, and the history of its batches. -/
structure Exchange where
  world : World
  recorded : List UsageBatch := []
  settled : List UsageBatch := []
  fetches : List Fetch := []

/-- A step that neither takes a response, nor settles a batch, nor starts a process. -/
def Label.isLocal : Label → Bool
  | .refresh .. | .start .. | .ack .. | .restart .. => false
  | _ => true

/-- One step of the exchange. -/
inductive ExchangeStep where
  /-- A command, a sample, a step of the panel or of Xray. -/
  | local (step : Step)
  /-- `refreshConfig` reads the epoch and sends its request. -/
  | begin
  /-- The response of a request arrives, at a running process or at one that starts. -/
  | arrive (index : Nat) (starting : Bool) (response : Option ConfigSnapshot) (reading : Reading)
      (fates : List Fate)
  | ack (bootId : String) (through : Nat) (fates : List Fate)
  /-- A new process has no requests. -/
  | restart (bootId : String) (fates : List Fate)

namespace Exchange

/-- The node moved without settling anything: the batches it added are recorded. -/
def moved (x : Exchange) (w : World) : Exchange :=
  { x with world := w, recorded := x.recorded ++ w.store.batches.drop x.world.store.batches.length }

/-- The request that the runner makes now. -/
def request (x : Exchange) : Fetch := ⟨x.world.runner.settlementEpoch, x.settled⟩

/-- The batches that an acknowledgement took off the queue. -/
def acknowledged (x : Exchange) (w : World) : Exchange :=
  { x with world := w, settled := x.settled ++ x.world.store.batches.filter (· ∉ w.store.batches) }

/-- One step of the exchange. -/
def step (deps : Deps) (x : Exchange) : ExchangeStep → Exchange
  | .local s => if s.1.isLocal then x.moved (World.step deps x.world s) else x
  | .begin => if x.world.runner.alive then { x with fetches := x.fetches ++ [x.request] } else x
  | .arrive index starting response reading fates =>
    match x.fetches[index]? with
    | none => x
    | some fetch =>
      { x.moved (World.step deps x.world
          (World.arrival starting fetch.epoch response reading, fates)) with
        fetches := x.fetches.eraseIdx index }
  | .ack bootId through fates =>
    x.acknowledged (World.step deps x.world (.ack bootId through, fates))
  | .restart bootId fates =>
    { x.moved (World.step deps x.world (.restart bootId, fates)) with fetches := [] }

/-- A run of the exchange. -/
def run (deps : Deps) (x : Exchange) (steps : List ExchangeStep) : Exchange :=
  steps.foldl (step deps) x

/-- A node without requests in flight.  What its queue holds is recorded. -/
def start (w : World) : Exchange := { world := w, recorded := w.store.batches }

/-! ## The invariant -/

/-- What was recorded is settled or pending.  A request that was made at the present epoch knows
everything that is settled. -/
structure Sound (x : Exchange) : Prop where
  recorded : ∀ batch ∈ x.recorded, batch ∈ x.settled ∨ batch ∈ x.world.store.batches
  fetches : x.world.runner.alive = true → ∀ fetch ∈ x.fetches,
    fetch.epoch ≤ x.world.runner.settlementEpoch ∧
      (fetch.epoch = x.world.runner.settlementEpoch → x.settled ⊆ fetch.settled)

namespace Sound

variable {x : Exchange}

theorem start (w : World) : Sound (start w) where
  recorded := fun _ hbatch => .inr hbatch
  fetches := fun _ _ hfetch => absurd hfetch List.not_mem_nil

/-- A step that only adds to the outbox. -/
theorem moved_recorded (h : Sound x) {w : World}
    (hgrown : x.world.store.batches <+: w.store.batches) :
    ∀ batch ∈ (x.moved w).recorded, batch ∈ (x.moved w).settled ∨ batch ∈ w.store.batches := by
  intro batch hbatch
  rcases List.mem_append.1 hbatch with hold | hnew
  · exact (h.recorded batch hold).imp id fun hpending => hgrown.subset hpending
  · exact .inr (List.mem_of_mem_drop hnew)

/-- A step that adds to the outbox and counts nothing. -/
theorem moved (h : Sound x) {s : Step} (hack : ∀ bootId through, s.1 ≠ .ack bootId through)
    (hrestart : ∀ bootId, s.1 ≠ .restart bootId) : Sound (x.moved (World.step deps x.world s)) where
  recorded := h.moved_recorded (World.step_answered deps x.world s hack).batches
  fetches := by
    intro halive fetch hfetch
    obtain ⟨hlived, hepoch⟩ := World.step_epoch deps x.world s hack hrestart halive
    have hfetch' := h.fetches hlived fetch hfetch
    rw [← hepoch] at hfetch'
    exact hfetch'

theorem acknowledged (h : Sound x) {bootId : String} {through : Nat} {fates : List Fate}
    (hfates : fates.head? ≠ some .lose) :
    Sound (x.acknowledged (World.step deps x.world (.ack bootId through, fates))) where
  recorded := by
    intro batch hbatch
    by_cases hleft : batch ∈ (World.step deps x.world (.ack bootId through, fates)).store.batches
    · exact .inr hleft
    · left
      rcases h.recorded batch hbatch with hsettled | hpending
      · exact List.mem_append_left _ hsettled
      · exact List.mem_append_right _ (List.mem_filter.2 ⟨hpending, by simpa using hleft⟩)
  fetches := by
    intro halive fetch hfetch
    obtain ⟨hlived, hcount⟩ := World.step_ack deps x.world hfates halive
    obtain ⟨hle, hknows⟩ := h.fetches hlived fetch hfetch
    rcases hcount with ⟨hbatches, hepoch⟩ | hepoch
    · -- Nothing left the queue.
      have hnone : x.world.store.batches.filter
          (· ∉ (World.step deps x.world (.ack bootId through, fates)).store.batches) = [] := by
        rw [hbatches]
        simp
      refine ⟨hle.trans_eq hepoch.symm, fun heq => ?_⟩
      dsimp only [Exchange.acknowledged]
      rw [hnone, List.append_nil]
      exact hknows (heq.trans hepoch)
    · dsimp only [Exchange.acknowledged] at hepoch ⊢
      refine ⟨by omega, fun heq => ?_⟩
      omega

end Sound

/-- No response enables a binding whose row is cut off and parked, and the answer of no
acknowledgement's transaction is lost. -/
def Careful (x : Exchange) : ExchangeStep → Prop
  | .arrive _ _ response _ _ => x.world.Unparked response
  | .ack _ _ fates => fates.head? ≠ some .lose
  | _ => True

/-- Every step of the run meets a condition on the state in which it starts. -/
def Along (deps : Deps) (C : Exchange → ExchangeStep → Prop) : Exchange → List ExchangeStep → Prop
  | _, [] => True
  | x, s :: steps => C x s ∧ Along deps C (x.step deps s) steps

theorem Sound.step {x : Exchange} (h : Sound x) {s : ExchangeStep} (hcareful : Careful x s) :
    Sound (x.step deps s) := by
  cases s with
  | «local» s =>
    dsimp only [Exchange.step]
    split
    · next hlocal =>
      refine h.moved ?_ ?_
      · rintro bootId through heq
        rw [heq] at hlocal
        cases hlocal
      · rintro bootId heq
        rw [heq] at hlocal
        cases hlocal
    · exact h
  | «begin» =>
    dsimp only [Exchange.step]
    split
    · refine ⟨h.recorded, fun halive fetch hfetch => ?_⟩
      rcases List.mem_append.1 hfetch with hold | hnew
      · exact h.fetches halive fetch hold
      · obtain rfl := List.mem_singleton.1 hnew
        exact ⟨Nat.le_refl _, fun _ => List.Subset.refl _⟩
    · exact h
  | arrive index starting response reading fates =>
    dsimp only [Exchange.step]
    split
    · exact h
    · next fetch hfetch =>
      have hmoved : Sound (x.moved (World.step deps x.world
          (World.arrival starting fetch.epoch response reading, fates))) :=
        h.moved (by cases starting <;> rintro _ _ ⟨⟩) (by cases starting <;> rintro _ ⟨⟩)
      exact ⟨hmoved.recorded, fun halive other hother =>
        hmoved.fetches halive other (List.mem_of_mem_eraseIdx hother)⟩
  | ack bootId through fates => exact h.acknowledged hcareful
  | restart bootId fates =>
    have hgrown := World.step_answered deps x.world (.restart bootId, fates)
      fun _ _ heq => by cases heq
    exact ⟨h.moved_recorded hgrown.batches, fun _ _ hfetch => absurd hfetch List.not_mem_nil⟩

theorem Sound.run {x : Exchange} (h : Sound x) {steps : List ExchangeStep}
    (hcareful : Along deps Careful x steps) : Sound (x.run deps steps) := by
  induction steps generalizing x with
  | nil => exact h
  | cons s steps ih => exact ih (h.step hcareful.1) hcareful.2

theorem along_append {C : Exchange → ExchangeStep → Prop} {x : Exchange}
    {before after : List ExchangeStep} : Along deps C x (before ++ after) ↔
      Along deps C x before ∧ Along deps C (x.run deps before) after := by
  induction before generalizing x with
  | nil => exact (and_iff_right True.intro).symm
  | cons s before ih => exact (and_congr_right fun _ => ih).trans and_assoc.symm

/-! ## The result -/

/-- The binding is enabled, or an account was installed for it. -/
def Restores (b : String) (w w' : World) : Prop :=
  w'.store.HasRow b (·.enabled = true) ∨ w'.xray.installsFor b ≠ w.xray.installsFor b

theorem Restores.of_revoked {b : String} {w w' : World} (h : Restores b w w')
    (hrevoked : Revoked b 0 (w.xray.installsFor b) w') : False := by
  rcases h with ⟨row, hrow, henabled⟩ | hinstalls
  · rw [hrevoked.disabled b row hrow rfl] at henabled
    cases henabled
  · exact hinstalls hrevoked.installs

/-- A dead process brings nothing back. -/
theorem Restores.alive {b : String} {w v : World} {reading : Reading} {epoch : Nat}
    {response : Option ConfigSnapshot} {fates : List Fate} {starting : Bool}
    (hpasses : World.Passes deps reading epoch response fates w v) (hcutOff : v.CutOff b)
    (h : Restores b v (World.step deps w (World.arrival starting epoch response reading, fates))) :
    w.runner.alive = true := by
  by_contra hdead
  have hsame : World.step deps w (World.arrival starting epoch response reading, fates) = w := by
    cases starting <;> exact if_neg hdead
  cases hpasses with
  | arrival =>
    obtain ⟨row, hrow, hcut⟩ := hcutOff
    rw [hsame] at h
    exact h.of_revoked (World.cutDown_self hrow hcut).revoked
  | settling halive => exact hdead halive

/-- If the response of a request brings a binding back that the node cut off, everything that
was recorded by then had been acknowledged when the request was made. -/
def SettledBefore (deps : Deps) (x : Exchange) (index : Nat) (starting : Bool)
    (response : Option ConfigSnapshot) (reading : Reading) (fates : List Fate) : Prop :=
  ∀ fetch, x.fetches[index]? = some fetch → ∀ b v,
    World.Passes deps reading fetch.epoch response fates x.world v → v.CutOff b →
      Restores b v (x.step deps (.arrive index starting response reading fates)).world →
        (x.step deps (.arrive index starting response reading fates)).recorded ⊆ fetch.settled

/-- **Settlement before restoration.**  In every run in which no response enables a binding whose
row is cut off and parked, and the answer of no acknowledgement's transaction is lost, a binding
that the node cut off comes back only with a response whose request knew every batch. -/
theorem settled_before_restoration (deps : Deps) (w₀ : World) (before after : List ExchangeStep)
    (index : Nat) (starting : Bool) (response : Option ConfigSnapshot) (reading : Reading)
    (fates : List Fate)
    (hcareful : Along deps Careful (start w₀)
      (before ++ .arrive index starting response reading fates :: after)) :
    SettledBefore deps ((start w₀).run deps before) index starting response reading fates := by
  intro fetch hfetch b v hpasses hcutOff hrestores batch hbatch
  obtain ⟨hbefore, hafter⟩ := along_append.1 hcareful
  have hsound : Sound ((start w₀).run deps before) := (Sound.start w₀).run hbefore
  have hsound' : Sound (((start w₀).run deps before).step deps
    (.arrive index starting response reading fates)) := hsound.step hafter.1
  generalize (start w₀).run deps before = x at *
  have harrived : x.step deps (.arrive index starting response reading fates) =
      { x.moved (World.step deps x.world
          (World.arrival starting fetch.epoch response reading, fates)) with
        fetches := x.fetches.eraseIdx index } := by
    dsimp only [Exchange.step]
    rw [hfetch]
  rw [harrived] at hsound' hrestores hbatch
  have halive := Restores.alive hpasses hcutOff hrestores
  rcases World.arrival_withheld hpasses hcutOff hafter.1 starting with hrevoked | ⟨hepoch, hempty⟩
  · exact (hrestores.of_revoked hrevoked).elim
  · -- The queue is empty, so the batch is settled, and the request knows what is settled.
    have hmem : batch ∈ x.settled := by
      rcases hsound'.recorded batch hbatch with hmem | hmem
      · exact hmem
      · have hpending : batch ∈ (World.step deps x.world
            (World.arrival starting fetch.epoch response reading, fates)).store.batches := hmem
        rw [hempty] at hpending
        exact absurd hpending List.not_mem_nil
    exact (hsound.fetches halive fetch (List.mem_of_getElem? hfetch)).2 hepoch hmem

namespace HandedOff

open CutOff Delayed

/-- A user that six bytes cut off while the control plane is away, and a request after the
acknowledgement. -/
def offline : List ExchangeStep :=
  [.local adopt, .local install, .local (.sample {}, []), .local (.backendOffline, []),
    .local (.sample { stats := fun _ => (6, 0) }, []), .ack "boot" 2 [], .begin]

/-- A reconciliation that gives the address of `a` to `c`, at which Xray refuses to install `c`.
The row of `a` stays parked. -/
def handOff : Step :=
  (.command { commandId := "hand-off", type := .reconcileUsers, targetRevision := some 6
              payload := { users := .items [some
                { bindingId := "c", email := "a", uuid := identity "c"
                  quotaRemainingBytes := some (some 9) }] } } {},
    List.replicate 13 .run ++ [.refuse])

/-- A user whose quota is used up, the hand-off of its address, and a request.  Nothing is
acknowledged. -/
def pending : List ExchangeStep :=
  [.local adopt, .local install, .local (.sample {}, []),
    .local (.sample { stats := fun _ => (9, 0) }, []), .local handOff, .begin]

/-- The control plane names the user again, before it has seen a batch. -/
def unaware : ConfigSnapshot :=
  { snapshot with users := [{ renewed with revision := some 8 }] }

/-- The node when the request of a run is made. -/
def node (before : List ExchangeStep) : Exchange := (start {}).run {} before

/-- The node after the response. -/
def answered (before : List ExchangeStep) (snapshot : ConfigSnapshot) : Exchange :=
  (node before).step {} (.arrive 0 false (some snapshot) {} [])

/-- What a run finds and leaves: the user is cut off, the response brings it back, and one
request was made. -/
structure Returns (before : List ExchangeStep) (snapshot : ConfigSnapshot) : Prop where
  cut : (node before).world.CutOff "a"
  restores : Restores "a" (node before).world (answered before snapshot).world
  request : ∃ fetch, (node before).fetches = [fetch]
  recorded : (answered before snapshot).recorded.length = 2

theorem Returns.of_eval {before : List ExchangeStep} {snapshot : ConfigSnapshot}
    (h : ((node before).world.store.rows.lookup "a").any (·.cutOff) = true ∧
      ((answered before snapshot).world.store.rows.lookup "a").any (·.enabled) = true ∧
      (node before).fetches.length = 1 ∧ (answered before snapshot).recorded.length = 2) :
    Returns before snapshot := by
  obtain ⟨hcut, henabled, hfetches, hrecorded⟩ := h
  obtain ⟨row, hrow, hrowcut⟩ := (Option.any_eq_true _ _).1 hcut
  obtain ⟨row', hrow', hrowenabled⟩ := (Option.any_eq_true _ _).1 henabled
  exact ⟨⟨row, hrow, hrowcut⟩, .inl ⟨row', hrow', hrowenabled⟩, List.length_eq_one_iff.1 hfetches,
    hrecorded⟩

theorem offline_returns : Returns offline snapshot := .of_eval (by decide +kernel)

theorem pending_returns : Returns pending unaware := .of_eval (by decide +kernel)

theorem offline_careful : Along {} Careful (start {})
    (offline ++ [.arrive 0 false (some snapshot) {} []]) := by
  have hanswer : ([] : List Fate).head? ≠ some .lose := by decide
  have hunparked : (node offline).world.Unparked (some snapshot) := by decide +kernel
  refine along_append.2 ⟨?_, hunparked, True.intro⟩
  exact ⟨True.intro, True.intro, True.intro, True.intro, True.intro, hanswer, True.intro,
    True.intro⟩

end HandedOff

open HandedOff CutOff in
/-- An offline cut-off comes back once its two batches are acknowledged. -/
theorem settled_before_restoration_offline :
    (node offline).world.CutOff "a" ∧
      Restores "a" (node offline).world (answered offline snapshot).world ∧
      (answered offline snapshot).recorded.length = 2 ∧
      ∃ fetch, (node offline).fetches[0]? = some fetch ∧
        (answered offline snapshot).recorded ⊆ fetch.settled := by
  obtain ⟨hcutOff, hrestores, ⟨fetch, hfetch⟩, hrecorded⟩ := offline_returns
  have hfound : (node offline).fetches[0]? = some fetch := by rw [hfetch]; rfl
  exact ⟨hcutOff, hrestores, hrecorded, fetch, hfound,
    settled_before_restoration {} {} offline [] 0 false (some snapshot) {} [] offline_careful fetch
      hfound "a" (node offline).world .arrival hcutOff hrestores⟩

open HandedOff CutOff in
/-- Without the conditions the statement fails: the node brings the user back while both of its
batches are still pending. -/
theorem parked_cutoff_comes_back_unsettled : ¬ ∀ (deps : Deps) (w₀ : World)
    (before : List ExchangeStep) (index : Nat) (starting : Bool) (response : Option ConfigSnapshot)
    (reading : Reading) (fates : List Fate),
    SettledBefore deps ((start w₀).run deps before) index starting response reading fates := by
  intro h
  obtain ⟨hcutOff, hrestores, ⟨fetch, hfetch⟩, hrecorded⟩ := pending_returns
  have hsettled : (node pending).fetches.map (·.settled) = [[]] := by decide +kernel
  have hfound : (node pending).fetches[0]? = some fetch := by rw [hfetch]; rfl
  have hsubset : (answered pending unaware).recorded ⊆ fetch.settled :=
    h {} {} pending 0 false (some unaware) {} [] fetch hfound "a" (node pending).world .arrival
      hcutOff hrestores
  have hnone : fetch.settled = [] := by
    rw [hfetch] at hsettled
    exact List.singleton_inj.1 hsettled
  rw [hnone] at hsubset
  rw [List.subset_nil.1 hsubset] at hrecorded
  cases hrecorded

end Exchange

end ChordV.Agent
