import ChordV.Agent.Inbound
import ChordV.Agent.Runner
import ChordV.Lib.Fallible

/-!
# What an operation does to the records

The evidence of what the agent installed changes all the time.  Most statements about
the desired users do not read it.  This file proves once that the operations which only
move evidence keep every statement about the records, and what the remaining ones need.

* `Store.records` is the store without its evidence, and `RecordInv I` says that `I`
  reads only the records and the installs of the log.
* `InstallStable I user` says that an installation for the user keeps `I`.
* `reconcile_phases` is the rule of a reconciliation, and `reconcile_keeps` the rule for a
  statement that its one store write keeps.  They ask for that store write and for the
  installs of the enabled users.
* `Repairs deps I` is what a sample needs of any statement, and `Repairs.sample_keeps` is
  the rule.  `Sampled I` is what it needs of a statement about the records.  The
  reconciliation at the end of a sample works on the stored users.  It writes nothing
  new, by `applyDesiredUsers_listDesiredUsers`.
-/

namespace ChordV.Agent

open Lib

/-! ## Applying what is stored changes nothing -/

namespace Store

open Fallible

/-- The store without its evidence. -/
def records (s : Store) : Store := { s with provisioned := ∅, pendingRemovals := ∅ }

theorem mem_listDesiredUsers {s : Store} {user : DesiredUser} :
    user ∈ s.listDesiredUsers ↔ ∃ b row, s.rows.lookup b = some row ∧
      desired b row = some user := by
  unfold listDesiredUsers
  rw [List.mem_insertionSort, List.mem_filterMap]
  constructor
  · rintro ⟨⟨b, row⟩, hmem, hdesired⟩
    exact ⟨b, row, Table.mem_pairs.1 hmem, hdesired⟩
  · rintro ⟨b, row, hlookup, hdesired⟩
    exact ⟨(b, row), Table.mem_pairs.2 hlookup, hdesired⟩

/-- The fields of the protocol view of a row. -/
theorem desired_eq_some {b : String} {row : UserRow} {user : DesiredUser}
    (h : desired b row = some user) :
    user.bindingId = b ∧ row.address = .real user.email ∧ user.uuid = row.uuid ∧
      user.flow = row.flow ∧ user.enabled = row.enabled ∧ user.revision = some row.revision := by
  unfold desired at h
  split at h
  · cases h
  · next email haddress =>
    cases h
    exact ⟨rfl, haddress, rfl, rfl, rfl, rfl⟩

/-- A stored user is the view of the row of its binding. -/
theorem row_of_mem_listDesiredUsers {s : Store} {user : DesiredUser}
    (h : user ∈ s.listDesiredUsers) :
    ∃ row, s.rows.lookup user.bindingId = some row ∧ desired user.bindingId row = some user := by
  obtain ⟨b, row, hlookup, hdesired⟩ := mem_listDesiredUsers.1 h
  obtain rfl := (desired_eq_some hdesired).1
  exact ⟨row, hlookup, hdesired⟩

/-- A stored user is not newer than its own row. -/
theorem upsertDesiredUserTx_stored {s : Store} {user : DesiredUser}
    (h : user ∈ s.listDesiredUsers) : upsertDesiredUserTx user s = .ok s := by
  obtain ⟨row, hlookup, hdesired⟩ := row_of_mem_listDesiredUsers h
  obtain ⟨-, -, huuid, hflow, henabled, hrevision⟩ := desired_eq_some hdesired
  have happlies : upsertApplies row user row.revision = false := by
    simp [upsertApplies, huuid, hflow, henabled]
  simp [upsertDesiredUserTx, hrevision, hlookup, happlies]

theorem upsertAllTx_stored {s : Store} {users : List DesiredUser}
    (h : ∀ user ∈ users, user ∈ s.listDesiredUsers) : upsertAllTx users s = .ok s := by
  induction users with
  | nil => rfl
  | cons user users ih =>
    have hhead := upsertDesiredUserTx_stored (h user List.mem_cons_self)
    have htail := ih fun u hu => h u (List.mem_cons_of_mem _ hu)
    unfold upsertAllTx at htail ⊢
    rw [List.foldlM_cons, hhead]
    exact htail

theorem applyingUsers_stored {s : Store} {users : List DesiredUser}
    (h : ∀ user ∈ users, user ∈ s.listDesiredUsers) : applyingUsers users s = .ok [] := by
  have hall : ∀ user ∈ users, takesAddress s user = .ok false := by
    intro user hu
    obtain ⟨row, hlookup, hdesired⟩ := row_of_mem_listDesiredUsers (h user hu)
    have hrevision := (desired_eq_some hdesired).2.2.2.2.2
    simp [takesAddress, hlookup, hrevision]
  rw [applyingUsers, Fallible.filterM_of_ok hall]
  simp

/-- Nothing is parked when nobody takes an address. -/
theorem parkContestedEmailsTx_of_applying_nil {s : Store} {users : List DesiredUser}
    {omitted : String → Bool} (h : applyingUsers users s = .ok []) :
    parkContestedEmailsTx users omitted s = .ok s := by
  have hparks : ∀ b row, parks [] omitted b row = false := by
    intro b row
    unfold parks
    cases row.address <;> simp
  unfold parkContestedEmailsTx
  rw [h]
  have hfold : ∀ (ps : List (String × UserRow)) (rows : Table String UserRow),
      ps.foldl (fun rows p => if parks [] omitted p.1 p.2 then rows.modify p.1 parkRow else rows)
        rows = rows := by
    intro ps
    induction ps with
    | nil => exact fun _ => rfl
    | cons p ps ih => exact fun rows => by simp [hparks]
  simp only [ok_bind, hfold]
  rfl

/-- Applying the stored users again changes nothing. -/
theorem applyDesiredUsers_listDesiredUsers (s : Store) :
    applyDesiredUsers s.listDesiredUsers s = .ok s := by
  have happlying := applyingUsers_stored (s := s) fun user hu => hu
  unfold applyDesiredUsers
  rw [parkContestedEmailsTx_of_applying_nil happlying]
  exact upsertAllTx_stored fun user hu => hu

end Store

/-! ## Statements about the records -/

/-- The statement reads only the records of the store and the installs of the log. -/
def RecordInv (I : World → Prop) : Prop :=
  ∀ w w' : World, w'.store.records = w.store.records → w'.xray.installs = w.xray.installs →
    I w → I w'

/-- An installation for the user keeps the statement. -/
def InstallStable (I : World → Prop) (user : DesiredUser) : Prop :=
  ∀ w w' : World, w'.store.records = w.store.records →
    (∃ id, w'.xray.installs = w.xray.installs ++ [.added user.bindingId user.email id]) →
    I w → I w'

theorem Store.rows_of_records {s s' : Store} (h : s'.records = s.records) : s'.rows = s.rows := by
  have := congrArg Store.rows h
  exact this

theorem Store.tombstones_of_records {s s' : Store} (h : s'.records = s.records) :
    s'.tombstones = s.tombstones := by
  have := congrArg Store.tombstones h
  exact this

theorem Store.listDesiredUsers_of_records {s s' : Store} (h : s'.records = s.records) :
    s'.listDesiredUsers = s.listDesiredUsers := by
  unfold Store.listDesiredUsers
  rw [Store.rows_of_records h]

namespace RecordInv

variable {I : World → Prop} (hI : RecordInv I)
include hI

/-- A statement about the records may also name the stored users. -/
theorem and_listDesiredUsers (users : List DesiredUser) :
    RecordInv fun w => I w ∧ w.store.listDesiredUsers = users := by
  intro w w' hrecords hinstalls hw
  exact ⟨hI w w' hrecords hinstalls hw.1, hw.2 ▸ Store.listDesiredUsers_of_records hrecords⟩

/-! ### Operations that only move evidence -/

theorem keeps_write {f : Store → Store} (hf : ∀ s, (f s).records = s.records) :
    Keeps I (write f) := by
  refine Keeps.atomic fun w a w' hw hrun => ?_
  cases hrun
  exact hI w _ (hf _) rfl hw

theorem keeps_update {f : Runner → Runner} : Keeps I (Runner.update f) :=
  Keeps.poke fun w hw => hI w _ rfl rfl hw

theorem keeps_syncCurrent : Keeps I Runner.syncCurrent :=
  Keeps.poke fun w hw => hI w _ rfl rfl hw

omit hI in
theorem keeps_listUsers : Keeps I Adapter.listUsers :=
  Adapter.listUsers_spec.post fun _ _ hw => hw.1

theorem keeps_removeUser {email : String} {expect : Expectation} :
    Keeps I (Adapter.removeUser email expect) := by
  have hremoved : ∀ w₀ w, I w₀ → Adapter.Removed email w₀ w → I w := by
    rintro w₀ w hw (rfl | rfl)
    · exact hw
    · exact hI w₀ _ rfl (by simp) hw
  refine Triple.atWorld fun w₀ hw => ?_
  exact (Adapter.removeUser_spec w₀).conseq (fun _ h => h)
    (fun _ w h => hremoved w₀ w hw h.1) fun w h => hremoved w₀ w hw h

theorem keeps_ensureUser {deps : Deps} {user : DesiredUser} {expect : Expectation}
    (huser : InstallStable I user) : Keeps I (Adapter.ensureUser deps user expect) := by
  have hinstalled : ∀ w₀ w, I w₀ → Adapter.Installed user w₀ w → I w := by
    intro w₀ w hw h
    have hrecords : w.store.records = w₀.store.records := by rw [h.store]
    rcases h.installs with hsame | hadded
    · exact hI w₀ w hrecords hsame hw
    · exact huser w₀ w hrecords hadded hw
  refine Triple.atWorld fun w₀ hw => ?_
  exact (Adapter.ensureUser_spec w₀).conseq (fun _ h => h)
    (fun _ w h => hinstalled w₀ w hw h.1) fun w h => hinstalled w₀ w hw h

theorem keeps_forgetProvisioned {emails : List String} :
    Keeps I (Processor.forgetProvisioned emails) :=
  Keeps.ite (fun _ => Keeps.pure) fun _ => hI.keeps_write fun _ => rfl

theorem keeps_clearPendingRemoval {emails : List String} :
    Keeps I (Processor.clearPendingRemoval emails) :=
  Keeps.ite (fun _ => Keeps.pure) fun _ => hI.keeps_write fun _ => rfl

theorem keeps_recordProvisioned {bindingId email uuid : String} :
    Keeps I (write (Store.recordProvisioned bindingId email uuid)) := by
  refine hI.keeps_write fun s => ?_
  unfold Store.recordProvisioned
  split <;> rfl

theorem keeps_recordProvisionIntent {bindingId email uuid : String} :
    Keeps I (write (Store.recordProvisionIntent bindingId email uuid)) := by
  refine hI.keeps_write fun s => ?_
  unfold Store.recordProvisionIntent
  split <;> rfl

theorem keeps_resolveIntents {live : List LiveUser} :
    Keeps I (Processor.resolveIntents live) := by
  have hclaim : ∀ p, Keeps I (Processor.settleClaim live p) := by
    intro p
    unfold Processor.settleClaim
    split
    · exact Keeps.pure
    · repeat' refine Keeps.ite (fun _ => ?_) fun _ => ?_
      all_goals first | exact Keeps.pure | exact hI.keeps_write fun _ => rfl
  have hintent : ∀ p, Keeps I (Processor.resolveIntent live p) := by
    intro p
    unfold Processor.resolveIntent
    split
    · exact Keeps.pure
    · exact Keeps.ite (fun _ => Keeps.pure) fun _ => hI.keeps_recordProvisioned
  refine Keeps.bind (Keeps.bind Keeps.peek fun _ => Keeps.forM fun p _ => hclaim p) fun _ => ?_
  refine Keeps.bind Keeps.peek fun _ => Keeps.bind (Keeps.forM fun p _ => hintent p) fun _ => ?_
  exact hI.keeps_forgetProvisioned

omit hI in
theorem keeps_owns {email : String} : Keeps I (Processor.owns email) := by
  refine Keeps.bind Keeps.peek fun claimed => ?_
  split
  · exact Keeps.pure
  · exact Keeps.bind keeps_listUsers fun _ => Keeps.pure

omit hI in
theorem keeps_collision {deps : Deps} {user : DesiredUser} :
    Keeps I (Processor.collision deps user) := Keeps.ensure

theorem keeps_preflightCollision {deps : Deps} {user : DesiredUser} :
    Keeps I (Processor.preflightCollision deps user) := by
  refine Keeps.bind keeps_listUsers fun live => Keeps.bind hI.keeps_resolveIntents fun _ => ?_
  refine Keeps.bind keeps_owns fun owned => ?_
  split
  · exact Keeps.pure
  · split
    · exact Keeps.bind keeps_collision fun _ => Keeps.pure
    · exact Keeps.pure

omit hI in
theorem keeps_claimedExpectation {email : String} :
    Keeps I (Processor.claimedExpectation email) := by
  refine Keeps.bind (Keeps.attempt (Keeps.atomic ?_)) fun _ => ?_
  · intro w a w' hw hrun
    cases hrun
    exact hw
  · split <;> exact Keeps.pure

theorem keeps_releaseStored {stored : Option DesiredUser} {user : DesiredUser} :
    Keeps I (Processor.releaseStored stored user) := by
  unfold Processor.releaseStored
  split
  · exact Keeps.pure
  · refine Keeps.ite (fun _ => Keeps.pure) fun _ => Keeps.bind keeps_owns fun _ => ?_
    refine Keeps.ite (fun _ => ?_) fun _ => Keeps.pure
    refine Keeps.bind keeps_claimedExpectation fun _ => ?_
    refine Keeps.bind hI.keeps_removeUser fun _ => ?_
    exact Keeps.bind hI.keeps_forgetProvisioned fun _ => hI.keeps_clearPendingRemoval

theorem keeps_uninstallOwned {deps : Deps} {email : String} :
    Keeps I (Processor.uninstallOwned deps email) := by
  refine Keeps.bind keeps_listUsers fun live => Keeps.bind hI.keeps_resolveIntents fun _ => ?_
  refine Keeps.bind keeps_owns fun owned => ?_
  exact Keeps.ite (fun _ => Keeps.pure) fun _ => hI.keeps_removeUser

theorem keeps_uninstallExhausted {emails : List String} :
    Keeps I (Processor.uninstallExhausted emails) := by
  refine Keeps.ite (fun _ => Keeps.pure) fun _ => Keeps.bind keeps_listUsers fun live => ?_
  refine Keeps.bind Keeps.peek fun ours => Keeps.forM fun email _ => ?_
  exact Keeps.ite (fun _ => hI.keeps_removeUser) fun _ => Keeps.pure

theorem keeps_rememberDroppedOwnership {users : List DesiredUser} :
    Keeps I (Processor.rememberDroppedOwnership users) :=
  Keeps.bind Keeps.peek fun _ => Keeps.ite (fun _ => Keeps.pure) fun _ =>
    hI.keeps_write fun _ => rfl

/-! ### Reconciliation -/

theorem keeps_clearPending {stillPending : List String} {email : String} :
    Keeps I (Processor.clearPending stillPending email) :=
  Keeps.ite (fun _ => Keeps.bind hI.keeps_clearPendingRemoval fun _ => Keeps.pure)
    fun _ => Keeps.pure

theorem keeps_releaseRenamed {live : List LiveUser} {ours released : List String}
    {recorded : List DesiredUser} {user : DesiredUser} :
    Keeps I (Processor.releaseRenamed live ours recorded released user) := by
  unfold Processor.releaseRenamed
  split
  · exact Keeps.pure
  · refine Keeps.ite (fun _ => Keeps.pure) fun _ => Keeps.bind hI.keeps_removeUser fun _ => ?_
    refine Keeps.bind hI.keeps_forgetProvisioned fun _ => ?_
    exact Keeps.bind hI.keeps_clearPendingRemoval fun _ => Keeps.pure

theorem keeps_settleUser {deps : Deps} {live liveNow : List LiveUser}
    {ours stillPending : List String} {user : DesiredUser}
    (huser : user.enabled = true → InstallStable I user) :
    Keeps I (Processor.settleUser deps live liveNow ours stillPending user) := by
  refine Keeps.ite (fun henabled => ?_) fun _ => ?_
  · refine Keeps.bind hI.keeps_recordProvisionIntent fun _ => ?_
    refine Keeps.bind (hI.keeps_ensureUser (huser henabled)) fun _ => ?_
    exact Keeps.bind hI.keeps_recordProvisioned fun _ => hI.keeps_clearPending
  · refine Keeps.ite (fun _ => Keeps.pure) fun _ => ?_
    exact Keeps.bind hI.keeps_removeUser fun _ => hI.keeps_clearPending

theorem keeps_retireAccount {deps : Deps} {users : List DesiredUser} {ours retired : List String}
    {account : LiveUser} : Keeps I (Processor.retireAccount deps users ours retired account) := by
  refine Keeps.ite (fun _ => Keeps.pure) fun _ => Keeps.ite (fun _ => ?_) fun _ => Keeps.pure
  exact Keeps.bind hI.keeps_removeUser fun _ => Keeps.pure

/-- The rule of a reconciliation: one statement holds up to its store write, and the other one
from there on. -/
theorem reconcile_phases {J : World → Prop} (hJ : RecordInv J) {deps : Deps}
    {users : List DesiredUser}
    (hinstall : ∀ user ∈ users, user.enabled = true → InstallStable J user)
    (happly : Triple I (transact (Store.applyDesiredUsers users)) (fun _ => J)
      fun w => I w ∨ J w) :
    Triple I (Processor.reconcile deps users) (fun _ w => users = [] ∧ I w ∨ J w)
      fun w => I w ∨ J w := by
  have hbefore : ∀ {α : Type} {p : AgentM α}, Keeps I p →
      Triple I p (fun _ => I) fun w => I w ∨ J w :=
    fun h => h.conseq (fun _ hw => hw) (fun _ _ hw => hw) fun _ => .inl
  have hafter : ∀ {α : Type} {p : AgentM α}, Keeps J p →
      Triple J p (fun _ => J) fun w => I w ∨ J w :=
    fun h => h.conseq (fun _ hw => hw) (fun _ _ hw => hw) fun _ => .inr
  refine Triple.bind (hbefore Keeps.peek) fun ready => Triple.ite (fun _ => ?_) fun _ => ?_
  · refine (Triple.ensure fun _ hw => .inl hw).post fun _ w hw => .inl ⟨?_, hw.2⟩
    exact List.isEmpty_iff.1 hw.1
  refine Triple.bind (hbefore Keeps.liftExcept) fun _ => ?_
  refine Triple.bind (hbefore keeps_listUsers) fun live => ?_
  refine Triple.bind (hbefore Keeps.peek) fun recorded => ?_
  refine Triple.bind (hbefore hI.keeps_resolveIntents) fun _ => ?_
  refine Triple.bind (hbefore Keeps.peek) fun ours =>
    Triple.bind (hbefore Keeps.peek) fun pending => ?_
  refine Triple.bind (hbefore (Keeps.forM fun user _ => ?_)) fun _ => ?_
  · exact Keeps.ite (fun _ => Keeps.pure) fun _ => keeps_collision
  refine Triple.bind (hbefore (Keeps.foldlM fun _ user _ => hI.keeps_releaseRenamed))
    fun released => ?_
  refine Triple.bind happly fun _ => ?_
  refine (hafter ?_).post fun _ _ hw => .inr hw
  refine Keeps.bind (Keeps.foldlM fun _ user hu => hJ.keeps_settleUser (hinstall user hu))
    fun stillPending => ?_
  refine Keeps.bind (Keeps.foldlM fun _ account _ => hJ.keeps_retireAccount) fun removed => ?_
  exact Keeps.bind hJ.keeps_clearPendingRemoval fun _ => hJ.keeps_forgetProvisioned

/-- A statement that the store write and the installs of the enabled users keep. -/
theorem reconcile_keeps {deps : Deps} {users : List DesiredUser}
    (hinstall : ∀ user ∈ users, user.enabled = true → InstallStable I user)
    (happly : Keeps I (transact (Store.applyDesiredUsers users))) :
    Keeps I (Processor.reconcile deps users) :=
  (hI.reconcile_phases hI hinstall (happly.conseq (fun _ hw => hw) (fun _ _ hw => hw)
    fun _ => .inl)).conseq (fun _ hw => hw) (fun _ _ hw => hw.elim And.right id)
      fun _ hw => hw.elim id id

/-- A reconciliation with the stored users writes no record. -/
theorem reconcile_stored_keeps {deps : Deps} {users : List DesiredUser}
    (hinstall : ∀ w, I w → ∀ user ∈ w.store.listDesiredUsers, user.enabled = true →
      InstallStable I user) :
    Triple (fun w => I w ∧ w.store.listDesiredUsers = users) (Processor.reconcile deps users)
      (fun _ => I) I := by
  -- The stored users are part of the statement, so the store write finds them unchanged.
  have hI' := hI.and_listDesiredUsers users
  refine Triple.atWorld fun w₀ hw₀ => ?_
  have hkeeps : Keeps (fun w => I w ∧ w.store.listDesiredUsers = users)
      (Processor.reconcile deps users) := by
    refine hI'.reconcile_keeps (fun user hu henabled w w' hrecords hadded hw => ?_) ?_
    · exact ⟨hinstall w₀ hw₀.1 user (hw₀.2 ▸ hu) henabled w w' hrecords hadded hw.1,
        hw.2 ▸ Store.listDesiredUsers_of_records hrecords⟩
    · refine Keeps.atomic fun w a w' hw hrun => ?_
      rw [← hw.2, Store.applyDesiredUsers_listDesiredUsers] at hrun
      cases hrun
      exact hw
  exact hkeeps.conseq (fun w hw => hw ▸ hw₀) (fun _ _ hw => hw.1) fun _ hw => hw.1

end RecordInv

/-! ## Samples -/

/-- What any statement needs to survive the samples and the repairs of the runner. -/
structure Repairs (deps : Deps) (I : World → Prop) : Prop where
  volatile : ∀ w r, I w → I { w with runner := r }
  stored : ∀ users, Triple (fun w => I w ∧ w.store.listDesiredUsers = users)
    (Processor.reconcile deps users) (fun _ => I) I
  exhausted : ∀ emails, Keeps I (Processor.uninstallExhausted emails)
  recordSample : ∀ w counters sampledAt online, I w →
    I { w with store := (w.store.recordSample counters sampledAt online).2 }

namespace Repairs

variable {deps : Deps} {I : World → Prop} (hI : Repairs deps I)
include hI

theorem keeps_update {f : Runner → Runner} : Keeps I (Runner.update f) :=
  Keeps.poke fun w hw => hI.volatile w _ hw

theorem keeps_syncCurrent : Keeps I Runner.syncCurrent :=
  Keeps.poke fun w hw => hI.volatile w _ hw

theorem keeps_noting {α : Type} {p : AgentM α} {f : Runner → Runner} (hp : Keeps I p) :
    Keeps I (Runner.noting p f) := by
  refine Keeps.bind (Keeps.attempt hp) fun r => ?_
  split
  · exact Keeps.pure
  · exact Keeps.bind hI.keeps_update fun _ => Keeps.fail

omit hI in
theorem keeps_health : Keeps I Runner.health := by
  refine Keeps.atomic fun w a w' hw hrun => ?_
  cases hrun
  exact hw

theorem keeps_flushPendingReconcile : Keeps I (Runner.flushPendingReconcile deps) := by
  refine Keeps.bind Keeps.peek fun due => Keeps.ite (fun _ => ?_) fun _ => Keeps.pure
  refine Triple.bind (S := fun users w => I w ∧ w.store.listDesiredUsers = users)
    (Triple.peek fun w hw => ⟨hw, rfl⟩) fun users => ?_
  exact Triple.bind (hI.stored users) fun _ => hI.keeps_update

theorem keeps_checkXray : Keeps I (Runner.checkXray deps) := by
  refine Keeps.bind (hI.keeps_noting keeps_health) fun _ => ?_
  refine Keeps.bind hI.keeps_update fun _ => ?_
  exact hI.keeps_noting hI.keeps_flushPendingReconcile

theorem keeps_detectMissingUsers : Keeps I Runner.detectMissingUsers := by
  refine Keeps.bind Keeps.peek fun _ => Keeps.bind Keeps.peek fun _ => ?_
  refine Keeps.ite (fun _ => ?_) fun _ => Keeps.pure
  refine Keeps.bind RecordInv.keeps_listUsers fun live => ?_
  exact Keeps.ite (fun _ => hI.keeps_update) fun _ => Keeps.pure

theorem keeps_detectXrayRestart {reading : Reading} :
    Keeps I (Runner.detectXrayRestart deps reading) := by
  refine Keeps.bind (Keeps.atomic ?_) fun uptime => ?_
  · intro w a w' hw hrun
    cases hrun
    exact hw
  refine Keeps.bind Keeps.ensure fun _ => Keeps.bind hI.keeps_update fun _ => ?_
  exact Keeps.bind hI.keeps_detectMissingUsers fun _ => hI.keeps_flushPendingReconcile

theorem keeps_recover {reading : Reading} : Keeps I (Runner.recover deps reading) := by
  refine Keeps.bind (Keeps.attempt hI.keeps_checkXray) fun r => ?_
  split
  · exact Keeps.pure
  · refine Keeps.bind (Keeps.attempt hI.keeps_detectXrayRestart) fun r => ?_
    split
    · exact hI.keeps_update
    · exact Keeps.pure

omit hI in
theorem keeps_readAbsoluteCounters {stats : String → Nat × Nat} :
    Keeps I (Adapter.readAbsoluteCounters stats) :=
  Keeps.bind RecordInv.keeps_listUsers fun _ =>
    Keeps.bind Adapter.uniqueCounterEmails_spec fun _ => Keeps.pure

/-- The rule of a sample. -/
theorem sample_keeps {reading : Reading} : Keeps I (Runner.sample deps reading) := by
  refine Keeps.bind Keeps.peek fun ready => Keeps.ite (fun _ => hI.keeps_checkXray) fun _ => ?_
  refine Keeps.bind (hI.keeps_noting keeps_readAbsoluteCounters) fun counters => ?_
  refine Keeps.bind (Keeps.ite (fun _ => Keeps.pure) fun _ => ?_) fun counters => ?_
  · exact Keeps.bind RecordInv.keeps_listUsers fun _ => Keeps.bind Keeps.peek fun _ => Keeps.pure
  refine Keeps.bind hI.keeps_update fun _ => Keeps.bind Keeps.peek fun online => ?_
  refine Keeps.bind (Keeps.atomic ?_) fun disable => ?_
  · intro w a w' hw hrun
    cases hrun
    exact hI.recordSample w counters reading.now online hw
  refine Keeps.bind Keeps.peek fun mode => ?_
  split
  · exact Keeps.bind (hI.keeps_noting (hI.exhausted disable)) fun _ => hI.keeps_recover
  · exact hI.keeps_recover

end Repairs

/-- What a statement about the records needs to survive a sample. -/
structure Sampled (I : World → Prop) : Prop where
  records : RecordInv I
  installs : ∀ w, I w → ∀ user ∈ w.store.listDesiredUsers, user.enabled = true →
    InstallStable I user
  recordSample : ∀ w counters sampledAt online, I w →
    I { w with store := (w.store.recordSample counters sampledAt online).2 }

/-- The repairs only touch the records through the sample. -/
theorem Sampled.repairs {I : World → Prop} (hI : Sampled I) (deps : Deps) : Repairs deps I where
  volatile := fun w _ hw => hI.records w _ rfl rfl hw
  stored := fun _ => hI.records.reconcile_stored_keeps hI.installs
  exhausted := fun _ => hI.records.keeps_uninstallExhausted
  recordSample := hI.recordSample

/-! ## Completed commands -/

/-- A command that runs and reports completion did what `apply` does. -/
theorem Processor.execute_completed {deps : Deps} {command : Command} {target : Nat}
    {writable : Bool} {w₀ : World} {D : World → Prop}
    (htarget : command.targetRevision = some target)
    (hnew : w₀.store.completedCommand command.commandId = none)
    (happly : Triple (fun w => w = { w₀ with store := w₀.store.beginCommand command.commandId })
      (Processor.apply deps command target writable) (fun _ => D) fun _ => True)
    (hadvance : ∀ w, D w → D { w with store := w.store.advanceConfigRevision target })
    (hcomplete : ∀ w outcome, D w →
      D { w with store := w.store.completeCommand command.commandId outcome }) :
    Triple (fun w => w = w₀) (Processor.execute deps command writable)
      (fun outcome w => (∃ applied watermarks, outcome = .completed applied watermarks) → D w)
      fun _ => True := by
  refine Triple.bindLift (fun _ _ => trivial) fun target' hparse => ?_
  obtain rfl : target = target' := by simpa [htarget, parseDecimal] using hparse
  refine Triple.bindPeek fun w₁ hw₁ => ?_
  subst hw₁
  dsimp only
  rw [hnew]
  refine Triple.bind (S := fun _ w => w = { w₁ with
    store := w₁.store.beginCommand command.commandId }) (Triple.atomic ?_ fun _ _ => trivial)
    fun _ => ?_
  · rintro w a w' rfl hrun
    cases hrun
    exact ⟨rfl, trivial⟩
  refine Triple.bind (S := fun r w => r = .ok () → D w)
    (Triple.attempt (happly.conseq (fun _ hw => hw) (fun _ _ hw _ => hw)
      fun _ _ => ⟨trivial, fun _ h => by cases h⟩)) fun r => ?_
  cases r with
  | error e =>
    -- A failed command reports no completion.
    refine Triple.bind (S := fun outcome _ => outcome = .failed e) (Triple.pure fun _ _ => rfl)
      fun outcome => ?_
    refine Triple.bind (S := fun _ _ => outcome = .failed e)
      (Triple.atomic (fun _ _ _ hw _ => ⟨hw, trivial⟩) fun _ _ => trivial) fun _ => ?_
    refine Triple.pure fun w hw hcompleted => ?_
    obtain ⟨_, _, hcompleted⟩ := hcompleted
    cases hw.symm.trans hcompleted
  | ok _ =>
    have hkeeps : Keeps D (do
        let outcome ← Processor.completion command target
        write (Store.completeCommand command.commandId outcome)
        return outcome) := by
      refine Keeps.bind (Keeps.bind (Keeps.atomic ?_) fun _ => Keeps.bind Keeps.peek fun _ =>
        Keeps.pure) fun outcome => Keeps.bind (Keeps.atomic ?_) fun _ => Keeps.pure
      · intro w a w' hw hrun
        cases hrun
        exact hadvance w hw
      · intro w a w' hw hrun
        cases hrun
        exact hcomplete w outcome hw
    exact hkeeps.conseq (fun _ hw => hw rfl) (fun _ _ hw _ => hw) fun _ _ => trivial

end ChordV.Agent
