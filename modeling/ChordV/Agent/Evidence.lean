import ChordV.Agent.QuietRuns
import ChordV.Agent.Revocation

/-!
# What an operation does to the evidence

The evidence of the agent is the table of provisioned accounts and the notes of pending
removals.  Only a few operations move it: the reconciliation, the install of one user,
the two terminal commands and the notes of a dropped binding.  The statements about
ownership read the evidence and the accounts of Xray, and nothing else.

* `EvidenceInv Ev` says that `Ev` reads only these.
* `good` is a property of identities that all instructions have.  The rows then have it
  too, since every row gets its identity from an instruction.
* `Upheld deps good Ev` asks for the operations that move evidence, and
  `Upheld.step_keeps` is the rule of one step of the node.
-/

namespace ChordV.Agent

open Lib Fallible

/-! ## The transactions on rows -/

namespace Store

variable {s s' : Store}

/-- The evidence of what this agent installed. -/
def evidence (s : Store) : Table String Provisioned × Table String String :=
  (s.provisioned, s.pendingRemovals)

/-- The evidence at an address names an identity: a provisioned row has it as its current or
as its next one, or a pending note carries it. -/
def recognises (s : Store) (email uuid : String) : Prop :=
  (∃ row, s.provisioned.lookup email = some row ∧ (row.uuid = uuid ∨ row.nextUuid = uuid)) ∨
    s.pendingRemovals.lookup email = some uuid

instance (s : Store) (email uuid : String) : Decidable (s.recognises email uuid) :=
  decidable_of_iff
    ((s.provisioned.lookup email).any (fun row => row.uuid = uuid ∨ row.nextUuid = uuid) = true ∨
      s.pendingRemovals.lookup email = some uuid)
    (by simp [recognises, Option.any_eq_true])

/-- The store without its rows, its tombstones and its configuration. -/
def apart (s : Store) : Store :=
  { s with
    rows := ∅, tombstones := ∅, configRevision := 0, snapshotRevision := none
    controlMode := .shadowDirect }

theorem evidence_of_apart (h : s'.apart = s.apart) : s'.evidence = s.evidence := by
  have := congrArg evidence h
  exact this

theorem upsertDesiredUserTx_apart {user : DesiredUser}
    (hok : upsertDesiredUserTx user s = .ok s') : s'.apart = s.apart := by
  obtain rfl | ⟨row, -, -, rfl⟩ := upsertDesiredUserTx_eq_ok hok <;> rfl

theorem applyDesiredUsers_apart {users : List DesiredUser}
    (hok : applyDesiredUsers users s = .ok s') : s'.apart = s.apart := by
  obtain ⟨s₁, hpark, hok⟩ := bind_eq_ok.1 hok
  have hparked : s₁.apart = s.apart := by
    unfold parkContestedEmailsTx at hpark
    obtain ⟨applying, -, hpark⟩ := bind_eq_ok.1 hpark
    cases hpark
    rfl
  exact foldlM_induct (I := fun t => t.apart = s.apart)
    (fun _ _ _ _ hc hstep => (upsertDesiredUserTx_apart hstep).trans hc) hparked hok

theorem recordTombstoneTx_apart (b : String) (r : Nat) (e : String) (s : Store) :
    (recordTombstoneTx b r e s).apart = s.apart := by
  unfold recordTombstoneTx
  split
  · rfl
  · split <;> rfl

theorem applyConfigSnapshot_apart {snapshot : ConfigSnapshot} {applied : Bool}
    (hok : applyConfigSnapshot snapshot s = .ok (applied, s')) : s'.apart = s.apart := by
  unfold applyConfigSnapshot at hok
  split at hok
  · cases hok
  obtain ⟨revision, -, hok⟩ := bind_eq_ok.1 hok
  split at hok
  · cases hok
    rfl
  · obtain ⟨s₁, hreplace, hok⟩ := bind_eq_ok.1 hok
    cases hok
    obtain ⟨s₂, happly, hreplace⟩ := bind_eq_ok.1 hreplace
    cases hreplace
    refine Eq.trans ?_ (applyDesiredUsers_apart happly)
    refine List.foldlRecOn (motive := fun t : Store => t.apart = s₂.apart) _ _ rfl ?_
    exact fun t ht p _ => (recordTombstoneTx_apart ..).trans ht

theorem applyTerminal_apart {b e : String} {r : Nat} {remove : Bool}
    (hok : applyTerminal b r e remove s = .ok s') : s'.apart = s.apart := by
  unfold applyTerminal at hok
  split at hok
  · cases hok
  · cases hok
    refine Eq.trans ?_ (recordTombstoneTx_apart b r e s)
    unfold retireRowTx
    split <;> rfl

theorem restoreBackendConfirmedUsers_apart {users : List DesiredUser}
    (hok : restoreBackendConfirmedUsers users s = .ok s') : s'.apart = s.apart := by
  refine foldlM_induct (I := fun t => t.apart = s.apart) ?_ rfl hok
  intro c user c' _ hc hstep
  unfold restoreUserTx at hstep
  split at hstep
  · cases hstep
    exact hc
  · obtain ⟨backend, -, hstep⟩ := bind_eq_ok.1 hstep
    cases hstep
    exact hc

theorem recoverParkedRow_apart (b : String) (s : Store) :
    (recoverParkedRow b s).apart = s.apart := by
  unfold recoverParkedRow
  repeat' first | rfl | split

theorem backfillSnapshotRevision_apart (s : Store) :
    s.backfillSnapshotRevision.apart = s.apart := by
  unfold backfillSnapshotRevision
  split <;> rfl

theorem recordSample_evidence (s : Store) (counters : List AbsoluteCounter) (sampledAt : Nat)
    (online : Bool) : (s.recordSample counters sampledAt online).2.evidence = s.evidence :=
  recordSample_induct (I := fun t => t.evidence = s.evidence) (fun _ _ _ h => h)
    (fun _ _ _ _ _ _ _ h => h) counters sampledAt online rfl

theorem initializeBoot_evidence (bootId : String) (s : Store) :
    (initializeBoot bootId s).evidence = s.evidence := by
  unfold initializeBoot
  split <;> rfl

end Store

/-! ## Statements about the evidence -/

/-- The statement reads only the evidence and the accounts of Xray. -/
def EvidenceInv (Ev : World → Prop) : Prop :=
  ∀ w w' : World, w'.store.evidence = w.store.evidence → w'.xray.accounts = w.xray.accounts →
    Ev w → Ev w'

theorem EvidenceInv.keeps_transact {Ev : World → Prop} (h : EvidenceInv Ev)
    {f : Store → Except Failure Store} (hf : ∀ s s', f s = .ok s' → s'.evidence = s.evidence) :
    Keeps Ev (transact f) := by
  refine Keeps.atomic fun w a w' hw hrun => ?_
  obtain ⟨s', hok, heq⟩ := map_eq_ok.1 hrun
  cases heq
  exact h w _ (hf _ _ hok) rfl hw

theorem EvidenceInv.keeps_write {Ev : World → Prop} (h : EvidenceInv Ev) {f : Store → Store}
    (hf : ∀ s, (f s).evidence = s.evidence) : Keeps Ev (write f) :=
  h.keeps_transact fun s s' hok => by
    cases hok
    exact hf s

/-- Every row carries a good identity. -/
def GoodRows (good : String → Prop) (w : World) : Prop :=
  w.store.AllRows fun _ row => good row.uuid

variable {good : String → Prop} {Ev : World → Prop} {w : World} {deps : Deps}

namespace GoodRows

theorem coarse : Store.Coarse fun _ row => good row.uuid := by
  intro b row row' _ huuid h
  rw [huuid]
  exact h

theorem admits {user : DesiredUser} (h : good user.uuid) :
    Store.Admits (fun _ row => good row.uuid) user := by
  intro row _ huuid
  rw [huuid]
  exact h

theorem recordInv : RecordInv (GoodRows good) :=
  fun _ _ hrecords _ h => Store.AllRows.of_rows_eq h (Store.rows_of_records hrecords)

theorem installStable {user : DesiredUser} : InstallStable (GoodRows good) user :=
  fun _ _ hrecords _ h => Store.AllRows.of_rows_eq h (Store.rows_of_records hrecords)

theorem keeps_transact {f : Store → Except Failure Store}
    (hf : ∀ s s', s.AllRows (fun _ row => good row.uuid) → f s = .ok s' →
      s'.AllRows fun _ row => good row.uuid) : Keeps (GoodRows good) (transact f) := by
  refine Keeps.atomic fun w a w' hw hrun => ?_
  obtain ⟨s', hok, heq⟩ := map_eq_ok.1 hrun
  cases heq
  exact hf _ _ hw hok

theorem good_of_mem (h : GoodRows good w) {user : DesiredUser}
    (hu : user ∈ w.store.listDesiredUsers) : good user.uuid := by
  obtain ⟨row, hlookup, hdesired⟩ := Store.row_of_mem_listDesiredUsers hu
  rw [(Store.desired_eq_some hdesired).2.2.1]
  exact h _ row hlookup

theorem keeps_reconcile {users : List DesiredUser} (husers : ∀ user ∈ users, good user.uuid) :
    Keeps (GoodRows good) (Processor.reconcile deps users) :=
  recordInv.reconcile_keeps (fun _ _ _ => installStable)
    (keeps_transact fun _ _ hs hok =>
      hs.applyDesiredUsers coarse (fun user hu => admits (husers user hu)) hok)

theorem merged {users merged : List DesiredUser} {revision : Decimal} (h : GoodRows good w)
    (husers : ∀ user ∈ users, good user.uuid)
    (hmerged : Processor.mergeNewerBindings users revision w.store = .ok merged) :
    ∀ user ∈ merged, good user.uuid := by
  intro user hu
  rcases Processor.mem_mergeNewerBindings hmerged hu with ⟨hstored, -⟩ | ⟨hlisted, -⟩
  · exact h.good_of_mem hstored
  · exact husers user hlisted

end GoodRows

/-! ## The operations that move evidence -/

/-- What a statement about the evidence needs to survive every step of the agent. -/
structure Upheld (deps : Deps) (good : String → Prop) (Ev : World → Prop) : Prop where
  frame : EvidenceInv Ev
  reconcile : ∀ users, (∀ user ∈ users, good user.uuid) → Keeps Ev (Processor.reconcile deps users)
  remember : ∀ users, Keeps Ev (Processor.rememberDroppedOwnership users)
  exhausted : ∀ emails, Keeps Ev (Processor.uninstallExhausted emails)
  install : ∀ stored user, good user.uuid → Processor.Valid user →
    Keeps Ev (Processor.installOver deps stored user)
  terminal : ∀ payload target remove, Keeps Ev (Processor.terminalUser deps payload target remove)

namespace Processor

/-- Users that pass `distinctBindings` are valid. -/
theorem distinctFrom_valid {seen users : List DesiredUser} (h : distinctFrom seen users = .ok ()) :
    ∀ user ∈ users, Valid user := by
  induction users generalizing seen with
  | nil => exact fun _ hu => by cases hu
  | cons user users ih =>
    unfold distinctFrom at h
    obtain ⟨_, hvalid, h⟩ := bind_eq_ok.1 h
    by_cases hbinding : seen.any (·.bindingId = user.bindingId) = true
    · simp [hbinding] at h
    by_cases hemail : seen.any (·.email = user.email) = true
    · simp [hbinding, hemail] at h
    have hrest : distinctFrom (user :: seen) users = .ok () := by
      simpa [hbinding, hemail] using h
    intro other hother
    rcases List.mem_cons.1 hother with rfl | hother
    · exact validateUser_eq_ok hvalid
    · exact ih hrest other hother

theorem distinctBindings_valid {users : List DesiredUser} (h : distinctBindings users = .ok ()) :
    ∀ user ∈ users, Valid user := distinctFrom_valid h

/-- The identities a command carries are good. -/
structure Carries (good : String → Prop) (command : Command) : Prop where
  own : command.payload.uuid ≠ "" → good command.payload.uuid
  listed : ∀ payloads payload, command.payload.users = .items payloads →
    some payload ∈ payloads → payload.uuid ≠ "" → good payload.uuid

theorem parseDesiredUser_uuid_ne {payload : UserPayload} {revision : Decimal} {user : DesiredUser}
    (h : parseDesiredUser payload revision = .ok user) : payload.uuid ≠ "" := by
  obtain ⟨bindingId, -, h⟩ := bind_eq_ok.1 h
  obtain ⟨email, -, h⟩ := bind_eq_ok.1 h
  obtain ⟨uuid, huuid, -⟩ := bind_eq_ok.1 h
  rintro hempty
  simp [stringField, hempty] at huuid

theorem resolveUser_good {command : Command} (hcommand : Carries good command)
    {stored : Option DesiredUser} (hstored : ∀ user, stored = some user → good user.uuid)
    {user : DesiredUser} (h : resolveUser command stored = .ok user) : good user.uuid := by
  cases stored with
  | none =>
    rw [(parseDesiredUser_eq_ok h).2.2]
    exact hcommand.own (parseDesiredUser_uuid_ne h)
  | some previous =>
    obtain ⟨flow, -, h⟩ := bind_eq_ok.1 h
    cases h
    dsimp only
    split
    · next hne => exact hcommand.own hne
    · exact hstored previous rfl

/-- What `findStored` finds is stored. -/
theorem findStored_mem {payload : UserPayload} {s : Store} {user : DesiredUser}
    (h : findStored payload s = .ok (some user)) : user ∈ s.listDesiredUsers := by
  unfold findStored at h
  dsimp only at h
  split at h
  · cases h
  split at h
  · exact List.mem_of_find?_eq_some (Except.ok.inj h)
  · split at h
    · exact List.mem_of_find?_eq_some (Except.ok.inj h)
    · split at h
      · cases h
      · exact List.mem_of_find?_eq_some (Except.ok.inj h)

theorem planEnsure_good {command : Command} (hcommand : Carries good command)
    (hw : GoodRows good w) {stored : Option DesiredUser} {user : DesiredUser}
    (h : planEnsure command w.store = .ok (some (stored, user))) :
    good user.uuid ∧ Valid user := by
  obtain ⟨stored', hstored, h⟩ := bind_eq_ok.1 h
  obtain ⟨superseded, -, h⟩ := bind_eq_ok.1 h
  cases superseded with
  | true => cases h
  | false =>
    obtain ⟨user', huser, h⟩ := bind_eq_ok.1 h
    obtain ⟨_, hvalid, h⟩ := bind_eq_ok.1 h
    cases h
    refine ⟨?_, validateUser_eq_ok hvalid⟩
    have hprevious : ∀ previous, stored = some previous → good previous.uuid :=
      fun previous hprevious => hw.good_of_mem (findStored_mem (hprevious ▸ hstored))
    have hgood : good user'.uuid := resolveUser_good hcommand hprevious huser
    exact hgood

theorem planReconcile_good {command : Command} (hcommand : Carries good command)
    (hw : GoodRows good w) {users : List DesiredUser} {mode : ControlMode}
    (h : planReconcile command w.store = .ok (users, mode)) : ∀ user ∈ users, good user.uuid := by
  obtain ⟨listed, merged, hlisted, -, hmerged, -, rfl⟩ := planReconcile_eq_ok h
  have hgood : ∀ user ∈ listed, good user.uuid := by
    intro user hu
    unfold reconcileUsers at hlisted
    split at hlisted
    · cases hlisted
      exact hw.good_of_mem hu
    · cases hlisted
    · next payloads hpayloads =>
      obtain ⟨payload, hmem, hparse⟩ := parseDesiredUsers_mem hlisted hu
      rw [(parseDesiredUser_eq_ok hparse).2.2]
      exact hcommand.listed payloads payload hpayloads hmem (parseDesiredUser_uuid_ne hparse)
  have hmergedGood := hw.merged hgood hmerged
  split
  · exact hmergedGood
  · intro user hu
    obtain ⟨original, horiginal, rfl⟩ := List.mem_map.1 hu
    rcases keepLocalCutoff_eq w.store original with heq | ⟨hstored, -, -⟩
    · rw [heq]
      exact hmergedGood original horiginal
    · exact hw.good_of_mem hstored

/-- The users of a prepared snapshot are good when those of the snapshot are. -/
theorem prepareSnapshot_good {snapshot prepared : ConfigSnapshot} (hw : GoodRows good w)
    (husers : ∀ user ∈ snapshot.users, user.uuid ≠ "" → good user.uuid)
    (h : prepareSnapshot snapshot w.store = .ok prepared) :
    ∀ user ∈ prepared.users, good user.uuid := by
  have hmerged := prepareSnapshot_users h
  obtain ⟨_, -, h⟩ := bind_eq_ok.1 h
  obtain ⟨_, -, h⟩ := bind_eq_ok.1 h
  obtain ⟨_, hdistinct, -⟩ := bind_eq_ok.1 h
  exact hw.merged (fun user hu => husers user hu (distinctBindings_valid hdistinct user hu).uuid)
    hmerged

end Processor

namespace Upheld

variable (hI : Upheld deps good Ev)
include hI

/-! ### The processor -/

theorem keeps_reconcile {users : List DesiredUser} (husers : ∀ user ∈ users, good user.uuid) :
    Keeps (fun w => GoodRows good w ∧ Ev w) (Processor.reconcile deps users) :=
  (GoodRows.keeps_reconcile husers).and (hI.reconcile users husers)

theorem keeps_reconcileOrRemember {mode : ControlMode} {users : List DesiredUser}
    (husers : ∀ user ∈ users, good user.uuid) :
    Keeps (fun w => GoodRows good w ∧ Ev w) (Processor.reconcileOrRemember deps mode users) :=
  Keeps.ite (fun _ => hI.keeps_reconcile husers) fun _ =>
    GoodRows.recordInv.keeps_rememberDroppedOwnership.and (hI.remember users)

theorem keeps_storeSnapshot {snapshot : ConfigSnapshot}
    (husers : ∀ user ∈ snapshot.users, good user.uuid) :
    Keeps (fun w => GoodRows good w ∧ Ev w) (Processor.storeSnapshot snapshot) := by
  refine Keeps.atomic fun w applied w' hw hrun => ?_
  obtain ⟨⟨applied', s'⟩, hok, heq⟩ := bind_eq_ok.1 hrun
  cases heq
  refine ⟨?_, hI.frame w _ (Store.evidence_of_apart (Store.applyConfigSnapshot_apart hok)) rfl hw.2⟩
  exact Store.AllRows.applyConfigSnapshot hw.1 GoodRows.coarse
    (fun user hu => GoodRows.admits (husers user hu)) hok

theorem keeps_applySnapshot {snapshot : ConfigSnapshot}
    (husers : ∀ user ∈ snapshot.users, user.uuid ≠ "" → good user.uuid) :
    Keeps (fun w => GoodRows good w ∧ Ev w) (Processor.applySnapshot deps snapshot) := by
  refine Triple.bindPeek fun w₀ hw₀ => ?_
  refine Triple.pre (P := fun w => GoodRows good w ∧ Ev w) ?_ fun w hw => hw ▸ hw₀
  refine Triple.bindLift (fun _ hw => hw) fun prepared hprepared => ?_
  have hgood := Processor.prepareSnapshot_good hw₀.1 husers hprepared
  refine Keeps.bind Keeps.peek fun current => Keeps.bind Keeps.liftExcept fun older => ?_
  refine Keeps.ite (fun _ => Keeps.pure) fun _ => ?_
  refine Keeps.bind (hI.keeps_reconcileOrRemember hgood) fun _ => ?_
  exact Keeps.bind (hI.keeps_storeSnapshot hgood) fun _ => Keeps.pure

theorem keeps_ensureUser {command : Command} (hcommand : Processor.Carries good command) :
    Keeps (fun w => GoodRows good w ∧ Ev w) (Processor.ensureUser deps command) := by
  refine Triple.bindPeek fun w₀ hw₀ => ?_
  refine Triple.pre (P := fun w => GoodRows good w ∧ Ev w) ?_ fun w hw => hw ▸ hw₀
  refine Triple.bindLift (fun _ hw => hw) fun plan hplan => ?_
  cases plan with
  | none => exact Keeps.pure
  | some found =>
    obtain ⟨hgood, hvalid⟩ := Processor.planEnsure_good hcommand hw₀.1 hplan
    refine Keeps.and ?_ (hI.install found.1 found.2 hgood hvalid)
    have hrows : RecordInv (GoodRows good) := GoodRows.recordInv
    refine Keeps.bind hrows.keeps_preflightCollision fun expect => ?_
    refine Keeps.bind hrows.keeps_releaseStored fun _ => ?_
    refine Keeps.bind (GoodRows.keeps_transact fun _ _ hs hok =>
      hs.upsert (GoodRows.admits hgood) hok) fun _ => ?_
    refine Keeps.bind (GoodRows.keeps_transact fun s s' hs hok => ?_) fun _ => ?_
    · cases hok
      exact hs
    refine Keeps.bind hrows.keeps_recordProvisionIntent fun _ => ?_
    refine Keeps.bind (hrows.keeps_ensureUser GoodRows.installStable) fun _ => ?_
    exact Keeps.bind hrows.keeps_recordProvisioned fun _ => hrows.keeps_clearPendingRemoval

theorem keeps_terminalUser {payload : UserPayload} {target : Nat} {remove : Bool} :
    Keeps (fun w => GoodRows good w ∧ Ev w)
      (Processor.terminalUser deps payload target remove) := by
  refine Keeps.and ?_ (hI.terminal payload target remove)
  have hrows : RecordInv (GoodRows good) := GoodRows.recordInv
  have hterminal : ∀ b e, Keeps (GoodRows good)
      (transact (Store.applyTerminal b target e remove)) :=
    fun b e => GoodRows.keeps_transact fun _ _ hs hok => hs.applyTerminal GoodRows.coarse hok
  refine Keeps.bind Keeps.peek fun plan => Keeps.bind Keeps.liftExcept fun plan => ?_
  split
  · exact Keeps.pure
  · exact hterminal _ _
  · refine Keeps.bind hrows.keeps_uninstallOwned fun _ => ?_
    split
    · refine Keeps.bind hrows.keeps_forgetProvisioned fun _ => ?_
      refine Keeps.bind hrows.keeps_clearPendingRemoval fun _ => ?_
      exact Keeps.ite (fun _ => Keeps.pure) fun _ => hterminal _ _
    · exact Keeps.ite (fun _ => Keeps.pure) fun _ => hterminal _ _

theorem keeps_reconcileCommand {command : Command} (hcommand : Processor.Carries good command) :
    Keeps (fun w => GoodRows good w ∧ Ev w) (Processor.reconcileCommand deps command) := by
  refine Triple.bindPeek fun w₀ hw₀ => ?_
  refine Triple.pre (P := fun w => GoodRows good w ∧ Ev w) ?_ fun w hw => hw ▸ hw₀
  refine Triple.bindLift (fun _ hw => hw) fun plan hplan => ?_
  have hgood := Processor.planReconcile_good hcommand hw₀.1 hplan
  refine Keeps.bind Keeps.peek fun nodeId => ?_
  refine Keeps.bind (hI.keeps_reconcileOrRemember hgood) fun _ => ?_
  exact Keeps.bind (hI.keeps_storeSnapshot hgood) fun _ => Keeps.pure

/-- A write that touches neither the evidence nor an identity. -/
theorem keeps_write {f : Store → Store} (hevidence : ∀ s, (f s).evidence = s.evidence)
    (hrows : ∀ s, s.AllRows (fun _ row => good row.uuid) →
      (f s).AllRows fun _ row => good row.uuid) :
    Keeps (fun w => GoodRows good w ∧ Ev w) (write f) := by
  refine Keeps.and (GoodRows.keeps_transact fun s s' hs hok => ?_) (hI.frame.keeps_write hevidence)
  cases hok
  exact hrows s hs

theorem keeps_apply {command : Command} (hcommand : Processor.Carries good command) {target : Nat}
    {writable : Bool} :
    Keeps (fun w => GoodRows good w ∧ Ev w) (Processor.apply deps command target writable) := by
  refine Keeps.bind Keeps.peek fun ready => Keeps.bind Keeps.ensure fun _ => ?_
  refine Keeps.bind Keeps.ensure fun _ => ?_
  split
  · exact hI.keeps_ensureUser hcommand
  · exact hI.keeps_ensureUser hcommand
  · exact hI.keeps_terminalUser
  · exact hI.keeps_terminalUser
  · exact hI.keeps_reconcileCommand hcommand
  · refine Keeps.bind Keeps.liftExcept fun bindingId => ?_
    split
    · exact Keeps.fail
    · refine Keeps.bind Keeps.liftExcept fun quota => hI.keeps_write (fun _ => rfl) fun s hs => ?_
      exact hs.updateQuota GoodRows.coarse _ _ _
  · refine Keeps.ite (fun _ => Keeps.atomic fun w a w' hw hrun => ?_) fun _ => Keeps.fail
    cases hrun
    exact hw
  · exact Keeps.fail

theorem keeps_execute {command : Command} (hcommand : Processor.Carries good command)
    {writable : Bool} :
    Keeps (fun w => GoodRows good w ∧ Ev w) (Processor.execute deps command writable) := by
  have hwrite : ∀ f : Store → Store, (∀ s, (f s).evidence = s.evidence) →
      (∀ s, (f s).rows = s.rows) → Keeps (fun w => GoodRows good w ∧ Ev w) (write f) :=
    fun f hevidence hrows => hI.keeps_write hevidence fun s hs => hs.of_rows_eq (hrows s)
  refine Keeps.bind Keeps.liftExcept fun target => Keeps.bind Keeps.peek fun previous => ?_
  cases previous with
  | some outcome => exact Keeps.pure
  | none =>
    refine Keeps.bind (hwrite _ (fun _ => rfl) fun _ => rfl) fun _ => ?_
    refine Keeps.bind (Keeps.attempt (hI.keeps_apply hcommand)) fun applied => ?_
    refine Keeps.bind ?_ fun outcome =>
      Keeps.bind (hwrite _ (fun _ => rfl) fun _ => rfl) fun _ => Keeps.pure
    cases applied with
    | error e => exact Keeps.pure
    | ok _ =>
      exact Keeps.bind (hwrite _ (fun _ => rfl) fun _ => rfl) fun _ =>
        Keeps.bind Keeps.peek fun _ => Keeps.pure

/-! ### The runner -/

theorem quiet : Quiet deps fun w => GoodRows good w ∧ Ev w where
  volatile := fun w _ hw => ⟨hw.1, hI.frame w _ rfl rfl hw.2⟩
  stored := by
    intro users
    refine Triple.atWorld fun w₀ hw₀ => ?_
    have hgood : ∀ user ∈ users, good user.uuid :=
      fun user hu => hw₀.1.1.good_of_mem (hw₀.2 ▸ hu)
    exact (hI.keeps_reconcile hgood).pre fun w hw => hw ▸ hw₀.1
  exhausted := fun emails =>
    GoodRows.recordInv.keeps_uninstallExhausted.and (hI.exhausted emails)
  recordSample := fun w counters sampledAt online hw =>
    ⟨Store.AllRows.recordSample hw.1 GoodRows.coarse counters sampledAt online,
      hI.frame w _ (Store.recordSample_evidence ..) rfl hw.2⟩
  ackThrough := fun w _ _ hw => ⟨hw.1, hI.frame w _ rfl rfl hw.2⟩
  backfill := fun w hw =>
    ⟨Store.AllRows.of_rows_eq hw.1 (Store.backfillSnapshotRevision_rows w.store),
      hI.frame w _ (Store.evidence_of_apart (Store.backfillSnapshotRevision_apart w.store))
      rfl hw.2⟩
  recoverRow := fun w b hw =>
    ⟨Store.AllRows.recoverParkedRow hw.1 GoodRows.coarse b,
      hI.frame w _ (Store.evidence_of_apart (Store.recoverParkedRow_apart b w.store)) rfl hw.2⟩
  initializeBoot := fun w bootId hw =>
    ⟨Store.AllRows.of_rows_eq hw.1 (Store.initializeBoot_rows bootId w.store),
      hI.frame w _ (Store.initializeBoot_evidence bootId w.store) rfl hw.2⟩

theorem keeps_runner_execute {reading : Reading} {command : Command}
    (hcommand : Processor.Carries good command) :
    Keeps (fun w => GoodRows good w ∧ Ev w) (Runner.execute deps reading command) := by
  refine Keeps.bind hI.quiet.keeps_update fun _ => Keeps.bind Keeps.peek fun previous => ?_
  have hafter : ∀ writable metered, Keeps (fun w => GoodRows good w ∧ Ev w)
      (Runner.afterSample deps command writable metered) := by
    intro writable metered
    cases metered with
    | error e => exact Keeps.pure
    | ok _ =>
      exact Keeps.bind (hI.keeps_execute hcommand) fun _ =>
        Keeps.bind hI.quiet.keeps_syncCurrent fun _ => Keeps.pure
  cases previous with
  | some outcome => exact Keeps.pure
  | none =>
    refine Keeps.bind Keeps.peek fun mode => Keeps.bind Keeps.peek fun reconfigures => ?_
    cases reconfigures with
    | error e => exact Keeps.pure
    | ok reconfigures =>
      dsimp only
      split
      · exact Keeps.bind (Keeps.attempt hI.quiet.sample_keeps) (hafter _)
      · exact Keeps.bind Keeps.pure (hafter _)

theorem keeps_applyRefreshed {reading : Reading} {snapshot : ConfigSnapshot}
    (husers : ∀ user ∈ snapshot.users, user.uuid ≠ "" → good user.uuid) :
    Keeps (fun w => GoodRows good w ∧ Ev w) (Runner.applyRefreshed deps reading snapshot) := by
  refine Keeps.bind Keeps.peek fun current => Triple.bindPeek fun w₀ hw₀ => ?_
  refine Triple.pre (P := fun w => GoodRows good w ∧ Ev w) ?_ fun w hw => hw ▸ hw₀
  refine Triple.bindLift (fun _ hw => hw) fun prepared hprepared => ?_
  have hgood := Processor.prepareSnapshot_good hw₀.1 husers hprepared
  have hrefreshed : Triple (fun w => GoodRows good w ∧ Ev w)
      (Runner.refreshedUsers snapshot prepared)
      (fun result w => (∀ user ∈ result.users, good user.uuid) ∧ GoodRows good w ∧ Ev w)
      fun w => GoodRows good w ∧ Ev w := by
    refine Triple.afterPeek fun preserve => Triple.ite (fun _ => ?_) fun _ => ?_
    · refine Triple.bindPeek fun w₁ hw₁ => Triple.pure fun w hw => ⟨?_, hw ▸ hw₁⟩
      intro user hu
      obtain ⟨original, horiginal, rfl⟩ := List.mem_map.1 hu
      cases hfind : w₁.store.listDesiredUsers.find? fun held =>
          !held.enabled && held.bindingId = original.bindingId with
      | none => exact hgood original horiginal
      | some held => exact hw₁.1.good_of_mem (List.mem_of_find?_eq_some hfind)
    · refine Triple.bind (S := fun _ w => GoodRows good w ∧ Ev w) ?_ fun _ =>
        Triple.bindPeek fun w₁ hw₁ => ?_
      · refine Keeps.and (GoodRows.keeps_transact fun s s' hs hok => ?_)
          (hI.frame.keeps_transact fun s s' hok => ?_)
        · obtain ⟨recovered, -, hok⟩ := bind_eq_ok.1 hok
          exact hs.restore (fun _ _ _ _ huuid h => huuid ▸ h) hok
        · obtain ⟨recovered, -, hok⟩ := bind_eq_ok.1 hok
          exact Store.evidence_of_apart (Store.restoreBackendConfirmedUsers_apart hok)
      · refine Triple.post (Triple.liftExcept (P := fun w => w = w₁) fun w hw => hw ▸ hw₁) ?_
        rintro again w ⟨hagain, rfl⟩
        exact ⟨Processor.prepareSnapshot_good hw₁.1 husers hagain, hw₁⟩
  have hrest : Keeps (fun w => GoodRows good w ∧ Ev w) (do
      let prepared ← Runner.refreshedUsers snapshot prepared
      Processor.applySnapshot deps prepared
      Runner.syncCurrent) := by
    refine Triple.bind hrefreshed fun result => Triple.lift fun hresult => ?_
    exact Keeps.bind (hI.keeps_applySnapshot fun user hu _ => hresult user hu)
      fun _ => hI.quiet.keeps_syncCurrent
  refine Keeps.bind Keeps.liftExcept fun older => ?_
  refine Keeps.ite (fun _ => hI.quiet.keeps_syncCurrent) fun _ => ?_
  split
  · exact Keeps.bind hI.quiet.sample_keeps fun _ => hrest
  · exact hrest

theorem keeps_refreshConfig {reading : Reading} {epoch : Nat} {response : Option ConfigSnapshot}
    (hresponse : ∀ snapshot, response = some snapshot →
      ∀ user ∈ snapshot.users, user.uuid ≠ "" → good user.uuid) :
    Keeps (fun w => GoodRows good w ∧ Ev w)
      (Runner.refreshConfig deps reading epoch response) := by
  cases response with
  | none => exact hI.quiet.keeps_refreshConfig_none
  | some snapshot =>
    refine Keeps.bind hI.quiet.keeps_update fun _ => Keeps.bind (hI.quiet.keeps_noting ?_)
      fun _ => hI.quiet.keeps_update
    refine Keeps.bind Keeps.peek fun now => Keeps.bind Keeps.ensure fun _ => ?_
    exact hI.keeps_applyRefreshed (hresponse snapshot rfl)

end Upheld

/-- The identities of the instructions of a step are good. -/
def Label.Carries (good : String → Prop) : Label → Prop
  | .command c _ => Processor.Carries good c
  | .refresh _ response _ => ∀ snapshot, response = some snapshot →
      ∀ user ∈ snapshot.users, user.uuid ≠ "" → good user.uuid
  | .start _ response _ => ∀ snapshot, response = some snapshot →
      ∀ user ∈ snapshot.users, user.uuid ≠ "" → good user.uuid
  | _ => True

/-- The rule of one step of the node: the agent keeps the statement if the outside does. -/
theorem Upheld.step_keeps (hI : Upheld deps good Ev) (hw : GoodRows good w ∧ Ev w) (step : Step)
    (hstep : step.1.Carries good)
    (houtside : step.1.outside = true → Ev (World.step deps w step)) :
    GoodRows good (World.step deps w step) ∧ Ev (World.step deps w step) := by
  by_cases hquiet : step.1.quiet = true
  · refine hI.quiet.step_keeps hw step hquiet fun hout => ⟨?_, houtside hout⟩
    exact GoodRows.recordInv.step_outside hw.1 step hout
  obtain ⟨label, fates⟩ := step
  cases label with
  | command command reading =>
    exact World.ifAlive_keeps (I := fun w => GoodRows good w ∧ Ev w) hw
      (World.operate_keeps (hI.keeps_runner_execute hstep) hI.quiet.volatile fates hw)
  | refresh epoch response reading =>
    exact World.ifAlive_keeps (I := fun w => GoodRows good w ∧ Ev w) hw
      (World.operate_keeps (hI.keeps_refreshConfig hstep) hI.quiet.volatile fates hw)
  | start epoch response reading =>
    exact World.ifAlive_keeps (I := fun w => GoodRows good w ∧ Ev w) hw
      (World.operate_keeps (hI.quiet.keeps_start (hI.keeps_refreshConfig hstep))
        hI.quiet.volatile fates hw)
  | _ => exact absurd rfl hquiet

end ChordV.Agent
