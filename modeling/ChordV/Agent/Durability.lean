import ChordV.Agent.Revocation
import ChordV.Agent.QuietRuns

/-!
# What a completed reconciliation leaves behind

`RECONCILE_USERS` is measured against the snapshot revision, and the transaction that
persists it against the configuration revision.  Every completed command raises the
second one.  So a reconciliation that is not older than the last snapshot can be older
than the configuration, and then it changes Xray, persists nothing, and still reports
that it completed.

* `reconcileCommand_durable` is the two cases: when the stored configuration revision
  does not exceed the revision of the command, the snapshot revision, the mode and the
  omitted bindings are what the command says, and otherwise they are what they were.
* `Gone b installed` is what an omitted binding leaves behind, and it survives every
  quiet step.
* `reconcile_is_durable_iff` puts the two together, and `delayed_reconcile_is_lost` is a
  run of the bad case.
-/

namespace ChordV.Agent

open Lib Fallible

variable {b : String} {installed : List XrayEvent} {w : World} {deps : Deps}

/-! ## Dropping the omitted rows -/

namespace Store

variable {s s' : Store}

/-- The identity of the node and the `meta_v2` table agree. -/
structure SameMeta (s₀ s : Store) : Prop where
  nodeId : s.nodeId = s₀.nodeId
  configRevision : s.configRevision = s₀.configRevision
  snapshotRevision : s.snapshotRevision = s₀.snapshotRevision
  controlMode : s.controlMode = s₀.controlMode

theorem SameMeta.of_records {s₀ : Store} (h : SameMeta s₀ s) (hrecords : s'.records = s.records) :
    SameMeta s₀ s' where
  nodeId := (congrArg (·.nodeId) hrecords : s'.nodeId = s.nodeId).trans h.nodeId
  configRevision :=
    (congrArg (·.configRevision) hrecords : s'.configRevision = s.configRevision).trans
      h.configRevision
  snapshotRevision :=
    (congrArg (·.snapshotRevision) hrecords : s'.snapshotRevision = s.snapshotRevision).trans
      h.snapshotRevision
  controlMode :=
    (congrArg (·.controlMode) hrecords : s'.controlMode = s.controlMode).trans h.controlMode

theorem SameMeta.applyDesiredUsers {s₀ : Store} (h : SameMeta s₀ s) {users : List DesiredUser}
    (hok : Store.applyDesiredUsers users s = .ok s') : SameMeta s₀ s' := by
  obtain ⟨s₁, hpark, hok⟩ := bind_eq_ok.1 hok
  have hparked : SameMeta s₀ s₁ := by
    unfold parkContestedEmailsTx at hpark
    obtain ⟨applying, -, hpark⟩ := bind_eq_ok.1 hpark
    cases hpark
    exact ⟨h.nodeId, h.configRevision, h.snapshotRevision, h.controlMode⟩
  refine foldlM_induct (I := SameMeta s₀) ?_ hparked hok
  intro c user c' _ hc hstep
  obtain rfl | ⟨row, -, -, rfl⟩ := upsertDesiredUserTx_eq_ok hstep
  · exact hc
  · exact ⟨hc.nodeId, hc.configRevision, hc.snapshotRevision, hc.controlMode⟩

/-- The hand-over of a list leaves every row in place, possibly parked. -/
theorem isSome_lookup_applyDesiredUsers {users : List DesiredUser}
    (hok : applyDesiredUsers users s = .ok s') (hrow : (s.rows.lookup b).isSome) :
    (s'.rows.lookup b).isSome := by
  obtain ⟨s₁, hpark, hok⟩ := bind_eq_ok.1 hok
  have hparked : (s₁.rows.lookup b).isSome := by
    rcases lookup_parkContested hpark b with heq | heq <;> rw [heq] <;> simpa using hrow
  refine foldlM_induct (I := fun t => (t.rows.lookup b).isSome) ?_ hparked hok
  intro c user c' _ hc hstep
  obtain rfl | ⟨row, -, -, rfl⟩ := upsertDesiredUserTx_eq_ok hstep
  · exact hc
  · rw [Table.lookup_insert_ite]
    split
    · rfl
    · exact hc

/-- After the omitted rows were dropped, a dropped binding has no row and a tombstone at
the revision. -/
theorem dropOmitted_spec (revision : Nat) (ps : List (String × UserRow)) {row : UserRow}
    (hmem : (b, row) ∈ ps) :
    (ps.foldl (dropOmittedTx revision) s).rows.lookup b = none ∧
      revision ≤ (ps.foldl (dropOmittedTx revision) s).bindingTombstone b := by
  induction ps generalizing s with
  | nil => cases hmem
  | cons p ps ih =>
    rw [List.foldl_cons]
    by_cases hlater : (b, row) ∈ ps
    · exact ih hlater
    · obtain rfl : (b, row) = p := (List.mem_cons.1 hmem).resolve_right hlater
      refine ⟨?_, ?_⟩
      · -- A dropped row does not come back.
        have hgone : AllRows (fun b' _ => b' ≠ b) (dropOmittedTx revision s (b, row)) := by
          rintro b' row' hlookup rfl
          simp [dropOmittedTx] at hlookup
        cases hend : (ps.foldl (dropOmittedTx revision)
            (dropOmittedTx revision s (b, row))).rows.lookup b with
        | none => rfl
        | some row' => exact absurd rfl (hgone.dropOmitted revision ps b row' hend)
      · refine Nat.le_trans ?_ (le_bindingTombstone_dropOmitted _ revision ps b)
        change revision ≤ (recordTombstoneTx b revision _ s).bindingTombstone b
        rw [bindingTombstone_recordTombstoneTx, if_pos rfl]
        exact Nat.le_max_right _ _

/-- A snapshot that is not older than the configuration is persisted as a whole. -/
theorem applyConfigSnapshot_spec {snapshot : ConfigSnapshot} {revision : Nat} {applied : Bool}
    (hrevision : snapshot.revision = some revision) (hconfig : s.configRevision ≤ revision)
    (hok : applyConfigSnapshot snapshot s = .ok (applied, s')) :
    s'.snapshotRevision = some revision ∧ s'.controlMode = snapshot.controlMode ∧
      ∀ b, omittedBy snapshot.users b = true → (s.rows.lookup b).isSome →
        s'.rows.lookup b = none ∧ revision ≤ s'.bindingTombstone b := by
  unfold applyConfigSnapshot at hok
  split at hok
  · cases hok
  obtain ⟨revision', hparse, hok⟩ := bind_eq_ok.1 hok
  obtain rfl : revision = revision' := by simpa [hrevision] using hparse
  split at hok
  · omega
  · obtain ⟨s₁, hreplace, hok⟩ := bind_eq_ok.1 hok
    cases hok
    obtain ⟨s₂, happly, hreplace⟩ := bind_eq_ok.1 hreplace
    cases hreplace
    refine ⟨rfl, rfl, fun b homitted hrow => ?_⟩
    obtain ⟨row, hlookup⟩ :=
      Option.isSome_iff_exists.1 (isSome_lookup_applyDesiredUsers happly hrow)
    exact dropOmitted_spec revision _
      (List.mem_filter.2 ⟨Table.mem_pairs.2 hlookup, homitted⟩)

/-- A snapshot that is older than the configuration is dropped in silence. -/
theorem applyConfigSnapshot_of_lt {snapshot : ConfigSnapshot} {revision : Nat}
    (hrevision : snapshot.revision = some revision) (hnode : snapshot.nodeId = s.nodeId)
    (hpassed : revision < s.configRevision) : applyConfigSnapshot snapshot s = .ok (false, s) := by
  simp [applyConfigSnapshot, hnode, hrevision, hpassed]

end Store

/-! ## A binding that is gone -/

/-- The binding has no row, and the log has the installs `installed` for it. -/
structure Gone (b : String) (installed : List XrayEvent) (w : World) : Prop where
  row : w.store.rows.lookup b = none
  installs : w.xray.installsFor b = installed

theorem gone_of_eq {w' : World} (h : Gone b installed w) (hrows : w'.store.rows = w.store.rows)
    (hinstalls : w'.xray.installs = w.xray.installs) : Gone b installed w' :=
  ⟨hrows ▸ h.row, by rw [Xray.installsFor, hinstalls]; exact h.installs⟩

/-- Rows that belong to another binding. -/
def OtherBinding (b : String) : String → UserRow → Prop := fun b' _ => b' ≠ b

theorem otherBinding_coarse : Store.Coarse (OtherBinding b) := fun _ _ _ _ _ h => h

theorem allRows_otherBinding {s : Store} : s.AllRows (OtherBinding b) ↔ s.rows.lookup b = none := by
  constructor
  · intro h
    cases hlookup : s.rows.lookup b with
    | none => rfl
    | some row => exact absurd rfl (h b row hlookup)
  · rintro h b' row hlookup rfl
    simp [h] at hlookup

theorem Gone.of_store {s : Store} (h : Gone b installed w) (hrows : s.AllRows (OtherBinding b)) :
    Gone b installed { w with store := s } :=
  ⟨allRows_otherBinding.1 hrows, h.installs⟩

/-- No sample brings the binding back. -/
theorem sampled_gone : Sampled (Gone b installed) where
  records := fun w w' hrecords hinstalls h =>
    gone_of_eq h (Store.rows_of_records hrecords) hinstalls
  installs := by
    rintro w h user hu - w₁ w₂ hrecords ⟨id, hadded⟩ h₁
    obtain ⟨row, hlookup, -⟩ := Store.row_of_mem_listDesiredUsers hu
    have hne : user.bindingId ≠ b := by
      rintro rfl
      simp [h.row] at hlookup
    exact ⟨Store.rows_of_records hrecords ▸ h₁.row,
      (Xray.installsFor_of_added hne hadded).trans h₁.installs⟩
  recordSample := fun w counters sampledAt online h =>
    h.of_store ((allRows_otherBinding.2 h.row).recordSample otherBinding_coarse counters sampledAt
      online)

/-- No quiet step brings the binding back. -/
theorem quiet_gone : Quiet deps (Gone b installed) where
  toRepairs := sampled_gone.repairs deps
  ackThrough := fun _ _ _ h => gone_of_eq h rfl rfl
  backfill := fun w h => gone_of_eq h (Store.backfillSnapshotRevision_rows w.store) rfl
  recoverRow := fun _ b' h =>
    h.of_store ((allRows_otherBinding.2 h.row).recoverParkedRow otherBinding_coarse b')
  initializeBoot := fun w bootId h => gone_of_eq h (Store.initializeBoot_rows bootId w.store) rfl

/-! ## The command -/

namespace Processor

/-- The binding has a row that is not newer than the target, and the command omits it. -/
def Omits (command : Command) (target : Nat) (s : Store) (b : String) : Prop :=
  ∃ listed row, reconcileUsers command s.configSnapshot = .ok listed ∧
    Store.omittedBy listed b = true ∧ s.rows.lookup b = some row ∧ row.revision ≤ target

/-- The users handed to the reconciliation do not name an omitted binding. -/
theorem planReconcile_omits {command : Command} {target : Nat} {s : Store}
    {users : List DesiredUser} {mode : ControlMode} (htarget : command.targetRevision = some target)
    (hplan : planReconcile command s = .ok (users, mode)) (hb : Omits command target s b) :
    Store.omittedBy users b = true := by
  obtain ⟨listed, row, hlisted, homitted, hlookup, hle⟩ := hb
  obtain ⟨listed', merged, hlisted', -, hmerged, -, rfl⟩ := planReconcile_eq_ok hplan
  obtain rfl : listed = listed' := by simpa [hlisted] using hlisted'
  have hnot : ∀ user ∈ listed, user.bindingId ≠ b := by
    intro user hu heq
    simp only [Store.omittedBy, Bool.not_eq_true', List.any_eq_false] at homitted
    exact homitted user hu (by simp [heq])
  have hmergedNot : ∀ user ∈ merged, user.bindingId ≠ b := by
    rintro user hu rfl
    rcases mem_mergeNewerBindings hmerged hu with ⟨hstored, hcarried | hnewer⟩ | ⟨hlistedUser, -⟩
    · obtain ⟨other, hother, heq⟩ := List.any_eq_true.1 hcarried
      exact hnot other hother (of_decide_eq_true heq)
    · -- A stored binding is kept only when its row is newer than the command.
      obtain ⟨row', hlookup', hdesired⟩ := Store.row_of_mem_listDesiredUsers hstored
      obtain rfl : row = row' := by simpa [hlookup] using hlookup'
      rw [htarget, (Store.desired_eq_some hdesired).2.2.2.2.2] at hnewer
      simp at hnewer
      omega
    · exact hnot user hlistedUser rfl
  have hall : ∀ user ∈ (if s.batches.isEmpty then merged else merged.map (keepLocalCutoff s)),
      user.bindingId ≠ b := by
    split
    · exact hmergedNot
    · intro user hu
      obtain ⟨original, horiginal, rfl⟩ := List.mem_map.1 hu
      rcases keepLocalCutoff_eq s original with heq | ⟨-, heq, -⟩
      · rw [heq]
        exact hmergedNot original horiginal
      · rw [heq]
        exact hmergedNot original horiginal
  simpa [Store.omittedBy] using hall

/-- What a completed reconciliation must leave in the store. -/
structure Durable (command : Command) (target : Nat) (s₀ s : Store) : Prop where
  snapshot : s.snapshotRev = target
  mode : reconcileMode command s₀.configSnapshot = .ok s.controlMode
  omitted : ∀ b, Omits command target s₀ b →
    s.rows.lookup b = none ∧ target ≤ s.bindingTombstone b

/-- The reconciliation has nothing to persist: its revision and its mode are stored, and it
omits no stored binding. -/
structure Settled (command : Command) (target : Nat) (s₀ : Store) : Prop where
  snapshot : s₀.snapshotRev = target
  mode : reconcileMode command s₀.configSnapshot = .ok s₀.controlMode
  omitted : ∀ b, ¬ Omits command target s₀ b

/-- What the store still holds until the snapshot is stored: its metadata, and a row for
every omitted binding. -/
structure Unstored (command : Command) (target : Nat) (s₀ : Store) (w : World) : Prop where
  same : Store.SameMeta s₀ w.store
  omitted : ∀ b, Omits command target s₀ b → (w.store.rows.lookup b).isSome

theorem Unstored.refl {command : Command} {target : Nat} : Unstored command target w.store w := by
  refine ⟨⟨rfl, rfl, rfl, rfl⟩, fun b hb => ?_⟩
  obtain ⟨_, row, _, _, hlookup, _⟩ := hb
  simp [hlookup]

theorem reconcileOrRemember_unstored {command : Command} {target : Nat} {s₀ : Store}
    {users : List DesiredUser} {mode : ControlMode} :
    Keeps (Unstored command target s₀) (reconcileOrRemember deps mode users) := by
  have hrecords : RecordInv (Unstored command target s₀) := fun w w' hrecords _ hw =>
    ⟨hw.same.of_records hrecords, Store.rows_of_records hrecords ▸ hw.omitted⟩
  refine Keeps.ite (fun _ => ?_) fun _ => hrecords.keeps_rememberDroppedOwnership
  refine hrecords.reconcile_keeps (fun user _ _ w w' hrec _ hw => ?_) ?_
  · exact ⟨hw.same.of_records hrec, Store.rows_of_records hrec ▸ hw.omitted⟩
  · refine Keeps.atomic fun w a w' hw hrun => ?_
    obtain ⟨s', hok, heq⟩ := map_eq_ok.1 hrun
    cases heq
    refine ⟨hw.same.applyDesiredUsers hok, fun b hb => ?_⟩
    exact Store.isSome_lookup_applyDesiredUsers hok (hw.omitted b hb)

/-- A reconciliation is durable when the configuration has not passed its revision, and
otherwise leaves everything it should persist as it was. -/
theorem reconcileCommand_durable {command : Command} {target : Nat} {w₀ : World}
    (htarget : command.targetRevision = some target) :
    Triple (fun w => w = w₀) (reconcileCommand deps command)
      (fun _ w => (w₀.store.configRevision ≤ target → Durable command target w₀.store w.store) ∧
        (target < w₀.store.configRevision → Unstored command target w₀.store w))
      (fun _ => True) := by
  refine Triple.bindPeek fun w₁ hw₁ => ?_
  subst hw₁
  refine Triple.bindLift (fun _ _ => trivial) fun plan hplan => ?_
  obtain ⟨users, mode⟩ := plan
  have homits : ∀ b, Omits command target w₁.store b → Store.omittedBy users b = true :=
    fun b hb => planReconcile_omits htarget hplan hb
  refine Triple.bindPeek fun w₂ hw₂ => ?_
  subst hw₂
  refine Triple.pre (P := Unstored command target w₂.store) ?_
    fun w (hw : w = w₂) => hw ▸ Unstored.refl
  refine Triple.bind (reconcileOrRemember_unstored.conseq (fun _ hw => hw)
    (fun _ _ hw => hw) fun _ _ => trivial) fun _ => ?_
  refine Triple.bind (Triple.atomic (fun w applied w' hw hrun => ⟨?_, trivial⟩) fun _ _ => trivial)
    fun _ => Triple.pure fun _ hw => hw
  obtain ⟨⟨applied', s'⟩, hok, heq⟩ := bind_eq_ok.1 hrun
  cases heq
  refine ⟨fun hconfig => ?_, fun hpassed => ?_⟩
  · rw [← hw.same.configRevision] at hconfig
    obtain ⟨hsnapshot, hmode, homitted⟩ := Store.applyConfigSnapshot_spec htarget hconfig hok
    obtain ⟨listed, merged, -, hplanMode, -⟩ := planReconcile_eq_ok hplan
    exact {
      snapshot := by simp [Store.snapshotRev, hsnapshot]
      mode := by rw [hmode]; exact hplanMode
      omitted := fun b hb => homitted b (homits b hb) (hw.omitted b hb) }
  · -- The transaction finds a newer configuration and leaves the store alone.
    rw [← hw.same.configRevision] at hpassed
    rw [Store.applyConfigSnapshot_of_lt htarget hw.same.nodeId.symm hpassed] at hok
    cases hok
    exact hw

/-- A reconciliation that reports completion is durable exactly when the configuration has
not passed its revision, or when it had nothing to persist. -/
theorem execute_reconcile_durable {command : Command} {target : Nat} {writable : Bool} {w₀ : World}
    (htype : command.type = .reconcileUsers) (htarget : command.targetRevision = some target)
    (hnew : w₀.store.completedCommand command.commandId = none) :
    Triple (fun w => w = w₀) (execute deps command writable)
      (fun outcome w => (∃ applied watermarks, outcome = .completed applied watermarks) →
        (Durable command target w₀.store w.store ↔
          w₀.store.configRevision ≤ target ∨ Settled command target w₀.store)) fun _ => True := by
  have hdurable : ∀ {s s' : Store}, Durable command target w₀.store s →
      s'.snapshotRevision = s.snapshotRevision → s'.controlMode = s.controlMode →
      s'.rows = s.rows → s'.tombstones = s.tombstones → Durable command target w₀.store s' := by
    intro s s' h hsnapshot hmode hrows htombstones
    refine ⟨by rw [Store.snapshotRev, hsnapshot]; exact h.snapshot, hmode ▸ h.mode, fun b hb => ?_⟩
    rw [hrows, Store.bindingTombstone_congr htombstones]
    exact h.omitted b hb
  refine (execute_completed (D := fun w =>
      (Durable command target w₀.store w.store ↔
        w₀.store.configRevision ≤ target ∨ Settled command target w₀.store)) htarget hnew ?_
    (fun _ hw => ⟨fun h => hw.1 (hdurable h rfl rfl rfl rfl),
      fun h => hdurable (hw.2 h) rfl rfl rfl rfl⟩)
    fun _ _ hw => ⟨fun h => hw.1 (hdurable h rfl rfl rfl rfl),
      fun h => hdurable (hw.2 h) rfl rfl rfl rfl⟩)
  refine Triple.afterPeek fun ready => ?_
  refine Triple.bind (Triple.ensure fun _ _ => trivial) fun _ => Triple.lift fun _ => ?_
  refine Triple.bind (Triple.ensure fun _ _ => trivial) fun _ => Triple.lift fun _ => ?_
  rw [htype]
  refine (reconcileCommand_durable htarget).post fun _ w hw => ?_
  rcases Nat.lt_or_ge target w₀.store.configRevision with hpassed | hconfig
  · have hun := hw.2 hpassed
    have hsnapshot : w.store.snapshotRev = w₀.store.snapshotRev := by
      rw [Store.snapshotRev, hun.same.snapshotRevision]
      rfl
    have hmode : w.store.controlMode = w₀.store.controlMode := hun.same.controlMode
    refine ⟨fun h => .inr ⟨hsnapshot ▸ h.snapshot, hmode ▸ h.mode, fun b hb => ?_⟩, ?_⟩
    · have hsome := hun.omitted b hb
      rw [(h.omitted b hb).1] at hsome
      cases hsome
    · rintro (hle | hsettled)
      · omega
      · exact ⟨hsnapshot.trans hsettled.snapshot, hmode ▸ hsettled.mode,
          fun b hb => absurd hb (hsettled.omitted b)⟩
  · have hd := hw.1 hconfig
    exact ⟨fun _ => .inl hconfig, fun _ => ⟨hd.snapshot, hd.mode, hd.omitted⟩⟩

end Processor

/-- **Durability of a reconciliation.**  A `RECONCILE_USERS` that completes leaves its
revision, its mode, and nothing of the bindings it omits that a later sample, repair or
restart could bring back, if and only if the stored configuration revision has not passed
the revision of the command or the command had nothing to persist. -/
theorem reconcile_is_durable_iff {command : Command} {target applied : Nat} {writable : Bool}
    {watermarks : Option (List Watermark)} {fates : List Fate} {w₀ : World}
    (htype : command.type = .reconcileUsers) (htarget : command.targetRevision = some target)
    (hnew : w₀.store.completedCommand command.commandId = none)
    (hcompleted : result? (Processor.execute deps command writable) w₀ fates =
      some (.completed applied watermarks)) :
    let w := finalWorld (Processor.execute deps command writable) w₀ fates
    (w.store.snapshotRev = target ∧
      Processor.reconcileMode command w₀.store.configSnapshot = .ok w.store.controlMode ∧
      ∀ b, Processor.Omits command target w₀.store b →
        w.store.rows.lookup b = none ∧ target ≤ w.store.bindingTombstone b ∧
        ∀ (runner : Runner) (steps : List Step), (∀ step ∈ steps, step.1.quiet = true) →
          (World.run deps { w with runner } steps).store.rows.lookup b = none ∧
          (World.run deps { w with runner } steps).xray.installsFor b = w.xray.installsFor b) ↔
    (w₀.store.configRevision ≤ target ∨ Processor.Settled command target w₀.store) := by
  intro w
  have hiff := (Processor.execute_reconcile_durable htype htarget hnew).of_result rfl hcompleted
    ⟨applied, watermarks, rfl⟩
  rw [← hiff]
  constructor
  · rintro ⟨hsnapshot, hmode, homitted⟩
    exact ⟨hsnapshot, hmode, fun b hb => ⟨(homitted b hb).1, (homitted b hb).2.1⟩⟩
  · intro hdurable
    refine ⟨hdurable.snapshot, hdurable.mode, fun b hb => ?_⟩
    obtain ⟨hrow, htombstone⟩ := hdurable.omitted b hb
    refine ⟨hrow, htombstone, fun runner steps hquiet => ?_⟩
    have hgone : Gone b (w.xray.installsFor b) { w with runner } := ⟨hrow, rfl⟩
    have hend : Gone b (w.xray.installsFor b) (World.run deps { w with runner } steps) :=
      quiet_gone.run_keeps sampled_gone.records hgone steps hquiet
    exact ⟨hend.row, hend.installs⟩

/-! ## A reconciliation that is lost -/

namespace Delayed

/-- A UUID. -/
def identity (last : String) : String := "00000000-0000-4000-8000-00000000000" ++ last

/-- The control plane hands the node the direct track. -/
def adopt : Step :=
  (.command { commandId := "adopt", type := .reconcileUsers, targetRevision := some 1
              payload := { users := .items [], controlMode := .mode .directPrimary } } {}, [])

/-- The command that enables a binding. -/
def ensure (bindingId last : String) (revision : Nat) : Step :=
  (.command { commandId := bindingId, type := .ensureUser, targetRevision := some revision
              payload := { bindingId, email := bindingId, uuid := identity last
                           quotaRemainingBytes := some (some 9) } } {}, [])

/-- A reconciliation with an empty list of users. -/
def dropAll (revision : Nat) : Command :=
  { commandId := "drop", type := .reconcileUsers, targetRevision := some revision
    payload := { users := .items [] } }

/-- Two users, installed at revisions 5 and 9. -/
def world : World := World.run {} {} [adopt, ensure "a" "a" 5, ensure "b" "b" 9]

/-- What is left after the reconciliation. -/
def after (revision : Nat) : World :=
  { finalWorld (Processor.execute {} (dropAll revision) true) world [] with runner := world.runner }

theorem store_after (revision : Nat) : (after revision).store =
    (finalWorld (Processor.execute {} (dropAll revision) true) world []).store := by
  rw [after]

theorem omits_a (revision : Nat) (h : 5 ≤ revision) :
    Processor.Omits (dropAll revision) revision world.store "a" := by
  have hrow : (world.store.rows.lookup "a").map (·.revision) = some 5 := by decide +kernel
  obtain ⟨row, hlookup, hrevision⟩ := Option.map_eq_some_iff.1 hrow
  exact ⟨[], row, rfl, rfl, hlookup, by omega⟩

end Delayed

open Delayed in
/-- A reconciliation at revision 10 is durable. -/
theorem reconcile_is_durable_iff_ten :
    (after 10).store.snapshotRev = 10 ∧ (after 10).store.rows.lookup "a" = none := by
  have hdurable := (@reconcile_is_durable_iff {} (dropAll 10) 10 10 true none [] world rfl rfl
    (by decide +kernel) (by decide +kernel)).2 (.inl (by decide +kernel))
  rw [store_after]
  exact ⟨hdurable.1, (hdurable.2.2 "a" (omits_a 10 (by decide))).1⟩

open Delayed in
/-- A reconciliation at revision 6 that omits both users reaches the node after the install
of the second one at revision 9.  It reports completion, the snapshot revision stays 1, the
row of the first user stays, and the next sample installs the account that the
reconciliation had uninstalled. -/
theorem delayed_reconcile_is_lost :
    result? (Processor.execute {} (dropAll 6) true) world [] = some (.completed 6 none) ∧
      Processor.Omits (dropAll 6) 6 world.store "a" ∧
      (after 6).store.snapshotRev = 1 ∧ ((after 6).store.rows.lookup "a").isSome ∧
      (after 6).xray.accounts.lookup "a" = none ∧
      (World.run {} (after 6) [(.sample {}, [])]).xray.installsFor "a" =
        (after 6).xray.installsFor "a" ++ [.added "a" "a" (identity "a")] :=
  ⟨by decide +kernel, omits_a 6 (by decide), by decide +kernel, by decide +kernel,
    by decide +kernel, by decide +kernel⟩

end ChordV.Agent
