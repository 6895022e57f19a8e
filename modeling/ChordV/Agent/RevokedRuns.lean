import ChordV.Agent.QuietRuns
import ChordV.Agent.Revocation

/-!
# Runs of a node after a revocation

The runner around the processor, one step of the node, and a whole run.  The main
result is `terminal_command_revokes`: after a terminal command for a binding has
completed without being stale, no run enables the row of the binding or installs an
account for it, as long as no instruction about it carries a higher revision.

A revision of zero is the absence of a tombstone, so the command must carry a positive
one.  A row that was parked in the middle of an address hand-off is invisible to the
staleness guard, and a disable leaves it enabled when it is newer than the command.
`parked_row_comes_back` is a run in which that happens.
-/

namespace ChordV.Agent

open Lib Fallible

variable {b : String} {floor : Nat} {installed : List XrayEvent} {w : World} {deps : Deps}

/-! ## Steps of the runner -/

namespace Runner

/-- The revocation, with the address that the row of the binding has. -/
def RevokedAt (b : String) (floor : Nat) (installed : List XrayEvent) (address : Option Address)
    (w : World) : Prop :=
  Revoked b floor installed w ∧ (w.store.rows.lookup b).map (·.address) = address

/-- A sample keeps the revocation, and the address of the revoked row. -/
theorem sampled_revokedAt {address : Option Address} :
    Sampled (RevokedAt b floor installed address) where
  records := by
    intro w w' hrecords hinstalls hw
    exact ⟨Revoked.recordInv w w' hrecords hinstalls hw.1, Store.rows_of_records hrecords ▸ hw.2⟩
  installs := by
    intro w hw user hu henabled w₁ w₂ hrecords hadded hw₁
    have hstable := Revoked.sampled.installs w hw.1 user hu henabled
    exact ⟨hstable w₁ w₂ hrecords hadded hw₁.1, Store.rows_of_records hrecords ▸ hw₁.2⟩
  recordSample := by
    intro w counters sampledAt online hw
    refine ⟨Revoked.sampled.recordSample w counters sampledAt online hw.1, ?_⟩
    -- The counters only touch enabled rows, and the row of the binding is not enabled.
    refine (Store.recordSample_induct (s := w.store)
      (I := fun s => s.AllRows (NotEnabled b) ∧ (s.rows.lookup b).map (·.address) = address)
      (fun _ _ _ h => h) ?_ counters sampledAt online ⟨hw.1.disabled, hw.2⟩).2
    intro s b' row counter online' hlookup henabled hs
    have hne : b ≠ b' := by
      rintro rfl
      simp [hs.1 b row hlookup rfl] at henabled
    refine ⟨hs.1.insert fun hb => absurd hb.symm hne, ?_⟩
    rw [AList.lookup_insert_ne hne]
    exact hs.2

theorem execute_revoked (hb : b ≠ "") (hpos : 0 < floor) {reading : Reading} {command : Command} :
    Triple (fun w => Revoked b floor installed w ∧ Processor.Within b floor command w.store)
      (execute deps reading command) (fun _ => Revoked b floor installed)
      (Revoked b floor installed) := by
  refine Triple.atWorld fun w₀ hw₀ => ?_
  let Sampling := RevokedAt b floor installed ((w₀.store.rows.lookup b).map (·.address))
  have hsampling : Sampled Sampling := sampled_revokedAt
  have hstop : ∀ w, Sampling w → Revoked b floor installed w := fun _ hw => hw.1
  have hrest : ∀ writable metered, Triple Sampling (afterSample deps command writable metered)
      (fun _ => Revoked b floor installed) (Revoked b floor installed) := by
    intro writable metered
    cases metered with
    | error e => exact Triple.pure hstop
    | ok _ =>
      refine Triple.bind ((Processor.execute_revoked hb hpos).pre ?_) fun outcome =>
        Keeps.bind Revoked.recordInv.keeps_syncCurrent fun _ => Keeps.pure
      exact fun w hw => ⟨hw.1, Processor.within_congr hw.2 hw₀.2⟩
  refine Triple.pre (P := Sampling) ?_ fun w hw => ?_
  · refine Triple.bind (hsampling.records.keeps_update.conseq (fun _ hw => hw) (fun _ _ hw => hw)
      hstop) fun _ => Triple.afterPeek fun previous => ?_
    cases previous with
    | some outcome => exact Triple.pure hstop
    | none =>
      refine Triple.afterPeek fun mode => Triple.afterPeek fun reconfigures => ?_
      cases reconfigures with
      | error e => exact Triple.pure hstop
      | ok reconfigures =>
        dsimp only
        split
        · refine Triple.bind ?_ (hrest _)
          exact (Keeps.attempt (hsampling.repairs deps).sample_keeps).conseq
            (fun _ hw => hw) (fun _ _ hw => hw) hstop
        · exact Triple.bind (Triple.pure fun _ hw => hw) (hrest _)
  · rw [hw]
    exact ⟨hw₀.1, rfl⟩

theorem restoreOfflineUsers_revoked (hpos : 0 < floor) {users : List DesiredUser} :
    Keeps (Revoked b floor installed) (transact (restoreOfflineUsers users)) := by
  refine Keeps.atomic fun w a w' hw hrun => ?_
  obtain ⟨s', hok, heq⟩ := map_eq_ok.1 hrun
  cases heq
  obtain ⟨recovered, hrecovered, hok⟩ := bind_eq_ok.1 hok
  have hne : ∀ user ∈ recovered, user.bindingId ≠ b := by
    rintro user hu rfl
    rw [filterM_eq_ok hrecovered, List.mem_filter] at hu
    have hrestorable : restorable w.store user = .ok true := by simpa using hu.2
    unfold restorable at hrestorable
    split at hrestorable
    · cases hrestorable
    · split at hrestorable
      · cases hrestorable
      · obtain ⟨older, -, hrestorable⟩ := bind_eq_ok.1 hrestorable
        cases older with
        | true => cases hrestorable
        | false =>
          have hzero := of_decide_eq_true
            (Bool.and_eq_true_iff.1 (Except.ok.inj hrestorable)).1
          have := hw.tombstone
          omega
  have htombstones := Store.restoreBackendConfirmedUsers_tombstones hok
  refine hw.of_store (Nat.le_of_eq (Store.bindingTombstone_congr htombstones b).symm) ?_
  exact hw.disabled.restore (fun user hu _ _ _ _ hbinding => absurd hbinding (hne user hu)) hok

theorem withLocalDisables_harmless {incoming stored : List DesiredUser}
    (h : Harmless b incoming) : Harmless b (withLocalDisables incoming stored) := by
  intro user hu hbinding
  obtain ⟨original, horiginal, rfl⟩ := List.mem_map.1 hu
  cases hfind : stored.find? fun held => !held.enabled && held.bindingId = original.bindingId with
  | none =>
    rw [hfind] at hbinding
    exact h original horiginal hbinding
  | some held =>
    have hfound := List.find?_some hfind
    simpa using (Bool.and_eq_true_iff.1 hfound).1

/-- Both ways of refreshing end in users that do not enable the binding. -/
theorem refreshedUsers_revoked (hb : b ≠ "") (hpos : 0 < floor)
    {snapshot prepared : ConfigSnapshot} (hsnapshot : Bounded b floor snapshot.users)
    (hprepared : Harmless b prepared.users) :
    Triple (Revoked b floor installed) (refreshedUsers snapshot prepared)
      (fun result w => Harmless b result.users ∧ Revoked b floor installed w)
      (Revoked b floor installed) := by
  refine Triple.afterPeek fun preserve => Triple.ite (fun _ => ?_) fun _ => ?_
  · refine Triple.afterPeek fun stored => Triple.pure fun w hw => ⟨?_, hw⟩
    exact withLocalDisables_harmless hprepared
  · refine Triple.bind (restoreOfflineUsers_revoked hpos) fun _ => Triple.bindPeek fun w₁ hw₁ => ?_
    refine Triple.post (Triple.liftExcept (P := fun w => w = w₁) fun w hw => hw ▸ hw₁) ?_
    rintro again w ⟨hagain, rfl⟩
    exact ⟨Processor.mergeNewerBindings_revoked hb hpos hw₁ hsnapshot
      (Processor.prepareSnapshot_users hagain), hw₁⟩

theorem applyRefreshed_revoked (hb : b ≠ "") (hpos : 0 < floor) {reading : Reading}
    {snapshot : ConfigSnapshot} (hsnapshot : Bounded b floor snapshot.users) :
    Keeps (Revoked b floor installed) (applyRefreshed deps reading snapshot) := by
  refine Keeps.bind Keeps.peek fun current => Triple.bindPeek fun w₀ hw₀ => ?_
  refine Triple.pre (P := Revoked b floor installed) ?_ fun w hw => hw ▸ hw₀
  refine Triple.bindLift (fun _ hw => hw) fun prepared hprepared => ?_
  have hharmless := Processor.mergeNewerBindings_revoked hb hpos hw₀ hsnapshot
    (Processor.prepareSnapshot_users hprepared)
  have hrest : Keeps (Revoked b floor installed) (do
      let prepared ← refreshedUsers snapshot prepared
      Processor.applySnapshot deps prepared
      syncCurrent) := by
    refine Triple.bind (refreshedUsers_revoked hb hpos hsnapshot hharmless) fun result => ?_
    refine Triple.lift fun hresult => ?_
    exact Keeps.bind (Processor.applySnapshot_revoked hb hpos hresult.bounded)
      fun _ => Revoked.recordInv.keeps_syncCurrent
  refine Keeps.bind Keeps.liftExcept fun older => ?_
  refine Keeps.ite (fun _ => Revoked.recordInv.keeps_syncCurrent) fun _ => ?_
  split
  · exact Keeps.bind (Revoked.sampled.repairs deps).sample_keeps fun _ => hrest
  · exact hrest

theorem refreshConfig_revoked (hb : b ≠ "") (hpos : 0 < floor) {reading : Reading} {epoch : Nat}
    {response : Option ConfigSnapshot}
    (hresponse : ∀ snapshot, response = some snapshot → Bounded b floor snapshot.users) :
    Keeps (Revoked b floor installed) (refreshConfig deps reading epoch response) := by
  have hupdate : ∀ f, Keeps (Revoked b floor installed) (update f) :=
    fun f => Revoked.recordInv.keeps_update
  cases response with
  | none => exact Keeps.bind (hupdate _) fun _ => Keeps.fail
  | some snapshot =>
    refine Keeps.bind (hupdate _) fun _ =>
      Keeps.bind ((Revoked.sampled.repairs deps).keeps_noting ?_) fun _ => hupdate _
    refine Keeps.bind Keeps.peek fun now => Keeps.bind Keeps.ensure fun _ => ?_
    exact applyRefreshed_revoked hb hpos (hresponse snapshot rfl)

end Runner

/-! ## Runs -/

/-- The revocation survives every quiet step. -/
theorem quiet_revoked : Quiet deps (Revoked b floor installed) where
  toRepairs := Revoked.sampled.repairs deps
  ackThrough := fun _ _ _ hw => hw.of_eq rfl rfl rfl
  backfill := fun w hw => hw.of_eq (Store.backfillSnapshotRevision_rows w.store)
    (Store.backfillSnapshotRevision_tombstones w.store) rfl
  recoverRow := by
    intro w b' hw
    have htombstones := Store.recoverParkedRow_tombstones b' w.store
    exact hw.of_store (Nat.le_of_eq (Store.bindingTombstone_congr htombstones b).symm)
      (hw.disabled.recoverParkedRow (notEnabled_coarse b) b')
  initializeBoot := fun w bootId hw => hw.of_eq (Store.initializeBoot_rows bootId w.store)
    (Store.initializeBoot_tombstones bootId w.store) rfl

/-- A configuration response carries nothing newer than the floor for the binding. -/
def ResponseWithin (b : String) (floor : Nat) (response : Option ConfigSnapshot) : Prop :=
  ∀ snapshot, response = some snapshot → ∀ user ∈ snapshot.users, user.bindingId = b →
    ∀ r, user.revision = some r → r ≤ floor

theorem ResponseWithin.bounded {response : Option ConfigSnapshot}
    (h : ResponseWithin b floor response) :
    ∀ snapshot, response = some snapshot → Bounded b floor snapshot.users :=
  fun snapshot hs user hu hbinding _ r hr => h snapshot hs user hu hbinding r hr

/-- No instruction of the step about the binding is newer than the floor. -/
def Label.Within (b : String) (floor : Nat) (s : Store) : Label → Prop
  | .command c _ => Processor.Within b floor c s
  | .refresh _ response _ => ResponseWithin b floor response
  | .start _ response _ => ResponseWithin b floor response
  | _ => True

theorem step_revoked (hb : b ≠ "") (hpos : 0 < floor) (hw : Revoked b floor installed w)
    (step : Step) (hstep : step.1.Within b floor w.store) :
    Revoked b floor installed (World.step deps w step) := by
  have hdead : ∀ w r, Revoked b floor installed w →
      Revoked b floor installed { w with runner := r } := fun _ _ h => h.of_eq rfl rfl rfl
  by_cases hquiet : step.1.quiet = true
  · exact quiet_revoked.step_keeps hw step hquiet (Revoked.recordInv.step_outside hw step)
  obtain ⟨label, fates⟩ := step
  cases label with
  | command command reading =>
    exact World.ifAlive_keeps hw
      (World.operate_keeps (Runner.execute_revoked hb hpos) hdead fates ⟨hw, hstep⟩)
  | refresh epoch response reading =>
    exact World.ifAlive_keeps hw (World.operate_keeps
      (Runner.refreshConfig_revoked hb hpos (ResponseWithin.bounded hstep)) hdead fates hw)
  | start epoch response reading =>
    exact World.ifAlive_keeps hw (World.operate_keeps (quiet_revoked.keeps_start
      (Runner.refreshConfig_revoked hb hpos (ResponseWithin.bounded hstep))) hdead fates hw)
  | _ => exact absurd rfl hquiet

/-- Every step of the run is within the floor, in the store in which it starts. -/
def RunWithin (b : String) (floor : Nat) (deps : Deps) : World → List Step → Prop
  | _, [] => True
  | w, step :: steps =>
    step.1.Within b floor w.store ∧ RunWithin b floor deps (World.step deps w step) steps

theorem run_revoked (hb : b ≠ "") (hpos : 0 < floor) (hw : Revoked b floor installed w)
    (steps : List Step) (hsteps : RunWithin b floor deps w steps) :
    Revoked b floor installed (World.run deps w steps) := by
  induction steps generalizing w with
  | nil => exact hw
  | cons step steps ih => exact ih (step_revoked hb hpos hw step hsteps.1) hsteps.2

/-! ## The terminal command -/

namespace Processor

/-- The binding a terminal command takes down. -/
def Retires (b : String) (payload : UserPayload) (target : Nat) (s : Store) : Prop :=
  planTerminal payload target s = .ok (.settled b) ∨
    ∃ email, planTerminal payload target s = .ok (.uninstall b email)

/-- The terminal transaction revokes the binding. -/
theorem applyTerminal_revokes {email : String} {target : Nat} {remove : Bool} {s s' : Store}
    (hrow : remove = false → ∀ row, s.rows.lookup b = some row → row.revision ≤ target)
    (hok : Store.applyTerminal b target email remove s = .ok s') :
    target ≤ s'.bindingTombstone b ∧ s'.AllRows (NotEnabled b) := by
  refine ⟨?_, ?_⟩
  · rw [Store.bindingTombstone_applyTerminal hok, if_pos rfl]
    exact Nat.le_max_right _ _
  · unfold Store.applyTerminal at hok
    split at hok
    · cases hok
    cases hok
    rintro b' row hlookup rfl
    unfold Store.retireRowTx at hlookup
    split at hlookup
    · simp at hlookup
    · next hremove =>
      rw [Table.lookup_modify_self, Store.recordTombstoneTx_rows, Option.map_eq_some_iff] at hlookup
      obtain ⟨row₀, hrow₀, rfl⟩ := hlookup
      have hle := hrow (by simpa using hremove) row₀ hrow₀
      rw [if_neg (by omega)]

/-- What precedes the terminal transaction touches neither the rows nor the installs. -/
theorem terminalUser_revokes (hb : b ≠ "") {payload : UserPayload} {target : Nat} {remove : Bool}
    {w₀ : World} (hplan : Retires b payload target w₀.store)
    (hrow : remove = false → ∀ row, w₀.store.rows.lookup b = some row → row.revision ≤ target) :
    Triple (fun w => w = w₀) (terminalUser deps payload target remove)
      (fun _ => Revoked b target (w₀.xray.installsFor b)) (fun _ => True) := by
  -- The rows and the installs of the start, which every action before the last one keeps.
  let Start : World → Prop := fun w =>
    w.store.rows = w₀.store.rows ∧ w.xray.installs = w₀.xray.installs
  have hstart : RecordInv Start := fun w w' hrecords hinstalls hw =>
    ⟨(Store.rows_of_records hrecords).trans hw.1, hinstalls.trans hw.2⟩
  have hterminal : ∀ email, Triple Start (transact (Store.applyTerminal b target email remove))
      (fun _ => Revoked b target (w₀.xray.installsFor b)) (fun _ => True) := by
    refine fun email => Triple.atomic (fun w a w' hw hrun => ⟨?_, trivial⟩) fun _ _ => trivial
    obtain ⟨s', hok, heq⟩ := map_eq_ok.1 hrun
    cases heq
    obtain ⟨htombstone, hrows⟩ := applyTerminal_revokes (fun h row hl => hrow h row (hw.1 ▸ hl)) hok
    exact ⟨htombstone, hrows, by simp only [Xray.installsFor]; rw [hw.2]⟩
  have hweak : ∀ {p : AgentM Unit}, Keeps Start p →
      Triple Start p (fun _ => Start) (fun _ => True) :=
    fun hp => hp.conseq (fun _ hw => hw) (fun _ _ hw => hw) fun _ _ => trivial
  refine Triple.bindPeek fun w₁ hw₁ => ?_
  subst hw₁
  refine Triple.pre (P := Start) ?_ fun w (hw : w = w₁) => by rw [hw]; exact ⟨rfl, rfl⟩
  refine Triple.bindLift (fun _ _ => trivial) fun plan hok => ?_
  rcases hplan with hsettled | ⟨email, huninstall⟩
  · obtain rfl : TerminalPlan.settled b = plan := by simpa [hok] using hsettled.symm
    exact hterminal ""
  · obtain rfl : TerminalPlan.uninstall b email = plan := by simpa [hok] using huninstall.symm
    have hretire : Triple Start (retireBinding b target email remove)
        (fun _ => Revoked b target (w₁.xray.installsFor b)) (fun _ => True) := by
      unfold retireBinding
      rw [if_neg hb]
      exact hterminal email
    refine Triple.bind (hweak hstart.keeps_uninstallOwned) fun _ => ?_
    split
    · refine Triple.bind (hweak hstart.keeps_forgetProvisioned) fun _ => ?_
      exact Triple.bind (hweak hstart.keeps_clearPendingRemoval) fun _ => hretire
    · exact hretire

/-- A terminal command that completes has revoked its binding. -/
theorem execute_terminal_revokes (hb : b ≠ "") {command : Command} {target : Nat} {writable : Bool}
    {w₀ : World} (htype : command.type = .disableUser ∨ command.type = .removeUser)
    (htarget : command.targetRevision = some target)
    (hnew : w₀.store.completedCommand command.commandId = none)
    (hplan : Retires b command.payload.toUserPayload target w₀.store)
    (hrow : command.type = .disableUser →
      ∀ row, w₀.store.rows.lookup b = some row → row.revision ≤ target) :
    Triple (fun w => w = w₀) (execute deps command writable)
      (fun outcome w => (∃ applied watermarks, outcome = .completed applied watermarks) →
        Revoked b target (w₀.xray.installsFor b) w) (fun _ => True) := by
  refine execute_completed htarget hnew ?_ (fun _ hw => hw.of_eq rfl rfl rfl)
    fun _ _ hw => hw.of_eq rfl rfl rfl
  refine Triple.afterPeek fun ready => ?_
  refine Triple.bind (Triple.ensure fun _ _ => trivial) fun _ => Triple.lift fun _ => ?_
  refine Triple.bind (Triple.ensure fun _ _ => trivial) fun _ => Triple.lift fun _ => ?_
  rcases htype with htype | htype <;> rw [htype]
  · exact terminalUser_revokes hb hplan fun _ => hrow htype
  · exact terminalUser_revokes hb hplan fun h => by cases h

end Processor

/-! ## The result and its two exceptions -/

namespace Exceptions

/-- A UUID. -/
def identity : String := "00000000-0000-4000-8000-00000000000a"

/-- The control plane hands the node the direct track. -/
def adopt (revision : Nat) : Step :=
  (.command { commandId := "adopt", type := .reconcileUsers, targetRevision := some revision
              payload := { users := .items [], controlMode := .mode .directPrimary } } {}, [])

/-- Enables the binding. -/
def ensureB (revision : Nat) : Step :=
  (.command { commandId := "ensure", type := .ensureUser, targetRevision := some revision
              payload := { bindingId := "b", email := "a@x", uuid := identity
                           quotaRemainingBytes := some (some 9)
                           offlineAllowanceBytes := some (some 9) } } {}, [])

/-- A reconciliation that gives the address of `b` to `c` and fails at the install of `c`,
whose identity Xray does not take.  The row of `b` stays parked. -/
def handOff : Step :=
  (.command { commandId := "hand-off", type := .reconcileUsers, targetRevision := some 6
              payload := { users := .items [some
                { bindingId := "c", email := "a@x", uuid := "no-uuid"
                  quotaRemainingBytes := some (some 9) }] } } {}, [])

/-- Disables the binding. -/
def disableB : Command :=
  { commandId := "disable", type := .disableUser, targetRevision := some 3
    payload := { bindingId := "b", email := "old@x" } }

/-- A disable that comes late. -/
def lateDisableB : Command :=
  { commandId := "late-disable", type := .disableUser, targetRevision := some 6
    payload := { bindingId := "b" } }

/-- An older command to enable, after it. -/
def lateEnsureB : Step :=
  (.command { commandId := "late-ensure", type := .ensureUser, targetRevision := some 5
              payload := { bindingId := "b", email := "a@x", uuid := identity } } {}, [])

/-- Removes the binding. -/
def removeB : Command :=
  { commandId := "remove", type := .removeUser, targetRevision := some 0
    payload := { bindingId := "b", email := "a@x" } }

/-- Removes the other binding. -/
def removeC : Step :=
  (.command { commandId := "remove-c", type := .removeUser, targetRevision := some 7
              payload := { bindingId := "c" } } {}, [])

/-- The world after a terminal command that follows a run. -/
def retire (before : List Step) (command : Command) : World :=
  let w₀ := World.run {} {} before
  { finalWorld (Processor.execute {} command true) w₀ [] with runner := w₀.runner }

/-- The steps up to the hand-off. -/
def parkedBefore : List Step := [adopt 1, ensureB 5, handOff]

/-- The steps after it. -/
def parkedAfter : List Step := [removeC, (.restart "second", []), (.sample {}, [])]

/-- What the revocation would promise, at one terminal command and one later run. -/
def Promised (before after : List Step) (command : Command) (target : Nat) : Prop :=
  Processor.Retires "b" command.payload.toUserPayload target (World.run {} {} before).store →
  (∃ applied watermarks, result? (Processor.execute {} command true) (World.run {} {} before) [] =
    some (.completed applied watermarks)) →
  RunWithin "b" target {} (retire before command) after →
  (∀ row, (World.run {} (retire before command) after).store.rows.lookup "b" = some row →
    row.enabled = false) ∧
  (World.run {} (retire before command) after).xray.installsFor "b" =
    (World.run {} {} before).xray.installsFor "b"

end Exceptions

/-- **Revocation.**  A terminal command for a binding that completes without being stale
takes the binding down for good: in every later run in which no instruction about the
binding is newer, its row is not enabled and no account is installed for it.  A disable
counts on the stored row not being newer than the command, parked rows included. -/
theorem terminal_command_revokes {command : Command} {target applied : Nat} {writable : Bool}
    {watermarks : Option (List Watermark)} {fates : List Fate} {w₀ : World} (hb : b ≠ "")
    (hpos : 0 < target) (htype : command.type = .disableUser ∨ command.type = .removeUser)
    (htarget : command.targetRevision = some target)
    (hnew : w₀.store.completedCommand command.commandId = none)
    (hplan : Processor.Retires b command.payload.toUserPayload target w₀.store)
    (hrow : command.type = .disableUser →
      ∀ row, w₀.store.rows.lookup b = some row → row.revision ≤ target)
    (hcompleted : result? (Processor.execute deps command writable) w₀ fates =
      some (.completed applied watermarks))
    (runner : Runner) (steps : List Step)
    (hsteps : RunWithin b target deps
      { finalWorld (Processor.execute deps command writable) w₀ fates with runner } steps) :
    let w := World.run deps
      { finalWorld (Processor.execute deps command writable) w₀ fates with runner } steps
    (∀ row, w.store.rows.lookup b = some row → row.enabled = false) ∧
      w.xray.installsFor b = w₀.xray.installsFor b := by
  have hrevoked := (Processor.execute_terminal_revokes hb htype htarget hnew hplan hrow).of_result
    rfl hcompleted ⟨applied, watermarks, rfl⟩
  have hstart : Revoked b target (w₀.xray.installsFor b)
      { finalWorld (Processor.execute deps command writable) w₀ fates with runner } :=
    hrevoked.of_eq rfl rfl rfl
  have hend := run_revoked hb hpos hstart steps hsteps
  exact ⟨fun row hlookup => hend.disabled b row hlookup rfl, hend.installs⟩

open Exceptions in
/-- A disable at revision 6, followed by the late delivery of an enable at revision 5, a
sample and a restart. -/
theorem terminal_command_revokes_disable :
    let w := World.run {} (retire [adopt 1, ensureB 5] lateDisableB)
      [lateEnsureB, (.sample {}, []), (.restart "second", [])]
    (∀ row, w.store.rows.lookup "b" = some row → row.enabled = false) ∧
      w.xray.installsFor "b" = (World.run {} {} [adopt 1, ensureB 5]).xray.installsFor "b" := by
  refine @terminal_command_revokes "b" {} lateDisableB 6 6 true (some []) [] _ (by decide)
    (by decide) (.inl rfl) rfl (by decide +kernel) (.inr ⟨"a@x", by decide +kernel⟩) ?_
    (by decide +kernel) _ _ ?_
  · intro _ row hlookup
    have hrevision : ((World.run {} {} [adopt 1, ensureB 5]).store.rows.lookup "b").map
        (·.revision) = some 5 := by decide +kernel
    rw [hlookup, Option.map_some, Option.some.injEq] at hrevision
    omega
  · simp [RunWithin, Label.Within, Processor.Within, lateEnsureB]

open Exceptions in
/-- A disable at revision 3 leaves a parked row of revision 5 enabled, and the row comes
back when its address is free again.  A removal at revision 0 leaves no tombstone that
counts, so an enable at revision 0 installs the account again. -/
theorem parked_and_zero_come_back :
    ¬ Promised parkedBefore parkedAfter disableB 3 ∧
      ¬ Promised [adopt 0] [ensureB 0] removeB 0 := by
  constructor
  · intro h
    have hend := (h (.inr ⟨"old@x", by decide +kernel⟩) ⟨3, some [⟨"boot", 1⟩], by decide +kernel⟩
      (by simp [parkedAfter, RunWithin, Label.Within, Processor.Within,
        Processor.Names, removeC])).1
    have henabled : ((World.run {} (retire parkedBefore disableB) parkedAfter).store.rows.lookup
        "b").map (·.enabled) = some true := by decide +kernel
    obtain ⟨row, hlookup, hrow⟩ := Option.map_eq_some_iff.1 henabled
    rw [hend row hlookup] at hrow
    cases hrow
  · intro h
    have hend := (h (.inr ⟨"a@x", by decide +kernel⟩) ⟨0, some [], by decide +kernel⟩
      (by simp [RunWithin, Label.Within, Processor.Within, ensureB])).1
    have henabled : ((World.run {} (retire [adopt 0] removeB) [ensureB 0]).store.rows.lookup
        "b").map (·.enabled) = some true := by decide +kernel
    obtain ⟨row, hlookup, hrow⟩ := Option.map_eq_some_iff.1 henabled
    rw [hend row hlookup] at hrow
    cases hrow

end ChordV.Agent
