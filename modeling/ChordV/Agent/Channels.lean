import ChordV.Agent.Snapshots

/-!
# What a pending settlement protects in the two snapshot channels

While a batch is not acknowledged, a snapshot may have been built without it.  A user that the
node cut off on the evidence of such a batch stays as it is stored.  `RECONCILE_USERS` asks this
of each user.  A refresh asks whether there is any such user, and then keeps every disabled one,
also those that the control plane disabled.

* `UserRow.cutOff` is the predicate of `HasUsageDisabledUsers`.
* `Contested` is an instruction that is newer than the disabled row of its binding: what
  happens to it is what the channels decide.
* `ChannelsAgree` is the rule the two channels share, and `channels_agree_iff` says exactly
  when they do.
-/

namespace ChordV.Agent

open Lib Fallible

/-- The agent cut the user off: its quota is used up, or its offline allowance is. -/
def UserRow.cutOff (row : UserRow) : Bool :=
  !row.enabled && decide (row.quotaRemaining = 0 ∨
    (0 < row.offlineUsed ∧ row.offlineAllowance ≤ row.offlineUsed))

/-- The address of the row is parked for a hand-off that did not finish. -/
def UserRow.parked (row : UserRow) : Bool :=
  match row.address with
  | .parked _ => true
  | .real _ => false

namespace Runner

/-- The second half of `applyRefreshedLocked`, after the final sample. -/
def settleRefresh (deps : Deps) (snapshot prepared : ConfigSnapshot) : AgentM Unit := do
  let prepared ← refreshedUsers snapshot prepared
  Processor.applySnapshot deps prepared
  syncCurrent

theorem applyRefreshed_eq (deps : Deps) (reading : Reading) (snapshot : ConfigSnapshot) :
    applyRefreshed deps reading snapshot = (do
      let current ← readStore Store.configSnapshot
      let prepared ← readStore (Processor.prepareSnapshot snapshot)
      let prepared ← liftExcept prepared
      let older ← liftExcept (decimalLess snapshot.revision current.revision)
      if older then syncCurrent
      else
        if (current.controlMode = .directPrimary || prepared.controlMode = .directPrimary) &&
            takesAway current.users prepared.users then sample deps reading
        settleRefresh deps snapshot prepared) := rfl

end Runner

/-! ## The rule -/

/-- The snapshot names the binding of a disabled row at a revision that is newer than the row
and the tombstone of the binding. -/
structure Contested (s : Store) (users : List DesiredUser) (user : DesiredUser) (row : UserRow) :
    Prop where
  named : user ∈ users
  stored : s.rows.lookup user.bindingId = some row
  disabled : row.enabled = false
  newer : ∃ revision, user.revision = some revision ∧ row.revision < revision ∧
    s.bindingTombstone user.bindingId < revision

/-- The binding is disabled, with the quota and the revision that the row had. -/
def Store.KeptAs (row : UserRow) (b : String) (s : Store) : Prop :=
  s.HasRow b fun kept => kept.enabled = false ∧ kept.quotaRemaining = row.quotaRemaining ∧
    kept.revision = row.revision

/-- Both channels keep the users that were cut off, and enable the other ones.  `command` and
`refresh` are the stores that the two channels leave. -/
def ChannelsAgree (s command refresh : Store) (users : List DesiredUser) : Prop :=
  ∀ user row, Contested s users user row →
    (command.KeptAs row user.bindingId ↔ row.cutOff = true) ∧
    (refresh.KeptAs row user.bindingId ↔ row.cutOff = true) ∧
    (row.cutOff = false → user.enabled = true →
      command.HasRow user.bindingId (·.enabled = true) ∧
      refresh.HasRow user.bindingId (·.enabled = true))

/-- Two stores that differ by samples: the history of every binding is the same. -/
structure SameHistory (s₀ s : Store) : Prop where
  tombstones : s.tombstones = s₀.tombstones
  revisions : ∀ b, (s.rows.lookup b).map (·.revision) = (s₀.rows.lookup b).map (·.revision)

namespace SameHistory

variable {s₀ s s' : Store}

theorem refl (s : Store) : SameHistory s s := ⟨rfl, fun _ => rfl⟩

end SameHistory

/-! ## What a channel hands over -/

variable {deps : Deps} {s s' : Store} {user : DesiredUser} {users : List DesiredUser}
    {row : UserRow}

namespace Contested

theorem bindingTombstone_lt (h : Contested s users user row) {revision : Nat}
    (hrevision : user.revision = some revision) :
    row.revision < revision ∧ s.bindingTombstone user.bindingId < revision := by
  obtain ⟨r, hr, hnewer⟩ := h.newer
  rw [hrevision] at hr
  cases hr
  exact hnewer

/-- The merge leaves the instruction to the snapshot, also on a store from before a sample. -/
theorem mergeUser (h : Contested s users user row) {s₀ : Store} (hsame : SameHistory s₀ s) :
    Processor.mergeUser s₀.listDesiredUsers s₀ user = .ok (some user) := by
  obtain ⟨revision, hrevision, hrow, htombstone⟩ := h.newer
  refine Processor.mergeUser_of_current hrevision (.inr ?_) fun row₀ hrow₀ => .inl ?_
  · rwa [← Store.bindingTombstone_congr hsame.tombstones]
  · have hsameRevision := hsame.revisions user.bindingId
    rw [h.stored, hrow₀] at hsameRevision
    have heq : row.revision = row₀.revision := Option.some.inj hsameRevision
    omega

theorem awaits (h : Contested s users user row) : s.HasRow user.bindingId (·.Awaits user) := by
  obtain ⟨revision, hrevision, hrow, -⟩ := h.newer
  exact ⟨row, h.stored, .inl ⟨revision, hrevision, hrow⟩⟩

theorem userByBindingId (h : Contested s users user row) :
    s.userByBindingId user.bindingId = Store.desired user.bindingId row := by
  unfold Store.userByBindingId
  rw [h.stored]
  rfl

end Contested

/-- What a channel says about a contested binding: the stored user if it is kept and not parked,
and otherwise the instruction. -/
def keptOr (keep : Bool) (row : UserRow) (user : DesiredUser) : DesiredUser :=
  if keep then (Store.desired user.bindingId row).getD user else user

theorem keptOr_bindingId (keep : Bool) (row : UserRow) (user : DesiredUser) :
    (keptOr keep row user).bindingId = user.bindingId := by
  unfold keptOr
  split
  · cases hdesired : Store.desired user.bindingId row with
    | none => rfl
    | some held => exact (Store.desired_eq_some hdesired).1
  · rfl

theorem desired_eq_none {b : String} : Store.desired b row = none ↔ row.parked = true := by
  unfold Store.desired UserRow.parked
  cases row.address with
  | real email => exact ⟨fun h => by (cases h), fun h => by (cases h)⟩
  | parked email => exact ⟨fun _ => rfl, fun _ => rfl⟩

/-- The entry is the stored user, or the instruction. -/
theorem keptOr_cases (keep : Bool) (row : UserRow) (user : DesiredUser) :
    (keep = true ∧ row.parked = false ∧
      Store.desired user.bindingId row = some (keptOr keep row user)) ∨
    (¬(keep = true ∧ row.parked = false) ∧ keptOr keep row user = user) := by
  unfold keptOr
  cases keep with
  | false => exact .inr ⟨fun h => by (cases h.1), rfl⟩
  | true =>
    cases hdesired : Store.desired user.bindingId row with
    | none =>
      have hparked := desired_eq_none.1 hdesired
      exact .inr ⟨fun h => by (rw [hparked] at h; cases h.2), rfl⟩
    | some held =>
      refine .inl ⟨rfl, ?_, rfl⟩
      by_contra hparked
      rw [Bool.not_eq_false, ← desired_eq_none (b := user.bindingId), hdesired] at hparked
      cases hparked

/-- The row of a contested binding awaits what a channel says. -/
theorem Contested.awaits_keptOr (h : Contested s users user row) (keep : Bool) :
    s.HasRow user.bindingId (·.Awaits (keptOr keep row user)) := by
  rcases keptOr_cases keep row user with ⟨-, -, hdesired⟩ | ⟨-, heq⟩
  · exact ⟨row, h.stored, .inr (Store.desired_matches hdesired)⟩
  · rw [heq]
    exact h.awaits

/-- The merge keeps what a channel says. -/
theorem Contested.mergeUser_keptOr (h : Contested s users user row) (keep : Bool) :
    Processor.mergeUser s.listDesiredUsers s (keptOr keep row user) =
      .ok (some (keptOr keep row user)) := by
  rcases keptOr_cases keep row user with ⟨-, -, hdesired⟩ | ⟨-, heq⟩
  · refine Processor.mergeUser_of_stored ?_
    rw [keptOr_bindingId, h.userByBindingId, hdesired]
  · rw [heq]
    exact h.mergeUser (SameHistory.refl s)

/-- The row that a channel leaves is the old one exactly if the channel keeps it. -/
theorem Contested.keptAs_iff (h : Contested s users user row) {keep : Bool}
    (hmatches : s'.HasRow user.bindingId (·.Matches (keptOr keep row user))) :
    s'.KeptAs row user.bindingId ↔ keep = true ∧ row.parked = false := by
  obtain ⟨row', hrow', hmatches⟩ := hmatches
  rcases keptOr_cases keep row user with ⟨hkeep, hparked, hdesired⟩ | ⟨hnot, heq⟩
  · refine ⟨fun _ => ⟨hkeep, hparked⟩, fun _ => ⟨row', hrow', ?_⟩⟩
    have hold := Store.desired_matches hdesired
    refine ⟨hmatches.enabled.trans (hold.enabled.symm.trans h.disabled), ?_, ?_⟩
    · exact Option.some.inj (hmatches.quota.symm.trans hold.quota)
    · exact Option.some.inj (hmatches.revision.symm.trans hold.revision)
  · refine ⟨fun hkept => ?_, fun hkeep => absurd hkeep hnot⟩
    obtain ⟨kept, hlookup, -, -, hrevision⟩ := hkept
    rw [hrow'] at hlookup
    cases hlookup
    rw [heq] at hmatches
    have hnewer := h.bindingTombstone_lt hmatches.revision
    omega

/-- A channel that does not keep an enabled instruction's row enables the binding. -/
theorem Contested.hasRow_enabled (henabled : user.enabled = true) {keep : Bool}
    (hnot : ¬(keep = true ∧ row.parked = false))
    (hmatches : s'.HasRow user.bindingId (·.Matches (keptOr keep row user))) :
    s'.HasRow user.bindingId (·.enabled = true) := by
  rcases keptOr_cases keep row user with ⟨hkeep, hparked, -⟩ | ⟨-, heq⟩
  · exact absurd ⟨hkeep, hparked⟩ hnot
  · rw [heq] at hmatches
    exact hmatches.mono fun row' hrow' => hrow'.enabled.trans henabled

/-- A row that was cut off is one that `HasUsageDisabledUsers` finds. -/
theorem hasUsageDisabledUsers_of_cutOff {b : String} (hrow : s.rows.lookup b = some row)
    (hcut : row.cutOff = true) : s.hasUsageDisabledUsers = true :=
  List.any_eq_true.2 ⟨(b, row), Table.mem_pairs.2 hrow, hcut⟩

/-! ## The command channel -/

theorem Contested.keepLocalCutoff (h : Contested s users user row) :
    Processor.keepLocalCutoff s user = keptOr row.cutOff row user := by
  unfold Processor.keepLocalCutoff keptOr
  rw [h.userByBindingId]
  have hoffline : s.offlineDisabled user.bindingId =
      decide (0 < row.offlineUsed ∧ row.offlineAllowance ≤ row.offlineUsed) := by
    unfold Store.offlineDisabled
    rw [h.stored]
    dsimp only
    rw [h.disabled]
    rfl
  cases hdesired : Store.desired user.bindingId row with
  | none => simp
  | some held =>
    have hheld := Store.desired_matches hdesired
    have hdisabled := hheld.enabled.symm.trans h.disabled
    dsimp only
    rw [hoffline, hheld.quota, hdisabled]
    unfold UserRow.cutOff
    rw [h.disabled]
    by_cases hquota : row.quotaRemaining = 0 <;> simp [hquota]

/-- What the command channel leaves in the row of a contested binding. -/
theorem reconcileCommand_matches {command : Command} {w₀ : World} {revision : Nat}
    (hpending : w₀.store.batches ≠ []) (hrevision : command.targetRevision = some revision)
    (hconfig : w₀.store.configRevision ≤ revision)
    (hlisted : Processor.reconcileUsers command w₀.store.configSnapshot = .ok users)
    (hdistinct : Processor.distinctBindings users = .ok ())
    (h : Contested w₀.store users user row) :
    Triple (fun w => w = w₀) (Processor.reconcileCommand deps command)
      (fun _ w => w.store.HasRow user.bindingId (·.Matches (keptOr row.cutOff row user)))
      fun _ => True := by
  refine Triple.bindPeek fun w hw => ?_
  subst hw
  refine Triple.bindLift (fun _ _ => trivial) fun plan hplan => ?_
  obtain ⟨listed, merged, hlisted', -, hmerged, -, hplanned⟩ := Processor.planReconcile_eq_ok hplan
  rw [hlisted] at hlisted'
  cases hlisted'
  refine Triple.bindPeek fun w hw => ?_
  subst hw
  have hentry : Entry plan.1 (keptOr row.cutOff row user) := by
    have hbatches : w.store.batches.isEmpty = false := by simpa using hpending
    rw [hplanned, hbatches, ← h.keepLocalCutoff]
    refine Entry.map (fun other => ?_) ?_
    · rcases Processor.keepLocalCutoff_eq w.store other with heq | ⟨-, hb, -⟩
      · rw [heq]
      · exact hb
    · exact (Processor.distinctBindings_entry hdistinct h.named).merge
        (h.mergeUser (SameHistory.refl _)) rfl hmerged
  have happly := Processor.applyUsers_spec deps plan.2
    ⟨w.store.nodeId, command.targetRevision, plan.2, plan.1⟩
    (Store.upserts_matches _) hrevision hconfig hentry
  rw [keptOr_bindingId] at happly
  refine happly.pre fun w' hw' => ?_
  subst hw'
  exact ⟨h.awaits_keptOr _, rfl, rfl, rfl, rfl⟩

/-! ## The refresh channel -/

/-- What a prepared snapshot is. -/
theorem Processor.prepareSnapshot_eq_ok {snapshot prepared : ConfigSnapshot}
    (h : prepareSnapshot snapshot s = .ok prepared) :
    distinctBindings snapshot.users = .ok () ∧ ∃ merged,
      mergeNewerBindings snapshot.users snapshot.revision s = .ok merged ∧
        prepared = { snapshot with users := merged } := by
  obtain ⟨_, -, h⟩ := bind_eq_ok.1 h
  obtain ⟨_, -, h⟩ := bind_eq_ok.1 h
  obtain ⟨_, hdistinct, h⟩ := bind_eq_ok.1 h
  obtain ⟨_, -, h⟩ := bind_eq_ok.1 h
  obtain ⟨merged, hmerged, h⟩ := bind_eq_ok.1 h
  cases h
  exact ⟨hdistinct, merged, hmerged, rfl⟩

/-- Without a user that was cut off there is nothing to restore. -/
theorem Runner.restoreOfflineUsers_eq (hnone : s.hasUsageDisabledUsers = false)
    (hok : Runner.restoreOfflineUsers users s = .ok s') : s' = s := by
  obtain ⟨recovered, hrecovered, hok⟩ := bind_eq_ok.1 hok
  have hempty : recovered = [] := by
    rw [filterM_eq_ok hrecovered, List.filter_eq_nil_iff]
    intro other _ haccepted
    rw [accepted_eq_true] at haccepted
    unfold Runner.restorable at haccepted
    split at haccepted
    · cases haccepted
    · split at haccepted
      · cases haccepted
      · obtain ⟨older, -, haccepted⟩ := bind_eq_ok.1 haccepted
        split at haccepted
        · cases haccepted
        · have hoffline : s.offlineDisabled other.bindingId = true := by
            have hboth := Except.ok.inj haccepted
            rw [Bool.and_eq_true] at hboth
            exact hboth.2
          unfold Store.offlineDisabled at hoffline
          split at hoffline
          · cases hoffline
          · next row hrow =>
            have hcut : row.cutOff = true := by
              rw [Bool.and_eq_true, decide_eq_true_iff] at hoffline
              unfold UserRow.cutOff
              rw [Bool.and_eq_true, decide_eq_true_iff]
              exact ⟨hoffline.1, .inr hoffline.2⟩
            rw [hasUsageDisabledUsers_of_cutOff hrow hcut] at hnone
            cases hnone
  subst hempty
  cases hok
  rfl

/-- `withLocalDisables` keeps every disabled user. -/
theorem Contested.withLocalDisables (h : Contested s users user row) {incoming : List DesiredUser}
    (hentry : Entry incoming user) :
    Entry (Runner.withLocalDisables incoming s.listDesiredUsers) (keptOr true row user) := by
  have hkept : keptOr true row user = (s.listDesiredUsers.find? fun held =>
      !held.enabled && held.bindingId = user.bindingId).getD user := by
    rw [s.find?_filter_listDesiredUsers user.bindingId fun held => !held.enabled, h.userByBindingId]
    unfold keptOr
    rw [if_pos rfl]
    cases hdesired : Store.desired user.bindingId row with
    | none => rfl
    | some held =>
      have hdisabled := (Store.desired_matches hdesired).enabled.symm.trans h.disabled
      rw [Option.filter_some, if_pos (by rw [hdisabled]; rfl)]
  rw [hkept]
  refine Entry.map (fun other => ?_) hentry
  cases hfound : s.listDesiredUsers.find? fun held =>
      !held.enabled && held.bindingId = other.bindingId with
  | none => rfl
  | some held =>
    have hb : held.enabled = false ∧ held.bindingId = other.bindingId := by
      simpa using List.find?_some hfound
    exact hb.2

/-- What a refresh is about to apply. -/
theorem refreshedUsers_entry {snapshot prepared : ConfigSnapshot} {s₀ : Store} {w₀ : World}
    (hpending : w₀.store.batches ≠ [])
    (hprepared : Processor.prepareSnapshot snapshot s₀ = .ok prepared)
    (hsame : SameHistory s₀ w₀.store) (h : Contested w₀.store snapshot.users user row) :
    Triple (fun w => w = w₀) (Runner.refreshedUsers snapshot prepared)
      (fun next w => w.store = w₀.store ∧ next.revision = snapshot.revision ∧
        Entry next.users (keptOr w₀.store.hasUsageDisabledUsers row user)) fun _ => True := by
  obtain ⟨hdistinct, merged, hmerged, rfl⟩ := Processor.prepareSnapshot_eq_ok hprepared
  have hentry := Processor.distinctBindings_entry hdistinct h.named
  refine Triple.bindPeek fun w hw => ?_
  subst hw
  have hpreserve : Runner.preserveLocalDisables w.store = w.store.hasUsageDisabledUsers := by
    have hbatches : w.store.batches.isEmpty = false := by simpa using hpending
    unfold Runner.preserveLocalDisables
    rw [hbatches]
    rfl
  rw [hpreserve]
  cases hany : w.store.hasUsageDisabledUsers with
  | true =>
    refine Triple.bindPeek fun w hw => ?_
    subst hw
    refine Triple.pure fun w' hw' => ?_
    subst hw'
    exact ⟨rfl, rfl, h.withLocalDisables (hentry.merge (h.mergeUser hsame) rfl hmerged)⟩
  | false =>
    refine Triple.bind (S := fun _ w' => w'.store = w.store) (Triple.atomic ?_ fun _ _ => trivial)
      fun _ => ?_
    · intro w₁ a w₂ hw₁ hrun
      subst hw₁
      obtain ⟨t, hok, hrun⟩ := map_eq_ok.1 hrun
      cases hrun
      exact ⟨Runner.restoreOfflineUsers_eq hany hok, trivial⟩
    refine Triple.bindPeek fun w₁ hw₁ => ?_
    rw [hw₁]
    cases hagain : Processor.prepareSnapshot snapshot w.store with
    | error e => exact Triple.fail fun _ _ => trivial
    | ok again =>
      obtain ⟨-, merged', hmerged', rfl⟩ := Processor.prepareSnapshot_eq_ok hagain
      refine Triple.pure fun w₂ hw₂ => ?_
      subst hw₂
      exact ⟨hw₁, rfl, hentry.merge (h.mergeUser (SameHistory.refl _)) rfl hmerged'⟩

/-- What the refresh channel leaves in the row of a contested binding. -/
theorem settleRefresh_matches {snapshot prepared : ConfigSnapshot} {s₀ : Store} {w₀ : World}
    {revision : Nat} (hpending : w₀.store.batches ≠ [])
    (hrevision : snapshot.revision = some revision)
    (hconfig : w₀.store.configRevision ≤ revision)
    (hprepared : Processor.prepareSnapshot snapshot s₀ = .ok prepared)
    (hsame : SameHistory s₀ w₀.store) (h : Contested w₀.store snapshot.users user row) :
    Triple (fun w => w = w₀) (Runner.settleRefresh deps snapshot prepared)
      (fun _ w => w.store.HasRow user.bindingId
        (·.Matches (keptOr w₀.store.hasUsageDisabledUsers row user))) fun _ => True := by
  refine Triple.bind (refreshedUsers_entry hpending hprepared hsame h) fun next => ?_
  refine Triple.bind (S := fun _ w => w.store.HasRow user.bindingId
    (·.Matches (keptOr w₀.store.hasUsageDisabledUsers row user))) ?_ fun _ => ?_
  · refine Triple.bindPeek fun w hw => ?_
    obtain ⟨hstore, hnext, hentry⟩ := hw
    refine Triple.bindLift (fun _ _ => trivial) fun prepared hprepared => ?_
    obtain ⟨-, merged, hmerged, rfl⟩ := Processor.prepareSnapshot_eq_ok hprepared
    rw [hstore] at hmerged
    have hmergedEntry := hentry.merge (h.mergeUser_keptOr _) rfl hmerged
    refine Triple.bindPeek fun w₁ hw₁ => ?_
    subst hw₁
    refine Triple.bindLift (fun _ _ => trivial) fun older holder => ?_
    have holder' : older = false := by
      rw [hnext, hrevision, decimalLess_some, hstore] at holder
      exact (Except.ok.inj holder).symm.trans (decide_eq_false (Nat.not_lt.2 hconfig))
    subst holder'
    have happly := Processor.applyUsers_spec deps next.controlMode
      { next with users := merged } (Store.upserts_matches _)
      (hnext.trans hrevision) hconfig hmergedEntry
    rw [keptOr_bindingId] at happly
    refine happly.pre fun w' hw' => ?_
    subst hw'
    rw [hstore]
    exact ⟨h.awaits_keptOr _, rfl, rfl, rfl, rfl⟩
  · exact Triple.poke fun w hw => hw

/-! ## The exact condition -/

/-- No row that the snapshot contests is cut off while its address is parked, and if any row of
the store was cut off, so was every contested one that is not parked. -/
def SettlementsTold (s : Store) (users : List DesiredUser) : Prop :=
  (∀ user row, Contested s users user row → row.cutOff = true → row.parked = false) ∧
    (s.hasUsageDisabledUsers = false ∨
      ∀ user row, Contested s users user row → row.parked = false → row.cutOff = true)

/-- The channels keep what they should, if and only if nothing but the users that were cut off
is disabled when a user was cut off. -/
theorem channelsAgree_iff {command refresh : Store}
    (hcommand : ∀ user row, Contested s users user row →
      command.HasRow user.bindingId (·.Matches (keptOr row.cutOff row user)))
    (hrefresh : ∀ user row, Contested s users user row →
      refresh.HasRow user.bindingId (·.Matches (keptOr s.hasUsageDisabledUsers row user))) :
    ChannelsAgree s command refresh users ↔ SettlementsTold s users := by
  constructor
  · intro h
    refine ⟨fun user row hrow hcut => ?_, ?_⟩
    · have hkept := (h user row hrow).1.2 hcut
      exact ((hrow.keptAs_iff (hcommand user row hrow)).1 hkept).2
    · cases hany : s.hasUsageDisabledUsers with
      | false => exact .inl rfl
      | true =>
        refine .inr fun user row hrow hparked => (h user row hrow).2.1.1 ?_
        exact (hrow.keptAs_iff (hrefresh user row hrow)).2 ⟨hany, hparked⟩
  · rintro ⟨hunparked, htold⟩ user row hrow
    have hcommandKept := hrow.keptAs_iff (hcommand user row hrow)
    have hrefreshKept := hrow.keptAs_iff (hrefresh user row hrow)
    have hcut : s.hasUsageDisabledUsers = true ∧ row.parked = false → row.cutOff = true := by
      rintro ⟨hany, hparked⟩
      rcases htold with hnone | hall
      · rw [hany] at hnone
        cases hnone
      · exact hall user row hrow hparked
    refine ⟨?_, ?_, fun hnot henabled => ⟨?_, ?_⟩⟩
    · rw [hcommandKept]
      exact ⟨fun hkept => hkept.1, fun hcut => ⟨hcut, hunparked user row hrow hcut⟩⟩
    · rw [hrefreshKept]
      exact ⟨hcut, fun hcut => ⟨hasUsageDisabledUsers_of_cutOff hrow.stored hcut,
        hunparked user row hrow hcut⟩⟩
    · refine Contested.hasRow_enabled henabled (fun hkept => ?_) (hcommand user row hrow)
      rw [hkept.1] at hnot
      cases hnot
    · refine Contested.hasRow_enabled henabled (fun hkept => ?_) (hrefresh user row hrow)
      rw [hcut hkept] at hnot
      cases hnot

/-- A snapshot that both channels accept while a batch is pending. -/
structure Accepted (deps : Deps) (command : Command) (snapshot : ConfigSnapshot) (w : World)
    (commandFates refreshFates : List Fate) (prepared : ConfigSnapshot) : Prop where
  pending : w.store.batches ≠ []
  revision : command.targetRevision = snapshot.revision
  current : decimalLess snapshot.revision (some w.store.configRevision) = .ok false
  users : Processor.reconcileUsers command w.store.configSnapshot = .ok snapshot.users
  /-- The refresh was prepared before its final sample. -/
  preparation : ∃ s₀, SameHistory s₀ w.store ∧ Processor.prepareSnapshot snapshot s₀ = .ok prepared
  commandRuns : result? (Processor.reconcileCommand deps command) w commandFates = some ()
  refreshRuns : result? (Runner.settleRefresh deps snapshot prepared) w refreshFates = some ()

/-- The two channels agree on what a pending settlement protects, exactly when the condition
holds. -/
theorem channels_agree_iff {command : Command} {snapshot prepared : ConfigSnapshot} {w : World}
    {commandFates refreshFates : List Fate}
    (h : Accepted deps command snapshot w commandFates refreshFates prepared) :
    ChannelsAgree w.store
        (finalWorld (Processor.reconcileCommand deps command) w commandFates).store
        (finalWorld (Runner.settleRefresh deps snapshot prepared) w refreshFates).store
        snapshot.users ↔
      SettlementsTold w.store snapshot.users := by
  obtain ⟨s₀, hsame, hprepared⟩ := h.preparation
  obtain ⟨revision, hrevision, hconfig⟩ := decimalLess_eq_false.1 h.current
  have hdistinct := (Processor.prepareSnapshot_eq_ok hprepared).1
  refine channelsAgree_iff (fun user row hrow => ?_) fun user row hrow => ?_
  · exact (reconcileCommand_matches h.pending (h.revision.trans hrevision) hconfig h.users hdistinct
      hrow).of_result rfl h.commandRuns
  · exact (settleRefresh_matches h.pending hrevision hconfig hprepared hsame hrow).of_result rfl
      h.refreshRuns

/-! ## A user that the control plane disabled -/

namespace TwoChannels

open Delayed

/-- Twenty bytes of the first user. -/
def reading : Reading where
  stats := fun email => if email = "a" then (20, 0) else (0, 0)

/-- The control plane disables the second user. -/
def disable : Step :=
  (.command { commandId := "disable", type := .disableUser, targetRevision := some 7
              payload := { bindingId := "b" } } reading, [])

/-- The quota of the first user is used up, and the second one was disabled remotely. -/
def world : World :=
  World.run {} {} [adopt, ensure "a" "a" 5, ensure "b" "b" 6, (.sample {}, []),
    (.sample reading, []), disable]

/-- The user as a later snapshot names it. -/
def renewed (bindingId : String) : DesiredUser :=
  { bindingId, revision := some 8, email := bindingId, uuid := identity bindingId
    quotaRemainingBytes := some 50 }

/-- The same users at revision 8, over the one channel. -/
def reconcile (bindings : List String) : Command :=
  { commandId := "again", type := .reconcileUsers, targetRevision := some 8
    payload := { users := .items (bindings.map fun bindingId => some
      { bindingId, email := bindingId, uuid := identity bindingId
        quotaRemainingBytes := some (some 50) }) } }

/-- The same users at revision 8, over the other channel. -/
def snapshot (bindings : List String) : ConfigSnapshot :=
  { nodeId := "node", revision := some 8, controlMode := .directPrimary,
    users := bindings.map renewed }

/-- The store after the users have been listed by a command. -/
def byCommand (bindings : List String) : Store :=
  (finalWorld (Processor.reconcileCommand {} (reconcile bindings)) world []).store

/-- The store after the users have been listed by a refresh. -/
def byRefresh (bindings : List String) : Store :=
  (finalWorld (Runner.settleRefresh {} (snapshot bindings) (snapshot bindings)) world []).store

/-- What can be checked of the acceptance by running both channels. -/
theorem runs (bindings : List String) (h : bindings = ["a"] ∨ bindings = ["a", "b"]) :
    world.store.batches ≠ [] ∧
      decimalLess (some 8) (some world.store.configRevision) = .ok false ∧
      Processor.reconcileUsers (reconcile bindings) world.store.configSnapshot =
        .ok (snapshot bindings).users ∧
      Processor.prepareSnapshot (snapshot bindings) world.store = .ok (snapshot bindings) ∧
      result? (Processor.reconcileCommand {} (reconcile bindings)) world [] = some () ∧
      result? (Runner.settleRefresh {} (snapshot bindings) (snapshot bindings)) world [] =
        some () := by
  rcases h with rfl | rfl <;> decide +kernel

theorem accepted (bindings : List String) (h : bindings = ["a"] ∨ bindings = ["a", "b"]) :
    Accepted {} (reconcile bindings) (snapshot bindings) world [] [] (snapshot bindings) := by
  obtain ⟨hpending, hcurrent, husers, hprepared, hcommand, hrefresh⟩ := runs bindings h
  exact ⟨hpending, rfl, hcurrent, husers, ⟨world.store, SameHistory.refl _, hprepared⟩, hcommand,
    hrefresh⟩

end TwoChannels

open TwoChannels in
/-- With only the cut-off user contested both channels keep it. -/
theorem channels_agree_iff_cut :
    ChannelsAgree world.store (byCommand ["a"]) (byRefresh ["a"]) (snapshot ["a"]).users := by
  have hrow : (world.store.rows.lookup "a").all fun row => row.cutOff && !row.parked := by
    decide +kernel
  have hcut : ∀ user row, Contested world.store (snapshot ["a"]).users user row →
      row.cutOff = true ∧ row.parked = false := by
    intro user row h
    obtain rfl : user = renewed "a" := List.mem_singleton.1 h.named
    have hlookup : world.store.rows.lookup "a" = some row := h.stored
    rw [hlookup] at hrow
    simpa using hrow
  refine (channels_agree_iff (accepted ["a"] (.inl rfl))).2
    ⟨fun user row h _ => (hcut user row h).2, .inr ?_⟩
  exact fun user row h _ => (hcut user row h).1

open TwoChannels in
/-- A refresh keeps the user that the control plane disabled and enables again, because another
user was cut off.  The command channel enables it. -/
theorem refresh_keeps_remote_disable :
    Accepted {} (reconcile ["a", "b"]) (snapshot ["a", "b"]) world [] [] (snapshot ["a", "b"]) ∧
      ((byCommand ["a", "b"]).rows.lookup "b").map (·.enabled) = some true ∧
      ((byRefresh ["a", "b"]).rows.lookup "b").map (·.enabled) = some false ∧
      ¬ChannelsAgree world.store (byCommand ["a", "b"]) (byRefresh ["a", "b"])
        (snapshot ["a", "b"]).users := by
  have hrefresh : ((byRefresh ["a", "b"]).rows.lookup "b").map (·.enabled) = some false := by
    decide +kernel
  refine ⟨accepted _ (.inr rfl), by decide +kernel, hrefresh, fun h => ?_⟩
  have hrow : ∃ row, world.store.rows.lookup "b" = some row ∧ row.enabled = false ∧
      row.revision = 7 ∧ row.cutOff = false := by
    have hall : (world.store.rows.lookup "b").any fun row =>
        !row.enabled && decide (row.revision = 7) && !row.cutOff := by decide +kernel
    obtain ⟨row, hlookup, hrow⟩ := (Option.any_eq_true _ _).1 hall
    exact ⟨row, hlookup, by simpa [and_assoc] using hrow⟩
  obtain ⟨row, hlookup, hdisabled, hrevision, hcut⟩ := hrow
  have hcontested : Contested world.store (snapshot ["a", "b"]).users (renewed "b") row :=
    ⟨by decide, hlookup, hdisabled, 8, rfl, by omega, by decide +kernel⟩
  obtain ⟨-, row', hlookup', henabled⟩ := (h _ row hcontested).2.2 hcut rfl
  have hlookup'' : (byRefresh ["a", "b"]).rows.lookup "b" = some row' := hlookup'
  rw [hlookup'', Option.map_some, henabled] at hrefresh
  cases hrefresh

end ChordV.Agent
