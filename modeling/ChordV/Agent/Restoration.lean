import ChordV.Agent.Channels
import ChordV.Agent.Outbox

/-!
# Bringing back users that were cut off

A user that the node cut off comes back with a snapshot, once no batch is pending.  A newer
revision brings every user back.  At its own revision a user comes back only if it was cut off for
its offline allowance: it has quota left, it is the same account, and no terminal command has left
a tombstone.

* `reconcile_carries` says that a reconciliation that returns has installed its enabled users.
* `Renewed` is the snapshot that brings a user back, and `cutoffs_are_restored` the result for a
  whole refresh.
* `exhausted_user_waits_for_a_newer_revision` is a user whose quota was used up.
-/

namespace ChordV.Agent

open Lib Fallible

variable {deps : Deps} {s s' : Store} {user : DesiredUser} {users : List DesiredUser}
    {row : UserRow}

/-! ## A reconciliation installs its users -/

namespace Adapter

/-- The statement that the address carries the identity reads the inbound alone. -/
theorem Carries.of_xray {w w' : World} (h : Carries user w) (hxray : w'.xray = w.xray) :
    Carries user w' := by
  obtain ⟨id, account, hid, hlookup, huuid⟩ := h
  exact ⟨id, account, hid, hxray ▸ hlookup, huuid⟩

theorem Carries.of_lookup {w w' : World} (h : Carries user w)
    (hlookup : w'.xray.accounts.lookup user.email = w.xray.accounts.lookup user.email) :
    Carries user w' := by
  obtain ⟨id, account, hid, hfound, huuid⟩ := h
  exact ⟨id, account, hid, hlookup.trans hfound, huuid⟩

theorem keeps_carries_write {f : Store → Store} : Keeps (Carries user) (write f) := by
  refine Keeps.atomic fun w a w' hw hrun => ?_
  cases hrun
  exact hw.of_xray rfl

theorem keeps_carries_removeUser {email : String} {expect : Expectation}
    (hne : user.email ≠ email) :
    Keeps (Carries user) (removeUser email expect) := by
  have hremoved : ∀ w₀ w, Carries user w₀ → Removed email w₀ w → Carries user w := by
    rintro w₀ w hw (rfl | rfl)
    · exact hw
    · exact hw.of_lookup (by rw [Xray.lookup_remove, if_neg hne])
  refine Triple.atWorld fun w₀ hw => ?_
  exact (removeUser_spec w₀).conseq (fun _ h => h) (fun _ w h => hremoved w₀ w hw h.1)
    fun w h => hremoved w₀ w hw h

theorem keeps_carries_ensureUser {other : DesiredUser} {expect : Expectation}
    (hne : user.email ≠ other.email) : Keeps (Carries user) (ensureUser deps other expect) := by
  refine Triple.atWorld fun w₀ hw => ?_
  exact (ensureUser_spec w₀).conseq (fun _ h => h) (fun _ w h => hw.of_lookup (h.1.others _ hne))
    fun w h => hw.of_lookup (h.others _ hne)

end Adapter

namespace Processor

open Adapter

theorem keeps_carries_clearPendingRemoval {emails : List String} :
    Keeps (Adapter.Carries user) (clearPendingRemoval emails) :=
  Keeps.ite (fun _ => Keeps.pure) fun _ => keeps_carries_write

theorem keeps_carries_clearPending {stillPending : List String} {email : String} :
    Keeps (Adapter.Carries user) (clearPending stillPending email) :=
  Keeps.ite (fun _ => Keeps.bind keeps_carries_clearPendingRemoval fun _ => Keeps.pure)
    fun _ => Keeps.pure

/-- Settling another user leaves the account alone. -/
theorem keeps_carries_settleUser {live liveNow : List LiveUser} {ours stillPending : List String}
    {other : DesiredUser} (hne : user.email ≠ other.email) :
    Keeps (Adapter.Carries user) (settleUser deps live liveNow ours stillPending other) := by
  refine Keeps.ite (fun _ => ?_) fun _ => Keeps.ite (fun _ => Keeps.pure) fun _ => ?_
  · refine Keeps.bind keeps_carries_write fun _ => ?_
    refine Keeps.bind (keeps_carries_ensureUser hne) fun _ => ?_
    exact Keeps.bind keeps_carries_write fun _ => keeps_carries_clearPending
  · exact Keeps.bind (keeps_carries_removeUser hne) fun _ => keeps_carries_clearPending

/-- Settling an enabled user installs its account. -/
theorem settleUser_carries {live liveNow : List LiveUser} {ours stillPending : List String}
    (henabled : user.enabled = true) :
    Triple (fun _ => True) (settleUser deps live liveNow ours stillPending user)
      (fun _ => Adapter.Carries user) fun _ => True := by
  unfold settleUser
  rw [if_pos henabled]
  refine Triple.bind Triple.trivial fun _ => ?_
  refine Triple.bind (S := fun _ => Adapter.Carries user) ?_ fun _ => ?_
  · refine Triple.atWorld fun w₀ _ => ?_
    exact (ensureUser_spec w₀).conseq (fun _ h => h) (fun _ _ h => h.2) fun _ _ => trivial
  · refine Triple.conseq (Keeps.bind keeps_carries_write fun _ => keeps_carries_clearPending)
      (fun _ hw => hw) (fun _ _ hw => hw) fun _ _ => trivial

/-- A reconciliation that returns has installed its enabled users. -/
theorem reconcile_carries (hmem : user ∈ users) (henabled : user.enabled = true) :
    Triple (fun _ => True) (reconcile deps users) (fun _ => Adapter.Carries user) fun _ =>
      True := by
  refine Triple.bind Triple.trivial fun ready => Triple.ite (fun _ => ?_) fun _ => ?_
  · -- Without an inbound only the empty list passes.
    refine (Triple.ensure fun _ _ => trivial).post fun _ w hw => ?_
    rw [List.isEmpty_iff.1 hw.1] at hmem
    cases hmem
  refine Triple.bindLift (fun _ _ => trivial) fun _ hdistinct => ?_
  have hne : ∀ other ∈ users, other ≠ user → user.email ≠ other.email := fun other hother hne heq =>
    hne (List.inj_on_of_nodup_map (distinctBindings_nodup hdistinct).2 hother hmem heq.symm)
  refine Triple.bind Triple.trivial fun live => Triple.bind Triple.trivial fun recorded => ?_
  refine Triple.bind Triple.trivial fun _ => Triple.bind Triple.trivial fun ours => ?_
  refine Triple.bind Triple.trivial fun pending => Triple.bind Triple.trivial fun _ => ?_
  refine Triple.bind Triple.trivial fun released => Triple.bind Triple.trivial fun _ => ?_
  refine Triple.bind (S := fun _ => Adapter.Carries user) ?_ fun stillPending => ?_
  · -- The account is installed once its user is no longer among those to come.
    refine (Triple.foldlM (J := fun rest _ w => user ∈ rest ∨ Adapter.Carries user w) ?_).conseq
      (fun _ _ => .inl hmem) (fun _ _ hw => hw.resolve_left List.not_mem_nil) fun _ hw => hw
    intro other rest acc hsuffix
    by_cases hcomes : user ∈ rest
    · exact Triple.trivial.conseq (fun _ hw => hw) (fun _ _ _ => .inl hcomes) fun _ hw => hw
    by_cases hother : other = user
    · subst hother
      exact (settleUser_carries henabled).conseq (fun _ _ => trivial) (fun _ _ hw => .inr hw)
        fun _ hw => hw
    · refine Triple.conseq (keeps_carries_settleUser
        (hne other (hsuffix.subset List.mem_cons_self) hother))
        (fun w hw => ?_) (fun _ _ hw => .inr hw) fun _ _ => trivial
      rcases hw with hlisted | hcarries
      · rcases List.mem_cons.1 hlisted with rfl | hlater
        · exact absurd rfl hother
        · exact absurd hlater hcomes
      · exact hcarries
  · have hretire : ∀ retired account,
        Keeps (Adapter.Carries user) (retireAccount deps users ours retired account) := by
      intro retired account
      refine Keeps.ite (fun _ => Keeps.pure) fun hunwanted =>
        Keeps.ite (fun _ => ?_) fun _ => Keeps.pure
      refine Keeps.bind (keeps_carries_removeUser fun heq => hunwanted ?_) fun _ => Keeps.pure
      exact List.any_eq_true.2 ⟨user, hmem, decide_eq_true heq⟩
    have hrest : Keeps (Adapter.Carries user) (live.foldlM (retireAccount deps users ours) []) :=
      Keeps.foldlM fun retired account _ => hretire retired account
    refine Triple.bind (hrest.conseq (fun _ hw => hw) (fun _ _ hw => hw) fun _ _ => trivial)
      fun removed => ?_
    refine Triple.conseq (Keeps.bind keeps_carries_clearPendingRemoval fun _ => ?_)
      (fun _ hw => hw) (fun _ _ hw => hw) fun _ _ => trivial
    exact Keeps.ite (fun _ => Keeps.pure) fun _ => keeps_carries_write

end Processor

/-! ## The row comes back -/

/-- The instruction is newer than the row, or about an enabled row of its own revision. -/
def UserRow.Serves (row : UserRow) (user : DesiredUser) : Prop :=
  ∃ revision, user.revision = some revision ∧
    (row.revision < revision ∨ (row.revision = revision ∧ row.enabled = true))

/-- An enabled instruction leaves an enabled row. -/
theorem Store.upserts_serves (henabled : user.enabled = true) :
    Upserts user (·.Serves user) fun row => user.revision = some row.revision ∧
      row.enabled = true where
  upsert := by
    rintro s s' ⟨row, hrow, r, hr, hserves⟩ hok
    obtain ⟨revision, hrevision, ⟨hrejected, rfl⟩ | ⟨row', hrow', hmatches⟩⟩ :=
      upsertDesiredUserTx_own hrow hok
    · obtain rfl := Option.some.inj (hrevision.symm.trans hr)
      rcases hserves with hnewer | ⟨hsame, hserving⟩
      · rw [upsertApplies_of_lt hnewer] at hrejected
        cases hrejected
      · exact ⟨row, hrow, hsame ▸ hr, hserving⟩
    · exact ⟨row', hrow', hmatches.revision, hmatches.enabled.trans henabled⟩
  again := fun row h => ⟨row.revision, h.1, .inr ⟨rfl, h.2⟩⟩
  parked := fun _ h => h

/-- The user was cut off for its offline allowance, and the instruction is about the account as
it is stored. -/
structure OfflineCutoff (s : Store) (user : DesiredUser) (row : UserRow) : Prop where
  revision : user.revision = some row.revision
  address : row.address = .real user.email
  uuid : row.uuid = user.uuid
  quotaLeft : 0 < row.quotaRemaining
  offline : 0 < row.offlineUsed ∧ row.offlineAllowance ≤ row.offlineUsed
  tombstone : s.bindingTombstone user.bindingId = 0

/-- The instruction is newer than the row and the tombstone of the binding. -/
def NewerThan (s : Store) (user : DesiredUser) (row : UserRow) : Prop :=
  ∃ revision, user.revision = some revision ∧ row.revision < revision ∧
    s.bindingTombstone user.bindingId < revision

/-- The snapshot brings a user back that the node cut off. -/
structure Renewed (s : Store) (snapshot : ConfigSnapshot) (user : DesiredUser) (row : UserRow) :
    Prop where
  named : user ∈ snapshot.users
  enabled : user.enabled = true
  quota : ∃ quota, user.quotaRemainingBytes = some quota ∧ 0 < quota
  stored : s.rows.lookup user.bindingId = some row
  cut : row.cutOff = true
  revision : NewerThan s user row ∨ OfflineCutoff s user row

namespace Renewed

variable {snapshot : ConfigSnapshot}

theorem disabled (h : Renewed s snapshot user row) : row.enabled = false := by
  have hcut := h.cut
  rw [UserRow.cutOff, Bool.and_eq_true, Bool.not_eq_true'] at hcut
  exact hcut.1

/-- The part of the store that decides whether the user comes back. -/
theorem of_same (h : Renewed s snapshot user row) (hrow : s'.rows.lookup user.bindingId = some row)
    (htombstones : s'.tombstones = s.tombstones) : Renewed s' snapshot user row := by
  have hfloor := Store.bindingTombstone_congr htombstones user.bindingId
  refine { h with stored := hrow, revision := h.revision.imp ?_ fun hcut => ?_ }
  · rintro ⟨revision, hrevision, hnewer, htombstone⟩
    exact ⟨revision, hrevision, hnewer, hfloor ▸ htombstone⟩
  · exact { hcut with tombstone := hfloor.trans hcut.tombstone }

/-- A restored row keeps its revision. -/
theorem restoreUserTx_revision {b : String} {other : DesiredUser} {revision : Nat}
    (h : s.HasRow b (·.revision = revision)) (hok : Store.restoreUserTx other s = .ok s') :
    s'.HasRow b (·.revision = revision) := by
  unfold Store.restoreUserTx at hok
  split at hok
  · cases hok
    exact h
  · next row hrow =>
    obtain ⟨backend, -, hok⟩ := bind_eq_ok.1 hok
    cases hok
    obtain ⟨row', hrow', hrevision⟩ := h
    by_cases hb : b = other.bindingId
    · subst hb
      rw [hrow] at hrow'
      cases hrow'
      exact ⟨_, AList.lookup_insert _, hrevision⟩
    · exact ⟨row', (AList.lookup_insert_ne hb).trans hrow', hrevision⟩

/-- The restore of another binding leaves the row alone. -/
theorem restoreUserTx_lookup_ne {b : String} {other : DesiredUser} (hb : other.bindingId ≠ b)
    (hok : Store.restoreUserTx other s = .ok s') : s'.rows.lookup b = s.rows.lookup b := by
  unfold Store.restoreUserTx at hok
  split at hok
  · cases hok
    rfl
  · obtain ⟨backend, -, hok⟩ := bind_eq_ok.1 hok
    cases hok
    exact AList.lookup_insert_ne hb.symm

/-- A user that was cut off for its offline allowance is one of those that are restored. -/
theorem restorable (h : Renewed s snapshot user row) (hcut : OfflineCutoff s user row) :
    Runner.restorable s user = .ok true := by
  have hheld : s.userByBindingId user.bindingId = some
      { bindingId := user.bindingId, email := user.email, uuid := row.uuid, flow := row.flow
        enabled := row.enabled, revision := some row.revision
        quotaRemainingBytes := some row.quotaRemaining
        offlineAllowanceBytes := some (some row.offlineAllowance) } := by
    unfold Store.userByBindingId Store.desired
    rw [h.stored, Option.bind_some, hcut.address]
  have hoffline : s.offlineDisabled user.bindingId = true := by
    unfold Store.offlineDisabled
    rw [h.stored]
    dsimp only
    rw [h.disabled, decide_eq_true hcut.offline]
    rfl
  have hquota : ¬row.quotaRemaining = 0 := Nat.ne_of_gt hcut.quotaLeft
  unfold Runner.restorable
  rw [Store.find?_listDesiredUsers, hheld]
  simp [h.disabled, h.enabled, hquota, hcut.uuid, hcut.revision, hcut.tombstone, hoffline]

/-- After the offline users were restored, the row serves the instruction. -/
theorem restoreOfflineUsers (h : Renewed s snapshot user row) (hentry : Entry snapshot.users user)
    (hok : Runner.restoreOfflineUsers snapshot.users s = .ok s') :
    s'.HasRow user.bindingId (·.Serves user) := by
  obtain ⟨recovered, hrecovered, hok⟩ := bind_eq_ok.1 hok
  have hfilter := filterM_eq_ok hrecovered
  rcases h.revision with ⟨revision, hrevision, hnewer, -⟩ | hcut
  · have hrow : s.HasRow user.bindingId (·.revision = row.revision) := ⟨row, h.stored, rfl⟩
    refine (foldlM_induct (fun _ _ _ _ hc => restoreUserTx_revision hc) hrow hok).mono ?_
    exact fun row' hrow' => ⟨revision, hrevision, .inl (hrow' ▸ hnewer)⟩
  · have hmem : user ∈ recovered := by
      rw [hfilter, List.mem_filter, accepted_eq_true]
      exact ⟨hentry.mem, h.restorable hcut⟩
    have honly : ∀ other ∈ recovered, other.bindingId = user.bindingId → other = user := by
      intro other hother
      rw [hfilter] at hother
      exact hentry.only other (List.mem_of_mem_filter hother)
    obtain ⟨quota, hquota, hpos⟩ := h.quota
    let funded := fun row' : UserRow => row'.revision = row.revision ∧ 0 < row'.quotaRemaining
    let back := fun row' : UserRow => funded row' ∧ row'.enabled = true
    have hown : ∀ t t' : Store, t.HasRow user.bindingId funded →
        Store.restoreUserTx user t = .ok t' → t'.HasRow user.bindingId back := by
      rintro t t' ⟨row', hrow', hfunded⟩ hrestore
      unfold Store.restoreUserTx at hrestore
      rw [hrow', hquota] at hrestore
      cases hrestore
      have hconfirmed : 0 < min row'.quotaRemaining quota := lt_min hfunded.2 hpos
      exact ⟨_, AList.lookup_insert _, ⟨hfunded.1, hconfirmed⟩, by simp [h.enabled, hconfirmed]⟩
    have hstep : ∀ R : UserRow → Prop, (∀ row', R row' → funded row') →
        (∀ row', back row' → R row') → ∀ t other t', other ∈ recovered →
          t.HasRow user.bindingId R → Store.restoreUserTx other t = .ok t' →
            t'.HasRow user.bindingId R := by
      intro R hR hback t other t' hother ht hrestore
      by_cases hb : other.bindingId = user.bindingId
      · obtain rfl := honly other hother hb
        exact (hown t t' (ht.mono hR) hrestore).mono hback
      · obtain ⟨row', hrow', hR'⟩ := ht
        exact ⟨row', (restoreUserTx_lookup_ne hb hrestore).trans hrow', hR'⟩
    obtain ⟨before, after, hsplit⟩ := List.append_of_mem hmem
    rw [hsplit] at hok
    unfold Store.restoreBackendConfirmedUsers at hok
    rw [List.foldlM_append, bind_eq_ok] at hok
    obtain ⟨t, hbefore, hok⟩ := hok
    rw [List.foldlM_cons, bind_eq_ok] at hok
    obtain ⟨t', hrestored, hafter⟩ := hok
    have hrow : s.HasRow user.bindingId funded := ⟨row, h.stored, rfl, hcut.quotaLeft⟩
    have ht : t.HasRow user.bindingId funded := by
      refine foldlM_induct (I := Store.HasRow user.bindingId funded) ?_ hrow hbefore
      intro c other c' hother
      refine hstep funded (fun _ hf => hf) (fun _ hf => hf.1) c other c' ?_
      exact hsplit ▸ List.mem_append_left _ hother
    have hend : s'.HasRow user.bindingId back := by
      refine foldlM_induct (I := Store.HasRow user.bindingId back)
        ?_ (hown t t' ht hrestored) hafter
      intro c other c' hother
      refine hstep back (fun _ hf => hf.1) (fun _ hf => hf) c other c' ?_
      exact hsplit ▸ List.mem_append_right _ (List.mem_cons_of_mem _ hother)
    exact hend.mono fun row' hrow' => ⟨row.revision, hcut.revision, .inr ⟨hrow'.1.1, hrow'.2⟩⟩

/-- The merge leaves the instruction to the snapshot. -/
theorem mergeUser (h : Renewed s snapshot user row) {t : Store}
    (hserves : t.HasRow user.bindingId (·.Serves user))
    (htombstones : t.tombstones = s.tombstones) :
    Processor.mergeUser t.listDesiredUsers t user = .ok (some user) := by
  obtain ⟨row', hrow', revision, hrevision, hserves⟩ := hserves
  refine Processor.mergeUser_of_current hrevision ?_ fun row₁ hrow₁ => ?_
  · rw [Store.bindingTombstone_congr htombstones]
    rcases h.revision with ⟨r, hr, -, htombstone⟩ | hcut
    · obtain rfl := Option.some.inj (hrevision.symm.trans hr)
      exact .inr htombstone
    · exact .inl hcut.tombstone
  · rw [hrow'] at hrow₁
    cases hrow₁
    exact hserves

end Renewed

/-! ## A whole refresh -/

theorem Store.SameMeta.restore {s₀ : Store} (h : SameMeta s₀ s)
    (hok : restoreBackendConfirmedUsers users s = .ok s') : SameMeta s₀ s' := by
  refine foldlM_induct (I := SameMeta s₀) ?_ h hok
  intro c other c' _ hc hstep
  unfold restoreUserTx at hstep
  split at hstep
  · cases hstep
    exact hc
  · obtain ⟨backend, -, hstep⟩ := bind_eq_ok.1 hstep
    cases hstep
    exact ⟨hc.nodeId, hc.configRevision, hc.snapshotRevision, hc.controlMode⟩

/-- What the final sample of a refresh keeps: the disabled row, the tombstones and the
revisions. -/
structure RowUntouched (w₀ : World) (b : String) (row : UserRow) (w : World) : Prop where
  row : w.store.rows.lookup b = some row
  tombstones : w.store.tombstones = w₀.store.tombstones
  same : Store.SameMeta w₀.store w.store

theorem RowUntouched.sample {w₀ : World} {b : String} (hdisabled : row.enabled = false)
    (reading : Reading) : Keeps (RowUntouched w₀ b row) (Runner.sample deps reading) := by
  have hsampled : Sampled (RowUntouched w₀ b row) := by
    refine ⟨fun w w' hrecords _ hw => ?_, fun _ _ _ _ _ w w' hrecords _ hw => ?_, ?_⟩
    · exact ⟨Store.rows_of_records hrecords ▸ hw.row,
        (Store.tombstones_of_records hrecords).trans hw.tombstones, hw.same.of_records hrecords⟩
    · exact ⟨Store.rows_of_records hrecords ▸ hw.row,
        (Store.tombstones_of_records hrecords).trans hw.tombstones, hw.same.of_records hrecords⟩
    · intro w counters sampledAt online hw
      let I := fun t : Store => t.rows.lookup b = some row ∧ t.tombstones = w₀.store.tombstones ∧
        Store.SameMeta w₀.store t
      have hI : I (w.store.recordSample counters sampledAt online).2 := by
        refine Store.recordSample_induct (I := I) (fun t _ _ ht => ?_) ?_ counters sampledAt online
          ⟨hw.row, hw.tombstones, hw.same⟩
        · exact ⟨ht.1, ht.2.1, ht.2.2.nodeId, ht.2.2.configRevision, ht.2.2.snapshotRevision,
            ht.2.2.controlMode⟩
        · intro t b' row' counter online hrow' henabled ht
          refine ⟨?_, ht.2.1, ht.2.2.nodeId, ht.2.2.configRevision, ht.2.2.snapshotRevision,
            ht.2.2.controlMode⟩
          have hne : b ≠ b' := by
            rintro rfl
            rw [ht.1] at hrow'
            cases hrow'
            rw [hdisabled] at henabled
            cases henabled
          exact (AList.lookup_insert_ne hne).trans ht.1
      exact ⟨hI.1, hI.2.1, hI.2.2⟩
  exact (hsampled.repairs deps).sample_keeps

/-- The binding is enabled and its account is installed. -/
def Restored (user : DesiredUser) (w : World) : Prop :=
  w.store.HasRow user.bindingId (·.enabled = true) ∧ Adapter.Carries user w

/-- A pending batch stays pending through a refresh. -/
theorem pending_outgoing : Outgoing fun w => w.store.batches ≠ [] where
  frame := by
    intro w w' houtbox hw
    rwa [Store.batches_of_outbox houtbox]
  recordSample := by
    intro w counters sampledAt online hw
    rcases w.store.recordSample_outbox counters sampledAt online with heq | ⟨samples, heq⟩
    · rwa [Store.batches_of_outbox heq]
    · have hbatches := congrArg Prod.fst heq
      dsimp only [Store.outbox] at hbatches ⊢
      rw [hbatches]
      exact List.append_ne_nil_of_right_ne_nil _ (List.cons_ne_nil _ _)
  initializeBoot := by
    intro w bootId hw
    unfold Store.initializeBoot
    split <;> exact hw

section Refresh

variable {snapshot : ConfigSnapshot} {w₀ : World} {revision : Nat}

theorem Renewed.applySnapshot (h : Renewed w₀.store snapshot user row) {next : ConfigSnapshot}
    (hmode : next.controlMode = .directPrimary) (hrevision : next.revision = some revision)
    (hconfig : w₀.store.configRevision ≤ revision) (hentry : Entry next.users user) :
    Triple (fun w => w.store.HasRow user.bindingId (·.Serves user) ∧
        w.store.tombstones = w₀.store.tombstones ∧ Store.SameMeta w₀.store w.store)
      (Processor.applySnapshot deps next) (fun _ => Restored user) fun _ => True := by
  refine Triple.bindPeek fun w ⟨hserves, htombstones, hsame⟩ => ?_
  refine Triple.bindLift (fun _ _ => trivial) fun prepared hprepared => ?_
  obtain ⟨-, merged, hmerged, rfl⟩ := Processor.prepareSnapshot_eq_ok hprepared
  have hmergedEntry := hentry.merge (h.mergeUser hserves htombstones) rfl hmerged
  refine Triple.bindPeek fun w₁ hw₁ => ?_
  subst hw₁
  refine Triple.bindLift (fun _ _ => trivial) fun older holder => ?_
  have holder' : older = false := by
    rw [hrevision, decimalLess_some] at holder
    have hle : w₁.store.configRevision ≤ revision := hsame.configRevision ▸ hconfig
    exact (Except.ok.inj holder).symm.trans (decide_eq_false (Nat.not_lt.2 hle))
  subst holder'
  have hrow := Processor.applyUsers_spec deps next.controlMode { next with users := merged }
    (Store.upserts_serves h.enabled) hrevision hconfig hmergedEntry
  have hcarries : Triple (fun _ => True)
      (do Processor.reconcileOrRemember deps next.controlMode merged
          let _ ← Processor.storeSnapshot { next with users := merged })
      (fun _ => Adapter.Carries user) fun _ => True := by
    refine Triple.bind (S := fun _ => Adapter.Carries user) ?_ fun _ => ?_
    · unfold Processor.reconcileOrRemember
      rw [if_pos hmode]
      exact Processor.reconcile_carries hmergedEntry.mem h.enabled
    · refine Triple.bind (S := fun _ => Adapter.Carries user)
        (Triple.atomic ?_ fun _ _ => trivial) fun _ => Triple.pure fun _ hw => hw
      intro w applied w' hw hrun
      obtain ⟨⟨applied', t⟩, -, hrun⟩ := bind_eq_ok.1 hrun
      cases hrun
      exact ⟨hw.of_xray rfl, trivial⟩
  refine (hrow.and hcarries).conseq (fun w' hw' => ?_) (fun _ _ hw => ?_) fun _ hw => hw.1
  · subst hw'
    exact ⟨⟨hserves, hsame⟩, trivial⟩
  · exact ⟨hw.1.mono fun _ hrow => hrow.2, hw.2⟩

theorem Renewed.settleRefresh (h : Renewed w₀.store snapshot user row) {prepared : ConfigSnapshot}
    (hmode : snapshot.controlMode = .directPrimary) (hrevision : snapshot.revision = some revision)
    (hconfig : w₀.store.configRevision ≤ revision)
    (hdistinct : Processor.distinctBindings snapshot.users = .ok ()) :
    Triple (RowUntouched w₀ user.bindingId row) (Runner.settleRefresh deps snapshot prepared)
      (fun _ w => w.store.batches = [] → Restored user w) fun _ => True := by
  refine Triple.atWorld fun w hw => ?_
  by_cases hpending : w.store.batches = []
  swap
  · -- A batch that is pending now is still pending afterwards.
    have hkeeps :
      Keeps (fun w => w.store.batches ≠ []) (Runner.settleRefresh deps snapshot prepared) :=
      Keeps.bind pending_outgoing.keeps_refreshedUsers fun _ =>
        Keeps.bind pending_outgoing.frame.keeps_applySnapshot fun _ =>
          (pending_outgoing.repairs deps).keeps_syncCurrent
    refine hkeeps.conseq ?_ (fun _ _ hne hnil => absurd hnil hne) fun _ _ => trivial
    rintro _ rfl
    exact hpending
  have hentry := Processor.distinctBindings_entry hdistinct h.named
  have hrenewed := h.of_same hw.row hw.tombstones
  refine Triple.bind (S := fun next w => (next.controlMode = .directPrimary ∧
      next.revision = some revision ∧ Entry next.users user) ∧
        w.store.HasRow user.bindingId (·.Serves user) ∧
        w.store.tombstones = w₀.store.tombstones ∧ Store.SameMeta w₀.store w.store)
        ?_ fun next => ?_
  · refine Triple.bindPeek fun w₁ hw₁ => ?_
    subst hw₁
    have hpreserve : Runner.preserveLocalDisables w₁.store = false := by
      unfold Runner.preserveLocalDisables
      rw [hpending]
      rfl
    rw [hpreserve]
    refine Triple.bind (S := fun _ w => w.store.HasRow user.bindingId (·.Serves user) ∧
        w.store.tombstones = w₀.store.tombstones ∧ Store.SameMeta w₀.store w.store)
      (Triple.atomic ?_ fun _ _ => trivial) fun _ => ?_
    · intro w₂ a w₃ hw₂ hrun
      subst hw₂
      obtain ⟨t, hok, hrun⟩ := map_eq_ok.1 hrun
      cases hrun
      obtain ⟨recovered, -, hrestore⟩ := bind_eq_ok.1 hok
      refine ⟨⟨hrenewed.restoreOfflineUsers hentry hok, ?_, hw.same.restore hrestore⟩, trivial⟩
      exact (Store.restoreBackendConfirmedUsers_tombstones hrestore).trans hw.tombstones
    · refine Triple.bindPeek fun w₂ hw₂ => ?_
      cases hagain : Processor.prepareSnapshot snapshot w₂.store with
      | error e => exact Triple.fail fun _ _ => trivial
      | ok again =>
        obtain ⟨-, merged, hmerged, rfl⟩ := Processor.prepareSnapshot_eq_ok hagain
        refine Triple.pure fun w₃ hw₃ => ?_
        subst hw₃
        exact ⟨⟨hmode, hrevision, hentry.merge (h.mergeUser hw₂.1 hw₂.2.1) rfl hmerged⟩, hw₂⟩
  · refine Triple.lift fun ⟨hnextMode, hnextRevision, hnextEntry⟩ => ?_
    refine Triple.bind (h.applySnapshot hnextMode hnextRevision hconfig hnextEntry) fun _ => ?_
    refine Triple.poke fun w hw _ => ⟨?_, ?_⟩
    · exact hw.1
    · exact hw.2.of_xray rfl

theorem Renewed.applyRefreshed (h : Renewed w₀.store snapshot user row) {reading : Reading}
    (hmode : snapshot.controlMode = .directPrimary) (hrevision : snapshot.revision = some revision)
    (hconfig : w₀.store.configRevision ≤ revision) :
    Triple (RowUntouched w₀ user.bindingId row) (Runner.applyRefreshed deps reading snapshot)
      (fun _ w => w.store.batches = [] → Restored user w) fun _ => True := by
  refine Triple.bindPeek fun w hw => Triple.bindPeek fun w' hw' => ?_
  subst hw'
  refine Triple.bindLift (fun _ _ => trivial) fun prepared hprepared => ?_
  refine Triple.bindLift (fun _ _ => trivial) fun older holder => ?_
  have holder' : older = false := by
    have hle : w'.store.configRevision ≤ revision := hw.same.configRevision ▸ hconfig
    rw [hrevision] at holder
    exact (Except.ok.inj holder).symm.trans (decide_eq_false (Nat.not_lt.2 hle))
  subst holder'
  have hsettle : Triple (RowUntouched w₀ user.bindingId row)
      (Runner.settleRefresh deps snapshot prepared)
      (fun _ w => w.store.batches = [] → Restored user w) fun _ => True :=
    h.settleRefresh hmode hrevision hconfig (Processor.prepareSnapshot_eq_ok hprepared).1
  have hstart : ∀ v, v = w' → RowUntouched w₀ user.bindingId row v := fun v hv => hv ▸ hw
  refine Triple.ite (fun holder => by (cases holder)) fun _ => ?_
  split
  · refine Triple.bind (S := fun _ => RowUntouched w₀ user.bindingId row) ?_ fun _ => hsettle
    exact (RowUntouched.sample h.disabled reading).conseq hstart (fun _ _ hv => hv) fun _ _ =>
      trivial
  · exact hsettle.pre hstart

end Refresh

/-- A refresh that succeeds and leaves no batch pending brings the user back: its row is enabled,
and its account is installed. -/
theorem cutoffs_are_restored {snapshot : ConfigSnapshot} {reading : Reading} {epoch : Nat}
    {w : World} {fates : List Fate} (h : Renewed w.store snapshot user row)
    (hmode : snapshot.controlMode = .directPrimary)
    (hcurrent : decimalLess snapshot.revision (some w.store.configRevision) = .ok false)
    (hrun : result? (Runner.refreshConfig deps reading epoch (some snapshot)) w fates = some ())
    (hsettled : (finalWorld (Runner.refreshConfig deps reading epoch (some snapshot))
      w fates).store.batches = []) :
    Restored user
      (finalWorld (Runner.refreshConfig deps reading epoch (some snapshot)) w fates) := by
  obtain ⟨revision, hrevision, hconfig⟩ := decimalLess_eq_false.1 hcurrent
  let Q := fun w' : World => w'.store.batches = [] → Restored user w'
  have hrefresh : Triple (fun w' => w' = w)
      (Runner.refreshConfig deps reading epoch (some snapshot)) (fun _ => Q) fun _ => True := by
    refine Triple.bind (S := fun _ => RowUntouched w user.bindingId row)
      (Triple.poke ?_) fun _ => ?_
    · rintro _ rfl
      exact ⟨h.stored, rfl, rfl, rfl, rfl, rfl⟩
    refine Triple.bind (S := fun _ => Q) ?_ fun _ => Triple.poke fun w' hw' hbatches =>
      ⟨(hw' hbatches).1, (hw' hbatches).2.of_xray rfl⟩
    refine Triple.bind (S := fun r w' => r = .ok () → Q w') (Triple.attempt ?_) fun r => ?_
    · refine Triple.conseq (Q := fun _ => Q) (E := fun _ => True) ?_ (fun _ hw' => hw')
        (fun _ _ hw' _ => hw') fun _ _ => ⟨trivial, fun e he => by (cases he)⟩
      refine Triple.bindPeek fun w₁ hw₁ => ?_
      refine Triple.bind (Triple.ensure fun _ _ => trivial) fun _ => Triple.lift fun _ => ?_
      refine (h.applyRefreshed hmode hrevision hconfig).pre fun w' hw' => ?_
      exact hw' ▸ hw₁
    · cases r with
      | ok _ => exact Triple.pure fun w' hw' => hw' rfl
      | error e => exact Triple.bind Triple.trivial fun _ => Triple.fail fun _ _ => trivial
  exact hrefresh.of_result rfl hrun hsettled

namespace CutOff

open Delayed

/-- A user at revision 5 with nine bytes of quota and five of offline allowance. -/
def install : Step :=
  (.command { commandId := "a", type := .ensureUser, targetRevision := some 5
              payload := { bindingId := "a", email := "a", uuid := identity "a"
                           quotaRemainingBytes := some (some 9)
                           offlineAllowanceBytes := some (some 5) } } {}, [])

/-- The user is cut off for its bytes, and everything is acknowledged. -/
def world (bytes : Nat) : World :=
  World.run {} {} [adopt, install, (.sample {}, []), (.backendOffline, []),
    (.sample { stats := fun _ => (bytes, 0) }, []), (.ack "boot" 2, [])]

/-- The control plane names the user at its own revision, with quota left. -/
def renewed : DesiredUser :=
  { bindingId := "a", revision := some 5, email := "a", uuid := identity "a"
    quotaRemainingBytes := some 50 }

/-- A snapshot that names one user. -/
def snapshot : ConfigSnapshot :=
  { nodeId := "node", revision := some 8, controlMode := .directPrimary, users := [renewed] }

/-- The refresh with this snapshot. -/
def refresh : AgentM Unit := Runner.refreshConfig {} {} 1 (some snapshot)

/-- What the run leaves of the user. -/
theorem cut (bytes : Nat) (h : bytes = 6 ∨ bytes = 9) : ∃ row,
    (world bytes).store.rows.lookup "a" = some row ∧ row.cutOff = true ∧ row.revision = 5 ∧
      row.address = .real "a" ∧ row.uuid = identity "a" ∧ row.quotaRemaining = 9 - bytes ∧
      row.offlineUsed = bytes ∧ row.offlineAllowance = 5 := by
  have hrow : ((world bytes).store.rows.lookup "a").any fun row => row.cutOff && decide
      (row.revision = 5 ∧ row.address = .real "a" ∧ row.uuid = identity "a" ∧
        row.quotaRemaining = 9 - bytes ∧ row.offlineUsed = bytes ∧ row.offlineAllowance = 5) := by
    rcases h with rfl | rfl <;> decide +kernel
  obtain ⟨row, hlookup, hfields⟩ := (Option.any_eq_true _ _).1 hrow
  rw [Bool.and_eq_true, decide_eq_true_iff] at hfields
  exact ⟨row, hlookup, hfields⟩

/-- What the refresh finds, and what it makes of the user. -/
theorem runs (bytes : Nat) (h : bytes = 6 ∨ bytes = 9) :
    (world bytes).store.bindingTombstone "a" = 0 ∧ (world bytes).store.batches = [] ∧
      decimalLess (some 8) (some (world bytes).store.configRevision) = .ok false ∧
      result? refresh (world bytes) [] = some () ∧
      (finalWorld refresh (world bytes) []).store.batches = [] ∧
      ((finalWorld refresh (world bytes) []).store.rows.lookup "a").map (·.enabled) =
        some (decide (bytes = 6)) := by
  rcases h with rfl | rfl <;> decide +kernel

end CutOff

open CutOff in
/-- Six bytes use up the offline allowance, and the refresh brings the user back. -/
theorem cutoffs_are_restored_offline : Restored renewed (finalWorld refresh (world 6) []) := by
  obtain ⟨row, hlookup, hcut, hrevision, haddress, huuid, hquota, hused, hallowance⟩ :=
    cut 6 (.inl rfl)
  obtain ⟨htombstone, -, hcurrent, hrun, hsettled, -⟩ := runs 6 (.inl rfl)
  have hrenewed : Renewed (world 6).store snapshot renewed row := by
    refine ⟨List.mem_singleton_self _, rfl, ⟨50, rfl, by decide⟩, hlookup, hcut, .inr ?_⟩
    refine ⟨congrArg some hrevision.symm, haddress, huuid, ?_, ⟨?_, ?_⟩, htombstone⟩
    · rw [hquota]
      decide
    · rw [hused]
      decide
    · rw [hused, hallowance]
      decide
  unfold refresh at hrun hsettled ⊢
  exact cutoffs_are_restored hrenewed rfl hcurrent hrun hsettled

open CutOff in
/-- Nine bytes use up the quota.  With every batch acknowledged, a snapshot that names the user
enabled, with quota left, at its own revision and above every tombstone, leaves it disabled. -/
theorem exhausted_user_waits_for_a_newer_revision :
    (∃ row, (world 9).store.rows.lookup "a" = some row ∧ row.cutOff = true ∧
      renewed.revision = some row.revision ∧ (world 9).store.bindingTombstone "a" < row.revision) ∧
      (world 9).store.batches = [] ∧ renewed ∈ snapshot.users ∧
      result? refresh (world 9) [] = some () ∧
        ¬Restored renewed (finalWorld refresh (world 9) []) := by
  obtain ⟨row, hlookup, hcut, hrevision, -⟩ := cut 9 (.inr rfl)
  obtain ⟨htombstone, hbatches, -, hrun, -, hend⟩ := runs 9 (.inr rfl)
  refine ⟨⟨row, hlookup, hcut, congrArg some hrevision.symm, ?_⟩, hbatches,
    List.mem_singleton_self _, hrun, ?_⟩
  · rw [htombstone, hrevision]
    decide
  rintro ⟨⟨row', hlookup', henabled⟩, -⟩
  have hlookup'' : (finalWorld refresh (world 9) []).store.rows.lookup "a" = some row' := hlookup'
  rw [hlookup'', Option.map_some, henabled] at hend
  cases hend

end ChordV.Agent
