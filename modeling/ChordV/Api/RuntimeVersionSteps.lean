import ChordV.Api.RuntimeVersionFiles

/-!
# The versions, the policy and the clean-up jobs

`Sound` puts the versions of a component together with the policy, the lock and the calls of
`processJob`: the active version is ready, a call is for a version that is dead, and a transaction
that has the lock can write what it has decided (`Tx.Safe`).  `Sound.step` is about every step.

* `Quiet` is a step without the lock.
* `Sound.begin` and `Sound.commit` are about the two steps of a transaction.
-/

namespace ChordV.Api.RuntimeVersions

variable {s s' : State} {tx : Tx} {id now : Nat}

/-- What the writes of a transaction rest on while it has the lock. -/
def Tx.Safe (s : State) : Tx → Prop
  | .save policy created =>
    policy.activeVersionId = s.activeVersionId ∧
      ∀ row, created = some row → row.status = .queued ∧ row.publishedAt = none
  | .activate id _ _ => (s.versions id).Ready ∧ s.policy.isSome = true
  | .remove _ _ ids =>
    (∀ id ∈ ids, id < s.fresh) ∧ ∀ id, s.activeVersionId = some id → id ∉ ids

/-- What holds between any two steps. -/
structure Sound (s : State) : Prop where
  ok : ∀ id, (s.versions id).Ok
  unused : ∀ id, s.fresh ≤ id → s.versions id = {}
  active : ∀ id, s.activeVersionId = some id → (s.versions id).Ready
  cleaners : ∀ cleaner call, s.cleaners cleaner = some call →
    call.id < s.fresh ∧ (s.versions call.id).Dead
  lock : ∀ tx, s.lock = some tx → tx.Safe s

/-- A step without the lock.  The calls of `processJob` are for versions that are dead. -/
structure Quiet (s s' : State) : Prop where
  versions : ∀ id, Keeps (s.versions id) (s'.versions id)
  unused : ∀ id, s.versions id = {} → s'.versions id = {}
  cleaners : ∀ cleaner call, s'.cleaners cleaner = some call →
    call.id < s.fresh ∧ (s.versions call.id).Dead
  fresh : s'.fresh = s.fresh
  policy : s'.policy = s.policy
  lock : s'.lock = s.lock
  replaced : s'.replaced = s.replaced
  lastActivation : s'.lastActivation = s.lastActivation

theorem Quiet.activeVersionId (h : Quiet s s') : s'.activeVersionId = s.activeVersionId := by
  rw [State.activeVersionId, State.activeVersionId, h.policy]

namespace Sound

theorem of_quiet (h : Sound s) (hquiet : Quiet s s') : Sound s' := by
  constructor
  · exact fun id => (hquiet.versions id).ok (h.ok id)
  · intro id hid
    rw [hquiet.fresh] at hid
    exact hquiet.unused id (h.unused id hid)
  · intro id hactive
    rw [hquiet.activeVersionId] at hactive
    exact (hquiet.versions id).ready (h.ok id) (h.active id hactive)
  · intro cleaner call hcall
    have ⟨hid, hdead⟩ := hquiet.cleaners cleaner call hcall
    rw [hquiet.fresh]
    exact ⟨hid, (hquiet.versions call.id).dead (h.ok call.id) hdead⟩
  · intro tx htx
    rw [hquiet.lock] at htx
    have hsafe := h.lock tx htx
    cases tx with
    | save policy created =>
      rw [Tx.Safe, hquiet.activeVersionId]
      exact hsafe
    | activate id now retentionMs =>
      rw [Tx.Safe, hquiet.policy]
      exact ⟨(hquiet.versions id).ready (h.ok id) hsafe.1, hsafe.2⟩
    | remove followed clampTo ids =>
      rw [Tx.Safe, hquiet.activeVersionId, hquiet.fresh]
      exact hsafe

/-- A row is only where an id was given. -/
theorem lt_fresh (h : Sound s) {row : Row} (hrow : (s.versions id).row = some row) :
    id < s.fresh := by
  by_contra hid
  rw [h.unused id (Nat.le_of_not_lt hid)] at hrow
  cases hrow

/-- So is a job. -/
theorem lt_fresh_of_job (h : Sound s) {revision : Nat}
    (hjob : (s.versions id).cleanupJob = some revision) : id < s.fresh := by
  by_contra hid
  rw [h.unused id (Nat.le_of_not_lt hid)] at hjob
  cases hjob

theorem dead_of_job (h : Sound s) {revision : Nat}
    (hjob : (s.versions id).cleanupJob = some revision) : (s.versions id).Dead := by
  intro row hrow
  exact (h.ok id row hrow).job (by rw [hjob, Option.isSome_some])

end Sound

@[simp] theorem setVersion_self (s : State) (id : Nat) (v : Version) :
    (s.setVersion id v).versions id = v :=
  Function.update_self ..

theorem setVersion_of_ne {other : Nat} (hne : other ≠ id) (v : Version) :
    (s.setVersion id v).versions other = s.versions other :=
  Function.update_of_ne hne ..

@[simp] theorem setCleaner_self (s : State) (cleaner : Nat) (call : Option Cleaner) :
    (s.setCleaner cleaner call).cleaners cleaner = call :=
  Function.update_self ..

theorem setCleaner_of_ne {cleaner other : Nat} (hne : other ≠ cleaner) (call : Option Cleaner) :
    (s.setCleaner cleaner call).cleaners other = s.cleaners other :=
  Function.update_of_ne hne ..

/-! ### The steps without the lock -/

theorem Quiet.refl (h : Sound s) : Quiet s s where
  versions _ := Keeps.refl _
  unused _ hunused := hunused
  cleaners := h.cleaners
  fresh := rfl
  policy := rfl
  lock := rfl
  replaced := rfl
  lastActivation := rfl

/-- One version changes. -/
theorem Quiet.setVersion {v : Version} (h : Sound s) (hkeeps : Keeps (s.versions id) v)
    (hunused : s.versions id = {} → v = {}) : Quiet s (s.setVersion id v) := by
  refine ⟨fun other => ?_, fun other hother => ?_, h.cleaners, rfl, rfl, rfl, rfl, rfl⟩
  · by_cases heq : other = id
    · rw [heq, setVersion_self]
      exact hkeeps
    · rw [setVersion_of_ne heq]
      exact Keeps.refl _
  · by_cases heq : other = id
    · rw [heq] at hother ⊢
      rw [setVersion_self]
      exact hunused hother
    · rw [setVersion_of_ne heq]
      exact hother

/-- A call of `processJob` goes on, or ends. -/
theorem Quiet.setCleaner (h : Quiet s s') {cleaner : Nat} {call : Option Cleaner}
    (hcall : ∀ x, call = some x → x.id < s.fresh ∧ (s.versions x.id).Dead) :
    Quiet s (s'.setCleaner cleaner call) := by
  refine ⟨h.versions, h.unused, fun other x hx => ?_, h.fresh, h.policy, h.lock, h.replaced,
    h.lastActivation⟩
  by_cases heq : other = cleaner
  · rw [heq, setCleaner_self] at hx
    exact hcall x hx
  · rw [setCleaner_of_ne heq] at hx
    exact h.cleaners other x hx

theorem quiet_work (h : Sound s) (id : Nat) (work : Work) : Quiet s (s.work id work) := by
  refine Quiet.setVersion h (keeps_work _ _ _ work) (fun hunused => ?_)
  rw [hunused]
  exact work_unused _ _ work

theorem quiet_takeJob (h : Sound s) (cleaner id : Nat) : Quiet s (s.takeJob cleaner id) := by
  unfold State.takeJob
  split
  next revision _ hjob =>
    refine (Quiet.refl h).setCleaner (fun x hx => ?_)
    cases hx
    exact ⟨h.lt_fresh_of_job hjob, h.dead_of_job hjob⟩
  · exact Quiet.refl h

theorem quiet_checkJob (h : Sound s) (cleaner : Nat) (elsewhere : Bool) :
    Quiet s (s.checkJob cleaner elsewhere) := by
  unfold State.checkJob
  split
  next id revision hcall =>
    have hdead := h.cleaners cleaner _ hcall
    refine (Quiet.refl h).setCleaner (fun x hx => ?_)
    cases hx
    exact hdead
  · exact Quiet.refl h

/-- The file of a version that is dead may go. -/
theorem keeps_withoutFile {v : Version} (hdead : v.Dead) : Keeps v { v with file := false } := by
  refine Keeps.of_row_eq rfl (fun row hrow h => ?_) (fun row hrow _ hretired => hretired)
  have hretired := hdead row hrow
  constructor
  · intro hready
    simpa [hready] using hretired.1
  · exact h.fits
  · intro w hw hhas
    have hlive := hretired.2 w hw
    cases hphase : w.phase <;> simp [hphase, Phase.live, Phase.hasFile] at hlive hhas
  · exact h.job

theorem quiet_unlinkJob (h : Sound s) (cleaner : Nat) : Quiet s (s.unlinkJob cleaner) := by
  unfold State.unlinkJob
  split
  next id revision hcall =>
    have ⟨hid, hdead⟩ := h.cleaners cleaner _ hcall
    refine (Quiet.setVersion h (keeps_withoutFile hdead) (fun hunused => ?_)).setCleaner
      (fun x hx => ?_)
    · rw [hunused]
    · cases hx
      exact ⟨hid, hdead⟩
  · exact Quiet.refl h

/-- A job that is deleted needs nothing of its version. -/
theorem keeps_withJob {v : Version} {cleanupJob : Option Nat}
    (hjob : cleanupJob.isSome = true → v.cleanupJob.isSome = true) :
    Keeps v { v with cleanupJob } := by
  refine Keeps.of_row_eq rfl (fun row hrow h => ?_) (fun row hrow _ hretired => hretired)
  exact ⟨h.file, h.fits, h.placed, fun hsome => h.job (hjob hsome)⟩

theorem quiet_finishJob (h : Sound s) (cleaner : Nat) : Quiet s (s.finishJob cleaner) := by
  unfold State.finishJob
  split
  next id revision hcall =>
    refine (Quiet.setVersion h (keeps_withJob fun hsome => ?_) (fun hunused => ?_)).setCleaner
      (fun x hx => ?_)
    · split at hsome
      · cases hsome
      · exact hsome
    · rw [hunused]
      rfl
    · cases hx
  · exact Quiet.refl h

theorem quiet_failJob (h : Sound s) (cleaner : Nat) : Quiet s (s.failJob cleaner) := by
  refine (Quiet.refl h).setCleaner (fun x hx => ?_)
  cases hx

/-! ### The transactions -/

/-- The transaction writes the policy and may create a version. -/
def Tx.Saves (s : State) (tx : Tx) : Prop := tx.Safe s ∧ ∃ policy created, tx = .save policy created

theorem saves_old {policy : Policy} (hactive : policy.activeVersionId = s.activeVersionId) :
    Tx.Saves s (.save policy none) := by
  refine ⟨⟨hactive, fun row hrow => ?_⟩, policy, none, rfl⟩
  cases hrow

theorem saves_new {policy : Policy} {created : Row}
    (hactive : policy.activeVersionId = s.activeVersionId) (hqueued : created.status = .queued)
    (hpublished : created.publishedAt = none) : Tx.Saves s (.save policy (some created)) := by
  refine ⟨⟨hactive, fun row hrow => ?_⟩, policy, some created, rfl⟩
  cases hrow
  exact ⟨hqueued, hpublished⟩

theorem acquire_saves {input : SourceInput} {saved : Option (Nat × Row)}
    (htx : s.acquire input saved now = some tx) : tx.Saves s := by
  simp only [State.acquire] at htx
  split at htx
  · cases htx
  · split at htx
    · cases htx
      exact saves_old rfl
    · cases htx
      exact saves_new rfl rfl rfl

theorem activeVersionId_eq {policy : Policy} (h : s.policy = some policy) :
    policy.activeVersionId = s.activeVersionId := by
  rw [State.activeVersionId, h, Option.bind_some]

theorem setAutoLatest_saves {enabled : Bool} (htx : s.setAutoLatest enabled now = some tx) :
    tx.Saves s := by
  unfold State.setAutoLatest at htx
  split at htx
  · cases htx
  next policy hpolicy =>
    split at htx
    · cases htx
    · cases htx
      have hactive := activeVersionId_eq hpolicy
      exact saves_old hactive

theorem scheduleLatest_saves (htx : s.scheduleLatest now = some tx) : tx.Saves s := by
  unfold State.scheduleLatest at htx
  split at htx
  · cases htx
  next policy hpolicy =>
    split at htx
    · cases htx
    · cases htx
      have hactive := activeVersionId_eq hpolicy
      exact saves_new hactive rfl rfl

/-- What `activate` has found when it goes on. -/
theorem activate_eq_some {automatic : Bool} (htx : s.activate id automatic now = some tx) :
    (s.versions id).Ready ∧ s.policy.isSome = true ∧
      tx = .activate id now (runtimeRetentionMs s.policy s.kind) := by
  simp only [State.activate] at htx
  split at htx
  next version policy hrow hpolicy =>
    split at htx
    · cases htx
    next hready =>
      split at htx
      · cases htx
      · cases htx
        have hstatus : version.status = .ready := by
          by_contra hne
          simp [hne] at hready
        exact ⟨⟨version, hrow, hstatus⟩, by rw [hpolicy, Option.isSome_some], rfl⟩
  · cases htx

/-- What `deleteVersion` has found when it goes on. -/
theorem deleteVersion_eq_some (htx : s.deleteVersion id now = some tx) :
    (∃ row, (s.versions id).row = some row) ∧ s.activeVersionId ≠ some id ∧
      tx = .remove false none [id] := by
  unfold State.deleteVersion at htx
  split at htx
  · cases htx
  next version hrow =>
    split at htx
    · cases htx
    next hallowed =>
      cases htx
      simp only [Bool.or_eq_true, decide_eq_true_eq, not_or] at hallowed
      exact ⟨⟨version, hrow⟩, hallowed.1.1, rfl⟩

theorem deleteVersion_safe (h : Sound s) (htx : s.deleteVersion id now = some tx) :
    tx.Safe s := by
  obtain ⟨⟨row, hrow⟩, hinactive, rfl⟩ := deleteVersion_eq_some htx
  refine ⟨fun other hmem => ?_, fun other hactive hmem => hinactive ?_⟩
  · rw [List.mem_singleton.1 hmem]
    exact h.lt_fresh hrow
  · rw [hactive, List.mem_singleton.1 hmem]

theorem not_mem_of_filtered {rows : List (Nat × Row)} {protectedIds : List Nat}
    {p : Nat × Row → Bool} (hid : id ∈ protectedIds) (count : Nat) :
    id ∉ ((rows.filter fun x => !protectedIds.contains x.1 && p x).take count).map (·.1) := by
  intro hmem
  obtain ⟨x, hx, rfl⟩ := List.mem_map.1 hmem
  have hkept := (List.mem_filter.1 (List.mem_of_mem_take hx)).2
  simp [hid] at hkept

/-- The active version and the one before it are no expired versions. -/
theorem not_mem_expired {rows : List (Nat × Row)} {activeVersionId : Option Nat}
    (hid : activeVersionId = some id ∨ previousVersion rows activeVersionId = some id)
    (now count : Nat) :
    id ∉ ((selectExpiredAutoVersions rows activeVersionId now).take count).map (·.1) := by
  simp only [selectExpiredAutoVersions, Bool.and_assoc]
  apply not_mem_of_filtered
  cases hid with
  | inl hactive => simp [hactive]
  | inr hprevious => simp [hprevious]

theorem not_mem_expired_manual {rows : List (Nat × Row)} {activeVersionId : Option Nat}
    (hid : activeVersionId = some id) (now count : Nat) :
    id ∉ ((selectExpiredManualVersions rows activeVersionId now).take count).map (·.1) := by
  simp only [selectExpiredManualVersions, Bool.and_assoc]
  apply not_mem_of_filtered
  simp [hid]

/-- The rows that `pruneVersions` reads of a component that follows the latest version. -/
def State.prunedRows (s : State) (order : List Nat) (now : Nat) : List (Nat × Row) :=
  (s.rowsIn order).map fun x => (x.1, s.clampRow (some (now + autoRetentionMs)) x.1 x.2)

theorem pruneVersions_eq_some {order : List Nat} (htx : s.pruneVersions order now = some tx) :
    order.Perm (List.range s.fresh) ∧
      ((∃ clampTo, tx = .remove true clampTo (((selectExpiredAutoVersions (s.prunedRows order now)
          s.activeVersionId now).take 200).map (·.1))) ∨
        tx = .remove false none (((selectExpiredManualVersions (s.rowsIn order)
          s.activeVersionId now).take 200).map (·.1))) := by
  simp only [State.pruneVersions] at htx
  split at htx
  · cases htx
  next hallowed =>
    have hperm : order.Perm (List.range s.fresh) := by
      simp only [Bool.or_eq_true, not_or, Bool.not_eq_true', Bool.not_eq_false] at hallowed
      exact List.isPerm_iff.1 hallowed.2
    split at htx
    · cases htx
      exact ⟨hperm, .inl ⟨_, rfl⟩⟩
    · cases htx
      exact ⟨hperm, .inr rfl⟩

theorem mem_of_mem_rowsIn {order : List Nat} {x : Nat × Row} (hx : x ∈ s.rowsIn order) :
    x.1 ∈ order ∧ s.row x.1 = some x.2 := by
  obtain ⟨id, hid, hmap⟩ := List.mem_filterMap.1 hx
  obtain ⟨row, hrow, rfl⟩ := Option.map_eq_some_iff.1 hmap
  exact ⟨hid, hrow⟩

/-- What a query without an error gives is among the rows. -/
theorem lt_fresh_of_filtered {order : List Nat} (hperm : order.Perm (List.range s.fresh))
    {rows : List (Nat × Row)} (hrows : ∀ x ∈ rows, x.1 ∈ order) {p : Nat × Row → Bool}
    {count : Nat} (hid : id ∈ ((rows.filter p).take count).map (·.1)) : id < s.fresh := by
  obtain ⟨x, hx, rfl⟩ := List.mem_map.1 hid
  have hmem := hrows x (List.mem_filter.1 (List.mem_of_mem_take hx)).1
  exact List.mem_range.1 (hperm.mem_iff.1 hmem)

/-- For a component that follows the latest version `pruneVersions` removes with its flag. -/
theorem pruneVersions_followed (order : List Nat) (now : Nat) (hpolicy : s.policy.isSome = true)
    (hperm : order.isPerm (List.range s.fresh) = true)
    (hfollowed : runtimeRetentionMs s.policy s.kind = autoRetentionMs) (hfree : s.lock = none) :
    ∃ clampTo ids,
      (step s (.pruneVersions order now)).lock = some (.remove true clampTo ids) := by
  have hnone : s.policy.isNone = false := by simp [hpolicy]
  simp [step, State.begin, State.pruneVersions, hfree, hnone, hperm, hfollowed]

theorem pruneVersions_safe {order : List Nat} (htx : s.pruneVersions order now = some tx) :
    tx.Safe s := by
  obtain ⟨hperm, ⟨clampTo, rfl⟩ | rfl⟩ := pruneVersions_eq_some htx
  · refine ⟨fun id hid => lt_fresh_of_filtered hperm (fun x hx => ?_) hid,
      fun id hactive => not_mem_expired (.inl hactive) now 200⟩
    obtain ⟨y, hy, rfl⟩ := List.mem_map.1 hx
    exact (mem_of_mem_rowsIn hy).1
  · exact ⟨fun id hid => lt_fresh_of_filtered hperm (fun x hx => (mem_of_mem_rowsIn hx).1) hid,
      fun id hactive => not_mem_expired_manual hactive now 200⟩

/-- A transaction gets the lock, or waits. -/
theorem Sound.begin (h : Sound s) {tx? : Option Tx}
    (hsafe : ∀ tx, tx? = some tx → tx.Safe s) : Sound (s.begin tx?) := by
  unfold State.begin
  split
  · refine ⟨h.ok, h.unused, h.active, h.cleaners, fun tx htx => ?_⟩
    have hsafe' := hsafe tx htx
    cases tx <;> exact hsafe'
  · exact h

/-! ### The commits -/

theorem State.save_some (s : State) (policy : Policy) (row : Row) :
    (s.save policy (some row)).versions =
      Function.update s.versions s.fresh { s.versions s.fresh with row := some row } := rfl

/-- The version that a transaction creates has nothing but its row. -/
theorem Sound.created (h : Sound s) {row : Row} (hqueued : row.status = .queued) :
    ({ s.versions s.fresh with row := some row } : Version).Ok := by
  rw [h.unused s.fresh (Nat.le_refl _)]
  intro row' hrow'
  cases hrow'
  constructor
  · intro hready
    rw [hqueued] at hready
    cases hready
  · intro w hw
    cases hw
  · intro w hw
    cases hw
  · intro hjob
    cases hjob

theorem Sound.save (h : Sound s) {policy : Policy} {created : Option Row}
    (hsafe : Tx.Safe s (.save policy created)) :
    Sound { s.save policy created with lock := none } := by
  have hactive : ∀ id, (s.save policy created).activeVersionId = some id →
      s.activeVersionId = some id := by
    intro id hid
    rw [← hsafe.1, ← hid]
    cases created <;> rfl
  cases created with
  | none =>
    exact ⟨h.ok, h.unused, fun id hid => h.active id (hactive id hid), h.cleaners,
      fun _ htx => by cases htx⟩
  | some row =>
    have hother : ∀ id, id ≠ s.fresh → (s.save policy (some row)).versions id = s.versions id :=
      fun id hne => Function.update_of_ne hne ..
    refine ⟨fun id => ?_, fun id hid => ?_, fun id hid => ?_, fun cleaner call hcall => ?_,
      fun _ htx => by cases htx⟩
    · show ((s.save policy (some row)).versions id).Ok
      by_cases heq : id = s.fresh
      · rw [heq, State.save_some, Function.update_self]
        exact h.created (hsafe.2 row rfl).1
      · rw [hother id heq]
        exact h.ok id
    · have hgiven : s.fresh < id := hid
      exact (hother id (by omega)).trans (h.unused id (by omega))
    · have hready := h.active id (hactive id hid)
      have ⟨_, hrow, _⟩ := hready
      have hgiven := h.lt_fresh hrow
      show ((s.save policy (some row)).versions id).Ready
      rw [hother id (by omega)]
      exact hready
    · have ⟨hgiven, hdead⟩ := h.cleaners cleaner call hcall
      refine ⟨Nat.lt_succ_of_lt hgiven, ?_⟩
      show ((s.save policy (some row)).versions call.id).Dead
      rw [hother call.id (by omega)]
      exact hdead

theorem commitActivation_self (s : State) (id now retentionMs : Nat) :
    (s.commitActivation id now retentionMs).versions id = (s.versions id).update fun row =>
      { row with publishedAt := some now, retainUntil := some (now + retentionMs) } :=
  if_pos rfl

/-- Of the other versions an activation writes `retainUntil` at most. -/
theorem commitActivation_of_ne (s : State) {other : Nat} (hne : other ≠ id)
    (now retentionMs : Nat) :
    ∃ f : Row → Row, (∀ row, (f row).status = row.status) ∧
      (∀ row, (f row).publishedAt = row.publishedAt) ∧
      (s.commitActivation id now retentionMs).versions other = (s.versions other).update f := by
  by_cases hactive : s.activeVersionId = some other
  · exact ⟨fun row => { row with retainUntil := some (now + retentionMs) }, fun _ => rfl,
      fun _ => rfl, (if_neg hne).trans (if_pos hactive)⟩
  · refine ⟨fun row => row, fun _ => rfl, fun _ => rfl, ?_⟩
    rw [Version.update, Option.map_id']
    exact (if_neg hne).trans (if_neg hactive)

/-- What an activation does to a version keeps its status. -/
theorem commitActivation_versions (s : State) (id now retentionMs other : Nat) :
    ∃ f : Row → Row, (∀ row, (f row).status = row.status) ∧
      (s.commitActivation id now retentionMs).versions other = (s.versions other).update f := by
  by_cases heq : other = id
  · subst heq
    exact ⟨fun row => { row with publishedAt := some now, retainUntil := some (now + retentionMs) },
      fun _ => rfl, commitActivation_self s other now retentionMs⟩
  · obtain ⟨f, hstatus, -, hf⟩ := commitActivation_of_ne s heq now retentionMs
    exact ⟨f, hstatus, hf⟩

theorem commitActivation_activeVersionId (hpolicy : s.policy.isSome = true)
    (id now retentionMs : Nat) :
    (s.commitActivation id now retentionMs).activeVersionId = some id := by
  obtain ⟨policy, hsome⟩ := Option.isSome_iff_exists.1 hpolicy
  simp [State.commitActivation, State.activeVersionId, hsome]

theorem Sound.commitActivation (h : Sound s) {retentionMs : Nat}
    (hsafe : Tx.Safe s (.activate id now retentionMs)) :
    Sound { s.commitActivation id now retentionMs with lock := none } := by
  refine ⟨fun other => ?_, fun other hother => ?_, fun other hother => ?_,
    fun cleaner call hcall => ?_, fun _ htx => by cases htx⟩
  · obtain ⟨f, hstatus, hf⟩ := commitActivation_versions s id now retentionMs other
    show ((s.commitActivation id now retentionMs).versions other).Ok
    rw [hf]
    exact (h.ok other).update hstatus
  · obtain ⟨f, hstatus, hf⟩ := commitActivation_versions s id now retentionMs other
    show (s.commitActivation id now retentionMs).versions other = {}
    rw [hf, h.unused other hother]
    rfl
  · have hid : some id = some other :=
      (commitActivation_activeVersionId hsafe.2 id now retentionMs).symm.trans hother
    cases hid
    show ((s.commitActivation id now retentionMs).versions id).Ready
    rw [commitActivation_self]
    exact hsafe.1.update fun _ => rfl
  · have ⟨hgiven, hdead⟩ := h.cleaners cleaner call hcall
    obtain ⟨f, hstatus, hf⟩ := commitActivation_versions s id now retentionMs call.id
    refine ⟨hgiven, ?_⟩
    show ((s.commitActivation id now retentionMs).versions call.id).Dead
    rw [hf]
    exact hdead.update hstatus

theorem clampRow_status (s : State) (clampTo : Option Nat) (id : Nat) (row : Row) :
    (s.clampRow clampTo id row).status = row.status := by
  unfold State.clampRow
  split
  · split <;> rfl
  · rfl

theorem clampRow_publishedAt (s : State) (clampTo : Option Nat) (id : Nat) (row : Row) :
    (s.clampRow clampTo id row).publishedAt = row.publishedAt := by
  unfold State.clampRow
  split
  · split <;> rfl
  · rfl

theorem remove_of_mem {clampTo : Option Nat} {ids : List Nat} (hid : id ∈ ids) :
    (s.remove clampTo ids).versions id = { s.versions id with row := none }.enqueue :=
  if_pos (List.contains_iff_mem.2 hid)

theorem remove_of_not_mem {clampTo : Option Nat} {ids : List Nat} (hid : id ∉ ids) :
    (s.remove clampTo ids).versions id = (s.versions id).update (s.clampRow clampTo id) :=
  if_neg fun hmem => hid (List.contains_iff_mem.1 hmem)

theorem Sound.remove (h : Sound s) {followed : Bool} {clampTo : Option Nat} {ids : List Nat}
    (hsafe : Tx.Safe s (.remove followed clampTo ids)) :
    Sound { s.remove clampTo ids with lock := none } := by
  refine ⟨fun id => ?_, fun id hid => ?_, fun id hid => ?_, fun cleaner call hcall => ?_,
    fun _ htx => by cases htx⟩
  · show ((s.remove clampTo ids).versions id).Ok
    by_cases hmem : id ∈ ids
    · rw [remove_of_mem hmem]
      exact Version.ok_of_none rfl
    · rw [remove_of_not_mem hmem]
      exact (h.ok id).update (clampRow_status s clampTo id)
  · have hmem : id ∉ ids := fun hmem => Nat.not_lt.2 hid (hsafe.1 id hmem)
    show (s.remove clampTo ids).versions id = {}
    rw [remove_of_not_mem hmem, h.unused id hid]
    rfl
  · show ((s.remove clampTo ids).versions id).Ready
    rw [remove_of_not_mem (hsafe.2 id hid)]
    exact (h.active id hid).update (clampRow_status s clampTo id)
  · have ⟨hgiven, hdead⟩ := h.cleaners cleaner call hcall
    refine ⟨hgiven, ?_⟩
    show ((s.remove clampTo ids).versions call.id).Dead
    by_cases hmem : call.id ∈ ids
    · rw [remove_of_mem hmem]
      exact Version.dead_of_none rfl
    · rw [remove_of_not_mem hmem]
      exact hdead.update (clampRow_status s clampTo call.id)

theorem Sound.commit (h : Sound s) : Sound s.commit := by
  unfold State.commit
  split
  · exact h
  next policy created hlock => exact h.save (h.lock _ hlock)
  next id now retentionMs hlock => exact h.commitActivation (h.lock _ hlock)
  next followed clampTo ids hlock => exact h.remove (h.lock _ hlock)

/-- The lock is free after a transaction. -/
theorem Sound.rollback (h : Sound s) : Sound s.rollback :=
  ⟨h.ok, h.unused, h.active, h.cleaners, fun _ htx => by cases htx⟩

theorem Sound.step (h : Sound s) (e : Event) : Sound (step s e) := by
  cases e with
  | acquire input saved now => exact h.begin fun _ htx => (acquire_saves htx).1
  | setAutoLatest enabled now => exact h.begin fun _ htx => (setAutoLatest_saves htx).1
  | scheduleLatest now => exact h.begin fun _ htx => (scheduleLatest_saves htx).1
  | activate id automatic now =>
    refine h.begin fun tx htx => ?_
    obtain ⟨hready, hpolicy, rfl⟩ := activate_eq_some htx
    exact ⟨hready, hpolicy⟩
  | deleteVersion id now => exact h.begin fun _ => deleteVersion_safe h
  | pruneVersions order now => exact h.begin fun _ => pruneVersions_safe
  | commit => exact h.commit
  | rollback => exact h.rollback
  | work id work => exact h.of_quiet (quiet_work h id work)
  | takeJob cleaner id => exact h.of_quiet (quiet_takeJob h cleaner id)
  | checkJob cleaner elsewhere => exact h.of_quiet (quiet_checkJob h cleaner elsewhere)
  | unlinkJob cleaner => exact h.of_quiet (quiet_unlinkJob h cleaner)
  | finishJob cleaner => exact h.of_quiet (quiet_finishJob h cleaner)
  | failJob cleaner => exact h.of_quiet (quiet_failJob h cleaner)

/-- A component before its first `acquire`. -/
theorem sound_start (kind : Kind) (ios : Bool) : Sound { kind, ios } := by
  constructor
  · exact fun _ => Version.ok_of_none rfl
  · exact fun _ _ => rfl
  · intro id hid
    cases hid
  · intro cleaner call hcall
    cases hcall
  · intro tx htx
    cases htx

end ChordV.Api.RuntimeVersions
