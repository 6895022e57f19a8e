import ChordV.Api.RuntimeVersions

/-!
# The file of a version

What the steps without the lock keep of one version.

* `Intact` says that a row that is ready has its file, and that the path of a version has a
  clean-up job only when no worker can make the version ready any more (`Retired`).
* `Keeps` says that a change of a version keeps that, and neither publishes the version nor takes
  the status `ready` from it.
* `keeps_work` says that all steps without the lock are such changes.
-/

namespace ChordV.Api.RuntimeVersions

/-- The worker may still make its version ready. -/
def Phase.live : Phase → Bool
  | .preparing | .placed _ | .policyRead _ _ | .compared _ _ => true
  | .unchanged | .ready | .failing | .marking _ | .removing | .unlinking => false

/-- The file was put in place. -/
def Phase.hasFile : Phase → Bool
  | .placed _ | .policyRead _ _ | .compared _ _ => true
  | .preparing | .unchanged | .ready | .failing | .marking _ | .removing | .unlinking => false

/-- The statuses that the row of a worker can have. -/
def Phase.Fits : Phase → Status → Prop
  | .preparing, status | .placed _, status | .policyRead _ _, status | .compared _ _, status =>
    status = .downloading ∨ status = .verifying ∨ status = .failed
  | .unchanged, status => status = .unchanged
  | .ready, status => status = .ready
  | .failing, status => status ≠ .queued
  | .marking wasReady, status => status ≠ .queued ∧ (wasReady = true ↔ status = .ready)
  | .removing, status | .unlinking, status => status = .failed

/-- A row that is swept still fits its worker. -/
theorem Phase.Fits.swept {phase : Phase} {status : Status} (h : phase.Fits status)
    (hstatus : status = .downloading ∨ status = .verifying) : phase.Fits .failed := by
  have hready : status ≠ .ready := by
    rintro rfl
    simp at hstatus
  have hunchanged : status ≠ .unchanged := by
    rintro rfl
    simp at hstatus
  cases phase with
  | preparing | placed | policyRead | compared => exact .inr (.inr rfl)
  | unchanged => exact absurd h hunchanged
  | ready => exact absurd h hready
  | failing => simp [Phase.Fits]
  | marking wasReady => simpa [Phase.Fits] using fun hwas => hready (h.2.1 hwas)
  | removing | unlinking => rfl

/-- Nothing makes the version ready any more. -/
def Retired (row : Row) (worker : Option Worker) : Prop :=
  (row.status = .unchanged ∨ row.status = .failed) ∧
    ∀ w, worker = some w → w.phase.live = false

/-- The row, the file and the worker fit each other. -/
structure Intact (row : Row) (v : Version) : Prop where
  file : row.status = .ready → v.file = true
  fits : ∀ w, v.worker = some w → w.phase.Fits row.status
  placed : ∀ w, v.worker = some w → w.phase.hasFile = true → v.file = true
  job : v.cleanupJob.isSome = true → Retired row v.worker

/-- A change that keeps a version intact, retired and ready, and does not publish it. -/
inductive Keeps (v v' : Version) : Prop where
  | absent (hrow : v.row = none) (hrow' : v'.row = none)
  | present {row row' : Row} (hrow : v.row = some row) (hrow' : v'.row = some row')
      (hpublished : row'.publishedAt = row.publishedAt)
      (hintact : Intact row v → Intact row' v')
      (hretired : Intact row v → Retired row v.worker → Retired row' v'.worker)
      (hready : Intact row v → row.status = .ready → row'.status = .ready)

theorem Keeps.refl (v : Version) : Keeps v v := by
  cases hrow : v.row with
  | none => exact .absent hrow hrow
  | some row => exact .present hrow hrow rfl id (fun _ h => h) (fun _ h => h)

/-- A change that leaves the row as it is. -/
theorem Keeps.of_row_eq {v v' : Version} (hrow : v'.row = v.row)
    (hintact : ∀ row, v.row = some row → Intact row v → Intact row v')
    (hretired : ∀ row, v.row = some row → Intact row v → Retired row v.worker →
      Retired row v'.worker) : Keeps v v' := by
  cases h : v.row with
  | none => exact .absent h (hrow.trans h)
  | some row =>
    exact .present h (hrow.trans h) rfl (hintact row h) (hretired row h) (fun _ hready => hready)

section Statements

variable {v : Version} {row : Row} {w : Worker}

theorem Intact.no_job (h : Intact row v) (hworker : v.worker = some w)
    (hlive : w.phase.live = true) : v.cleanupJob.isSome = false := by
  cases hjob : v.cleanupJob.isSome with
  | false => rfl
  | true => exact absurd ((h.job hjob).2 w hworker) (by simp [hlive])

theorem not_retired (hworker : v.worker = some w) (hlive : w.phase.live = true) :
    ¬ Retired row v.worker := by
  intro h
  exact absurd (h.2 w hworker) (by simp [hlive])

/-- A worker that can still make its version ready goes on to a next phase, and the file stays or
is put in place. -/
theorem keeps_live {v' : Version} {w' : Worker} (hworker : v.worker = some w)
    (hlive : w.phase.live = true) (hworker' : v'.worker = some w') (hrow : v'.row = v.row)
    (hjob : v'.cleanupJob = v.cleanupJob) (hfile : v.file = true → v'.file = true)
    (hfits : ∀ status, w.phase.Fits status → w'.phase.Fits status)
    (hplaced : w'.phase.hasFile = true → w.phase.hasFile = true ∨ v'.file = true) :
    Keeps v v' := by
  apply Keeps.of_row_eq hrow
  · intro row _ h
    constructor
    · exact fun hready => hfile (h.file hready)
    · intro x hx
      rw [hworker', Option.some.injEq] at hx
      exact hx ▸ hfits _ (h.fits w hworker)
    · intro x hx hhas
      rw [hworker', Option.some.injEq] at hx
      cases hplaced (hx ▸ hhas) with
      | inl hhad => exact hfile (h.placed w hworker hhad)
      | inr hput => exact hput
    · intro hsome
      rw [hjob, h.no_job hworker hlive] at hsome
      cases hsome
  · exact fun row _ _ hretired => absurd hretired (not_retired hworker hlive)

theorem keeps_sweep (v : Version) (now : Nat) : Keeps v (v.sweep now) := by
  cases hrow : v.row with
  | none => exact .absent hrow (by simp [Version.sweep, Version.update, hrow])
  | some row =>
    by_cases hold : ((row.status == .downloading || row.status == .verifying)
        && row.updatedAt + interruptedAfterMs < now) = true
    · have hrow' : (v.sweep now).row = some { row with status := .failed, updatedAt := now } := by
        simp only [Version.sweep, Version.update, hrow, Option.map_some, if_pos hold]
      have hstatus : row.status = .downloading ∨ row.status = .verifying := by
        simp only [Bool.and_eq_true, Bool.or_eq_true, beq_iff_eq] at hold
        exact hold.1
      refine .present hrow hrow' rfl (fun h => ?_) (fun _ hretired => ?_) (fun _ hready => ?_)
      · constructor
        · intro hready
          cases hready
        · exact fun w hw => (h.fits w hw).swept hstatus
        · exact h.placed
        · exact fun hjob => ⟨.inr rfl, (h.job hjob).2⟩
      · exact ⟨.inr rfl, hretired.2⟩
      · simp [hready] at hstatus
    · have hsame : v.sweep now = v := by
        simp only [Version.sweep, Version.update, hrow, Option.map_some, if_neg hold]
        rw [← hrow]
      rw [hsame]
      exact Keeps.refl v

theorem keeps_claim (v : Version) (now : Nat) : Keeps v (v.claim now) := by
  unfold Version.claim
  split
  next row hrow =>
    split
    next hqueued =>
      refine .present hrow rfl rfl (fun h => ?_) (fun _ hretired => ?_) (fun _ hready => ?_)
      · constructor
        · intro hready
          cases hready
        · intro w hw
          cases hw
          exact .inl rfl
        · intro w hw hhas
          cases hw
          cases hhas
        · intro hjob
          simpa [hqueued] using (h.job hjob).1
      · simpa [hqueued] using hretired.1
      · simp [hqueued] at hready
    · exact Keeps.refl v
  · exact Keeps.refl v

/-- The worker leaves its `try`.  The row and the file stay. -/
theorem keeps_failing (hworker : v.worker = some w) (hguarded : w.phase.guarded = true) :
    Keeps v (v.go w .failing) := by
  refine Keeps.of_row_eq rfl (fun row _ h => ?_) (fun row _ _ hretired => ⟨hretired.1, ?_⟩)
  · constructor
    · exact h.file
    · intro x hx
      cases hx
      have hfits := h.fits w hworker
      show row.status ≠ .queued
      intro hqueued
      rw [hqueued] at hfits
      cases hphase : w.phase <;> simp_all [Phase.Fits, Phase.guarded]
    · intro x hx hhas
      cases hx
      cases hhas
    · intro hjob
      refine ⟨(h.job hjob).1, fun x hx => ?_⟩
      cases hx
      rfl
  · intro x hx
    cases hx
    rfl

theorem keeps_fail (v : Version) : Keeps v v.fail := by
  unfold Version.fail
  split
  next w hworker =>
    split
    next hguarded => exact keeps_failing hworker hguarded
    · exact Keeps.refl v
  · exact Keeps.refl v

/-- The worker is gone. -/
theorem keeps_stop (v : Version) : Keeps v v.stop := by
  refine Keeps.of_row_eq rfl (fun row _ h => ?_) (fun row _ _ hretired => ⟨hretired.1, ?_⟩)
  · constructor
    · exact h.file
    · intro w hw
      cases hw
    · intro w hw
      cases hw
    · intro hjob
      refine ⟨(h.job hjob).1, fun w hw => ?_⟩
      cases hw
  · intro w hw
    cases hw

theorem keeps_progress (v : Version) (verifying : Bool) (now : Nat) :
    Keeps v (v.progress verifying now) := by
  unfold Version.progress
  split
  next autoActivate row hworker hrow =>
    refine .present hrow rfl rfl (fun h => ?_) (fun _ hretired => ?_) (fun h hready => ?_)
    · constructor
      · intro hready
        cases verifying <;> cases hready
      · intro w hw
        cases hw
        show _ = _ ∨ _ = _ ∨ _ = _
        cases verifying <;> simp
      · intro w hw hhas
        cases hw
        cases hhas
      · intro hjob
        rw [h.no_job hworker rfl] at hjob
        cases hjob
    · exact absurd hretired (not_retired hworker rfl)
    · have hfits := h.fits _ hworker
      simp [Phase.Fits, hready] at hfits
  next autoActivate hworker hrow => exact keeps_failing hworker rfl
  · exact Keeps.refl v

theorem keeps_place (v : Version) (result : Result) : Keeps v (v.place result) := by
  unfold Version.place
  split
  next autoActivate hworker =>
    exact keeps_live hworker rfl rfl rfl rfl (fun _ => rfl) (fun _ h => h) (fun _ => .inr rfl)
  · exact Keeps.refl v

theorem keeps_readPolicy (v : Version) (activeVersionId : Option Nat) :
    Keeps v (v.readPolicy activeVersionId) := by
  unfold Version.readPolicy
  split
  next autoActivate result hworker =>
    exact keeps_live hworker rfl rfl rfl rfl id (fun _ h => h) (fun _ => .inl rfl)
  · exact Keeps.refl v

theorem keeps_readActive (v : Version) (activeHash : Option String) :
    Keeps v (v.readActive activeHash) := by
  unfold Version.readActive
  split
  next autoActivate result _ hworker =>
    exact keeps_live hworker rfl rfl rfl rfl id (fun _ h => h) (fun _ => .inl rfl)
  · exact Keeps.refl v

theorem keeps_settle (v : Version) (now : Nat) : Keeps v (v.settle now) := by
  unfold Version.settle
  split
  next autoActivate result row hworker hrow =>
    refine .present hrow rfl rfl (fun h => ?_) (fun _ hretired => ?_) (fun h hready => ?_)
    · have hretired : ∀ w : Worker, some { autoActivate, phase := .unchanged } = some w →
          w.phase.live = false := by
        intro w hw
        cases hw
        rfl
      constructor
      · intro hready
        cases hready
      · intro w hw
        cases hw
        rfl
      · intro w hw hhas
        cases hw
        cases hhas
      · exact fun _ => ⟨.inl rfl, hretired⟩
    · exact absurd hretired (not_retired hworker rfl)
    · have hfits := h.fits _ hworker
      simp [Phase.Fits, hready] at hfits
  next autoActivate result row hworker hrow =>
    refine .present hrow rfl rfl (fun h => ?_) (fun _ hretired => ?_) (fun _ _ => rfl)
    · constructor
      · exact fun _ => h.placed _ hworker rfl
      · intro w hw
        cases hw
        rfl
      · intro w hw hhas
        cases hw
        cases hhas
      · intro hjob
        rw [h.no_job hworker rfl] at hjob
        cases hjob
    · exact absurd hretired (not_retired hworker rfl)
  next autoActivate result sameAsActive hworker hrow => exact keeps_failing hworker rfl
  · exact Keeps.refl v

theorem keeps_readStatus (v : Version) : Keeps v v.readStatus := by
  unfold Version.readStatus
  split
  next autoActivate row hworker hrow =>
    refine Keeps.of_row_eq rfl (fun row' hrow' h => ?_) (fun _ _ _ hretired => ⟨hretired.1, ?_⟩)
    · rw [hrow, Option.some.injEq] at hrow'
      subst hrow'
      constructor
      · exact h.file
      · intro w hw
        cases hw
        exact ⟨h.fits _ hworker, beq_iff_eq⟩
      · intro w hw hhas
        cases hw
        cases hhas
      · intro hjob
        refine ⟨(h.job hjob).1, fun w hw => ?_⟩
        cases hw
        rfl
    · intro w hw
      cases hw
      rfl
  · exact keeps_stop v
  · exact Keeps.refl v

theorem keeps_mark (v : Version) (now : Nat) : Keeps v (v.mark now) := by
  unfold Version.mark
  split
  next autoActivate row hworker hrow =>
    refine .present hrow rfl rfl (fun h => ?_) (fun h hretired => ?_) (fun _ _ => rfl)
    · have hready : row.status = .ready := (h.fits _ hworker).2.1 rfl
      constructor
      · exact fun _ => h.file hready
      · intro w hw
        cases hw
      · intro w hw
        cases hw
      · intro hjob
        simpa [hready] using (h.job hjob).1
    · have hready : row.status = .ready := (h.fits _ hworker).2.1 rfl
      simpa [hready] using hretired.1
  next autoActivate row hworker hrow =>
    refine .present hrow rfl rfl (fun h => ?_) (fun h hretired => ⟨.inr rfl, ?_⟩)
      (fun h hready => ?_)
    · constructor
      · intro hready
        cases hready
      · intro w hw
        cases hw
        rfl
      · intro w hw hhas
        cases hw
        cases hhas
      · intro _
        refine ⟨.inr rfl, fun w hw => ?_⟩
        cases hw
        rfl
    · intro w hw
      cases hw
      rfl
    · cases (h.fits _ hworker).2.2 hready
  · exact keeps_stop v
  · exact Keeps.refl v

/-- A worker of a failed version goes on with its removal. -/
theorem keeps_removing {v' : Version} (hworker : v.worker = some w)
    (hfits : ∀ status, w.phase.Fits status → status = .failed) (hrow : v'.row = v.row)
    (hworker' : ∀ x, v'.worker = some x → x.phase = .unlinking) : Keeps v v' := by
  have hlive : ∀ x, v'.worker = some x → x.phase.live = false := by
    intro x hx
    rw [hworker' x hx]
    rfl
  refine Keeps.of_row_eq hrow (fun row _ h => ?_) (fun _ _ _ hretired => ⟨hretired.1, hlive⟩)
  have hfailed : row.status = .failed := hfits _ (h.fits w hworker)
  constructor
  · intro hready
    rw [hfailed] at hready
    cases hready
  · intro x hx
    rw [hworker' x hx]
    exact hfailed
  · intro x hx hhas
    rw [hworker' x hx] at hhas
    cases hhas
  · exact fun _ => ⟨.inr hfailed, hlive⟩

theorem keeps_check (v : Version) (elsewhere : Bool) : Keeps v (v.check elsewhere) := by
  unfold Version.check
  split
  next autoActivate hworker =>
    split
    · refine keeps_removing hworker (fun _ h => h) rfl (fun x hx => ?_)
      cases hx
      rfl
    · exact keeps_stop v
  · exact Keeps.refl v

theorem keeps_unlink (v : Version) : Keeps v v.unlink := by
  unfold Version.unlink
  split
  next autoActivate hworker =>
    refine keeps_removing hworker (fun _ h => h) rfl (fun x hx => ?_)
    cases hx
  · exact Keeps.refl v

theorem keeps_queue (v : Version) : Keeps v v.queue := by
  unfold Version.queue
  split
  next autoActivate hworker =>
    refine keeps_removing hworker (fun _ h => h) rfl (fun x hx => ?_)
    cases hx
  next autoActivate hworker =>
    refine keeps_removing hworker (fun _ h => h) rfl (fun x hx => ?_)
    cases hx
  · exact Keeps.refl v

/-- Every step of a version without the lock. -/
theorem keeps_work (v : Version) (activeVersionId : Option Nat) (activeHash : Option String)
    (work : Work) : Keeps v (v.work activeVersionId activeHash work) := by
  cases work with
  | sweep now => exact keeps_sweep v now
  | claim now => exact keeps_claim v now
  | progress verifying now => exact keeps_progress v verifying now
  | place result => exact keeps_place v result
  | readPolicy => exact keeps_readPolicy v activeVersionId
  | readActive => exact keeps_readActive v activeHash
  | settle now => exact keeps_settle v now
  | fail => exact keeps_fail v
  | stop => exact keeps_stop v
  | readStatus => exact keeps_readStatus v
  | mark now => exact keeps_mark v now
  | check elsewhere => exact keeps_check v elsewhere
  | unlink => exact keeps_unlink v
  | queue => exact keeps_queue v

end Statements

namespace Version

/-- The row of the version, if it has one, fits the rest. -/
def Ok (v : Version) : Prop := ∀ row, v.row = some row → Intact row v

/-- The version will not be used again. -/
def Dead (v : Version) : Prop := ∀ row, v.row = some row → Retired row v.worker

/-- The version can be activated. -/
def Ready (v : Version) : Prop := ∃ row, v.row = some row ∧ row.status = .ready

/-- When the version was published. -/
def publishedAt (v : Version) : Option Nat := v.row.bind (·.publishedAt)

end Version

section Changes

variable {v v' : Version} {f : Row → Row}

theorem Keeps.ok (h : Keeps v v') (hok : v.Ok) : v'.Ok := by
  intro row' hx
  cases h with
  | absent hrow hrow' =>
    rw [hrow'] at hx
    cases hx
  | present hrow hrow' _ hintact =>
    rw [hrow', Option.some.injEq] at hx
    exact hx ▸ hintact (hok _ hrow)

theorem Keeps.dead (h : Keeps v v') (hok : v.Ok) (hdead : v.Dead) : v'.Dead := by
  intro row' hx
  cases h with
  | absent hrow hrow' =>
    rw [hrow'] at hx
    cases hx
  | present hrow hrow' _ _ hretired =>
    rw [hrow', Option.some.injEq] at hx
    exact hx ▸ hretired (hok _ hrow) (hdead _ hrow)

theorem Keeps.ready (h : Keeps v v') (hok : v.Ok) (hready : v.Ready) : v'.Ready := by
  have ⟨row, hx, hstatus⟩ := hready
  cases h with
  | absent hrow hrow' =>
    rw [hrow] at hx
    cases hx
  | present hrow hrow' _ _ _ hkept =>
    rw [hrow, Option.some.injEq] at hx
    exact ⟨_, hrow', hkept (hok _ hrow) (hx ▸ hstatus)⟩

theorem Keeps.published (h : Keeps v v') : v'.publishedAt = v.publishedAt := by
  unfold Version.publishedAt
  cases h with
  | absent hrow hrow' => rw [hrow, hrow']
  | present hrow hrow' hpublished => simp [hrow, hrow', hpublished]

theorem Keeps.row_none (h : Keeps v v') (hrow : v.row = none) : v'.row = none := by
  cases h with
  | absent _ hrow' => exact hrow'
  | present hx =>
    rw [hrow] at hx
    cases hx

theorem Version.Ready.file (h : v.Ready) (hok : v.Ok) : v.file = true := by
  have ⟨row, hrow, hstatus⟩ := h
  exact (hok row hrow).file hstatus

/-! An update that keeps the status changes nothing of this. -/

theorem Version.Ok.update (h : v.Ok) (hstatus : ∀ row, (f row).status = row.status) :
    (v.update f).Ok := by
  intro row' hrow'
  obtain ⟨row, hrow, rfl⟩ := Option.map_eq_some_iff.1 hrow'
  have hintact := h row hrow
  constructor
  · rw [hstatus]
    exact hintact.file
  · rw [hstatus]
    exact hintact.fits
  · exact hintact.placed
  · intro hjob
    unfold Retired
    rw [hstatus]
    exact hintact.job hjob

theorem Version.Dead.update (h : v.Dead) (hstatus : ∀ row, (f row).status = row.status) :
    (v.update f).Dead := by
  intro row' hrow'
  obtain ⟨row, hrow, rfl⟩ := Option.map_eq_some_iff.1 hrow'
  unfold Retired
  rw [hstatus]
  exact h row hrow

theorem Version.Ready.update (h : v.Ready) (hstatus : ∀ row, (f row).status = row.status) :
    (v.update f).Ready := by
  have ⟨row, hrow, hready⟩ := h
  exact ⟨f row, by rw [Version.update, hrow, Option.map_some], by rw [hstatus, hready]⟩

/-- Without a row there is nothing to keep. -/
theorem Version.ok_of_none (hrow : v.row = none) : v.Ok := by
  intro row hx
  rw [hrow] at hx
  cases hx

theorem Version.dead_of_none (hrow : v.row = none) : v.Dead := by
  intro row hx
  rw [hrow] at hx
  cases hx

/-- A version that is not used stays so. -/
theorem work_unused (activeVersionId : Option Nat) (activeHash : Option String) (work : Work) :
    ({} : Version).work activeVersionId activeHash work = {} := by
  cases work <;> rfl

end Changes

end ChordV.Api.RuntimeVersions
