import ChordV.Api.RevocationJobs

/-!
# Requests for lease revocations

Which requests of `createOrRefreshLeaseRevocationJob` are kept until a run starts.

* `Sound` is the invariant: nobody runs a job that has been asked for since, and such a job is
  not completed.  It has one lemma per statement, and `Sound.step` puts them together.
* A request that finds its job running changes nothing, and the write at the end of that run
  completes the job.  `requests_not_lost` is about the runs in which this does not happen and
  `absorbed_request_is_lost` is one in which it does.
-/

namespace ChordV.Api.RevocationJobs

open Lib Lib.Machine

namespace Store

variable {s : Store} {call : Nat} {c : Call} {key : String} {now : Nat}

/-! ## The invariant -/

/-- The job is still to be done, or gone. -/
def NotCompleted (jobs : Table String Job) (key : String) : Prop :=
  ∀ job, jobs.lookup key = some job → job.status ≠ .completed

/-- The caller has written the job, or the job waits, or the caller is about to look again. -/
def Kept (s : Store) (c : Call) (key : String) : Prop :=
  (c.written.lookup key).isSome = true ∨
    NotCompleted s.jobs key ∧ ((s.jobs.lookup key).isSome = true ∨ c.stage.key = some key)

/-- No run is under way that began before one of the requests. -/
structure Sound (s : Store) : Prop where
  asked : ∀ p ∈ s.asked, ∃ c, s.calls.lookup p.1 = some c ∧ s.NoRun p.2 ∧ s.Kept c p.2
  unserved : ∀ key ∈ s.unserved,
    s.NoRun key ∧ NotCompleted s.jobs key ∧ (s.jobs.lookup key).isSome = true
  written : ∀ call c, s.calls.lookup call = some c →
    ∀ key job, c.written.lookup key = some job → job.status = .pending
  locks : ∀ key job, s.jobs.lookup key = some job → job.status = .running →
    job.lockedAt.isSome = true

theorem Sound.empty : Sound {} := by
  refine ⟨fun _ h => ?_, fun _ h => ?_, fun _ _ h => ?_, fun _ _ h => ?_⟩
  · cases h
  · cases h
  · cases h
  · cases h

/-- A job that is not completed is due from some time on. -/
theorem Sound.recurs (h : Sound s) {job : Job} (hjob : s.jobs.lookup key = some job)
    (hstatus : job.status ≠ .completed) : ∃ t, ∀ now, t ≤ now → job.due now = true := by
  have hstale : ∀ lockedAt now, lockedAt + 10 * 60 * 1000 < now →
      staleLock now lockedAt = true := fun lockedAt now hnow => decide_eq_true hnow
  have hwaiting : job.status = .pending ∨ job.status = .failed →
      ∃ t, ∀ now, t ≤ now → job.due now = true := by
    intro hs
    cases hlock : job.lockedAt with
    | none =>
      refine ⟨job.nextRunAt, fun now hnow => ?_⟩
      rw [Job.due_waiting now hs, hlock, Option.all_none, decide_eq_true hnow, Bool.and_true]
    | some lockedAt =>
      refine ⟨job.nextRunAt + (lockedAt + 10 * 60 * 1000 + 1), fun now hnow => ?_⟩
      rw [Job.due_waiting now hs, hlock, Option.all_some, hstale lockedAt now (by omega),
        decide_eq_true (by omega), Bool.and_true]
  cases hs : job.status with
  | completed => exact absurd hs hstatus
  | pending => exact hwaiting (.inl hs)
  | failed => exact hwaiting (.inr hs)
  | running =>
    obtain ⟨lockedAt, hlock⟩ := Option.isSome_iff_exists.1 (h.locks key job hjob hs)
    refine ⟨lockedAt + 10 * 60 * 1000 + 1, fun now hnow => ?_⟩
    rw [Job.due_running now hs, hlock, Option.any_some, hstale lockedAt now (by omega)]

theorem Sound.waiting (h : Sound s) (hkey : key ∈ s.unserved) : s.Waiting key := by
  obtain ⟨hrun, hstatus, hsome⟩ := h.unserved key hkey
  obtain ⟨job, hjob⟩ := Option.isSome_iff_exists.1 hsome
  exact ⟨job, hjob, h.recurs hjob (hstatus job hjob), fun _ => hrun⟩

/-! ## What the statements do to the invariant -/

/-- Rows change, but no row disappears and only a job with a run is completed. -/
theorem Sound.setJobs (h : Sound s) {jobs : Table String Job}
    (hsome : ∀ key, (s.jobs.lookup key).isSome = true → (jobs.lookup key).isSome = true)
    (hstatus : ∀ key, s.NoRun key → NotCompleted s.jobs key → NotCompleted jobs key)
    (hlocks : ∀ key job, jobs.lookup key = some job → job.status = .running →
      job.lockedAt.isSome = true) :
    Sound { s with jobs } := by
  refine ⟨fun p hp => ?_, fun key hkey => ?_, h.written, hlocks⟩
  · obtain ⟨c, hc, hrun, hkept⟩ := h.asked p hp
    refine ⟨c, hc, hrun, hkept.imp id fun hk => ?_⟩
    exact ⟨hstatus _ hrun hk.1, hk.2.imp (hsome _) id⟩
  · obtain ⟨hrun, hnot, hrow⟩ := h.unserved key hkey
    exact ⟨hrun, hstatus _ hrun hnot, hsome _ hrow⟩

/-- One row is set to a job that waits. -/
theorem Sound.insertJob (h : Sound s) (key : String) (now : Nat) :
    Sound { s with jobs := s.jobs.insert key { nextRunAt := now } } := by
  refine h.setJobs (fun k hk => ?_) (fun k _ hk job hjob => ?_) fun k job hjob hs => ?_
  · rw [Table.lookup_insert_ite]
    split
    · rfl
    · exact hk
  · rw [Table.lookup_insert_ite] at hjob
    split at hjob
    · cases hjob
      exact fun hs => by cases hs
    · exact hk job hjob
  · rw [Table.lookup_insert_ite] at hjob
    split at hjob
    · cases hjob
      cases hs
    · exact h.locks k job hjob hs

/-- The write of a worker to its row.  If it completes the job then a run was under way. -/
theorem Sound.modifyJob (h : Sound s) (key : String) (f : Job → Job)
    (hcompleted : ∀ job, (f job).status = .completed → ¬ s.NoRun key)
    (hlock : ∀ job, (f job).status = .running → (f job).lockedAt.isSome = true) :
    Sound { s with jobs := s.jobs.modify key f } := by
  refine h.setJobs (fun k hk => ?_) (fun k hrun hk job hjob => ?_) fun k job hjob hs => ?_
  · rw [Table.lookup_modify]
    split
    case isTrue hkey => rw [Option.isSome_map, ← hkey]; exact hk
    case isFalse => exact hk
  · rw [Table.lookup_modify] at hjob
    split at hjob
    case isTrue hkey =>
      obtain ⟨job₀, -, rfl⟩ := Option.map_eq_some_iff.1 hjob
      exact fun hs => hcompleted job₀ hs (hkey ▸ hrun)
    case isFalse => exact hk job hjob
  · rw [Table.lookup_modify] at hjob
    split at hjob
    case isTrue hkey =>
      obtain ⟨job₀, -, rfl⟩ := Option.map_eq_some_iff.1 hjob
      exact hlock job₀ hs
    case isFalse => exact h.locks k job hjob hs

/-- A caller moves on, and perhaps asks for a job. -/
theorem Sound.setCall (h : Sound s) {asked : List (Nat × String)}
    (hasked : ∀ p ∈ asked, p.1 ≠ call → p ∈ s.asked)
    (hkept : ∀ p ∈ asked, p.1 = call → s.NoRun p.2 ∧ s.Kept c p.2)
    (hwritten : ∀ key job, c.written.lookup key = some job → job.status = .pending) :
    Sound (({ s with asked } : Store).setCall call c) := by
  refine ⟨fun p hp => ?_, h.unserved, fun call' c' hc' => ?_, h.locks⟩
  · show ∃ c', (s.calls.insert call c).lookup p.1 = some c' ∧ _
    rw [Table.lookup_insert_ite]
    split
    case isTrue hcall => exact ⟨c, rfl, hkept p hp hcall⟩
    case isFalse hcall => exact h.asked p (hasked p hp hcall)
  · change (s.calls.insert call c).lookup call' = some c' at hc'
    rw [Table.lookup_insert_ite] at hc'
    split at hc'
    · cases hc'
      exact hwritten
    · exact h.written call' c' hc'

/-- Workers stop, or read a job. -/
theorem Sound.setWorkers (h : Sound s) {workers : Table Nat Worker}
    (hruns : ∀ worker w key, workers.lookup worker = some w → w.runs key = true →
      s.workers.lookup worker = some w) :
    Sound { s with workers } := by
  have hno : ∀ key, s.NoRun key → ({ s with workers } : Store).NoRun key := by
    intro key hrun worker w hw
    cases hr : w.runs key with
    | false => rfl
    | true => exact absurd (hrun worker w (hruns worker w key hw hr)) (by simp [hr])
  refine ⟨fun p hp => ?_, fun key hkey => ?_, h.written, h.locks⟩
  · obtain ⟨c, hc, hrun, hkept⟩ := h.asked p hp
    exact ⟨c, hc, hno _ hrun, hkept⟩
  · obtain ⟨hrun, hrest⟩ := h.unserved key hkey
    exact ⟨hno _ hrun, hrest⟩

/-! ## Calls -/

theorem seen_none (h : s.seen c key = none) :
    c.written.lookup key = none ∧ s.jobs.lookup key = none := by
  by_cases hmem : key ∈ c.written
  · rw [seen, AList.lookup_union_left hmem] at h
    exact absurd (AList.lookup_eq_none.1 h) (not_not.2 hmem)
  · rw [seen, AList.lookup_union_right hmem] at h
    exact ⟨AList.lookup_eq_none.2 hmem, h⟩

theorem seen_some {job : Job} (h : s.seen c key = some job) :
    c.written.lookup key = some job ∨ s.jobs.lookup key = some job := by
  by_cases hmem : key ∈ c.written
  · rw [seen, AList.lookup_union_left hmem] at h
    exact .inl h
  · rw [seen, AList.lookup_union_right hmem] at h
    exact .inr h

/-- What the caller has kept, it keeps when its stage is about nothing else. -/
theorem Sound.kept (h : Sound s) (hc : s.calls.lookup call = some c)
    (hstage : ∀ k, c.stage.key = some k → k = key) {p : Nat × String} (hp : p ∈ s.asked)
    (hcall : p.1 = call) (hne : p.2 ≠ key) (stage : Stage) :
    s.NoRun p.2 ∧ s.Kept { c with stage } p.2 := by
  obtain ⟨c₀, hc₀, hrun, hkept⟩ := h.asked p hp
  rw [hcall, hc] at hc₀
  cases hc₀
  refine ⟨hrun, hkept.imp id fun ⟨hnot, hrow⟩ => ⟨hnot, hrow.imp id fun hs => ?_⟩⟩
  exact absurd (hstage _ hs) hne

/-- A caller that has asked for the job, now or before, writes it. -/
theorem Sound.write (h : Sound s) (hc : s.calls.lookup call = some c)
    (hstage : ∀ k, c.stage.key = some k → k = key) {asked : List (Nat × String)}
    (hasked : ∀ p ∈ asked, p ∈ s.asked ∨ p = (call, key) ∧ s.NoRun key) :
    Sound (({ s with asked } : Store).write call c key now) := by
  have hother : ∀ p ∈ asked, p.1 ≠ call → p ∈ s.asked := by
    intro p hp hcall
    rcases hasked p hp with hp | ⟨rfl, -⟩
    · exact hp
    · exact absurd rfl hcall
  have hrun : ∀ p ∈ asked, p.1 = call → p.2 = key → s.NoRun p.2 := by
    intro p hp _ hkey
    rcases hasked p hp with hp | ⟨rfl, hrun⟩
    · obtain ⟨-, -, hrun, -⟩ := h.asked p hp
      exact hrun
    · exact hrun
  have hkept : ∀ p ∈ asked, p.1 = call → p.2 ≠ key → ∀ stage,
      s.NoRun p.2 ∧ s.Kept { c with stage } p.2 := by
    intro p hp hcall hne
    rcases hasked p hp with hp | ⟨rfl, -⟩
    · exact h.kept hc hstage hp hcall hne
    · exact absurd rfl hne
  unfold Store.write
  split
  · refine h.setCall hother (fun p hp hcall => ?_) fun k job hjob => ?_
    · by_cases hkey : p.2 = key
      · refine ⟨hrun p hp hcall hkey, .inl ?_⟩
        rw [hkey, AList.lookup_insert]
        rfl
      · obtain ⟨hno, hk⟩ := hkept p hp hcall hkey .idle
        refine ⟨hno, hk.imp (fun hw => ?_) id⟩
        rw [AList.lookup_insert_ne hkey]
        exact hw
    · rw [Table.lookup_insert_ite] at hjob
      split at hjob
      · cases hjob
        rfl
      · exact h.written call c hc k job hjob
  · refine (h.insertJob key now).setCall hother (fun p hp hcall => ?_) (h.written call c hc)
    by_cases hkey : p.2 = key
    · refine ⟨hrun p hp hcall hkey, .inr ⟨fun job hjob => ?_, .inl ?_⟩⟩
      · rw [hkey, AList.lookup_insert] at hjob
        cases hjob
        exact fun hs => by cases hs
      · rw [hkey, AList.lookup_insert]
        rfl
    · obtain ⟨hno, hk⟩ := hkept p hp hcall hkey .idle
      refine ⟨hno, hk.imp id fun ⟨hnot, hrow⟩ => ?_⟩
      have heq : (s.jobs.insert key { nextRunAt := now }).lookup p.2 = s.jobs.lookup p.2 :=
        AList.lookup_insert_ne hkey
      refine ⟨fun job hjob => hnot job (heq ▸ hjob), hrow.imp (fun hr => ?_) id⟩
      rw [heq]
      exact hr

/-- A caller that has found no row to update. -/
theorem Sound.missed (h : Sound s) (hc : s.calls.lookup call = some c) (hidle : c.stage = .idle)
    (hrun : s.NoRun key) (hnot : NotCompleted s.jobs key) (now : Nat) :
    Sound (({ s with asked := (call, key) :: s.asked } : Store).setCall call
      { c with stage := .missed key now }) := by
  have hstage : ∀ k, c.stage.key = some k → k = key := by
    intro k hk
    rw [hidle] at hk
    cases hk
  refine h.setCall (fun p hp hcall => ?_) (fun p hp hcall => ?_) (h.written call c hc)
  · rcases List.mem_cons.1 hp with rfl | hp
    · exact absurd rfl hcall
    · exact hp
  · by_cases hkey : p.2 = key
    · rw [hkey]
      exact ⟨hrun, .inr ⟨hnot, .inr rfl⟩⟩
    · rcases List.mem_cons.1 hp with rfl | hp
      · exact absurd rfl hkey
      · exact h.kept hc hstage hp hcall hkey _

theorem Sound.request (h : Sound s) (hc : s.calls.lookup call = some c)
    (hidle : c.stage = .idle) (hrun : s.NoRun key) : Sound (s.request call c key now) := by
  unfold Store.request
  split
  case h_1 job hseen =>
    split
    · exact h
    · split
      case isTrue hstatus =>
        refine h.missed hc hidle hrun (fun job' hjob' => ?_) now
        rcases seen_some hseen with hw | hj
        · rw [h.written call c hc key job hw] at hstatus
          cases hstatus
        · rw [hj] at hjob'
          cases hjob'
          rw [hstatus]
          exact fun hs => by cases hs
      case isFalse =>
        refine h.write hc (fun k hk => ?_) fun p hp => ?_
        · rw [hidle] at hk
          cases hk
        · rcases List.mem_cons.1 hp with rfl | hp
          · exact .inr ⟨rfl, hrun⟩
          · exact .inl hp
  case h_2 hseen =>
    refine h.missed hc hidle hrun (fun job hjob => ?_) now
    rw [(seen_none hseen).2] at hjob
    cases hjob

/-- A caller goes on with the job that its stage is about. -/
theorem Sound.setStage (h : Sound s) (hc : s.calls.lookup call = some c)
    (hkey : c.stage.key = some key) {stage : Stage}
    (hnext : stage.key = some key ∨ ∃ job, s.seen c key = some job) :
    Sound (s.setCall call { c with stage }) := by
  have hstage : ∀ k, c.stage.key = some k → k = key := fun k hk =>
    Option.some.inj (hk.symm.trans hkey)
  refine h.setCall (fun p hp _ => hp) (fun p hp hcall => ?_) (h.written call c hc)
  by_cases heq : p.2 = key
  · obtain ⟨c₀, hc₀, hrun, hkept⟩ := h.asked p hp
    rw [hcall, hc] at hc₀
    cases hc₀
    refine ⟨hrun, ?_⟩
    rcases hkept with hw | ⟨hnot, -⟩
    · exact .inl hw
    · rcases hnext with hs | ⟨job, hseen⟩
      · exact .inr ⟨hnot, .inr (heq ▸ hs)⟩
      · rw [heq] at hnot ⊢
        rcases seen_some hseen with hw | hj
        · exact .inl (by rw [show ({ c with stage } : Call).written = c.written from rfl, hw]; rfl)
        · exact .inr ⟨hnot, .inl (by rw [hj]; rfl)⟩
  · exact h.kept hc hstage hp hcall heq _

theorem Sound.advance (h : Sound s) (hc : s.calls.lookup call = some c) :
    Sound (s.advance call c) := by
  unfold Store.advance
  split
  case h_1 => exact h
  case h_2 key now hstage =>
    have hkey : c.stage.key = some key := by rw [hstage]; rfl
    split
    case h_1 job hseen =>
      split
      · exact h.setStage hc hkey (.inl rfl)
      · exact h.setStage hc hkey (.inr ⟨job, hseen⟩)
    case h_2 => exact h.setStage hc hkey (.inl rfl)
  case h_3 key now hstage =>
    have hkey : c.stage.key = some key := by rw [hstage]; rfl
    split
    · exact h
    · split
      case h_1 job hseen => exact h.setStage hc hkey (.inr ⟨job, hseen⟩)
      case h_2 =>
        exact h.write hc (fun k hk => Option.some.inj (hk.symm.trans hkey)) fun p hp => .inl hp

theorem Sound.abort (h : Sound s) (call : Nat) : Sound (s.abort call) := by
  refine ⟨fun p hp => ?_, h.unserved, fun call' c hc => ?_, h.locks⟩
  · obtain ⟨hp, hne⟩ := List.mem_filter.1 hp
    obtain ⟨c, hc, hrest⟩ := h.asked p hp
    refine ⟨c, ?_, hrest⟩
    show (s.calls.erase call).lookup p.1 = some c
    rw [AList.lookup_erase_ne (of_decide_eq_true hne), hc]
  · change (s.calls.erase call).lookup call' = some c at hc
    rw [Table.lookup_erase_ite] at hc
    split at hc
    · cases hc
    · exact h.written call' c hc

/-- A transaction commits its rows. -/
theorem Sound.commit (h : Sound s) (hc : s.calls.lookup call = some c) :
    Sound { s with jobs := c.written ∪ s.jobs } := by
  have hcases : ∀ key job, (c.written ∪ s.jobs).lookup key = some job →
      job.status = .pending ∨ s.jobs.lookup key = some job := by
    intro key job hjob
    exact (seen_some hjob).imp (h.written call c hc key job) id
  refine h.setJobs (fun key hkey => ?_) (fun key _ hnot job hjob => ?_) fun key job hjob hs => ?_
  · cases hseen : (c.written ∪ s.jobs).lookup key with
    | some job => rfl
    | none =>
      rw [(seen_none hseen).2] at hkey
      cases hkey
  · rcases hcases key job hjob with hs | hj
    · rw [hs]
      exact fun hs => by cases hs
    · exact hnot job hj
  · rcases hcases key job hjob with hp | hj
    · rw [hp] at hs
      cases hs
    · exact h.locks key job hj hs

/-- What a caller has kept waits once the caller has committed. -/
theorem Sound.committed (h : Sound s) (hc : s.calls.lookup call = some c)
    (hidle : c.stage = .idle) (hkept : s.Kept c key) :
    NotCompleted (c.written ∪ s.jobs) key ∧ ((c.written ∪ s.jobs).lookup key).isSome = true := by
  rcases hkept with hw | ⟨hnot, hrow⟩
  · obtain ⟨job, hjob⟩ := Option.isSome_iff_exists.1 hw
    have hunion : (c.written ∪ s.jobs).lookup key = some job := by
      rw [AList.lookup_union_left (AList.lookup_isSome.1 hw), hjob]
    refine ⟨fun job' hjob' => ?_, by rw [hunion]; rfl⟩
    rw [hunion] at hjob'
    cases hjob'
    rw [h.written call c hc key job hjob]
    exact fun hs => by cases hs
  · have hrow : (s.jobs.lookup key).isSome = true := by
      rcases hrow with hrow | hs
      · exact hrow
      · rw [hidle] at hs
        cases hs
    cases hseen : (c.written ∪ s.jobs).lookup key with
    | none =>
      rw [(seen_none hseen).2] at hrow
      cases hrow
    | some job =>
      refine ⟨fun job' hjob' => ?_, rfl⟩
      rw [hseen] at hjob'
      cases hjob'
      rcases seen_some hseen with hw | hj
      · rw [h.written call c hc key job hw]
        exact fun hs => by cases hs
      · exact hnot job hj

theorem Sound.close (h : Sound s) (hc : s.calls.lookup call = some c) (hidle : c.stage = .idle) :
    Sound (s.close call c) := by
  have hcommit := (h.commit hc).abort call
  refine ⟨hcommit.asked, fun key hkey => ?_, hcommit.written, hcommit.locks⟩
  rcases List.mem_append.1 hkey with hkey | hkey
  · obtain ⟨p, hp, rfl⟩ := List.mem_map.1 hkey
    obtain ⟨hp, hcall⟩ := List.mem_filter.1 hp
    obtain ⟨c₀, hc₀, hrun, hkept⟩ := h.asked p hp
    rw [of_decide_eq_true hcall, hc] at hc₀
    cases hc₀
    exact ⟨hrun, h.committed hc hidle hkept⟩
  · exact hcommit.unserved key hkey

/-! ## Workers -/

theorem Sound.endWorker (h : Sound s) (worker : Nat) : Sound (s.endWorker worker) := by
  refine h.setWorkers fun w x key hw _ => ?_
  rw [Table.lookup_erase_ite] at hw
  split at hw
  · cases hw
  · exact hw

theorem Sound.select (h : Sound s) (worker : Nat) (key : String) (attempts now : Nat) :
    Sound { s with workers := s.workers.insert worker (.selected key attempts now) } := by
  refine h.setWorkers fun w x key hw hruns => ?_
  rw [Table.lookup_insert_ite] at hw
  split at hw
  · cases hw
    cases hruns
  · exact hw

theorem Sound.finish (h : Sound s) {worker attempts : Nat} {f : Job → Job}
    (hworker : s.workers.lookup worker = some (.running key attempts))
    (hlock : ∀ job, (f job).status = .running → (f job).lockedAt.isSome = true) :
    Sound (s.finish worker key f) := by
  unfold Store.finish
  split
  · exact h
  · refine (h.modifyJob key f (fun job _ hrun => ?_) hlock).endWorker worker
    have hruns := hrun worker _ hworker
    simp [Worker.runs] at hruns

/-- A run starts, and no open transaction has asked for it. -/
theorem Sound.startRun (h : Sound s) {worker attempts lockedAt : Nat}
    (hasked : ∀ p ∈ s.asked, p.2 = key → (s.calls.lookup p.1).any (·.inTransaction) = false) :
    Sound (s.startRun worker key attempts lockedAt) := by
  have hjobs := h.modifyJob key
    (fun job => { job with status := .running, lockedAt := some lockedAt })
    (fun job hs => by cases hs) fun job _ => rfl
  have hno : ∀ k, k ≠ key → s.NoRun k → (s.startRun worker key attempts lockedAt).NoRun k := by
    intro k hne hrun w x hx
    change (s.workers.insert worker (.running key attempts)).lookup w = some x at hx
    rw [Table.lookup_insert_ite] at hx
    split at hx
    · cases hx
      simpa [Worker.runs] using Ne.symm hne
    · exact hrun w x hx
  refine ⟨fun p hp => ?_, fun k hk => ?_, h.written, hjobs.locks⟩
  · obtain ⟨hp, hkeep⟩ := List.mem_filter.1 hp
    have hne : p.2 ≠ key := by
      intro heq
      simp [heq, hasked p hp heq] at hkeep
    obtain ⟨c, hc, hrun, hkept⟩ := hjobs.asked p hp
    exact ⟨c, hc, hno _ hne hrun, hkept⟩
  · obtain ⟨hk, hne⟩ := List.mem_filter.1 hk
    obtain ⟨hrun, hrest⟩ := hjobs.unserved k hk
    exact ⟨hno k (of_decide_eq_true hne) hrun, hrest⟩

/-! ## Runs -/

theorem noRun_of_any (h : (s.workers.pairs.any fun p => p.2.runs key) = false) : s.NoRun key := by
  intro worker w hw
  have hall := List.any_eq_false.1 h (worker, w) (Table.mem_pairs.2 hw)
  simpa using hall

theorem Sound.step (cfg : Config) {s : Store} (e : Event) (h : Sound s)
    (hmeets : s.overlaps e = false) : Sound (step cfg s e) := by
  cases e with
  | start call inTransaction =>
    simp only [RevocationJobs.step]
    split
    case isTrue hnone =>
      refine h.setCall (fun p hp _ => hp) (fun p hp hcall => ?_) fun key job hjob => by cases hjob
      obtain ⟨c, hc, -⟩ := h.asked p hp
      rw [hcall] at hc
      rw [hc] at hnone
      cases hnone
    case isFalse => exact h
  | request call key now =>
    simp only [RevocationJobs.step]
    split
    case h_1 c hc =>
      split
      case isTrue hidle => exact h.request hc hidle (noRun_of_any hmeets)
      case isFalse => exact h
    case h_2 => exact h
  | advance call =>
    simp only [RevocationJobs.step]
    split
    case h_1 c hc => exact h.advance hc
    case h_2 => exact h
  | close call =>
    simp only [RevocationJobs.step]
    split
    case h_1 c hc =>
      split
      case isTrue hidle => exact h.close hc hidle
      case isFalse => exact h
    case h_2 => exact h
  | abort call => exact h.abort call
  | select worker key now =>
    simp only [RevocationJobs.step]
    split
    · split
      · exact h.select worker key _ now
      · exact h
    · exact h
  | claim worker lockedAt =>
    simp only [RevocationJobs.step]
    split
    case h_1 w hw =>
      cases w with
      | running key attempts => exact h
      | selected key attempts now =>
        simp only [Store.claim]
        split
        case isTrue htaken =>
          refine h.startRun fun p hp hkey => ?_
          simp only [overlaps, hw, htaken, Bool.true_and] at hmeets
          have hp' := List.any_eq_false.1 hmeets p hp
          simpa [hkey] using hp'
        case isFalse =>
          split
          · exact h
          · exact h.endWorker worker
    case h_2 => exact h
  | complete worker =>
    simp only [RevocationJobs.step]
    split
    case h_1 key attempts hw => exact h.finish hw fun job hs => by cases hs
    case h_2 => exact h
  | fail worker now =>
    simp only [RevocationJobs.step]
    split
    case h_1 key attempts hw => exact h.finish hw fun job hs => by cases hs
    case h_2 => exact h
  | die worker => exact h.endWorker worker
  | retry key now =>
    simp only [RevocationJobs.step]
    split
    · split
      · exact h.insertJob key now
      · exact h
    · exact h

end Store

/-- In a run in which no request meets a run of its job, no request is lost: every request that
has returned has been followed by the start of a run, or its job still waits. -/
theorem requests_not_lost (cfg : Config) (events : List Event)
    (h : Meets (step cfg) (fun s e => s.overlaps e = false) {} events) :
    ∀ key ∈ (run (step cfg) {} events).unserved, (run (step cfg) {} events).Waiting key :=
  fun _ hkey =>
    (run_keeps_of_meets (fun _ e hs he => hs.step cfg e he) Store.Sound.empty h).waiting hkey

/-- Two callers, one of them in a transaction, and a run that fails between them. -/
def failedRun : List Event :=
  [.start 0 false, .request 0 "n1" 1000, .advance 0, .advance 0, .close 0,
   .select 0 "n1" 2000, .claim 0 2000, .fail 0 3000,
   .start 1 true, .request 1 "n1" 4000, .request 1 "n2" 4000, .advance 1,
   .advance 1, .close 1]

theorem requests_not_lost_failed :
    (run (step {}) {} failedRun).unserved = ["n2", "n1"] ∧
    ∀ key ∈ (run (step {}) {} failedRun).unserved, (run (step {}) {} failedRun).Waiting key :=
  ⟨by decide +kernel, requests_not_lost {} failedRun (by decide +kernel)⟩

/-- A second request finds its job running: nothing is updated, nothing is found and nothing is
inserted.  The run then completes the job. -/
def absorbedRequest : List Event :=
  [.start 0 false, .request 0 "n1" 1000, .advance 0, .advance 0, .close 0,
   .select 0 "n1" 2000, .claim 0 2000,
   .start 1 false, .request 1 "n1" 3000, .advance 1, .advance 1, .close 1,
   .complete 0]

theorem absorbed_request_is_lost :
    ¬ ∀ (cfg : Config) (events : List Event), ∀ key ∈ (run (step cfg) {} events).unserved,
      (run (step cfg) {} events).Waiting key := by
  intro h
  obtain ⟨job, hjob, ⟨t, ht⟩, -⟩ :=
    h {} absorbedRequest "n1" (by decide +kernel)
  have hrow : (run (step {}) {} absorbedRequest).jobs.lookup "n1" =
      some { status := .completed, nextRunAt := 1000 } := by decide +kernel
  rw [hrow] at hjob
  cases hjob
  cases ht t le_rfl

end ChordV.Api.RevocationJobs
