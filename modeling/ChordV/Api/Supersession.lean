import ChordV.Api.ExhaustedCommands

/-!
# Superseded commands

Which exhausted commands are to be marked as resolved, and the invariant that says that they are.

* `supersedes` is the relation that both sides compute: a newer command for the same node that
  covers the older one.  `replacedBy_eq` is the side of the sweep and `covers_eq` that of the
  enqueue.
* `Sound` is the invariant: a cancelled command is marked if and only if it is superseded, up to
  the marks of an enqueue that has yet to insert its row.
* `Evolves` says how the rows change in a step, and `Sound.evolves` what is to be shown then.
-/

namespace ChordV.Api.ExhaustedCommands

open Lib Lib.Machine

/-! ## The relation -/

/-- A newer command of the first type leaves one of the second with nothing to deliver. -/
def CommandType.moots : CommandType → CommandType → Bool
  | .removeUser, _ => true
  | .disableUser, .ensureUser => true
  | .disableUser, .enableUser => true
  | .disableUser, .refreshQuota => true
  | _, _ => false

/-- The newer command replaces the job. -/
def Job.supersedes (newer job : Job) : Bool :=
  newer.nodeId = job.nodeId && decide (job.targetRevision < newer.targetRevision) &&
    match newer.bindingId with
    | some bindingId =>
      job.bindingId = some bindingId &&
        (newer.commandType = job.commandType || newer.commandType.moots job.commandType)
    | none => !hasUserTargeting newer.payload && newer.commandType = job.commandType

theorem contains_superseding (type newer : CommandType) :
    (bindingCommandTypesSuperseding type).contains newer = (newer = type || newer.moots type) := by
  cases type <;> cases newer <;> rfl

theorem resolvesType_eq (type older : CommandType) :
    resolvesType type older = (type = older || type.moots older) := by
  cases type <;> cases older <;> rfl

/-- The sweep computes the relation. -/
theorem replacedBy_eq (job newer : Job) : job.replacedBy newer = newer.supersedes job := by
  unfold Job.replacedBy Job.supersedes
  rw [contains_superseding]
  cases hbinding : newer.bindingId with
  | none =>
    cases hjob : job.bindingId with
    | none => simp [Bool.and_assoc, Bool.and_comm, Bool.and_left_comm]
    | some other => simp [Bool.and_assoc, Bool.and_comm, Bool.and_left_comm]
  | some bindingId =>
    cases hjob : job.bindingId with
    | none => simp
    | some other => simp [eq_comm]

/-- The enqueue computes the relation, for the jobs with a lower revision. -/
theorem covers_eq {nodeOf : String → Option String} {order : Order} {job : Job} {key : String}
    {revision : Nat} (horder : order.belongs nodeOf = true)
    (hjob : ∀ b, job.bindingId = some b → nodeOf b = some job.nodeId)
    (hrevision : job.targetRevision < revision) :
    order.covers job = (order.job key revision).supersedes job := by
  unfold Order.covers Job.supersedes
  cases hbinding : order.payload.binding with
  | none => simp [Order.job, hbinding, hrevision, eq_comm, Bool.and_comm, Bool.and_left_comm]
  | some bindingId =>
    simp only [Order.job, hbinding, resolvesType_eq]
    by_cases heq : job.bindingId = some bindingId
    · have hnode : order.nodeId = job.nodeId := by
        have hbelongs : nodeOf bindingId = some order.nodeId := by
          simpa [Order.belongs, hbinding] using horder
        exact Option.some.inj (hbelongs.symm.trans (hjob bindingId heq))
      simp [heq, hnode, hrevision]
    · simp [heq]

/-- What the relation reads of a job. -/
structure Job.Same (job job' : Job) : Prop where
  nodeId : job'.nodeId = job.nodeId
  commandType : job'.commandType = job.commandType
  targetRevision : job'.targetRevision = job.targetRevision
  payload : job'.payload = job.payload
  bindingId : job'.bindingId = job.bindingId

theorem Job.Same.supersedes {job job' newer newer' : Job} (h : job.Same job')
    (h' : newer.Same newer') : newer'.supersedes job' = newer.supersedes job := by
  simp only [Job.supersedes, h.nodeId, h.commandType, h.targetRevision, h.bindingId, h'.nodeId,
    h'.commandType, h'.targetRevision, h'.payload, h'.bindingId]

theorem Job.Same.refl (job : Job) : job.Same job := ⟨rfl, rfl, rfl, rfl, rfl⟩

namespace Store

/-- A newer command that replaces the job is in the table. -/
def Superseded (s : Store) (job : Job) : Prop :=
  ∃ id newer, s.jobs.lookup id = some newer ∧ newer.supersedes job = true

/-- Every exhausted job is marked if and only if it is superseded. -/
def Marked (s : Store) : Prop :=
  ∀ id job, s.jobs.lookup id = some job → job.status = .cancelled →
    (job.resolved = true ↔ s.Superseded job)

/-- No enqueue is under way. -/
def Quiet (s : Store) : Prop := ∀ call, s.calls.lookup call = none

/-- An enqueue that does not hold the lock of its node is disturbed, a key is taken, or a
registration leaves an exhausted command behind. -/
def disturbed (s : Store) : Event → Bool
  -- The `upsert` overwrites a row.
  | .queueBinding _ order =>
    (s.holder (bindingKey order (s.revisions order.nodeId + 1))).isSome
  | .advance call _ =>
    match s.calls.lookup call with
    -- A command that was enqueued after the revision was taken is cancelled already.
    | some (.allocated order revision) =>
      s.jobs.pairs.any fun p =>
        p.2.exhausted && order.covers p.2 && decide (revision ≤ p.2.targetRevision)
    | some (.resolved order revision _) => (s.holder (bindingKey order revision)).isSome
    -- A command was cancelled after the snapshot.
    | some (.snapshot _ orders seen) =>
      s.jobs.pairs.any fun p =>
        p.2.exhausted && !seen.contains p.1 && orders.any fun o => o.2.covers p.2
    | none => false
  -- A command is cancelled after the marks were made and before the new row is there.
  | .cancel id =>
    match s.jobs.lookup id with
    | some job =>
      !(s.jobs.pairs.any fun p => job.replacedBy p.2) && s.calls.pairs.any fun c =>
        match c.2 with
        | .resolved order revision _ =>
          (order.job (bindingKey order revision) revision).supersedes job
        | _ => false
    | none => false
  -- The marks stay and the row does not come.
  | .abort call =>
    match s.calls.lookup call with
    | some (.resolved _ _ marked) => !marked.isEmpty
    | _ => false
  -- Nothing resolves the exhausted validation that the new one replaces.
  | .register _ nodeId =>
    (s.holder (onboardingKey nodeId)).isNone &&
      s.jobs.pairs.any fun p => p.2.exhausted && (onboarding nodeId).covers p.2
  | _ => false

variable {nodeOf : String → Option String} {s : Store}

/-! ## The invariant -/

/-- What an enqueue under way knows. -/
def Call.Sound (nodeOf : String → Option String) (s : Store) : Call → Prop
  | .allocated order revision =>
    order.belongs nodeOf = true ∧ revision ≤ s.revisions order.nodeId
  | .resolved order revision _ =>
    order.belongs nodeOf = true ∧ revision ≤ s.revisions order.nodeId ∧
      ∀ id job, s.jobs.lookup id = some job → job.status = .cancelled →
        (order.job "" revision).supersedes job = true → job.resolved = true
  | .snapshot nodeId orders _ =>
    ∀ o ∈ orders, o.2.nodeId = nodeId ∧ o.2.belongs nodeOf = true

/-- An enqueue has marked the job and will insert the command that supersedes it. -/
def Announced (s : Store) (id : String) (job : Job) : Prop :=
  ∃ call order revision marked, s.calls.lookup call = some (.resolved order revision marked) ∧
    id ∈ marked ∧ (order.job "" revision).supersedes job = true

/-- Marks are right, but for those that a call has announced. -/
structure Sound (nodeOf : String → Option String) (s : Store) : Prop where
  resolved : ∀ id job, s.jobs.lookup id = some job → job.status = .cancelled →
    s.Superseded job → job.resolved = true
  superseded : ∀ id job, s.jobs.lookup id = some job → job.resolved = true →
    job.status = .cancelled ∧ (s.Superseded job ∨ s.Announced id job)
  revisions : ∀ id job, s.jobs.lookup id = some job →
    job.targetRevision ≤ s.revisions job.nodeId
  bindings : ∀ id job b, s.jobs.lookup id = some job → job.bindingId = some b →
    nodeOf b = some job.nodeId
  calls : ∀ call c, s.calls.lookup call = some c → Call.Sound nodeOf s c

theorem Sound.empty : Sound nodeOf {} :=
  ⟨fun _ _ h => by (cases h), fun _ _ h => by (cases h), fun _ _ h => by (cases h),
    fun _ _ _ h => by (cases h), fun _ _ h => by (cases h)⟩

theorem Sound.marked (h : Sound nodeOf s) (hquiet : s.Quiet) : s.Marked := by
  intro id job hjob hstatus
  refine ⟨fun hresolved => ?_, h.resolved id job hjob hstatus⟩
  obtain ⟨-, hsuperseded | ⟨call, order, revision, marked, hcall, -⟩⟩ :=
    h.superseded id job hjob hresolved
  · exact hsuperseded
  · rw [hquiet call] at hcall
    cases hcall

/-! ## Tables that evolve -/

/-- Rows change by `f`, and some are new. -/
structure Evolves (s s' : Store) (f : String → Job → Job) (New : Job → Prop) : Prop where
  forth : ∀ id job, s.jobs.lookup id = some job → s'.jobs.lookup id = some (f id job)
  back : ∀ id job', s'.jobs.lookup id = some job' →
    (∃ job, s.jobs.lookup id = some job ∧ job' = f id job) ∨ New job'
  same : ∀ id job, s.jobs.lookup id = some job → job.Same (f id job)
  fresh : ∀ job, New job → (∃ id, s'.jobs.lookup id = some job) ∧ job.status = .pending ∧
    job.resolved = false
  revisions : ∀ nodeId, s.revisions nodeId ≤ s'.revisions nodeId

variable {s' : Store} {f : String → Job → Job} {New : Job → Prop} {id : String} {job : Job}

theorem Evolves.superseded_iff (he : Evolves s s' f New) (hjob : s.jobs.lookup id = some job) :
    s'.Superseded (f id job) ↔
      s.Superseded job ∨ ∃ newer, New newer ∧ newer.supersedes job = true := by
  have hsame := he.same id job hjob
  constructor
  · rintro ⟨k, newer', hnewer, hs⟩
    rcases he.back k newer' hnewer with ⟨newer, hk, rfl⟩ | hnew
    · refine .inl ⟨k, newer, hk, ?_⟩
      rw [← hs, hsame.supersedes (he.same k newer hk)]
    · refine .inr ⟨newer', hnew, ?_⟩
      rw [← hs, hsame.supersedes (.refl newer')]
  · rintro (⟨k, newer, hk, hs⟩ | ⟨newer, hnew, hs⟩)
    · refine ⟨k, f k newer, he.forth k newer hk, ?_⟩
      rw [hsame.supersedes (he.same k newer hk), hs]
    · obtain ⟨⟨k, hk⟩, -⟩ := he.fresh newer hnew
      refine ⟨k, newer, hk, ?_⟩
      rw [hsame.supersedes (.refl newer), hs]

/-- The invariant after a step, in terms of the rows before it. -/
theorem Sound.evolves (h : Sound nodeOf s) (he : Evolves s s' f New)
    (hnew : ∀ job, New job → job.targetRevision ≤ s'.revisions job.nodeId ∧
      ∀ b, job.bindingId = some b → nodeOf b = some job.nodeId)
    (hresolved : ∀ id job, s.jobs.lookup id = some job → (f id job).status = .cancelled →
      (s.Superseded job ∨ ∃ newer, New newer ∧ newer.supersedes job = true) →
      (f id job).resolved = true)
    (hsuperseded : ∀ id job, s.jobs.lookup id = some job → (f id job).resolved = true →
      (f id job).status = .cancelled ∧
        ((s.Superseded job ∨ ∃ newer, New newer ∧ newer.supersedes job = true) ∨
          s'.Announced id job))
    (hcalls : ∀ call c, s'.calls.lookup call = some c → Call.Sound nodeOf s' c) :
    Sound nodeOf s' := by
  refine ⟨fun id job' hjob' hstatus hs => ?_, fun id job' hjob' hr => ?_, fun id job' hjob' => ?_,
    fun id job' b hjob' hb => ?_, hcalls⟩
  · rcases he.back id job' hjob' with ⟨job, hjob, rfl⟩ | hn
    · exact hresolved id job hjob hstatus ((he.superseded_iff hjob).1 hs)
    · rw [(he.fresh job' hn).2.1] at hstatus
      cases hstatus
  · rcases he.back id job' hjob' with ⟨job, hjob, rfl⟩ | hn
    · obtain ⟨hstatus, hwhy⟩ := hsuperseded id job hjob hr
      refine ⟨hstatus, hwhy.imp (he.superseded_iff hjob).2 ?_⟩
      rintro ⟨call, order, revision, marked, hcall, hmem, hs⟩
      refine ⟨call, order, revision, marked, hcall, hmem, ?_⟩
      rw [(he.same id job hjob).supersedes (.refl _), hs]
    · rw [(he.fresh job' hn).2.2] at hr
      cases hr
  · rcases he.back id job' hjob' with ⟨job, hjob, rfl⟩ | hn
    · rw [(he.same id job hjob).targetRevision, (he.same id job hjob).nodeId]
      exact Nat.le_trans (h.revisions id job hjob) (he.revisions _)
    · exact (hnew job' hn).1
  · rcases he.back id job' hjob' with ⟨job, hjob, rfl⟩ | hn
    · rw [(he.same id job hjob).bindingId] at hb
      rw [(he.same id job hjob).nodeId]
      exact h.bindings id job b hjob hb
    · exact (hnew job' hn).2 b hb

/-- What an enqueue knows stays true if the cancelled rows keep their marks. -/
theorem Call.Sound.evolves {c : Call} (hc : Call.Sound nodeOf s c) (he : Evolves s s' f New)
    (hkeep : ∀ order revision marked, c = .resolved order revision marked → ∀ id job,
      s.jobs.lookup id = some job → (f id job).status = .cancelled →
      (order.job "" revision).supersedes job = true → (f id job).resolved = true) :
    Call.Sound nodeOf s' c := by
  cases c with
  | allocated order revision => exact ⟨hc.1, Nat.le_trans hc.2 (he.revisions _)⟩
  | snapshot nodeId orders seen => exact hc
  | resolved order revision marked =>
    refine ⟨hc.1, Nat.le_trans hc.2.1 (he.revisions _), fun id job' hjob' hstatus hs => ?_⟩
    rcases he.back id job' hjob' with ⟨job, hjob, rfl⟩ | hn
    · rw [(he.same id job hjob).supersedes (.refl _)] at hs
      exact hkeep order revision marked rfl id job hjob hstatus hs
    · rw [(he.fresh job' hn).2.1] at hstatus
      cases hstatus

/-- No row is new. -/
theorem Evolves.ofMap (hjobs : ∀ id, s'.jobs.lookup id = (s.jobs.lookup id).map (f id))
    (hsame : ∀ id job, s.jobs.lookup id = some job → job.Same (f id job))
    (hrevisions : ∀ nodeId, s.revisions nodeId ≤ s'.revisions nodeId) :
    Evolves s s' f fun _ => False := by
  refine ⟨fun id job hjob => ?_, fun id job' hjob' => ?_, hsame, fun _ hn => hn.elim, hrevisions⟩
  · rw [hjobs, hjob]
    rfl
  · rw [hjobs] at hjob'
    obtain ⟨job, hjob, rfl⟩ := Option.map_eq_some_iff.1 hjob'
    exact .inl ⟨job, hjob, rfl⟩

/-- One row is new. -/
theorem Evolves.insert {new : Job} (hfresh : s.jobs.lookup id = none)
    (hjobs : s'.jobs = s.jobs.insert id new) (hstatus : new.status = .pending)
    (hresolved : new.resolved = false)
    (hrevisions : ∀ nodeId, s.revisions nodeId ≤ s'.revisions nodeId) :
    Evolves s s' (fun _ job => job) (· = new) := by
  have hlookup : ∀ k, s'.jobs.lookup k = if k = id then some new else s.jobs.lookup k := by
    intro k
    rw [hjobs]
    exact Table.lookup_insert_ite _ _ _ _
  refine ⟨fun k job hjob => ?_, fun k job' hjob' => ?_, fun _ job _ => .refl job, ?_, hrevisions⟩
  · have hne : k ≠ id := by
      rintro rfl
      rw [hfresh] at hjob
      cases hjob
    rw [hlookup, if_neg hne, hjob]
  · rw [hlookup] at hjob'
    split at hjob'
    · exact .inr (Option.some.inj hjob').symm
    · exact .inl ⟨job', hjob', rfl⟩
  · rintro job rfl
    exact ⟨⟨id, by rw [hlookup, if_pos rfl]⟩, hstatus, hresolved⟩

/-- Rows change in what the invariant does not read. -/
theorem Sound.touch (h : Sound nodeOf s) (he : Evolves s s' f fun _ => False)
    (hstatus : ∀ id job, s.jobs.lookup id = some job →
      ((f id job).status = .cancelled ↔ job.status = .cancelled))
    (hresolved : ∀ id job, s.jobs.lookup id = some job → (f id job).resolved = job.resolved)
    (hcalls : s'.calls = s.calls) : Sound nodeOf s' := by
  refine h.evolves he (fun _ hn => hn.elim) (fun id job hjob hs hwhy => ?_)
    (fun id job hjob hr => ?_) fun call c hc => ?_
  · rw [hresolved id job hjob]
    refine h.resolved id job hjob ((hstatus id job hjob).1 hs) (hwhy.resolve_right ?_)
    rintro ⟨_, hn, -⟩
    exact hn
  · rw [hresolved id job hjob] at hr
    obtain ⟨hs, hwhy⟩ := h.superseded id job hjob hr
    refine ⟨(hstatus id job hjob).2 hs, hwhy.imp .inl ?_⟩
    rintro ⟨call, order, revision, marked, hcall, hrest⟩
    exact ⟨call, order, revision, marked, hcalls ▸ hcall, hrest⟩
  · rw [hcalls] at hc
    refine (h.calls call c hc).evolves he ?_
    rintro order revision marked rfl id job hjob hs hsupersedes
    rw [hresolved id job hjob]
    exact (h.calls call _ hc).2.2 id job hjob ((hstatus id job hjob).1 hs) hsupersedes

/-- The calls change, and no enqueue that has marked a row is dropped. -/
theorem Sound.setCalls (h : Sound nodeOf s) {calls : Table Nat Call}
    (hcalls : ∀ call c, calls.lookup call = some c → Call.Sound nodeOf s c)
    (hkeep : ∀ call order revision marked,
      s.calls.lookup call = some (.resolved order revision marked) → marked ≠ [] →
      calls.lookup call = some (.resolved order revision marked)) :
    Sound nodeOf { s with calls } := by
  refine ⟨h.resolved, fun k job hjob hr => ?_, h.revisions, h.bindings, hcalls⟩
  obtain ⟨hstatus, hwhy⟩ := h.superseded k job hjob hr
  refine ⟨hstatus, hwhy.imp id ?_⟩
  rintro ⟨call, order, revision, marked, hcall, hmem, hs⟩
  have hne : marked ≠ [] := List.ne_nil_of_mem hmem
  exact ⟨call, order, revision, marked, hkeep call order revision marked hcall hne, hmem, hs⟩

/-- An enqueue starts. -/
theorem Sound.setCall (h : Sound nodeOf s) {call : Nat} {c : Call}
    (hnone : s.calls.lookup call = none) (hc : Call.Sound nodeOf s c) :
    Sound nodeOf (s.setCall call c) := by
  refine h.setCalls (fun k c' hk => ?_) fun k order revision marked hk _ => ?_
  · rw [Table.lookup_insert_ite] at hk
    split at hk
    · cases hk
      exact hc
    · exact h.calls k c' hk
  · rw [Table.lookup_insert_ite]
    split
    case isTrue heq =>
      rw [heq, hnone] at hk
      cases hk
    case isFalse => exact hk

/-- An enqueue ends that has marked nothing. -/
theorem Sound.endCall (h : Sound nodeOf s) {call : Nat}
    (hmarked : ∀ order revision marked,
      s.calls.lookup call = some (.resolved order revision marked) → marked = []) :
    Sound nodeOf (s.endCall call) := by
  refine h.setCalls (fun k c hk => ?_) fun k order revision marked hk hne => ?_
  · rw [Table.lookup_erase_ite] at hk
    split at hk
    · cases hk
    · exact h.calls k c hk
  · rw [Table.lookup_erase_ite]
    split
    case isTrue heq => exact absurd (hmarked order revision marked (heq ▸ hk)) hne
    case isFalse => exact hk

theorem bump_le (s : Store) (nodeId other : String) :
    s.revisions other ≤ (s.bump nodeId).revisions other := by
  simp only [bump, Function.update_apply]
  split
  case isTrue heq =>
    rw [heq]
    exact Nat.le_succ _
  case isFalse => exact Nat.le_refl _

theorem Sound.bump (h : Sound nodeOf s) (nodeId : String) : Sound nodeOf (s.bump nodeId) :=
  h.touch (f := fun _ job => job)
    (.ofMap (fun _ => Option.map_id'.symm) (fun _ job _ => .refl job) (bump_le s nodeId))
    (fun _ _ _ => Iff.rfl) (fun _ _ _ => rfl) rfl

end Store

end ChordV.Api.ExhaustedCommands
