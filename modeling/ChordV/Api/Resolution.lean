import ChordV.Api.Supersession

/-!
# Resolution of exhausted commands

Every step keeps the invariant of `ChordV.Api.Supersession`, unless an enqueue that does not hold
the lock of its node is disturbed.

* `Sound.enqueue` is an enqueue that sees all rows it covers, `Sound.resolve` and `Sound.create`
  are the two steps of one without a transaction, `Sound.register` is a registration,
  `Sound.commit` is a metering transaction and `Sound.cancel` is the sweep.
* Only a lock makes the two sides agree.  `resolution_order_free` is about the runs in which no
  enqueue without the lock is disturbed and no registration leaves an exhausted command behind, and
  `resolution_depends_on_order` is one in which a `connect` is.
-/

namespace ChordV.Api.ExhaustedCommands

open Lib Lib.Machine

namespace Store

variable {nodeOf : String → Option String} {s s' : Store} {id : String} {job : Job}

/-! ## Enqueues -/

theorem exhausted_iff : job.exhausted = true ↔ job.status = .cancelled ∧ job.resolved = false := by
  simp [Job.exhausted]

/-- An order covers jobs of its own node only. -/
theorem Sound.covers_node (h : Sound nodeOf s) {order : Order}
    (horder : order.belongs nodeOf = true) (hjob : s.jobs.lookup id = some job)
    (hcovers : order.covers job = true) : job.nodeId = order.nodeId := by
  unfold Order.covers at hcovers
  split at hcovers
  case h_1 b hb =>
    simp only [Bool.and_eq_true, decide_eq_true_eq] at hcovers
    have hbelongs : nodeOf b = some order.nodeId := by
      simpa [Order.belongs, hb] using horder
    exact Option.some.inj ((h.bindings id job b hjob hcovers.1).symm.trans hbelongs)
  case h_2 =>
    simp only [Bool.and_eq_true, decide_eq_true_eq] at hcovers
    exact hcovers.1.2

/-- For the jobs with a lower revision the two sides agree. -/
theorem Sound.covers_eq (h : Sound nodeOf s) {order : Order}
    (horder : order.belongs nodeOf = true) (hjob : s.jobs.lookup id = some job) {revision : Nat}
    (hlower : job.targetRevision < revision) (key : String) :
    order.covers job = (order.job key revision).supersedes job :=
  ExhaustedCommands.covers_eq horder (fun b hb => h.bindings id job b hjob hb) hlower

theorem lower_of_supersedes {newer : Job} (h : newer.supersedes job = true) :
    job.targetRevision < newer.targetRevision := by
  simp only [Job.supersedes, Bool.and_eq_true, decide_eq_true_eq] at h
  exact h.1.2

/-- What `resolveExhaustedCommands` makes of a row. -/
def mark (order : Order) (sees : String → Bool) (id : String) (job : Job) : Job :=
  if sees id && job.exhausted && order.covers job then { job with resolved := true } else job

theorem lookup_resolveExhaustedCommands (s : Store) (order : Order) (sees : String → Bool)
    (id : String) : (s.resolveExhaustedCommands order sees).jobs.lookup id =
      (s.jobs.lookup id).map (mark order sees id) :=
  Table.lookup_updateWhere s.jobs _ _ id

theorem mark_same (order : Order) (sees : String → Bool) (id : String) (job : Job) :
    job.Same (mark order sees id job) := by
  unfold mark
  split
  · exact ⟨rfl, rfl, rfl, rfl, rfl⟩
  · exact .refl job

@[simp] theorem mark_status (order : Order) (sees : String → Bool) (id : String) (job : Job) :
    (mark order sees id job).status = job.status := by
  unfold mark
  split
  · rfl
  · rfl

theorem mark_resolved (order : Order) (sees : String → Bool) (id : String) (job : Job) :
    (mark order sees id job).resolved = true ↔
      job.resolved = true ∨
        sees id = true ∧ job.status = .cancelled ∧ order.covers job = true := by
  unfold mark
  cases hr : job.resolved with
  | true => simp [Job.exhausted, hr]
  | false =>
    split
    case isTrue hguard =>
      simp only [Bool.and_eq_true, exhausted_iff] at hguard
      exact ⟨fun _ => .inr ⟨hguard.1.1, hguard.1.2.1, hguard.2⟩, fun _ => rfl⟩
    case isFalse hguard =>
      simp only [Bool.and_eq_true, exhausted_iff, hr] at hguard
      rw [hr]
      refine ⟨fun h => by (cases h), ?_⟩
      rintro (h | ⟨hsees, hstatus, hcovers⟩)
      · cases h
      · exact absurd ⟨⟨hsees, hstatus, trivial⟩, hcovers⟩ hguard

/-- A command is enqueued whose revision is above all cancelled commands of its node, and that
marks all it covers. -/
theorem Sound.enqueue (h : Sound nodeOf s) {order : Order} {sees : String → Bool}
    {key : String} {revision : Nat} (hfresh : s.jobs.lookup id = none)
    (horder : order.belongs nodeOf = true) (hrevision : revision ≤ s.revisions order.nodeId)
    (hlower : ∀ k job, s.jobs.lookup k = some job → job.status = .cancelled →
      job.nodeId = order.nodeId → job.targetRevision < revision)
    (hsees : ∀ k job, s.jobs.lookup k = some job → job.exhausted = true →
      order.covers job = true → sees k = true) :
    Sound nodeOf
      ((s.resolveExhaustedCommands order sees).insertJob id (order.job key revision)) := by
  have he : Evolves s ((s.resolveExhaustedCommands order sees).insertJob id
      (order.job key revision)) (mark order sees) (· = order.job key revision) := by
    have hjobs : ∀ k, ((s.resolveExhaustedCommands order sees).insertJob id
        (order.job key revision)).jobs.lookup k = if k = id then some (order.job key revision)
          else (s.jobs.lookup k).map (mark order sees k) := by
      intro k
      rw [← lookup_resolveExhaustedCommands]
      exact Table.lookup_insert_ite _ _ _ _
    refine ⟨fun k job hjob => ?_, fun k job' hjob' => ?_, fun k job _ => mark_same _ _ k job, ?_,
      fun _ => Nat.le_refl _⟩
    · have hne : k ≠ id := by
        rintro rfl
        rw [hfresh] at hjob
        cases hjob
      rw [hjobs, if_neg hne, hjob]
      rfl
    · rw [hjobs] at hjob'
      split at hjob'
      · exact .inr (Option.some.inj hjob').symm
      · obtain ⟨job, hjob, rfl⟩ := Option.map_eq_some_iff.1 hjob'
        exact .inl ⟨job, hjob, rfl⟩
    · rintro job rfl
      exact ⟨⟨id, by rw [hjobs, if_pos rfl]⟩, rfl, rfl⟩
  refine h.evolves he ?_ (fun k job hjob hs hwhy => ?_) (fun k job hjob hr => ?_)
    fun call c hc => ?_
  · rintro job rfl
    refine ⟨hrevision, fun b hb => ?_⟩
    change order.payload.binding = some b at hb
    change nodeOf b = some order.nodeId
    simpa [Order.belongs, hb] using horder
  · rw [mark_status] at hs
    rw [mark_resolved]
    rcases hwhy with hsuperseded | ⟨_, rfl, hsupersedes⟩
    · exact .inl (h.resolved k job hjob hs hsuperseded)
    · cases hr : job.resolved with
      | true => exact .inl rfl
      | false =>
        have hcovers : order.covers job = true := by
          rw [h.covers_eq horder hjob (lower_of_supersedes hsupersedes) key]
          exact hsupersedes
        exact .inr ⟨hsees k job hjob (exhausted_iff.2 ⟨hs, hr⟩) hcovers, hs, hcovers⟩
  · rw [mark_status]
    rcases (mark_resolved order sees k job).1 hr with hr | ⟨-, hs, hcovers⟩
    · obtain ⟨hs, hwhy⟩ := h.superseded k job hjob hr
      exact ⟨hs, hwhy.imp .inl fun hannounced => hannounced⟩
    · have hlow := hlower k job hjob hs (h.covers_node horder hjob hcovers)
      refine ⟨hs, .inl (.inr ⟨_, rfl, ?_⟩)⟩
      rw [← h.covers_eq horder hjob hlow key]
      exact hcovers
  · refine (h.calls call c hc).evolves he ?_
    rintro o r m rfl k job hjob hs hsupersedes
    rw [mark_status] at hs
    rw [mark_resolved]
    exact .inl ((h.calls call _ hc).2.2 k job hjob hs hsupersedes)

/-- One row changes in what the invariant does not read. -/
theorem Sound.modifyJob (h : Sound nodeOf s) (id : String) {g : Job → Job}
    (hsame : ∀ job : Job, job.Same (g job))
    (hstatus : ∀ job, (g job).status = .cancelled ↔ job.status = .cancelled)
    (hresolved : ∀ job, (g job).resolved = job.resolved) :
    Sound nodeOf { s with jobs := s.jobs.modify id g } := by
  refine h.touch (f := fun k job => if k = id then g job else job)
    (.ofMap (fun k => ?_) (fun k job _ => ?_) fun _ => Nat.le_refl _) (fun k job _ => ?_)
    (fun k job _ => ?_) rfl
  · show (s.jobs.modify id g).lookup k = _
    rw [Table.lookup_modify]
    split
    case isTrue heq => rw [heq]
    case isFalse => exact Option.map_id'.symm
  · show job.Same (if k = id then g job else job)
    split
    · exact hsame job
    · exact .refl job
  · show (if k = id then g job else job).status = .cancelled ↔ _
    split
    · exact hstatus job
    · exact Iff.rfl
  · show (if k = id then g job else job).resolved = _
    split
    · exact hresolved job
    · rfl

theorem Sound.releaseKey (h : Sound nodeOf s) (order : Order) (key : String) (chosen : Bool) :
    Sound nodeOf (s.releaseKey order key chosen) := by
  unfold Store.releaseKey
  split
  · split
    · refine h.modifyJob _ (fun job => ?_) (fun job => ?_) fun job => ?_
      · split
        · exact ⟨rfl, rfl, rfl, rfl, rfl⟩
        · exact .refl job
      · split
        · exact Iff.rfl
        · exact Iff.rfl
      · split
        · rfl
        · rfl
    · exact h
  · exact h

/-- The key of a row is all that changes. -/
theorem lookup_releaseKey {order : Order} {key : String} {chosen : Bool} {job' : Job}
    (h : (s.releaseKey order key chosen).jobs.lookup id = some job') :
    ∃ job, s.jobs.lookup id = some job ∧ job'.nodeId = job.nodeId ∧
      job'.targetRevision = job.targetRevision := by
  unfold Store.releaseKey at h
  split at h
  · split at h
    · change (s.jobs.modify _ _).lookup id = some job' at h
      rw [Table.lookup_modify] at h
      split at h
      case isTrue heq =>
        obtain ⟨job, hjob, rfl⟩ := Option.map_eq_some_iff.1 h
        refine ⟨job, heq ▸ hjob, ?_⟩
        split
        · exact ⟨rfl, rfl⟩
        · exact ⟨rfl, rfl⟩
      case isFalse => exact ⟨job', h, rfl, rfl⟩
    · exact ⟨job', h, rfl, rfl⟩
  · exact ⟨job', h, rfl, rfl⟩

@[simp] theorem revisions_releaseKey (s : Store) (order : Order) (key : String) (chosen : Bool) :
    (s.releaseKey order key chosen).revisions = s.revisions := by
  unfold Store.releaseKey
  split
  · split
    · rfl
    · rfl
  · rfl

/-- Under the lock of the node a command gets the highest revision and sees all rows. -/
theorem Sound.enqueueLocked (h : Sound nodeOf s) (h' : Sound nodeOf s') {order : Order}
    {key : String} (hrevisions : s'.revisions = (s.bump order.nodeId).revisions)
    (hjobs : ∀ k job', s'.jobs.lookup k = some job' → ∃ job, s.jobs.lookup k = some job ∧
      job'.nodeId = job.nodeId ∧ job'.targetRevision = job.targetRevision)
    (hfresh : s.jobs.lookup id = none) (horder : order.belongs nodeOf = true) :
    Sound nodeOf ((s'.resolveExhaustedCommands order fun _ => true).insertJob id
      (order.job key (s.revisions order.nodeId + 1))) := by
  have hfresh' : s'.jobs.lookup id = none := by
    cases hlookup : s'.jobs.lookup id with
    | none => rfl
    | some job' =>
      obtain ⟨job, hjob, -⟩ := hjobs id job' hlookup
      rw [hfresh] at hjob
      cases hjob
  refine h'.enqueue hfresh' horder ?_ (fun k job' hjob' _ hnode => ?_) fun _ _ _ _ _ => rfl
  · rw [hrevisions]
    simp [Store.bump]
  · obtain ⟨job, hjob, hn, hr⟩ := hjobs k job' hjob'
    have hle := h.revisions k job hjob
    rw [← hn, hnode, ← hr] at hle
    omega

theorem Sound.queueCommand (h : Sound nodeOf s) {order : Order} {key : String} {chosen : Bool}
    (hfresh : s.jobs.lookup id = none) :
    Sound nodeOf (s.queueCommand nodeOf id order key chosen) := by
  have hrelease := (h.bump order.nodeId).releaseKey order key chosen
  simp only [Store.queueCommand]
  split
  · exact hrelease
  · split
    case isTrue horder =>
      refine h.enqueueLocked hrelease (revisions_releaseKey _ _ _ _) (fun k job' hjob' => ?_) hfresh
        horder
      exact lookup_releaseKey (s := s.bump order.nodeId) hjob'
    case isFalse => exact h

theorem holder_eq_none {key : String} :
    s.holder key = none ↔ ∀ id job, s.jobs.lookup id = some job → job.dedupeKey ≠ key := by
  simp only [holder, Option.map_eq_none_iff, List.find?_eq_none, decide_eq_true_eq]
  constructor
  · exact fun h id job hjob => h (id, job) (Table.mem_pairs.2 hjob)
  · exact fun h p hp => h p.1 p.2 (Table.mem_pairs.1 hp)

theorem holder_resolveExhaustedCommands {order : Order} {sees : String → Bool} {key : String}
    (h : s.holder key = none) : (s.resolveExhaustedCommands order sees).holder key = none := by
  rw [holder_eq_none] at h ⊢
  intro id job' hjob'
  rw [lookup_resolveExhaustedCommands] at hjob'
  obtain ⟨job, hjob, rfl⟩ := Option.map_eq_some_iff.1 hjob'
  have hkey : (mark order sees id job).dedupeKey = job.dedupeKey := by
    unfold mark
    split
    · rfl
    · rfl
  rw [hkey]
  exact h id job hjob

theorem upsert_of_free {order : Order} {key : String} {revision : Nat}
    (h : s.holder key = none) :
    s.upsert id (order.job key revision) = s.insertJob id (order.job key revision) := by
  change s.holder (order.job key revision).dedupeKey = none at h
  rw [upsert, h]

theorem Sound.queueBinding (h : Sound nodeOf s) {order : Order}
    (hfresh : s.jobs.lookup id = none) (horder : order.belongs nodeOf = true)
    (hkey : s.holder (bindingKey order (s.revisions order.nodeId + 1)) = none) :
    Sound nodeOf (s.queueBinding id order) := by
  rw [Store.queueBinding,
    upsert_of_free (holder_resolveExhaustedCommands (s := s.bump order.nodeId) hkey)]
  exact h.enqueueLocked (h.bump order.nodeId) rfl (fun _ job hjob => ⟨job, hjob, rfl, rfl⟩) hfresh
    horder

/-! ## An enqueue without a transaction -/

/-- It marks the commands that it covers. -/
theorem Sound.resolve (h : Sound nodeOf s) {call : Nat} {order : Order} {revision : Nat}
    (hcall : s.calls.lookup call = some (.allocated order revision))
    (hlower : ∀ k job, s.jobs.lookup k = some job → job.exhausted = true →
      order.covers job = true → job.targetRevision < revision) :
    Sound nodeOf ((s.resolveExhaustedCommands order fun _ => true).setCall call
      (.resolved order revision (s.marks order))) := by
  obtain ⟨horder, hrevision⟩ := h.calls call _ hcall
  have he : Evolves s ((s.resolveExhaustedCommands order fun _ => true).setCall call
      (.resolved order revision (s.marks order))) (mark order fun _ => true) fun _ => False :=
    .ofMap (lookup_resolveExhaustedCommands s order _) (fun k job _ => mark_same _ _ k job)
      fun _ => Nat.le_refl _
  have hsame : ∀ k, k ≠ call →
      (s.calls.insert call (.resolved order revision (s.marks order))).lookup k =
        s.calls.lookup k := fun k hk => AList.lookup_insert_ne hk
  have hself : (s.calls.insert call (.resolved order revision (s.marks order))).lookup call =
      some (.resolved order revision (s.marks order)) := AList.lookup_insert _
  refine h.evolves he (fun _ hn => hn.elim) (fun k job hjob hs hwhy => ?_)
    (fun k job hjob hr => ?_) fun k c hc => ?_
  · rw [mark_status] at hs
    rw [mark_resolved]
    refine .inl (h.resolved k job hjob hs (hwhy.resolve_right ?_))
    rintro ⟨_, hn, -⟩
    exact hn
  · rw [mark_status]
    cases hold : job.resolved with
    | true =>
      obtain ⟨hs, hwhy⟩ := h.superseded k job hjob hold
      refine ⟨hs, hwhy.imp .inl ?_⟩
      rintro ⟨call', o, r, m, hcall', hrest⟩
      refine ⟨call', o, r, m, ?_, hrest⟩
      have hne : call' ≠ call := by
        rintro rfl
        rw [hcall] at hcall'
        cases hcall'
      exact (hsame call' hne).trans hcall'
    | false =>
      rcases (mark_resolved order (fun _ => true) k job).1 hr with hr | ⟨-, hs, hcovers⟩
      · rw [hold] at hr
        cases hr
      · have hexhausted : job.exhausted = true := exhausted_iff.2 ⟨hs, hold⟩
        refine ⟨hs, .inr ⟨call, order, revision, s.marks order, hself, ?_, ?_⟩⟩
        · refine List.mem_map.2 ⟨(k, job), List.mem_filter.2 ⟨Table.mem_pairs.2 hjob, ?_⟩, rfl⟩
          simp [hexhausted, hcovers]
        · rw [← h.covers_eq horder hjob (hlower k job hjob hexhausted hcovers) ""]
          exact hcovers
  · by_cases hk : k = call
    · subst hk
      change (s.calls.insert k _).lookup k = some c at hc
      rw [hself] at hc
      cases hc
      refine ⟨horder, hrevision, fun id job' hjob' hs hsupersedes => ?_⟩
      obtain ⟨job, hjob, rfl⟩ | hn := he.back id job' hjob'
      · rw [mark_status] at hs
        rw [(mark_same order _ id job).supersedes (.refl _)] at hsupersedes
        rw [mark_resolved]
        refine .inr ⟨rfl, hs, ?_⟩
        rw [h.covers_eq horder hjob (lower_of_supersedes hsupersedes) ""]
        exact hsupersedes
      · exact hn.elim
    · have hc' : s.calls.lookup k = some c := (hsame k hk).symm.trans hc
      refine (h.calls k c hc').evolves he ?_
      rintro o r m rfl id job hjob hs hsupersedes
      rw [mark_status] at hs
      rw [mark_resolved]
      exact .inl ((h.calls k _ hc').2.2 id job hjob hs hsupersedes)

/-- It inserts its row. -/
theorem Sound.create (h : Sound nodeOf s) {call : Nat} {order : Order} {revision : Nat}
    {marked : List String} {key : String}
    (hcall : s.calls.lookup call = some (.resolved order revision marked))
    (hfresh : s.jobs.lookup id = none) :
    Sound nodeOf ((s.insertJob id (order.job key revision)).endCall call) := by
  obtain ⟨horder, hrevision, hknown⟩ := h.calls call _ hcall
  have hcalls : ∀ k, ((s.insertJob id (order.job key revision)).endCall call).calls.lookup k =
      if k = call then none else s.calls.lookup k := fun k => Table.lookup_erase_ite _ _ _
  have he : Evolves s ((s.insertJob id (order.job key revision)).endCall call)
      (fun _ job => job) (· = order.job key revision) :=
    .insert hfresh rfl rfl rfl fun _ => Nat.le_refl _
  refine h.evolves he ?_ (fun k job hjob hs hwhy => ?_) (fun k job hjob hr => ?_) fun k c hc => ?_
  · rintro job rfl
    refine ⟨hrevision, fun b hb => ?_⟩
    change order.payload.binding = some b at hb
    change nodeOf b = some order.nodeId
    simpa [Order.belongs, hb] using horder
  · rcases hwhy with hsuperseded | ⟨_, rfl, hsupersedes⟩
    · exact h.resolved k job hjob hs hsuperseded
    · exact hknown k job hjob hs hsupersedes
  · obtain ⟨hs, hwhy⟩ := h.superseded k job hjob hr
    refine ⟨hs, ?_⟩
    rcases hwhy with hsuperseded | ⟨call', o, r, m, hcall', hmem, hsupersedes⟩
    · exact .inl (.inl hsuperseded)
    · by_cases hsame : call' = call
      · rw [hsame, hcall] at hcall'
        cases hcall'
        exact .inl (.inr ⟨_, rfl, hsupersedes⟩)
      · exact .inr ⟨call', o, r, m, by rw [hcalls, if_neg hsame, hcall'], hmem, hsupersedes⟩
  · rw [hcalls] at hc
    split at hc
    · cases hc
    · refine (h.calls k c hc).evolves he ?_
      rintro o r m rfl k' job hjob hs hsupersedes
      exact (h.calls k _ hc).2.2 k' job hjob hs hsupersedes

/-! ## A registration -/

/-- A registration resolves nothing, which is right if there is nothing to resolve. -/
theorem Sound.register (h : Sound nodeOf s) {nodeId : String} (hfresh : s.jobs.lookup id = none)
    (hnone : (s.holder (onboardingKey nodeId)).isNone = true →
      ∀ k job, s.jobs.lookup k = some job → job.exhausted = true →
        (onboarding nodeId).covers job = false) :
    Sound nodeOf (s.register id nodeId) := by
  unfold Store.register
  split
  · exact h
  case isFalse hkey =>
    have huncovered := hnone (by simpa using hkey)
    have hbelongs : (onboarding nodeId).belongs nodeOf = true := rfl
    have he : Evolves s ((s.bump nodeId).insertJob id
        ((onboarding nodeId).job (onboardingKey nodeId) (s.revisions nodeId + 1)))
        (fun _ job => job)
        (· = (onboarding nodeId).job (onboardingKey nodeId) (s.revisions nodeId + 1)) :=
      .insert hfresh rfl rfl rfl (bump_le s nodeId)
    refine h.evolves he ?_ (fun k job hjob hs hwhy => ?_) (fun k job hjob hr => ?_)
      fun k c hc => (h.calls k c hc).evolves he ?_
    · rintro job rfl
      refine ⟨?_, fun b hb => by (cases hb)⟩
      change s.revisions nodeId + 1 ≤ (s.bump nodeId).revisions nodeId
      simp [Store.bump]
    · rcases hwhy with hsuperseded | ⟨_, rfl, hsupersedes⟩
      · exact h.resolved k job hjob hs hsuperseded
      · cases hr : job.resolved with
        | true => rfl
        | false =>
          have hnot := huncovered k job hjob (exhausted_iff.2 ⟨hs, hr⟩)
          rw [h.covers_eq hbelongs hjob (lower_of_supersedes hsupersedes)
            (onboardingKey nodeId)] at hnot
          exact absurd hsupersedes (Bool.eq_false_iff.1 hnot)
    · obtain ⟨hs, hwhy⟩ := h.superseded k job hjob hr
      exact ⟨hs, hwhy.imp .inl fun hannounced => hannounced⟩
    · rintro o r m rfl k' job hjob hs hsupersedes
      exact (h.calls k _ hc).2.2 k' job hjob hs hsupersedes

/-! ## A metering transaction -/

/-- What holds between two commands of the transaction: the revision is above all cancelled
commands of the node, and the snapshot has all exhausted commands that an order covers. -/
structure Metered (nodeOf : String → Option String) (calls : Table Nat Call) (nodeId : String)
    (revision : Nat) (orders : List (String × Order)) (seen : List String) (s : Store) : Prop where
  sound : Sound nodeOf s
  sameCalls : s.calls = calls
  allocated : revision ≤ s.revisions nodeId
  lower : ∀ k job, s.jobs.lookup k = some job → job.status = .cancelled → job.nodeId = nodeId →
    job.targetRevision < revision
  inSnapshot : ∀ k job, s.jobs.lookup k = some job → job.exhausted = true →
    ∀ o ∈ orders, o.2.covers job = true → seen.contains k = true

theorem covers_mark (order o : Order) (sees : String → Bool) (id : String) (job : Job) :
    order.covers (mark o sees id job) = order.covers job := by
  have hsame := mark_same o sees id job
  simp only [Order.covers, hsame.bindingId, hsame.commandType, hsame.nodeId]

theorem exhausted_of_mark {order : Order} {sees : String → Bool}
    (h : (mark order sees id job).exhausted = true) : job.exhausted = true := by
  unfold mark at h
  split at h
  · cases (exhausted_iff.1 h).2
  · exact h

theorem Metered.autoDisable {calls : Table Nat Call} {nodeId : String} {revision : Nat}
    {orders : List (String × Order)} {seen : List String}
    (h : Metered nodeOf calls nodeId revision orders seen s) {p : String × Order} (hp : p ∈ orders)
    (hnode : p.2.nodeId = nodeId) (horder : p.2.belongs nodeOf = true) :
    Metered nodeOf calls nodeId revision orders seen (Store.autoDisable revision seen s p) := by
  simp only [Store.autoDisable]
  split
  · exact h
  case isFalse hguard =>
    simp only [Bool.or_eq_true, not_or, Bool.not_eq_true, Option.isSome_eq_false_iff,
      Option.isNone_iff_eq_none] at hguard
    have hcases : ∀ k job',
        ((s.resolveExhaustedCommands p.2 fun id => seen.contains id).insertJob p.1
          (p.2.job (autoDisableKey p.2 revision) revision)).jobs.lookup k = some job' →
        job'.status = .pending ∨ ∃ job, s.jobs.lookup k = some job ∧
          job' = mark p.2 (fun id => seen.contains id) k job := by
      intro k job' hjob'
      change ((s.resolveExhaustedCommands p.2 _).jobs.insert p.1 _).lookup k = some job' at hjob'
      rw [Table.lookup_insert_ite] at hjob'
      split at hjob'
      · cases hjob'
        exact .inl rfl
      · rw [lookup_resolveExhaustedCommands] at hjob'
        obtain ⟨job, hjob, rfl⟩ := Option.map_eq_some_iff.1 hjob'
        exact .inr ⟨job, hjob, rfl⟩
    refine ⟨?_, h.sameCalls, h.allocated, fun k job' hjob' hs hn => ?_,
      fun k job' hjob' hx o ho hc => ?_⟩
    · refine h.sound.enqueue hguard.2 horder ?_ (fun k job hjob hs hn => ?_)
        fun k job hjob hx hc => h.inSnapshot k job hjob hx p hp hc
      · rw [hnode]
        exact h.allocated
      · exact h.lower k job hjob hs (hn.trans hnode)
    · rcases hcases k job' hjob' with hpending | ⟨job, hjob, rfl⟩
      · rw [hs] at hpending
        cases hpending
      · rw [(mark_same _ _ k job).targetRevision]
        rw [(mark_same _ _ k job).nodeId] at hn
        rw [mark_status] at hs
        exact h.lower k job hjob hs hn
    · rcases hcases k job' hjob' with hpending | ⟨job, hjob, rfl⟩
      · rw [(exhausted_iff.1 hx).1] at hpending
        cases hpending
      · rw [covers_mark] at hc
        exact h.inSnapshot k job hjob (exhausted_of_mark hx) o ho hc

theorem Metered.foldl {calls : Table Nat Call} {nodeId : String} {revision : Nat}
    {orders : List (String × Order)} {seen : List String}
    (horders : ∀ o ∈ orders, o.2.nodeId = nodeId ∧ o.2.belongs nodeOf = true) :
    ∀ (rest : List (String × Order)) {s : Store}, rest ⊆ orders →
      Metered nodeOf calls nodeId revision orders seen s →
      Metered nodeOf calls nodeId revision orders seen
        (rest.foldl (Store.autoDisable revision seen) s)
  | [], _, _, h => h
  | p :: rest, s, hsub, h => by
    have hp : p ∈ orders := hsub List.mem_cons_self
    obtain ⟨hnode, horder⟩ := horders p hp
    exact Metered.foldl horders rest (fun x hx => hsub (List.mem_cons_of_mem _ hx))
      (h.autoDisable hp hnode horder)

theorem Sound.commit (h : Sound nodeOf s) {call : Nat} {nodeId : String}
    {orders : List (String × Order)} {seen : List String}
    (hcall : s.calls.lookup call = some (.snapshot nodeId orders seen))
    (hseen : ∀ k job, s.jobs.lookup k = some job → job.exhausted = true →
      ∀ o ∈ orders, o.2.covers job = true → seen.contains k = true) :
    Sound nodeOf ((orders.foldl (Store.autoDisable (s.revisions nodeId + 1) seen)
      (s.bump nodeId)).endCall call) := by
  have hstart : Metered nodeOf s.calls nodeId (s.revisions nodeId + 1) orders seen
      (s.bump nodeId) := by
    refine ⟨h.bump nodeId, rfl, ?_, fun k job hjob _ hn => ?_, hseen⟩
    · simp [Store.bump]
    · have hle := h.revisions k job hjob
      rw [hn] at hle
      omega
  have hend := Metered.foldl (h.calls call _ hcall) orders (List.Subset.refl _) hstart
  refine hend.sound.endCall fun order revision marked hother => ?_
  rw [hend.sameCalls, hcall] at hother
  cases hother

/-! ## The sweep -/

theorem superseded_iff : s.Superseded job ↔
    (s.jobs.pairs.any fun p => job.replacedBy p.2) = true := by
  rw [List.any_eq_true]
  constructor
  · rintro ⟨k, newer, hnewer, hs⟩
    exact ⟨(k, newer), Table.mem_pairs.2 hnewer, by rw [replacedBy_eq]; exact hs⟩
  · rintro ⟨⟨k, newer⟩, hmem, hs⟩
    rw [replacedBy_eq] at hs
    exact ⟨k, newer, Table.mem_pairs.1 hmem, hs⟩

theorem Sound.cancel (h : Sound nodeOf s) (hjob : s.jobs.lookup id = some job)
    (houtstanding : job.status ≠ .cancelled)
    (hcalls : ¬ s.Superseded job → ∀ call order revision marked,
      s.calls.lookup call = some (.resolved order revision marked) →
      (order.job "" revision).supersedes job = false) :
    Sound nodeOf (s.cancel id job) := by
  have hunmarked : job.resolved = false := by
    cases hr : job.resolved with
    | false => rfl
    | true => exact absurd (h.superseded id job hjob hr).1 houtstanding
  let row : Job := { job with
    status := .cancelled
    resolved := job.resolved || s.jobs.pairs.any fun p => job.replacedBy p.2
    dedupeKey :=
      if job.commandType = .ensureInbound then job.dedupeKey ++ ":cancelled:" ++ id
      else job.dedupeKey }
  have hrow : row.resolved = true ↔ s.Superseded job := by
    simp only [row, hunmarked, Bool.false_or]
    exact superseded_iff.symm
  have he : Evolves s (s.cancel id job) (fun k j => if k = id then row else j) fun _ => False := by
    refine .ofMap (fun k => ?_) (fun k j hj => ?_) fun _ => Nat.le_refl _
    · change (s.jobs.insert id row).lookup k = _
      rw [Table.lookup_insert_ite]
      split
      case isTrue heq => rw [heq, hjob]; rfl
      case isFalse => exact Option.map_id'.symm
    · show j.Same (if k = id then row else j)
      split
      case isTrue heq =>
        rw [heq, hjob] at hj
        cases hj
        exact ⟨rfl, rfl, rfl, rfl, rfl⟩
      case isFalse => exact .refl j
  refine h.evolves he (fun _ hn => hn.elim) (fun k j hj hs hwhy => ?_) (fun k j hj hr => ?_)
    fun call c hc => ?_
  · have hsuperseded : s.Superseded j := by
      refine hwhy.resolve_right ?_
      rintro ⟨_, hn, -⟩
      exact hn
    show (if k = id then row else j).resolved = true
    split
    case isTrue heq =>
      rw [heq, hjob] at hj
      cases hj
      exact hrow.2 hsuperseded
    case isFalse hne =>
      change (if k = id then row else j).status = .cancelled at hs
      rw [if_neg hne] at hs
      exact h.resolved k j hj hs hsuperseded
  · change (if k = id then row else j).resolved = true at hr
    show (if k = id then row else j).status = .cancelled ∧ _
    split at hr
    case isTrue heq =>
      rw [if_pos heq]
      rw [heq, hjob] at hj
      cases hj
      exact ⟨rfl, .inl (.inl (hrow.1 hr))⟩
    case isFalse hne =>
      rw [if_neg hne]
      obtain ⟨hs, hwhy⟩ := h.superseded k j hj hr
      exact ⟨hs, hwhy.imp .inl fun hannounced => hannounced⟩
  · refine (h.calls call c hc).evolves he ?_
    rintro order revision marked rfl k j hj hs hsupersedes
    show (if k = id then row else j).resolved = true
    split
    case isTrue heq =>
      rw [heq, hjob] at hj
      cases hj
      refine hrow.2 (Classical.byContradiction fun hnot => ?_)
      rw [hcalls hnot call order revision marked hc] at hsupersedes
      cases hsupersedes
    case isFalse hne =>
      change (if k = id then row else j).status = .cancelled at hs
      rw [if_neg hne] at hs
      exact (h.calls call _ hc).2.2 k j hj hs hsupersedes

/-! ## One step -/

theorem not_cancelled (h : job.outstanding = true) : job.status ≠ .cancelled := by
  intro hs
  simp [Job.outstanding, hs] at h

theorem Sound.advance (h : Sound nodeOf s) {call : Nat} {c : Call}
    (hcall : s.calls.lookup call = some c) (hmeets : s.disturbed (.advance call id) = false) :
    Sound nodeOf (s.advance call id c) := by
  simp only [disturbed, hcall] at hmeets
  cases c with
  | allocated order revision =>
    refine h.resolve hcall fun k job hjob hx hc => ?_
    have hnot := List.any_eq_false.1 hmeets (k, job) (Table.mem_pairs.2 hjob)
    simpa [hx, hc] using hnot
  | resolved order revision marked =>
    simp only [Store.advance]
    split
    case isTrue hfresh =>
      have hkey : s.holder (bindingKey order revision) = none := by simpa using hmeets
      rw [upsert_of_free hkey]
      exact h.create hcall (Option.isNone_iff_eq_none.1 hfresh)
    case isFalse => exact h
  | snapshot nodeId orders seen =>
    refine h.commit hcall fun k job hjob hx o ho hc => ?_
    have hnot := List.any_eq_false.1 hmeets (k, job) (Table.mem_pairs.2 hjob)
    have hany : (orders.any fun o => o.2.covers job) = true := List.any_eq_true.2 ⟨o, ho, hc⟩
    simpa [hx, hany] using hnot

theorem Sound.step (h : Sound nodeOf s) (e : Event) (hmeets : s.disturbed e = false) :
    Sound nodeOf (step nodeOf s e) := by
  cases e with
  | queueCommand id order key chosen =>
    simp only [ExhaustedCommands.step]
    split
    case isTrue hfresh => exact h.queueCommand (Option.isNone_iff_eq_none.1 hfresh)
    case isFalse => exact h
  | queueBinding id order =>
    simp only [ExhaustedCommands.step]
    split
    case isTrue hguard =>
      simp only [Bool.and_eq_true, Option.isNone_iff_eq_none] at hguard
      exact h.queueBinding hguard.1.1 hguard.2 (by simpa [disturbed] using hmeets)
    case isFalse => exact h
  | connect call order =>
    simp only [ExhaustedCommands.step]
    split
    case isTrue hguard =>
      simp only [Bool.and_eq_true, Option.isNone_iff_eq_none] at hguard
      refine (h.bump order.nodeId).setCall hguard.1.1 ⟨hguard.2, ?_⟩
      simp [Store.bump]
    case isFalse => exact h
  | meter call nodeId orders =>
    simp only [ExhaustedCommands.step]
    split
    case isTrue hguard =>
      simp only [Bool.and_eq_true, Option.isNone_iff_eq_none, List.all_eq_true,
        decide_eq_true_eq] at hguard
      exact h.setCall hguard.1 fun o ho => ⟨(hguard.2 o ho).1.1, (hguard.2 o ho).2⟩
    case isFalse => exact h
  | advance call id =>
    simp only [ExhaustedCommands.step]
    split
    case h_1 c hc => exact h.advance hc hmeets
    case h_2 => exact h
  | abort call =>
    refine h.endCall fun order revision marked hcall => ?_
    simpa [disturbed, hcall] using hmeets
  | register id nodeId =>
    simp only [ExhaustedCommands.step]
    split
    case isTrue hfresh =>
      refine h.register (Option.isNone_iff_eq_none.1 hfresh) fun hkey k job hjob hx => ?_
      simp only [disturbed, hkey, Bool.true_and] at hmeets
      have hnot := List.any_eq_false.1 hmeets (k, job) (Table.mem_pairs.2 hjob)
      simpa [hx] using hnot
    case isFalse => exact h
  | attempt id =>
    refine h.modifyJob id (fun job => ?_) (fun job => ?_) fun job => ?_
    · split
      · exact ⟨rfl, rfl, rfl, rfl, rfl⟩
      · exact .refl job
    · split
      case isTrue hguard =>
        simp only [Bool.and_eq_true] at hguard
        have hne := not_cancelled hguard.1
        exact ⟨fun hs => by (cases hs), fun hs => absurd hs hne⟩
      case isFalse => exact Iff.rfl
    · split
      · rfl
      · rfl
  | report id completed =>
    refine h.modifyJob id (fun job => ?_) (fun job => ?_) fun job => ?_
    · split
      · exact ⟨rfl, rfl, rfl, rfl, rfl⟩
      · exact .refl job
    · split
      case isTrue hguard =>
        have hne := not_cancelled hguard
        refine ⟨fun hs => ?_, fun hs => absurd hs hne⟩
        cases completed
        · cases hs
        · cases hs
      case isFalse => exact Iff.rfl
    · split
      · rfl
      · rfl
  | cancel id =>
    simp only [ExhaustedCommands.step]
    split
    case h_1 job hjob =>
      split
      case isTrue hguard =>
        simp only [Bool.and_eq_true] at hguard
        refine h.cancel hjob (not_cancelled hguard.1) ?_
        intro hnot call order revision marked hcall
        simp only [disturbed, hjob] at hmeets
        rw [superseded_iff, Bool.not_eq_true] at hnot
        rw [hnot, Bool.not_false, Bool.true_and] at hmeets
        have hcalls := List.any_eq_false.1 hmeets _ (Table.mem_pairs.2 hcall)
        exact Bool.eq_false_iff.2 hcalls
      case isFalse => exact h
    case h_2 => exact h

end Store

/-! ## Runs -/

/-- What is left of a job without its mark, its key and its attempts. -/
def Job.unmarked (job : Job) : Job :=
  { job with dedupeKey := "", attempts := 0, resolved := false }

/-- The two tables have the same jobs up to marks, keys and attempts. -/
def Store.SameJobs (s s' : Store) : Prop :=
  ∀ id, (s.jobs.lookup id).map Job.unmarked = (s'.jobs.lookup id).map Job.unmarked

/-- The two tables have the same marks on exhausted jobs. -/
def Store.SameMarks (s s' : Store) : Prop :=
  ∀ id job job', s.jobs.lookup id = some job → s'.jobs.lookup id = some job' →
    job.status = .cancelled → job'.resolved = job.resolved

theorem Job.same_of_unmarked {job job' : Job} (h : job.unmarked = job'.unmarked) :
    job.Same job' ∧ job'.status = job.status := by
  simp only [Job.unmarked, Job.mk.injEq] at h
  obtain ⟨-, hnode, htype, hrevision, hpayload, hbinding, hstatus, -⟩ := h
  exact ⟨⟨hnode.symm, htype.symm, hrevision.symm, hpayload.symm, hbinding.symm⟩, hstatus.symm⟩

theorem Store.SameJobs.symm {s s' : Store} (h : s.SameJobs s') : s'.SameJobs s :=
  fun id => (h id).symm

theorem Store.SameJobs.superseded {s s' : Store} (h : s.SameJobs s') {job job' : Job}
    (hjob : job.Same job') (hs : s.Superseded job) : s'.Superseded job' := by
  obtain ⟨k, newer, hnewer, hsupersedes⟩ := hs
  have hk := h k
  rw [hnewer] at hk
  obtain ⟨newer', hnewer', heq⟩ := Option.map_eq_some_iff.1 hk.symm
  refine ⟨k, newer', hnewer', ?_⟩
  rw [hjob.supersedes (Job.same_of_unmarked heq.symm).1]
  exact hsupersedes

/-- If every exhausted job is marked if and only if it is superseded then the marks follow from
the jobs. -/
theorem Store.SameJobs.sameMarks {s s' : Store} (h : s.SameJobs s') (hs : s.Marked)
    (hs' : s'.Marked) : s.SameMarks s' := by
  intro id job job' hjob hjob' hstatus
  have heq : job.unmarked = job'.unmarked := by
    have hid := h id
    rw [hjob, hjob'] at hid
    exact Option.some.inj hid
  have heq' := heq.symm
  obtain ⟨hsame, hstatus'⟩ := Job.same_of_unmarked heq
  have hiff : job'.resolved = true ↔ job.resolved = true := by
    rw [hs id job hjob hstatus, hs' id job' hjob' (hstatus'.trans hstatus)]
    exact ⟨h.symm.superseded (Job.same_of_unmarked heq').1, h.superseded hsame⟩
  exact Bool.eq_iff_iff.2 hiff

/-- In a run in which no enqueue without the lock of its node is disturbed and no registration
leaves an exhausted job behind, an exhausted job ends as resolved if and only if a newer job
supersedes it.  Two such runs that end with the same jobs
end with the same marks, whatever came first. -/
theorem resolution_order_free (nodeOf : String → Option String) (events : List Event)
    (h : Meets (step nodeOf) (fun s e => s.disturbed e = false) {} events)
    (hquiet : (run (step nodeOf) {} events).Quiet) :
    (run (step nodeOf) {} events).Marked ∧
    ∀ events', Meets (step nodeOf) (fun s e => s.disturbed e = false) {} events' →
      (run (step nodeOf) {} events').Quiet →
      (run (step nodeOf) {} events).SameJobs (run (step nodeOf) {} events') →
      (run (step nodeOf) {} events).SameMarks (run (step nodeOf) {} events') := by
  have hmarked : ∀ events, Meets (step nodeOf) (fun s e => s.disturbed e = false) {} events →
      (run (step nodeOf) {} events).Quiet → (run (step nodeOf) {} events).Marked :=
    fun events hmeets hend =>
      (run_keeps_of_meets (fun _ e hs he => hs.step e he) Store.Sound.empty hmeets).marked hend
  refine ⟨hmarked events h hquiet, fun events' h' hquiet' hsame => ?_⟩
  exact hsame.sameMarks (hmarked events h hquiet) (hmarked events' h' hquiet')

/-- `ENSURE_USER` for a binding of a node. -/
def ensureUser : Order :=
  { nodeId := "n", commandType := .ensureUser, payload := { bindingId := some "b" } }

/-- A command is enqueued and uses up its attempts. -/
def usedUp : List Event := .queueBinding "j" ensureUser :: List.replicate 8 (.attempt "j")

/-- It is cancelled and then replaced. -/
def cancelFirst : List Event := usedUp ++ [.cancel "j", .queueBinding "k" ensureUser]

/-- It is replaced and then cancelled. -/
def enqueueFirst : List Event := usedUp ++ [.queueBinding "k" ensureUser, .cancel "j"]

theorem sameJobs_cancelFirst :
    (run (step fun _ => some "n") {} cancelFirst).SameJobs
      (run (step fun _ => some "n") {} enqueueFirst) := by
  have hkeys : ∀ events, (run (step fun _ => some "n") {} events).jobs.keys ⊆ ["j", "k"] →
      ∀ id, id ≠ "j" → id ≠ "k" →
        (run (step fun _ => some "n") {} events).jobs.lookup id = none := by
    intro events hsub id hj hk
    refine AList.lookup_eq_none.2 fun hmem => ?_
    have hid := hsub (AList.mem_keys.1 hmem)
    simp [hj, hk] at hid
  intro id
  by_cases hj : id = "j"
  · subst hj
    decide +kernel
  · by_cases hk : id = "k"
    · subst hk
      decide +kernel
    · rw [hkeys cancelFirst (by decide +kernel) id hj hk,
        hkeys enqueueFirst (by decide +kernel) id hj hk]

theorem quiet_of_keys {s : Store} (h : s.calls.keys = []) : s.Quiet := by
  intro call
  refine AList.lookup_eq_none.2 fun hmem => ?_
  have hkeys := AList.mem_keys.1 hmem
  rw [h] at hkeys
  cases hkeys

theorem resolution_order_free_replaced :
    (run (step fun _ => some "n") {} cancelFirst).Marked ∧
    (run (step fun _ => some "n") {} cancelFirst).SameMarks
      (run (step fun _ => some "n") {} enqueueFirst) := by
  have h := resolution_order_free (fun _ => some "n") cancelFirst (by decide +kernel)
    (quiet_of_keys (by decide +kernel))
  exact ⟨h.1, h.2 enqueueFirst (by decide +kernel) (quiet_of_keys (by decide +kernel))
    sameJobs_cancelFirst⟩

/-- A `connect` has looked for exhausted commands when the sweep cancels one, and inserts its own
command afterwards. -/
def sweptBetween : List Event :=
  usedUp ++ [.connect 0 ensureUser, .advance 0 "k", .cancel "j", .advance 0 "k"]

theorem resolution_depends_on_order :
    ¬ ∀ (nodeOf : String → Option String) (events : List Event),
      (run (step nodeOf) {} events).Quiet →
      (run (step nodeOf) {} events).Marked ∧
      ∀ events', (run (step nodeOf) {} events').Quiet →
        (run (step nodeOf) {} events).SameJobs (run (step nodeOf) {} events') →
        (run (step nodeOf) {} events).SameMarks (run (step nodeOf) {} events') := by
  intro h
  have hmarked := (h (fun _ => some "n") sweptBetween (quiet_of_keys (by decide +kernel))).1
  have hj : (run (step fun _ => some "n") {} sweptBetween).jobs.lookup "j" =
      some { ensureUser.job (bindingKey ensureUser 1) 1 with
        status := .cancelled, attempts := 8 } := by
    decide +kernel
  have hk : (run (step fun _ => some "n") {} sweptBetween).jobs.lookup "k" =
      some (ensureUser.job (bindingKey ensureUser 2) 2) := by decide +kernel
  cases (hmarked "j" _ hj rfl).2 ⟨"k", _, hk, by decide +kernel⟩

end ChordV.Api.ExhaustedCommands
