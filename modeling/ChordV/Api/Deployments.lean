import ChordV.Api.Inbounds

/-!
# The last deployment wins

What holds of the `ENSURE_INBOUND` jobs of a node in every run.

* `Desk.Sound` is the invariant.  Every job has a configuration revision of its own, a key
  that is not released belongs to a request that is still open, and the node shows the
  report of the newest completed job.
* `Desk.Sound.create` and `Desk.Sound.rewrite` are the two ways in which the table of jobs
  changes.  Every step is one of them, and `run_sound` carries the invariant through a run.
* `last_request_wins` is the result, and `reordered_names_are_collapsed` shows why it speaks
  of payloads up to the order of their server names.
-/

namespace ChordV.Api.Inbounds

open Lib Fallible

variable {specHash : InboundSpec → String} {isPublic : String → Bool}

/-! ## Payloads with one identity -/

/-- Payloads with the same identity order the same deployment. -/
theorem InboundSpec.sameDeployment_of_identity {a b : InboundSpec} (h : a.identity = b.identity) :
    a.SameDeployment b := by
  cases a with
  | deploy a =>
    cases b with
    | deploy b =>
      simp only [identity, InboundSpec.deploy.injEq, NormalizedInboundSpec.mk.injEq] at h
      obtain ⟨htag, hport, hdest, hnames, hflow, hfingerprint, hspider, hrotate⟩ := h
      refine ⟨?_, ?_⟩
      · have hsorted := List.perm_insertionSort (· ≤ ·) a.serverNames
        rw [hnames] at hsorted
        exact hsorted.symm.trans (List.perm_insertionSort _ _)
      · rw [← htag, ← hport, ← hdest, ← hflow, ← hfingerprint, ← hspider, ← hrotate]
    | validatePanel b => cases h
  | validatePanel a =>
    cases b with
    | deploy b => cases h
    | validatePanel b =>
      cases h
      exact rfl

/-! ## The holder of a key -/

namespace Desk

variable {d d' : Desk}

theorem holder_eq_some {key : DedupeKey} {id : Nat} {job : InboundJob}
    (h : d.holder key = some (id, job)) : d.jobs.lookup id = some job ∧ job.dedupeKey = key :=
  ⟨Table.mem_pairs.1 (List.mem_of_find?_eq_some h), by simpa using List.find?_some h⟩

theorem holder_eq_none {key : DedupeKey} (h : d.holder key = none) {id : Nat} {job : InboundJob}
    (hjob : d.jobs.lookup id = some job) : job.dedupeKey ≠ key := by
  intro hkey
  have hno := List.find?_eq_none.1 h (id, job) (Table.mem_pairs.2 hjob)
  exact hno (decide_eq_true hkey)

/-! ## The invariant -/

/-- The invariant of the deployments of a node.  `Asked` holds of the payloads that were
requested, and `before` are the parameters of the node before its first deployment. -/
structure Sound (specHash : InboundSpec → String) (isPublic : String → Bool)
    (Asked : InboundSpec → Prop) (before : InboundReportFields) (d : Desk) : Prop where
  id_lt : ∀ {i a}, d.jobs.lookup i = some a → i < d.nextId
  revision_pos : ∀ {i a}, d.jobs.lookup i = some a → 0 < a.targetRevision
  revision_le : ∀ {i a}, d.jobs.lookup i = some a → a.targetRevision ≤ d.node.agentConfigRevision
  revision_inj : ∀ {i j a b}, d.jobs.lookup i = some a → d.jobs.lookup j = some b →
    a.targetRevision = b.targetRevision → i = j
  key_inj : ∀ {i j a b}, d.jobs.lookup i = some a → d.jobs.lookup j = some b →
    a.dedupeKey = b.dedupeKey → i = j
  /-- A released key holds the id of its own job. -/
  released_own : ∀ {i a key how j}, d.jobs.lookup i = some a →
    a.dedupeKey = .released key how j → j = i
  /-- The key of a payload is held by a job with that payload that has not ended. -/
  open_asked : ∀ {i a hash}, d.jobs.lookup i = some a → a.dedupeKey = .spec hash →
    hash = specHash a.payload.identity ∧ Asked a.payload ∧
      a.status ≠ .completed ∧ a.status ≠ .cancelled
  completed_le : ∀ {i a}, d.jobs.lookup i = some a → a.status = .completed →
    a.targetRevision ≤ d.node.inboundAppliedRevision
  applied : (d.node.inboundAppliedRevision = 0 ∧ d.node.inbound = before) ∨
    ∃ i a, d.jobs.lookup i = some a ∧ a.status = .completed ∧
      a.targetRevision = d.node.inboundAppliedRevision ∧
      a.payload.reported isPublic a.result = .ok d.node.inbound

variable {Asked : InboundSpec → Prop} {before : InboundReportFields}

theorem Sound.bump (h : d.Sound specHash isPublic Asked before) :
    d.bump.Sound specHash isPublic Asked before where
  id_lt := h.id_lt
  revision_pos := h.revision_pos
  revision_le := fun hjob => Nat.le_succ_of_le (h.revision_le hjob)
  revision_inj := h.revision_inj
  key_inj := h.key_inj
  released_own := h.released_own
  open_asked := h.open_asked
  completed_le := h.completed_le
  applied := h.applied

/-- Several rows of a table are read after one was written. -/
private theorem lookup_insert_cases {t : Table Nat InboundJob} {i k : Nat} {a job : InboundJob}
    (h : (t.insert k job).lookup i = some a) :
    (i = k ∧ a = job) ∨ (i ≠ k ∧ t.lookup i = some a) := by
  rw [Table.lookup_insert_ite] at h
  split at h
  · next hik => exact .inl ⟨hik, (Option.some.inj h).symm⟩
  · next hik => exact .inr ⟨hik, h⟩

/-- A job is added at the newest revision, with a key that nobody holds. -/
theorem Sound.create (h : d.Sound specHash isPublic Asked before) {key : DedupeKey}
    {agentId : String} {payload : InboundSpec}
    (hrevision : ∀ i a, d.jobs.lookup i = some a → a.targetRevision < d.node.agentConfigRevision)
    (hpos : 0 < d.node.agentConfigRevision)
    (hfree : ∀ i a, d.jobs.lookup i = some a → a.dedupeKey ≠ key)
    (hkey : (key = inboundSpecKey specHash payload ∧ Asked payload) ∨ key = .onboarding) :
    (d.create key agentId payload).Sound specHash isPublic Asked before where
  id_lt := fun {i a} hjob => by
    obtain ⟨rfl, -⟩ | ⟨-, hold⟩ := lookup_insert_cases hjob
    · exact Nat.lt_succ_self _
    · exact Nat.lt_succ_of_lt (h.id_lt hold)
  revision_pos := fun {i a} hjob => by
    obtain ⟨-, rfl⟩ | ⟨-, hold⟩ := lookup_insert_cases hjob
    · exact hpos
    · exact h.revision_pos hold
  revision_le := fun {i a} hjob => by
    obtain ⟨-, rfl⟩ | ⟨-, hold⟩ := lookup_insert_cases hjob
    · exact Nat.le_refl _
    · exact h.revision_le hold
  revision_inj := fun {i j a b} ha hb hab => by
    obtain ⟨hi, rfl⟩ | ⟨-, ha⟩ := lookup_insert_cases ha <;>
      obtain ⟨hj, rfl⟩ | ⟨-, hb⟩ := lookup_insert_cases hb
    · rw [hi, hj]
    · exact absurd hab.symm (hrevision j b hb).ne
    · exact absurd hab (hrevision i a ha).ne
    · exact h.revision_inj ha hb hab
  key_inj := fun {i j a b} ha hb hab => by
    obtain ⟨hi, rfl⟩ | ⟨-, ha⟩ := lookup_insert_cases ha <;>
      obtain ⟨hj, rfl⟩ | ⟨-, hb⟩ := lookup_insert_cases hb
    · rw [hi, hj]
    · exact absurd hab.symm (hfree j b hb)
    · exact absurd hab (hfree i a ha)
    · exact h.key_inj ha hb hab
  released_own := fun {i a old how j} ha hold => by
    obtain ⟨-, rfl⟩ | ⟨-, ha⟩ := lookup_insert_cases ha
    · obtain ⟨rfl, -⟩ | rfl := hkey <;> cases hold
    · exact h.released_own ha hold
  open_asked := fun {i a hash} ha hhash => by
    obtain ⟨-, rfl⟩ | ⟨-, ha⟩ := lookup_insert_cases ha
    · obtain ⟨rfl, hasked⟩ | rfl := hkey
      · cases hhash
        exact ⟨rfl, hasked, JobStatus.noConfusion, JobStatus.noConfusion⟩
      · cases hhash
    · exact h.open_asked ha hhash
  completed_le := fun {i a} ha hcompleted => by
    obtain ⟨-, rfl⟩ | ⟨-, ha⟩ := lookup_insert_cases ha
    · cases hcompleted
    · exact h.completed_le ha hcompleted
  applied := by
    refine h.applied.imp_right ?_
    rintro ⟨i, a, ha, hrest⟩
    refine ⟨i, a, ?_, hrest⟩
    exact (AList.lookup_insert_ne (h.id_lt ha).ne).trans ha

/-- How the row of a job that has not completed may be rewritten. -/
structure Rewrites (id : Nat) (job job' : InboundJob) : Prop where
  open_before : job.status ≠ .completed
  revision : job'.targetRevision = job.targetRevision
  /-- The key is given back, or the job stays as it was asked for and goes on. -/
  key : (∃ key how, job'.dedupeKey = .released key how id) ∨
    (job'.dedupeKey = job.dedupeKey ∧ job'.payload = job.payload ∧
      job'.status ≠ .completed ∧ job'.status ≠ .cancelled)

/-- What the node shows after a row was rewritten: what it showed, or the report of the job
that completed. -/
inductive Shows (isPublic : String → Bool) (node node' : InboundNode) (job : InboundJob) :
    Prop where
  | same (happlied : node'.inboundAppliedRevision = node.inboundAppliedRevision)
      (hinbound : node'.inbound = node.inbound)
      (hcompleted : job.status = .completed → job.targetRevision ≤ node.inboundAppliedRevision)
  | reported (hcompleted : job.status = .completed)
      (hnewer : node.inboundAppliedRevision < job.targetRevision)
      (happlied : node'.inboundAppliedRevision = job.targetRevision)
      (hreport : job.payload.reported isPublic job.result = .ok node'.inbound)

/-- A row is rewritten, and the node with it. -/
theorem Sound.rewrite (h : d.Sound specHash isPublic Asked before) {id : Nat}
    {job job' : InboundJob} {node' : InboundNode} (hjob : d.jobs.lookup id = some job)
    (hrewrite : Rewrites id job job')
    (hrevision : node'.agentConfigRevision = d.node.agentConfigRevision)
    (hshows : Shows isPublic d.node node' job') :
    { d with jobs := d.jobs.insert id job', node := node' }.Sound
      specHash isPublic Asked before where
  id_lt := fun {i a} ha => by
    obtain ⟨rfl, -⟩ | ⟨-, hold⟩ := lookup_insert_cases ha
    · exact h.id_lt hjob
    · exact h.id_lt hold
  revision_pos := fun {i a} ha => by
    obtain ⟨-, rfl⟩ | ⟨-, hold⟩ := lookup_insert_cases ha
    · exact hrewrite.revision ▸ h.revision_pos hjob
    · exact h.revision_pos hold
  revision_le := fun {i a} ha => by
    obtain ⟨-, rfl⟩ | ⟨-, hold⟩ := lookup_insert_cases ha
    · exact hrevision ▸ hrewrite.revision ▸ h.revision_le hjob
    · exact hrevision ▸ h.revision_le hold
  revision_inj := fun {i j a b} ha hb hab => by
    obtain ⟨rfl, rfl⟩ | ⟨-, hi⟩ := lookup_insert_cases ha <;>
      obtain ⟨rfl, rfl⟩ | ⟨-, hj⟩ := lookup_insert_cases hb
    · rfl
    · exact h.revision_inj hjob hj (hrewrite.revision ▸ hab)
    · exact h.revision_inj hi hjob (hab.trans hrewrite.revision)
    · exact h.revision_inj hi hj hab
  key_inj := fun {i j a b} ha hb hab => by
    obtain ⟨rfl, rfl⟩ | ⟨-, hi⟩ := lookup_insert_cases ha <;>
      obtain ⟨rfl, rfl⟩ | ⟨-, hj⟩ := lookup_insert_cases hb
    · rfl
    · obtain ⟨key, how, hkey⟩ | ⟨hkey, -⟩ := hrewrite.key
      · exact h.released_own hj (hab.symm.trans hkey)
      · exact h.key_inj hjob hj (hkey ▸ hab)
    · obtain ⟨key, how, hkey⟩ | ⟨hkey, -⟩ := hrewrite.key
      · exact (h.released_own hi (hab.trans hkey)).symm
      · exact h.key_inj hi hjob (hab.trans hkey)
    · exact h.key_inj hi hj hab
  released_own := fun {i a old how j} ha hold => by
    obtain ⟨rfl, rfl⟩ | ⟨-, ha⟩ := lookup_insert_cases ha
    · obtain ⟨key, how, hkey⟩ | ⟨hkey, -⟩ := hrewrite.key
      · rw [hkey] at hold
        exact (DedupeKey.released.inj hold).2.2.symm
      · exact h.released_own hjob (hkey ▸ hold)
    · exact h.released_own ha hold
  open_asked := fun {i a hash} ha hhash => by
    obtain ⟨rfl, rfl⟩ | ⟨-, ha⟩ := lookup_insert_cases ha
    · obtain ⟨key, how, hkey⟩ | ⟨hkey, hpayload, hopen⟩ := hrewrite.key
      · rw [hkey] at hhash
        cases hhash
      · obtain ⟨heq, hasked, -⟩ := h.open_asked hjob (hkey ▸ hhash)
        rw [hpayload]
        exact ⟨heq, hasked, hopen⟩
    · exact h.open_asked ha hhash
  completed_le := fun {i a} ha hcompleted => by
    obtain ⟨-, rfl⟩ | ⟨-, ha⟩ := lookup_insert_cases ha
    · cases hshows with
      | same happlied _ hle => exact happlied ▸ hle hcompleted
      | reported _ _ happlied _ => exact happlied.ge
    · have hle := h.completed_le ha hcompleted
      cases hshows with
      | same happlied _ _ => exact happlied ▸ hle
      | reported _ hnewer happlied _ => exact happlied ▸ hle.trans hnewer.le
  applied := by
    cases hshows with
    | same happlied hinbound _ =>
      rw [happlied, hinbound]
      refine h.applied.imp_right ?_
      rintro ⟨i, a, ha, hcompleted, hrest⟩
      refine ⟨i, a, ?_, hcompleted, hrest⟩
      -- The job behind the node has completed, so it is not the one that is rewritten.
      have hne : i ≠ id := by
        rintro rfl
        rw [hjob] at ha
        cases ha
        exact hrewrite.open_before hcompleted
      rw [AList.lookup_insert_ne hne]
      exact ha
    | reported hcompleted _ happlied hreport =>
      exact .inr ⟨id, job', AList.lookup_insert _, hcompleted, happlied.symm, hreport⟩

/-! ## Steps -/

/-- A row is rewritten and the node stays as it is. -/
theorem Sound.rewrite_row (h : d.Sound specHash isPublic Asked before) {id : Nat}
    {job job' : InboundJob} (hjob : d.jobs.lookup id = some job)
    (hrewrite : Rewrites id job job') (hopen : job'.status ≠ .completed) :
    { d with jobs := d.jobs.insert id job' }.Sound specHash isPublic Asked before :=
  h.rewrite hjob hrewrite rfl (.same rfl rfl fun hcompleted => absurd hcompleted hopen)

theorem Sound.releaseSuperseded (h : d.Sound specHash isPublic Asked before) {hash : String} :
    (d.releaseSuperseded (.spec hash)).Sound specHash isPublic Asked before := by
  unfold Desk.releaseSuperseded
  split
  · exact h
  · next id outstanding hholder =>
    obtain ⟨hjob, hkey⟩ := holder_eq_some hholder
    obtain ⟨-, -, hopen, -⟩ := h.open_asked hjob hkey
    dsimp only
    split
    · exact h.rewrite_row hjob ⟨hopen, rfl, .inl ⟨_, _, rfl⟩⟩ hopen
    · exact h

@[simp] theorem releaseSuperseded_node {key : DedupeKey} :
    (d.releaseSuperseded key).node = d.node := by
  unfold Desk.releaseSuperseded
  split
  · rfl
  · dsimp only
    split <;> rfl

/-- Giving a key back changes no revision. -/
theorem releaseSuperseded_revision {key : DedupeKey} {i : Nat} {a : InboundJob}
    (h : (d.releaseSuperseded key).jobs.lookup i = some a) :
    ∃ old, d.jobs.lookup i = some old ∧ old.targetRevision = a.targetRevision := by
  unfold Desk.releaseSuperseded at h
  split at h
  · exact ⟨a, h, rfl⟩
  · next id outstanding hholder =>
    dsimp only at h
    split at h
    · obtain ⟨rfl, rfl⟩ | ⟨-, hold⟩ := lookup_insert_cases h
      · exact ⟨outstanding, (holder_eq_some hholder).1, rfl⟩
      · exact ⟨a, hold, rfl⟩
    · exact ⟨a, h, rfl⟩

/-- Whoever still holds a key after the release is at the newest revision of all. -/
theorem holder_releaseSuperseded (h : d.Sound specHash isPublic Asked before) {hash : String}
    {id : Nat} {job : InboundJob}
    (hholder : (d.releaseSuperseded (.spec hash)).holder (.spec hash) = some (id, job)) :
    d.releaseSuperseded (.spec hash) = d ∧
      ∀ i a, d.jobs.lookup i = some a → a.targetRevision ≤ job.targetRevision := by
  unfold Desk.releaseSuperseded at hholder ⊢
  split at hholder
  · next hnone =>
    rw [hnone] at hholder
    cases hholder
  · next id' outstanding hsome =>
    dsimp only at hholder ⊢
    split at hholder
    · obtain ⟨hjob, hkey⟩ := holder_eq_some hholder
      obtain ⟨-, rfl⟩ | ⟨hne, hold⟩ := lookup_insert_cases hjob
      · cases hkey
      · obtain ⟨hother, hsame⟩ := holder_eq_some hsome
        exact absurd (h.key_inj hold hother (hkey.trans hsame.symm)) hne
    · next hkeep =>
      rw [hsome] at hholder
      cases hholder
      refine ⟨if_neg hkeep, fun i a ha => Nat.le_of_not_lt fun hlt => hkeep (.inl ?_)⟩
      exact List.any_eq_true.2 ⟨(i, a), Table.mem_pairs.2 ha, decide_eq_true hlt⟩

end Desk

/-- What `queueCommand` did when it answered: it replayed the job that holds the key of the
request, or it added a job. -/
theorem queueCommand_eq_ok {request : InboundRequest} {d d' : Desk} {id : Nat} {job : InboundJob}
    (h : queueCommand specHash request d = .ok ((id, job), d')) :
    ∃ payload, request.payload = .ok payload ∧
      let key := inboundSpecKey specHash payload
      let freed := d.bump.releaseSuperseded key
      (freed.holder key = some (id, job) ∧ d' = freed) ∨
        (freed.holder key = none ∧ d' = freed.create key request.agent.id payload ∧
          id = freed.nextId ∧ job.payload = payload ∧
          job.targetRevision = freed.node.agentConfigRevision ∧ d'.jobs.lookup id = some job) := by
  rw [queueCommand, bind_eq_ok] at h
  obtain ⟨payload, hpayload, h⟩ := h
  obtain ⟨_, _, h⟩ := bind_eq_ok.1 h
  obtain ⟨_, _, h⟩ := bind_eq_ok.1 h
  refine ⟨payload, hpayload, ?_⟩
  dsimp only at h ⊢
  split at h
  · next replayed hholder =>
    cases h
    exact .inl ⟨hholder, rfl⟩
  · next hnone =>
    cases h
    exact .inr ⟨hnone, rfl, rfl, rfl, rfl, AList.lookup_insert _⟩

/-- A report stays good for the payload whose tag it froze. -/
theorem parsePanelReport_frozen {result : Option InboundReport} {spec : PanelInboundSpec}
    {tag : String} {fields : InboundReportFields}
    (h : parsePanelReport result spec = .ok (tag, fields)) :
    parsePanelReport result { spec with inboundTag := tag, tagOverrideConfirmed := true } =
      .ok (tag, fields) := by
  cases result with
  | none => cases h
  | some report =>
    simp only [parsePanelReport, bind_eq_ok, require_eq_ok, exists_const] at h ⊢
    obtain ⟨hmode, ⟨htag, -⟩, hport, hhost, hpublic, hshort, hname, hflow, hprint, hspider, h⟩ := h
    cases h
    exact ⟨hmode, ⟨htag, fun _ => rfl⟩, hport, hhost, hpublic, hshort, hname, hflow, hprint,
      hspider, rfl⟩

/-- What `applyInboundReport` did with a job that is stored as completed: the payload may have
its tag frozen, and the node shows the report unless a newer one was there. -/
theorem applyInboundReport_eq_ok {id : Nat} {job : InboundJob} {d d' : Desk}
    (h : applyInboundReport isPublic id job { d with jobs := d.jobs.insert id job } = .ok d')
    (hcompleted : job.status = .completed) (hpos : 0 < job.targetRevision) :
    ∃ payload node',
      d' = { d with jobs := d.jobs.insert id { job with payload }, node := node' } ∧
      node'.agentConfigRevision = d.node.agentConfigRevision ∧
      Desk.Shows isPublic d.node node' { job with payload } := by
  unfold applyInboundReport at h
  split at h
  · next spec hspec =>
    obtain ⟨fields, hfields, h⟩ := bind_eq_ok.1 h
    have hreported : job.payload.reported isPublic job.result = .ok fields := by
      rw [hspec]
      exact hfields
    split at h
    · next hnewer =>
      cases h
      exact ⟨job.payload, _, rfl, rfl, .reported hcompleted hnewer rfl hreported⟩
    · next hstale =>
      cases h
      exact ⟨job.payload, d.node, rfl, rfl, .same rfl rfl fun _ => Nat.le_of_not_lt hstale⟩
  · next spec hspec =>
    obtain ⟨⟨tag, fields⟩, hfields, h⟩ := bind_eq_ok.1 h
    have hreported : (InboundSpec.validatePanel
        { spec with inboundTag := tag, tagOverrideConfirmed := true }).reported isPublic
          job.result = .ok fields := by
      rw [InboundSpec.reported, parsePanelReport_frozen hfields]
      rfl
    dsimp only at h
    rw [AList.insert_insert] at h
    split at h
    · next hfirst =>
      cases h
      exact ⟨_, _, rfl, rfl, .reported hcompleted (hfirst.1 ▸ hpos) rfl hreported⟩
    · split at h
      · next hnewer =>
        cases h
        exact ⟨_, _, rfl, rfl, .reported hcompleted hnewer.1 rfl hreported⟩
      · cases h

/-- What `completeCommand` did when it was accepted: it noted the failure, or it closed the
job and handed its report on. -/
theorem completeCommand_eq_ok {agentId : String} {id : Nat} {completed : Bool}
    {result : Option InboundReport} {d d' : Desk}
    (h : completeCommand isPublic agentId id completed result d = .ok d')
    (hpos : ∀ i a, d.jobs.lookup i = some a → 0 < a.targetRevision) :
    ∃ job job' node', d' = { d with jobs := d.jobs.insert id job', node := node' } ∧
      d.jobs.lookup id = some job ∧ Desk.Rewrites id job job' ∧
      node'.agentConfigRevision = d.node.agentConfigRevision ∧
      Desk.Shows isPublic d.node node' job' := by
  unfold completeCommand at h
  split at h
  · cases h
  · next job hjob =>
    obtain ⟨_, hguard, h⟩ := bind_eq_ok.1 h
    obtain ⟨-, houtstanding⟩ := require_eq_ok.1 hguard
    have hopen : job.status ≠ .completed := by
      intro hstatus
      rw [hstatus] at houtstanding
      cases houtstanding
    split at h
    · obtain ⟨payload, node', hd', hnode, hshows⟩ :=
        applyInboundReport_eq_ok h rfl (hpos id job hjob)
      exact ⟨job, _, node', hd', hjob, ⟨hopen, rfl, .inl ⟨_, _, rfl⟩⟩, hnode, hshows⟩
    · cases h
      refine ⟨job, _, d.node, rfl, hjob, ⟨hopen, rfl, .inr ⟨rfl, rfl, ?_, ?_⟩⟩, rfl,
        .same rfl rfl ?_⟩
      all_goals exact fun hstatus => JobStatus.noConfusion hstatus

/-! ## Runs -/

namespace Desk

variable {d d' : Desk} {Asked : InboundSpec → Prop} {before : InboundReportFields}

/-- After the release every job is older than the revision that the request took. -/
theorem Sound.revision_lt_bump (h : d.Sound specHash isPublic Asked before) {key : DedupeKey}
    {i : Nat} {a : InboundJob} (ha : (d.bump.releaseSuperseded key).jobs.lookup i = some a) :
    a.targetRevision < (d.bump.releaseSuperseded key).node.agentConfigRevision := by
  obtain ⟨old, hold, hrevision⟩ := releaseSuperseded_revision ha
  have hle := h.revision_le (i := i) hold
  rw [releaseSuperseded_node]
  exact Nat.lt_succ_of_le (hrevision ▸ hle)

theorem Sound.queueCommand (h : d.Sound specHash isPublic Asked before) {request : InboundRequest}
    (hasked : ∀ payload, request.payload = .ok payload → Asked payload) {id : Nat}
    {job : InboundJob} (hrun : Inbounds.queueCommand specHash request d = .ok ((id, job), d')) :
    d'.Sound specHash isPublic Asked before := by
  obtain ⟨payload, hpayload, hcases⟩ := queueCommand_eq_ok hrun
  have hfreed : (d.bump.releaseSuperseded (inboundSpecKey specHash payload)).Sound specHash
      isPublic Asked before := h.bump.releaseSuperseded
  obtain ⟨-, rfl⟩ | ⟨hnone, rfl, -⟩ := hcases
  · exact hfreed
  · refine hfreed.create (fun i a ha => h.revision_lt_bump ha) ?_ (fun i a => holder_eq_none hnone)
      (.inl ⟨rfl, hasked payload hpayload⟩)
    rw [releaseSuperseded_node]
    exact Nat.succ_pos _

theorem Sound.registerAgent (h : d.Sound specHash isPublic Asked before) {agentId : String}
    {spec : PanelInboundSpec} (hrun : Inbounds.registerAgent agentId spec d = .ok d') :
    d'.Sound specHash isPublic Asked before := by
  obtain ⟨_, hfree, hrun⟩ := bind_eq_ok.1 hrun
  cases hrun
  have hcreate : (d.bump.create .onboarding agentId (.validatePanel spec)).Sound specHash isPublic
      Asked before :=
    h.bump.create (fun i a ha => Nat.lt_succ_of_le (h.revision_le ha)) (Nat.succ_pos _)
      (fun i a => holder_eq_none (require_eq_ok.1 hfree)) (.inr rfl)
  exact { hcreate with }

theorem Sound.cancelExhausted (h : d.Sound specHash isPublic Asked before) (id : Nat) :
    (Inbounds.cancelExhausted id d).Sound specHash isPublic Asked before := by
  unfold Inbounds.cancelExhausted
  split
  · exact h
  · next job hjob =>
    split
    · next hguard =>
      refine h.rewrite_row hjob ⟨?_, rfl, .inl ⟨_, _, rfl⟩⟩ JobStatus.noConfusion
      intro hstatus
      rw [hstatus] at hguard
      exact absurd hguard.1 (by decide)
    · exact h

theorem Sound.claimDue (h : d.Sound specHash isPublic Asked before) (id : Nat) :
    (Inbounds.claimDue id d).Sound specHash isPublic Asked before := by
  unfold Inbounds.claimDue
  split
  · exact h
  · next job hjob =>
    split
    · next hguard =>
      refine h.rewrite_row hjob ⟨?_, rfl, .inr ⟨rfl, rfl, JobStatus.noConfusion,
        JobStatus.noConfusion⟩⟩ JobStatus.noConfusion
      intro hstatus
      rw [hstatus] at hguard
      exact absurd hguard.1 (by decide)
    · exact h

/-- One step keeps the invariant. -/
theorem Sound.step (h : d.Sound specHash isPublic Asked before) (event : DeskEvent)
    (hasked : ∀ request payload, event = .queue request → request.payload = .ok payload →
      Asked payload) :
    (d.step specHash isPublic event).Sound specHash isPublic Asked before := by
  cases event with
  | queue request =>
    cases hrun : Inbounds.queueCommand specHash request d with
    | error e =>
      simp only [Desk.step, hrun]
      exact h
    | ok answer =>
      simp only [Desk.step, hrun]
      exact h.queueCommand (fun payload => hasked request payload rfl) hrun
  | complete agentId id completed result =>
    cases hrun : completeCommand isPublic agentId id completed result d with
    | error e =>
      simp only [Desk.step, hrun]
      exact h
    | ok d' =>
      obtain ⟨job, job', node', rfl, hjob, hrewrite, hnode, hshows⟩ :=
        completeCommand_eq_ok hrun fun i a => h.revision_pos
      simp only [Desk.step, hrun]
      exact h.rewrite hjob hrewrite hnode hshows
  | cancel id => exact h.cancelExhausted id
  | claim id => exact h.claimDue id
  | register agentId spec =>
    cases hrun : Inbounds.registerAgent agentId spec d with
    | error e =>
      simp only [Desk.step, hrun]
      exact h
    | ok d' =>
      simp only [Desk.step, hrun]
      exact h.registerAgent hrun
  | otherCommand => exact h.bump
  | administer isActive agentReady awaitingPanel activateOnFirstValidation => exact { h with }

end Desk

/-- The requests among some events. -/
def requestsOf (events : List DeskEvent) : List InboundRequest :=
  events.filterMap fun
    | .queue request => some request
    | _ => none

/-- A node that nothing was deployed on. -/
def Desk.fresh (node : InboundNode) : Desk := { node }

theorem Desk.fresh_sound {node : InboundNode} (hnode : node.inboundAppliedRevision = 0)
    (Asked : InboundSpec → Prop) :
    (fresh node).Sound specHash isPublic Asked node.inbound where
  id_lt := fun hjob => nomatch hjob
  revision_pos := fun hjob => nomatch hjob
  revision_le := fun hjob => nomatch hjob
  revision_inj := fun hjob => nomatch hjob
  key_inj := fun hjob => nomatch hjob
  released_own := fun hjob => nomatch hjob
  open_asked := fun hjob => nomatch hjob
  completed_le := fun hjob => nomatch hjob
  applied := .inl ⟨hnode, rfl⟩

/-- The invariant holds after every run on a fresh node. -/
theorem run_sound {node : InboundNode} (hnode : node.inboundAppliedRevision = 0)
    (events : List DeskEvent) {Asked : InboundSpec → Prop}
    (hasked : ∀ request ∈ requestsOf events, ∀ payload, request.payload = .ok payload →
      Asked payload) :
    (Desk.run specHash isPublic (.fresh node) events).Sound specHash
      isPublic Asked node.inbound := by
  refine List.foldlRecOn (motive := Desk.Sound specHash isPublic Asked node.inbound) events _
    (Desk.fresh_sound hnode Asked) fun d hd event hevent => hd.step event ?_
  rintro request payload rfl hpayload
  exact hasked request (List.mem_filterMap.2 ⟨_, hevent, rfl⟩) payload hpayload

/-! ## The last request -/

/-- The event adds a job. -/
def DeskEvent.orders : DeskEvent → Bool
  | .queue _ => true
  | .register _ _ => true
  | _ => false

/-- The revisions of the jobs, by their ids. -/
def Desk.revisionOf (d : Desk) (id : Nat) : Option Nat := (d.jobs.lookup id).map (·.targetRevision)

theorem Desk.revisionOf_rewrite {d : Desk} {id : Nat} {job job' : InboundJob} {node' : InboundNode}
    (hjob : d.jobs.lookup id = some job) (hrevision : job'.targetRevision = job.targetRevision) :
    ({ d with jobs := d.jobs.insert id job', node := node' } : Desk).revisionOf = d.revisionOf := by
  funext i
  unfold Desk.revisionOf
  rw [Table.lookup_insert_ite]
  split
  · next hi => rw [hi, hjob, Option.map_some, Option.map_some, hrevision]
  · rfl

/-- An event that adds no job changes no revision. -/
theorem Desk.revisionOf_step {d : Desk}
    (hpos : ∀ i a, d.jobs.lookup i = some a → 0 < a.targetRevision)
    {event : DeskEvent} (hevent : event.orders = false) :
    (d.step specHash isPublic event).revisionOf = d.revisionOf := by
  cases event with
  | queue request => cases hevent
  | register agentId spec => cases hevent
  | complete agentId id completed result =>
    cases hrun : completeCommand isPublic agentId id completed result d with
    | error e => simp only [Desk.step, hrun, committed]
    | ok d' =>
      obtain ⟨job, job', node', rfl, hjob, hrewrite, -, -⟩ := completeCommand_eq_ok hrun hpos
      simp only [Desk.step, hrun, committed]
      exact revisionOf_rewrite hjob hrewrite.revision
  | cancel id =>
    simp only [Desk.step, cancelExhausted]
    split
    · rfl
    · next job hjob =>
      split
      · exact revisionOf_rewrite hjob rfl
      · rfl
  | claim id =>
    simp only [Desk.step, claimDue]
    split
    · rfl
    · next job hjob =>
      split
      · exact revisionOf_rewrite hjob rfl
      · rfl
  | otherCommand => rfl
  | administer isActive agentReady awaitingPanel activateOnFirstValidation => rfl

theorem Desk.revisionOf_run {Asked : InboundSpec → Prop} {before : InboundReportFields} :
    ∀ (events : List DeskEvent) {d : Desk}, d.Sound specHash isPublic Asked before →
      (∀ event ∈ events, event.orders = false) →
      (d.run specHash isPublic events).revisionOf = d.revisionOf
  | [], _, _, _ => rfl
  | event :: events, d, h, hevents => by
    have hfirst := hevents event List.mem_cons_self
    have hstep := h.step event fun request _ hqueue _ => by
      rw [hqueue] at hfirst
      cases hfirst
    calc (d.run specHash isPublic (event :: events)).revisionOf
        _ = (d.step specHash isPublic event).revisionOf :=
          revisionOf_run events hstep fun e he => hevents e (List.mem_cons_of_mem _ he)
        _ = d.revisionOf := revisionOf_step (fun i a => h.revision_pos) hfirst

/-- The hash tells the payloads of some requests apart. -/
def CollisionFree (specHash : InboundSpec → String) (requests : List InboundRequest) : Prop :=
  ∀ a ∈ requests, ∀ b ∈ requests, ∀ p q, a.payload = .ok p → b.payload = .ok q →
    specHash p.identity = specHash q.identity → p.identity = q.identity

/-- The job that a request was answered with stands for the request: it orders the same
deployment, and no job of the node is newer. -/
theorem queueCommand_newest {d d' : Desk} {before : InboundReportFields}
    {requests : List InboundRequest} (hhash : CollisionFree specHash requests)
    (h : d.Sound specHash isPublic (fun p => ∃ r ∈ requests, r.payload = .ok p) before)
    {request : InboundRequest} (hrequest : request ∈ requests) {id : Nat} {job : InboundJob}
    (hrun : queueCommand specHash request d = .ok ((id, job), d')) :
    (∃ payload, request.payload = .ok payload ∧ job.payload.SameDeployment payload) ∧
      d'.jobs.lookup id = some job ∧
      ∀ i other, d'.jobs.lookup i = some other → other.targetRevision ≤ job.targetRevision := by
  obtain ⟨payload, hpayload, hcases⟩ := queueCommand_eq_ok hrun
  obtain ⟨hholder, rfl⟩ | ⟨-, rfl, -, hsame, hrevision, hstored⟩ := hcases
  · obtain ⟨hfreed, hnewest⟩ := Desk.holder_releaseSuperseded h.bump hholder
    rw [inboundSpecKey, hfreed] at hholder ⊢
    obtain ⟨hjob, hkey⟩ := Desk.holder_eq_some hholder
    obtain ⟨hidentity, ⟨asker, hasker, hasked⟩, -⟩ := h.open_asked hjob hkey
    have hdeployment := InboundSpec.sameDeployment_of_identity
      (hhash asker hasker request hrequest _ _ hasked hpayload hidentity.symm)
    exact ⟨⟨payload, hpayload, hdeployment⟩, hjob, hnewest⟩
  · refine ⟨⟨payload, hpayload, InboundSpec.sameDeployment_of_identity (by rw [hsame])⟩, hstored,
      fun i other hother => ?_⟩
    rw [hrevision]
    obtain ⟨-, rfl⟩ | ⟨-, hold⟩ := Desk.lookup_insert_cases hother
    · exact Nat.le_refl _
    · exact (h.revision_lt_bump hold).le

/-- In every run of a node, the job that answers a request orders what the request asked for,
up to the order of its server names, and it is the newest one until another is added.  The
node shows the report of the newest completed job, and before the first one what it showed
at the start. -/
theorem last_request_wins {node : InboundNode} (hnode : node.inboundAppliedRevision = 0)
    (events : List DeskEvent) (request : InboundRequest)
    (hhash : CollisionFree specHash (request :: requestsOf events)) :
    let d := Desk.run specHash isPublic (.fresh node) events
    (∀ id job d', queueCommand specHash request d = .ok ((id, job), d') →
      (∃ payload, request.payload = .ok payload ∧ job.payload.SameDeployment payload) ∧
      ∀ later : List DeskEvent, (∀ event ∈ later, event.orders = false) →
        (d'.run specHash isPublic later).revisionOf id = some job.targetRevision ∧
        ∀ i revision, (d'.run specHash isPublic later).revisionOf i = some revision →
          revision ≤ job.targetRevision) ∧
    (∀ id job, d.jobs.lookup id = some job → job.status = .completed →
      (∀ i other, d.jobs.lookup i = some other → other.status = .completed →
        other.targetRevision ≤ job.targetRevision) →
      job.payload.reported isPublic job.result = .ok d.node.inbound) ∧
    ((∀ id job, d.jobs.lookup id = some job → job.status ≠ .completed) →
      d.node.inbound = node.inbound) := by
  intro d
  have h : d.Sound specHash isPublic
      (fun p => ∃ r ∈ request :: requestsOf events, r.payload = .ok p) node.inbound :=
    run_sound hnode events fun r hr payload hpayload => ⟨r, List.mem_cons_of_mem _ hr, hpayload⟩
  refine ⟨fun id job d' hrun => ?_, fun id job hjob hcompleted hnewest => ?_, fun hnone => ?_⟩
  · obtain ⟨hpayload, hstored, hnewest⟩ := queueCommand_newest hhash h List.mem_cons_self hrun
    have hd' := h.queueCommand (fun payload hasked => ⟨request, List.mem_cons_self, hasked⟩) hrun
    refine ⟨hpayload, fun later hlater => ?_⟩
    rw [Desk.revisionOf_run later hd' hlater]
    refine ⟨by rw [Desk.revisionOf, hstored, Option.map_some], fun i revision hrevision => ?_⟩
    obtain ⟨other, hother, rfl⟩ := Option.map_eq_some_iff.1 hrevision
    exact hnewest i other hother
  · obtain ⟨hzero, -⟩ | ⟨i, applied, happlied, hdone, hrevision, hreport⟩ := h.applied
    · have hpos := h.revision_pos hjob
      have hle := h.completed_le hjob hcompleted
      omega
    · have hge := hnewest i applied happlied hdone
      have hle := h.completed_le hjob hcompleted
      have hid : i = id := h.revision_inj happlied hjob (by omega)
      subst hid
      rw [hjob] at happlied
      cases happlied
      exact hreport
  · obtain ⟨-, hbefore⟩ | ⟨i, applied, happlied, hdone, -⟩ := h.applied
    · exact hbefore
    · exact absurd hdone (hnone i applied happlied)

namespace Redeploy

/-- A deployment with the default parameters, apart from its port and its server names. -/
def deployment (listenPort : Nat) (serverNames : List String) : InboundSpec :=
  .deploy {
    inboundTag := "vless-in", listenPort, dest := "www.microsoft.com:443", serverNames
    flow := "xtls-rprx-vision", fingerprint := "chrome", spiderX := "/", rotateKeys := false }

/-- Two names. -/
def names : List String := ["www.microsoft.com", "www.apple.com"]

/-- The digests of the two deployments that are ordered here. -/
def digest (spec : InboundSpec) : String :=
  if spec = deployment 443 names.reverse then "ff33d01c4cb8e490adf50e872439d0ec"
  else "de29f9fab4434bf940c6f62dcdcb431c"

/-- An order with this port and these names. -/
def order (listenPort : Nat) (serverNames : List String) : InboundRequest where
  agent := { id := "agent-1", version := some "1.9.0" }
  spec := deployment listenPort serverNames

/-- A node with an inbound. -/
def node : InboundNode where
  inbound := {
    serverHost := "203.0.113.7", serverPort := 443, realityPublicKey := "", shortId := ""
    serverName := "", flow := "", fingerprint := "chrome", spiderX := "/" }

/-- The orders are told apart by their digests. -/
theorem collisionFree :
    CollisionFree digest [order 443 names, order 443 names, order 8443 names] := by
  have hpayload : ∀ r ∈ [order 443 names, order 443 names, order 8443 names], ∀ p,
      r.payload = .ok p → p = deployment 443 names ∨ p = deployment 8443 names := by
    intro r hr p hp
    rcases List.mem_cons.1 hr with rfl | hr
    · exact .inl (Except.ok.inj hp).symm
    · rcases List.mem_cons.1 hr with rfl | hr
      · exact .inl (Except.ok.inj hp).symm
      · rw [List.mem_singleton.1 hr] at hp
        exact .inr (Except.ok.inj hp).symm
  intro a ha b hb p q hp hq heq
  obtain rfl | rfl := hpayload a ha p hp <;> obtain rfl | rfl := hpayload b hb q hq
  · rfl
  · exact absurd heq (by decide +kernel)
  · exact absurd heq (by decide +kernel)
  · rfl

end Redeploy

open Redeploy in
/-- Port 443 is ordered, then 8443, then 443 again with nothing completed.  The third request
gets a job of its own that is newer than the other two. -/
theorem last_request_wins_redeploy :
    ∃ id job d', queueCommand digest (order 443 names) (Desk.run digest (fun _ => true)
        (.fresh node) [.queue (order 443 names), .queue (order 8443 names)]) =
          .ok ((id, job), d') ∧
      (∃ payload, (order 443 names).payload = .ok payload ∧ job.payload.SameDeployment payload) ∧
      ∀ i revision, d'.revisionOf i = some revision → revision ≤ job.targetRevision := by
  have hwins := (@last_request_wins digest (fun _ => true) node rfl
    [.queue (order 443 names), .queue (order 8443 names)] (order 443 names) collisionFree).1
  cases hrun : queueCommand digest (order 443 names) (Desk.run digest (fun _ => true)
      (.fresh node) [.queue (order 443 names), .queue (order 8443 names)]) with
  | error e =>
    have hok : (queueCommand digest (order 443 names) (Desk.run digest (fun _ => true)
      (.fresh node) [.queue (order 443 names), .queue (order 8443 names)])).isOk = true := by
      decide +kernel
    rw [hrun] at hok
    cases hok
  | ok answer =>
    obtain ⟨hpayload, hlater⟩ := hwins _ _ _ hrun
    exact ⟨_, _, _, rfl, hpayload, (hlater [] (by simp)).2⟩

open Redeploy in
/-- A request that names the same servers in another order is answered with the job of the
first request, whose payload has them in the old order. -/
theorem reordered_names_are_collapsed :
    ∃ id job d', queueCommand digest (order 443 names.reverse) (Desk.run digest (fun _ => true)
        (.fresh node) [.queue (order 443 names)]) = .ok ((id, job), d') ∧
      (order 443 names.reverse).payload ≠ .ok job.payload :=
  ⟨_, _, _, rfl, by decide +kernel⟩

end ChordV.Api.Inbounds
