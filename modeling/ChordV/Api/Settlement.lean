import ChordV.Api.Queue

/-!
# Settlement of disables

A binding that was disabled or deleted cannot be activated again before its disable
watermarks are recorded, and only the result of its terminal command records them.

* `Settles` is the link: an outstanding terminal command for the current revision of the
  binding, held by an unrevoked agent of its node.  `Settles.complete` says that its result
  records the watermarks.
* `Severs` are the four requests that can cut the link: the sweep gives the command up, its
  credential is revoked or replaced, its result carries no watermarks, or metering disables a
  binding on a node without an agent.
* `unsettled_disables_can_settle` is the statement about all other runs, and
  `given_up_disable_never_settles` is a run in which the sweep gives up.
-/

namespace ChordV.Api

open Lib Fallible

/-- A direct binding that is off without recorded watermarks. -/
structure Binding.Unsettled (b : Binding) : Prop where
  direct : b.source = .direct
  off : b.status.off = true
  unrecorded : b.directDisableWatermarks = none

/-- The command that settles a binding. -/
structure Database.Settles (s : Database) (id : String) (b : Binding) (key : JobKey) (job : Job) :
    Prop where
  lookup : s.jobs.lookup key = some job
  terminal : job.commandType.isTerminal = true
  bindingId : job.bindingId = id
  payload : job.payload.bindingId = id
  revision : job.targetRevision = b.directRevision
  outstanding : job.status.outstanding = true
  nodeId : job.nodeId = b.nodeId
  agent : s.Serves job.agentId b.nodeId

/-- Every unsettled binding has a command that settles it. -/
structure Settlement (s : Database) : Prop where
  orderly : Orderly s
  linked : ∀ id b, s.bindings.lookup id = some b → b.Unsettled → ∃ key job, s.Settles id b key job

section Settlement

variable {s s' : Database} {id : String} {b b' : Binding} {key : JobKey} {job : Job}

/-- The result of the command records its watermarks. -/
theorem Database.Settles.complete (h : s.Settles id b key job) (hb : s.bindings.lookup id = some b)
    (hdirect : b.source = .direct) (hid : id ≠ "") (watermarks : List Watermark) :
    ∃ s', completeCommand job.agentId key (.completed (some watermarks)) s = .ok ((), s') ∧
      s'.bindings.lookup id = some { b with directDisableWatermarks := some watermarks } := by
  obtain ⟨agent, hagent, hnode, hlive⟩ := h.agent
  have hcurrent : currentAgent job.agentId s = .ok agent := by
    rw [currentAgent, find_eq_ok.2 hagent, ok_bind, require, if_pos hlive]
    rfl
  have hvalid : job.nodeId = agent.nodeId ∧ job.agentId = job.agentId ∧
      job.status.outstanding = true := ⟨h.nodeId.trans hnode.symm, rfl, h.outstanding⟩
  refine ⟨recordWatermarks agent.nodeId job (some watermarks)
    { s with jobs := s.jobs.insert key { job with status := .completed } }, ?_, ?_⟩
  · rw [completeCommand, hcurrent, ok_bind, find_eq_ok.2 h.lookup, ok_bind, require, if_pos hvalid,
      ok_bind]
    rfl
  · rw [recordWatermarks, if_pos ⟨h.terminal, h.payload ▸ hid⟩, h.payload]
    dsimp only
    rw [Table.lookup_modify_self, hb, Option.map_some, if_pos ⟨hnode.symm, hdirect⟩]

/-- The command stays the one that settles, if its order, its agent and the revision of the
binding stay. -/
theorem Database.Settles.kept {job' : Job} (h : s.Settles id b key job)
    (hlookup : s'.jobs.lookup key = some job') (horder : job'.order = job.order)
    (hagent : s.Serves job.agentId b.nodeId → s'.Serves job.agentId b.nodeId)
    (hnodeId : b'.nodeId = b.nodeId) (hrevision : b'.directRevision = b.directRevision) :
    s'.Settles id b' key job' := by
  simp only [Job.order, Job.mk.injEq] at horder
  obtain ⟨hnode, hagentId, htype, htarget, hpayload, hid, hstatus, -, -⟩ := horder
  refine ⟨hlookup, htype ▸ h.terminal, hid.trans h.bindingId, hpayload ▸ h.payload, ?_,
    hstatus ▸ h.outstanding, ?_, ?_⟩
  · rw [htarget, h.revision, hrevision]
  · rw [hnode, h.nodeId, hnodeId]
  · rw [hagentId, hnodeId]
    exact hagent h.agent

theorem Binding.Unsettled.of_control (h : b'.Unsettled) (hcontrol : b'.control = b.control) :
    b.Unsettled ∧ b'.nodeId = b.nodeId ∧ b'.directRevision = b.directRevision := by
  simp only [Binding.control, Binding.mk.injEq] at hcontrol
  obtain ⟨-, -, -, hnode, -, -, -, -, hstatus, hsource, hrevision, hwatermarks⟩ := hcontrol
  exact ⟨⟨hsource ▸ h.direct, hstatus ▸ h.off, hwatermarks ▸ h.unrecorded⟩, hnode, hrevision⟩

/-- Provisioning and metering keep the links, if they strand no binding. -/
theorem Settlement.commands {S : String → Prop} (h : Settlement s) (hcommands : Commands S s s')
    (hS : ∀ id, ¬S id) : Settlement s' := by
  refine ⟨hcommands.orderly, fun id b' hb' hunsettled => ?_⟩
  rcases hcommands.bindings id with
    hsame | ⟨b, type, key, job, hb, -, -, hpending, hcase⟩ | ⟨hstrand, -⟩
  · obtain ⟨b, hb, hcontrol⟩ := control_eq hb' hsame
    obtain ⟨hbefore, hnode, hrevision⟩ := hunsettled.of_control hcontrol
    obtain ⟨key, job, hsettles⟩ := h.linked id b hb hbefore
    obtain ⟨job', hjob', horder⟩ := hcommands.jobs key job hsettles.lookup
    exact ⟨key, job', hsettles.kept hjob' horder (·.of_agents hcommands.agents) hnode hrevision⟩
  · rw [hb'] at hb
    cases hb
    rcases hcase with hactive | ⟨-, hterminal⟩
    · have hoff := hunsettled.off
      rw [hactive] at hoff
      cases hoff
    · exact ⟨key, job, hpending.lookup, hpending.commandType ▸ hterminal, hpending.bindingId,
        hpending.payload, hpending.revision, by rw [hpending.status]; rfl, hpending.nodeId,
        hpending.agent⟩
  · exact absurd hstrand (hS id)

/-! ## Requests -/

/-- The command is the one an unsettled binding waits for. -/
def Database.Awaits (s : Database) (job : Job) : Prop :=
  job.commandType.isTerminal = true ∧ ∃ b, s.bindings.lookup job.bindingId = some b ∧ b.Unsettled ∧
    job.targetRevision = b.directRevision

/-- The requests that cut the link between an unsettled binding and its command. -/
def Request.Severs (s : Database) : Request → Prop
  | .cancelExhausted key => ∃ job, s.jobs.lookup key = some job ∧ maxAttempts ≤ job.attempts ∧
      s.Awaits job
  | .complete _ key (.completed none) => ∃ job, s.jobs.lookup key = some job ∧ s.Awaits job
  | .createCredential nodeId _ => ∃ id b, s.bindings.lookup id = some b ∧ b.Unsettled ∧
      b.nodeId = nodeId
  | .revokeCredential _ agentId => ∃ key job, s.jobs.lookup key = some job ∧ job.agentId = agentId ∧
      s.Awaits job
  | .upload agentId _ => ∃ agent id, s.agents.lookup agentId = some agent ∧
      s.Strandable agent.nodeId id
  | _ => False

theorem Database.Settles.awaits (h : s.Settles id b key job) (hb : s.bindings.lookup id = some b)
    (hunsettled : b.Unsettled) : s.Awaits job :=
  ⟨h.terminal, b, h.bindingId ▸ hb, hunsettled, h.revision⟩

/-- The command of one key is rewritten in its status and attempts. -/
structure Job.Rewrites (job job' : Job) : Prop where
  order : { job' with status := job.status, attempts := job.attempts }.order = job.order

theorem Job.Rewrites.fields {job' : Job} (h : job.Rewrites job') :
    job'.nodeId = job.nodeId ∧ job'.agentId = job.agentId ∧ job'.commandType = job.commandType ∧
      job'.targetRevision = job.targetRevision ∧ job'.payload = job.payload ∧
      job'.bindingId = job.bindingId := by
  have horder := h.order
  simp only [Job.order, Job.mk.injEq] at horder
  exact ⟨horder.1, horder.2.1, horder.2.2.1, horder.2.2.2.1, horder.2.2.2.2.1, horder.2.2.2.2.2.1⟩

theorem Orderly.insertJob (h : Orderly s) {job' : Job} (hjob : s.jobs.lookup key = some job)
    (hrewrites : job.Rewrites job') : Orderly { s with jobs := s.jobs.insert key job' } := by
  obtain ⟨hnode, -, -, htarget, -, hid⟩ := hrewrites.fields
  refine ⟨h.named, fun key' job₁ hjob₁ => ?_⟩
  dsimp only at hjob₁
  rw [Table.lookup_insert_ite] at hjob₁
  split at hjob₁
  · next heq =>
    cases hjob₁
    obtain ⟨hfiledId, hfiledRevision, ⟨b, hb, hbnode⟩, node, hnode', hle⟩ := h.filed key job hjob
    subst heq
    exact ⟨hid ▸ hfiledId, htarget ▸ hfiledRevision, ⟨b, hid ▸ hb, hnode ▸ hbnode⟩, node,
      hnode ▸ hnode', htarget ▸ hle⟩
  · obtain ⟨hfiledId, hfiledRevision, hbinding, hnode'⟩ := h.filed key' job₁ hjob₁
    exact ⟨hfiledId, hfiledRevision, hbinding, hnode'⟩

/-- A command of another key still settles its binding. -/
theorem Database.Settles.insertJob {key' : JobKey} {job' : Job} (h : s.Settles id b key job)
    (hkey : key ≠ key') : { s with jobs := s.jobs.insert key' job' }.Settles id b key job := by
  have hlookup : (s.jobs.insert key' job').lookup key = some job := by
    rw [Table.lookup_insert_ite, if_neg hkey, h.lookup]
  exact ⟨hlookup, h.terminal, h.bindingId, h.payload, h.revision, h.outstanding, h.nodeId, h.agent⟩

/-- A rewritten command stays the one that settles, or it was none that settles. -/
theorem Settlement.insertJob (h : Settlement s) {job' : Job} (hjob : s.jobs.lookup key = some job)
    (hrewrites : job.Rewrites job')
    (hkept : job'.status.outstanding = true ∨ ∀ id b, s.bindings.lookup id = some b → b.Unsettled →
      ¬s.Settles id b key job) :
    Settlement { s with jobs := s.jobs.insert key job' } := by
  refine ⟨h.orderly.insertJob hjob hrewrites, fun id b hb hunsettled => ?_⟩
  obtain ⟨key', job₁, hsettles⟩ := h.linked id b hb hunsettled
  by_cases heq : key' = key
  · subst heq
    have hsame := hsettles.lookup
    rw [hjob] at hsame
    cases hsame
    obtain ⟨hnode, hagentId, htype, htarget, hpayload, hid⟩ := hrewrites.fields
    rcases hkept with houtstanding | hnot
    · exact ⟨key', job', AList.lookup_insert .., htype ▸ hsettles.terminal,
        hid.trans hsettles.bindingId, hpayload ▸ hsettles.payload, htarget.trans hsettles.revision,
        houtstanding, hnode.trans hsettles.nodeId, hagentId ▸ hsettles.agent⟩
    · exact absurd hsettles (hnot id b hb hunsettled)
  · exact ⟨key', job₁, hsettles.insertJob heq⟩

theorem Settlement.completeCommand (h : Settlement s) {agentId : String} {result : CommandResult}
    (hsevers : ¬(Request.complete agentId key result).Severs s)
    (hrun : completeCommand agentId key result s = .ok ((), s')) : Settlement s' := by
  obtain ⟨agent, job, -, hjob, hnode, -, -, ⟨-, rfl⟩ | ⟨watermarks, rfl, rfl⟩⟩ :=
    completeCommand_eq_ok hrun
  · exact h.insertJob hjob ⟨rfl⟩ (.inl rfl)
  cases watermarks with
  | none =>
    exact h.insertJob hjob ⟨rfl⟩ (.inr fun id b hb hunsettled hsettles =>
      hsevers ⟨job, hjob, hsettles.awaits hb hunsettled⟩)
  | some watermarks =>
    have hrewrites : job.Rewrites { job with status := .completed } := ⟨rfl⟩
    have horderly := h.orderly.insertJob hjob hrewrites
    unfold recordWatermarks
    dsimp only
    split
    · next hrecorded =>
      refine ⟨horderly.of_nodeIds rfl rfl fun id => ?_, fun id b' hb' hunsettled => ?_⟩
      · dsimp only
        rw [Table.lookup_modify]
        split
        · next heq =>
          rw [heq, Option.map_map]
          congr 1
          funext b
          dsimp only [Function.comp]
          split <;> rfl
        · rfl
      · dsimp only at hb'
        -- A binding that is still unsettled was not written.
        have hb : s.bindings.lookup id = some b' ∧ (id = job.payload.bindingId →
            ¬(b'.nodeId = agent.nodeId ∧ b'.source = .direct)) := by
          rw [Table.lookup_modify] at hb'
          split at hb'
          · next heq =>
            obtain ⟨b, hb, hb'⟩ := Option.map_eq_some_iff.1 hb'
            split at hb'
            · have hunrecorded := hunsettled.unrecorded
              rw [← hb'] at hunrecorded
              cases hunrecorded
            · next hnot =>
              subst hb'
              exact ⟨heq ▸ hb, fun _ => hnot⟩
          · next hne => exact ⟨hb', fun heq => absurd heq hne⟩
        obtain ⟨key', job₁, hsettles⟩ := h.linked id b' hb.1 hunsettled
        by_cases heq : key' = key
        · subst heq
          have hsame := hsettles.lookup
          rw [hjob] at hsame
          cases hsame
          exact absurd ⟨hsettles.nodeId.symm.trans hnode, hunsettled.direct⟩
            (hb.2 hsettles.payload.symm)
        · let done : Job := { job with status := .completed }
          have hkept : { s with jobs := s.jobs.insert key done }.Settles id b' key' job₁ :=
            hsettles.insertJob heq
          exact ⟨key', job₁, hkept.lookup, hkept.terminal, hkept.bindingId, hkept.payload,
            hkept.revision, hkept.outstanding, hkept.nodeId, hkept.agent⟩
    · next hnot =>
      refine h.insertJob hjob ⟨rfl⟩ (.inr fun id b hb _ hsettles => hnot ⟨hsettles.terminal, ?_⟩)
      rw [hsettles.payload]
      exact h.orderly.named id b hb

theorem Settlement.cancelExhausted (h : Settlement s)
    (hsevers : ¬(Request.cancelExhausted key).Severs s)
    (hrun : cancelExhausted key s = .ok ((), s')) : Settlement s' := by
  rcases cancelExhausted_eq_ok hrun with rfl | ⟨job, resolved, hjob, -, hattempts, rfl⟩
  · exact h
  · exact h.insertJob hjob ⟨rfl⟩ (.inr fun id b hb hunsettled hsettles =>
      hsevers ⟨job, hjob, hattempts, hsettles.awaits hb hunsettled⟩)

theorem Settlement.claimDue (h : Settlement s) (hrun : claimDue key s = .ok ((), s')) :
    Settlement s' := by
  rcases claimDue_eq_ok hrun with rfl | ⟨job, hjob, -, rfl⟩
  · exact h
  · exact h.insertJob hjob ⟨rfl⟩ (.inl rfl)

/-! ## Credentials -/

/-- The agents change, and none leaves that a binding waits for. -/
theorem Settlement.of_agents (h : Settlement s) {agents : Table String NodeAgent}
    (hserves : ∀ id b key job, s.bindings.lookup id = some b → b.Unsettled →
      s.Settles id b key job → { s with agents }.Serves job.agentId b.nodeId) :
    Settlement { s with agents } := by
  refine ⟨h.orderly.of_nodeIds rfl rfl fun _ => rfl, fun id b hb hunsettled => ?_⟩
  obtain ⟨key, job, hsettles⟩ := h.linked id b hb hunsettled
  exact ⟨key, job, hsettles.lookup, hsettles.terminal, hsettles.bindingId, hsettles.payload,
    hsettles.revision, hsettles.outstanding, hsettles.nodeId,
    hserves id b key job hb hunsettled hsettles⟩

theorem Database.Serves.insert {agentId agentId' nodeId : String} {next : NodeAgent}
    (h : s.Serves agentId nodeId)
    (hnext : ∀ agent, s.agents.lookup agentId' = some agent → next.nodeId = agent.nodeId ∧
      next.revoked = agent.revoked) :
    { s with agents := s.agents.insert agentId' next }.Serves agentId nodeId := by
  obtain ⟨agent, hagent, hnode, hlive⟩ := h
  unfold Serves
  dsimp only
  rw [Table.lookup_insert_ite]
  split
  · next heq =>
    obtain ⟨hnextNode, hnextLive⟩ := hnext agent (heq ▸ hagent)
    exact ⟨next, rfl, hnextNode.trans hnode, hnextLive.trans hlive⟩
  · exact ⟨agent, hagent, hnode, hlive⟩

theorem Settlement.heartbeat (h : Settlement s) {agentId bootId : String} {ack : Nat}
    (hrun : heartbeat agentId bootId s = .ok (ack, s')) : Settlement s' := by
  obtain ⟨agent, next, hagent, hnode, hlive, rfl⟩ := heartbeat_eq_ok hrun
  refine h.of_agents fun id b key job _ _ hsettles => hsettles.agent.insert fun agent' hagent' => ?_
  rw [hagent] at hagent'
  cases hagent'
  exact ⟨hnode, hlive⟩

theorem Settlement.newAgent (h : Settlement s) {agentId nodeId : String} {bootId : Option String}
    (hrun : newAgent agentId nodeId bootId s = .ok s') : Settlement s' := by
  obtain ⟨hfresh, agent, -, rfl⟩ := newAgent_eq_ok hrun
  refine h.of_agents fun id b key job _ _ hsettles => hsettles.agent.insert fun agent' hagent' => ?_
  rw [hfresh] at hagent'
  cases hagent'

theorem Settlement.revokeCredential (h : Settlement s) {nodeId agentId : String}
    (hsevers : ¬(Request.revokeCredential nodeId agentId).Severs s)
    (hrun : revokeCredential nodeId agentId s = .ok ((), s')) : Settlement s' := by
  obtain ⟨agent, -, -, -, rfl⟩ := revokeCredential_eq_ok hrun
  refine h.of_agents fun id b key job hb hunsettled hsettles => ?_
  obtain ⟨agent', hagent', hnode, hlive⟩ := hsettles.agent
  have hne : job.agentId ≠ agentId := fun heq =>
    hsevers ⟨key, job, hsettles.lookup, heq, hsettles.awaits hb hunsettled⟩
  refine ⟨agent', ?_, hnode, hlive⟩
  dsimp only
  rw [Table.lookup_modify_ne _ _ hne, hagent']

theorem Settlement.createCredential (h : Settlement s) {nodeId agentId : String}
    (hsevers : ¬(Request.createCredential nodeId agentId).Severs s)
    (hrun : createCredential nodeId agentId s = .ok ((), s')) : Settlement s' := by
  refine Settlement.newAgent ?_ (createCredential_eq_ok hrun)
  refine h.of_agents fun id b key job hb hunsettled hsettles => ?_
  obtain ⟨agent, hagent, hnode, hlive⟩ := hsettles.agent
  refine ⟨agent, ?_, hnode, hlive⟩
  -- The agent serves another node, so it is not revoked.
  have hother :
      job.agentId ∉ (s.agents.pairs.filter fun p => p.2.nodeId = nodeId).map Prod.fst := by
    intro hmem
    obtain ⟨⟨agentId', agent'⟩, hmem, heq⟩ := List.mem_map.1 hmem
    obtain ⟨hpair, hnode'⟩ := List.mem_filter.1 hmem
    dsimp only at heq
    subst heq
    rw [Table.mem_pairs, hagent] at hpair
    cases hpair
    exact hsevers ⟨id, b, hb, hunsettled, hnode.symm.trans (of_decide_eq_true hnode')⟩
  have hlookup := Table.lookup_foldl_modify (f := fun id : String => id)
    (g := fun _ (a : NodeAgent) => { a with revoked := true }) (k := job.agentId)
    (u := fun a : NodeAgent => { a with revoked := true }) (fun _ => rfl)
    ((s.agents.pairs.filter fun p => p.2.nodeId = nodeId).map Prod.fst) s.agents fun _ _ _ => rfl
  rw [if_neg (by simpa using hother)] at hlookup
  exact hlookup.trans hagent

/-! ## Uploads -/

/-- Metering on the node of an agent strands no binding. -/
def Database.Reachable (s : Database) (agentId : String) : Prop :=
  ∀ agent id, s.agents.lookup agentId = some agent → ¬s.Strandable agent.nodeId id

theorem Settlement.still (h : Settlement s) (hstill : Still s s') : Settlement s' :=
  h.commands (S := fun _ => False) (.of_still h.orderly hstill) fun _ hfalse => hfalse

theorem Settlement.ingestTx {payloadHash : UsageBatch → String} {agentId : String}
    {batch : UsageBatch} {scan : Scan} (h : Settlement s) (hreachable : s.Reachable agentId)
    (hrun : ingestTx payloadHash agentId batch s = .ok (scan, s')) :
    Settlement s' ∧ s'.Reachable agentId := by
  obtain ⟨agent, s₁, s₂, hagent, hlive, hstore, hprocess, rfl⟩ := ingestTx_eq_ok hrun
  obtain ⟨batches, rfl⟩ := storeBatch_eq_ok hstore
  have hstored : Settlement { s with batches } := h.still ⟨rfl, rfl, rfl, fun _ => rfl⟩
  have hscanned : Settlement s₂ ∧ (∀ id, ¬s₂.Strandable agent.nodeId id) ∧
      s₂.agents = s.agents := by
    refine processBatches_induct (I := fun t => Settlement t ∧
      (∀ id, ¬t.Strandable agent.nodeId id) ∧ t.agents = s.agents) ?_
      ⟨hstored, fun id => hreachable agent id hagent, rfl⟩ hprocess
    rintro t t' key stored applied - hnode - ⟨ht, hnone, hagents⟩ haccount
    obtain ⟨⟨applied', t₁⟩, happly, haccount⟩ := bind_eq_ok.1 haccount
    cases haccount
    have hserves : t.Serves agentId key.nodeId :=
      ⟨agent, hagents ▸ hagent, hnode.symm, hlive⟩
    have hdims := applyDirectBatch_dims happly
    have hcommands := applyDirectBatch_commands ht.orderly hserves happly
    have ht₁ := ht.commands hcommands (hnode ▸ hnone)
    refine ⟨ht₁.still ⟨rfl, rfl, rfl, fun _ => rfl⟩, fun id hstrand => ?_,
      hdims.agents.trans hagents⟩
    refine hnone id (hstrand.dims hdims.bindings fun agentId' nodeId hserves' => ?_)
    exact hserves'.of_agents hdims.agents
  obtain ⟨hsettled, hnone, hagents⟩ := hscanned
  have hnext : ∀ agentId' nodeId, s₂.Serves agentId' nodeId → Database.Serves { s₂ with
      agents := s₂.agents.insert agentId { agent.uploading batch.bootId with
        bootId := some batch.bootId
        lastSequence := max (agent.uploading batch.bootId).lastSequence batch.sequence
        lastAckSequence := scan.ackThrough, lastSeenAt := some s₂.clock } } agentId' nodeId := by
    refine fun agentId' nodeId hserves => hserves.insert fun agent' hagent' => ?_
    rw [hagents, hagent] at hagent'
    cases hagent'
    exact ⟨agent.uploading_nodeId batch.bootId, agent.uploading_revoked batch.bootId⟩
  refine ⟨hsettled.of_agents fun id b key job _ _ hsettles => hnext _ _ hsettles.agent,
    fun agent' id hagent' hstrand => hnone id ?_⟩
  dsimp only at hagent'
  rw [AList.lookup_insert] at hagent'
  cases hagent'
  refine Database.Strandable.dims (agent.uploading_nodeId batch.bootId ▸ hstrand)
    (fun id' b hb => ?_) hnext
  exact ⟨b, hb, rfl, rfl, rfl, fun hactive => hactive⟩

/-! ## Runs -/

/-- The bindings that a disable or a deletion selects. -/
theorem mem_bindingsOf {subscriptionId : String} {f : BindingFilter} {statuses : List BindingStatus}
    (hid : id ∈ (bindingsOf s subscriptionId f statuses).map Prod.fst) :
    ∃ b, s.bindings.lookup id = some b ∧ statuses.contains b.status = true := by
  obtain ⟨p, hp, rfl⟩ := List.mem_map.1 hid
  obtain ⟨hp, hfilter⟩ := List.mem_filter.1 hp
  simp only [Bool.and_eq_true] at hfilter
  exact ⟨p.2, Table.mem_pairs.1 hp, hfilter.2⟩

/-- A request that does not sever a link keeps all of them. -/
theorem Settlement.step (payloadHash : UsageBatch → String) (h : Settlement s) (step : Step)
    (hsevers : ¬step.1.Severs s) : Settlement (s.step payloadHash step) := by
  have hcommands : ∀ {s s' : Database}, Settlement s → Commands (fun _ => False) s s' →
      Settlement s' := fun h hcommands => h.commands hcommands fun _ hfalse => hfalse
  have hcommit : ∀ {f : Database → Except ApiError (Unit × Database)} {fates : List Fate},
      (∀ s', f s = .ok ((), s') → Settlement s') →
      Settlement (finalWorld (silently f) s fates) := by
    intro f fates hf
    rcases finalWorld_silently (f := f) s fates with hsame | hcommit
    · rw [hsame]
      exact h
    · exact hf _ hcommit
  obtain ⟨request, fates⟩ := step
  cases request with
  | heartbeat agentId bootId =>
    exact Database.step_preserved (I := Settlement) h _ fun _ s a s' h hrun => h.heartbeat hrun
  | upload agentId batch =>
    have hreachable : s.Reachable agentId :=
      fun agent id hagent hstrand => hsevers ⟨agent, id, hagent, hstrand⟩
    refine (Database.step_preserved (I := fun t => Settlement t ∧ t.Reachable agentId)
      ⟨h, hreachable⟩ _ ?_).1
    exact fun _ _ s a s' h hrun => h.1.ingestTx h.2 hrun
  | complete agentId key result => exact hcommit fun s' hrun => h.completeCommand hsevers hrun
  | disable subscriptionId filter =>
    exact hcommit fun s' hrun => hcommands h
      (queueAndMark_commands h.orderly rfl rfl (fun id hid => mem_bindingsOf hid) hrun)
  | delete subscriptionId filter =>
    exact hcommit fun s' hrun => hcommands h
      (queueAndMark_commands h.orderly rfl rfl (fun id hid => mem_bindingsOf hid) hrun)
  | quiesce subscriptionId userId =>
    refine hcommit fun s' hrun => hcommands h (queueAndMark_commands h.orderly rfl rfl ?_ hrun)
    intro id hid
    obtain ⟨p, hp, rfl⟩ := List.mem_map.1 hid
    exact mem_bindingsOf (List.mem_map_of_mem (List.mem_of_mem_filter hp))
  | activate input =>
    exact hcommit fun s' hrun => hcommands h (ensurePanelClientBinding_commands h.orderly hrun)
  | reset subscriptionId userId => exact hcommit fun s' hrun => h.still (resetTraffic_still hrun)
  | cancelExhausted key => exact hcommit fun s' hrun => h.cancelExhausted hsevers hrun
  | claimDue key => exact hcommit fun s' hrun => h.claimDue hrun
  | createCredential nodeId agentId =>
    exact hcommit fun s' hrun => h.createCredential hsevers hrun
  | revokeCredential nodeId agentId =>
    exact hcommit fun s' hrun => h.revokeCredential hsevers hrun
  | register nodeId agentId bootId =>
    exact Database.step_preserved (I := Settlement) h _
      fun _ s a s' h hrun => h.newAgent (registerAgent_eq_ok hrun)
  | tick milliseconds =>
    exact Database.step_preserved (I := Settlement) h _
      fun s h => h.still ⟨rfl, rfl, rfl, fun _ => rfl⟩

end Settlement

namespace Outage

/-- A node with one credential, and a subscription without a binding. -/
def start : Database :=
  { nodes := (∅ : Table String Node).insert "node" {}
    agents := (∅ : Table String NodeAgent).insert "agent" { nodeId := "node" }
    subscriptions := (∅ : Table String Subscription).insert "sub"
      { expireAt := 1000, totalTrafficBytes := 1000 } }

theorem bindingId_named : "b" ≠ "" := by decide

/-- A connect of the user. -/
def activation : Activation :=
  { nodeId := "node", subscriptionId := "sub", userId := "user", email := "u@x"
    newBindingId := "b", newClientId := "uuid", named := bindingId_named }

/-- The command of the disable. -/
def key : JobKey := .agent .disableUser "b" 2

/-- The binding is disabled, and its command is sent once. -/
def sent : List Step :=
  [(.activate activation, []), (.disable "sub" {}, []), (.claimDue key, [])]

/-- The binding after the disable. -/
def binding : Binding :=
  { subscriptionId := "sub", userId := some "user", nodeId := "node", panelClientEmail := "u@x"
    panelClientId := "uuid", status := .disabled, directRevision := 2 }

end Outage

end ChordV.Api
