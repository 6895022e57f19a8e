import ChordV.Api.Acks

/-!
# The accounting invariant

A node in `direct_primary` acknowledges a batch only after it was accounted.  The unique key
of a batch is node, boot and sequence, while the scan of an upload reads the rows of one
credential.  `Accounting` is the invariant that connects the two.

* `marked`: the rows that are marked are those the history accounts.
* `inOrder`: the accounted sequences of a boot are `1, 2, …, n`, in this order.
* `acked`: what a credential acknowledges is accounted.

`Accounting.accountFrom` carries it through the loop of the scan, `Accounting.step` through
a request, and `Accounting.acknowledged` says what an answer may rely on.
-/

namespace ChordV.Api

open Lib Fallible

/-! ## The invariant -/

/-- The accounted sequences of a boot, in the order in which they were applied. -/
def Database.sequencesOf (s : Database) (nodeId bootId : String) : List Nat :=
  (s.accountedKeys.filter fun key => key.nodeId = nodeId && key.bootId = bootId).map (·.sequence)

/-- The batches `1, …, ack` of a boot are accounted. -/
abbrev Database.Covered (s : Database) : String → String → Nat → Prop :=
  Through (· ∈ s.accountedKeys)

/-- What the tables and the marks of accounted batches have in common. -/
structure Accounting (s : Database) : Prop where
  direct : ∀ nodeId mode, (s.nodes.lookup nodeId).map (·.controlMode) = some mode →
    mode = .directPrimary
  marked : ∀ key, key ∈ s.accountedKeys ↔
    ∃ batch, s.batches.lookup key = some batch ∧ batch.accounted = true
  inOrder : ∀ nodeId bootId, ∃ n, s.sequencesOf nodeId bootId = List.range' 1 n
  acked : s.Acks fun _ => (· ∈ s.accountedKeys)

/-- Nothing was uploaded yet, and the nodes are in `direct_primary`. -/
structure Database.Fresh (s : Database) : Prop where
  direct : ∀ nodeId node, s.nodes.lookup nodeId = some node → node.controlMode = .directPrimary
  batches : s.batches = ∅
  log : s.log = []
  agents : ∀ agentId agent, s.agents.lookup agentId = some agent → agent.lastAckSequence = 0

section Accounting

variable {s s' : Database} {nodeId bootId : String} {ack : Nat}

theorem Database.mem_sequencesOf {sequence : Nat} :
    sequence ∈ s.sequencesOf nodeId bootId ↔ ⟨nodeId, bootId, sequence⟩ ∈ s.accountedKeys := by
  unfold sequencesOf
  simp only [List.mem_map, List.mem_filter, Bool.and_eq_true, decide_eq_true_eq]
  constructor
  · rintro ⟨key, ⟨hkey, rfl, rfl⟩, rfl⟩
    exact hkey
  · exact fun h => ⟨_, ⟨h, rfl, rfl⟩, rfl⟩

namespace Accounting

theorem of_fresh (h : s.Fresh) : Accounting s where
  direct := by
    intro nodeId mode hmode
    obtain ⟨node, hnode, rfl⟩ := Option.map_eq_some_iff.1 hmode
    exact h.direct nodeId node hnode
  marked := by
    intro key
    simp [Database.accountedKeys, h.log, h.batches]
  inOrder := fun nodeId bootId => ⟨0, by simp [Database.sequencesOf, Database.accountedKeys, h.log]⟩
  acked := fun agentId agent hagent => NodeAgent.acked_of_zero (h.agents agentId agent hagent)

theorem frame (hframe : Frame s s') (h : Accounting s) : Accounting s' where
  direct := fun nodeId mode hmode => h.direct nodeId mode (hframe.modes nodeId ▸ hmode)
  marked := fun key => by
    rw [hframe.accountedKeys, hframe.batches]
    exact h.marked key
  inOrder := fun nodeId bootId => by
    unfold Database.sequencesOf
    rw [hframe.accountedKeys]
    exact h.inOrder nodeId bootId
  acked := h.acked.mono hframe.agents fun _ _ hkey => hframe.accountedKeys ▸ hkey

/-- Only the credentials change. -/
theorem of_agents {agents : Table String NodeAgent} (h : Accounting s)
    (hagents : Database.Acks { s with agents } fun _ => (· ∈ s.accountedKeys)) :
    Accounting { s with agents } where
  direct := h.direct
  marked := h.marked
  inOrder := h.inOrder
  acked := hagents

/-- The accounted batches are pairwise different. -/
theorem nodup (h : Accounting s) : s.accountedKeys.Nodup := by
  rw [List.nodup_iff_count_le_one]
  intro key
  obtain ⟨n, hn⟩ := h.inOrder key.nodeId key.bootId
  have hcount : s.accountedKeys.count key ≤ (s.sequencesOf key.nodeId key.bootId).count
      key.sequence := by
    unfold Database.sequencesOf
    have hfilter : s.accountedKeys.count key = (s.accountedKeys.filter fun k =>
        k.nodeId = key.nodeId && k.bootId = key.bootId).count key := by
      rw [List.count_filter]
      simp
    rw [hfilter]
    exact List.count_le_count_map
  refine hcount.trans ?_
  rw [hn]
  exact List.nodup_iff_count_le_one.1 List.nodup_range' key.sequence

/-! ## The scan -/

/-- The first batch above what is covered is the next one to be accounted. -/
theorem sequencesOf_eq (h : Accounting s) (hcovered : s.Covered nodeId bootId ack)
    (hnext : ⟨nodeId, bootId, ack + 1⟩ ∉ s.accountedKeys) :
    s.sequencesOf nodeId bootId = List.range' 1 ack := by
  obtain ⟨n, hn⟩ := h.inOrder nodeId bootId
  have hmem : ∀ sequence, ⟨nodeId, bootId, sequence⟩ ∈ s.accountedKeys ↔
      1 ≤ sequence ∧ sequence < 1 + n := by
    intro sequence
    rw [← Database.mem_sequencesOf, hn, List.mem_range'_1]
  -- The run of accounted sequences is at least `ack` long, and `ack + 1` is not in it.
  have hlower : ack ≤ n := by
    rcases Nat.eq_zero_or_pos ack with rfl | hpos
    · exact Nat.zero_le n
    · have := (hmem ack).1 (hcovered ack hpos le_rfl)
      omega
  have hupper : n ≤ ack := by
    by_contra hlt
    exact hnext ((hmem (ack + 1)).2 ⟨by omega, by omega⟩)
  rw [hn, Nat.le_antisymm hupper hlower]

/-- One batch is applied and marked. -/
theorem accountBatch (h : Accounting s) {agentId : String} {key : BatchKey} {batch : StoredBatch}
    {applied : Application} (hcovered : s.Covered key.nodeId key.bootId ack)
    (hnext : key.sequence = ack + 1) (hrow : s.batches.lookup key = some batch)
    (hopen : batch.accounted = false)
    (hrun : Api.accountBatch agentId key batch s = .ok (applied, s')) :
    Accounting s' ∧ s'.agents = s.agents ∧ s'.accountedKeys = s.accountedKeys ++ [key] ∧
      ∀ other, other ≠ key → s'.batches.lookup other = s.batches.lookup other := by
  obtain ⟨⟨applied', s₁⟩, happly, hrun⟩ := bind_eq_ok.1 hrun
  cases hrun
  have hframe := applyDirectBatch_frame happly
  have h₁ := h.frame hframe
  have hfresh : key ∉ s.accountedKeys := by
    intro hmem
    obtain ⟨row, hrow', haccounted⟩ := (h.marked key).1 hmem
    rw [hrow] at hrow'
    cases hrow'
    rw [hopen] at haccounted
    cases haccounted
  have hkeys : (Database.accountedKeys { s₁ with
      batches := s₁.batches.modify key ({ · with accounted := true })
      log := s₁.log ++ [.accounted key] }) = s.accountedKeys ++ [key] := by
    rw [← hframe.accountedKeys]
    simp [Database.accountedKeys, Event.accountedKey]
  refine ⟨⟨h₁.direct, ?_, ?_, ?_⟩, hframe.agents, hkeys, ?_⟩
  · intro other
    rw [hkeys, List.mem_append, List.mem_singleton, h.marked other]
    simp only [Table.lookup_modify, hframe.batches]
    by_cases hother : other = key
    · subst hother
      simp [hrow]
    · simp [hother]
  · intro nodeId bootId
    obtain ⟨n, hn⟩ := h.inOrder nodeId bootId
    unfold Database.sequencesOf at hn ⊢
    rw [hkeys, List.filter_append, List.map_append, hn]
    by_cases hboot : key.nodeId = nodeId ∧ key.bootId = bootId
    · obtain ⟨rfl, rfl⟩ := hboot
      have hseq := h.sequencesOf_eq hcovered (hnext ▸ hfresh)
      have hn' : n = ack := by
        have := congrArg List.length (hn.symm.trans hseq)
        simpa using this
      refine ⟨ack + 1, ?_⟩
      simp [hn', hnext, List.range'_concat, Nat.add_comm]
    · refine ⟨n, ?_⟩
      have : (decide (key.nodeId = nodeId) && decide (key.bootId = bootId)) = false := by
        simpa using hboot
      simp [this]
  · refine h.acked.mono hframe.agents fun _ _ hkey => ?_
    rw [hkeys]
    exact List.mem_append_left _ hkey
  · intro other hother
    rw [Table.lookup_modify_ne _ _ hother, hframe.batches]

/-- The loop of the scan.  The rows still to come are as they were read, and they are the
rows of one boot. -/
theorem accountFrom (h : Accounting s) {agentId : String} {scan scan' : Scan}
    {rest : List (BatchKey × StoredBatch)} (hcovered : s.Covered nodeId bootId scan.ackThrough)
    (hrows : ∀ p ∈ rest, s.batches.lookup p.1 = some p.2 ∧ p.1.nodeId = nodeId ∧
      p.1.bootId = bootId) (hnodup : (rest.map Prod.fst).Nodup)
    (hrun : Api.accountFrom agentId scan rest s = .ok (scan', s')) :
    Accounting s' ∧ s'.agents = s.agents ∧ s.accountedKeys <+: s'.accountedKeys ∧
      s'.Covered nodeId bootId scan'.ackThrough := by
  induction rest generalizing s scan with
  | nil =>
    cases hrun
    exact ⟨h, rfl, List.prefix_refl _, hcovered⟩
  | cons p rest ih =>
    obtain ⟨key, batch⟩ := p
    obtain ⟨hrow, hnode, hboot⟩ := hrows _ List.mem_cons_self
    dsimp only at hrow hnode hboot
    subst hnode hboot
    rw [List.map_cons, List.nodup_cons] at hnodup
    have hrest : ∀ q ∈ rest, q.1 ≠ key := fun q hq heq =>
      hnodup.1 (List.mem_map.2 ⟨q, hq, heq⟩)
    unfold Api.accountFrom at hrun
    split at hrun
    · -- The scan stops at the first gap.
      cases hrun
      exact ⟨h, rfl, List.prefix_refl _, hcovered⟩
    next hnext =>
    rw [not_not] at hnext
    split at hrun
    · next haccounted =>
      have hkey : key ∈ s.accountedKeys := (h.marked key).2 ⟨batch, hrow, haccounted⟩
      refine ih h ?_ (fun q hq => hrows q (List.mem_cons_of_mem _ hq)) hnodup.2 hrun
      dsimp only
      rw [hnext]
      exact hcovered.succ (hnext ▸ hkey)
    next hopen =>
    obtain ⟨⟨applied, s₁⟩, hone, hrun⟩ := bind_eq_ok.1 hrun
    obtain ⟨h₁, hagents, hkeys, hothers⟩ :=
      h.accountBatch hcovered hnext hrow (Bool.eq_false_iff.2 hopen) hone
    have hgrows : s.accountedKeys <+: s₁.accountedKeys := ⟨[key], hkeys.symm⟩
    have hkey : key ∈ s₁.accountedKeys :=
      hkeys ▸ List.mem_append_right _ (List.mem_singleton_self key)
    obtain ⟨h', hagents', hgrows', hcovered'⟩ := ih h₁ (by
        dsimp only
        rw [hnext]
        exact (hcovered.mono fun _ hmem => hgrows.subset hmem).succ (hnext ▸ hkey))
      (fun q hq => by
        rw [hothers q.1 (hrest q hq)]
        exact hrows q (List.mem_cons_of_mem _ hq)) hnodup.2 hrun
    exact ⟨h', hagents'.trans hagents, hgrows.trans hgrows', hcovered'⟩

theorem processBatches (h : Accounting s) {agentId : String} {scan : Scan}
    (hcovered : s.Covered nodeId bootId ack)
    (hrun : Api.processBatches agentId nodeId bootId ack s = .ok (scan, s')) :
    Accounting s' ∧ s'.agents = s.agents ∧ s.accountedKeys <+: s'.accountedKeys ∧
      s'.Covered nodeId bootId scan.ackThrough := by
  obtain ⟨node, hnode, hrun⟩ := bind_eq_ok.1 hrun
  have hmode := h.direct nodeId node.controlMode (by rw [find_eq_ok.1 hnode]; rfl)
  rw [if_pos hmode] at hrun
  refine h.accountFrom hcovered (fun p hp => ?_) ?_ hrun
  · obtain ⟨hrow, -, hnode, hboot, -⟩ := mem_batchesAbove.1 (List.mem_of_mem_take hp)
    exact ⟨hrow, hnode, hboot⟩
  rw [List.map_take]
  exact (nodup_batchesAbove s agentId nodeId bootId ack).sublist (List.take_sublist _ _)

/-! ## Requests -/

/-- A stored batch is not accounted yet. -/
theorem storeBatch (h : Accounting s) {payloadHash : UsageBatch → String} {agentId : String}
    {batch : UsageBatch} (hrun : Api.storeBatch payloadHash agentId nodeId batch s = .ok s') :
    Accounting s' ∧ s'.agents = s.agents ∧ s'.accountedKeys = s.accountedKeys := by
  unfold Api.storeBatch at hrun
  split at hrun
  · split at hrun
    · cases hrun
      exact ⟨h, rfl, rfl⟩
    · cases hrun
  next habsent =>
  cases hrun
  refine ⟨⟨h.direct, fun key => ?_, h.inOrder, h.acked⟩, rfl, rfl⟩
  refine (h.marked key).trans ?_
  simp only [Table.lookup_insert_ite]
  by_cases hkey : key = batchKey nodeId batch
  · subst hkey
    simp [habsent]
  · simp [hkey]

/-- An upload leaves a row that answers for its boot. -/
theorem ingestTx (h : Accounting s) {payloadHash : UsageBatch → String} {agentId : String}
    {batch : UsageBatch} {scan : Scan} (hboot : batch.bootId ≠ "")
    (hrun : Api.ingestTx payloadHash agentId batch s = .ok (scan, s')) :
    Accounting s' ∧ s.accountedKeys <+: s'.accountedKeys ∧
      ∃ agent, s'.agents.lookup agentId = some agent ∧
        s'.Covered agent.nodeId batch.bootId scan.ackThrough := by
  obtain ⟨agent, s₁, s₂, hrow, -, hstore, hprocess, rfl⟩ := ingestTx_eq_ok hrun
  obtain ⟨h₁, -, hkeys₁⟩ := h.storeBatch hstore
  have hstart : s₁.Covered agent.nodeId batch.bootId
      (agent.uploading batch.bootId).lastAckSequence :=
    (h.acked agentId agent hrow batch.bootId).mono fun _ hkey => hkeys₁ ▸ hkey
  obtain ⟨h₂, -, hgrows, hcovered⟩ := h₁.processBatches hstart hprocess
  rw [← agent.uploading_nodeId batch.bootId] at hcovered
  exact ⟨h₂.of_agents (h₂.acked.insert (NodeAgent.acked_of_boot rfl hboot hcovered)),
    hkeys₁ ▸ hgrows, _, AList.lookup_insert _, hcovered⟩

theorem heartbeat (h : Accounting s) {agentId : String} {through : Nat} (hboot : bootId ≠ "")
    (hrun : Api.heartbeat agentId bootId s = .ok (through, s')) :
    Accounting s' ∧ s'.accountedKeys = s.accountedKeys ∧
      ∃ agent, s'.agents.lookup agentId = some agent ∧ s'.Covered agent.nodeId bootId through := by
  obtain ⟨hacks, hthrough⟩ := h.acked.heartbeat hboot hrun
  obtain ⟨agent, -, hrun⟩ := bind_eq_ok.1 hrun
  obtain ⟨-, -, hrun⟩ := bind_eq_ok.1 hrun
  obtain ⟨-, -, hrun⟩ := bind_eq_ok.1 hrun
  cases hrun
  exact ⟨h.of_agents hacks, rfl, hthrough⟩

/-- Every request keeps the invariant. -/
theorem preserved (payloadHash : UsageBatch → String) (request : Request) :
    request.Preserved payloadHash Accounting := by
  cases request with
  | heartbeat agentId bootId => exact fun hboot s a s' h hrun => (h.heartbeat hboot hrun).1
  | upload agentId batch => exact fun hboot _ s a s' h hrun => (h.ingestTx hboot hrun).1
  | createCredential nodeId agentId =>
    intro s a s' h hrun
    have hacks := h.acked.createCredential hrun
    obtain ⟨-, -, hrun⟩ := bind_eq_ok.1 hrun
    obtain ⟨s₁, hnew, hrun⟩ := bind_eq_ok.1 hrun
    cases hrun
    obtain ⟨-, -, hnew⟩ := bind_eq_ok.1 hnew
    cases hnew
    exact h.of_agents hacks
  | revokeCredential nodeId agentId =>
    intro s a s' h hrun
    have hacks := h.acked.revokeCredential hrun
    obtain ⟨agent, -, hrun⟩ := bind_eq_ok.1 hrun
    obtain ⟨-, -, hrun⟩ := bind_eq_ok.1 hrun
    cases hrun
    exact h.of_agents hacks
  | register nodeId agentId bootId =>
    intro _ s a s' h hrun
    have hacks := h.acked.registerAgent hrun
    obtain ⟨-, -, hrun⟩ := bind_eq_ok.1 hrun
    obtain ⟨s₁, hnew, hrun⟩ := bind_eq_ok.1 hrun
    cases hrun
    obtain ⟨-, -, hnew⟩ := bind_eq_ok.1 hnew
    cases hnew
    exact h.of_agents hacks
  | _ => exact Request.preserved_of_frame (fun _ _ hframe h => h.frame hframe) rfl

theorem run (h : Accounting s) (payloadHash : UsageBatch → String) (steps : List Step) :
    Accounting (s.run payloadHash steps) :=
  Database.run_preserved h steps fun step _ => preserved payloadHash step.1

/-- The answer of a request covers the batches it acknowledges. -/
theorem acknowledged (h : Accounting s)
    (payloadHash : UsageBatch → String) {step : Step} {ack : Ack}
    (hreply : s.reply payloadHash step = some ack) :
    ∃ agent, (s.step payloadHash step).agents.lookup ack.agentId = some agent ∧
      (s.step payloadHash step).Covered agent.nodeId ack.bootId ack.ackThrough := by
  obtain ⟨request, fates⟩ := step
  have hresult : result? (request.program payloadHash) s fates = some (some ack) :=
    Option.join_eq_some_iff.1 hreply
  -- The answer is read off the transaction that made it.
  have htriple : Triple Accounting (request.program payloadHash) (fun answer t =>
      ∀ ack, answer = some ack → ∃ agent, t.agents.lookup ack.agentId = some agent ∧
        t.Covered agent.nodeId ack.bootId ack.ackThrough) fun _ => True := by
    cases request with
    | heartbeat agentId bootId =>
      refine Triple.bind (Triple.ensure fun _ _ => trivial) fun _ => Triple.lift fun hboot => ?_
      refine Triple.bind (S := fun through t => ∃ agent, t.agents.lookup agentId = some agent ∧
        t.Covered agent.nodeId bootId through) (Triple.atomic ?_ fun _ _ => trivial)
        fun through => ?_
      · exact fun t a t' ht hrun => ⟨(ht.heartbeat (of_decide_eq_true hboot) hrun).2.2, trivial⟩
      · refine Triple.pure fun t ht ack hack => ?_
        cases hack
        exact ht
    | upload agentId batch =>
      refine Triple.bind (Triple.ensure fun _ _ => trivial) fun _ => Triple.lift fun hvalid => ?_
      have hboot := (of_decide_eq_true hvalid).1
      refine Triple.bind (S := fun through t => ∃ agent, t.agents.lookup agentId = some agent ∧
        t.Covered agent.nodeId batch.bootId through) ?_ fun through => ?_
      · refine Triple.bind (S := fun scan t => ∃ agent, t.agents.lookup agentId = some agent ∧
          t.Covered agent.nodeId batch.bootId scan.ackThrough) ?_ fun scan =>
            Triple.pure fun _ ht => ht
        refine (triple_withSerializableRetry (I := Accounting)
          (Triple.atomic ?_ fun _ ht => ht) 2).conseq
          (fun _ ht => ht) (fun _ _ ht => ht) fun _ _ => trivial
        exact fun t a t' ht hrun => ⟨(ht.ingestTx hboot hrun).2.2, (ht.ingestTx hboot hrun).1⟩
      · refine Triple.pure fun t ht ack hack => ?_
        cases hack
        exact ht
    | register nodeId agentId bootId =>
      refine Triple.bind (Triple.ensure fun _ _ => trivial) fun _ => ?_
      exact triple_silently
    | _ => exact triple_silently
  exact htriple.of_result h hresult ack rfl

end Accounting

end Accounting

end ChordV.Api
