import ChordV.Api.Frames

/-!
# Acknowledged sequences

A credential remembers the boot it speaks for and the sequence up to which the batches of
this boot are acknowledged.  Another boot starts from zero.  This file says what the
requests that move these two columns keep, for any property of batches.

* `Through P nodeId bootId ack`: the batches `1, …, ack` of the boot have the property.
* `agent.Acked P`: whatever boot the agent speaks with, the sequence an upload starts from
  is reached by batches with the property.
* `s.Acks P`: every credential is acked, each for its own property.
-/

namespace ChordV.Api

open Lib Fallible

/-- The batches `1, …, ack` of a boot have a property. -/
def Through (P : BatchKey → Prop) (nodeId bootId : String) (ack : Nat) : Prop :=
  ∀ sequence, 1 ≤ sequence → sequence ≤ ack → P ⟨nodeId, bootId, sequence⟩

namespace Through

variable {P Q : BatchKey → Prop} {nodeId bootId : String} {ack : Nat}

theorem mono (h : Through P nodeId bootId ack) (hPQ : ∀ key, P key → Q key) :
    Through Q nodeId bootId ack := fun sequence hone hle => hPQ _ (h sequence hone hle)

theorem le (h : Through P nodeId bootId ack) {less : Nat} (hle : less ≤ ack) :
    Through P nodeId bootId less := fun sequence hone hless => h sequence hone (hless.trans hle)

theorem zero : Through P nodeId bootId 0 := fun _ hone hle => absurd (hone.trans hle) (by decide)

/-- The next batch extends the run. -/
theorem succ (h : Through P nodeId bootId ack) (hnext : P ⟨nodeId, bootId, ack + 1⟩) :
    Through P nodeId bootId (ack + 1) := by
  intro sequence hone hle
  rcases Nat.lt_or_ge ack sequence with hlt | hge
  · obtain rfl : sequence = ack + 1 := by omega
    exact hnext
  · exact h sequence hone hge

end Through

/-! ## One credential -/

namespace NodeAgent

variable {agent : NodeAgent} {P Q : BatchKey → Prop} {bootId : String}

/-- Whatever boot the agent speaks with, the sequence it starts from is reached by batches
with the property. -/
def Acked (agent : NodeAgent) (P : BatchKey → Prop) : Prop :=
  ∀ bootId, Through P agent.nodeId bootId (agent.uploading bootId).lastAckSequence

theorem Acked.mono (h : agent.Acked P) (hPQ : ∀ key, P key → Q key) : agent.Acked Q :=
  fun boot => (h boot).mono hPQ

theorem uploading_lastAck (agent : NodeAgent) (bootId : String) :
    (agent.uploading bootId).lastAckSequence = agent.lastAckSequence ∨
      (agent.uploading bootId).lastAckSequence = 0 := by
  unfold uploading
  split
  · exact .inl rfl
  · exact .inl rfl
  · split
    · exact .inl rfl
    · exact .inr rfl

@[simp] theorem uploading_nodeId (agent : NodeAgent) (bootId : String) :
    (agent.uploading bootId).nodeId = agent.nodeId := by
  unfold uploading
  split
  · rfl
  · rfl
  · split <;> rfl

@[simp] theorem uploading_revoked (agent : NodeAgent) (bootId : String) :
    (agent.uploading bootId).revoked = agent.revoked := by
  unfold uploading
  split
  · rfl
  · rfl
  · split <;> rfl

/-- A row that speaks for the boot of an upload stays as it is. -/
theorem uploading_of_boot (hboot : agent.bootId = some bootId) :
    agent.uploading bootId = agent := by
  unfold uploading
  rw [hboot]
  split
  · rfl
  · rfl
  · next heq =>
    rw [if_pos]
    exact (Option.some.inj heq).symm

theorem acked_of_zero (h : agent.lastAckSequence = 0) : agent.Acked P := by
  intro boot
  have hzero : (agent.uploading boot).lastAckSequence = 0 := by
    rcases agent.uploading_lastAck boot with heq | heq
    · rw [heq, h]
    · exact heq
  rw [hzero]
  exact Through.zero

/-- A row that speaks for a boot answers for this boot only. -/
theorem acked_of_boot (hboot : agent.bootId = some bootId) (hne : bootId ≠ "")
    (h : Through P agent.nodeId bootId agent.lastAckSequence) : agent.Acked P := by
  intro other
  unfold uploading
  rw [hboot]
  split
  · next heq => cases heq
  · next heq => exact absurd (Option.some.inj heq) hne
  · next boot _ heq =>
    cases heq
    split
    · next heq => exact heq ▸ h
    · exact Through.zero

/-- A heartbeat never answers more than an upload would start from. -/
theorem onBoot_lastAck_le (agent : NodeAgent) (bootId : String) :
    (agent.onBoot bootId).lastAckSequence ≤ (agent.uploading bootId).lastAckSequence := by
  unfold onBoot uploading
  split
  · next heq =>
    rw [heq]
    split <;> simp_all
  · exact Nat.zero_le _

theorem onBoot_bootId (agent : NodeAgent) (bootId : String) :
    (agent.onBoot bootId).bootId = some bootId := by
  unfold onBoot
  split
  · next heq => exact heq
  · rfl

@[simp] theorem onBoot_nodeId (agent : NodeAgent) (bootId : String) :
    (agent.onBoot bootId).nodeId = agent.nodeId := by
  unfold onBoot
  split <;> rfl

@[simp] theorem onBoot_revoked (agent : NodeAgent) (bootId : String) :
    (agent.onBoot bootId).revoked = agent.revoked := by
  unfold onBoot
  split <;> rfl

/-- Revoking changes no acknowledgement. -/
theorem Acked.revoke (h : agent.Acked P) : { agent with revoked := true }.Acked P := by
  intro boot
  have hthrough := h boot
  unfold uploading at hthrough ⊢
  dsimp only at hthrough ⊢
  split at hthrough <;> simp_all
  split at hthrough <;> simp_all

end NodeAgent

/-! ## All credentials -/

/-- Every credential is acked, each for its own property. -/
def Database.Acks (s : Database) (P : String → BatchKey → Prop) : Prop :=
  ∀ agentId agent, s.agents.lookup agentId = some agent → agent.Acked (P agentId)

namespace Database.Acks

variable {s s' : Database} {P Q : String → BatchKey → Prop} {agentId nodeId bootId : String}

theorem mono (h : s.Acks P) (hagents : s'.agents = s.agents)
    (hPQ : ∀ agentId key, P agentId key → Q agentId key) : s'.Acks Q :=
  fun id agent hagent => (h id agent (hagents ▸ hagent)).mono (hPQ id)

/-- One credential gets a row that is acked. -/
theorem insert (h : s.Acks P) {agent : NodeAgent} (hagent : agent.Acked (P agentId)) :
    Acks { s with agents := s.agents.insert agentId agent } P := by
  intro id row hid
  dsimp only at hid
  rw [Table.lookup_insert_ite] at hid
  split at hid
  · next heq =>
    cases hid
    exact heq ▸ hagent
  · exact h id row hid

theorem revoke {agents : Table String NodeAgent} (h : Acks { s with agents } P) (id : String) :
    Acks { s with agents := agents.modify id ({ · with revoked := true }) } P := by
  intro other row hrow
  dsimp only at hrow
  rw [Table.lookup_modify] at hrow
  split at hrow
  · next heq =>
    obtain ⟨agent, hagent, rfl⟩ := Option.map_eq_some_iff.1 hrow
    subst heq
    exact (h other agent hagent).revoke
  · exact h other row hrow

theorem heartbeat (h : s.Acks P) {through : Nat} (hboot : bootId ≠ "")
    (hrun : Api.heartbeat agentId bootId s = .ok (through, s')) :
    s'.Acks P ∧ ∃ agent, s'.agents.lookup agentId = some agent ∧
      Through (P agentId) agent.nodeId bootId through := by
  obtain ⟨agent, hfind, hrun⟩ := bind_eq_ok.1 hrun
  obtain ⟨-, -, hrun⟩ := bind_eq_ok.1 hrun
  obtain ⟨-, -, hrun⟩ := bind_eq_ok.1 hrun
  cases hrun
  have hthrough : Through (P agentId) agent.nodeId bootId (agent.onBoot bootId).lastAckSequence :=
    (h agentId agent (find_eq_ok.1 hfind) bootId).le (agent.onBoot_lastAck_le bootId)
  refine ⟨h.insert ?_, _, AList.lookup_insert _, ?_⟩
  · refine NodeAgent.acked_of_boot (agent.onBoot_bootId bootId) hboot ?_
    simpa using hthrough
  · rw [NodeAgent.onBoot_nodeId]
    exact hthrough

theorem createCredential (h : s.Acks P)
    (hrun : Api.createCredential nodeId agentId s = .ok ((), s')) : s'.Acks P := by
  obtain ⟨-, -, hrun⟩ := bind_eq_ok.1 hrun
  obtain ⟨s₁, hnew, hrun⟩ := bind_eq_ok.1 hrun
  cases hrun
  obtain ⟨-, -, hnew⟩ := bind_eq_ok.1 hnew
  cases hnew
  have hrevoked : (revokeAll nodeId s).Acks P :=
    List.foldlRecOn (motive := fun agents : Table String NodeAgent => Acks { s with agents } P)
      _ _ h fun _ hagents id _ => hagents.revoke id
  exact hrevoked.insert (NodeAgent.acked_of_zero rfl)

theorem revokeCredential (h : s.Acks P)
    (hrun : Api.revokeCredential nodeId agentId s = .ok ((), s')) : s'.Acks P := by
  obtain ⟨agent, -, hrun⟩ := bind_eq_ok.1 hrun
  obtain ⟨-, -, hrun⟩ := bind_eq_ok.1 hrun
  cases hrun
  exact h.revoke agentId

theorem registerAgent (h : s.Acks P)
    (hrun : Api.registerAgent nodeId agentId bootId s = .ok ((), s')) : s'.Acks P := by
  obtain ⟨-, -, hrun⟩ := bind_eq_ok.1 hrun
  obtain ⟨s₁, hnew, hrun⟩ := bind_eq_ok.1 hrun
  cases hrun
  obtain ⟨-, -, hnew⟩ := bind_eq_ok.1 hnew
  cases hnew
  exact h.insert (NodeAgent.acked_of_zero rfl)

end Database.Acks

/-! ## What the scan of an upload reads -/

section Scan

variable {s : Database} {agentId nodeId bootId : String} {ack : Nat}

/-- The rows the scan reads are the stored ones of the boot and the credential. -/
theorem mem_batchesAbove {p : BatchKey × StoredBatch} :
    p ∈ batchesAbove s agentId nodeId bootId ack ↔ s.batches.lookup p.1 = some p.2 ∧
      p.2.agentId = agentId ∧ p.1.nodeId = nodeId ∧ p.1.bootId = bootId ∧ ack < p.1.sequence := by
  unfold batchesAbove
  rw [List.mem_insertionSort, List.mem_filter, Table.mem_pairs]
  simp only [Bool.and_eq_true, decide_eq_true_eq, and_assoc]

theorem nodup_batchesAbove (s : Database) (agentId nodeId bootId : String) (ack : Nat) :
    ((batchesAbove s agentId nodeId bootId ack).map Prod.fst).Nodup := by
  unfold batchesAbove
  refine ((List.perm_insertionSort _ _).map Prod.fst).nodup_iff.2 ?_
  exact s.batches.nodup_keys.sublist (List.filter_sublist.map Prod.fst)

end Scan

/-! ## Uploads -/

/-- The parts of an upload: the credential, the stored batch, the scan, and the row that
answers for the boot. -/
theorem ingestTx_eq_ok {s s' : Database} {payloadHash : UsageBatch → String} {agentId : String}
    {batch : UsageBatch} {scan : Scan} (h : ingestTx payloadHash agentId batch s = .ok (scan, s')) :
    ∃ agent s₁ s₂, s.agents.lookup agentId = some agent ∧ agent.revoked = false ∧
      storeBatch payloadHash agentId agent.nodeId batch s = .ok s₁ ∧
      processBatches agentId agent.nodeId batch.bootId
        (agent.uploading batch.bootId).lastAckSequence s₁ = .ok (scan, s₂) ∧
      s' = { s₂ with agents := s₂.agents.insert agentId { agent.uploading batch.bootId with
        bootId := some batch.bootId
        lastSequence := max (agent.uploading batch.bootId).lastSequence batch.sequence
        lastAckSequence := scan.ackThrough, lastSeenAt := some s₂.clock } } := by
  obtain ⟨agent, hagent, h⟩ := bind_eq_ok.1 h
  obtain ⟨found, hfind, hcurrent⟩ := bind_eq_ok.1 hagent
  obtain ⟨_, hrevoked, hcurrent⟩ := bind_eq_ok.1 hcurrent
  obtain rfl : found = agent := by cases hcurrent; rfl
  obtain ⟨s₁, hstore, h⟩ := bind_eq_ok.1 h
  obtain ⟨⟨scan', s₂⟩, hprocess, h⟩ := bind_eq_ok.1 h
  cases h
  rw [NodeAgent.uploading_nodeId] at hstore hprocess
  exact ⟨found, s₁, s₂, find_eq_ok.1 hfind, require_eq_ok.1 hrevoked, hstore, hprocess, rfl⟩

end ChordV.Api
