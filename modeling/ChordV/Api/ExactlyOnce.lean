import ChordV.Agent.Outbox
import ChordV.Api.Accounting

/-!
# Exactly-once accounting

The accounting invariant, put together with the acknowledgements an agent acts on.  The
requests come in any order: uploads may be repeated, reordered, leave gaps, switch between
boots and credentials, and be rolled back or lose their answers.
-/

namespace ChordV.Api

open Lib

/-- The batches an agent drops for an acknowledgement are covered by it. -/
theorem Database.Covered.dropped {s : Database} {nodeId bootId : String} {ack : Nat}
    (h : s.Covered nodeId bootId ack) {w : Agent.World} (hw : Agent.Numbered w) {batch : UsageBatch}
    (hbatch : batch ∈ w.store.batches)
    (hdropped : batch ∉ (w.store.ackThrough bootId ack).2.batches) :
    batchKey nodeId batch ∈ s.accountedKeys := by
  have hacked : batch.bootId = bootId ∧ batch.sequence ≤ ack := by
    by_contra hkeep
    refine hdropped (List.mem_filter.2 ⟨hbatch, ?_⟩)
    simpa [Decidable.imp_iff_not_or] using hkeep
  have hkey : batchKey nodeId batch = ⟨nodeId, bootId, batch.sequence⟩ := by
    rw [batchKey, hacked.1]
  rw [hkey]
  exact h batch.sequence (hw.batches batch hbatch) hacked.2

/-- In every run from a fresh database, a batch is applied at most once, the batches of a
boot are applied as `1, 2, 3, …`, and an answered acknowledgement covers applied batches only.
So no node drops a batch that was not applied, whatever it did before. -/
theorem usage_is_accounted_exactly_once (payloadHash : UsageBatch → String) (s : Database)
    (hs : s.Fresh) (steps : List Step) :
    (s.run payloadHash steps).accountedKeys.Nodup ∧
    (∀ nodeId bootId, ∃ n, (s.run payloadHash steps).sequencesOf nodeId bootId = List.range' 1 n) ∧
    ∀ step ack, (s.run payloadHash steps).reply payloadHash step = some ack →
      ∃ agent, (s.run payloadHash (steps ++ [step])).agents.lookup ack.agentId = some agent ∧
        (∀ sequence, 1 ≤ sequence → sequence ≤ ack.ackThrough →
          ⟨agent.nodeId, ack.bootId, sequence⟩ ∈
            (s.run payloadHash (steps ++ [step])).accountedKeys) ∧
        ∀ (deps : Agent.Deps) (w : Agent.World) (agentSteps : List Agent.Step),
          w.store.batches = [] → w.store.nextSequence = ∅ →
          ∀ batch ∈ (w.run deps agentSteps).store.batches,
            batch ∉ ((w.run deps agentSteps).store.ackThrough ack.bootId ack.ackThrough).2.batches →
            batchKey agent.nodeId batch ∈
              (s.run payloadHash (steps ++ [step])).accountedKeys := by
  have h := (Accounting.of_fresh hs).run payloadHash steps
  refine ⟨h.nodup, h.inOrder, fun step ack hreply => ?_⟩
  have hstep : s.run payloadHash (steps ++ [step]) =
      (s.run payloadHash steps).step payloadHash step := by
    unfold Database.run
    rw [List.foldl_append]
    rfl
  rw [hstep]
  obtain ⟨agent, hagent, hcovered⟩ := h.acknowledged payloadHash hreply
  refine ⟨agent, hagent, hcovered, fun deps w agentSteps hbatches hnext batch hbatch hdropped => ?_⟩
  have hempty : Agent.Numbered w := by
    refine ⟨fun batch hmem => ?_, fun bootId sequence hlookup => ?_⟩
    · rw [hbatches] at hmem
      cases hmem
    · rw [hnext] at hlookup
      cases hlookup
  exact hcovered.dropped (hempty.run deps agentSteps) hbatch hdropped

namespace ExactlyOnce

/-- A node with one credential. -/
def start : Database :=
  { nodes := (∅ : Table String Node).insert "node" {}
    agents := (∅ : Table String NodeAgent).insert "agent" { nodeId := "node" } }

/-- A batch without samples. -/
def batch (sequence : Nat) : UsageBatch :=
  { bootId := "boot", sequence, sampledAt := 0, samples := [] }

/-- The second batch arrives first, and the first upload of the first one loses its answer. -/
def steps : List Step :=
  [(.upload "agent" (batch 2), []), (.upload "agent" (batch 1), [.refuse, .lose])]

theorem start_fresh : start.Fresh where
  direct := by
    intro nodeId node hnode
    rw [start, Table.lookup_insert_ite] at hnode
    split at hnode
    · cases hnode
      rfl
    · cases hnode
  batches := rfl
  log := rfl
  agents := by
    intro agentId agent hagent
    rw [start, Table.lookup_insert_ite] at hagent
    split at hagent
    · cases hagent
      rfl
    · cases hagent

end ExactlyOnce

open ExactlyOnce in
/-- After a lost answer the heartbeat acknowledges both batches, and each was applied once. -/
theorem usage_is_accounted_exactly_once_two :
    (start.run (fun _ => "") steps).accountedKeys =
    [batchKey "node" (batch 1), batchKey "node" (batch 2)] ∧
    (start.run (fun _ => "") steps).reply (fun _ => "") (.heartbeat "agent" "boot", []) =
      some ⟨"agent", "boot", 2⟩ ∧
    ∃ agent : NodeAgent, ∀ sequence, 1 ≤ sequence → sequence ≤ 2 →
      ⟨agent.nodeId, "boot", sequence⟩ ∈ (start.run (fun _ => "")
        (steps ++ [(.heartbeat "agent" "boot", [])])).accountedKeys := by
  refine ⟨by decide +kernel, by decide +kernel, ?_⟩
  obtain ⟨agent, -, hcovered, -⟩ := (usage_is_accounted_exactly_once (fun _ => "") start start_fresh
    steps).2.2 (.heartbeat "agent" "boot", []) ⟨"agent", "boot", 2⟩ (by decide +kernel)
  exact ⟨agent, hcovered⟩

end ChordV.Api
