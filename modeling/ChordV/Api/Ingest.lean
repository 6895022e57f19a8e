import ChordV.Api.Metering

/-!
# Heartbeats and uploads

The requests of an agent that move the acknowledgement, from
`apps/api/src/modules/agent/agent.service.ts`: `heartbeat`, `ingestUsageBatch` with its
scan over the stored batches, and the credentials they are checked against.

A heartbeat holds the lock of its node between its read and its write, so it is one
action.  An upload is one serializable transaction that is tried up to three times.  The
fate of each attempt is up to the database: it may run, be rolled back, or be committed
with its answer lost, in which case the upload is tried again on the new state.
-/

namespace ChordV.Api

open Lib Fallible

/-! ## Credentials -/

/-- The credential of a request: it exists and is not revoked. -/
def currentAgent (agentId : String) (s : Database) : Except ApiError NodeAgent := do
  let agent ← find s.agents agentId .agentRevoked
  require (agent.revoked = false) .agentRevoked
  return agent

/-- Revoke the credentials of a node that are not revoked yet. -/
def revokeAll (nodeId : String) (s : Database) : Database :=
  let ids := (s.agents.pairs.filter fun p => p.2.nodeId = nodeId).map Prod.fst
  let revoke := fun (agents : Table String NodeAgent) id =>
    agents.modify id ({ · with revoked := true })
  { s with agents := ids.foldl revoke s.agents }

/-- A new credential.  Its id is random, and the database refuses one that is in use. -/
def newAgent (agentId nodeId : String) (bootId : Option String) (s : Database) :
    Except ApiError Database := do
  require (s.agents.lookup agentId = none) .unavailable
  let agent : NodeAgent :=
    { nodeId, bootId, createdAt := s.clock, lastSeenAt := bootId.map fun _ => s.clock }
  return { s with agents := s.agents.insert agentId agent }

/-- `createCredential`: the other credentials of the node are revoked. -/
def createCredential (nodeId agentId : String) (s : Database) :
    Except ApiError (Unit × Database) := do
  let _ ← find s.nodes nodeId .nodeMissing
  let s ← newAgent agentId nodeId none (revokeAll nodeId s)
  return ((), s)

/-- `revokeCredential`. -/
def revokeCredential (nodeId agentId : String) (s : Database) :
    Except ApiError (Unit × Database) := do
  let agent ← find s.agents agentId .credentialMissing
  require (agent.nodeId = nodeId ∧ agent.revoked = false) .credentialMissing
  return ((), { s with agents := s.agents.modify agentId ({ · with revoked := true }) })

/-- The commit of `registerOnce` for a node that awaits its agent: a credential with the
boot of the agent. -/
def registerAgent (nodeId agentId bootId : String) (s : Database) :
    Except ApiError (Unit × Database) := do
  let _ ← find s.nodes nodeId .nodeMissing
  let s ← newAgent agentId nodeId (some bootId) s
  return ((), s)

/-! ## Heartbeats -/

/-- The row of an agent that speaks with a boot: another boot starts from zero. -/
def NodeAgent.onBoot (agent : NodeAgent) (bootId : String) : NodeAgent :=
  if agent.bootId = some bootId then agent
  else { agent with bootId := some bootId, lastSequence := 0, lastAckSequence := 0 }

/-- `heartbeat`: the acknowledgement of the boot. -/
def heartbeat (agentId bootId : String) (s : Database) : Except ApiError (Nat × Database) := do
  let agent ← find s.agents agentId .agentRevoked
  let _ ← find s.nodes agent.nodeId .nodeMissing
  require (agent.revoked = false) .agentRevoked
  let next := { agent.onBoot bootId with lastSeenAt := some s.clock }
  return (next.lastAckSequence, { s with agents := s.agents.insert agentId next })

/-! ## The scan -/

/-- `MAX_CONTIGUOUS_BATCHES_PER_TRANSACTION`. -/
def maxContiguousBatches : Nat := 4

/-- The page size of `advanceAck`. -/
def ackPage : Nat := 10000

/-- The stored batches of an agent and a boot above a sequence, in order. -/
def batchesAbove (s : Database) (agentId nodeId bootId : String) (ack : Nat) :
    List (BatchKey × StoredBatch) :=
  (s.batches.pairs.filter fun p => p.2.agentId = agentId && p.1.nodeId = nodeId &&
    p.1.bootId = bootId && decide (ack < p.1.sequence)).insertionSort
      fun p q => p.1.sequence ≤ q.1.sequence

/-- Apply one stored batch and mark it as accounted. -/
def accountBatch (agentId : String) (key : BatchKey) (batch : StoredBatch) (s : Database) :
    Except ApiError (Application × Database) := do
  let (applied, s) ← applyDirectBatch agentId key batch.sampledAt batch.samples s
  return (applied, { s with
    batches := s.batches.modify key ({ · with accounted := true })
    log := s.log ++ [.accounted key] })

/-- What a scan found. -/
structure Scan where
  ackThrough : Nat
  transitions : List SubscriptionTransition := []
  commandAgentIds : List String := []
  deriving DecidableEq, Repr

/-- The loop of `accountContiguousBatches`: it stops at the first gap. -/
def accountFrom (agentId : String) (scan : Scan) :
    List (BatchKey × StoredBatch) → Database → Except ApiError (Scan × Database)
  | [], s => .ok (scan, s)
  | (key, batch) :: rest, s =>
    if key.sequence ≠ scan.ackThrough + 1 then .ok (scan, s)
    else if batch.accounted then
      accountFrom agentId { scan with ackThrough := key.sequence } rest s
    else do
      let (applied, s) ← accountBatch agentId key batch s
      accountFrom agentId
        { ackThrough := key.sequence, transitions := scan.transitions ++ applied.transitions
          commandAgentIds := scan.commandAgentIds ++ applied.commandAgentIds } rest s

/-- `accountContiguousBatches`. -/
def accountContiguousBatches (agentId nodeId bootId : String) (currentAck : Nat) (s : Database) :
    Except ApiError (Scan × Database) :=
  accountFrom agentId { ackThrough := currentAck }
    ((batchesAbove s agentId nodeId bootId currentAck).take maxContiguousBatches) s

/-- The loop of `advanceAck`: it stops at the first gap. -/
def advanceFrom (ack : Nat) : List (BatchKey × StoredBatch) → Nat
  | [] => ack
  | (key, _) :: rest => if key.sequence = ack + 1 then advanceFrom key.sequence rest else ack

/-- `advanceAck`. -/
def advanceAck (agentId nodeId bootId : String) (currentAck : Nat) (s : Database) : Nat :=
  advanceFrom currentAck ((batchesAbove s agentId nodeId bootId currentAck).take ackPage)

/-- The accounting of an upload: only a node in `direct_primary` bills its batches. -/
def processBatches (agentId nodeId bootId : String) (currentAck : Nat) (s : Database) :
    Except ApiError (Scan × Database) := do
  let node ← find s.nodes nodeId .nodeMissing
  if node.controlMode = .directPrimary then
    accountContiguousBatches agentId nodeId bootId currentAck s
  else return ({ ackThrough := advanceAck agentId nodeId bootId currentAck s }, s)

/-! ## Uploads -/

/-- The key of an uploaded batch. -/
def batchKey (nodeId : String) (batch : UsageBatch) : BatchKey :=
  { nodeId, bootId := batch.bootId, sequence := batch.sequence }

/-- The batch table after an upload: a stored batch stays, and must have the same hash. -/
def storeBatch (payloadHash : UsageBatch → String) (agentId nodeId : String) (batch : UsageBatch)
    (s : Database) : Except ApiError Database :=
  match s.batches.lookup (batchKey nodeId batch) with
  | some existing =>
    if existing.payloadHash = payloadHash batch then .ok s else .error .batchConflict
  | none =>
    let stored : StoredBatch :=
      { agentId, payloadHash := payloadHash batch, sampledAt := batch.sampledAt
        samples := batch.samples }
    .ok { s with batches := s.batches.insert (batchKey nodeId batch) stored }

/-- The agent of an upload.  A credential that never spoke keeps its counters, which are
zero. -/
def NodeAgent.uploading (agent : NodeAgent) (bootId : String) : NodeAgent :=
  match agent.bootId with
  | none => agent
  | some "" => agent
  | some boot =>
    if boot = bootId then agent
    else { agent with bootId := some bootId, lastSequence := 0, lastAckSequence := 0 }

/-- The transaction of `ingestUsageBatchWithinNodeLock`. -/
def ingestTx (payloadHash : UsageBatch → String) (agentId : String) (batch : UsageBatch)
    (s : Database) : Except ApiError (Scan × Database) := do
  let agent ← currentAgent agentId s
  let agent := agent.uploading batch.bootId
  let s ← storeBatch payloadHash agentId agent.nodeId batch s
  let (scan, s) ← processBatches agentId agent.nodeId batch.bootId agent.lastAckSequence s
  let agent := { agent with
    bootId := some batch.bootId, lastSequence := max agent.lastSequence batch.sequence
    lastAckSequence := scan.ackThrough, lastSeenAt := some s.clock }
  return (scan, { s with agents := s.agents.insert agentId agent })

/-- `withSerializableRetry`, with the attempts that are left. -/
def withSerializableRetry {α : Type} (operation : ApiM α) : Nat → ApiM α
  | 0 => operation
  | attempts + 1 => do
    match ← attempt operation with
    | .ok a => return a
    | .error .unavailable => withSerializableRetry operation attempts
    | .error e => fail e

/-- `ingestUsageBatch`: three attempts. -/
def ingestUsageBatch (payloadHash : UsageBatch → String) (agentId : String) (batch : UsageBatch) :
    ApiM Nat := do
  let scan ← withSerializableRetry (transaction (ingestTx payloadHash agentId batch)) 2
  return scan.ackThrough

end ChordV.Api
