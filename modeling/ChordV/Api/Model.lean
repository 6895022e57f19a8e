import Mathlib.Data.Rat.Floor
import Mathlib.Data.List.Sort
import ChordV.Agent.Protocol
import ChordV.Lib.Fallible
import ChordV.Lib.Program
import ChordV.Lib.Table

/-!
# The tables of the control plane

The tables of `apps/api/prisma/schema.prisma` that metering, provisioning and the node
commands read and write.  A transaction is a function on `Database` that commits a new state
or is rolled back.

* A row that the source names by a random id is named here by its unique key where it has
  one: a batch by node, boot and sequence, a traffic snapshot by node, subscription and
  user, and a command job by its dedupe key.
* Byte counts, sequences, revisions and counter generations are natural numbers.  The
  traffic figures in GB are rationals.
* `log` is a history of what metering did.  The source keeps no such record, and no
  function reads it.
* The columns that no modelled function reads are left out: display states, sampling
  times, error texts and the rows of leases, plans, users and teams.
-/

namespace ChordV.Api

open Lib
export Agent (ControlMode CommandType UsageSample UsageBatch Watermark Outcome)

/-- The refusals and errors of the control plane. -/
inductive ApiError where
  /-- The database did not commit.  `isRetryableAgentTransactionError` is for this one. -/
  | unavailable
  /-- A body that the validation of its DTO refuses. -/
  | invalidRequest
  | nodeMissing
  | subscriptionMissing
  | bindingMissing
  | agentRevoked
  | credentialMissing
  | commandMissing
  | controlModeUnusable
  /-- One sequence was uploaded with two contents. -/
  | batchConflict
  | duplicateBinding
  | invalidBinding (bindingId : String)
  /-- A counter went down within one generation. -/
  | counterRollback (email : String)
  /-- More bytes than the figures in GB can show. -/
  | trafficRange
  | noAgent
  | watermarkUnconfirmed (bindingId : String)
  | usageUnsettled (bindingId : String)
  deriving DecidableEq, Repr

/-! ## Rows -/

/-- What is read of a `Node`. -/
structure Node where
  controlMode : ControlMode := .directPrimary
  agentConfigRevision : Nat := 0
  flow : String := ""
  deriving DecidableEq, Repr

/-- One row of `NodeAgent`: a credential of a node. -/
structure NodeAgent where
  nodeId : String
  bootId : Option String := none
  lastSequence : Nat := 0
  lastAckSequence : Nat := 0
  lastSeenAt : Option Nat := none
  createdAt : Nat := 0
  revoked : Bool := false
  deriving DecidableEq, Repr

/-- The unique key of `NodeUsageBatch`. -/
structure BatchKey where
  nodeId : String
  bootId : String
  sequence : Nat
  deriving DecidableEq, Repr

/-- One row of `NodeUsageBatch`, with the credential that stored it. -/
structure StoredBatch where
  agentId : String
  payloadHash : String
  sampledAt : Nat
  samples : List UsageSample
  accounted : Bool := false
  deriving DecidableEq, Repr

/-- `NodeClientBindingStatus`. -/
inductive BindingStatus where
  | active
  | disabled
  | deleted
  | other (name : String)
  deriving DecidableEq, Repr

/-- Which kind of panel a binding is of. -/
inductive Source where
  | xui
  | direct
  deriving DecidableEq, Repr

/-- One row of `PanelClientBinding`.  The watermarks are `none` for a column that is null. -/
structure Binding where
  subscriptionId : String
  userId : Option String
  teamId : Option String := none
  nodeId : String
  panelClientEmail : String
  panelClientId : String
  lastUplinkBytes : Nat := 0
  lastDownlinkBytes : Nat := 0
  status : BindingStatus := .active
  source : Source := .direct
  directRevision : Nat := 0
  directDisableWatermarks : Option (List Watermark) := none
  deriving DecidableEq, Repr

/-- `buildSnapshotKey`. -/
structure SnapshotKey where
  nodeId : String
  subscriptionId : String
  userId : Option String
  deriving DecidableEq, Repr

/-- One row of `TrafficSnapshot`: the baseline of the next sample. -/
structure TrafficSnapshot where
  uplinkBytes : Nat := 0
  downlinkBytes : Nat := 0
  counterGeneration : Nat := 0
  deriving DecidableEq, Repr

/-- `SubscriptionState`. -/
inductive SubscriptionState where
  | active
  | expired
  | exhausted
  | paused
  deriving DecidableEq, Repr

/-- What is read of a `Subscription`. -/
structure Subscription where
  teamId : Option String := none
  state : SubscriptionState := .active
  expireAt : Nat
  totalTrafficBytes : Nat := 0
  usedTrafficBytes : Nat := 0
  totalTrafficGb : Rat := 0
  usedTrafficGb : Rat := 0
  remainingTrafficGb : Rat := 0
  deriving DecidableEq, Repr

/-- One row of `TrafficLedger`. -/
structure LedgerRow where
  teamId : String
  userId : String
  subscriptionId : String
  nodeId : String
  usedTrafficBytes : Nat
  recordedAt : Nat
  deriving DecidableEq, Repr

/-- `NodeCommandJobStatus`. -/
inductive JobStatus where
  | pending
  | running
  | completed
  | failed
  | cancelled
  deriving DecidableEq, Repr

/-- The statuses that `completeCommand` and the retry sweep accept. -/
def JobStatus.outstanding : JobStatus → Bool
  | .pending => true
  | .running => true
  | .failed => true
  | _ => false

/-- The dedupe key of a command for one binding: the one of `queueDirectBindingCommand`, or
the one of a disable that metering ordered. -/
inductive JobKey where
  | agent (type : CommandType) (bindingId : String) (revision : Nat)
  | autoDisable (bindingId : String) (revision : Nat)
  deriving DecidableEq, Repr

/-- One row of `NodeCommandJob` for a command that belongs to a binding. -/
structure Job where
  nodeId : String
  agentId : String
  commandType : CommandType
  targetRevision : Nat
  payload : Agent.Payload
  bindingId : String
  status : JobStatus := .pending
  attempts : Nat := 0
  resolved : Bool := false
  deriving DecidableEq, Repr

/-! ## The state -/

/-- What metering did, in the order in which it was committed. -/
inductive Event where
  /-- A stored batch was applied. -/
  | accounted (key : BatchKey)
  /-- A sample was accepted and billed. -/
  | billed (bindingId : String) (key : SnapshotKey) (sample : UsageSample) (delta : Nat)
  /-- A sample was left out because of a stored disable watermark, at a revision of its
  binding. -/
  | skipped (bindingId : String) (directRevision : Nat) (key : BatchKey)
  deriving DecidableEq, Repr

/-- The tables. -/
structure Database where
  nodes : Table String Node := ∅
  agents : Table String NodeAgent := ∅
  batches : Table BatchKey StoredBatch := ∅
  bindings : Table String Binding := ∅
  snapshots : Table SnapshotKey TrafficSnapshot := ∅
  subscriptions : Table String Subscription := ∅
  ledger : List LedgerRow := []
  jobs : Table JobKey Job := ∅
  clock : Nat := 0
  log : List Event := []

/-- A request handler of the control plane. -/
abbrev ApiM := Prog ApiError Database

/-- `prisma.$transaction`. -/
def transaction {α : Type} (f : Database → Except ApiError (α × Database)) : ApiM α :=
  atomic .unavailable f

/-- The row of a table, or an error. -/
def find {κ ρ : Type} [DecidableEq κ] (t : Table κ ρ) (k : κ) (e : ApiError) : Except ApiError ρ :=
  match t.lookup k with
  | some row => .ok row
  | none => .error e

theorem find_eq_ok {κ ρ : Type} [DecidableEq κ] {t : Table κ ρ} {k : κ} {e : ApiError} {row : ρ} :
    find t k e = .ok row ↔ t.lookup k = some row := by
  unfold find
  split
  · next found h => simp [h]
  · next h => simp [h]

/-! ## Traffic figures -/

/-- `GB_IN_BYTES`. -/
def gbInBytes : Nat := 1024 * 1024 * 1024

/-- `trafficGbNumberToBytes`: rounded half up. -/
def trafficGbNumberToBytes (value : Rat) : Nat :=
  if value ≤ 0 then 0 else ⌊value * gbInBytes + 1 / 2⌋.toNat

/-- `trafficBytesToGbNumber`. -/
def trafficBytesToGbNumber (value : Nat) : Except ApiError Rat :=
  if 2 ^ 53 - 1 < value / gbInBytes then .error .trafficRange else .ok (value / gbInBytes)

/-! ## Choosing the agent of a node -/

/-- The order of `[{ lastSeenAt: "desc" }, { createdAt: "desc" }]`.  A credential that was
never seen comes first, as null does in a descending order. -/
def NodeAgent.before (a b : NodeAgent) : Bool :=
  match a.lastSeenAt, b.lastSeenAt with
  | none, none => b.createdAt ≤ a.createdAt
  | none, some _ => true
  | some _, none => false
  | some t, some u => u < t || (t = u && b.createdAt ≤ a.createdAt)

/-- The unrevoked agents of a node in that order, the first one. -/
def Database.agentOf (s : Database) (nodeId : String) : Option String :=
  let live := s.agents.pairs.filter fun p => p.2.nodeId = nodeId && !p.2.revoked
  ((live.insertionSort fun p q => p.2.before q.2).head?).map Prod.fst

/-- The chosen agent is an unrevoked one of the node. -/
theorem Database.agentOf_eq_some {s : Database} {nodeId agentId : String}
    (h : s.agentOf nodeId = some agentId) :
    ∃ agent, s.agents.lookup agentId = some agent ∧ agent.nodeId = nodeId ∧
      agent.revoked = false := by
  unfold agentOf at h
  obtain ⟨⟨id, agent⟩, hhead, rfl⟩ := Option.map_eq_some_iff.1 h
  have hmem := (List.mem_insertionSort _).1 (List.mem_of_head? hhead)
  obtain ⟨hpair, hlive⟩ := List.mem_filter.1 hmem
  simp only [Bool.and_eq_true, decide_eq_true_eq, Bool.not_eq_true'] at hlive
  exact ⟨agent, Table.mem_pairs.1 hpair, hlive.1, hlive.2⟩

end ChordV.Api
