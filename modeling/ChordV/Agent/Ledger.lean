import ChordV.Agent.Store

/-!
# Provisioning evidence, commands and metering in the store

The remaining transactions of `apps/agent/internal/store`.

* The evidence of what this agent installed: `provisioned_accounts_v2`, with its
  owned rows and its intents, and the notes of `pending_removals_v2`.
* The command log: `BeginCommand` and `CompleteCommand`.
* Metering: `foldCounter` folds one reading of the absolute counters into a row, and
  `recordSample` folds a whole reading and cuts the batch.
-/

namespace ChordV.Agent

open Lib

namespace Store

/-! ## Provisioning evidence -/

/-- `RecordProvisioned`: the claim, with no replacement identity in flight. -/
def recordProvisioned (bindingId email uuid : String) (s : Store) : Store :=
  if email = "" then s
  else { s with provisioned := s.provisioned.insert email ⟨bindingId, true, uuid, ""⟩ }

/-- The row `RecordProvisionIntent` writes over an existing one.  An intent is
replaced.  A claim keeps its identity and takes the new one beside it. -/
def intentOver (row : Provisioned) (bindingId uuid : String) : Provisioned :=
  if row.owned then { row with nextUuid := if row.uuid = uuid then "" else uuid }
  else ⟨bindingId, false, uuid, ""⟩

/-- `RecordProvisionIntent`. -/
def recordProvisionIntent (bindingId email uuid : String) (s : Store) : Store :=
  if email = "" then s
  else
    let row := match s.provisioned.lookup email with
      | none => ⟨bindingId, false, uuid, ""⟩
      | some row => intentOver row bindingId uuid
    { s with provisioned := s.provisioned.insert email row }

/-- `SettleRotation`. -/
def settleRotation (email uuid : String) (s : Store) : Store :=
  { s with provisioned := s.provisioned.modify email fun row => { row with uuid, nextUuid := "" } }

/-- `ForgetProvisioned`. -/
def forgetProvisioned (emails : List String) (s : Store) : Store :=
  { s with provisioned := s.provisioned.eraseAll emails }

/-- `RecordPendingRemoval`: an existing note keeps its identity. -/
def recordPendingRemoval (claims : List (String × String)) (s : Store) : Store :=
  let note := fun (notes : Table String String) (c : String × String) =>
    if (notes.lookup c.1).isSome then notes else notes.insert c.1 c.2
  { s with pendingRemovals := claims.foldl note s.pendingRemovals }

/-- `ClearPendingRemoval`. -/
def clearPendingRemoval (emails : List String) (s : Store) : Store :=
  { s with pendingRemovals := s.pendingRemovals.eraseAll emails }

/-! ## Commands -/

/-- The stored result of a command that is already completed. -/
def completedCommand (s : Store) (commandId : String) : Option Outcome :=
  match (s.commands.lookup commandId).join with
  | some (.completed applied watermarks) => some (.completed applied watermarks)
  | _ => none

/-- `BeginCommand` for a command that is not completed: a failed result is cleared. -/
def beginCommand (commandId : String) (s : Store) : Store :=
  { s with commands := s.commands.insert commandId none }

/-- `CompleteCommand`. -/
def completeCommand (commandId : String) (outcome : Outcome) (s : Store) : Store :=
  { s with commands := s.commands.modify commandId fun _ => some outcome }

/-! ## Metering -/

/-- What one reading does to a row. -/
structure Folded where
  row : UserRow
  sample : UsageSample
  /-- The sample tells the control plane something new. -/
  emit : Bool
  /-- The reading exhausts the quota or the offline allowance. -/
  shouldDisable : Bool
  deriving DecidableEq, Repr

/-- A counter that went down was reset underneath the agent. -/
def rolledBack (row : UserRow) (counter : AbsoluteCounter) : Bool :=
  row.counterInitialized &&
    decide (counter.uplinkBytes < row.uplink ∨ counter.downlinkBytes < row.downlink)

/-- The uplink and downlink deltas of one reading: nothing for the first one, the whole
reading after a reset, the growth otherwise. -/
def counterDelta (row : UserRow) (counter : AbsoluteCounter) : Nat × Nat :=
  if !row.counterInitialized then (0, 0)
  else if rolledBack row counter then (counter.uplinkBytes, counter.downlinkBytes)
  else (counter.uplinkBytes - row.uplink, counter.downlinkBytes - row.downlink)

/-- `foldCounter`. -/
def foldCounter (bindingId : String) (row : UserRow) (counter : AbsoluteCounter)
    (backendOnline : Bool) : Folded :=
  let generation := if rolledBack row counter then row.generation + 1 else row.generation
  let (deltaUp, deltaDown) := counterDelta row counter
  let delta := deltaUp + deltaDown
  let nextQuota := row.quotaRemaining - delta
  let nextOffline := if backendOnline then 0 else row.offlineUsed + delta
  let shouldDisable :=
    decide (nextQuota = 0) || (!backendOnline && decide (row.offlineAllowance ≤ nextOffline))
  { row := { row with
      generation, counterInitialized := true
      uplink := counter.uplinkBytes, downlink := counter.downlinkBytes
      quotaRemaining := nextQuota, offlineUsed := nextOffline, enabled := !shouldDisable }
    sample := {
      bindingId, counterGeneration := generation
      uplinkBytes := counter.uplinkBytes, downlinkBytes := counter.downlinkBytes
      uplinkDeltaBytes := deltaUp, downlinkDeltaBytes := deltaDown }
    emit := !row.counterInitialized || rolledBack row counter || decide (0 < delta)
    shouldDisable }

/-- The samples and the cut-off addresses that a reading has produced so far. -/
structure Tick where
  store : Store
  samples : List UsageSample := []
  disable : List String := []

/-- One counter of `RecordSample`: a counter of nobody, or of a disabled row, is not
billed. -/
def foldOne (backendOnline : Bool) (t : Tick) (counter : AbsoluteCounter) : Tick :=
  match t.store.userByEmail counter.email with
  | none => t
  | some (bindingId, row) =>
    if !row.enabled then t
    else
      let folded := foldCounter bindingId row counter backendOnline
      { store := { t.store with rows := t.store.rows.insert bindingId folded.row }
        samples := if folded.emit then t.samples ++ [folded.sample] else t.samples
        disable := if folded.shouldDisable then t.disable ++ [counter.email] else t.disable }

/-- The next sequence of the boot the store was opened with. -/
def sequenceOf (s : Store) : Nat := (s.nextSequence.lookup s.bootId).getD 1

/-- Cut a batch out of the samples of a reading, unless there are none. -/
def cutBatch (samples : List UsageSample) (sampledAt : Nat) (s : Store) :
    Option UsageBatch × Store :=
  if samples.isEmpty then (none, s)
  else
    let sequence := s.sequenceOf
    let batch : UsageBatch := { bootId := s.bootId, sequence, sampledAt, samples }
    (some batch, { s with
      batches := s.batches ++ [batch]
      nextSequence := s.nextSequence.insert s.bootId (sequence + 1) })

/-- `RecordSample`: the batch, the addresses whose quota ran out, and the new store. -/
def recordSample (counters : List AbsoluteCounter) (sampledAt : Nat) (backendOnline : Bool)
    (s : Store) : (Option UsageBatch × List String) × Store :=
  let tick := counters.foldl (foldOne backendOnline) { store := s }
  let (batch, s) := cutBatch tick.samples sampledAt tick.store
  ((batch, tick.disable), s)

/-- `AckThrough`: the number of batches removed, and the new store. -/
def ackThrough (bootId : String) (ack : Nat) (s : Store) : Nat × Store :=
  let keep := s.batches.filter fun batch => !(batch.bootId = bootId && batch.sequence ≤ ack)
  (s.batches.length - keep.length, { s with batches := keep })

/-! ## Opening the store -/

/-- `backfillSnapshotRevision`. -/
def backfillSnapshotRevision (s : Store) : Store :=
  match s.snapshotRevision with
  | some _ => s
  | none => { s with snapshotRevision := some s.configRevision }

/-- One row of `recoverParkedRows`: a parked row whose address is free gets it back. -/
def recoverParkedRow (bindingId : String) (s : Store) : Store :=
  match s.rows.lookup bindingId with
  | some row =>
    match row.address with
    | .real _ => s
    | .parked email =>
      if email = "" || (s.userByEmail email).isSome then s
      else
        let rows := s.rows.insert bindingId { row with address := .real email }
        { s with rows }
  | none => s

/-- The bindings whose rows are parked. -/
def parkedBindings (s : Store) : List String :=
  (s.rows.pairs.filter fun p => decide (p.2.address = .parked p.2.address.original)).map
    Prod.fst

/-- `initializeBoot`. -/
def initializeBoot (bootId : String) (s : Store) : Store :=
  match s.nextSequence.lookup bootId with
  | some _ => { s with bootId }
  | none => { s with bootId, nextSequence := s.nextSequence.insert bootId 1 }

end Store

end ChordV.Agent
