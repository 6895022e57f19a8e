import Mathlib.Data.List.Sort
import ChordV.Agent.Protocol
import ChordV.Lib.Table

/-!
# The durable store of the agent

The SQLite tables of `apps/agent/internal/store` and the transactions on them.  A
transaction is a function on `Store`: it commits a new store or is rolled back, which
leaves the old one.

* `desired_users_v2` is `rows`, keyed by the binding.  The address column is unique.
  The source parks a contested address on a placeholder that starts with a NUL byte,
  which no address of the control plane does.  Here a parked row is a constructor of
  `Address`, so no parked row can be taken for a real one.
* `binding_tombstones_v2`, `pending_removals_v2`, `provisioned_accounts_v2` and
  `commands_v2` are tables keyed by their primary key.
* `usage_batches_v2` is a list in the order of its row ids.
* `meta_v2` is the fields `configRevision`, `snapshotRevision`, `controlMode` and
  `nextSequence`.  The write-only columns (`updated_at`, `recorded_at`, the payload of
  a command, `baseline_emitted`) are left out.
-/

namespace ChordV.Agent

open Lib

/-- The address column: an address, or an address parked for a hand-off. -/
inductive Address where
  | real (email : String)
  | parked (email : String)
  deriving DecidableEq, Repr

/-- `originalEmail`: the address a row holds or held before it was parked. -/
def Address.original : Address → String
  | .real email => email
  | .parked email => email

/-- One row of `desired_users_v2`, with the metering columns. -/
structure UserRow where
  address : Address
  uuid : String
  flow : String
  enabled : Bool
  revision : Nat
  quotaRemaining : Nat
  offlineAllowance : Nat
  offlineUsed : Nat := 0
  generation : Nat := 0
  counterInitialized : Bool := false
  uplink : Nat := 0
  downlink : Nat := 0
  deriving DecidableEq, Repr

/-- One row of `binding_tombstones_v2`. -/
structure Tombstone where
  revision : Nat
  email : String
  deriving DecidableEq, Repr

/-- One row of `provisioned_accounts_v2`.  `owned` is the state column: the install
succeeded, as opposed to an intent. -/
structure Provisioned where
  bindingId : String
  owned : Bool
  uuid : String
  nextUuid : String := ""
  deriving DecidableEq, Repr

/-- The database of one node identity, with the options it was opened with. -/
structure Store where
  nodeId : String := "node"
  defaultOfflineAllowance : Nat := 0
  bootId : String := "boot"
  rows : Table String UserRow := ∅
  tombstones : Table String Tombstone := ∅
  pendingRemovals : Table String String := ∅
  provisioned : Table String Provisioned := ∅
  commands : Table String (Option Outcome) := ∅
  batches : List UsageBatch := []
  nextSequence : Table String Nat := ∅
  configRevision : Nat := 0
  snapshotRevision : Option Nat := none
  controlMode : ControlMode := .shadowDirect

namespace Store

/-! ## Reading -/

/-- The protocol view of a row.  A parked row has none. -/
def desired (bindingId : String) (row : UserRow) : Option DesiredUser :=
  match row.address with
  | .parked _ => none
  | .real email => some
    { bindingId, email, uuid := row.uuid, flow := row.flow, enabled := row.enabled
      revision := some row.revision
      quotaRemainingBytes := some row.quotaRemaining
      offlineAllowanceBytes := some (some row.offlineAllowance) }

/-- `ListDesiredUsers`: the rows that are not parked, ordered by address. -/
def listDesiredUsers (s : Store) : List DesiredUser :=
  (s.rows.pairs.filterMap fun p => desired p.1 p.2).insertionSort
    fun u v => u.email ≤ v.email

/-- `UserByBindingID`. -/
def userByBindingId (s : Store) (bindingId : String) : Option DesiredUser :=
  (s.rows.lookup bindingId).bind (desired bindingId)

/-- `userByEmail`: the row at an address, with its binding. -/
def userByEmail (s : Store) (email : String) : Option (String × UserRow) :=
  s.rows.pairs.find? fun p => p.2.address = .real email

/-- `SnapshotRevision`. -/
def snapshotRev (s : Store) : Nat := s.snapshotRevision.getD 0

/-- `BindingTombstone`: an absent tombstone reads as revision zero. -/
def bindingTombstone (s : Store) (bindingId : String) : Nat :=
  ((s.tombstones.lookup bindingId).map (·.revision)).getD 0

/-- `TombstonedEmail`. -/
def tombstonedEmail (s : Store) (bindingId : String) : String :=
  ((s.tombstones.lookup bindingId).map (·.email)).getD ""

/-- `ConfigSnapshot`. -/
def configSnapshot (s : Store) : ConfigSnapshot :=
  { nodeId := s.nodeId, revision := some s.configRevision
    controlMode := s.controlMode, users := s.listDesiredUsers }

/-- `ProvisionedAccounts`: the claims, which are the owned rows. -/
def provisionedAccounts (s : Store) : List (String × Provisioned) :=
  s.provisioned.pairs.filter (·.2.owned)

/-- `ProvisionIntents`: the rows that are still intents. -/
def provisionIntents (s : Store) : List (String × Provisioned) :=
  s.provisioned.pairs.filter (!·.2.owned)

/-- The claim on one address. -/
def claimOn (s : Store) (email : String) : Option Provisioned :=
  (s.provisioned.lookup email).filter (·.owned)

/-- `OfflineDisabled`: a row the agent cut off for its offline allowance. -/
def offlineDisabled (s : Store) (bindingId : String) : Bool :=
  match s.rows.lookup bindingId with
  | none => false
  | some row =>
    !row.enabled && decide (0 < row.offlineUsed ∧ row.offlineAllowance ≤ row.offlineUsed)

/-- `HasUsageDisabledUsers`. -/
def hasUsageDisabledUsers (s : Store) : Bool :=
  s.rows.pairs.any fun p => !p.2.enabled &&
    decide (p.2.quotaRemaining = 0 ∨
      (0 < p.2.offlineUsed ∧ p.2.offlineAllowance ≤ p.2.offlineUsed))

/-- `PendingBatchWatermarks`: for each boot, in the order of its first pending batch,
the highest pending sequence. -/
def pendingBatchWatermarks (s : Store) : List Watermark :=
  (s.batches.map (·.bootId)).reverse.dedup.reverse.map fun boot =>
    { bootId := boot
      sequenceThrough :=
        ((s.batches.filter (·.bootId = boot)).map (·.sequence)).foldr max 0 }

/-! ## Tombstones and terminal commands -/

/-- `recordTombstoneTx`: a floor only rises, and an empty address never replaces a
remembered one. -/
def recordTombstoneTx (bindingId : String) (revision : Nat) (email : String)
    (s : Store) : Store :=
  match s.tombstones.lookup bindingId with
  | none => { s with tombstones := s.tombstones.insert bindingId ⟨revision, email⟩ }
  | some t =>
    if revision ≤ t.revision then s
    else
      let raised : Tombstone := ⟨revision, if email = "" then t.email else email⟩
      { s with tombstones := s.tombstones.insert bindingId raised }

/-- The row change of `ApplyTerminal`: a removal deletes the row, a disable keeps a
row whose revision is newer. -/
def retireRowTx (bindingId : String) (revision : Nat) (remove : Bool) (s : Store) : Store :=
  if remove then { s with rows := s.rows.erase bindingId }
  else { s with rows := s.rows.modify bindingId fun row =>
          if revision < row.revision then row
          else { row with enabled := false, revision } }

/-- `ApplyTerminal`: the tombstone and the row change in one transaction. -/
def applyTerminal (bindingId : String) (revision : Nat) (email : String) (remove : Bool)
    (s : Store) : Except Failure Store :=
  if bindingId = "" then .error .missingTerminalBinding
  else .ok (retireRowTx bindingId revision remove
    (recordTombstoneTx bindingId revision email s))

/-- `ClearBindingTombstone`. -/
def clearBindingTombstone (bindingId : String) (s : Store) : Store :=
  { s with tombstones := s.tombstones.erase bindingId }

/-! ## Writing desired users -/

/-- The row a user that is not stored yet gets. -/
def freshRow (user : DesiredUser) (revision quota allowance : Nat) : UserRow :=
  { address := .real user.email, uuid := user.uuid, flow := user.flow
    enabled := user.enabled, revision, quotaRemaining := quota, offlineAllowance := allowance }

/-- The row a stored user gets.  The metering columns survive, unless the address
changed: then a new generation starts from a zero baseline. -/
def updatedRow (row : UserRow) (user : DesiredUser) (revision quota allowance : Nat) :
    UserRow :=
  let next := { row with
    address := .real user.email, uuid := user.uuid, flow := user.flow
    enabled := user.enabled, revision, quotaRemaining := quota, offlineAllowance := allowance }
  if row.address = .real user.email then next
  else { next with
    generation := row.generation + 1, uplink := 0, downlink := 0, counterInitialized := true }

/-- Whether the revision guard of `upsertDesiredUserTx` lets a user through: a newer
revision, or at the same revision a disable or changed connection settings. -/
def upsertApplies (row : UserRow) (user : DesiredUser) (revision : Nat) : Bool :=
  row.revision < revision ||
    (revision = row.revision &&
      ((row.enabled && !user.enabled) || row.uuid ≠ user.uuid || row.flow ≠ user.flow))

/-- Another binding holds the address. -/
def emailTaken (s : Store) (bindingId email : String) : Bool :=
  s.rows.pairs.any fun p => p.1 ≠ bindingId && p.2.address = .real email

/-- `upsertDesiredUserTx`. -/
def upsertDesiredUserTx (user : DesiredUser) (s : Store) : Except Failure Store := do
  let revision ← parseDecimal user.revision
  match s.rows.lookup user.bindingId with
  | some row =>
    if !upsertApplies row user revision then return s
    let quota ← parseDecimal user.quotaRemainingBytes
    let allowance ← parseDecimal (user.offlineAllowanceBytes.getD (some s.defaultOfflineAllowance))
    if emailTaken s user.bindingId user.email then throw (.uniqueEmail user.email)
    let row := updatedRow row user revision quota allowance
    return { s with rows := s.rows.insert user.bindingId row }
  | none =>
    let quota ← parseDecimal user.quotaRemainingBytes
    let allowance ← parseDecimal (user.offlineAllowanceBytes.getD (some s.defaultOfflineAllowance))
    if emailTaken s user.bindingId user.email then throw (.uniqueEmail user.email)
    let row := freshRow user revision quota allowance
    return { s with rows := s.rows.insert user.bindingId row }

/-- The upserts of a list of users, in order. -/
def upsertAllTx (users : List DesiredUser) (s : Store) : Except Failure Store :=
  users.foldlM (fun s user => upsertDesiredUserTx user s) s

/-- Whether the hand-off counts a user as a taker: its binding is not stored, or stored
at an older revision. -/
def takesAddress (s : Store) (user : DesiredUser) : Except Failure Bool :=
  match s.rows.lookup user.bindingId with
  | none => .ok true
  | some row => decimalLess (some row.revision) user.revision

/-- The users of a list that the hand-off counts as takers. -/
def applyingUsers (users : List DesiredUser) (s : Store) : Except Failure (List DesiredUser) :=
  users.filterM (takesAddress s)

/-- Whether `parkContestedEmailsTx` parks a row: another binding takes its address, and
the row itself moves on or is about to be deleted. -/
def parks (applying : List DesiredUser) (omitted : String → Bool) (bindingId : String)
    (row : UserRow) : Bool :=
  match row.address with
  | .parked _ => false
  | .real email =>
    (match applying.find? (·.email = email) with
      | none => false
      | some taker => taker.bindingId ≠ bindingId) &&
    (applying.any (·.bindingId = bindingId) || omitted bindingId)

/-- Park one row. -/
def parkRow (row : UserRow) : UserRow := { row with address := .parked row.address.original }

/-- `parkContestedEmailsTx`. -/
def parkContestedEmailsTx (users : List DesiredUser) (omitted : String → Bool) (s : Store) :
    Except Failure Store := do
  let applying ← applyingUsers users s
  let park := fun (rows : Table String UserRow) (p : String × UserRow) =>
    if parks applying omitted p.1 p.2 then rows.modify p.1 parkRow else rows
  return { s with rows := s.rows.pairs.foldl park s.rows }

/-- The stored bindings that a user list no longer names. -/
def omittedBy (users : List DesiredUser) (bindingId : String) : Bool :=
  !users.any (·.bindingId = bindingId)

/-- `ApplyDesiredUsers`: one transaction for a whole user list. -/
def applyDesiredUsers (users : List DesiredUser) (s : Store) : Except Failure Store := do
  let s ← parkContestedEmailsTx users (omittedBy users) s
  upsertAllTx users s

/-- Delete the row of an omitted binding and leave its tombstone. -/
def dropOmittedTx (revision : Nat) (s : Store) (p : String × UserRow) : Store :=
  let s := recordTombstoneTx p.1 revision p.2.address.original s
  { s with rows := s.rows.erase p.1 }

/-- `replaceDesiredUsersTx`: the upserts of `ApplyDesiredUsers`, then the rows the list
omits are deleted, each with its tombstone. -/
def replaceDesiredUsersTx (users : List DesiredUser) (revision : Nat) (s : Store) :
    Except Failure Store := do
  let s ← applyDesiredUsers users s
  let dropped := s.rows.pairs.filter fun p => omittedBy users p.1
  let s := dropped.foldl (dropOmittedTx revision) s
  return { s with configRevision := revision }

/-- `ApplyConfigSnapshot`: false when the snapshot is older than what is applied. -/
def applyConfigSnapshot (snapshot : ConfigSnapshot) (s : Store) :
    Except Failure (Bool × Store) := do
  if snapshot.nodeId ≠ s.nodeId then throw .foreignNode
  let revision ← parseDecimal snapshot.revision
  if revision < s.configRevision then return (false, s)
  let s ← replaceDesiredUsersTx snapshot.users revision s
  return (true, { s with
    controlMode := snapshot.controlMode, snapshotRevision := some revision
    configRevision := revision })

/-- `AdvanceConfigRevision`. -/
def advanceConfigRevision (revision : Nat) (s : Store) : Store :=
  { s with configRevision := max s.configRevision revision }

/-- `UpdateQuota`. -/
def updateQuota (bindingId : String) (quota revision : Nat) (s : Store) : Store :=
  { s with rows := s.rows.modify bindingId fun row =>
      if revision < row.revision then row
      else { row with quotaRemaining := quota, revision, offlineUsed := 0 } }

/-- One user of `RestoreBackendConfirmedUsers`: the lower of the two quotas wins. -/
def restoreUserTx (user : DesiredUser) (s : Store) : Except Failure Store :=
  match s.rows.lookup user.bindingId with
  | none => .ok s
  | some row => do
    let backend ← parseDecimal user.quotaRemainingBytes
    let confirmed := min row.quotaRemaining backend
    let row := { row with
      enabled := user.enabled && 0 < confirmed, quotaRemaining := confirmed, offlineUsed := 0 }
    return { s with rows := s.rows.insert user.bindingId row }

/-- `RestoreBackendConfirmedUsers`. -/
def restoreBackendConfirmedUsers (users : List DesiredUser) (s : Store) : Except Failure Store :=
  users.foldlM (fun s user => restoreUserTx user s) s

end Store

end ChordV.Agent
