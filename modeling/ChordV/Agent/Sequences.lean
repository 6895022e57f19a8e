import ChordV.Agent.Outbox

/-!
# The sequences of the usage batches

The control plane accounts the batches of a boot in the order of their sequences and stops at
the first gap.  This file is about the calls that make, keep and drop the batches.

* `Call` is one call on the store: `RecordSample`, `AckThrough`, the opening of the store
  with a boot id, or a rewrite of the users by a command or a snapshot.  Every call is one
  transaction that commits or is rolled back.
* `Outlog` keeps the store together with every batch that was ever produced and with how far
  each boot was acknowledged.
* `Contiguous` is the invariant, and `sequences_are_contiguous` the result over whole runs.
* An acknowledgement beyond what a boot has produced is not remembered: it drops the stored
  batches only.  `early_ack_is_forgotten` is such a run.
-/

namespace ChordV.Agent

open Lib

namespace Store

/-- `ListPendingBatches`: the batches in the order of their row ids, at most a hundred of
them when the limit is not positive. -/
def listPendingBatches (limit : Int) (s : Store) : List UsageBatch :=
  s.batches.take (if limit ≤ 0 then 100 else limit.toNat)

/-- `Open` on an existing database. -/
def reopen (bootId : String) (s : Store) : Store :=
  let s := s.backfillSnapshotRevision
  initializeBoot bootId (s.parkedBindings.foldl (fun s bindingId => recoverParkedRow bindingId s) s)

end Store

/-- One call on the store. -/
inductive Call where
  | recordSample (counters : List AbsoluteCounter) (sampledAt : Nat) (backendOnline : Bool)
  | ackThrough (bootId : String) (ack : Nat)
  | reopen (bootId : String)
  /-- Commands and snapshots write the users between the calls. -/
  | rewriteUsers (rows : Table String UserRow)

/-- The store with the history of its batches. -/
structure Outlog where
  store : Store
  /-- Every batch that was ever produced, in order. -/
  produced : List UsageBatch := []
  /-- The greatest value a boot was acknowledged through.  A value counts as far as the boot
  had produced batches when it arrived. -/
  acked : String → Nat := fun _ => 0

namespace Outlog

/-- The store of a new data directory. -/
def start (s : Store) : Outlog := { store := { s with batches := [], nextSequence := ∅ } }

/-- The batches a boot has produced. -/
def producedBy (log : Outlog) (bootId : String) : List UsageBatch :=
  log.produced.filter (·.bootId = bootId)

/-- One call that commits. -/
def commit (log : Outlog) : Call → Outlog
  | .recordSample counters sampledAt backendOnline =>
    let ((batch, _), s) := log.store.recordSample counters sampledAt backendOnline
    { log with store := s, produced := log.produced ++ batch.toList }
  | .ackThrough bootId ack =>
    let through := max (log.acked bootId) (min ack (log.producedBy bootId).length)
    { log with
      store := (log.store.ackThrough bootId ack).2
      acked := Function.update log.acked bootId through }
  | .reopen bootId => { log with store := log.store.reopen bootId }
  | .rewriteUsers rows => { log with store := { log.store with rows } }

/-- One call.  A transaction that fails leaves everything as it was. -/
def step (log : Outlog) (call : Call × Bool) : Outlog :=
  if call.2 then log.commit call.1 else log

/-- A run of calls. -/
def run (log : Outlog) (calls : List (Call × Bool)) : Outlog := calls.foldl step log

end Outlog

/-! ## What a call does to the batches -/

namespace Store

variable (s : Store)

/-- The next sequence of a boot, which starts at one. -/
def nextOf (bootId : String) : Nat := (s.nextSequence.lookup bootId).getD 1

theorem recoverParkedRow_outbox (bindingId : String) :
    (s.recoverParkedRow bindingId).outbox = s.outbox := by
  unfold recoverParkedRow
  split
  · split
    · rfl
    · split <;> rfl
  · rfl

theorem initializeBoot_batches (bootId : String) :
    (s.initializeBoot bootId).batches = s.batches := by
  unfold initializeBoot
  split <;> rfl

theorem initializeBoot_nextOf (bootId boot : String) :
    (s.initializeBoot bootId).nextOf boot = s.nextOf boot := by
  unfold initializeBoot
  cases hnext : s.nextSequence.lookup bootId with
  | some sequence => rfl
  | none =>
    unfold nextOf
    dsimp only
    rw [Table.lookup_insert_ite]
    split
    · rename_i heq
      rw [heq, hnext]
      rfl
    · rfl

/-- Opening the store with a boot id keeps every batch and every sequence. -/
theorem reopen_eq (bootId : String) : (s.reopen bootId).batches = s.batches ∧
    ∀ boot, (s.reopen bootId).nextOf boot = s.nextOf boot := by
  have hback : s.backfillSnapshotRevision.outbox = s.outbox := by
    unfold backfillSnapshotRevision
    split <;> rfl
  have hopen : ∀ (bindings : List String) (t : Store),
      (bindings.foldl (fun s bindingId => recoverParkedRow bindingId s) t).outbox = t.outbox := by
    intro bindings t
    refine List.foldlRecOn (motive := fun u : Store => u.outbox = t.outbox) _ _ rfl ?_
    intro u hu bindingId _
    exact (u.recoverParkedRow_outbox bindingId).trans hu
  have houtbox := (hopen s.backfillSnapshotRevision.parkedBindings _).trans hback
  refine ⟨(initializeBoot_batches _ bootId).trans (congrArg Prod.fst houtbox), fun boot => ?_⟩
  refine (initializeBoot_nextOf _ bootId boot).trans ?_
  have hnext := congrArg (·.2.1) houtbox
  dsimp only [outbox] at hnext
  unfold nextOf
  rw [hnext]

/-- A reading adds the batch it returns, with the next sequence of the boot. -/
theorem recordSample_produces (counters : List AbsoluteCounter) (sampledAt : Nat)
    (online : Bool) :
    ((s.recordSample counters sampledAt online).1.1 = none ∧
      (s.recordSample counters sampledAt online).2.batches = s.batches ∧
      (s.recordSample counters sampledAt online).2.nextSequence = s.nextSequence) ∨
    ∃ batch : UsageBatch, batch.bootId = s.bootId ∧ batch.sequence = s.nextOf s.bootId ∧
      (s.recordSample counters sampledAt online).1.1 = some batch ∧
      (s.recordSample counters sampledAt online).2.batches = s.batches ++ [batch] ∧
      (s.recordSample counters sampledAt online).2.nextSequence =
        s.nextSequence.insert s.bootId (batch.sequence + 1) := by
  have htick : (counters.foldl (foldOne online) { store := s }).store.outbox = s.outbox := by
    refine List.foldlRecOn (motive := fun t : Tick => t.store.outbox = s.outbox) _ _ rfl ?_
    intro t ht counter _
    rcases foldOne_store online t counter with heq | ⟨b, row, -, -, -, heq⟩ <;>
      rw [heq] <;> exact ht
  simp only [outbox, Prod.mk.injEq] at htick
  obtain ⟨hbatches, hnext, hboot, -⟩ := htick
  unfold recordSample cutBatch
  dsimp only
  split
  · exact .inl ⟨rfl, hbatches, hnext⟩
  · refine .inr ⟨_, hboot, ?_, rfl, ?_, ?_⟩
    · unfold sequenceOf nextOf
      rw [hnext, hboot]
    · rw [hbatches]
    · rw [hnext, hboot]

end Store

/-! ## The invariant -/

namespace Outlog

/-- The batches of every boot are numbered from one without a gap, and those above the
acknowledged value are pending. -/
structure Contiguous (log : Outlog) : Prop where
  produced : ∀ bootId, (log.producedBy bootId).map (·.sequence) =
    List.range' 1 (log.producedBy bootId).length
  next : ∀ bootId, log.store.nextOf bootId = (log.producedBy bootId).length + 1
  acked : ∀ bootId, log.acked bootId ≤ (log.producedBy bootId).length
  pending : log.store.batches =
    log.produced.filter fun batch => log.acked batch.bootId < batch.sequence

namespace Contiguous

variable {log : Outlog}

theorem start (s : Store) : Contiguous (Outlog.start s) where
  produced := fun _ => rfl
  next := fun bootId => by
    unfold Store.nextOf Outlog.start
    dsimp only
    rw [show AList.lookup bootId (∅ : Table String Nat) = none from AList.lookup_empty bootId]
    rfl
  acked := fun _ => Nat.le_refl 0
  pending := rfl

/-- A produced batch is numbered within what its boot has produced. -/
theorem sequence_le (h : log.Contiguous) {batch : UsageBatch} (hbatch : batch ∈ log.produced) :
    1 ≤ batch.sequence ∧ batch.sequence ≤ (log.producedBy batch.bootId).length := by
  have hmem : batch.sequence ∈ (log.producedBy batch.bootId).map (·.sequence) :=
    List.mem_map_of_mem (List.mem_filter.2 ⟨hbatch, decide_eq_true rfl⟩)
  rw [h.produced, List.mem_range'_1] at hmem
  omega

/-- Only the store may change, as long as the batches and the sequences stay. -/
theorem of_store (h : log.Contiguous) {s : Store} (hbatches : s.batches = log.store.batches)
    (hnext : ∀ bootId, s.nextOf bootId = log.store.nextOf bootId) :
    Contiguous { log with store := s } where
  produced := h.produced
  next := fun bootId => (hnext bootId).trans (h.next bootId)
  acked := h.acked
  pending := hbatches.trans h.pending

theorem recordSample (h : log.Contiguous) (counters : List AbsoluteCounter) (sampledAt : Nat)
    (online : Bool) : (log.commit (.recordSample counters sampledAt online)).Contiguous := by
  unfold commit
  dsimp only
  rcases log.store.recordSample_produces counters sampledAt online with
    ⟨hbatch, hbatches, hnext⟩ | ⟨batch, hboot, hsequence, hbatch, hbatches, hnext⟩
  · rw [hbatch, Option.toList_none, List.append_nil]
    refine h.of_store hbatches fun bootId => ?_
    unfold Store.nextOf
    rw [hnext]
  rw [h.next] at hsequence
  rw [hbatch, Option.toList_some]
  have hby : ∀ bootId, (log.produced ++ [batch]).filter (·.bootId = bootId) =
      log.producedBy bootId ++ if batch.bootId = bootId then [batch] else [] := by
    intro bootId
    rw [List.filter_append, List.filter_singleton]
    simp [producedBy]
  refine ⟨fun bootId => ?_, fun bootId => ?_, fun bootId => ?_, ?_⟩
  · unfold producedBy
    dsimp only
    rw [hby, List.map_append, h.produced, List.length_append]
    split
    · rename_i heq
      rw [List.map_singleton, hsequence, ← heq, hboot, List.length_singleton, List.range'_concat]
      congr 2
      omega
    · rw [List.map_nil, List.append_nil]
      rfl
  · unfold producedBy Store.nextOf
    dsimp only
    rw [hby, hnext, Table.lookup_insert_ite, List.length_append]
    by_cases heq : bootId = log.store.bootId
    · rw [if_pos heq, if_pos (hboot.trans heq.symm), heq, hsequence]
      rfl
    · rw [if_neg heq, if_neg fun hb => heq (hb.symm.trans hboot)]
      exact h.next bootId
  · refine (h.acked bootId).trans ?_
    unfold producedBy
    dsimp only
    rw [hby, List.length_append]
    exact Nat.le_add_right _ _
  · dsimp only
    have hnew : log.acked batch.bootId < batch.sequence := by
      rw [hsequence, hboot]
      exact Nat.lt_succ_of_le (h.acked _)
    rw [hbatches, List.filter_append, h.pending, List.filter_singleton, decide_eq_true hnew]
    rfl

theorem ackThrough (h : log.Contiguous) (bootId : String) (ack : Nat) :
    (log.commit (.ackThrough bootId ack)).Contiguous := by
  refine ⟨h.produced, h.next, fun boot => ?_, ?_⟩
  · unfold commit
    dsimp only
    by_cases hboot : boot = bootId
    · subst hboot
      rw [Function.update_self]
      exact max_le (h.acked boot) (min_le_right _ _)
    · rw [Function.update_of_ne hboot]
      exact h.acked boot
  · change log.store.batches.filter _ = log.produced.filter _
    rw [h.pending, List.filter_filter]
    refine List.filter_congr fun batch hbatch => ?_
    have hrange := h.sequence_le hbatch
    rw [Bool.eq_iff_iff, decide_eq_true_iff]
    change _ ↔ Function.update log.acked bootId _ batch.bootId < batch.sequence
    by_cases hboot : batch.bootId = bootId
    · subst hboot
      rw [Function.update_self]
      simp only [decide_true, Bool.true_and, Bool.and_eq_true, Bool.not_eq_true',
        decide_eq_false_iff_not, decide_eq_true_eq]
      omega
    · rw [Function.update_of_ne hboot]
      simp [hboot]

theorem step (h : log.Contiguous) (call : Call × Bool) : (log.step call).Contiguous := by
  obtain ⟨call, committed⟩ := call
  unfold Outlog.step
  split
  · cases call with
    | recordSample counters sampledAt online => exact h.recordSample counters sampledAt online
    | ackThrough bootId ack => exact h.ackThrough bootId ack
    | reopen bootId =>
      exact h.of_store (log.store.reopen_eq bootId).1 (log.store.reopen_eq bootId).2
    | rewriteUsers rows => exact h.of_store rfl fun _ => rfl
  · exact h

theorem run (h : log.Contiguous) (calls : List (Call × Bool)) : (log.run calls).Contiguous :=
  List.foldlRecOn (motive := Contiguous) _ _ h fun _ hlog call _ => hlog.step call

end Contiguous

end Outlog

/-- An acknowledgement leaves the batches of the other boots alone. -/
theorem Store.ackThrough_other (s : Store) {bootId boot : String} (ack : Nat)
    (hboot : boot ≠ bootId) : (s.ackThrough bootId ack).2.batches.filter (·.bootId = boot) =
      s.batches.filter (·.bootId = boot) := by
  unfold Store.ackThrough
  dsimp only
  rw [List.filter_filter]
  refine List.filter_congr fun batch _ => ?_
  by_cases hbatch : batch.bootId = boot
  · simp [hbatch, hboot]
  · simp [hbatch]

/-- After every run of calls on a new data directory: the sequences a boot has produced are
one, two and so on in order; the pending batches are those above the value their boot was
acknowledged through, in the order they were produced; and an acknowledgement of one boot
keeps the batches of the others. -/
theorem sequences_are_contiguous (s : Store) (calls : List (Call × Bool)) :
    let log := (Outlog.start s).run calls
    let pending := log.produced.filter fun batch => log.acked batch.bootId < batch.sequence
    (∀ bootId, (log.producedBy bootId).map (·.sequence) =
      List.range' 1 (log.producedBy bootId).length) ∧
    log.store.batches = pending ∧
    (∀ limit, log.store.listPendingBatches limit =
      pending.take (if limit ≤ 0 then 100 else limit.toNat)) ∧
    ∀ bootId ack boot, boot ≠ bootId →
      (log.store.ackThrough bootId ack).2.batches.filter (·.bootId = boot) =
        log.store.batches.filter (·.bootId = boot) := by
  intro log pending
  have h : log.Contiguous := (Outlog.Contiguous.start s).run calls
  refine ⟨h.produced, h.pending, fun limit => ?_, fun bootId ack boot hboot => ?_⟩
  · unfold Store.listPendingBatches
    rw [h.pending]
  · exact log.store.ackThrough_other ack hboot

/-! ## An acknowledgement that comes too early -/

/-- The greatest value a run acknowledged a boot through, however much it had produced. -/
def greatestAck (calls : List (Call × Bool)) (bootId : String) : Nat :=
  calls.foldl (fun greatest call =>
    match call with
    | (.ackThrough boot ack, true) => if boot = bootId then max greatest ack else greatest
    | _ => greatest) 0

namespace Outlog

/-- A store with one enabled user. -/
def oneUser : Store where
  rows := AList.insert "a" ⟨.real "a@x", "u", "", true, 1, 100, 100, 0, 0, false, 0, 0⟩ ∅

/-- The boot is acknowledged through five before its first batch. -/
def earlyAck : List (Call × Bool) :=
  [(.ackThrough "boot" 5, true), (.recordSample [⟨"a@x", 3, 4⟩] 0 true, true)]

end Outlog

/-- A value that runs ahead of the batches is forgotten: the batch produced after it is
pending, although it is not above the greatest acknowledged value. -/
theorem early_ack_is_forgotten : ¬ ∀ (s : Store) (calls : List (Call × Bool)),
    let log := (Outlog.start s).run calls
    ∀ batch ∈ log.produced,
      (batch ∈ log.store.batches ↔ greatestAck calls batch.bootId < batch.sequence) := by
  intro h
  have hfails : ¬ ∀ batch ∈ ((Outlog.start Outlog.oneUser).run Outlog.earlyAck).produced,
      (batch ∈ ((Outlog.start Outlog.oneUser).run Outlog.earlyAck).store.batches ↔
        greatestAck Outlog.earlyAck batch.bootId < batch.sequence) := by
    decide +kernel
  exact hfails (h Outlog.oneUser Outlog.earlyAck)

end ChordV.Agent
