import ChordV.Lib.Lockstep
import ChordV.Api.Runs

/-!
# The retention of usage payloads

`redactSettledUsagePayloads` of `metering-retention.service.ts` clears the payload of stored
batches that are accounted.  It takes the rows that are old enough, in chunks, and which rows a
chunk takes is up to the database.  So one clearing is about any set of accounted rows here.

* `Redacted` relates two states that differ in the payloads of accounted batches only.
* A transaction that passes the batches on is `Indifferent` to them.
* The scan of an upload reads a payload only before it is accounted, and settlement reads only that
  a batch is accounted.
* `redaction_is_invisible`: in every run, with clearings at any points, each request is answered as
  it is without them.
-/

namespace ChordV.Api

open Lib Fallible

/-! ## Clearing -/

/-- An `UPDATE` of `redactSettledUsagePayloads`, with the rows that it took. -/
def redactSettledUsagePayloads (taken : BatchKey → Bool) (s : Database) : Database :=
  { s with batches := s.batches.mapRows fun key batch =>
      if batch.accounted && taken key then { batch with samples := [] } else batch }

/-- What a stored batch can still show. -/
def StoredBatch.settled (batch : StoredBatch) : StoredBatch :=
  if batch.accounted then { batch with samples := [] } else batch

/-- The batches with the payloads of all accounted ones cleared. -/
def settledBatches (batches : Table BatchKey StoredBatch) : Table BatchKey StoredBatch :=
  batches.mapRows fun _ batch => batch.settled

/-- The tables, with these batches. -/
def Database.withBatches (s : Database) (batches : Table BatchKey StoredBatch) : Database :=
  { s with batches }

/-- Two states that differ in the payloads of accounted batches only. -/
structure Redacted (s t : Database) : Prop where
  other : t = s.withBatches t.batches
  batches : settledBatches s.batches = settledBatches t.batches

theorem Redacted.refl (s : Database) : Redacted s s := ⟨rfl, rfl⟩

theorem Redacted.trans {s t u : Database} (h : Redacted s t) (h' : Redacted t u) :
    Redacted s u := by
  refine ⟨?_, h.batches.trans h'.batches⟩
  rw [h'.other, h.other]
  rfl

theorem redact_redacted (taken : BatchKey → Bool) (s : Database) :
    Redacted (redactSettledUsagePayloads taken s) s := by
  refine ⟨rfl, ?_⟩
  ext1
  show (s.batches.entries.map _).map _ = s.batches.entries.map _
  rw [List.map_map]
  refine List.map_congr_left fun entry _ => ?_
  obtain ⟨key, batch⟩ := entry
  show (⟨key, StoredBatch.settled _⟩ : Sigma fun _ : BatchKey => StoredBatch) = ⟨key, batch.settled⟩
  refine congrArg _ ?_
  unfold StoredBatch.settled
  cases haccounted : batch.accounted <;> cases htaken : taken key <;>
    simp [Sigma.map, haccounted, htaken]

/-! ## Transactions that pass the batches on -/

/-- Other batches, and the same but for them. -/
def Indifferent {α : Type} (f : Database → Except ApiError (α × Database)) : Prop :=
  ∀ s batches, f (s.withBatches batches) = (f s).map fun p => (p.1, p.2.withBatches batches)

/-- The same for a step of a transaction. -/
def IndifferentStep (f : Database → Except ApiError Database) : Prop :=
  ∀ s batches, f (s.withBatches batches) = (f s).map (·.withBatches batches)

/-- The same for batches that differ in the payloads of accounted ones only. -/
def Passes {α : Type} (f : Database → Except ApiError (α × Database)) : Prop :=
  ∀ s batches, settledBatches s.batches = settledBatches batches →
    f (s.withBatches batches) = (f s).map fun p => (p.1, p.2.withBatches batches)

theorem Indifferent.passes {α : Type} {f : Database → Except ApiError (α × Database)}
    (hf : Indifferent f) : Passes f := fun s batches _ => hf s batches

theorem Passes.respects {α : Type} {f : Database → Except ApiError (α × Database)}
    (hf : Passes f) (s t : Database) (h : Redacted s t) : SameOutcome Redacted (f s) (f t) := by
  have hs := hf s s.batches rfl
  have ht := hf s t.batches h.batches
  rw [← h.other] at ht
  rw [ht]
  rw [show s.withBatches s.batches = s from rfl] at hs
  cases hfs : f s with
  | error e => exact rfl
  | ok p =>
    rw [hfs] at hs
    have hp : p = (p.1, p.2.withBatches s.batches) := Except.ok.inj hs
    refine ⟨rfl, ?_⟩
    rw [hp]
    exact ⟨rfl, h.batches⟩

theorem heartbeat_indifferent (agentId bootId : String) :
    Indifferent (heartbeat agentId bootId) := by
  intro s batches
  unfold heartbeat
  simp only [except_map_bind]
  rfl

theorem newAgent_indifferent (agentId nodeId : String) (bootId : Option String) :
    IndifferentStep (newAgent agentId nodeId bootId) := by
  intro s batches
  unfold newAgent
  rw [except_map_bind]
  rfl

theorem createCredential_indifferent (nodeId agentId : String) :
    Indifferent (createCredential nodeId agentId) := by
  intro s batches
  unfold createCredential
  rw [except_map_bind]
  refine bind_congr fun node _ => ?_
  rw [except_map_bind]
  have hrevoke : revokeAll nodeId (s.withBatches batches) =
      (revokeAll nodeId s).withBatches batches := rfl
  rw [hrevoke, newAgent_indifferent]
  cases newAgent agentId nodeId none (revokeAll nodeId s) <;> rfl

theorem revokeCredential_indifferent (nodeId agentId : String) :
    Indifferent (revokeCredential nodeId agentId) := by
  intro s batches
  unfold revokeCredential
  simp only [except_map_bind]
  rfl

theorem registerAgent_indifferent (nodeId agentId bootId : String) :
    Indifferent (registerAgent nodeId agentId bootId) := by
  intro s batches
  unfold registerAgent
  rw [except_map_bind]
  refine bind_congr fun node _ => ?_
  rw [except_map_bind, newAgent_indifferent]
  cases newAgent agentId nodeId (some bootId) s <;> rfl

theorem cancelExhausted_indifferent (key : JobKey) : Indifferent (cancelExhausted key) := by
  intro s batches
  unfold cancelExhausted
  dsimp only [Database.withBatches]
  split
  · rfl
  · split <;> rfl

theorem claimDue_indifferent (key : JobKey) : Indifferent (claimDue key) := by
  intro s batches
  unfold claimDue
  dsimp only [Database.withBatches]
  split
  · rfl
  · split <;> rfl

theorem recordWatermarks_withBatches (nodeId : String) (job : Job)
    (watermarks : Option (List Watermark)) (s : Database)
    (batches : Table BatchKey StoredBatch) :
    recordWatermarks nodeId job watermarks (s.withBatches batches) =
      (recordWatermarks nodeId job watermarks s).withBatches batches := by
  unfold recordWatermarks
  cases watermarks with
  | none => rfl
  | some watermarks =>
    dsimp only
    split <;> rfl

theorem completeCommand_indifferent (agentId : String) (key : JobKey) (result : CommandResult) :
    Indifferent (completeCommand agentId key result) := by
  intro s batches
  unfold completeCommand currentAgent
  simp only [except_map_bind]
  refine bind_congr fun agent _ => bind_congr fun job _ => bind_congr fun _ _ => ?_
  cases result with
  | failed => rfl
  | completed watermarks =>
    exact congrArg (fun t => Except.ok ((), t)) (recordWatermarks_withBatches _ job watermarks
      { s with jobs := s.jobs.insert key { job with status := .completed } } batches)

/-! ### Commands -/

theorem bumpRevision_indifferent (nodeId : String) : Indifferent (bumpRevision nodeId) := by
  intro s batches
  unfold bumpRevision
  rw [except_map_bind]
  rfl

/-- The rest of `queueDirectBindingCommand`, once there is a revision. -/
def queueAt (type : CommandType) (payload : Binding → Agent.Payload) (bindingId : String)
    (binding : Binding) (revision : Nat) (s : Database) : Except ApiError Database :=
  match s.agentOf binding.nodeId with
  | none => throw .noAgent
  | some agentId =>
    let updated := { binding with source := .direct, directRevision := revision }
    let s := resolveExhaustedCommands bindingId type
      { s with bindings := s.bindings.insert bindingId updated }
    let job : Job :=
      { nodeId := binding.nodeId, agentId, commandType := type, targetRevision := revision
        payload := payload binding, bindingId }
    return { s with jobs := s.jobs.insert (.agent type bindingId revision) job }

theorem queueDirectBindingCommand_eq (type : CommandType) (payload : Binding → Agent.Payload)
    (bindingId : String) (s : Database) : queueDirectBindingCommand type payload bindingId s =
      find s.bindings bindingId .bindingMissing >>= fun binding =>
        bumpRevision binding.nodeId s >>= fun p =>
          queueAt type payload bindingId binding p.1 p.2 := rfl

theorem queueAt_indifferent (type : CommandType) (payload : Binding → Agent.Payload)
    (bindingId : String) (binding : Binding) (revision : Nat) :
    IndifferentStep (queueAt type payload bindingId binding revision) := by
  intro s batches
  have hagent : (s.withBatches batches).agentOf binding.nodeId = s.agentOf binding.nodeId := rfl
  unfold queueAt
  rw [hagent]
  cases s.agentOf binding.nodeId <;> rfl

theorem queueDirectBindingCommand_indifferent (type : CommandType)
    (payload : Binding → Agent.Payload) (bindingId : String) :
    IndifferentStep (queueDirectBindingCommand type payload bindingId) := by
  intro s batches
  rw [queueDirectBindingCommand_eq, queueDirectBindingCommand_eq, except_map_bind]
  refine bind_congr fun binding _ => ?_
  rw [bumpRevision_indifferent, except_map_bind]
  cases bumpRevision binding.nodeId s with
  | error e => rfl
  | ok p => exact queueAt_indifferent type payload bindingId binding p.1 p.2 batches

theorem queueAll_indifferent (type : CommandType) (bindingIds : List String) :
    IndifferentStep (queueAll type bindingIds) := fun s batches =>
  foldlM_map (m := fun s : Database => s.withBatches batches) (fun s id =>
    queueDirectBindingCommand_indifferent type (accountPayload id) id s batches) bindingIds s

/-- The bindings that a command is queued for, and the status that they get. -/
theorem queueAndMark_indifferent (type : CommandType) (status : BindingStatus)
    (old : List BindingStatus) (ids : Database → List String)
    (hids : ∀ s batches, ids (s.withBatches batches) = ids s) :
    Indifferent fun s => do
      let s' ← queueAll type (ids s) s
      return ((), markBindings status old (ids s) s') := by
  intro s batches
  dsimp only
  rw [hids, queueAll_indifferent, except_map_bind]
  cases queueAll type (ids s) s <;> rfl

theorem queuePanelDisableJobs_indifferent (subscriptionId : String) (filter : BindingFilter) :
    Indifferent (queuePanelDisableJobs subscriptionId filter) :=
  queueAndMark_indifferent .disableUser .disabled [.active]
    (fun s => (bindingsOf s subscriptionId filter [.active]).map Prod.fst) fun _ _ => rfl

theorem queuePanelDeleteJobs_indifferent (subscriptionId : String) (filter : BindingFilter) :
    Indifferent (queuePanelDeleteJobs subscriptionId filter) :=
  queueAndMark_indifferent .removeUser .deleted [.active, .disabled]
    (fun s => (bindingsOf s subscriptionId filter [.active, .disabled]).map Prod.fst) fun _ _ => rfl

theorem quiesceDirectBindings_indifferent (subscriptionId : String) (userId : Option String) :
    Indifferent (quiesceDirectBindings subscriptionId userId) :=
  queueAndMark_indifferent .disableUser .disabled [.active]
    (fun s => ((bindingsOf s subscriptionId { userId } [.active]).filter
      fun p : String × Binding => p.2.source = .direct).map Prod.fst) fun _ _ => rfl

/-! ### Billing -/

theorem autoDisable_withBatches (nodeId agentId : String) (revision : Nat) (s : Database)
    (p : String × Binding) (batches : Table BatchKey StoredBatch) :
    autoDisable nodeId agentId revision (s.withBatches batches) p =
      (autoDisable nodeId agentId revision s p).withBatches batches := by
  by_cases h : (s.jobs.lookup (.autoDisable p.1 revision)).isSome
  · have hs : autoDisable nodeId agentId revision s p = s := if_pos h
    rw [hs]
    exact if_pos h
  · have h' : ¬((s.withBatches batches).jobs.lookup (.autoDisable p.1 revision)).isSome := h
    unfold autoDisable
    rw [if_neg h, if_neg h']
    rfl

theorem foldl_withBatches {β : Type} {f : Database → β → Database}
    (hf : ∀ s b batches, f (s.withBatches batches) b = (f s b).withBatches batches) (bs : List β)
    (s : Database) (batches : Table BatchKey StoredBatch) :
    bs.foldl f (s.withBatches batches) = (bs.foldl f s).withBatches batches := by
  induction bs generalizing s with
  | nil => rfl
  | cons b bs ih => rw [List.foldl_cons, List.foldl_cons, hf, ih]

theorem disableOnNode_indifferent (currentNodeId currentAgentId nodeId : String)
    (bindings : List (String × Binding)) :
    Indifferent (disableOnNode currentNodeId currentAgentId nodeId bindings) := by
  intro s batches
  have hagent : (s.withBatches batches).agentOf nodeId = s.agentOf nodeId := rfl
  unfold disableOnNode
  rw [hagent, bumpRevision_indifferent, except_map_bind]
  cases bumpRevision nodeId s with
  | error e => rfl
  | ok p =>
    have hdisable := foldl_withBatches (f := disableAt p.1) (fun _ _ _ => rfl) bindings p.2 batches
    dsimp only [Except.map, ok_bind]
    generalize (if nodeId = currentNodeId then some currentAgentId else s.agentOf nodeId) = agent
    rw [hdisable]
    cases agent with
    | none => rfl
    | some agentId =>
      dsimp only
      rw [foldl_withBatches (autoDisable_withBatches nodeId agentId p.1)]
      rfl

theorem disableNext_indifferent (currentNodeId currentAgentId : String)
    (bindings : List (String × Binding)) (agentIds : List String) (nodeId : String) :
    Indifferent fun s =>
      disableNext currentNodeId currentAgentId bindings (agentIds, s) nodeId := by
  intro s batches
  unfold disableNext
  dsimp only
  rw [disableOnNode_indifferent]
  cases disableOnNode currentNodeId currentAgentId nodeId
    (bindings.filter (·.2.nodeId = nodeId)) s <;> rfl

theorem disableDirectBindings_indifferent (currentNodeId currentAgentId : String)
    (disabled : List String) : Indifferent
      (disableDirectBindingsForSubscriptions currentNodeId currentAgentId disabled) :=
  fun s batches => foldlM_map
    (m := fun p : List String × Database => (p.1, p.2.withBatches batches))
    (fun p nodeId => disableNext_indifferent currentNodeId currentAgentId _ p.1 nodeId p.2 batches)
    _ ([], s)

theorem chargeNext_withBatches (read : Database) (sampledAt : Nat)
    (batches : Table BatchKey StoredBatch)
    (p : List String × List SubscriptionTransition × Database) (usage : Usage) :
    chargeNext (read.withBatches batches) sampledAt (p.1, p.2.1, p.2.2.withBatches batches) usage =
      (chargeNext read sampledAt p usage).map fun p =>
        (p.1, p.2.1, p.2.2.withBatches batches) := by
  have hsubscriptions : (read.withBatches batches).subscriptions = read.subscriptions := rfl
  unfold chargeNext chargeSubscription
  rw [hsubscriptions]
  cases find read.subscriptions usage.subscriptionId .subscriptionMissing with
  | error e => rfl
  | ok sub =>
    dsimp only [ok_bind]
    cases trafficBytesToGbNumber (sub.usedBytes + usage.deltaBytes) with
    | error e => rfl
    | ok used =>
      dsimp only [ok_bind]
      cases trafficBytesToGbNumber (sub.totalBytes - (sub.usedBytes + usage.deltaBytes)) <;> rfl

theorem chargeAll_withBatches (read : Database) (sampledAt : Nat) (usages : List Usage)
    (batches : Table BatchKey StoredBatch) (s : Database) :
    chargeAll (read.withBatches batches) sampledAt usages (s.withBatches batches) =
      (chargeAll read sampledAt usages s).map fun p =>
        (p.1, p.2.1, p.2.2.withBatches batches) :=
  foldlM_map (m := fun p : List String × List SubscriptionTransition × Database =>
    (p.1, p.2.1, p.2.2.withBatches batches)) (chargeNext_withBatches read sampledAt batches) usages
    ([], [], s)

theorem writeEntries_withBatches (key : BatchKey) (billed : List (Entry × Nat))
    (skipped : List String) (s : Database) (batches : Table BatchKey StoredBatch) :
    writeEntries key billed skipped (s.withBatches batches) =
      (writeEntries key billed skipped s).withBatches batches := by
  have hfold := foldl_withBatches (f := fun t (p : Entry × Nat) => writeEntry p.1 t)
    (fun _ _ _ => rfl) (billed.filter fun p => !p.1.unchanged s) s batches
  have hunchanged : ∀ e : Entry, e.unchanged (s.withBatches batches) = e.unchanged s :=
    fun _ => rfl
  unfold writeEntries
  simp only [hunchanged, hfold]
  rfl

theorem applyDirectBatch_indifferent (agentId : String) (key : BatchKey) (sampledAt : Nat)
    (samples : List UsageSample) :
    Indifferent (applyDirectBatch agentId key sampledAt samples) := by
  intro s batches
  have hprepare : prepareSamples (s.withBatches batches) key samples =
      prepareSamples s key samples := rfl
  have hbill : ∀ entries, billEntries (s.withBatches batches) entries = billEntries s entries :=
    fun _ => rfl
  unfold applyDirectBatch
  split
  · rfl
  · rw [hprepare, except_map_bind]
    refine bind_congr fun _ _ => ?_
    rw [except_map_bind]
    refine bind_congr fun prepared _ => ?_
    obtain ⟨entries, skipped⟩ := prepared
    dsimp only
    rw [hbill, except_map_bind]
    refine bind_congr fun billed _ => ?_
    rw [writeEntries_withBatches, chargeAll_withBatches]
    cases chargeAll s sampledAt (billed.foldl addUsage []) (writeEntries key billed skipped s) with
    | error e => rfl
    | ok charged =>
      obtain ⟨disabled, transitions, charged⟩ := charged
      dsimp only [Except.map, ok_bind]
      by_cases hnone : disabled.isEmpty = true
      · rw [if_pos hnone, if_pos hnone]
        rfl
      · rw [if_neg hnone, if_neg hnone]
        show (disableDirectBindingsForSubscriptions key.nodeId agentId disabled
          (({ charged with ledger := charged.ledger ++ billed.filterMap (ledgerRow sampledAt) } :
            Database).withBatches batches) >>= fun p =>
              pure (({ transitions, commandAgentIds := p.1 } : Application), p.2)) = _
        rw [disableDirectBindings_indifferent]
        cases disableDirectBindingsForSubscriptions key.nodeId agentId disabled
          { charged with
            ledger := charged.ledger ++ billed.filterMap (ledgerRow sampledAt) } <;> rfl

/-! ### Snapshots and activations -/

theorem ensureTrafficSnapshotBaseline_withBatches (key : SnapshotKey) (uplink downlink : Nat)
    (replaceExisting : Bool) (s : Database) (batches : Table BatchKey StoredBatch) :
    ensureTrafficSnapshotBaseline key uplink downlink replaceExisting (s.withBatches batches) =
      (ensureTrafficSnapshotBaseline key uplink downlink replaceExisting s).withBatches
        batches := by
  have hsnapshots : (s.withBatches batches).snapshots = s.snapshots := rfl
  unfold ensureTrafficSnapshotBaseline
  rw [hsnapshots]
  cases s.snapshots.lookup key with
  | none => rfl
  | some current => cases replaceExisting <;> rfl

theorem queuePanelEnsureJob_indifferent (bindingId flow : String) :
    IndifferentStep (queuePanelEnsureJob bindingId flow) := by
  intro s batches
  unfold queuePanelEnsureJob
  rw [except_map_bind]
  refine bind_congr fun binding _ => ?_
  rw [except_map_bind]
  exact bind_congr fun sub _ =>
    queueDirectBindingCommand_indifferent .ensureUser _ bindingId s batches

theorem activateNew_indifferent (input : Activation) (flow : String) :
    IndifferentStep (activateNew input flow) := by
  intro s batches
  unfold activateNew
  rw [except_map_bind]
  refine bind_congr fun _ _ => ?_
  have hbaseline := ensureTrafficSnapshotBaseline_withBatches input.binding.snapshotKey 0 0 false
    { s with bindings := s.bindings.insert input.newBindingId input.binding } batches
  exact (congrArg (queuePanelEnsureJob input.newBindingId flow) hbaseline).trans
    (queuePanelEnsureJob_indifferent input.newBindingId flow _ batches)

/-- Activating an existing binding, once it is settled. -/
theorem revive_indifferent (input : Activation) (flow bindingId : String) (existing : Binding) :
    IndifferentStep fun s => queuePanelEnsureJob bindingId flow (rebaseline existing
      { s with bindings := s.bindings.insert bindingId (input.revive existing) }) := by
  intro s batches
  have hbaseline : ∀ t : Database, rebaseline existing (t.withBatches batches) =
      (rebaseline existing t).withBatches batches := by
    intro t
    unfold rebaseline
    split
    · exact ensureTrafficSnapshotBaseline_withBatches _ _ _ _ _ _
    · exact ensureTrafficSnapshotBaseline_withBatches _ _ _ _ _ _
  exact (congrArg (queuePanelEnsureJob bindingId flow) (hbaseline
    { s with bindings := s.bindings.insert bindingId (input.revive existing) })).trans
      (queuePanelEnsureJob_indifferent bindingId flow _ batches)

/-! ## Settlement -/

theorem StoredBatch.accounted_settled (batch : StoredBatch) :
    batch.settled.accounted = batch.accounted := by
  unfold settled
  split <;> rfl

theorem lookup_settledBatches (batches : Table BatchKey StoredBatch) (key : BatchKey) :
    (settledBatches batches).lookup key = (batches.lookup key).map StoredBatch.settled :=
  Table.lookup_mapRows _ _ key

/-- Settlement does not read payloads. -/
theorem accounted_eq {batches batches' : Table BatchKey StoredBatch}
    (h : settledBatches batches = settledBatches batches') (key : BatchKey) :
    (batches'.lookup key).map (·.accounted) = (batches.lookup key).map (·.accounted) := by
  have hsettled : ∀ batches : Table BatchKey StoredBatch,
      ((settledBatches batches).lookup key).map (·.accounted) =
        (batches.lookup key).map (·.accounted) := by
    intro batches
    rw [lookup_settledBatches, Option.map_map]
    exact congrArg (fun f => Option.map f _) (funext StoredBatch.accounted_settled)
  rw [← hsettled batches, ← hsettled batches', h]

section Settlement

variable {s : Database} {batches : Table BatchKey StoredBatch}
  (h : settledBatches s.batches = settledBatches batches)
include h

theorem assertSettled_withBatches (bindingId : String) (b : Binding) :
    assertDirectTerminalWatermarksSettled bindingId b (s.withBatches batches) =
      assertDirectTerminalWatermarksSettled bindingId b s := by
  have hbatches : (s.withBatches batches).batches = batches := rfl
  unfold assertDirectTerminalWatermarksSettled
  simp only [hbatches, accounted_eq h]

theorem activateExisting_withBatches (input : Activation) (flow bindingId : String)
    (existing : Binding) : activateExisting input flow bindingId existing (s.withBatches batches) =
      (activateExisting input flow bindingId existing s).map (·.withBatches batches) := by
  have hassert : assertSettledBefore bindingId existing (s.withBatches batches) =
      assertSettledBefore bindingId existing s := by
    unfold assertSettledBefore
    rw [assertSettled_withBatches h]
  unfold activateExisting
  rw [hassert, except_map_bind]
  exact bind_congr fun _ _ => revive_indifferent input flow bindingId existing s batches

theorem ensurePanelClientBindingLocally_withBatches (input : Activation) (flow : String) :
    ensurePanelClientBindingLocally input flow (s.withBatches batches) =
      (ensurePanelClientBindingLocally input flow s).map (·.withBatches batches) := by
  have hfind : findBinding input (s.withBatches batches) = findBinding input s := rfl
  unfold ensurePanelClientBindingLocally
  rw [hfind]
  cases findBinding input s with
  | none => exact activateNew_indifferent input flow s batches
  | some p => exact activateExisting_withBatches h input flow p.1 p.2

end Settlement

theorem ensurePanelClientBinding_passes (input : Activation) :
    Passes (ensurePanelClientBinding input) := by
  intro s batches h
  unfold ensurePanelClientBinding
  rw [except_map_bind]
  refine bind_congr fun node _ => ?_
  rw [except_map_bind]
  refine bind_congr fun _ _ => ?_
  rw [ensurePanelClientBindingLocally_withBatches h]
  cases ensurePanelClientBindingLocally input node.flow s <;> rfl

theorem persistBaseline_withBatches (s : Database) (p : String × Binding)
    (batches : Table BatchKey StoredBatch) :
    persistBaseline (s.withBatches batches) p = (persistBaseline s p).withBatches batches := by
  unfold persistBaseline
  cases p.2.userId with
  | none => rfl
  | some userId =>
    dsimp only
    rw [ensureTrafficSnapshotBaseline_withBatches]
    rfl

theorem resetTraffic_passes (subscriptionId : String) (userId : Option String) :
    Passes (resetTraffic subscriptionId userId) := by
  intro s batches h
  have hbindings : ∀ statuses, bindingsOf (s.withBatches batches) subscriptionId { userId }
      statuses = bindingsOf s subscriptionId { userId } statuses := fun _ => rfl
  unfold resetTraffic
  simp only [hbindings, assertSettled_withBatches h, except_map_bind]
  refine bind_congr fun _ _ => bind_congr fun sub _ => ?_
  rw [foldl_withBatches persistBaseline_withBatches]
  rfl

/-! ## Uploads -/

/-- The stored batches in the order of a scan, with the payloads of accounted ones cleared. -/
def settledRows (rows : List (BatchKey × StoredBatch)) : List (BatchKey × StoredBatch) :=
  rows.map fun p => (p.1, p.2.settled)

theorem settledRows_batchesAbove {s t : Database} (h : Redacted s t)
    (agentId nodeId bootId : String) (ack : Nat) :
    settledRows (batchesAbove t agentId nodeId bootId ack) =
      settledRows (batchesAbove s agentId nodeId bootId ack) := by
  have hrows : ∀ u : Database, settledRows (batchesAbove u agentId nodeId bootId ack) =
      ((settledBatches u.batches).pairs.filter fun p => p.2.agentId = agentId &&
        p.1.nodeId = nodeId && p.1.bootId = bootId && decide (ack < p.1.sequence)).insertionSort
          fun p q => p.1.sequence ≤ q.1.sequence := by
    intro u
    have hagent : ∀ batch : StoredBatch, batch.settled.agentId = batch.agentId := by
      intro batch
      unfold StoredBatch.settled
      split <;> rfl
    rw [settledRows, batchesAbove]
    refine (List.map_insertionSort _ (fun p q : BatchKey × StoredBatch =>
      p.1.sequence ≤ q.1.sequence) _ _ fun _ _ _ _ => Iff.rfl).trans ?_
    rw [settledBatches, Table.pairs_mapRows, List.filter_map]
    simp only [Function.comp_def, hagent]
  rw [hrows, hrows, h.batches]

theorem settledRows_take (rows : List (BatchKey × StoredBatch)) (n : Nat) :
    settledRows (rows.take n) = (settledRows rows).take n := List.map_take

/-- The scan of `advanceAck` reads no payload. -/
theorem advanceFrom_settledRows (ack : Nat) (rows : List (BatchKey × StoredBatch)) :
    advanceFrom ack (settledRows rows) = advanceFrom ack rows := by
  induction rows generalizing ack with
  | nil => rfl
  | cons p rows ih =>
    show advanceFrom ack ((p.1, p.2.settled) :: settledRows rows) = advanceFrom ack (p :: rows)
    unfold advanceFrom
    rw [ih]

theorem advanceAck_redacted {s t : Database} (h : Redacted s t) (agentId nodeId bootId : String)
    (ack : Nat) :
    advanceAck agentId nodeId bootId ack t = advanceAck agentId nodeId bootId ack s := by
  unfold advanceAck
  rw [← advanceFrom_settledRows, settledRows_take, settledRows_batchesAbove h, ← settledRows_take,
    advanceFrom_settledRows]

/-- A batch that is accounted now. -/
theorem settledBatches_account (batches : Table BatchKey StoredBatch) (key : BatchKey) :
    settledBatches (batches.modify key ({ · with accounted := true })) =
      (settledBatches batches).modify key ({ · with accounted := true, samples := [] }) := by
  refine Table.mapRows_modify batches _ fun batch _ => ?_
  unfold StoredBatch.settled
  rw [if_pos rfl]
  split <;> rfl

theorem Redacted.account {s t : Database} (h : Redacted s t) (key : BatchKey) (log : List Event) :
    Redacted
      { s with batches := s.batches.modify key ({ · with accounted := true }), log }
      { t with batches := t.batches.modify key ({ · with accounted := true }), log } := by
  refine ⟨?_, ?_⟩
  · rw [h.other]
    rfl
  · show settledBatches (s.batches.modify key _) = settledBatches (t.batches.modify key _)
    rw [settledBatches_account, settledBatches_account, h.batches]

theorem accountBatch_redacted {s t : Database} (h : Redacted s t) (agentId : String)
    (key : BatchKey) (batch : StoredBatch) :
    SameOutcome Redacted (accountBatch agentId key batch s) (accountBatch agentId key batch t) := by
  refine SameOutcome.bind ((applyDirectBatch_indifferent agentId key batch.sampledAt
    batch.samples).passes.respects s t h) fun applied s' t' h' => ⟨rfl, ?_⟩
  have hlog : t'.log = s'.log := by rw [h'.other]; rfl
  rw [hlog]
  exact h'.account key _

/-- A payload that is still read is the same in both states. -/
theorem eq_of_settled {batch batch' : StoredBatch} (h : batch'.settled = batch.settled)
    (hopen : batch.accounted = false) : batch' = batch := by
  have haccounted := congrArg StoredBatch.accounted h
  rw [StoredBatch.accounted_settled, StoredBatch.accounted_settled, hopen] at haccounted
  unfold StoredBatch.settled at h
  rwa [haccounted, hopen] at h

/-- The scan of an upload. -/
theorem accountFrom_redacted (agentId : String) (rows rows' : List (BatchKey × StoredBatch))
    (hrows : settledRows rows' = settledRows rows) (scan : Scan) {s t : Database}
    (h : Redacted s t) :
    SameOutcome Redacted (accountFrom agentId scan rows s) (accountFrom agentId scan rows' t) := by
  induction rows generalizing rows' scan s t with
  | nil =>
    obtain rfl : rows' = [] := List.map_eq_nil_iff.1 hrows
    exact ⟨rfl, h⟩
  | cons p rows ih =>
    obtain ⟨key, batch⟩ := p
    cases rows' with
    | nil => cases hrows
    | cons p' rows' =>
      obtain ⟨key', batch'⟩ := p'
      obtain ⟨hhead, htail⟩ := List.cons.inj hrows
      obtain ⟨rfl, hbatch⟩ := Prod.mk.inj hhead
      have haccounted := congrArg StoredBatch.accounted hbatch
      dsimp only at hbatch haccounted
      rw [StoredBatch.accounted_settled, StoredBatch.accounted_settled] at haccounted
      unfold accountFrom
      by_cases hgap : key'.sequence ≠ scan.ackThrough + 1
      · rw [if_pos hgap, if_pos hgap]
        exact ⟨rfl, h⟩
      rw [if_neg hgap, if_neg hgap, haccounted]
      cases hopen : batch.accounted with
      | true => exact ih rows' htail _ h
      | false =>
        rw [eq_of_settled hbatch hopen]
        exact SameOutcome.bind (accountBatch_redacted h agentId key' batch)
          fun applied s' t' h' => ih rows' htail _ h'

theorem processBatches_redacted {s t : Database} (h : Redacted s t) (agentId nodeId bootId : String)
    (ack : Nat) : SameOutcome Redacted (processBatches agentId nodeId bootId ack s)
      (processBatches agentId nodeId bootId ack t) := by
  have hnodes : t.nodes = s.nodes := by rw [h.other]; rfl
  unfold processBatches
  rw [hnodes]
  cases find s.nodes nodeId .nodeMissing with
  | error e => exact rfl
  | ok node =>
    dsimp only [ok_bind]
    split
    · refine accountFrom_redacted agentId _ _ ?_ _ h
      rw [settledRows_take, settledRows_take, settledRows_batchesAbove h]
    · exact ⟨by rw [advanceAck_redacted h], h⟩

section Upload

variable {s t : Database} (h : Redacted s t) (payloadHash : UsageBatch → String)
include h

/-- A batch that is stored is compared by its hash. -/
theorem storeBatch_redacted (agentId nodeId : String) (batch : UsageBatch) :
    SameOutcome Redacted ((storeBatch payloadHash agentId nodeId batch s).map fun s => ((), s))
      ((storeBatch payloadHash agentId nodeId batch t).map fun t => ((), t)) := by
  have hhash : ∀ u : Database, (u.batches.lookup (batchKey nodeId batch)).map (·.payloadHash) =
      ((settledBatches u.batches).lookup (batchKey nodeId batch)).map (·.payloadHash) := by
    intro u
    rw [lookup_settledBatches, Option.map_map]
    refine congrArg (fun f => Option.map f _) (funext fun stored => ?_)
    show stored.payloadHash = stored.settled.payloadHash
    unfold StoredBatch.settled
    split <;> rfl
  have hsame : (t.batches.lookup (batchKey nodeId batch)).map (·.payloadHash) =
      (s.batches.lookup (batchKey nodeId batch)).map (·.payloadHash) := by
    rw [hhash t, hhash s, h.batches]
  unfold storeBatch
  cases hs : s.batches.lookup (batchKey nodeId batch) <;>
    cases ht : t.batches.lookup (batchKey nodeId batch) <;> rw [hs, ht] at hsame
  · refine ⟨rfl, ?_, ?_⟩
    · rw [h.other]
      rfl
    · show settledBatches (s.batches.insert _ _) = settledBatches (t.batches.insert _ _)
      unfold settledBatches
      rw [Table.mapRows_insert, Table.mapRows_insert]
      exact congrArg (fun b => AList.insert _ _ b) h.batches
  · cases hsame
  · cases hsame
  · next existing existing' =>
    have heq : existing'.payloadHash = existing.payloadHash := Option.some.inj hsame
    dsimp only
    rw [heq]
    split
    · exact ⟨rfl, h⟩
    · exact rfl

theorem ingestTx_redacted (agentId : String) (batch : UsageBatch) :
    SameOutcome Redacted (ingestTx payloadHash agentId batch s)
      (ingestTx payloadHash agentId batch t) := by
  have hagent : currentAgent agentId t = currentAgent agentId s := by
    rw [h.other]
    rfl
  unfold ingestTx
  rw [hagent]
  cases currentAgent agentId s with
  | error e => exact rfl
  | ok agent =>
    dsimp only [ok_bind]
    have hstore := storeBatch_redacted h payloadHash agentId (agent.uploading batch.bootId).nodeId
      batch
    cases hs : storeBatch payloadHash agentId (agent.uploading batch.bootId).nodeId batch s <;>
      cases ht : storeBatch payloadHash agentId (agent.uploading batch.bootId).nodeId batch t <;>
        rw [hs, ht] at hstore
    · exact hstore
    · exact hstore.elim
    · exact hstore.elim
    · next s' t' =>
      refine SameOutcome.bind (processBatches_redacted hstore.2 agentId _ batch.bootId _)
        fun scan s'' t'' h'' => ⟨rfl, ?_, h''.batches⟩
      rw [h''.other]
      rfl

end Upload

/-! ## Requests -/

theorem withSerializableRetry_respects {α : Type} {operation : ApiM α}
    (h : Respects Redacted operation) :
    ∀ attempts, Respects Redacted (withSerializableRetry operation attempts)
  | 0 => h
  | attempts + 1 => by
    refine Respects.bind h.attempt fun r => ?_
    cases r with
    | ok a => exact Respects.pure a
    | error e =>
      split
      · next heq => cases heq
      · exact withSerializableRetry_respects h attempts
      · exact Respects.fail _

theorem transaction_respects {α : Type} {f : Database → Except ApiError (α × Database)}
    (hf : Passes f) : Respects Redacted (transaction f) :=
  Respects.atomic ApiError.unavailable hf.respects

theorem silently_respects {f : Database → Except ApiError (Unit × Database)} (hf : Passes f) :
    Respects Redacted (silently f) :=
  Respects.bind (transaction_respects hf) fun _ => Respects.pure none

/-- No request can tell the payloads of accounted batches apart. -/
theorem Request.respects (payloadHash : UsageBatch → String) (request : Request) :
    Respects Redacted (request.program payloadHash) := by
  cases request with
  | heartbeat agentId bootId =>
    exact Respects.bind (Respects.ensure _ _) fun _ => Respects.bind
      (transaction_respects (heartbeat_indifferent agentId bootId).passes) fun _ => Respects.pure _
  | upload agentId batch =>
    have htransaction : Respects Redacted (transaction (ingestTx payloadHash agentId batch)) :=
      Respects.atomic ApiError.unavailable fun _ _ h =>
        ingestTx_redacted h payloadHash agentId batch
    exact Respects.bind (Respects.ensure _ _) fun _ => Respects.bind
      (Respects.bind (withSerializableRetry_respects htransaction 2) fun _ => Respects.pure _)
      fun _ => Respects.pure _
  | complete agentId key result =>
    exact silently_respects (completeCommand_indifferent agentId key result).passes
  | disable subscriptionId filter =>
    exact silently_respects (queuePanelDisableJobs_indifferent subscriptionId filter).passes
  | delete subscriptionId filter =>
    exact silently_respects (queuePanelDeleteJobs_indifferent subscriptionId filter).passes
  | quiesce subscriptionId userId =>
    exact silently_respects (quiesceDirectBindings_indifferent subscriptionId userId).passes
  | activate input => exact silently_respects (ensurePanelClientBinding_passes input)
  | reset subscriptionId userId =>
    exact silently_respects (resetTraffic_passes subscriptionId userId)
  | cancelExhausted key => exact silently_respects (cancelExhausted_indifferent key).passes
  | claimDue key => exact silently_respects (claimDue_indifferent key).passes
  | createCredential nodeId agentId =>
    exact silently_respects (createCredential_indifferent nodeId agentId).passes
  | revokeCredential nodeId agentId =>
    exact silently_respects (revokeCredential_indifferent nodeId agentId).passes
  | register nodeId agentId bootId =>
    exact Respects.bind (Respects.ensure _ _) fun _ =>
      silently_respects (registerAgent_indifferent nodeId agentId bootId).passes
  | tick milliseconds => exact silently_respects fun _ _ _ => rfl

/-! ## Runs -/

/-- A request, or a clearing with the rows that it takes. -/
inductive RetentionStep where
  | request (step : Step)
  | redact (taken : BatchKey → Bool)

/-- The request of a step. -/
def RetentionStep.request? : RetentionStep → Option Step
  | .request step => some step
  | .redact _ => none

namespace Database

variable (payloadHash : UsageBatch → String)

/-- What a request is answered with, or the error that it ends with. -/
def answer (s : Database) (step : Step) : Except (Stop ApiError) (Option Ack) :=
  outcome (step.1.program payloadHash) s step.2

/-- The answers to the requests of a run. -/
def answers : Database → List Step → List (Except (Stop ApiError) (Option Ack))
  | _, [] => []
  | s, step :: rest => s.answer payloadHash step :: answers (s.step payloadHash step) rest

/-- A run with clearings: the answers to its requests, and what it leaves behind. -/
def runRetention : Database → List RetentionStep →
    List (Except (Stop ApiError) (Option Ack)) × Database
  | s, [] => ([], s)
  | s, .request step :: rest =>
    let later := runRetention (s.step payloadHash step) rest
    (s.answer payloadHash step :: later.1, later.2)
  | s, .redact taken :: rest => runRetention (redactSettledUsagePayloads taken s) rest

end Database

/-- The two runs, from states that differ in cleared payloads. -/
theorem runRetention_redacted (payloadHash : UsageBatch → String) (steps : List RetentionStep)
    {s t : Database} (h : Redacted s t) :
    (s.runRetention payloadHash steps).1 =
        t.answers payloadHash (steps.filterMap RetentionStep.request?) ∧
      Redacted (s.runRetention payloadHash steps).2
        (t.run payloadHash (steps.filterMap RetentionStep.request?)) := by
  induction steps generalizing s t with
  | nil => exact ⟨rfl, h⟩
  | cons step steps ih =>
    cases step with
    | request step =>
      have hrespects := step.1.respects payloadHash
      have hanswer : s.answer payloadHash step = t.answer payloadHash step :=
        hrespects.outcome h step.2
      obtain ⟨hanswers, hfinal⟩ := ih (hrespects.finalWorld h step.2)
      refine ⟨?_, hfinal⟩
      rw [Database.runRetention, hanswer]
      exact congrArg _ hanswers
    | redact taken => exact ih ((redact_redacted taken s).trans h)

/-- Clearings are invisible: each request gets the answer or the error that it gets without them,
and the run leaves the same tables, but for payloads of accounted batches. -/
theorem redaction_is_invisible (payloadHash : UsageBatch → String) (s : Database)
    (steps : List RetentionStep) :
    let plain := s.run payloadHash (steps.filterMap RetentionStep.request?)
    let (answers, cleared) := s.runRetention payloadHash steps
    answers = s.answers payloadHash (steps.filterMap RetentionStep.request?) ∧
      plain = cleared.withBatches plain.batches ∧
        settledBatches cleared.batches = settledBatches plain.batches := by
  obtain ⟨hanswers, hfinal⟩ := runRetention_redacted payloadHash steps (Redacted.refl s)
  exact ⟨hanswers, hfinal.other, hfinal.batches⟩

end ChordV.Api
