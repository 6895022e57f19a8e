import ChordV.Api.Queue
import Mathlib.Data.List.Dedup

/-!
# The usage locks of an upload

An upload locks its node and the subscriptions of the bindings that its own samples name, and
then accounts up to four stored batches.

* `lockedSubscriptions` is the set that `ingestUsageBatch` locks.
* `Attempt` are the states in which the attempts of one upload run: a commit can be lost, and then
  the transaction runs again.
* `reached` are the stored batches that the scan accounts, and `ingestTx_subscriptions` says
  that only their subscriptions change.
* The two agree when every reached batch names subscriptions of the uploaded one
  (`metering_changes_locked_subscriptions`).  When an upload fills a gap they need not:
  `filled_gap_changes_unlocked_subscription`.
-/

namespace ChordV.Api

open Lib Fallible

/-- The subscriptions that `ingestUsageBatch` locks: those of the bindings of the node that the
samples of the request name. -/
def Database.lockedSubscriptions (s : Database) (nodeId : String) (batch : UsageBatch) :
    List String :=
  let bindingIds := (batch.samples.map (·.bindingId)).dedup
  let bindings := s.bindings.pairs.filter fun p =>
    bindingIds.contains p.1 && decide (p.2.nodeId = nodeId)
  (bindings.map (·.2.subscriptionId)).dedup

/-- The stored batches without a gap after a sequence. -/
def reached (ack : Nat) : List (BatchKey × StoredBatch) → List (BatchKey × StoredBatch)
  | [] => []
  | p :: rest => if p.1.sequence = ack + 1 then p :: reached (ack + 1) rest else []

section Locks

variable {s s' : Database}

/-! ## What metering changes -/

theorem disableOnNode_subscriptions {currentNodeId currentAgentId nodeId : String}
    {bindings : List (String × Binding)} {agentIds : List String}
    (h : disableOnNode currentNodeId currentAgentId nodeId bindings s = .ok (agentIds, s')) :
    s'.subscriptions = s.subscriptions := by
  obtain ⟨revision, s₁, hbump, hrest⟩ := disableOnNode_eq_ok h
  have hbumped : s₁.subscriptions = s.subscriptions := by
    obtain ⟨node, -, -, rfl⟩ := bumpRevision_eq_ok hbump
    rfl
  have hdisabled : (bindings.foldl (disableAt revision) s₁).subscriptions = s.subscriptions :=
    List.foldlRecOn (motive := fun t : Database => t.subscriptions = s.subscriptions) bindings _
      hbumped fun _ ht _ _ => ht
  rcases hrest with ⟨rfl, -⟩ | ⟨agentId, rfl, -⟩
  · exact hdisabled
  · refine List.foldlRecOn (motive := fun t : Database => t.subscriptions = s.subscriptions)
      bindings (autoDisable nodeId agentId revision) hdisabled fun t ht p _ => ?_
    unfold autoDisable
    split
    · exact ht
    · exact ht

/-- A batch changes the subscriptions of the bindings that its samples name. -/
theorem applyDirectBatch_subscriptions {agentId : String} {key : BatchKey} {sampledAt : Nat}
    {samples : List UsageSample} {applied : Application} {id : String}
    (hid : ∀ sample ∈ samples, ∀ b, s.bindings.lookup sample.bindingId = some b →
      b.nodeId = key.nodeId → b.subscriptionId ≠ id)
    (h : applyDirectBatch agentId key sampledAt samples s = .ok (applied, s')) :
    s'.subscriptions.lookup id = s.subscriptions.lookup id := by
  rcases applyDirectBatch_eq_ok h with rfl |
    ⟨entries, skipped, billed, disabled, subscriptions, ledger, agentIds, -, hprepare, -, -,
      hunused, hdisable⟩
  · rfl
  have hdisabled : s'.subscriptions = subscriptions :=
    disableDirectBindings_induct (I := fun t => t.subscriptions = subscriptions)
      (fun _ _ _ _ _ _ ht hnode => (disableOnNode_subscriptions hnode).trans ht) rfl hdisable
  rw [hdisabled]
  obtain ⟨hsublist, hentries, -⟩ := prepareSamples_eq_ok hprepare
  refine hunused id fun e he => ?_
  obtain ⟨hbinding, hnode, -⟩ := hentries e he
  exact hid e.sample (hsublist.subset (List.mem_map_of_mem he)) e.binding hbinding hnode

theorem reached_sublist : ∀ (rows : List (BatchKey × StoredBatch)) (ack : Nat),
    (reached ack rows).Sublist rows
  | [], _ => List.Sublist.refl _
  | p :: rest, ack => by
    unfold reached
    split
    · exact (reached_sublist rest (ack + 1)).cons_cons p
    · exact List.nil_sublist _

/-- A scan changes the subscriptions that the reached batches name. -/
theorem accountFrom_subscriptions {agentId id : String} {scan scan' : Scan}
    {rows : List (BatchKey × StoredBatch)}
    (hid : ∀ p ∈ reached scan.ackThrough rows, p.2.accounted = false → ∀ sample ∈ p.2.samples,
      ∀ b, s.bindings.lookup sample.bindingId = some b → b.nodeId = p.1.nodeId →
        b.subscriptionId ≠ id)
    (h : accountFrom agentId scan rows s = .ok (scan', s')) :
    s'.subscriptions.lookup id = s.subscriptions.lookup id := by
  induction rows generalizing s scan with
  | nil =>
    cases h
    rfl
  | cons p rest ih =>
    obtain ⟨key, batch⟩ := p
    unfold accountFrom at h
    split at h
    · cases h
      rfl
    · next hnext =>
      rw [not_not] at hnext
      rw [reached, if_pos hnext] at hid
      split at h
      · refine ih (fun p hp => hid p (List.mem_cons_of_mem _ ?_)) h
        rwa [hnext] at hp
      · next hopen =>
        obtain ⟨⟨applied, s₁⟩, haccount, h⟩ := bind_eq_ok.1 h
        obtain ⟨⟨applied', t₁⟩, happly, haccount⟩ := bind_eq_ok.1 haccount
        cases haccount
        have hfirst : t₁.subscriptions.lookup id = s.subscriptions.lookup id :=
          applyDirectBatch_subscriptions
            (hid (key, batch) List.mem_cons_self (by simpa using hopen)) happly
        -- The bindings keep their nodes and subscriptions.
        refine (ih (fun p hp hopen' sample hsample b' hb' hnode' => ?_) h).trans hfirst
        obtain ⟨b, hb, hnode, hsub, -⟩ := (applyDirectBatch_dims happly).bindings _ b' hb'
        rw [hsub]
        refine hid p (List.mem_cons_of_mem _ ?_) hopen' sample hsample b hb (hnode ▸ hnode')
        rwa [hnext] at hp

/-! ## The locks of an upload -/

/-- The stored batches that the scan of an upload reaches. -/
def reachedBatches (s : Database) (agentId nodeId bootId : String) (ack : Nat) :
    List (BatchKey × StoredBatch) :=
  reached ack ((batchesAbove s agentId nodeId bootId ack).take maxContiguousBatches)

/-- Every batch that the upload accounts names subscriptions of the uploaded batch. -/
def Request.NamesReached (payloadHash : UsageBatch → String) (s : Database) : Request → Prop
  | .upload agentId batch => ∀ agent s₁, s.agents.lookup agentId = some agent →
      storeBatch payloadHash agentId agent.nodeId batch s = .ok s₁ →
      ∀ p ∈ reachedBatches s₁ agentId agent.nodeId batch.bootId
          (agent.uploading batch.bootId).lastAckSequence,
        p.2.accounted = false → ∀ sample ∈ p.2.samples, ∀ b,
          s.bindings.lookup sample.bindingId = some b → b.nodeId = agent.nodeId →
            b.subscriptionId ∈ s.lockedSubscriptions agent.nodeId batch
  | _ => True

/-- The transaction of an upload changes the subscriptions that the reached batches name. -/
theorem ingestTx_subscriptions {payloadHash : UsageBatch → String} {agentId : String}
    {batch : UsageBatch} {scan : Scan} {id : String}
    (hnames : (Request.upload agentId batch).NamesReached payloadHash s)
    (h : ingestTx payloadHash agentId batch s = .ok (scan, s'))
    (hchanged : s'.subscriptions.lookup id ≠ s.subscriptions.lookup id) :
    ∃ agent, s.agents.lookup agentId = some agent ∧
      id ∈ s.lockedSubscriptions agent.nodeId batch := by
  obtain ⟨agent, s₁, s₂, hagent, -, hstore, hprocess, rfl⟩ := ingestTx_eq_ok h
  refine ⟨agent, hagent, ?_⟩
  have hrows := hnames agent s₁ hagent hstore
  obtain ⟨batches, rfl⟩ := storeBatch_eq_ok hstore
  by_contra hunlocked
  refine hchanged ?_
  change s₂.subscriptions.lookup id = (Database.subscriptions { s with batches }).lookup id
  obtain ⟨node, -, hprocess⟩ := bind_eq_ok.1 hprocess
  split at hprocess
  · unfold accountContiguousBatches at hprocess
    refine accountFrom_subscriptions (fun p hp hopen sample hsample b hb hnode heq => ?_) hprocess
    have hpnode : p.1.nodeId = agent.nodeId := by
      have hmem := List.mem_of_mem_take ((reached_sublist _ _).subset hp)
      exact (mem_batchesAbove.1 hmem).2.2.1
    have hlocked := hrows p hp hopen sample hsample b hb (hnode.trans hpnode)
    rw [heq] at hlocked
    exact hunlocked hlocked
  · cases hprocess
    rfl

/-- The states in which the attempts of an upload run: the one that it finds, and the one that an
attempt leaves whose commit is lost. -/
inductive Attempt (payloadHash : UsageBatch → String) (agentId : String) (batch : UsageBatch)
    (found : Database) : Database → Prop
  | first : Attempt payloadHash agentId batch found found
  | again {t t' : Database} {scan : Scan} : Attempt payloadHash agentId batch found t →
      ingestTx payloadHash agentId batch t = .ok (scan, t') →
      (Request.upload agentId batch).NamesReached payloadHash t' →
      Attempt payloadHash agentId batch found t'

/-- An upload moves no binding to another node or subscription, and no agent to another node. -/
theorem ingestTx_places {payloadHash : UsageBatch → String} {agentId : String} {batch : UsageBatch}
    {scan : Scan} (h : ingestTx payloadHash agentId batch s = .ok (scan, s')) :
    (∀ id b', s'.bindings.lookup id = some b' → ∃ b, s.bindings.lookup id = some b ∧
      b'.nodeId = b.nodeId ∧ b'.subscriptionId = b.subscriptionId) ∧
    ∀ agent', s'.agents.lookup agentId = some agent' → ∃ agent,
      s.agents.lookup agentId = some agent ∧ agent'.nodeId = agent.nodeId := by
  obtain ⟨agent, s₁, s₂, hagent, -, hstore, hprocess, rfl⟩ := ingestTx_eq_ok h
  obtain ⟨batches, rfl⟩ := storeBatch_eq_ok hstore
  have hstored : Dims s { s with batches } := ⟨rfl, (Still.refl s).dims.bindings⟩
  have hscanned : Dims s s₂ := by
    refine processBatches_induct (I := fun t => Dims s t) ?_ hstored hprocess
    intro t t' key stored applied _ _ _ ht haccount
    obtain ⟨⟨applied', t₁⟩, happly, haccount⟩ := bind_eq_ok.1 haccount
    cases haccount
    have happlied := ht.trans (applyDirectBatch_dims happly)
    exact ⟨happlied.agents, happlied.bindings⟩
  refine ⟨fun id b' hb' => ?_, fun agent' hagent' => ⟨agent, hagent, ?_⟩⟩
  · obtain ⟨b, hb, hnode, hsub, -⟩ := hscanned.bindings id b' hb'
    exact ⟨b, hb, hnode, hsub⟩
  · dsimp only at hagent'
    rw [AList.lookup_insert] at hagent'
    obtain rfl := Option.some.inj hagent'
    simp

theorem mem_lockedSubscriptions {nodeId id : String} {batch : UsageBatch} :
    id ∈ s.lockedSubscriptions nodeId batch ↔ ∃ bindingId b,
      bindingId ∈ batch.samples.map (·.bindingId) ∧ s.bindings.lookup bindingId = some b ∧
        b.nodeId = nodeId ∧ b.subscriptionId = id := by
  simp only [Database.lockedSubscriptions, List.mem_dedup, List.mem_map, List.mem_filter,
    Bool.and_eq_true, List.contains_iff_mem, decide_eq_true_eq]
  constructor
  · rintro ⟨⟨bindingId, b⟩, ⟨hb, hnamed, hnode⟩, hid⟩
    exact ⟨bindingId, b, hnamed, Table.mem_pairs.1 hb, hnode, hid⟩
  · rintro ⟨bindingId, b, hnamed, hb, hnode, hid⟩
    exact ⟨(bindingId, b), ⟨Table.mem_pairs.2 hb, hnamed, hnode⟩, hid⟩

/-- What an attempt would lock is locked. -/
theorem Attempt.locked {payloadHash : UsageBatch → String} {agentId : String} {batch : UsageBatch}
    {found t : Database} (h : Attempt payloadHash agentId batch found t) {id : String}
    (hlocked : ∃ agent, t.agents.lookup agentId = some agent ∧
      id ∈ t.lockedSubscriptions agent.nodeId batch) :
    ∃ agent, found.agents.lookup agentId = some agent ∧
      id ∈ found.lockedSubscriptions agent.nodeId batch := by
  induction h with
  | first => exact hlocked
  | again _ hingest _ ih =>
    obtain ⟨hbindings, hagents⟩ := ingestTx_places hingest
    obtain ⟨agent', hagent', hmem⟩ := hlocked
    obtain ⟨agent, hagent, hnode⟩ := hagents agent' hagent'
    obtain ⟨bindingId, b', hnamed, hb', hnode', hid⟩ := mem_lockedSubscriptions.1 hmem
    obtain ⟨b, hb, hsame, hsub⟩ := hbindings bindingId b' hb'
    refine ih ⟨agent, hagent, mem_lockedSubscriptions.2 ⟨bindingId, b, hnamed, hb, ?_, ?_⟩⟩
    · rw [← hsame, hnode', hnode]
    · rw [← hsub, hid]

theorem Attempt.names {payloadHash : UsageBatch → String} {agentId : String} {batch : UsageBatch}
    {found t : Database} (h : Attempt payloadHash agentId batch found t)
    (hfound : (Request.upload agentId batch).NamesReached payloadHash found) :
    (Request.upload agentId batch).NamesReached payloadHash t := by
  cases h with
  | first => exact hfound
  | again _ _ hnames => exact hnames

end Locks

/-- In every run in which every upload accounts only batches that name subscriptions of the
uploaded one, each attempt at its transaction changes only subscriptions that are locked for it. -/
theorem metering_changes_locked_subscriptions (payloadHash : UsageBatch → String) (s : Database)
    (steps : List Step)
    (hsteps : s.Along payloadHash (fun t request => request.NamesReached payloadHash t) steps) :
    ∀ earlier agentId batch fates later,
      steps = earlier ++ (.upload agentId batch, fates) :: later →
      ∀ t, Attempt payloadHash agentId batch (s.run payloadHash earlier) t →
        ∀ scan t', ingestTx payloadHash agentId batch t = .ok (scan, t') →
          ∀ id, t'.subscriptions.lookup id ≠ t.subscriptions.lookup id →
            ∃ agent, (s.run payloadHash earlier).agents.lookup agentId = some agent ∧
              id ∈ (s.run payloadHash earlier).lockedSubscriptions agent.nodeId batch := by
  rintro earlier agentId batch fates later rfl t hattempt scan t' hingest id hchanged
  exact hattempt.locked
    (ingestTx_subscriptions (hattempt.names hsteps.at_split) hingest hchanged)

namespace FilledGap

/-- A node with two users of two subscriptions. -/
def start : Database :=
  { nodes := (∅ : Table String Node).insert "node" {}
    agents := (∅ : Table String NodeAgent).insert "agent" { nodeId := "node" }
    bindings := ((∅ : Table String Binding).insert "a"
      { subscriptionId := "first", userId := some "u", nodeId := "node", panelClientEmail := "a@x"
        panelClientId := "" }).insert "b"
      { subscriptionId := "second", userId := some "v", nodeId := "node", panelClientEmail := "b@x"
        panelClientId := "" }
    snapshots :=
      ((∅ : Table SnapshotKey TrafficSnapshot).insert ⟨"node", "first", some "u"⟩ {}).insert
        ⟨"node", "second", some "v"⟩ {}
    subscriptions := ((∅ : Table String Subscription).insert "first"
      { expireAt := 1000, totalTrafficBytes := 1000 }).insert "second"
      { expireAt := 1000, totalTrafficBytes := 1000 } }

/-- A batch with one reading. -/
def batch (sequence : Nat) (bindingId : String) : UsageBatch :=
  { bootId := "boot", sequence, sampledAt := 0, samples := [{
      bindingId, counterGeneration := 0, uplinkBytes := 10, downlinkBytes := 0
      uplinkDeltaBytes := 10, downlinkDeltaBytes := 0 }] }

/-- The second batch is stored, and waits for the first one. -/
def waiting : List Step := [(.upload "agent" (batch 2 "b"), [])]

/-- The first batch is stored and not accounted yet. -/
def stored : Database :=
  let row : StoredBatch :=
    { agentId := "agent", payloadHash := "", sampledAt := 0, samples := (batch 1 "a").samples }
  { start with batches := start.batches.insert (batchKey "node" (batch 1 "a")) row }

/-- The state after the first batch, with or without the second one waiting. -/
def after (steps : List Step) : Option Database :=
  (ingestTx (fun _ => "") "agent" (batch 1 "a") (start.run (fun _ => "") steps)).toOption.map
    Prod.snd

theorem exists_of_after (steps : List Step) {P : Database → Bool} (h : (after steps).any P = true) :
    ∃ scan s', ingestTx (fun _ => "") "agent" (batch 1 "a") (start.run (fun _ => "") steps) =
      .ok (scan, s') ∧ P s' = true := by
  unfold after at h
  cases hingest : ingestTx (fun _ => "") "agent" (batch 1 "a") (start.run (fun _ => "") steps) with
  | error e =>
    rw [hingest] at h
    cases h
  | ok r =>
    rw [hingest] at h
    exact ⟨r.1, r.2, rfl, h⟩

end FilledGap

open FilledGap in
/-- Without a gap the upload changes the subscription that it locked. -/
theorem metering_changes_locked_subscriptions_first : ∃ agent,
    start.agents.lookup "agent" = some agent ∧
      "first" ∈ start.lockedSubscriptions agent.nodeId (batch 1 "a") := by
  have hnames : start.Along (fun _ => "") (fun t request => request.NamesReached (fun _ => "") t)
      [(.upload "agent" (batch 1 "a"), [])] := by
    refine ⟨fun agent s₁ hagent hstore p hp _ sample hsample b hb _ => ?_, trivial⟩
    have hagent' : agent = { nodeId := "node" } := by
      have hlookup : start.agents.lookup "agent" = some { nodeId := "node" } := by decide +kernel
      rw [hlookup] at hagent
      cases hagent
      rfl
    subst hagent'
    cases hstore
    have hall : ∀ p ∈ reachedBatches stored "agent" "node" "boot" 0, ∀ sample ∈ p.2.samples,
        (start.bindings.lookup sample.bindingId).all fun b =>
          decide (b.subscriptionId ∈ start.lockedSubscriptions "node" (batch 1 "a")) := by
      decide +kernel
    have hlocked := hall p hp sample hsample
    rw [hb] at hlocked
    exact of_decide_eq_true hlocked
  obtain ⟨scan, s', hingest, hchanged⟩ := exists_of_after []
    (P := fun s' => decide (s'.subscriptions.lookup "first" ≠ start.subscriptions.lookup "first"))
    (by decide +kernel)
  exact metering_changes_locked_subscriptions (fun _ => "") start _ hnames [] "agent"
    (batch 1 "a") [] [] rfl start .first scan s' hingest "first" (of_decide_eq_true hchanged)

open FilledGap in
/-- The upload that fills the gap locks the first subscription and also changes the second. -/
theorem filled_gap_changes_unlocked_subscription :
    (start.run (fun _ => "") waiting).lockedSubscriptions "node" (batch 1 "a") = ["first"] ∧
      ∃ scan s', ingestTx (fun _ => "") "agent" (batch 1 "a") (start.run (fun _ => "") waiting) =
        .ok (scan, s') ∧ s'.subscriptions.lookup "second" ≠
          (start.run (fun _ => "") waiting).subscriptions.lookup "second" := by
  refine ⟨by decide +kernel, ?_⟩
  obtain ⟨scan, s', hingest, hchanged⟩ := exists_of_after waiting
    (P := fun s' => decide (s'.subscriptions.lookup "second" ≠
      (start.run (fun _ => "") waiting).subscriptions.lookup "second")) (by decide +kernel)
  exact ⟨scan, s', hingest, of_decide_eq_true hchanged⟩

end ChordV.Api
