import ChordV.Api.Scans

/-!
# Whether re-uploads reach a batch

A stored batch is unique for its node, but the scan of an upload reads the rows of one
credential only.  A batch that another credential of the node stored is a gap that never
closes: the upload of the new credential is answered, and its row is not written.

* `Reaches` says that finitely many re-uploads of a batch are answered with its sequence.
* `Ready` is a credential under which all batches up to the one are stored.
* `Held.reaches_iff` is the exact condition: the batches up to it are stored under the
  credential, and no batch on the pages of the scan up to it fails.
-/

namespace ChordV.Api

open Lib Fallible

/-! ## Re-uploads -/

section Reuploads

variable {payloadHash : UsageBatch → String} {agentId : String} {batch : UsageBatch}
  {s s' : Database} {scan : Scan}

/-- An upload that is not disturbed. -/
def upload (agentId : String) (batch : UsageBatch) : Step := (.upload agentId batch, [])

/-- Finitely many re-uploads of a batch are answered with its sequence. -/
def Reaches (payloadHash : UsageBatch → String) (agentId : String) (batch : UsageBatch)
    (s : Database) : Prop :=
  ∃ m ack, (s.run payloadHash (List.replicate m (upload agentId batch))).reply payloadHash
    (upload agentId batch) = some ack ∧ batch.sequence ≤ ack.ackThrough

theorem transaction_nil {α : Type} (f : Database → Except ApiError (α × Database)) (s : Database) :
    transaction f ⟨s, []⟩ = match f s with
      | .ok (a, s') => .ok a ⟨s', []⟩
      | .error e => .error (.err e) ⟨s, []⟩ := by
  unfold transaction atomic perform
  cases f s <;> rfl

/-- Without disturbances a retried transaction is the transaction. -/
theorem withSerializableRetry_nil {α : Type} (f : Database → Except ApiError (α × Database))
    (s : Database) (attempts : Nat) :
    withSerializableRetry (transaction f) attempts ⟨s, []⟩ = transaction f ⟨s, []⟩ := by
  induction attempts with
  | zero => rfl
  | succ attempts ih =>
    unfold withSerializableRetry
    change EStateM.bind _ _ _ = _
    unfold EStateM.bind attempt
    rw [transaction_nil] at ih ⊢
    cases hf : f s with
    | ok r => rfl
    | error e =>
      rw [hf] at ih
      cases e <;> first | exact ih | rfl

theorem ingestUsageBatch_nil (s : Database) :
    ingestUsageBatch payloadHash agentId batch ⟨s, []⟩ =
      match ingestTx payloadHash agentId batch s with
      | .ok (scan, s') => .ok scan.ackThrough ⟨s', []⟩
      | .error e => .error (.err e) ⟨s, []⟩ := by
  change EStateM.bind _ _ _ = _
  unfold EStateM.bind
  rw [withSerializableRetry_nil, transaction_nil]
  cases ingestTx payloadHash agentId batch s <;> rfl

theorem program_upload (hboot : batch.bootId ≠ "") (hsequence : 1 ≤ batch.sequence) (s : Database) :
    Request.program payloadHash (.upload agentId batch) ⟨s, []⟩ =
      match ingestTx payloadHash agentId batch s with
      | .ok (scan, s') => .ok (some ⟨agentId, batch.bootId, scan.ackThrough⟩) ⟨s', []⟩
      | .error e => .error (.err e) ⟨s, []⟩ := by
  have hprogram : Request.program payloadHash (.upload agentId batch) = (do
      ensure (decide (batch.bootId ≠ "" ∧ 1 ≤ batch.sequence)) .invalidRequest
      let ackThrough ← ingestUsageBatch payloadHash agentId batch
      return some { agentId, bootId := batch.bootId, ackThrough }) := rfl
  rw [hprogram, decide_eq_true ⟨hboot, hsequence⟩]
  change EStateM.bind (ingestUsageBatch payloadHash agentId batch) _ _ = _
  unfold EStateM.bind
  rw [ingestUsageBatch_nil]
  cases ingestTx payloadHash agentId batch s <;> rfl

theorem step_upload_ok (hboot : batch.bootId ≠ "") (hsequence : 1 ≤ batch.sequence)
    (h : ingestTx payloadHash agentId batch s = .ok (scan, s')) :
    s.step payloadHash (upload agentId batch) = s' ∧
      s.reply payloadHash (upload agentId batch) =
        some ⟨agentId, batch.bootId, scan.ackThrough⟩ := by
  unfold Database.step Database.reply finalWorld result? upload
  dsimp only
  rw [program_upload hboot hsequence, h]
  exact ⟨rfl, rfl⟩

theorem step_upload_error (hboot : batch.bootId ≠ "") (hsequence : 1 ≤ batch.sequence)
    {e : ApiError} (h : ingestTx payloadHash agentId batch s = .error e) :
    s.step payloadHash (upload agentId batch) = s ∧
      s.reply payloadHash (upload agentId batch) = none := by
  unfold Database.step Database.reply finalWorld result? upload
  dsimp only
  rw [program_upload hboot hsequence, h]
  exact ⟨rfl, rfl⟩

/-- An upload that is rejected is rejected for ever. -/
theorem not_reaches_of_error (hboot : batch.bootId ≠ "") (hsequence : 1 ≤ batch.sequence)
    {e : ApiError} (h : ingestTx payloadHash agentId batch s = .error e) :
    ¬Reaches payloadHash agentId batch s := by
  obtain ⟨hstep, hreply⟩ := step_upload_error hboot hsequence h
  rintro ⟨m, ack, hack, -⟩
  have hstays : s.run payloadHash (List.replicate m (upload agentId batch)) = s := by
    induction m with
    | zero => rfl
    | succ m ih =>
      rw [List.replicate_succ]
      change (s.step payloadHash _).run payloadHash _ = s
      rw [hstep]
      rw [List.replicate_succ] at hack
      change ((s.step payloadHash _).run payloadHash _).reply payloadHash _ = _ at hack
      rw [hstep] at hack
      exact ih hack
  rw [hstays, hreply] at hack
  cases hack

/-- One re-upload either reaches the batch or leaves the rest to the next ones. -/
theorem reaches_iff_of_ok (hboot : batch.bootId ≠ "") (hsequence : 1 ≤ batch.sequence)
    (h : ingestTx payloadHash agentId batch s = .ok (scan, s')) :
    Reaches payloadHash agentId batch s ↔
      batch.sequence ≤ scan.ackThrough ∨ Reaches payloadHash agentId batch s' := by
  obtain ⟨hstep, hreply⟩ := step_upload_ok hboot hsequence h
  constructor
  · rintro ⟨m, ack, hack, hle⟩
    cases m with
    | zero =>
      refine .inl ?_
      rw [show s.reply payloadHash _ = _ from hack, Option.some.injEq] at hreply
      rw [hreply] at hle
      exact hle
    | succ m =>
      refine .inr ⟨m, ack, ?_, hle⟩
      rw [List.replicate_succ] at hack
      change ((s.step payloadHash _).run payloadHash _).reply payloadHash _ = _ at hack
      rwa [hstep] at hack
  · rintro (hle | ⟨m, ack, hack, hle⟩)
    · exact ⟨0, _, hreply, hle⟩
    · refine ⟨m + 1, ack, ?_, hle⟩
      rw [List.replicate_succ]
      change ((s.step payloadHash _).run payloadHash _).reply payloadHash _ = _
      rwa [hstep]

/-! ## Stored under one credential -/

/-- An unrevoked credential of a node under which all batches up to one are stored. -/
structure Ready (payloadHash : UsageBatch → String) (agentId : String) (batch : UsageBatch)
    (mode : ControlMode) (agent : NodeAgent) (s : Database) : Prop where
  row : s.agents.lookup agentId = some agent
  live : agent.revoked = false
  control : (s.nodes.lookup agent.nodeId).map (·.controlMode) = some mode
  own : ∀ sequence, 1 ≤ sequence → sequence ≤ batch.sequence →
    s.StoredBy agentId ⟨agent.nodeId, batch.bootId, sequence⟩
  same : ∀ row, s.batches.lookup (batchKey agent.nodeId batch) = some row →
    row.payloadHash = payloadHash batch

/-- The row of a credential after an upload. -/
def NodeAgent.answered (agent : NodeAgent) (batch : UsageBatch) (ack clock : Nat) : NodeAgent :=
  { agent.uploading batch.bootId with
    bootId := some batch.bootId
    lastSequence := max (agent.uploading batch.bootId).lastSequence batch.sequence
    lastAckSequence := ack, lastSeenAt := some clock }

/-- The state after an upload. -/
def answer (agentId : String) (agent : NodeAgent) (batch : UsageBatch) (ack : Nat) (s : Database) :
    Database :=
  { s with agents := s.agents.insert agentId (agent.answered batch ack s.clock) }

@[simp] theorem NodeAgent.answered_nodeId (agent : NodeAgent)
    (batch : UsageBatch) (ack clock : Nat) :
    (agent.answered batch ack clock).nodeId = agent.nodeId := agent.uploading_nodeId batch.bootId

@[simp] theorem NodeAgent.answered_lastAck (agent : NodeAgent)
    (batch : UsageBatch) (ack clock : Nat) :
    ((agent.answered batch ack clock).uploading batch.bootId).lastAckSequence = ack := by
  rw [uploading_of_boot rfl]
  rfl

namespace Ready

variable {mode : ControlMode} {agent : NodeAgent} (h : Ready payloadHash agentId batch mode agent s)
  (hsequence : 1 ≤ batch.sequence)
include h hsequence

/-- The upload stores nothing new. -/
theorem storeBatch : Api.storeBatch payloadHash agentId agent.nodeId batch s = .ok s := by
  obtain ⟨row, hrow, -⟩ := h.own batch.sequence hsequence (Nat.le_refl _)
  unfold Api.storeBatch
  rw [show s.batches.lookup (batchKey agent.nodeId batch) = some row from hrow]
  exact if_pos (h.same row hrow)

/-- The upload is its scan. -/
theorem ingestTx : Api.ingestTx payloadHash agentId batch s =
    (processBatches agentId agent.nodeId batch.bootId
      (agent.uploading batch.bootId).lastAckSequence s).map fun r =>
        (r.1, answer agentId agent batch r.1.ackThrough r.2) := by
  have hcurrent : currentAgent agentId s = .ok agent := by
    unfold currentAgent
    rw [find_eq_ok.2 h.row, ok_bind, require, if_pos h.live]
    rfl
  unfold Api.ingestTx
  rw [hcurrent]
  simp only [ok_bind, NodeAgent.uploading_nodeId, h.storeBatch hsequence]
  cases processBatches agentId agent.nodeId batch.bootId
      (agent.uploading batch.bootId).lastAckSequence s with
  | error e => rfl
  | ok r =>
    simp only [ok_bind, Except.map, answer, NodeAgent.answered, NodeAgent.uploading_nodeId]
    rfl

omit hsequence in
/-- After an upload the credential is as ready as before. -/
theorem answered {rows : List (BatchKey × StoredBatch)} {ack ack' : Nat}
    (hscan : Scanned s rows ack s' ack') :
    Ready payloadHash agentId batch mode (agent.answered batch ack' s'.clock)
      (answer agentId agent batch ack' s') where
  row := AList.lookup_insert _
  live := (agent.uploading_revoked batch.bootId).trans h.live
  control := by
    rw [NodeAgent.answered_nodeId]
    exact (hscan.modes agent.nodeId).trans h.control
  own := fun sequence hone hle => by
    rw [NodeAgent.answered_nodeId]
    exact Database.StoredBy.of_rows (hscan.rows _) (h.own sequence hone hle)
  same := fun row hrow => by
    rw [NodeAgent.answered_nodeId] at hrow
    have hrows := hscan.rows (batchKey agent.nodeId batch)
    rw [show s'.batches.lookup _ = some row from hrow, Option.map_some] at hrows
    obtain ⟨old, hold, heq⟩ := Option.map_eq_some_iff.1 hrows.symm
    exact (congrArg StoredBatch.payloadHash heq).symm.trans (h.same old hold)

omit hsequence in
/-- The first rows above an acknowledgement are the next sequences. -/
theorem next (ack n : Nat) (hn : ack + n ≤ batch.sequence) :
    (sequences (batchesAbove s agentId agent.nodeId batch.bootId ack)).take n =
      List.range' (ack + 1) n := by
  refine sequences_batchesAbove_take fun sequence hlow hhigh => ?_
  exact h.own sequence (by omega) (by omega)

omit hsequence in
/-- A scan takes a whole page, or reaches the batch. -/
theorem reaches {page ack ack' : Nat}
    (hscan : Scanned s ((batchesAbove s agentId agent.nodeId batch.bootId ack).take page)
      ack s' ack') : batch.sequence ≤ ack' ∨ ack' = ack + page := by
  rcases Nat.lt_or_ge ack' batch.sequence with hlt | hge
  · refine .inr (Nat.le_antisymm ?_ ?_)
    · refine hscan.le.trans (Nat.add_le_add_left ?_ _)
      exact (List.length_take_le _ _)
    · have hge := hscan.ge
      have hpart := hscan.reaches (min page (batch.sequence - ack)) (by
        rw [sequences, List.map_take, List.take_take, ← sequences, Nat.min_comm page,
          Nat.min_assoc, Nat.min_self]
        exact h.next ack _ (by omega))
      omega
  · exact .inl hge

end Ready

/-! ## Page after page -/

/-- A scan whose first rows fail does not get to the others. -/
theorem accountFrom_prefix {xs ys : List (BatchKey × StoredBatch)} {result : Scan × Database}
    (h : accountFrom agentId scan (xs ++ ys) s = .ok result) :
    ∃ result', accountFrom agentId scan xs s = .ok result' := by
  induction xs generalizing s scan with
  | nil => exact ⟨_, rfl⟩
  | cons p xs ih =>
    obtain ⟨key, row⟩ := p
    rw [List.cons_append] at h
    unfold accountFrom at h ⊢
    split
    · exact ⟨_, rfl⟩
    next hgap =>
    rw [if_neg hgap] at h
    split
    · next haccounted =>
      rw [if_pos haccounted] at h
      exact ih h
    next haccounted =>
    rw [if_neg haccounted] at h
    obtain ⟨⟨applied, s₁⟩, hone, h⟩ := bind_eq_ok.1 h
    rw [hone]
    exact ih h

/-- The scan takes the next row. -/
theorem accountFrom_next {key : BatchKey} {row : StoredBatch} {rest : List (BatchKey × StoredBatch)}
    (hkey : key.sequence = scan.ackThrough + 1) :
    accountFrom agentId scan ((key, row) :: rest) s =
      if row.accounted then accountFrom agentId { scan with ackThrough := key.sequence } rest s
      else accountBatch agentId key row s >>= fun r => accountFrom agentId
        { ackThrough := key.sequence, transitions := scan.transitions ++ r.1.transitions
          commandAgentIds := scan.commandAgentIds ++ r.1.commandAgentIds } rest r.2 := by
  rw [accountFrom, if_neg (not_not.2 hkey)]

/-- A scan without a gap goes on with the rows behind. -/
theorem accountFrom_append {xs : List (BatchKey × StoredBatch)} (ys : List (BatchKey × StoredBatch))
    (hxs : sequences xs = List.range' (scan.ackThrough + 1) xs.length) :
    accountFrom agentId scan (xs ++ ys) s =
      accountFrom agentId scan xs s >>= fun r => accountFrom agentId r.1 ys r.2 := by
  induction xs generalizing s scan with
  | nil => rfl
  | cons p xs ih =>
    obtain ⟨key, row⟩ := p
    rw [sequences, List.map_cons, List.length_cons, List.range'_succ] at hxs
    obtain ⟨hkey, hxs⟩ := List.cons.inj hxs
    dsimp only at hkey
    have htail : sequences xs = List.range' (key.sequence + 1) xs.length := by
      rw [hkey]
      exact hxs
    rw [List.cons_append, accountFrom_next hkey, accountFrom_next hkey]
    split
    · exact ih htail
    · cases accountBatch agentId key row s with
      | error e => rfl
      | ok r => exact ih htail

/-- How many scans it takes to get from an acknowledgement to a sequence. -/
def pages (n ack : Nat) : Nat :=
  max 1 ((n - ack + (maxContiguousBatches - 1)) / maxContiguousBatches)

/-- No batch on the pages up to a sequence fails. -/
def PagesAccounted (agentId nodeId bootId : String) (n ack : Nat) (s : Database) : Prop :=
  ∃ result, accountFrom agentId { ackThrough := ack }
    ((batchesAbove s agentId nodeId bootId ack).take (maxContiguousBatches * pages n ack)) s =
      .ok result

namespace Ready

variable {agent : NodeAgent}

theorem processBatches_direct (h : Ready payloadHash agentId batch .directPrimary agent s)
    (ack : Nat) :
    processBatches agentId agent.nodeId batch.bootId ack s =
      accountContiguousBatches agentId agent.nodeId batch.bootId ack s := by
  obtain ⟨node, hnode, hmode⟩ := Option.map_eq_some_iff.1 h.control
  unfold processBatches
  rw [find_eq_ok.2 hnode, ok_bind, if_pos hmode]

/-- In `direct_primary`, the batch is reached exactly when no batch on the way to it fails. -/
theorem reaches_iff (h : Ready payloadHash agentId batch .directPrimary agent s)
    (hboot : batch.bootId ≠ "") (hsequence : 1 ≤ batch.sequence) :
    Reaches payloadHash agentId batch s ↔ PagesAccounted agentId agent.nodeId batch.bootId
      batch.sequence (agent.uploading batch.bootId).lastAckSequence s := by
  -- The induction is on the batches that are still to be acknowledged.
  generalize hleft : batch.sequence - (agent.uploading batch.bootId).lastAckSequence = left
  induction left using Nat.strong_induction_on generalizing s agent with
  | _ left ih =>
  generalize hack : (agent.uploading batch.bootId).lastAckSequence = ack at hleft ⊢
  have hingest := h.ingestTx hsequence
  rw [hack, h.processBatches_direct, accountContiguousBatches] at hingest
  generalize hrows : batchesAbove s agentId agent.nodeId batch.bootId ack = rows at hingest
  unfold PagesAccounted
  rw [hrows]
  have hpages : 1 ≤ pages batch.sequence ack := Nat.le_max_left _ _
  have hsplit : rows.take (maxContiguousBatches * pages batch.sequence ack) =
      rows.take maxContiguousBatches ++ (rows.drop maxContiguousBatches).take
        (maxContiguousBatches * (pages batch.sequence ack - 1)) := by
    rw [← List.take_add]
    congr 1
    unfold maxContiguousBatches
    omega
  cases hpage : accountFrom agentId { ackThrough := ack } (rows.take maxContiguousBatches) s with
  | error e =>
    rw [hpage] at hingest
    refine iff_of_false (not_reaches_of_error hboot hsequence hingest) ?_
    rintro ⟨result, hresult⟩
    rw [hsplit] at hresult
    obtain ⟨result', hresult'⟩ := accountFrom_prefix hresult
    rw [hpage] at hresult'
    cases hresult'
  | ok r =>
    obtain ⟨scan, s₂⟩ := r
    rw [hpage] at hingest
    rw [reaches_iff_of_ok hboot hsequence hingest]
    have hscan := accountFrom_scanned hpage
    dsimp only at hscan
    have hreached := h.reaches (hrows ▸ hscan)
    by_cases hdone : batch.sequence ≤ scan.ackThrough
    · -- The first page already gets there.
      have hone : pages batch.sequence ack = 1 := by
        have hle := hscan.le.trans (Nat.add_le_add_left (List.length_take_le _ _) _)
        unfold pages
        unfold maxContiguousBatches at hle ⊢
        omega
      refine iff_of_true (.inl hdone) ⟨(scan, s₂), ?_⟩
      rw [hone, Nat.mul_one]
      exact hpage
    have hfull : scan.ackThrough = ack + maxContiguousBatches := hreached.resolve_left hdone
    have hmore : ack + maxContiguousBatches < batch.sequence := hfull ▸ Nat.lt_of_not_le hdone
    have hnext := h.next ack maxContiguousBatches (Nat.le_of_lt hmore)
    rw [hrows] at hnext
    have hrest : batchesAbove (answer agentId agent batch scan.ackThrough s₂) agentId agent.nodeId
        batch.bootId (ack + maxContiguousBatches) = rows.drop maxContiguousBatches := by
      rw [← hrows]
      refine batchesAbove_drop (hrows ▸ hnext) fun key hkey => ?_
      exact hscan.above key (hfull ▸ hkey)
    have hfewer : pages batch.sequence ack - 1 =
        pages batch.sequence (ack + maxContiguousBatches) := by
      unfold pages
      unfold maxContiguousBatches at hmore ⊢
      omega
    have hih := ih (batch.sequence - (ack + maxContiguousBatches))
      (by unfold maxContiguousBatches at hmore ⊢; omega) (h.answered hscan) (by
        rw [NodeAgent.answered_lastAck, hfull])
    rw [NodeAgent.answered_lastAck, NodeAgent.answered_nodeId, hfull] at hih
    rw [hfull, or_iff_right (Nat.not_le.2 hmore), hih]
    have hcontiguous : sequences (rows.take maxContiguousBatches) =
        List.range' (ack + 1) (rows.take maxContiguousBatches).length := by
      have hlength := congrArg List.length hnext
      rw [sequences, ← List.map_take, List.length_map, List.length_range'] at hlength
      rw [hlength, sequences, List.map_take]
      exact hnext
    unfold PagesAccounted
    rw [hfull] at hrest
    rw [hrest, ← hfewer, hsplit, accountFrom_append _ hcontiguous, hpage, ok_bind]
    -- The two sides start from states that differ in the credentials only.
    have halike : Alike s₂ (answer agentId agent batch (ack + maxContiguousBatches) s₂) :=
      ⟨rfl, rfl, rfl, rfl⟩
    constructor
    · rintro ⟨⟨result, t⟩, hresult⟩
      obtain ⟨result', t', hresult', -⟩ := halike.symm.accountFrom hfull hresult
      exact ⟨_, hresult'⟩
    · rintro ⟨⟨result, t⟩, hresult⟩
      have hsame : ({ ackThrough := ack + maxContiguousBatches } : Scan).ackThrough =
          scan.ackThrough := hfull.symm
      obtain ⟨result', t', hresult', -⟩ := halike.accountFrom hsame hresult
      exact ⟨_, hresult'⟩

/-- In another mode nothing is accounted, and the batch is always reached. -/
theorem reaches_undirected {mode : ControlMode} (h : Ready payloadHash agentId batch mode agent s)
    (hmode : mode ≠ .directPrimary) (hboot : batch.bootId ≠ "") (hsequence : 1 ≤ batch.sequence) :
    Reaches payloadHash agentId batch s := by
  generalize hleft : batch.sequence - (agent.uploading batch.bootId).lastAckSequence = left
  induction left using Nat.strong_induction_on generalizing s agent with
  | _ left ih =>
  obtain ⟨node, hnode, hcontrol⟩ := Option.map_eq_some_iff.1 h.control
  have hingest := h.ingestTx hsequence
  unfold processBatches at hingest
  rw [find_eq_ok.2 hnode, ok_bind, if_neg (hcontrol ▸ hmode)] at hingest
  rw [reaches_iff_of_ok hboot hsequence hingest]
  have hscan := advanceFrom_scanned s (agent.uploading batch.bootId).lastAckSequence
    ((batchesAbove s agentId agent.nodeId batch.bootId
      (agent.uploading batch.bootId).lastAckSequence).take ackPage)
  rcases h.reaches hscan with hdone | hfull
  · exact .inl hdone
  by_cases hdone : batch.sequence ≤ (agent.uploading batch.bootId).lastAckSequence
  · exact .inl (hdone.trans hscan.ge)
  · refine .inr (ih _ ?_ (h.answered hscan) rfl)
    rw [NodeAgent.answered_lastAck]
    dsimp only [advanceAck]
    rw [hfull]
    unfold ackPage
    omega

end Ready

/-- A batch has one credential for ever. -/
theorem Database.StoredBy.unique {id id' : String} {key : BatchKey} (h : s.StoredBy id key)
    (h' : s.StoredBy id' key) : id = id' := by
  obtain ⟨row, hrow, rfl⟩ := h
  obtain ⟨row', hrow', rfl⟩ := h'
  rw [hrow] at hrow'
  cases hrow'
  rfl

/-- What re-uploads reach was stored under their credential before. -/
theorem Reaches.own (h : Reaches payloadHash agentId batch s) (hheld : Held s)
    (hboot : batch.bootId ≠ "") (hsequence : 1 ≤ batch.sequence) {agent : NodeAgent}
    (hagent : s.agents.lookup agentId = some agent)
    (hstored : ∀ sequence, 1 ≤ sequence → sequence ≤ batch.sequence →
      ∃ id, s.StoredBy id ⟨agent.nodeId, batch.bootId, sequence⟩) :
    ∀ sequence, 1 ≤ sequence → sequence ≤ batch.sequence →
      s.StoredBy agentId ⟨agent.nodeId, batch.bootId, sequence⟩ := by
  obtain ⟨m, ack, hack, hle⟩ := h
  induction m generalizing s agent with
  | zero =>
    have hreply : s.reply payloadHash (upload agentId batch) = some ack := hack
    cases hrun : ingestTx payloadHash agentId batch s with
    | error e =>
      rw [(step_upload_error hboot hsequence hrun).2] at hreply
      cases hreply
    | ok r =>
      obtain ⟨scan, s'⟩ := r
      rw [(step_upload_ok hboot hsequence hrun).2] at hreply
      cases hreply
      obtain ⟨-, hkeeps, found, hfound, hthrough⟩ := hheld.ingestTx hboot hrun
      obtain rfl : found = agent := Option.some.inj (hfound.symm.trans hagent)
      intro sequence hone hsequence'
      obtain ⟨id, hid⟩ := hstored sequence hone hsequence'
      obtain rfl := (hkeeps _ _ hid).unique (hthrough sequence hone (hsequence'.trans hle))
      exact hid
  | succ m ih =>
    rw [List.replicate_succ] at hack
    change ((s.step payloadHash _).run payloadHash _).reply payloadHash _ = _ at hack
    cases hrun : ingestTx payloadHash agentId batch s with
    | error e =>
      rw [(step_upload_error hboot hsequence hrun).1] at hack
      exact ih hheld hagent hstored hack
    | ok r =>
      obtain ⟨scan, s'⟩ := r
      rw [(step_upload_ok hboot hsequence hrun).1] at hack
      obtain ⟨hheld', hkeeps, -⟩ := hheld.ingestTx hboot hrun
      obtain ⟨found, s₁, s₂, hfound, -, -, -, rfl⟩ := ingestTx_eq_ok hrun
      obtain rfl : found = agent := Option.some.inj (hfound.symm.trans hagent)
      have hlater := ih hheld' (AList.lookup_insert _) (fun sequence hone hsequence' => by
        obtain ⟨id, hid⟩ := hstored sequence hone hsequence'
        rw [NodeAgent.uploading_nodeId]
        exact ⟨id, hkeeps _ _ hid⟩) hack
      intro sequence hone hsequence'
      obtain ⟨id, hid⟩ := hstored sequence hone hsequence'
      have hnow := hlater sequence hone hsequence'
      rw [NodeAgent.uploading_nodeId] at hnow
      obtain rfl := (hkeeps _ _ hid).unique hnow
      exact hid

/-- The exact condition for a state that holds the invariant. -/
theorem Held.reaches_iff (hheld : Held s) {agent : NodeAgent} {mode : ControlMode}
    (hagent : s.agents.lookup agentId = some agent) (hlive : agent.revoked = false)
    (hmode : (s.nodes.lookup agent.nodeId).map (·.controlMode) = some mode)
    (hboot : batch.bootId ≠ "") (hsequence : 1 ≤ batch.sequence)
    (hstored : ∀ sequence, 1 ≤ sequence → sequence ≤ batch.sequence →
      ∃ id, s.StoredBy id ⟨agent.nodeId, batch.bootId, sequence⟩)
    (hsame : ∀ row, s.batches.lookup (batchKey agent.nodeId batch) = some row →
      row.payloadHash = payloadHash batch) :
    Reaches payloadHash agentId batch s ↔
      (∀ sequence, 1 ≤ sequence → sequence ≤ batch.sequence →
        s.StoredBy agentId ⟨agent.nodeId, batch.bootId, sequence⟩) ∧
      (mode = .directPrimary → PagesAccounted agentId agent.nodeId batch.bootId batch.sequence
        (agent.uploading batch.bootId).lastAckSequence s) := by
  have hready : (∀ sequence, 1 ≤ sequence → sequence ≤ batch.sequence →
      s.StoredBy agentId ⟨agent.nodeId, batch.bootId, sequence⟩) →
      Ready payloadHash agentId batch mode agent s := fun hown =>
    ⟨hagent, hlive, hmode, hown, hsame⟩
  constructor
  · intro h
    have hown := h.own hheld hboot hsequence hagent hstored
    refine ⟨hown, ?_⟩
    rintro rfl
    exact ((hready hown).reaches_iff hboot hsequence).1 h
  · rintro ⟨hown, hpages⟩
    by_cases hdirect : mode = .directPrimary
    · subst hdirect
      exact ((hready hown).reaches_iff hboot hsequence).2 (hpages rfl)
    · exact (hready hown).reaches_undirected hdirect hboot hsequence

end Reuploads

/-- In every state that requests can lead to: when the batches `1, …, n` of a boot are stored
for a node, re-uploads of batch `n` by a credential reach it exactly when the batches are
stored under this credential, and, where batches are billed, no batch on the pages of the
scan up to batch `n` fails. -/
theorem reuploads_reach_iff (payloadHash : UsageBatch → String) (s : Database) (hs : s.Blank)
    (steps : List Step) (agentId : String) (agent : NodeAgent) (batch : UsageBatch)
    (hagent : (s.run payloadHash steps).agents.lookup agentId = some agent)
    (hlive : agent.revoked = false) (hboot : batch.bootId ≠ "") (hsequence : 1 ≤ batch.sequence)
    (hstored : ∀ sequence, 1 ≤ sequence → sequence ≤ batch.sequence → ∃ id,
      (s.run payloadHash steps).StoredBy id ⟨agent.nodeId, batch.bootId, sequence⟩)
    (hsame : ∀ row, (s.run payloadHash steps).batches.lookup (batchKey agent.nodeId batch) =
      some row → row.payloadHash = payloadHash batch) :
    Reaches payloadHash agentId batch (s.run payloadHash steps) ↔
      (∀ sequence, 1 ≤ sequence → sequence ≤ batch.sequence →
        (s.run payloadHash steps).StoredBy agentId ⟨agent.nodeId, batch.bootId, sequence⟩) ∧
      (((s.run payloadHash steps).nodes.lookup agent.nodeId).map (·.controlMode) =
          some .directPrimary →
        PagesAccounted agentId agent.nodeId batch.bootId batch.sequence
          (agent.uploading batch.bootId).lastAckSequence (s.run payloadHash steps)) := by
  have hheld := (Held.of_blank hs).run payloadHash steps
  obtain ⟨mode, hmode⟩ := Option.isSome_iff_exists.1 (hheld.nodes agentId agent hagent)
  rw [hheld.reaches_iff hagent hlive hmode hboot hsequence hstored hsame, hmode, Option.some.injEq]

namespace Progress

/-- A node with one credential. -/
def start : Database :=
  { nodes := (∅ : Table String Node).insert "node" {}
    agents := (∅ : Table String NodeAgent).insert "old" { nodeId := "node" } }

theorem start_blank : start.Blank where
  batches := rfl
  agents := by
    intro agentId agent hagent
    rw [start, Table.lookup_insert_ite] at hagent
    split at hagent
    · cases hagent
      exact ⟨rfl, rfl⟩
    · cases hagent

/-- A batch without samples. -/
def batch (sequence : Nat) : UsageBatch :=
  { bootId := "boot", sequence, sampledAt := 0, samples := [] }

/-- Both batches are uploaded with one credential, the second one first. -/
def kept : List Step := [upload "old" (batch 2), upload "old" (batch 1)]

/-- The credential is replaced between the two batches. -/
def rotated : List Step :=
  [upload "old" (batch 1), (.createCredential "node" "new", []), upload "new" (batch 2)]

/-- The row of the new credential after its upload: nothing is acknowledged. -/
def newRow : NodeAgent :=
  { nodeId := "node", bootId := some "boot", lastSequence := 2, lastSeenAt := some 0 }

/-- The stored rows `1, …, n` of the boot, whatever credential stored them. -/
def rows (s : Database) (n : Nat) : List (BatchKey × StoredBatch) :=
  (List.range' 1 n).filterMap fun sequence =>
    (s.batches.lookup ⟨"node", "boot", sequence⟩).map (⟨"node", "boot", sequence⟩, ·)

theorem storedBy_of_eq {s : Database} {id : String} {key : BatchKey}
    (h : (s.batches.lookup key).map (·.agentId) = some id) : s.StoredBy id key := by
  obtain ⟨row, hrow, hagent⟩ := Option.map_eq_some_iff.1 h
  exact ⟨row, hrow, hagent⟩

/-- A statement about the first two batches. -/
theorem forall_two {P : Nat → Prop} (hone : P 1) (htwo : P 2) :
    ∀ sequence, 1 ≤ sequence → sequence ≤ (batch 2).sequence → P sequence := by
  intro sequence hlow hhigh
  have hcases : sequence = 1 ∨ sequence = 2 := by
    change sequence ≤ 2 at hhigh
    omega
  rcases hcases with rfl | rfl
  · exact hone
  · exact htwo

theorem exists_ok {α : Type} {x : Except ApiError α} (h : x.toBool = true) : ∃ a, x = .ok a := by
  cases x with
  | ok a => exact ⟨a, rfl⟩
  | error e => cases h

end Progress

open Progress in
/-- With one credential the second batch is reached. -/
theorem reuploads_reach_iff_kept : Reaches (fun _ => "") "old"
    (batch 2) (start.run (fun _ => "") kept) := by
  have hown : ∀ sequence, 1 ≤ sequence → sequence ≤ (batch 2).sequence →
      (start.run (fun _ => "") kept).StoredBy "old" ⟨"node", "boot", sequence⟩ :=
    forall_two (storedBy_of_eq (by decide +kernel)) (storedBy_of_eq (by decide +kernel))
  refine (reuploads_reach_iff (fun _ => "") start start_blank kept "old"
    { nodeId := "node", bootId := some "boot", lastSequence := 2, lastAckSequence := 2
      lastSeenAt := some 0 } (batch 2) (by decide +kernel) rfl (by decide) (by decide)
    (fun sequence hone hle => ⟨"old", hown sequence hone hle⟩) ?_).2 ⟨hown, fun _ => ?_⟩
  · intro row hrow
    have hhash : ((start.run (fun _ => "") kept).batches.lookup (batchKey "node" (batch 2))).map
      (·.payloadHash) = some "" := by decide +kernel
    rw [hrow] at hhash
    exact Option.some.inj hhash
  · exact exists_ok (by decide +kernel)

open Progress in
/-- After a rotation both batches are stored for the node and could be accounted, the new
credential is the current one, and no number of re-uploads of the second batch reaches it. -/
theorem rotated_credential_stalls :
    ((start.run (fun _ => "") rotated).agents.lookup "new").map
        (fun agent => (agent.nodeId, agent.revoked)) = some ("node", false) ∧
      (rows (start.run (fun _ => "") rotated) 2).length = 2 ∧
      (∃ result, accountFrom "new" { ackThrough := 0 } (rows (start.run (fun _ => "") rotated) 2)
        (start.run (fun _ => "") rotated) = .ok result) ∧
      ¬Reaches (fun _ => "") "new" (batch 2) (start.run (fun _ => "") rotated) := by
  refine ⟨by decide +kernel, by decide +kernel, exists_ok (by decide +kernel), fun hreaches => ?_⟩
  have hheld := (Held.of_blank start_blank).run (fun _ => "") rotated
  have hrow : (start.run (fun _ => "") rotated).agents.lookup "new" = some newRow := by
    decide +kernel
  have hown := hreaches.own hheld (by decide) (by decide) hrow
    (forall_two ⟨"old", storedBy_of_eq (by decide +kernel)⟩
      ⟨"new", storedBy_of_eq (by decide +kernel)⟩) 1 (by decide) (by decide)
  have hold : (start.run (fun _ => "") rotated).StoredBy "old" ⟨"node", "boot", 1⟩ :=
    storedBy_of_eq (by decide +kernel)
  exact absurd (hold.unique hown) (by decide)

end ChordV.Api
