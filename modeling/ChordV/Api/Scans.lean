import ChordV.Api.Billing

/-!
# What a scan leaves behind

The scan of an upload reads the stored rows of one credential and one boot above an
acknowledgement, a page at a time, and stops at the first gap.

* `batchesAbove_drop`: the rows above a later acknowledgement are the rest of the rows.
* `Scanned` is what a scan leaves behind, in every control mode.
* `Held` is the invariant that an acknowledgement covers rows of its own credential.
-/

namespace ChordV.Api

open Lib Fallible

/-! ## The rows above an acknowledgement -/

section Rows

variable {s s' : Database} {agentId nodeId bootId : String} {ack : Nat}

/-- The sequences of some rows. -/
def sequences (rows : List (BatchKey × StoredBatch)) : List Nat := rows.map (·.1.sequence)

theorem pairwise_batchesAbove (s : Database) (agentId nodeId bootId : String) (ack : Nat) :
    (batchesAbove s agentId nodeId bootId ack).Pairwise fun p q =>
      p.1.sequence < q.1.sequence := by
  have hsorted : (batchesAbove s agentId nodeId bootId ack).Pairwise fun p q =>
      p.1.sequence ≤ q.1.sequence := by
    have : Std.Total fun p q : BatchKey × StoredBatch => p.1.sequence ≤ q.1.sequence :=
      ⟨fun p q => Nat.le_total _ _⟩
    have : IsTrans (BatchKey × StoredBatch) fun p q => p.1.sequence ≤ q.1.sequence :=
      ⟨fun _ _ _ => Nat.le_trans⟩
    exact List.pairwise_insertionSort _ _
  have hnodup := nodup_batchesAbove s agentId nodeId bootId ack
  rw [List.Nodup, List.pairwise_map] at hnodup
  refine (hsorted.and hnodup).imp_of_mem fun {p q} hp hq h => ?_
  obtain ⟨-, -, hnode, hboot, -⟩ := mem_batchesAbove.1 hp
  obtain ⟨-, -, hnode', hboot', -⟩ := mem_batchesAbove.1 hq
  refine Nat.lt_of_le_of_ne h.1 fun heq => h.2 ?_
  obtain ⟨⟨_, _, _⟩, _⟩ := p
  obtain ⟨⟨_, _, _⟩, _⟩ := q
  simp_all

/-- The rows are determined by which they are. -/
theorem batchesAbove_eq {rows : List (BatchKey × StoredBatch)}
    (hmem : ∀ p, p ∈ rows ↔ p ∈ batchesAbove s agentId nodeId bootId ack)
    (hsorted : rows.Pairwise fun p q => p.1.sequence < q.1.sequence) :
    batchesAbove s agentId nodeId bootId ack = rows := by
  have hsorted' := pairwise_batchesAbove s agentId nodeId bootId ack
  have hnodup : ∀ {l : List (BatchKey × StoredBatch)},
      l.Pairwise (fun p q => p.1.sequence < q.1.sequence) → l.Nodup :=
    fun h => h.imp fun {p q} hlt heq => by rw [heq] at hlt; exact Nat.lt_irrefl _ hlt
  refine List.Perm.eq_of_pairwise (fun p q _ _ h h' => ?_) hsorted' hsorted ?_
  · exact absurd (Nat.lt_trans h h') (Nat.lt_irrefl _)
  · exact (List.perm_ext_iff_of_nodup (hnodup hsorted') (hnodup hsorted)).2 fun p => (hmem p).symm

/-- A growing list above `ack` that holds the next `n` numbers starts with them. -/
theorem take_eq_range' {l : List Nat} {n : Nat} (hsorted : l.Pairwise (· < ·))
    (habove : ∀ x ∈ l, ack < x) (hmem : ∀ x, ack < x → x ≤ ack + n → x ∈ l) :
    l.take n = List.range' (ack + 1) n := by
  induction n generalizing ack l with
  | zero => simp
  | succ n ih =>
    cases l with
    | nil => cases hmem (ack + 1) (by omega) (by omega)
    | cons x xs =>
      rw [List.pairwise_cons] at hsorted
      have hx : x = ack + 1 := by
        rcases List.mem_cons.1 (hmem (ack + 1) (by omega) (by omega)) with heq | hmem'
        · exact heq.symm
        · have hlt := hsorted.1 _ hmem'
          have := habove x List.mem_cons_self
          omega
      subst hx
      rw [List.take_succ_cons, List.range'_succ]
      refine congrArg _ (ih hsorted.2 hsorted.1 fun y hlow hhigh => ?_)
      rcases List.mem_cons.1 (hmem y (by omega) (by omega)) with heq | hmem'
      · omega
      · exact hmem'

/-- The rows up to a sequence, when all of them are stored under the credential. -/
theorem sequences_batchesAbove_take {n : Nat} (h : ∀ sequence, ack < sequence →
    sequence ≤ ack + n → ∃ row, s.batches.lookup ⟨nodeId, bootId, sequence⟩ = some row ∧
      row.agentId = agentId) :
    (sequences (batchesAbove s agentId nodeId bootId ack)).take n = List.range' (ack + 1) n := by
  refine take_eq_range' ?_ ?_ fun sequence hlow hhigh => ?_
  · rw [sequences, List.pairwise_map]
    exact pairwise_batchesAbove s agentId nodeId bootId ack
  · intro sequence hsequence
    obtain ⟨p, hp, rfl⟩ := List.mem_map.1 hsequence
    exact (mem_batchesAbove.1 hp).2.2.2.2
  · obtain ⟨row, hrow, hagent⟩ := h sequence hlow hhigh
    exact List.mem_map.2 ⟨(⟨nodeId, bootId, sequence⟩, row),
      mem_batchesAbove.2 ⟨hrow, hagent, rfl, rfl, hlow⟩, rfl⟩

/-- The rows above a later acknowledgement are the rest. -/
theorem batchesAbove_drop {n : Nat}
    (htake : (sequences (batchesAbove s agentId nodeId bootId ack)).take n =
      List.range' (ack + 1) n)
    (hsame : ∀ key : BatchKey, ack + n < key.sequence →
      s'.batches.lookup key = s.batches.lookup key) :
    batchesAbove s' agentId nodeId bootId (ack + n) =
      (batchesAbove s agentId nodeId bootId ack).drop n := by
  have hsorted := pairwise_batchesAbove s agentId nodeId bootId ack
  have hsplit := List.take_append_drop n (batchesAbove s agentId nodeId bootId ack)
  have hcut := hsorted
  rw [← hsplit, List.pairwise_append] at hcut
  have htaken : ∀ p ∈ (batchesAbove s agentId nodeId bootId ack).take n,
      p.1.sequence ≤ ack + n := by
    intro p hp
    have hmem : p.1.sequence ∈ (sequences (batchesAbove s agentId nodeId bootId ack)).take n := by
      rw [sequences, ← List.map_take]
      exact List.mem_map.2 ⟨p, hp, rfl⟩
    rw [htake, List.mem_range'_1] at hmem
    omega
  refine batchesAbove_eq (fun p => ?_) hcut.2.1
  constructor
  · intro hp
    obtain ⟨hrow, hagent, hnode, hboot, -⟩ := mem_batchesAbove.1 (List.mem_of_mem_drop hp)
    -- A row behind the first `n` is above the last of them.
    have habove : ack + n < p.1.sequence := by
      rcases Nat.eq_zero_or_pos n with rfl | hpos
      · exact (mem_batchesAbove.1 (List.mem_of_mem_drop hp)).2.2.2.2
      · have hlast : ack + n ∈ (sequences (batchesAbove s agentId nodeId bootId ack)).take n := by
          rw [htake, List.mem_range'_1]
          omega
        rw [sequences, ← List.map_take] at hlast
        obtain ⟨q, hq, hsequence⟩ := List.mem_map.1 hlast
        have := hcut.2.2 q hq p hp
        omega
    exact mem_batchesAbove.2 ⟨(hsame _ habove).trans hrow, hagent, hnode, hboot, habove⟩
  · intro hp
    obtain ⟨hrow, hagent, hnode, hboot, habove⟩ := mem_batchesAbove.1 hp
    have hall : p ∈ batchesAbove s agentId nodeId bootId ack :=
      mem_batchesAbove.2 ⟨(hsame _ habove).symm.trans hrow, hagent, hnode, hboot, by omega⟩
    rw [← hsplit] at hall
    rcases List.mem_append.1 hall with htop | hrest
    · have := htaken p htop
      omega
    · exact hrest

end Rows

/-! ## One scan -/

/-- A stored row without its mark. -/
def StoredBatch.stored (row : StoredBatch) : StoredBatch := { row with accounted := false }

/-- What a scan leaves behind. -/
structure Scanned (s : Database) (rows : List (BatchKey × StoredBatch)) (ack : Nat) (s' : Database)
    (ack' : Nat) : Prop where
  ge : ack ≤ ack'
  le : ack' ≤ ack + rows.length
  reaches : ∀ n, (sequences rows).take n = List.range' (ack + 1) n → ack + n ≤ ack'
  passed : ∀ sequence, ack < sequence → sequence ≤ ack' → ∃ p ∈ rows, p.1.sequence = sequence
  above : ∀ key : BatchKey, ack' < key.sequence → s'.batches.lookup key = s.batches.lookup key
  rows : ∀ key, (s'.batches.lookup key).map StoredBatch.stored =
    (s.batches.lookup key).map StoredBatch.stored
  agents : s'.agents = s.agents
  modes : ∀ nodeId, (s'.nodes.lookup nodeId).map (·.controlMode) =
    (s.nodes.lookup nodeId).map (·.controlMode)

namespace Scanned

variable {s s' s'' : Database} {rows : List (BatchKey × StoredBatch)} {ack ack' : Nat}

/-- A scan that finds a gap, or nothing. -/
theorem stop (hgap : ∀ p, rows.head? = some p → p.1.sequence ≠ ack + 1) :
    Scanned s rows ack s ack where
  ge := Nat.le_refl _
  le := Nat.le_add_right _ _
  reaches := by
    intro n hn
    cases n with
    | zero => exact Nat.le_refl _
    | succ n =>
      cases rows with
      | nil => cases hn
      | cons p rows =>
        rw [sequences, List.map_cons, List.take_succ_cons, List.range'_succ] at hn
        exact absurd (List.cons.inj hn).1 (hgap p rfl)
  passed := fun _ hlow hhigh => absurd hhigh (by omega)
  above := fun _ _ => rfl
  rows := fun _ => rfl
  agents := rfl
  modes := fun _ => rfl

/-- A scan that takes the next row and goes on. -/
theorem next {key : BatchKey} {batch : StoredBatch} (hkey : key.sequence = ack + 1)
    (habove : ∀ other : BatchKey, ack + 1 < other.sequence →
      s'.batches.lookup other = s.batches.lookup other)
    (hrows : ∀ other, (s'.batches.lookup other).map StoredBatch.stored =
      (s.batches.lookup other).map StoredBatch.stored)
    (hagents : s'.agents = s.agents)
    (hmodes : ∀ nodeId, (s'.nodes.lookup nodeId).map (·.controlMode) =
      (s.nodes.lookup nodeId).map (·.controlMode))
    (h : Scanned s' rows (ack + 1) s'' ack') : Scanned s ((key, batch) :: rows) ack s'' ack' where
  ge := by have := h.ge; omega
  le := by have := h.le; rw [List.length_cons]; omega
  reaches := by
    intro n hn
    cases n with
    | zero => have := h.ge; omega
    | succ n =>
      rw [sequences, List.map_cons, List.take_succ_cons, List.range'_succ] at hn
      have := h.reaches n (List.cons.inj hn).2
      omega
  passed := by
    intro sequence hlow hhigh
    rcases Nat.eq_or_lt_of_le hlow with heq | hlt
    · exact ⟨_, List.mem_cons_self, by rw [hkey]; exact heq⟩
    · obtain ⟨p, hp, hsequence⟩ := h.passed sequence hlt hhigh
      exact ⟨p, List.mem_cons_of_mem _ hp, hsequence⟩
  above := fun other hother => (h.above other hother).trans (habove other (by have := h.ge; omega))
  rows := fun other => (h.rows other).trans (hrows other)
  agents := h.agents.trans hagents
  modes := fun nodeId => (h.modes nodeId).trans (hmodes nodeId)

end Scanned

theorem accountFrom_scanned {s s' : Database} {agentId : String} {scan scan' : Scan}
    {rows : List (BatchKey × StoredBatch)}
    (h : accountFrom agentId scan rows s = .ok (scan', s')) :
    Scanned s rows scan.ackThrough s' scan'.ackThrough := by
  induction rows generalizing s scan with
  | nil =>
    cases h
    exact Scanned.stop fun p hp => by cases hp
  | cons p rows ih =>
    obtain ⟨key, batch⟩ := p
    unfold accountFrom at h
    split at h
    · next hgap =>
      cases h
      refine Scanned.stop fun p hp => ?_
      cases hp
      exact hgap
    next hkey =>
    rw [not_not] at hkey
    split at h
    · have hrest := ih h
      dsimp only at hrest
      rw [hkey] at hrest
      exact hrest.next hkey (fun _ _ => rfl) (fun _ => rfl) rfl fun _ => rfl
    · obtain ⟨⟨applied, s₁⟩, hone, h⟩ := bind_eq_ok.1 h
      obtain ⟨⟨applied', s₂⟩, happly, hone⟩ := bind_eq_ok.1 hone
      cases hone
      have hframe := applyDirectBatch_frame happly
      have hrest := ih h
      dsimp only at hrest
      rw [hkey] at hrest
      refine Scanned.next hkey (fun other hother => ?_) (fun other => ?_) ?_ ?_ hrest
      · have hne : other ≠ key := fun heq => by rw [heq] at hother; omega
        rw [Table.lookup_modify_ne _ _ hne, hframe.batches]
      · rw [Table.lookup_modify, hframe.batches]
        split
        · next heq =>
          rw [heq, Option.map_map]
          rfl
        · rfl
      · exact hframe.agents
      · exact hframe.modes

theorem advanceFrom_scanned (s : Database) (ack : Nat) (rows : List (BatchKey × StoredBatch)) :
    Scanned s rows ack s (advanceFrom ack rows) := by
  induction rows generalizing ack with
  | nil => exact Scanned.stop fun p hp => by cases hp
  | cons p rows ih =>
    obtain ⟨key, batch⟩ := p
    unfold advanceFrom
    split
    · next hkey =>
      have hrest := ih key.sequence
      rw [hkey] at hrest ⊢
      exact hrest.next hkey (fun _ _ => rfl) (fun _ => rfl) rfl fun _ => rfl
    · next hgap =>
      refine Scanned.stop fun p hp => ?_
      cases hp
      exact hgap

/-- The rows a scan takes in a control mode. -/
def pageOf (mode : ControlMode) : Nat :=
  if mode = .directPrimary then maxContiguousBatches else ackPage

theorem processBatches_scanned {s s' : Database} {agentId nodeId bootId : String} {ack : Nat}
    {scan : Scan} (h : processBatches agentId nodeId bootId ack s = .ok (scan, s')) :
    ∃ mode, (s.nodes.lookup nodeId).map (·.controlMode) = some mode ∧
      Scanned s ((batchesAbove s agentId nodeId bootId ack).take (pageOf mode)) ack s'
        scan.ackThrough := by
  obtain ⟨node, hnode, h⟩ := bind_eq_ok.1 h
  refine ⟨node.controlMode, by rw [find_eq_ok.1 hnode]; rfl, ?_⟩
  unfold pageOf
  split at h
  · next hmode =>
    rw [if_pos hmode]
    exact accountFrom_scanned h
  · next hmode =>
    rw [if_neg hmode]
    cases h
    exact advanceFrom_scanned s ack _

/-! ## The invariant -/

/-- The batch is stored under a credential. -/
def Database.StoredBy (s : Database) (agentId : String) (key : BatchKey) : Prop :=
  ∃ row, s.batches.lookup key = some row ∧ row.agentId = agentId

/-- A row that is stored keeps its credential. -/
theorem Database.StoredBy.of_rows {s s' : Database} {agentId : String} {key : BatchKey}
    (hrows : (s'.batches.lookup key).map StoredBatch.stored =
      (s.batches.lookup key).map StoredBatch.stored) (h : s.StoredBy agentId key) :
    s'.StoredBy agentId key := by
  obtain ⟨row, hrow, hagent⟩ := h
  rw [hrow, Option.map_some] at hrows
  obtain ⟨row', hrow', heq⟩ := Option.map_eq_some_iff.1 hrows
  exact ⟨row', hrow', (congrArg StoredBatch.agentId heq).trans hagent⟩

/-- Storing a batch adds at most its own row. -/
theorem storeBatch_keeps {s s' : Database} {payloadHash : UsageBatch → String}
    {agentId nodeId : String} {batch : UsageBatch}
    (h : storeBatch payloadHash agentId nodeId batch s = .ok s') :
    s'.agents = s.agents ∧ s'.nodes = s.nodes ∧
      ∀ id key, s.StoredBy id key → s'.StoredBy id key := by
  unfold storeBatch at h
  split at h
  · split at h
    · cases h
      exact ⟨rfl, rfl, fun _ _ hkey => hkey⟩
    · cases h
  next habsent =>
  cases h
  refine ⟨rfl, rfl, fun id key ⟨row, hrow, hagent⟩ => ⟨row, ?_, hagent⟩⟩
  dsimp only
  rw [AList.lookup_insert_ne]
  · exact hrow
  · rintro rfl
    rw [habsent] at hrow
    cases hrow

/-- An acknowledgement covers rows of its own credential, and the node of a credential
exists. -/
structure Held (s : Database) : Prop where
  acked : s.Acks s.StoredBy
  nodes : ∀ agentId agent, s.agents.lookup agentId = some agent →
    ((s.nodes.lookup agent.nodeId).map (·.controlMode)).isSome = true

/-- Nothing was uploaded yet, and the node of a credential exists. -/
structure Database.Blank (s : Database) : Prop where
  batches : s.batches = ∅
  agents : ∀ agentId agent, s.agents.lookup agentId = some agent →
    agent.lastAckSequence = 0 ∧ (s.nodes.lookup agent.nodeId).isSome = true

namespace Held

variable {s s' : Database}

theorem of_blank (h : s.Blank) : Held s where
  acked := fun agentId agent hagent => NodeAgent.acked_of_zero (h.agents agentId agent hagent).1
  nodes := fun agentId agent hagent => by
    rw [Option.isSome_map]
    exact (h.agents agentId agent hagent).2

theorem frame (hframe : Frame s s') (h : Held s) : Held s' where
  acked := h.acked.mono hframe.agents fun _ _ ⟨row, hrow, hagent⟩ =>
    ⟨row, hframe.batches ▸ hrow, hagent⟩
  nodes := fun agentId agent hagent => by
    rw [hframe.modes]
    exact h.nodes agentId agent (hframe.agents ▸ hagent)

/-- The nodes of the credentials, when one of them gets a new row. -/
theorem nodes_insert (h : Held s) {agentId : String} {agent : NodeAgent}
    (hnode : ((s.nodes.lookup agent.nodeId).map (·.controlMode)).isSome = true) :
    ∀ id row, (s.agents.insert agentId agent).lookup id = some row →
      ((s.nodes.lookup row.nodeId).map (·.controlMode)).isSome = true := by
  intro id row hrow
  rw [Table.lookup_insert_ite] at hrow
  split at hrow
  · cases hrow
    exact hnode
  · exact h.nodes id row hrow

theorem revoke {agents : Table String NodeAgent} (h : Held { s with agents }) (agentId : String) :
    Held { s with agents := agents.modify agentId ({ · with revoked := true }) } where
  acked := h.acked.revoke agentId
  nodes := by
    intro id row hrow
    dsimp only at hrow
    rw [Table.lookup_modify] at hrow
    split at hrow
    · obtain ⟨agent, hagent, rfl⟩ := Option.map_eq_some_iff.1 hrow
      exact h.nodes agentId agent hagent
    · exact h.nodes id row hrow

theorem newAgent (h : Held s) {agentId nodeId : String} {node : Node} {bootId : Option String}
    (hnode : s.nodes.lookup nodeId = some node)
    (hrun : Api.newAgent agentId nodeId bootId s = .ok s') : Held s' := by
  obtain ⟨-, -, hrun⟩ := bind_eq_ok.1 hrun
  cases hrun
  refine ⟨h.acked.insert (NodeAgent.acked_of_zero rfl), h.nodes_insert ?_⟩
  rw [hnode]
  rfl

/-- An upload acknowledges rows of its own credential. -/
theorem ingestTx (h : Held s) {payloadHash : UsageBatch → String} {agentId : String}
    {batch : UsageBatch} {scan : Scan} (hboot : batch.bootId ≠ "")
    (hrun : Api.ingestTx payloadHash agentId batch s = .ok (scan, s')) :
    Held s' ∧ (∀ id key, s.StoredBy id key → s'.StoredBy id key) ∧
      ∃ agent, s.agents.lookup agentId = some agent ∧
        Through (s'.StoredBy agentId) agent.nodeId batch.bootId scan.ackThrough := by
  obtain ⟨agent, s₁, s₂, hagent, -, hstore, hprocess, rfl⟩ := ingestTx_eq_ok hrun
  obtain ⟨hagents, hnodes, hstored⟩ := storeBatch_keeps hstore
  obtain ⟨mode, -, hscan⟩ := processBatches_scanned hprocess
  have hkeeps : ∀ id key, s.StoredBy id key → s₂.StoredBy id key :=
    fun id key hkey => (hstored id key hkey).of_rows (hscan.rows key)
  have hthrough : Through (s₂.StoredBy agentId) agent.nodeId batch.bootId scan.ackThrough := by
    intro sequence hone hle
    rcases Nat.lt_or_ge (agent.uploading batch.bootId).lastAckSequence sequence with hlow | hlow
    · obtain ⟨p, hp, rfl⟩ := hscan.passed sequence hlow hle
      obtain ⟨hrow, hid, hnode, hboot, -⟩ := mem_batchesAbove.1 (List.mem_of_mem_take hp)
      rw [← hnode, ← hboot]
      exact Database.StoredBy.of_rows (hscan.rows _) ⟨p.2, hrow, hid⟩
    · exact hkeeps _ _ (h.acked agentId agent hagent batch.bootId sequence hone hlow)
  have hnode : ((s₂.nodes.lookup agent.nodeId).map (·.controlMode)).isSome = true := by
    rw [hscan.modes, hnodes]
    exact h.nodes agentId agent hagent
  have h₂ : Held s₂ :=
    ⟨h.acked.mono (hscan.agents.trans hagents) hkeeps, fun id row hrow => by
      rw [hscan.modes, hnodes]
      exact h.nodes id row (hagents ▸ hscan.agents ▸ hrow)⟩
  refine ⟨⟨h₂.acked.insert (NodeAgent.acked_of_boot rfl hboot ?_), h₂.nodes_insert ?_⟩, hkeeps,
    agent, hagent, hthrough⟩
  · rw [NodeAgent.uploading_nodeId]
    exact hthrough
  · rw [NodeAgent.uploading_nodeId]
    exact hnode

/-- Every request keeps the invariant. -/
theorem preserved (payloadHash : UsageBatch → String) (request : Request) :
    request.Preserved payloadHash Held := by
  cases request with
  | heartbeat agentId bootId =>
    intro hboot s a s' h hrun
    have hacks := (h.acked.heartbeat hboot hrun).1
    obtain ⟨agent, hagent, hrun⟩ := bind_eq_ok.1 hrun
    obtain ⟨-, -, hrun⟩ := bind_eq_ok.1 hrun
    obtain ⟨-, -, hrun⟩ := bind_eq_ok.1 hrun
    cases hrun
    refine ⟨hacks, h.nodes_insert ?_⟩
    rw [NodeAgent.onBoot_nodeId]
    exact h.nodes agentId agent (find_eq_ok.1 hagent)
  | upload agentId batch => exact fun hboot _ s a s' h hrun => (h.ingestTx hboot hrun).1
  | createCredential nodeId agentId =>
    intro s a s' h hrun
    obtain ⟨node, hnode, hrun⟩ := bind_eq_ok.1 hrun
    obtain ⟨s₁, hnew, hrun⟩ := bind_eq_ok.1 hrun
    cases hrun
    have hrevoked : Held (revokeAll nodeId s) :=
      List.foldlRecOn (motive := fun agents : Table String NodeAgent => Held { s with agents })
        _ _ h fun _ hagents id _ => hagents.revoke id
    exact hrevoked.newAgent (find_eq_ok.1 hnode) hnew
  | revokeCredential nodeId agentId =>
    intro s a s' h hrun
    obtain ⟨agent, -, hrun⟩ := bind_eq_ok.1 hrun
    obtain ⟨-, -, hrun⟩ := bind_eq_ok.1 hrun
    cases hrun
    exact h.revoke agentId
  | register nodeId agentId bootId =>
    intro _ s a s' h hrun
    obtain ⟨node, hnode, hrun⟩ := bind_eq_ok.1 hrun
    obtain ⟨s₁, hnew, hrun⟩ := bind_eq_ok.1 hrun
    cases hrun
    exact h.newAgent (find_eq_ok.1 hnode) hnew
  | _ => exact Request.preserved_of_frame (fun _ _ hframe h => h.frame hframe) rfl

theorem run (h : Held s) (payloadHash : UsageBatch → String) (steps : List Step) :
    Held (s.run payloadHash steps) :=
  Database.run_preserved h steps fun step _ => preserved payloadHash step.1

end Held

end ChordV.Api
