import ChordV.Api.Acks

/-!
# What a transaction does

One lemma per transaction that says what it did when it committed: the rows it read, the
guards it passed, and the state it left.  The invariants of the bindings and their commands
start from these and never unfold a transaction again.

* `applyDirectBatch_eq_ok` cuts a batch into its passes: the samples are prepared, billed,
  written, charged to the subscriptions, and the exhausted subscriptions are disabled.
* `processBatches_induct` is the rule of the scan over the stored batches.
* `ensurePanelClientBinding_eq_ok` tells the two branches of an activation apart.
* `finalWorld_silently` says that a request with one transaction either leaves the state alone
  or commits it.
-/

namespace ChordV.Api

open Lib Fallible

section Effects

variable {s s' : Database}

/-! ## Metering -/

theorem prepareSample_eq_some {key : BatchKey} {sample : UsageSample} {e : Entry}
    (h : prepareSample s key sample = .ok (some e)) :
    e.sample = sample ∧ s.bindings.lookup sample.bindingId = some e.binding ∧
      e.binding.nodeId = key.nodeId ∧ e.binding.source = .direct := by
  unfold prepareSample at h
  split at h
  · cases h
  · next binding hbinding =>
    split at h
    · cases h
    · next hvalid =>
      simp only [not_or, not_not] at hvalid
      split at h
      · cases h
        exact ⟨rfl, hbinding, hvalid⟩
      · split at h <;> cases h
        exact ⟨rfl, hbinding, hvalid⟩
      · split at h <;> cases h
        exact ⟨rfl, hbinding, hvalid⟩
      · cases h

/-- A sample is left out because its binding is off and the batch lies behind the cutoff. -/
theorem prepareSample_eq_none {key : BatchKey} {sample : UsageSample}
    (h : prepareSample s key sample = .ok none) :
    ∃ binding, s.bindings.lookup sample.bindingId = some binding ∧ binding.nodeId = key.nodeId ∧
      binding.source = .direct ∧ (binding.status = .disabled ∨ binding.status = .deleted) ∧
      binding.behindCutoff key.bootId key.sequence = true := by
  unfold prepareSample at h
  split at h
  · cases h
  · next binding hbinding =>
    split at h
    · cases h
    · next hvalid =>
      simp only [not_or, not_not] at hvalid
      split at h
      · cases h
      · next hstatus =>
        split at h <;> cases h
        next hcutoff => exact ⟨binding, hbinding, hvalid.1, hvalid.2, .inl hstatus, hcutoff⟩
      · next hstatus =>
        split at h <;> cases h
        next hcutoff => exact ⟨binding, hbinding, hvalid.1, hvalid.2, .inr hstatus, hcutoff⟩
      · cases h

/-- The entries of a batch come from its samples, and every sample it leaves out lies behind
the cutoff of its binding. -/
theorem prepareSamples_eq_ok {key : BatchKey} {samples : List UsageSample} {entries : List Entry}
    {skipped : List String} (h : prepareSamples s key samples = .ok (entries, skipped)) :
    (entries.map (·.sample)).Sublist samples ∧
    (∀ e ∈ entries, s.bindings.lookup e.sample.bindingId = some e.binding ∧
      e.binding.nodeId = key.nodeId ∧ e.binding.source = .direct) ∧
    ∀ bindingId ∈ skipped, ∃ binding, s.bindings.lookup bindingId = some binding ∧
      binding.nodeId = key.nodeId ∧ binding.source = .direct ∧
      (binding.status = .disabled ∨ binding.status = .deleted) ∧
      binding.behindCutoff key.bootId key.sequence = true := by
  obtain ⟨prepared, hprepared, h⟩ := bind_eq_ok.1 h
  cases h
  have hpairs := mapM_eq_ok hprepared
  clear hprepared h
  induction hpairs with
  | nil => simp
  | @cons sample p samples prepared hp _ ih =>
    obtain ⟨entry, hentry, hp⟩ := bind_eq_ok.1 hp
    cases hp
    obtain ⟨hsublist, hentries, hskipped⟩ := ih
    cases entry with
    | none =>
      refine ⟨?_, ?_, ?_⟩
      · simpa using hsublist.cons sample
      · simpa using hentries
      · simp only [Option.isNone_none, List.filter_cons_of_pos, List.map_cons, List.mem_cons]
        rintro bindingId (rfl | hmem)
        · exact prepareSample_eq_none hentry
        · exact hskipped bindingId hmem
    | some e =>
      obtain ⟨rfl, hrest⟩ := prepareSample_eq_some hentry
      refine ⟨?_, ?_, ?_⟩
      · simpa using hsublist
      · intro e' he'
        rcases List.mem_cons.1 he' with rfl | hmem
        · exact hrest
        · exact hentries e' hmem
      · simpa using hskipped

theorem billEntries_eq_ok {entries : List Entry} {billed : List (Entry × Nat)}
    (h : billEntries s entries = .ok billed) :
    billed.map Prod.fst = entries ∧ ∀ p ∈ billed, entryDelta s p.1 = .ok p.2 := by
  have hpairs := mapM_eq_ok h
  clear h
  induction hpairs with
  | nil => simp
  | @cons e p entries billed hp _ ih =>
    obtain ⟨delta, hdelta, hp⟩ := bind_eq_ok.1 hp
    cases hp
    obtain ⟨hmap, hdeltas⟩ := ih
    refine ⟨by simp [hmap], ?_⟩
    simp only [List.mem_cons]
    rintro p (rfl | hmem)
    · exact hdelta
    · exact hdeltas p hmem

/-- Charging writes to the subscriptions that were used alone, and disables some of them. -/
theorem chargeAll_eq_ok {read : Database} {sampledAt : Nat} {usages : List Usage}
    {disabled : List String} {transitions : List SubscriptionTransition}
    (h : chargeAll read sampledAt usages s = .ok (disabled, transitions, s')) :
    (∃ subscriptions, s' = { s with subscriptions } ∧ ∀ id,
      (∀ usage ∈ usages, usage.subscriptionId ≠ id) →
        subscriptions.lookup id = s.subscriptions.lookup id) ∧
      ∀ id ∈ disabled, ∃ usage ∈ usages, usage.subscriptionId = id := by
  refine foldlM_induct (I := fun r : List String × List SubscriptionTransition × Database =>
    (∃ subscriptions, r.2.2 = { s with subscriptions } ∧ ∀ id,
      (∀ usage ∈ usages, usage.subscriptionId ≠ id) →
        subscriptions.lookup id = s.subscriptions.lookup id) ∧
      ∀ id ∈ r.1, ∃ usage ∈ usages, usage.subscriptionId = id) ?_
    ⟨⟨s.subscriptions, rfl, fun _ _ => rfl⟩, fun id hid => by cases hid⟩ h
  intro acc usage acc' husage hacc hstep
  obtain ⟨⟨state, more, t₁⟩, hcharge, hstep⟩ := bind_eq_ok.1 hstep
  cases hstep
  obtain ⟨sub, -, hcharge⟩ := bind_eq_ok.1 hcharge
  obtain ⟨used, -, hcharge⟩ := bind_eq_ok.1 hcharge
  obtain ⟨remaining, -, hcharge⟩ := bind_eq_ok.1 hcharge
  cases hcharge
  obtain ⟨⟨subscriptions, hwritten, hothers⟩, hused⟩ := hacc
  rw [hwritten]
  refine ⟨⟨_, rfl, fun id hid => ?_⟩, fun id hid => ?_⟩
  · exact (Table.lookup_modify_ne _ _ (hid usage husage).symm).trans (hothers id hid)
  · dsimp only at hid
    split at hid
    · exact hused id hid
    · rcases List.mem_append.1 hid with hid | hid
      · exact hused id hid
      · exact ⟨usage, husage, (List.mem_singleton.1 hid).symm⟩

theorem writeEntries_subscriptions (key : BatchKey) (billed : List (Entry × Nat))
    (skipped : List String) (s : Database) :
    (writeEntries key billed skipped s).subscriptions = s.subscriptions :=
  List.foldlRecOn (motive := fun t : Database => t.subscriptions = s.subscriptions) _ _ rfl
    fun _ ht _ _ => ht

/-- The used subscriptions are those of the billed entries. -/
theorem mem_foldl_addUsage {billed : List (Entry × Nat)} {usage : Usage}
    (h : usage ∈ billed.foldl addUsage []) :
    ∃ p ∈ billed, p.1.binding.subscriptionId = usage.subscriptionId := by
  refine List.foldlRecOn (motive := fun usages : List Usage => ∀ usage ∈ usages, ∃ p ∈ billed,
    p.1.binding.subscriptionId = usage.subscriptionId) _ _ (fun _ hnil => by cases hnil) ?_ usage h
  intro usages husages p hp usage husage
  unfold addUsage at husage
  dsimp only at husage
  split at husage
  · exact husages usage husage
  · split at husage
    · obtain ⟨u, hu, rfl⟩ := List.mem_map.1 husage
      obtain ⟨q, hq, hsub⟩ := husages u hu
      refine ⟨q, hq, ?_⟩
      split <;> exact hsub
    · rcases List.mem_append.1 husage with husage | husage
      · exact husages usage husage
      · obtain rfl := List.mem_singleton.1 husage
        exact ⟨p, hp, rfl⟩

theorem disableOnNode_eq_ok {currentNodeId currentAgentId nodeId : String}
    {bindings : List (String × Binding)} {agentIds : List String}
    (h : disableOnNode currentNodeId currentAgentId nodeId bindings s = .ok (agentIds, s')) :
    ∃ revision s₁, bumpRevision nodeId s = .ok (revision, s₁) ∧
      let s₂ := bindings.foldl (disableAt revision) s₁
      (s' = s₂ ∧ nodeId ≠ currentNodeId ∧ s.agentOf nodeId = none) ∨
      ∃ agentId, s' = bindings.foldl (autoDisable nodeId agentId revision) s₂ ∧
        (if nodeId = currentNodeId then some currentAgentId else s.agentOf nodeId) =
          some agentId := by
  obtain ⟨⟨revision, s₁⟩, hbump, h⟩ := bind_eq_ok.1 h
  refine ⟨revision, s₁, hbump, ?_⟩
  dsimp only at h
  split at h
  · next hagent =>
    cases h
    refine .inl ⟨rfl, ?_⟩
    split at hagent
    · cases hagent
    · next hne => exact ⟨hne, hagent⟩
  · next agentId hagent =>
    cases h
    exact .inr ⟨agentId, rfl, hagent⟩

/-- The disables of metering keep a statement that the disables of each node keep. -/
theorem disableDirectBindings_induct {I : Database → Prop} {currentNodeId currentAgentId : String}
    {disabled agentIds : List String}
    (hstep : ∀ t t' nodeId bindings agentIds,
      (∀ p ∈ bindings, s.bindings.lookup p.1 = some p.2 ∧ p.2.nodeId = nodeId ∧
        p.2.source = .direct ∧ p.2.status = .active ∧ p.2.subscriptionId ∈ disabled) → I t →
      disableOnNode currentNodeId currentAgentId nodeId bindings t = .ok (agentIds, t') → I t')
    (hs : I s)
    (h : disableDirectBindingsForSubscriptions currentNodeId currentAgentId disabled s =
      .ok (agentIds, s')) : I s' := by
  refine foldlM_induct (I := fun r : List String × Database => I r.2) ?_ hs h
  intro acc nodeId acc' _ hacc hnext
  obtain ⟨⟨more, t₁⟩, hnode, hnext⟩ := bind_eq_ok.1 hnext
  cases hnext
  refine hstep acc.2 t₁ nodeId _ more ?_ hacc hnode
  intro p hp
  obtain ⟨hp, hnodeId⟩ := List.mem_filter.1 hp
  obtain ⟨hp, hfilter⟩ := List.mem_filter.1 hp
  simp only [Bool.and_eq_true, List.contains_iff_mem, decide_eq_true_eq] at hfilter hnodeId
  exact ⟨Table.mem_pairs.1 hp, hnodeId, hfilter.1.2, hfilter.2, hfilter.1.1⟩

/-- Where no subscription ended, nothing is disabled. -/
theorem disableDirectBindingsForSubscriptions_nil {nodeId agentId : String} {s : Database} :
    disableDirectBindingsForSubscriptions nodeId agentId [] s = .ok ([], s) := by
  have hnone : (s.bindings.pairs.filter fun p => ([] : List String).contains p.2.subscriptionId &&
      p.2.source = .direct && p.2.status = .active) = [] :=
    List.filter_eq_nil_iff.2 fun p _ hp => by simp at hp
  unfold disableDirectBindingsForSubscriptions
  rw [hnone]
  rfl

/-- The passes of a batch with samples. -/
theorem applyDirectBatch_eq_ok {agentId : String} {key : BatchKey} {sampledAt : Nat}
    {samples : List UsageSample} {applied : Application}
    (h : applyDirectBatch agentId key sampledAt samples s = .ok (applied, s')) :
    s' = s ∨ ∃ entries skipped billed disabled subscriptions ledger agentIds,
      (samples.map (·.bindingId)).Nodup ∧
      prepareSamples s key samples = .ok (entries, skipped) ∧
      billEntries s entries = .ok billed ∧
      (∀ id ∈ disabled, ∃ e ∈ entries, e.binding.subscriptionId = id) ∧
      (∀ id, (∀ e ∈ entries, e.binding.subscriptionId ≠ id) →
        subscriptions.lookup id = s.subscriptions.lookup id) ∧
      disableDirectBindingsForSubscriptions key.nodeId agentId disabled
        { writeEntries key billed skipped s with subscriptions, ledger } = .ok (agentIds, s') := by
  unfold applyDirectBatch at h
  split at h
  · cases h
    exact .inl rfl
  obtain ⟨_, hnodup, h⟩ := bind_eq_ok.1 h
  obtain ⟨⟨entries, skipped⟩, hprepare, h⟩ := bind_eq_ok.1 h
  obtain ⟨billed, hbill, h⟩ := bind_eq_ok.1 h
  obtain ⟨⟨disabled, transitions, charged⟩, hcharge, h⟩ := bind_eq_ok.1 h
  obtain ⟨⟨subscriptions, rfl, hothers⟩, hused⟩ := chargeAll_eq_ok hcharge
  have husages : ∀ usage ∈ billed.foldl addUsage [], ∃ e ∈ entries,
      e.binding.subscriptionId = usage.subscriptionId := by
    intro usage husage
    obtain ⟨p, hp, hsub⟩ := mem_foldl_addUsage husage
    obtain ⟨rfl, -⟩ := billEntries_eq_ok hbill
    exact ⟨p.1, List.mem_map_of_mem hp, hsub⟩
  have hdisabled : ∀ id ∈ disabled, ∃ e ∈ entries, e.binding.subscriptionId = id := by
    intro id hid
    obtain ⟨usage, husage, rfl⟩ := hused id hid
    exact husages usage husage
  have hunused : ∀ id, (∀ e ∈ entries, e.binding.subscriptionId ≠ id) →
      subscriptions.lookup id = s.subscriptions.lookup id := by
    intro id hid
    rw [hothers id, writeEntries_subscriptions]
    intro usage husage heq
    obtain ⟨e, he, hsub⟩ := husages usage husage
    exact hid e he (hsub.trans heq)
  refine .inr ⟨entries, skipped, billed, disabled, subscriptions,
    (writeEntries key billed skipped s).ledger ++ billed.filterMap (ledgerRow sampledAt), ?_⟩
  dsimp only at h
  split at h
  · next hnone =>
    cases h
    rw [List.isEmpty_iff] at hnone
    subst hnone
    refine ⟨[], require_eq_ok.1 hnodup, hprepare, hbill, hdisabled, hunused, ?_⟩
    exact disableDirectBindingsForSubscriptions_nil
  · obtain ⟨⟨agentIds, s₁⟩, hdisable, h⟩ := bind_eq_ok.1 h
    cases h
    exact ⟨agentIds, require_eq_ok.1 hnodup, hprepare, hbill, hdisabled, hunused, hdisable⟩

/-! ## Credentials and heartbeats -/

theorem heartbeat_eq_ok {agentId bootId : String} {ack : Nat}
    (h : heartbeat agentId bootId s = .ok (ack, s')) :
    ∃ agent next, s.agents.lookup agentId = some agent ∧ next.nodeId = agent.nodeId ∧
      next.revoked = agent.revoked ∧ s' = { s with agents := s.agents.insert agentId next } := by
  obtain ⟨agent, hagent, h⟩ := bind_eq_ok.1 h
  obtain ⟨node, -, h⟩ := bind_eq_ok.1 h
  obtain ⟨-, -, h⟩ := bind_eq_ok.1 h
  cases h
  refine ⟨agent, _, find_eq_ok.1 hagent, ?_, ?_, rfl⟩
  · exact NodeAgent.onBoot_nodeId agent bootId
  · exact NodeAgent.onBoot_revoked agent bootId

theorem newAgent_eq_ok {agentId nodeId : String} {bootId : Option String}
    (h : newAgent agentId nodeId bootId s = .ok s') :
    s.agents.lookup agentId = none ∧ ∃ agent : NodeAgent, agent.nodeId = nodeId ∧
      s' = { s with agents := s.agents.insert agentId agent } := by
  obtain ⟨_, hfresh, h⟩ := bind_eq_ok.1 h
  cases h
  exact ⟨require_eq_ok.1 hfresh, _, rfl, rfl⟩

theorem createCredential_eq_ok {nodeId agentId : String}
    (h : createCredential nodeId agentId s = .ok ((), s')) :
    newAgent agentId nodeId none (revokeAll nodeId s) = .ok s' := by
  obtain ⟨node, -, h⟩ := bind_eq_ok.1 h
  obtain ⟨s₁, hnew, h⟩ := bind_eq_ok.1 h
  cases h
  exact hnew

theorem revokeCredential_eq_ok {nodeId agentId : String}
    (h : revokeCredential nodeId agentId s = .ok ((), s')) :
    ∃ agent, s.agents.lookup agentId = some agent ∧ agent.nodeId = nodeId ∧ agent.revoked = false ∧
      s' = { s with agents := s.agents.modify agentId ({ · with revoked := true }) } := by
  obtain ⟨agent, hagent, h⟩ := bind_eq_ok.1 h
  obtain ⟨_, hvalid, h⟩ := bind_eq_ok.1 h
  cases h
  exact ⟨agent, find_eq_ok.1 hagent, (require_eq_ok.1 hvalid).1, (require_eq_ok.1 hvalid).2, rfl⟩

theorem registerAgent_eq_ok {nodeId agentId bootId : String}
    (h : registerAgent nodeId agentId bootId s = .ok ((), s')) :
    newAgent agentId nodeId (some bootId) s = .ok s' := by
  obtain ⟨node, -, h⟩ := bind_eq_ok.1 h
  obtain ⟨s₁, hnew, h⟩ := bind_eq_ok.1 h
  cases h
  exact hnew

/-! ## Uploads -/

theorem storeBatch_eq_ok {payloadHash : UsageBatch → String} {agentId nodeId : String}
    {batch : UsageBatch} (h : storeBatch payloadHash agentId nodeId batch s = .ok s') :
    ∃ batches, s' = { s with batches } := by
  unfold storeBatch at h
  split at h
  · split at h
    · cases h
      exact ⟨s.batches, rfl⟩
    · cases h
  · cases h
    exact ⟨_, rfl⟩

/-- A scan keeps a statement that the accounting of every stored batch keeps. -/
theorem accountFrom_induct {I : Database → Prop} {agentId : String} {scan scan' : Scan}
    {rows : List (BatchKey × StoredBatch)}
    (hbatch : ∀ t t' p applied, p ∈ rows → I t →
      accountBatch agentId p.1 p.2 t = .ok (applied, t') → I t') (hs : I s)
    (h : accountFrom agentId scan rows s = .ok (scan', s')) : I s' := by
  induction rows generalizing s scan with
  | nil =>
    cases h
    exact hs
  | cons p rest ih =>
    obtain ⟨key, batch⟩ := p
    have hrest : ∀ t t' p applied, p ∈ rest → I t →
      accountBatch agentId p.1 p.2 t = .ok (applied, t') →
        I t' := fun t t' p applied hp => hbatch t t' p applied (List.mem_cons_of_mem _ hp)
    unfold accountFrom at h
    split at h
    · cases h
      exact hs
    · split at h
      · exact ih hrest hs h
      · obtain ⟨⟨applied, s₁⟩, haccount, h⟩ := bind_eq_ok.1 h
        exact ih hrest (hbatch s s₁ (key, batch) applied List.mem_cons_self hs haccount) h

theorem processBatches_induct {I : Database → Prop} {agentId nodeId bootId : String} {ack : Nat}
    {scan : Scan}
    (hbatch : ∀ t t' key batch applied, s.batches.lookup key = some batch → key.nodeId = nodeId →
      key.bootId = bootId → I t → accountBatch agentId key batch t = .ok (applied, t') → I t')
    (hs : I s) (h : processBatches agentId nodeId bootId ack s = .ok (scan, s')) : I s' := by
  obtain ⟨node, -, h⟩ := bind_eq_ok.1 h
  split at h
  · refine accountFrom_induct (fun t t' p applied hp ht haccount => ?_) hs h
    obtain ⟨hrow, -, hnode, hboot, -⟩ := mem_batchesAbove.1 (List.mem_of_mem_take hp)
    exact hbatch t t' p.1 p.2 applied hrow hnode hboot ht haccount
  · cases h
    exact hs

/-! ## Commands -/

theorem queueDirectBindingCommand_eq_ok {type : CommandType} {payload : Binding → Agent.Payload}
    {bindingId : String} (h : queueDirectBindingCommand type payload bindingId s = .ok s') :
    ∃ binding node agentId, s.bindings.lookup bindingId = some binding ∧
      s.nodes.lookup binding.nodeId = some node ∧ s.agentOf binding.nodeId = some agentId ∧
      let revision := node.agentConfigRevision + 1
      s' = { s with
        nodes := s.nodes.insert binding.nodeId { node with agentConfigRevision := revision }
        bindings := s.bindings.insert bindingId
          { binding with source := .direct, directRevision := revision }
        jobs := (resolveExhaustedCommands bindingId type s).jobs.insert
          (.agent type bindingId revision)
          { nodeId := binding.nodeId, agentId, commandType := type, targetRevision := revision
            payload := payload binding, bindingId } } := by
  obtain ⟨binding, hbinding, h⟩ := bind_eq_ok.1 h
  obtain ⟨⟨revision, s₁⟩, hbump, h⟩ := bind_eq_ok.1 h
  obtain ⟨node, hnode, rfl, rfl⟩ := bumpRevision_eq_ok hbump
  dsimp only at h
  split at h
  · cases h
  · next agentId hagent =>
    cases h
    exact ⟨binding, node, agentId, find_eq_ok.1 hbinding, hnode, hagent, rfl⟩

/-- The row that a mark leaves. -/
def Binding.marked (status : BindingStatus) (old : List BindingStatus) (b : Binding) : Binding :=
  if old.contains b.status then { b with status, directDisableWatermarks := none } else b

theorem lookup_markBindings (status : BindingStatus) (old : List BindingStatus)
    (bindingIds : List String) (s : Database) (bindingId : String) :
    (markBindings status old bindingIds s).bindings.lookup bindingId =
      if bindingId ∈ bindingIds then (s.bindings.lookup bindingId).map (Binding.marked status old)
      else s.bindings.lookup bindingId := by
  have hidem : ∀ b, Binding.marked status old (Binding.marked status old b) =
      Binding.marked status old b := by
    intro b
    unfold Binding.marked
    split
    · split <;> rfl
    · rfl
  have h := Table.lookup_foldl_modify (f := id) (g := fun _ => Binding.marked status old)
    (k := bindingId) hidem bindingIds s.bindings fun _ _ _ => rfl
  simp only [id_eq, exists_eq_right] at h
  exact h

theorem queuePanelEnsureJob_eq_ok {bindingId flow : String}
    (h : queuePanelEnsureJob bindingId flow s = .ok s') :
    ∃ payload : Binding → Agent.Payload, (∀ b, (payload b).bindingId = bindingId) ∧
      queueDirectBindingCommand .ensureUser payload bindingId s = .ok s' := by
  obtain ⟨binding, -, h⟩ := bind_eq_ok.1 h
  obtain ⟨sub, -, h⟩ := bind_eq_ok.1 h
  exact ⟨_, fun _ => rfl, h⟩

theorem findBinding_eq_some {input : Activation} {bindingId : String} {binding : Binding}
    (h : findBinding input s = some (bindingId, binding)) :
    s.bindings.lookup bindingId = some binding ∧
      binding.snapshotKey = ⟨input.nodeId, input.subscriptionId, some input.userId⟩ := by
  have hkey := List.find?_some h
  simp only [Bool.and_eq_true, decide_eq_true_eq] at hkey
  refine ⟨Table.mem_pairs.1 (List.mem_of_find?_eq_some h), ?_⟩
  rw [Binding.snapshotKey, hkey.1.1, hkey.1.2, hkey.2]

theorem findBinding_eq_none {input : Activation} (h : findBinding input s = none)
    {bindingId : String} {binding : Binding}
    (hbinding : s.bindings.lookup bindingId = some binding) :
    binding.snapshotKey ≠ ⟨input.nodeId, input.subscriptionId, some input.userId⟩ := by
  intro hkey
  have hfind := List.find?_eq_none.1 h (bindingId, binding) (Table.mem_pairs.2 hbinding)
  simp only [Binding.snapshotKey, SnapshotKey.mk.injEq] at hkey
  simp [hkey.1, hkey.2.1, hkey.2.2] at hfind

/-- An activation takes up the binding of its key, which is settled if it was off, or makes a
new one under an unused id. -/
theorem ensurePanelClientBinding_eq_ok {input : Activation}
    (h : ensurePanelClientBinding input s = .ok ((), s')) :
    (∃ bindingId existing payload, findBinding input s = some (bindingId, existing) ∧
      assertSettledBefore bindingId existing s = .ok () ∧
      (∀ b : Binding, (payload b).bindingId = bindingId) ∧
      queueDirectBindingCommand .ensureUser payload bindingId (rebaseline existing { s with
        bindings := s.bindings.insert bindingId (input.revive existing) }) = .ok s') ∨
    ∃ payload, findBinding input s = none ∧ s.bindings.lookup input.newBindingId = none ∧
      (∀ b : Binding, (payload b).bindingId = input.newBindingId) ∧
      queueDirectBindingCommand .ensureUser payload input.newBindingId
        (ensureTrafficSnapshotBaseline input.binding.snapshotKey 0 0 false { s with
          bindings := s.bindings.insert input.newBindingId input.binding }) = .ok s' := by
  obtain ⟨node, -, h⟩ := bind_eq_ok.1 h
  obtain ⟨-, -, h⟩ := bind_eq_ok.1 h
  obtain ⟨s₁, hactivate, h⟩ := bind_eq_ok.1 h
  cases h
  unfold ensurePanelClientBindingLocally at hactivate
  split at hactivate
  · next bindingId existing hfind =>
    obtain ⟨_, hsettled, hactivate⟩ := bind_eq_ok.1 hactivate
    obtain ⟨payload, hpayload, hqueue⟩ := queuePanelEnsureJob_eq_ok hactivate
    exact .inl ⟨bindingId, existing, payload, hfind, hsettled, hpayload, hqueue⟩
  · next hfind =>
    obtain ⟨_, hfresh, hactivate⟩ := bind_eq_ok.1 hactivate
    obtain ⟨payload, hpayload, hqueue⟩ := queuePanelEnsureJob_eq_ok hactivate
    exact .inr ⟨payload, hfind, require_eq_ok.1 hfresh, hpayload, hqueue⟩

theorem completeCommand_eq_ok {agentId : String} {key : JobKey} {result : CommandResult}
    (h : completeCommand agentId key result s = .ok ((), s')) :
    ∃ agent job, currentAgent agentId s = .ok agent ∧ s.jobs.lookup key = some job ∧
      job.nodeId = agent.nodeId ∧ job.agentId = agentId ∧ job.status.outstanding = true ∧
      ((result = .failed ∧
        s' = { s with jobs := s.jobs.insert key { job with status := .failed } }) ∨
      ∃ watermarks, result = .completed watermarks ∧
        s' = recordWatermarks agent.nodeId job watermarks
          { s with jobs := s.jobs.insert key { job with status := .completed } }) := by
  obtain ⟨agent, hagent, h⟩ := bind_eq_ok.1 h
  obtain ⟨job, hjob, h⟩ := bind_eq_ok.1 h
  obtain ⟨_, hvalid, h⟩ := bind_eq_ok.1 h
  obtain ⟨hnode, hagentId, houtstanding⟩ := require_eq_ok.1 hvalid
  refine ⟨agent, job, hagent, find_eq_ok.1 hjob, hnode, hagentId, houtstanding, ?_⟩
  cases result with
  | failed =>
    cases h
    exact .inl ⟨rfl, rfl⟩
  | completed watermarks =>
    cases h
    exact .inr ⟨watermarks, rfl, rfl⟩

theorem cancelExhausted_eq_ok {key : JobKey} (h : cancelExhausted key s = .ok ((), s')) :
    s' = s ∨ ∃ job resolved, s.jobs.lookup key = some job ∧ job.status.outstanding = true ∧
      maxAttempts ≤ job.attempts ∧
      s' = { s with jobs := s.jobs.insert key { job with status := .cancelled, resolved } } := by
  unfold cancelExhausted at h
  split at h
  · cases h
    exact .inl rfl
  · next job hjob =>
    split at h
    · next hdue =>
      cases h
      exact .inr ⟨job, _, hjob, hdue.1, hdue.2, rfl⟩
    · cases h
      exact .inl rfl

theorem claimDue_eq_ok {key : JobKey} (h : claimDue key s = .ok ((), s')) :
    s' = s ∨ ∃ job, s.jobs.lookup key = some job ∧ job.status.outstanding = true ∧
      let claimed := { job with status := .running, attempts := job.attempts + 1 }
      s' = { s with jobs := s.jobs.insert key claimed } := by
  unfold claimDue at h
  split at h
  · cases h
    exact .inl rfl
  · next job hjob =>
    split at h
    · next hdue =>
      cases h
      exact .inr ⟨job, hjob, hdue.1, rfl⟩
    · cases h
      exact .inl rfl

/-- A traffic reset rewrites the baselines of the bindings it found, then the figures of the
subscription. -/
theorem resetTraffic_eq_ok {subscriptionId : String} {userId : Option String}
    (h : resetTraffic subscriptionId userId s = .ok ((), s')) :
    ∃ ledger subscriptions, s' = { (bindingsOf s subscriptionId { userId }
      [.active, .disabled]).foldl persistBaseline s with ledger, subscriptions } := by
  obtain ⟨-, -, h⟩ := bind_eq_ok.1 h
  obtain ⟨sub, -, h⟩ := bind_eq_ok.1 h
  cases h
  exact ⟨_, _, rfl⟩

end Effects

/-- A request with one transaction leaves the state alone or commits. -/
theorem finalWorld_silently {f : Database → Except ApiError (Unit × Database)} (s : Database)
    (fates : List Fate) :
    finalWorld (silently f) s fates = s ∨ f s = .ok ((), finalWorld (silently f) s fates) := by
  have htriple : Triple (fun t => t = s) (transaction f)
      (fun _ t => t = s ∨ f s = .ok ((), t)) fun t => t = s ∨ f s = .ok ((), t) := by
    refine Triple.atomic ?_ fun _ h => .inl h
    rintro t ⟨⟩ t' rfl hf
    exact ⟨.inr hf, .inr hf⟩
  exact (Triple.bind htriple fun _ => Triple.pure fun _ h => h).finalWorld rfl fates

end ChordV.Api
