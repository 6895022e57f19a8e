import ChordV.Api.Baseline
import ChordV.Api.Locks
import ChordV.Api.TeamUsage

/-!
# The arithmetic of a batch

What `applyDirectBatch` adds up, and what it leaves alone.

* `billedBytes` is the sum of the accepted deltas of the bindings of a subscription.
* `Charges` is what the loop over the used subscriptions does.
* `disableDirectBindings_lookup` says which bindings the disables at the end of a batch reach.
* `batch_adds_up` puts the passes together.
-/

namespace ChordV.Api

open Lib Fallible
open TeamUsage (deltaBytesOf deltaBytes_foldl_addUsage nodup_addUsage)

section BatchArithmetic

variable {s s' : Database} {key : BatchKey} {samples : List UsageSample} {sampledAt : Nat}

/-! ## What a batch bills -/

/-- The entry of a sample with the bytes it bills.  A sample that is left out has none. -/
def billedSample (s : Database) (key : BatchKey) (sample : UsageSample) : Option (Entry × Nat) :=
  (prepareSample s key sample).toOption.join.bind fun e =>
    (entryDelta s e).toOption.map fun delta => (e, delta)

/-- The entries of some samples with the bytes they bill. -/
def billedSamples (s : Database) (key : BatchKey) (samples : List UsageSample) :
    List (Entry × Nat) := samples.filterMap (billedSample s key)

/-- The sum of the accepted deltas of the bindings of a subscription. -/
def billedBytes (s : Database) (key : BatchKey) (samples : List UsageSample)
    (subscriptionId : String) : Nat :=
  (((billedSamples s key samples).filter
    (·.1.binding.subscriptionId = subscriptionId)).map Prod.snd).sum

theorem prepareSamples_entries {entries : List Entry} {skipped : List String}
    (h : prepareSamples s key samples = .ok (entries, skipped)) :
    entries = samples.filterMap fun sample => (prepareSample s key sample).toOption.join := by
  obtain ⟨prepared, hprepared, h⟩ := bind_eq_ok.1 h
  cases h
  have hpairs := mapM_eq_ok hprepared
  clear hprepared h
  induction hpairs with
  | nil => rfl
  | cons hp _ ih =>
    obtain ⟨entry, hentry, hp⟩ := bind_eq_ok.1 hp
    cases hp
    rw [List.filterMap_cons, List.filterMap_cons, hentry, ih]
    rfl

theorem billEntries_billed {entries : List Entry} {billed : List (Entry × Nat)}
    (h : billEntries s entries = .ok billed) :
    billed = entries.filterMap fun e => (entryDelta s e).toOption.map fun delta => (e, delta) := by
  have hpairs := mapM_eq_ok h
  clear h
  induction hpairs with
  | nil => rfl
  | cons hp _ ih =>
    obtain ⟨delta, hdelta, hp⟩ := bind_eq_ok.1 hp
    cases hp
    rw [List.filterMap_cons, hdelta, ← ih]
    rfl

theorem billed_eq {entries : List Entry} {skipped : List String} {billed : List (Entry × Nat)}
    (hprepare : prepareSamples s key samples = .ok (entries, skipped))
    (hbill : billEntries s entries = .ok billed) : billed = billedSamples s key samples := by
  rw [billEntries_billed hbill, prepareSamples_entries hprepare, List.filterMap_filterMap]
  rfl

/-! ## The usages of a batch -/

theorem deltaBytesOf_of_mem {usages : List Usage} (h : (usages.map (·.subscriptionId)).Nodup)
    {usage : Usage} (hmem : usage ∈ usages) :
    deltaBytesOf usage.subscriptionId usages = usage.deltaBytes := by
  induction usages with
  | nil => cases hmem
  | cons first usages ih =>
    obtain ⟨hfresh, hnodup⟩ := List.nodup_cons.1 h
    rw [TeamUsage.deltaBytesOf_cons]
    rcases List.mem_cons.1 hmem with rfl | hmem
    · have hnone : usages.filter (·.subscriptionId = usage.subscriptionId) = [] :=
        List.filter_eq_nil_iff.2 fun other hother heq => hfresh
          (List.mem_map.2 ⟨other, hother, by simpa using heq⟩)
      simp [deltaBytesOf, hnone]
    · have hne : first.subscriptionId ≠ usage.subscriptionId := fun heq =>
        hfresh (List.mem_map.2 ⟨usage, hmem, heq.symm⟩)
      rw [if_neg hne, ih hnodup hmem, Nat.zero_add]

theorem deltaBytesOf_of_absent {usages : List Usage} {id : String}
    (h : ∀ usage ∈ usages, usage.subscriptionId ≠ id) : deltaBytesOf id usages = 0 := by
  have hnone : usages.filter (·.subscriptionId = id) = [] :=
    List.filter_eq_nil_iff.2 fun usage hmem heq => h usage hmem (by simpa using heq)
  simp [deltaBytesOf, hnone]

/-- A batch uses every subscription once, and by a positive amount. -/
theorem foldl_addUsage_spec (billed : List (Entry × Nat)) :
    ((billed.foldl addUsage []).map (·.subscriptionId)).Nodup ∧
      ∀ usage ∈ billed.foldl addUsage [], 0 < usage.deltaBytes := by
  refine List.foldlRecOn (motive := fun usages : List Usage =>
    (usages.map (·.subscriptionId)).Nodup ∧ ∀ usage ∈ usages, 0 < usage.deltaBytes) billed addUsage
    ?_ ?_
  · exact ⟨List.nodup_nil, fun _ hmem => absurd hmem List.not_mem_nil⟩
  rintro usages ⟨hnodup, hpos⟩ p -
  refine ⟨nodup_addUsage hnodup p, fun usage hmem => ?_⟩
  unfold addUsage at hmem
  dsimp only at hmem
  split at hmem
  · exact hpos usage hmem
  next hzero =>
  split at hmem
  · obtain ⟨old, hold, rfl⟩ := List.mem_map.1 hmem
    have := hpos old hold
    split
    · exact Nat.add_pos_left this _
    · exact this
  · rcases List.mem_append.1 hmem with hmem | hmem
    · exact hpos usage hmem
    · rw [List.mem_singleton.1 hmem]
      exact Nat.pos_of_ne_zero hzero

/-! ## Charging the subscriptions -/

/-- A subscription after it used some bytes of a batch. -/
def Subscription.charged (sub : Subscription) (sampledAt delta : Nat) : Subscription :=
  let used := sub.usedBytes + delta
  { sub with
    totalTrafficBytes := sub.totalBytes, usedTrafficBytes := used
    usedTrafficGb := used / gbInBytes
    remainingTrafficGb := (sub.totalBytes - used : Nat) / gbInBytes
    state := sub.nextState sampledAt used }

namespace Subscription

variable {sub : Subscription} {delta : Nat}

theorem usedBytes_charged (h : 0 < delta) :
    (sub.charged sampledAt delta).usedBytes = sub.usedBytes + delta :=
  if_pos (Nat.add_pos_right _ h)

theorem totalBytes_charged : (sub.charged sampledAt delta).totalBytes = sub.totalBytes := by
  change (if 0 < sub.totalBytes then sub.totalBytes
    else trafficGbNumberToBytes sub.totalTrafficGb) = _
  split
  · rfl
  · next hzero =>
    have hsmall : ¬0 < sub.totalTrafficBytes := fun hpos => hzero (by rwa [totalBytes, if_pos hpos])
    rw [totalBytes, if_neg hsmall]

/-- The state moves only from active, and to expired or exhausted. -/
theorem state_charged : (sub.charged sampledAt delta).state = sub.state ∨
    sub.state = .active ∧ ((sub.charged sampledAt delta).state = .expired ∨
      (sub.charged sampledAt delta).state = .exhausted) := by
  change sub.nextState sampledAt _ = sub.state ∨ sub.state = .active ∧
    (sub.nextState sampledAt _ = .expired ∨ sub.nextState sampledAt _ = .exhausted)
  unfold nextState
  split
  · exact .inl rfl
  next hactive =>
  rw [not_not] at hactive
  split
  · exact .inr ⟨hactive, .inl rfl⟩
  split
  · exact .inr ⟨hactive, .inr rfl⟩
  · exact .inl hactive.symm

end Subscription

/-- What the loop over the used subscriptions does. -/
structure Charges (read : Database) (sampledAt : Nat) (usages : List Usage)
    (acc acc' : List String × List SubscriptionTransition × Database) : Prop where
  rest : acc'.2.2 = { acc.2.2 with subscriptions := acc'.2.2.subscriptions }
  named : ∀ usage ∈ usages, ∃ sub, read.subscriptions.lookup usage.subscriptionId = some sub ∧
    acc'.2.2.subscriptions.lookup usage.subscriptionId =
      some (sub.charged sampledAt usage.deltaBytes)
  other : ∀ id, (∀ usage ∈ usages, usage.subscriptionId ≠ id) →
    acc'.2.2.subscriptions.lookup id = acc.2.2.subscriptions.lookup id
  ended : ∀ id, id ∈ acc'.1 ↔ id ∈ acc.1 ∨ ∃ usage ∈ usages, usage.subscriptionId = id ∧
    ∃ sub, acc'.2.2.subscriptions.lookup id = some sub ∧ sub.state ≠ .active

theorem chargeNext_eq_ok {read : Database} {usage : Usage}
    {acc acc' : List String × List SubscriptionTransition × Database}
    (hread : acc.2.2.subscriptions.lookup usage.subscriptionId =
      read.subscriptions.lookup usage.subscriptionId)
    (h : chargeNext read sampledAt acc usage = .ok acc') :
    ∃ sub, read.subscriptions.lookup usage.subscriptionId = some sub ∧
      acc'.1 = (if (sub.charged sampledAt usage.deltaBytes).state = .active then acc.1
        else acc.1 ++ [usage.subscriptionId]) ∧
      acc'.2.2 = { acc.2.2 with subscriptions := acc'.2.2.subscriptions } ∧
      ∀ id, acc'.2.2.subscriptions.lookup id = if id = usage.subscriptionId then
        some (sub.charged sampledAt usage.deltaBytes) else acc.2.2.subscriptions.lookup id := by
  obtain ⟨⟨state, more, t⟩, hcharge, h⟩ := bind_eq_ok.1 h
  cases h
  obtain ⟨sub, hsub, hcharge⟩ := bind_eq_ok.1 hcharge
  obtain ⟨used, hused, hcharge⟩ := bind_eq_ok.1 hcharge
  obtain ⟨remaining, hremaining, hcharge⟩ := bind_eq_ok.1 hcharge
  cases hcharge
  have hfigure : ∀ {bytes : Nat} {figure : Rat}, trafficBytesToGbNumber bytes = .ok figure →
      figure = bytes / gbInBytes := by
    intro bytes figure hok
    unfold trafficBytesToGbNumber at hok
    split at hok
    · cases hok
    · exact (Except.ok.inj hok).symm
  rw [find_eq_ok] at hsub
  refine ⟨sub, hsub, rfl, rfl, fun id => ?_⟩
  simp only [Table.lookup_modify]
  split
  · rw [hread, hsub, Option.map_some, hfigure hused, hfigure hremaining]
    rfl
  · rfl

theorem chargeAll_charges {read : Database} {usages : List Usage}
    {acc acc' : List String × List SubscriptionTransition × Database}
    (hnodup : (usages.map (·.subscriptionId)).Nodup)
    (hread : ∀ usage ∈ usages, acc.2.2.subscriptions.lookup usage.subscriptionId =
      read.subscriptions.lookup usage.subscriptionId)
    (h : usages.foldlM (chargeNext read sampledAt) acc = .ok acc') :
    Charges read sampledAt usages acc acc' := by
  induction usages generalizing acc with
  | nil =>
    cases h
    exact ⟨rfl, fun _ hmem => absurd hmem List.not_mem_nil, fun _ _ => rfl, fun _ => by simp⟩
  | cons usage usages ih =>
    obtain ⟨hfresh, hnodup⟩ := List.nodup_cons.1 hnodup
    obtain ⟨next, hstep, h⟩ := bind_eq_ok.1 h
    obtain ⟨sub, hsub, hended, hrest, hlookup⟩ :=
      chargeNext_eq_ok (hread usage List.mem_cons_self) hstep
    have hne : ∀ other ∈ usages, other.subscriptionId ≠ usage.subscriptionId :=
      fun other hmem heq => hfresh (List.mem_map.2 ⟨other, hmem, heq⟩)
    have hcharges := ih hnodup (fun other hmem => by
      rw [hlookup, if_neg (hne other hmem)]
      exact hread other (List.mem_cons_of_mem _ hmem)) h
    have hhere : acc'.2.2.subscriptions.lookup usage.subscriptionId =
        some (sub.charged sampledAt usage.deltaBytes) := by
      rw [hcharges.other _ hne, hlookup, if_pos rfl]
    refine ⟨?_, fun other hmem => ?_, fun id hid => ?_, fun id => ?_⟩
    · rw [hcharges.rest, hrest]
    · rcases List.mem_cons.1 hmem with rfl | hmem
      · exact ⟨sub, hsub, hhere⟩
      · exact hcharges.named other hmem
    · rw [hcharges.other id fun other hmem => hid other (List.mem_cons_of_mem _ hmem), hlookup,
        if_neg (hid usage List.mem_cons_self).symm]
    · rw [hcharges.ended, hended]
      simp only [List.exists_mem_cons_iff]
      by_cases hactive : (sub.charged sampledAt usage.deltaBytes).state = .active
      · rw [if_pos hactive]
        refine or_congr_right (or_iff_right ?_).symm
        rintro ⟨rfl, sub', hsub', hstate⟩
        rw [hhere] at hsub'
        exact hstate (Option.some.inj hsub' ▸ hactive)
      · rw [if_neg hactive, List.mem_append, List.mem_singleton, or_assoc]
        refine or_congr_right (or_congr_left ⟨?_, fun hid => hid.1.symm⟩)
        rintro rfl
        exact ⟨rfl, _, hhere, hactive⟩

/-! ## Disables -/

/-- A disable takes the next revision of its node, and leaves the other nodes alone. -/
theorem disableOnNode_lookup {currentNodeId currentAgentId nodeId : String}
    {bindings : List (String × Binding)} {agentIds : List String}
    (h : disableOnNode currentNodeId currentAgentId nodeId bindings s = .ok (agentIds, s')) :
    ∃ node, s.nodes.lookup nodeId = some node ∧
      (∀ other, other ≠ nodeId → s'.nodes.lookup other = s.nodes.lookup other) ∧
      ∀ id, s'.bindings.lookup id =
        if ∃ p ∈ bindings, p.1 = id then
          (s.bindings.lookup id).map (Binding.disabledAt (node.agentConfigRevision + 1))
        else s.bindings.lookup id := by
  obtain ⟨revision, s₁, hbump, hrest⟩ := disableOnNode_eq_ok h
  obtain ⟨node, hnode, rfl, rfl⟩ := bumpRevision_eq_ok hbump
  have hsame : s'.nodes = s.nodes.insert nodeId
        { node with agentConfigRevision := node.agentConfigRevision + 1 } ∧
      s'.bindings = (bindings.foldl (disableAt (node.agentConfigRevision + 1)) s).bindings := by
    simp only [foldl_disableAt] at hrest ⊢
    rcases hrest with ⟨rfl, -⟩ | ⟨agentId, rfl, -⟩
    · exact ⟨rfl, rfl⟩
    · refine List.foldlRecOn (motive := fun t : Database => t.nodes = _ ∧ t.bindings = _) bindings
        (autoDisable nodeId agentId (node.agentConfigRevision + 1)) ⟨rfl, rfl⟩ fun t ht p _ => ?_
      unfold autoDisable
      split
      · exact ht
      · exact ht
  refine ⟨node, hnode, fun other hne => ?_, fun id => ?_⟩
  · rw [hsame.1, Table.lookup_insert_ite, if_neg hne]
  · rw [hsame.2, lookup_foldl_disableAt]

/-- The disables of metering reach a binding. -/
def Binding.reached (disabled : List String) (b : Binding) : Bool :=
  disabled.contains b.subscriptionId && b.source = .direct && b.status = .active

/-- A listed binding is as it was read, or disabled already. -/
def Listed (s : Database) (p : String × Binding) : Prop :=
  s.bindings.lookup p.1 = some p.2 ∨
    ∃ revision, s.bindings.lookup p.1 = some (p.2.disabledAt revision)

/-- A listed binding is disabled at the next revision that its node had in `s`. -/
def DisabledAfter (s t : Database) (p : String × Binding) : Prop :=
  ∃ node, s.nodes.lookup p.2.nodeId = some node ∧
    t.bindings.lookup p.1 = some (p.2.disabledAt (node.agentConfigRevision + 1))

theorem disableNext_lookup {currentNodeId currentAgentId nodeId : String}
    {bindings : List (String × Binding)} {acc acc' : List String × Database}
    (hsole : ∀ p ∈ bindings, ∀ q ∈ bindings, p.1 = q.1 → p.2 = q.2)
    (hlisted : ∀ p ∈ bindings, Listed acc.2 p)
    (h : disableNext currentNodeId currentAgentId bindings acc nodeId = .ok acc') :
    (∀ p ∈ bindings, p.2.nodeId = nodeId → DisabledAfter acc.2 acc'.2 p) ∧
      (∀ p ∈ bindings, p.2.nodeId ≠ nodeId →
        acc'.2.bindings.lookup p.1 = acc.2.bindings.lookup p.1) ∧
      (∀ id, (∀ p ∈ bindings, p.1 ≠ id) →
        acc'.2.bindings.lookup id = acc.2.bindings.lookup id) ∧
      ∀ other, other ≠ nodeId → acc'.2.nodes.lookup other = acc.2.nodes.lookup other := by
  obtain ⟨⟨more, t⟩, hnode, h⟩ := bind_eq_ok.1 h
  cases h
  obtain ⟨node, hfound, hnodes, hlookup⟩ := disableOnNode_lookup hnode
  have hkept : ∀ id, (∀ p ∈ bindings, p.2.nodeId = nodeId → p.1 ≠ id) →
      t.bindings.lookup id = acc.2.bindings.lookup id := by
    intro id hid
    rw [hlookup, if_neg]
    rintro ⟨p, hp, heq⟩
    obtain ⟨hp, hnodeId⟩ := List.mem_filter.1 hp
    exact hid p hp (by simpa using hnodeId) heq
  refine ⟨fun p hp hnodeId => ⟨node, hnodeId ▸ hfound, ?_⟩, fun p hp hne => ?_,
    fun id hid => ?_, hnodes⟩
  · rw [hlookup, if_pos ⟨p, List.mem_filter.2 ⟨hp, by simpa using hnodeId⟩, rfl⟩]
    rcases hlisted p hp with hrow | ⟨_, hrow⟩ <;> rw [hrow] <;> rfl
  · refine hkept p.1 fun q hq hnodeId heq => hne ?_
    rw [hsole p hp q hq heq.symm, hnodeId]
  · exact hkept id fun p hp _ => hid p hp

/-- The loop over the nodes disables every listed binding whose node is still to come. -/
theorem disableNext_loop {currentNodeId currentAgentId : String}
    {bindings : List (String × Binding)} {nodeIds : List String}
    {acc acc' : List String × Database}
    (hsole : ∀ p ∈ bindings, ∀ q ∈ bindings, p.1 = q.1 → p.2 = q.2)
    (hlisted : ∀ p ∈ bindings, Listed acc.2 p) (hnodup : nodeIds.Nodup)
    (hnodes : ∀ nodeId ∈ nodeIds, acc.2.nodes.lookup nodeId = s.nodes.lookup nodeId)
    (htodo : ∀ p ∈ bindings, p.2.nodeId ∈ nodeIds ∨ DisabledAfter s acc.2 p)
    (h : nodeIds.foldlM (disableNext currentNodeId currentAgentId bindings) acc = .ok acc') :
    (∀ p ∈ bindings, DisabledAfter s acc'.2 p) ∧
      ∀ id, (∀ p ∈ bindings, p.1 ≠ id) → acc'.2.bindings.lookup id = acc.2.bindings.lookup id := by
  induction nodeIds generalizing acc with
  | nil =>
    cases h
    exact ⟨fun p hp => (htodo p hp).resolve_left List.not_mem_nil, fun _ _ => rfl⟩
  | cons nodeId nodeIds ih =>
    obtain ⟨next, hstep, h⟩ := bind_eq_ok.1 h
    obtain ⟨hnew, hnodup⟩ := List.nodup_cons.1 hnodup
    obtain ⟨hhere, hthere, hothers, hleft⟩ := disableNext_lookup hsole hlisted hstep
    have hdone : ∀ p ∈ bindings, p.2.nodeId = nodeId → DisabledAfter s next.2 p := by
      intro p hp hnodeId
      unfold DisabledAfter
      rw [hnodeId, ← hnodes nodeId List.mem_cons_self, ← hnodeId]
      exact hhere p hp hnodeId
    have hlisted' : ∀ p ∈ bindings, Listed next.2 p := by
      intro p hp
      by_cases hnodeId : p.2.nodeId = nodeId
      · obtain ⟨node, -, hrow⟩ := hhere p hp hnodeId
        exact .inr ⟨_, hrow⟩
      · rw [Listed, hthere p hp hnodeId]
        exact hlisted p hp
    have hnodes' : ∀ other ∈ nodeIds, next.2.nodes.lookup other = s.nodes.lookup other := by
      intro other hmem
      rw [hleft other fun heq => hnew (heq ▸ hmem)]
      exact hnodes other (List.mem_cons_of_mem _ hmem)
    have htodo' : ∀ p ∈ bindings, p.2.nodeId ∈ nodeIds ∨ DisabledAfter s next.2 p := by
      intro p hp
      by_cases hnodeId : p.2.nodeId = nodeId
      · exact .inr (hdone p hp hnodeId)
      · rw [DisabledAfter, hthere p hp hnodeId]
        exact (htodo p hp).imp_left fun hmem => (List.mem_cons.1 hmem).resolve_left hnodeId
    obtain ⟨hall, hrest⟩ := ih hlisted' hnodup hnodes' htodo' h
    exact ⟨hall, fun id hid => (hrest id hid).trans (hothers id hid)⟩

/-- The bindings that are reached are disabled, and the others stay. -/
theorem disableDirectBindings_lookup {currentNodeId currentAgentId : String}
    {disabled agentIds : List String}
    (h : disableDirectBindingsForSubscriptions currentNodeId currentAgentId disabled s =
      .ok (agentIds, s')) (id : String) :
    (∀ b, s.bindings.lookup id = some b → b.reached disabled = true →
      DisabledAfter s s' (id, b)) ∧
    ((∀ b, s.bindings.lookup id = some b → b.reached disabled = false) →
      s'.bindings.lookup id = s.bindings.lookup id) := by
  obtain ⟨bindings, hbindings⟩ : ∃ bindings, bindings = s.bindings.pairs.filter fun p =>
    p.2.reached disabled := ⟨_, rfl⟩
  have hin : ∀ {p : String × Binding}, p ∈ bindings ↔
      s.bindings.lookup p.1 = some p.2 ∧ p.2.reached disabled = true := by
    intro p
    rw [hbindings, List.mem_filter, Table.mem_pairs]
  have hrun : ((bindings.map (·.2.nodeId)).dedup).foldlM
      (disableNext currentNodeId currentAgentId bindings) ([], s) = .ok (agentIds, s') := by
    rw [hbindings]
    exact h
  have hsole : ∀ p ∈ bindings, ∀ q ∈ bindings, p.1 = q.1 → p.2 = q.2 := by
    intro p hp q hq heq
    have hsame : some p.2 = some q.2 := by rw [← (hin.1 hp).1, ← (hin.1 hq).1, heq]
    exact Option.some.inj hsame
  obtain ⟨hall, hothers⟩ := disableNext_loop hsole (fun p hp => .inl (hin.1 hp).1)
    (List.nodup_dedup _) (fun _ _ => rfl)
    (fun p hp => .inl (List.mem_dedup.2 (List.mem_map.2 ⟨p, hp, rfl⟩))) hrun
  refine ⟨fun b hrow hreached => hall (id, b) (hin.2 ⟨hrow, hreached⟩), fun hnone => ?_⟩
  refine hothers id fun p hp heq => ?_
  obtain ⟨hrow, hreached⟩ := hin.1 hp
  rw [hnone p.2 (heq ▸ hrow)] at hreached
  cases hreached

/-! ## The batch -/

/-- The bytes that some rows of the ledger book for a subscription. -/
def ledgerBytes (rows : List LedgerRow) (subscriptionId : String) : Nat :=
  ((rows.filter (·.subscriptionId = subscriptionId)).map (·.usedTrafficBytes)).sum

/-- What an accepted batch leaves behind. -/
structure AddsUp (key : BatchKey) (sampledAt : Nat) (samples : List UsageSample)
    (s s' : Database) : Prop where
  /-- A subscription that is not billed keeps its row. -/
  unbilled : ∀ id, billedBytes s key samples id = 0 →
    s'.subscriptions.lookup id = s.subscriptions.lookup id
  /-- A subscription that is billed is charged with the sum. -/
  billed : ∀ id, 0 < billedBytes s key samples id → ∃ sub, s.subscriptions.lookup id = some sub ∧
    s'.subscriptions.lookup id = some (sub.charged sampledAt (billedBytes s key samples id))
  ledger : ∃ rows, s'.ledger = s.ledger ++ rows ∧ ∀ id,
    (∀ p ∈ billedSamples s key samples, p.1.binding.subscriptionId = id →
      p.1.binding.teamId ≠ none ∧ p.1.binding.userId ≠ none) →
        ledgerBytes rows id = billedBytes s key samples id
  /-- A binding that is not named is disabled with its subscription, at a new revision of its node,
  or stays. -/
  disabled : ∀ id, (∀ sample ∈ samples, sample.bindingId ≠ id) → ∀ b,
    s.bindings.lookup id = some b → b.source = .direct → b.status = .active →
    0 < billedBytes s key samples b.subscriptionId →
    (∃ sub, s'.subscriptions.lookup b.subscriptionId = some sub ∧ sub.state ≠ .active) →
      DisabledAfter s s' (id, b)
  unnamed : ∀ id, (∀ sample ∈ samples, sample.bindingId ≠ id) →
    (∀ b, s.bindings.lookup id = some b → b.source = .direct → b.status = .active →
      0 < billedBytes s key samples b.subscriptionId → ∀ sub,
        s'.subscriptions.lookup b.subscriptionId = some sub → sub.state = .active) →
      s'.bindings.lookup id = s.bindings.lookup id

theorem ledgerBytes_billed {billed : List (Entry × Nat)} {id : String}
    (hmembers : ∀ p ∈ billed, p.1.binding.subscriptionId = id →
      p.1.binding.teamId ≠ none ∧ p.1.binding.userId ≠ none) :
    ledgerBytes (billed.filterMap (ledgerRow sampledAt)) id =
      ((billed.filter (·.1.binding.subscriptionId = id)).map Prod.snd).sum := by
  induction billed with
  | nil => rfl
  | cons p billed ih =>
    have hrest := ih fun q hq => hmembers q (List.mem_cons_of_mem _ hq)
    by_cases hid : p.1.binding.subscriptionId = id
    · obtain ⟨hteam, huser⟩ := hmembers p List.mem_cons_self hid
      obtain ⟨teamId, hteam⟩ := Option.ne_none_iff_exists'.1 hteam
      obtain ⟨userId, huser⟩ := Option.ne_none_iff_exists'.1 huser
      by_cases hzero : p.2 = 0
      · simpa [ledgerRow, hteam, huser, hzero, hid] using hrest
      · simp only [ledgerBytes] at hrest ⊢
        simp [ledgerRow, hteam, huser, hzero, hid, hrest]
    · rw [List.filterMap_cons, List.filter_cons_of_neg (by simpa using hid), ← hrest]
      split
      · rfl
      · next row hrow =>
        have hsub : row.subscriptionId = p.1.binding.subscriptionId := by
          unfold ledgerRow at hrow
          split at hrow
          · split at hrow
            · cases hrow
            · cases hrow
              rfl
          · cases hrow
        simp [ledgerBytes, hsub, hid]

theorem disableOnNode_ledger {currentNodeId currentAgentId nodeId : String}
    {bindings : List (String × Binding)} {agentIds : List String}
    (h : disableOnNode currentNodeId currentAgentId nodeId bindings s = .ok (agentIds, s')) :
    s'.ledger = s.ledger := by
  obtain ⟨revision, s₁, hbump, hrest⟩ := disableOnNode_eq_ok h
  have hbumped : s₁.ledger = s.ledger := by
    obtain ⟨node, -, -, rfl⟩ := bumpRevision_eq_ok hbump
    rfl
  have hdisabled : (bindings.foldl (disableAt revision) s₁).ledger = s.ledger := by
    rw [foldl_disableAt]
    exact hbumped
  rcases hrest with ⟨rfl, -⟩ | ⟨agentId, rfl, -⟩
  · exact hdisabled
  · refine List.foldlRecOn (motive := fun t : Database => t.ledger = s.ledger) bindings
      (autoDisable nodeId agentId revision) hdisabled fun t ht p _ => ?_
    unfold autoDisable
    split
    · exact ht
    · exact ht

theorem writeEntries_unnamed (key : BatchKey) {billed : List (Entry × Nat)} (skipped : List String)
    {id : String} (h : ∀ p ∈ billed, p.1.sample.bindingId ≠ id) :
    (writeEntries key billed skipped s).bindings.lookup id = s.bindings.lookup id := by
  rw [writeEntries_bindings]
  refine List.foldlRecOn (motive := fun t : Table String Binding =>
    t.lookup id = s.bindings.lookup id) _ _ rfl fun t ht p hp => ?_
  rw [Table.lookup_modify_ne _ _ (h p (List.mem_filter.1 hp).1).symm, ht]

/-- The passes of a batch, up to the disables. -/
theorem applyDirectBatch_passes {agentId : String} {applied : Application}
    (h : applyDirectBatch agentId key sampledAt samples s = .ok (applied, s')) :
    s' = s ∧ samples = [] ∨ ∃ skipped disabled transitions charged agentIds,
      let billed := billedSamples s key samples
      (∀ p ∈ billed, p.1.sample ∈ samples) ∧
      Charges s sampledAt (billed.foldl addUsage []) ([], [], writeEntries key billed skipped s)
        (disabled, transitions, charged) ∧
      disableDirectBindingsForSubscriptions key.nodeId agentId disabled { charged with
        ledger := charged.ledger ++ billed.filterMap (ledgerRow sampledAt) } =
        .ok (agentIds, s') := by
  unfold applyDirectBatch at h
  split at h
  · next hempty =>
    cases h
    exact .inl ⟨rfl, List.isEmpty_iff.1 hempty⟩
  obtain ⟨_, -, h⟩ := bind_eq_ok.1 h
  obtain ⟨⟨entries, skipped⟩, hprepare, h⟩ := bind_eq_ok.1 h
  obtain ⟨billed, hbill, h⟩ := bind_eq_ok.1 h
  obtain ⟨⟨disabled, transitions, charged⟩, hcharge, h⟩ := bind_eq_ok.1 h
  have hsamples : ∀ p ∈ billed, p.1.sample ∈ samples := by
    intro p hp
    obtain ⟨hsublist, -, -⟩ := prepareSamples_eq_ok hprepare
    obtain ⟨rfl, -⟩ := billEntries_eq_ok hbill
    exact hsublist.subset (List.mem_map.2 ⟨p.1, List.mem_map_of_mem hp, rfl⟩)
  obtain rfl := billed_eq hprepare hbill
  have hcharges := chargeAll_charges (foldl_addUsage_spec _).1
    (fun usage _ => by rw [writeEntries_subscriptions]) hcharge
  refine .inr ⟨skipped, disabled, transitions, charged, ?_⟩
  dsimp only at h
  split at h
  · next hnone =>
    cases h
    rw [List.isEmpty_iff] at hnone
    subst hnone
    exact ⟨[], hsamples, hcharges, disableDirectBindingsForSubscriptions_nil⟩
  · obtain ⟨⟨agentIds, s₁⟩, hdisable, h⟩ := bind_eq_ok.1 h
    cases h
    exact ⟨agentIds, hsamples, hcharges, hdisable⟩

/-- A subscription is used if it is billed. -/
theorem used_iff {id : String} : 0 < billedBytes s key samples id ↔
    ∃ usage ∈ (billedSamples s key samples).foldl addUsage [], usage.subscriptionId = id ∧
      usage.deltaBytes = billedBytes s key samples id := by
  obtain ⟨hnodup, hpos⟩ := foldl_addUsage_spec (billedSamples s key samples)
  unfold billedBytes
  rw [← deltaBytes_foldl_addUsage]
  constructor
  · intro hbilled
    by_contra hnone
    rw [deltaBytesOf_of_absent] at hbilled
    · exact absurd hbilled (lt_irrefl 0)
    · rintro usage hmem rfl
      exact hnone ⟨usage, hmem, rfl, (deltaBytesOf_of_mem hnodup hmem).symm⟩
  · rintro ⟨usage, hmem, rfl, -⟩
    rw [deltaBytesOf_of_mem hnodup hmem]
    exact hpos usage hmem

/-- A batch that is accepted adds up. -/
theorem applyDirectBatch_addsUp {agentId : String} {applied : Application}
    (h : applyDirectBatch agentId key sampledAt samples s = .ok (applied, s')) :
    AddsUp key sampledAt samples s s' := by
  rcases applyDirectBatch_passes h with ⟨rfl, rfl⟩ |
    ⟨skipped, disabled, transitions, charged, agentIds, hsamples, hcharges, hdisable⟩
  · exact {
      unbilled := fun _ _ => rfl
      billed := fun _ hbilled => absurd hbilled (lt_irrefl 0)
      ledger := ⟨[], (List.append_nil _).symm, fun _ _ => rfl⟩
      disabled := fun _ _ _ _ _ _ hbilled => absurd hbilled (lt_irrefl 0)
      unnamed := fun _ _ _ => rfl }
  have hsubscriptions : s'.subscriptions = charged.subscriptions := by
    refine disableDirectBindings_induct (I := fun t => t.subscriptions = charged.subscriptions)
      (fun _ _ _ _ _ _ ht hnode => (disableOnNode_subscriptions hnode).trans ht) ?_ hdisable
    rfl
  have hrest := hcharges.rest
  dsimp only at hrest
  have hledger : s'.ledger = s.ledger ++
      (billedSamples s key samples).filterMap (ledgerRow sampledAt) := by
    have hwritten : charged.ledger = s.ledger := by
      rw [hrest]
      exact List.foldlRecOn (motive := fun t : Database => t.ledger = s.ledger) _ _ rfl
        fun _ ht _ _ => ht
    rw [← hwritten]
    refine disableDirectBindings_induct (I := fun t => t.ledger = charged.ledger ++
      (billedSamples s key samples).filterMap (ledgerRow sampledAt))
      (fun _ _ _ _ _ _ ht hnode => (disableOnNode_ledger hnode).trans ht) ?_ hdisable
    rfl
  have hended : ∀ id, id ∈ disabled ↔ 0 < billedBytes s key samples id ∧
      ∃ sub, s'.subscriptions.lookup id = some sub ∧ sub.state ≠ .active := by
    intro id
    rw [hsubscriptions, hcharges.ended id, or_iff_right List.not_mem_nil]
    constructor
    · rintro ⟨usage, hmem, rfl, hstate⟩
      refine ⟨used_iff.2 ⟨usage, hmem, rfl, ?_⟩, hstate⟩
      unfold billedBytes
      rw [← deltaBytes_foldl_addUsage, deltaBytesOf_of_mem (foldl_addUsage_spec _).1 hmem]
    · rintro ⟨hbilled, hstate⟩
      obtain ⟨usage, hmem, rfl, -⟩ := used_iff.1 hbilled
      exact ⟨usage, hmem, rfl, hstate⟩
  have hbindings : ∀ id, (∀ sample ∈ samples, sample.bindingId ≠ id) →
      charged.bindings.lookup id = s.bindings.lookup id := by
    intro id hid
    rw [hrest]
    exact writeEntries_unnamed key skipped fun p hp => hid p.1.sample (hsamples p hp)
  refine ⟨fun id hnone => ?_, fun id hbilled => ?_, ⟨_, hledger, fun id hmembers =>
    ledgerBytes_billed hmembers⟩, fun id hid b hb hsource hstatus hbilled hstate => ?_,
    fun id hid hactive => ?_⟩
  · rw [hsubscriptions, hcharges.other id, writeEntries_subscriptions]
    rintro usage hmem rfl
    have hpos := (foldl_addUsage_spec (billedSamples s key samples)).2 usage hmem
    have hused : 0 < billedBytes s key samples usage.subscriptionId := by
      unfold billedBytes
      rwa [← deltaBytes_foldl_addUsage, deltaBytesOf_of_mem (foldl_addUsage_spec _).1 hmem]
    omega
  · obtain ⟨usage, hmem, rfl, hdelta⟩ := used_iff.1 hbilled
    obtain ⟨sub, hsub, hcharged⟩ := hcharges.named usage hmem
    exact ⟨sub, hsub, by rw [hsubscriptions, hcharged, hdelta]⟩
  · have hnodes : charged.nodes = s.nodes := by
      rw [hrest]
      exact List.foldlRecOn (motive := fun t : Database => t.nodes = s.nodes) _ _ rfl
        fun _ ht _ _ => ht
    unfold DisabledAfter
    rw [← hnodes]
    refine (disableDirectBindings_lookup hdisable id).1 b ((hbindings id hid).trans hb) ?_
    have hin := (hended b.subscriptionId).2 ⟨hbilled, hstate⟩
    simp [Binding.reached, hin, hsource, hstatus]
  · refine ((disableDirectBindings_lookup hdisable id).2 fun b hb => ?_).trans (hbindings id hid)
    rw [Bool.eq_false_iff]
    intro hreached
    simp only [Binding.reached, Bool.and_eq_true, List.contains_iff_mem, decide_eq_true_eq]
      at hreached
    obtain ⟨hbilled, sub, hsub, hstate⟩ := (hended b.subscriptionId).1 hreached.1.1
    exact hstate
      (hactive b ((hbindings id hid).symm.trans hb) hreached.1.2 hreached.2 hbilled sub hsub)

end BatchArithmetic

/-- An accepted batch adds the sum of the accepted deltas to the used bytes of each subscription,
leaves what remains of the total, and moves the state from active only.  The ledger of a team gets
the same sum if its bindings have members, and a binding that the batch does not name is disabled
if its subscription was billed and is over, and stays as it is otherwise.  A batch that is rejected
changes nothing. -/
theorem batch_adds_up (agentId : String) (key : BatchKey) (sampledAt : Nat)
    (samples : List UsageSample) (s : Database) :
    (∀ applied s', applyDirectBatch agentId key sampledAt samples s = .ok (applied, s') →
      AddsUp key sampledAt samples s s' ∧
      ∀ id sub, s.subscriptions.lookup id = some sub → ∃ sub',
        s'.subscriptions.lookup id = some sub' ∧
        sub'.usedBytes = sub.usedBytes + billedBytes s key samples id ∧
        sub'.totalBytes = sub.totalBytes ∧
        (0 < billedBytes s key samples id →
          sub'.remainingTrafficGb = ((sub'.totalBytes - sub'.usedBytes : Nat) : Rat) / gbInBytes) ∧
        (sub'.state = sub.state ∨
          sub.state = .active ∧ (sub'.state = .expired ∨ sub'.state = .exhausted))) ∧
    ∀ e fates, applyDirectBatch agentId key sampledAt samples s = .error e →
      finalWorld (transaction (applyDirectBatch agentId key sampledAt samples)) s fates = s := by
  refine ⟨fun applied s' h => ?_, fun e fates h => ?_⟩
  · have hadds := applyDirectBatch_addsUp h
    refine ⟨hadds, fun id sub hsub => ?_⟩
    rcases Nat.eq_zero_or_pos (billedBytes s key samples id) with hzero | hpos
    · refine ⟨sub, (hadds.unbilled id hzero).trans hsub, by rw [hzero, Nat.add_zero], rfl, ?_,
        .inl rfl⟩
      intro hpos
      omega
    · obtain ⟨found, hfound, hcharged⟩ := hadds.billed id hpos
      obtain rfl := Option.some.inj (hsub.symm.trans hfound)
      have hused : (sub.charged sampledAt (billedBytes s key samples id)).usedBytes =
          sub.usedBytes + billedBytes s key samples id := Subscription.usedBytes_charged hpos
      refine ⟨_, hcharged, hused, Subscription.totalBytes_charged, fun _ => ?_,
        Subscription.state_charged⟩
      rw [hused, Subscription.totalBytes_charged]
      rfl
  · refine Triple.finalWorld (P := fun w => w = s) (R := fun w => w = s) ?_ rfl fates
    refine Triple.atomic (fun w a w' hw hrun => ?_) fun _ hw => hw
    rw [hw, h] at hrun
    cases hrun

namespace Metered

/-- Two members of a team on one node, with a quota of 100 bytes. -/
def database (userId : Option String) : Database :=
  let binding (userId : Option String) (email : String) : Binding :=
    { subscriptionId := "s", userId, teamId := some "t", nodeId := "n", panelClientEmail := email
      panelClientId := email }
  let snapshotKey (userId : Option String) : SnapshotKey :=
    { nodeId := "n", subscriptionId := "s", userId }
  { nodes := (∅ : Table String Node).insert "n" {}
    bindings := ((∅ : Table String Binding).insert "a" (binding userId "a@x")).insert "b"
      (binding (some "v") "b@x")
    snapshots := ((∅ : Table SnapshotKey TrafficSnapshot).insert (snapshotKey userId) {}).insert
      (snapshotKey (some "v")) {}
    subscriptions := (∅ : Table String Subscription).insert "s"
      { teamId := some "t", expireAt := 1000, totalTrafficBytes := 100, usedTrafficBytes := 10
        remainingTrafficGb := 7 } }

/-- The key of the batch. -/
def key : BatchKey := { nodeId := "n", bootId := "boot", sequence := 1 }

/-- A sample with these counters. -/
def sample (bindingId : String) (uplinkBytes : Nat) : UsageSample :=
  { bindingId, counterGeneration := 0, uplinkBytes, downlinkBytes := 5
    uplinkDeltaBytes := 0, downlinkDeltaBytes := 0 }

/-- What a batch leaves. -/
def after (userId : Option String) (samples : List UsageSample) : Option Database :=
  (applyDirectBatch "agent" key 7 samples (database userId)).toOption.map Prod.snd

end Metered

open Metered in
theorem batch_adds_up_team : ∃ s', after (some "u") [sample "a" 20, sample "b" 30] = some s' ∧
    (s'.subscriptions.lookup "s").map (·.usedBytes) = some 70 := by
  have hsome : (after (some "u") [sample "a" 20, sample "b" 30]).isSome = true := by decide +kernel
  obtain ⟨s', hafter⟩ := Option.isSome_iff_exists.1 hsome
  unfold after at hafter
  obtain ⟨⟨applied, t⟩, hok, rfl⟩ := Option.map_eq_some_iff.1 hafter
  have hrun : applyDirectBatch "agent" key 7 [sample "a" 20, sample "b" 30]
      (database (some "u")) = .ok (applied, t) := by
    revert hok
    cases applyDirectBatch "agent" key 7 [sample "a" 20, sample "b" 30] (database (some "u")) with
    | error e => exact fun h => by cases h
    | ok r => exact fun h => congrArg Except.ok (Option.some.inj h)
  obtain ⟨sub', hlookup, hused, -⟩ := ((batch_adds_up "agent" key 7
    [sample "a" 20, sample "b" 30] (database (some "u"))).1 applied t hrun).2 "s" _ rfl
  have hbilled : billedBytes (database (some "u")) key [sample "a" 20, sample "b" 30] "s" = 60 := by
    decide +kernel
  refine ⟨t, hafter, ?_⟩
  rw [hlookup, Option.map_some, hused, hbilled]
  rfl

open Metered in
/-- A batch that ends the subscription disables a binding it does not name, a binding without a
member is billed without a ledger row, and a subscription that is not billed keeps the figure of
what remains. -/
theorem batch_reaches_further :
    (after (some "u") [sample "a" 200]).map (fun s' =>
      (s'.bindings.lookup "b").map (·.status)) = some (some .disabled) ∧
    (after none [sample "a" 20]).map (fun s' =>
      ((s'.subscriptions.lookup "s").map (·.usedTrafficBytes), s'.ledger)) = some (some 35, []) ∧
    (after (some "u") []).map (fun s' =>
      (s'.subscriptions.lookup "s").map (·.remainingTrafficGb)) = some (some 7) := by
  decide +kernel

end ChordV.Api
