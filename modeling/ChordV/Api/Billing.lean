import ChordV.Api.Acks

/-!
# What billing reads

Whether a batch can be accounted depends on the nodes, the bindings, the baselines and the
subscriptions.  It does not depend on the credentials, on the commands or on the clock.

* `Alike s t` says that the four tables are the same.
* `Alike.accountFrom`: a scan that succeeds in one of two alike states succeeds in the other.
-/

namespace ChordV.Api

open Lib Fallible

/-- Two states that billing cannot tell apart. -/
structure Alike (s t : Database) : Prop where
  nodes : t.nodes = s.nodes
  bindings : t.bindings = s.bindings
  snapshots : t.snapshots = s.snapshots
  subscriptions : t.subscriptions = s.subscriptions

namespace Alike

variable {s t s' : Database}

theorem refl (s : Database) : Alike s s := ⟨rfl, rfl, rfl, rfl⟩

theorem symm (h : Alike s t) : Alike t s :=
  ⟨h.nodes.symm, h.bindings.symm, h.snapshots.symm, h.subscriptions.symm⟩

theorem trans {u : Database} (h : Alike s t) (h' : Alike t u) : Alike s u :=
  ⟨h'.nodes.trans h.nodes, h'.bindings.trans h.bindings, h'.snapshots.trans h.snapshots,
    h'.subscriptions.trans h.subscriptions⟩

theorem foldl {α : Type} {f : Database → α → Database}
    (hf : ∀ s t x, Alike s t → Alike (f s x) (f t x)) (xs : List α) (h : Alike s t) :
    Alike (xs.foldl f s) (xs.foldl f t) := by
  induction xs generalizing s t with
  | nil => exact h
  | cons x xs ih => exact ih (hf s t x h)

/-! ## Disables -/

theorem bumpRevision (h : Alike s t) {nodeId : String} {revision : Nat}
    (hrun : Api.bumpRevision nodeId s = .ok (revision, s')) :
    ∃ t', Api.bumpRevision nodeId t = .ok (revision, t') ∧ Alike s' t' := by
  obtain ⟨node, hnode, rfl, rfl⟩ := bumpRevision_eq_ok hrun
  unfold Api.bumpRevision
  rw [h.nodes, find_eq_ok.2 hnode]
  exact ⟨_, rfl, ⟨rfl, h.bindings, h.snapshots, h.subscriptions⟩⟩

/-- The jobs of the disabled bindings are not read by billing. -/
theorem autoDisable (nodeId agentId : String) (revision : Nat) (s : Database)
    (p : String × Binding) : Alike s (Api.autoDisable nodeId agentId revision s p) := by
  unfold Api.autoDisable
  split
  · exact refl s
  · exact ⟨rfl, rfl, rfl, rfl⟩

theorem autoDisable_foldl (nodeId agentId : String) (revision : Nat)
    (bindings : List (String × Binding)) (s : Database) :
    Alike s (bindings.foldl (Api.autoDisable nodeId agentId revision) s) :=
  List.foldlRecOn (motive := Alike s) _ _ (refl s)
    fun _ hs p _ => hs.trans (autoDisable nodeId agentId revision _ p)

theorem disableOnNode (h : Alike s t) {currentNodeId currentAgentId nodeId : String}
    {bindings : List (String × Binding)} {agentIds : List String}
    (hrun : Api.disableOnNode currentNodeId currentAgentId nodeId bindings s =
      .ok (agentIds, s')) :
    ∃ agentIds' t', Api.disableOnNode currentNodeId currentAgentId nodeId bindings t =
      .ok (agentIds', t') ∧ Alike s' t' := by
  obtain ⟨⟨revision, s₁⟩, hbump, hrun⟩ := bind_eq_ok.1 hrun
  obtain ⟨t₁, hbump', h₁⟩ := h.bumpRevision hbump
  have hdisabled : Alike (bindings.foldl (disableAt revision) s₁)
      (bindings.foldl (disableAt revision) t₁) :=
    foldl (f := disableAt revision) (fun u v p huv => ⟨huv.nodes,
      by simp only [disableAt, huv.bindings], huv.snapshots, huv.subscriptions⟩) bindings h₁
  have hfinal : Alike (bindings.foldl (disableAt revision) s₁) s' := by
    dsimp only at hrun
    split at hrun
    · cases hrun
      exact refl _
    · cases hrun
      exact autoDisable_foldl nodeId _ revision bindings _
  unfold Api.disableOnNode
  rw [hbump', ok_bind]
  dsimp only
  split
  · exact ⟨_, _, rfl, hfinal.symm.trans hdisabled⟩
  · exact ⟨_, _, rfl, (hfinal.symm.trans hdisabled).trans (autoDisable_foldl nodeId _ revision _ _)⟩

theorem disableNext_rel (currentNodeId currentAgentId : String)
    (bindings : List (String × Binding)) (p : List String × Database) (nodeId : String)
    (q p' : List String × Database) (h : Alike p.2 q.2)
    (hrun : disableNext currentNodeId currentAgentId bindings p nodeId = .ok p') :
    ∃ q', disableNext currentNodeId currentAgentId bindings q nodeId = .ok q' ∧
      Alike p'.2 q'.2 := by
  obtain ⟨⟨more, s₁⟩, hnode, hrun⟩ := bind_eq_ok.1 hrun
  cases hrun
  obtain ⟨more', t₁, hnode', h₁⟩ := h.disableOnNode hnode
  unfold disableNext
  rw [hnode']
  exact ⟨(q.1 ++ more', t₁), rfl, h₁⟩

theorem disableDirectBindings (h : Alike s t) {currentNodeId currentAgentId : String}
    {disabled agentIds : List String}
    (hrun : disableDirectBindingsForSubscriptions currentNodeId currentAgentId disabled s =
      .ok (agentIds, s')) :
    ∃ agentIds' t', disableDirectBindingsForSubscriptions currentNodeId currentAgentId disabled t =
      .ok (agentIds', t') ∧ Alike s' t' := by
  unfold disableDirectBindingsForSubscriptions at hrun ⊢
  rw [h.bindings]
  have hrel := foldlM_rel (R := fun p q : List String × Database => Alike p.2 q.2)
    (disableNext_rel currentNodeId currentAgentId _) (b := ([], s)) (c := ([], t)) h hrun
  obtain ⟨⟨agentIds', t'⟩, hrun', h'⟩ := hrel
  exact ⟨agentIds', t', hrun', h'⟩

/-! ## Charges -/

theorem chargeNext_rel {read read' : Database} (hread : Alike read read') (sampledAt : Nat)
    (p : List String × List SubscriptionTransition × Database) (usage : Usage)
    (q p' : List String × List SubscriptionTransition × Database)
    (h : q.1 = p.1 ∧ q.2.1 = p.2.1 ∧ Alike p.2.2 q.2.2)
    (hrun : chargeNext read sampledAt p usage = .ok p') :
    ∃ q', chargeNext read' sampledAt q usage = .ok q' ∧
      q'.1 = p'.1 ∧ q'.2.1 = p'.2.1 ∧ Alike p'.2.2 q'.2.2 := by
  obtain ⟨hdisabled, htransitions, h⟩ := h
  obtain ⟨⟨state, more, s₁⟩, hcharge, hrun⟩ := bind_eq_ok.1 hrun
  cases hrun
  obtain ⟨sub, hsub, hcharge⟩ := bind_eq_ok.1 hcharge
  obtain ⟨used, hused, hcharge⟩ := bind_eq_ok.1 hcharge
  obtain ⟨remaining, hremaining, hcharge⟩ := bind_eq_ok.1 hcharge
  cases hcharge
  unfold chargeNext chargeSubscription
  rw [hread.subscriptions, hsub, hdisabled, htransitions]
  simp only [ok_bind, hused, hremaining]
  exact ⟨_, rfl, rfl, rfl, ⟨h.nodes, h.bindings, h.snapshots, by simp only [h.subscriptions]⟩⟩

theorem chargeAll {read read' : Database} (hread : Alike read read') (h : Alike s t)
    {sampledAt : Nat} {usages : List Usage} {disabled : List String}
    {transitions : List SubscriptionTransition}
    (hrun : Api.chargeAll read sampledAt usages s = .ok (disabled, transitions, s')) :
    ∃ t', Api.chargeAll read' sampledAt usages t = .ok (disabled, transitions, t') ∧
      Alike s' t' := by
  have hrel := foldlM_rel
    (R := fun p q : List String × List SubscriptionTransition × Database =>
      q.1 = p.1 ∧ q.2.1 = p.2.1 ∧ Alike p.2.2 q.2.2)
    (chargeNext_rel hread sampledAt) (b := ([], [], s)) (c := ([], [], t)) ⟨rfl, rfl, h⟩ hrun
  obtain ⟨⟨disabled', transitions', t'⟩, hrun', hsame, hsame', h'⟩ := hrel
  dsimp only at hsame hsame'
  subst hsame hsame'
  exact ⟨t', hrun', h'⟩

/-! ## Batches -/

theorem writeEntries (h : Alike s t) (key : BatchKey) (billed : List (Entry × Nat))
    (skipped : List String) :
    Alike (Api.writeEntries key billed skipped s) (Api.writeEntries key billed skipped t) := by
  have hunchanged : ∀ e : Entry, e.unchanged t = e.unchanged s := by
    intro e
    unfold Entry.unchanged
    rw [h.snapshots]
  have hwritten := foldl (f := fun u (p : Entry × Nat) => writeEntry p.1 u)
    (fun u v p huv => ⟨huv.nodes, by simp only [writeEntry, huv.bindings],
      by simp only [writeEntry, huv.snapshots], huv.subscriptions⟩)
    (billed.filter fun p => !p.1.unchanged s) h
  unfold Api.writeEntries
  simp only [hunchanged]
  exact ⟨hwritten.nodes, hwritten.bindings, hwritten.snapshots, hwritten.subscriptions⟩

theorem prepareSample (h : Alike s t) (key : BatchKey) :
    Api.prepareSample t key = Api.prepareSample s key := by
  funext sample
  unfold Api.prepareSample
  rw [h.bindings]

theorem prepareSamples (h : Alike s t) (key : BatchKey) (samples : List UsageSample) :
    Api.prepareSamples t key samples = Api.prepareSamples s key samples := by
  unfold Api.prepareSamples
  rw [h.prepareSample]

theorem entryDelta (h : Alike s t) : Api.entryDelta t = Api.entryDelta s := by
  funext e
  unfold Api.entryDelta
  rw [h.snapshots]

theorem billEntries (h : Alike s t) (entries : List Entry) :
    Api.billEntries t entries = Api.billEntries s entries := by
  unfold Api.billEntries
  rw [h.entryDelta]

theorem applyDirectBatch (h : Alike s t) {agentId : String} {key : BatchKey} {sampledAt : Nat}
    {samples : List UsageSample} {applied : Application}
    (hrun : Api.applyDirectBatch agentId key sampledAt samples s = .ok (applied, s')) :
    ∃ applied' t', Api.applyDirectBatch agentId key sampledAt samples t = .ok (applied', t') ∧
      Alike s' t' := by
  unfold Api.applyDirectBatch at hrun ⊢
  split at hrun
  · next hempty =>
    cases hrun
    rw [if_pos hempty]
    exact ⟨_, _, rfl, h⟩
  next hempty =>
  rw [if_neg hempty]
  obtain ⟨_, hnodup, hrun⟩ := bind_eq_ok.1 hrun
  obtain ⟨⟨entries, skipped⟩, hprepare, hrun⟩ := bind_eq_ok.1 hrun
  obtain ⟨billed, hbill, hrun⟩ := bind_eq_ok.1 hrun
  obtain ⟨⟨disabled, transitions, charged⟩, hcharge, hrun⟩ := bind_eq_ok.1 hrun
  obtain ⟨charged', hcharge', hcharged⟩ :=
    h.chargeAll (h.writeEntries key billed skipped) hcharge
  have hledger : Alike { charged with
      ledger := charged.ledger ++ billed.filterMap (ledgerRow sampledAt) } { charged' with
      ledger := charged'.ledger ++ billed.filterMap (ledgerRow sampledAt) } :=
    ⟨hcharged.nodes, hcharged.bindings, hcharged.snapshots, hcharged.subscriptions⟩
  rw [hnodup, h.prepareSamples, hprepare]
  simp only [ok_bind]
  rw [h.billEntries, hbill]
  simp only [ok_bind, hcharge']
  dsimp only at hrun
  split at hrun
  · next hnone =>
    cases hrun
    rw [if_pos hnone]
    exact ⟨_, _, rfl, hledger⟩
  next hsome =>
  rw [if_neg hsome]
  obtain ⟨⟨agentIds, s₁⟩, hdisable, hrun⟩ := bind_eq_ok.1 hrun
  cases hrun
  obtain ⟨agentIds', t', hdisable', h'⟩ := hledger.disableDirectBindings hdisable
  rw [hdisable']
  exact ⟨_, _, rfl, h'⟩

theorem accountBatch (h : Alike s t) {agentId : String} {key : BatchKey} {batch : StoredBatch}
    {applied : Application} (hrun : Api.accountBatch agentId key batch s = .ok (applied, s')) :
    ∃ applied' t', Api.accountBatch agentId key batch t = .ok (applied', t') ∧ Alike s' t' := by
  obtain ⟨⟨applied, s₁⟩, happly, hrun⟩ := bind_eq_ok.1 hrun
  cases hrun
  obtain ⟨applied', t', happly', h'⟩ := h.applyDirectBatch happly
  unfold Api.accountBatch
  rw [happly']
  exact ⟨_, _, rfl, ⟨h'.nodes, h'.bindings, h'.snapshots, h'.subscriptions⟩⟩

/-- A scan that succeeds in one of two alike states succeeds in the other, and reaches the
same sequence. -/
theorem accountFrom (h : Alike s t) {agentId : String} {scan scan' result : Scan}
    {rest : List (BatchKey × StoredBatch)} (hscan : scan'.ackThrough = scan.ackThrough)
    (hrun : Api.accountFrom agentId scan rest s = .ok (result, s')) :
    ∃ result' t', Api.accountFrom agentId scan' rest t = .ok (result', t') ∧
      result'.ackThrough = result.ackThrough ∧ Alike s' t' := by
  induction rest generalizing s t scan scan' with
  | nil =>
    cases hrun
    exact ⟨scan', t, rfl, hscan, h⟩
  | cons p rest ih =>
    obtain ⟨key, batch⟩ := p
    unfold Api.accountFrom at hrun ⊢
    rw [hscan]
    split at hrun
    · next hgap =>
      cases hrun
      rw [if_pos hgap]
      exact ⟨scan', t, rfl, hscan, h⟩
    next hgap =>
    rw [if_neg hgap]
    split at hrun
    · next haccounted =>
      rw [if_pos haccounted]
      refine ih h ?_ hrun
      rfl
    next haccounted =>
    rw [if_neg haccounted]
    obtain ⟨⟨applied, s₁⟩, hone, hrun⟩ := bind_eq_ok.1 hrun
    obtain ⟨applied', t₁, hone', h₁⟩ := h.accountBatch hone
    rw [hone']
    refine ih h₁ ?_ hrun
    rfl

end Alike

end ChordV.Api
