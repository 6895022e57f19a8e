import ChordV.Api.Runs

/-!
# What the acknowledgements rest on

Metering and provisioning write to many tables.  An acknowledgement depends on three of
them only: the credentials, the stored batches, and the history of what was accounted.

* `Frame s s'` says that these three and the control modes of the nodes are the same.
* Every transaction of provisioning is a frame, and so is the application of one batch.
  The scan of an upload is the only place that accounts anything.
-/

namespace ChordV.Api

open Lib Fallible

/-- The batch that an event accounts. -/
def Event.accountedKey : Event → Option BatchKey
  | .accounted key => some key
  | _ => none

/-- The accounted batches, in the order in which they were applied. -/
def Database.accountedKeys (s : Database) : List BatchKey := s.log.filterMap Event.accountedKey

/-- A change that does not touch what the acknowledgements rest on. -/
structure Frame (s s' : Database) : Prop where
  agents : s'.agents = s.agents
  batches : s'.batches = s.batches
  accountedKeys : s'.accountedKeys = s.accountedKeys
  modes : ∀ nodeId, (s'.nodes.lookup nodeId).map (·.controlMode) =
    (s.nodes.lookup nodeId).map (·.controlMode)

namespace Frame

variable {s s' s'' : Database}

theorem refl (s : Database) : Frame s s := ⟨rfl, rfl, rfl, fun _ => rfl⟩

theorem trans (h : Frame s s') (h' : Frame s' s'') : Frame s s'' where
  agents := h'.agents.trans h.agents
  batches := h'.batches.trans h.batches
  accountedKeys := h'.accountedKeys.trans h.accountedKeys
  modes := fun nodeId => (h'.modes nodeId).trans (h.modes nodeId)

/-- The tables of provisioning and billing are free to change. -/
theorem of_eq (hagents : s'.agents = s.agents) (hbatches : s'.batches = s.batches)
    (hlog : s'.log = s.log) (hnodes : s'.nodes = s.nodes) : Frame s s' where
  agents := hagents
  batches := hbatches
  accountedKeys := by rw [Database.accountedKeys, hlog, Database.accountedKeys]
  modes := fun _ => by rw [hnodes]

theorem foldl {α : Type} {f : Database → α → Database} (hf : ∀ s x, Frame s (f s x))
    (xs : List α) (s : Database) : Frame s (xs.foldl f s) :=
  List.foldlRecOn (motive := fun t => Frame s t) xs f (refl s) fun t ht x _ => ht.trans (hf t x)

end Frame

section Frames

variable {s s' : Database}

/-! ## Metering -/

theorem bumpRevision_eq_ok {nodeId : String} {revision : Nat}
    (h : bumpRevision nodeId s = .ok (revision, s')) :
    ∃ node, s.nodes.lookup nodeId = some node ∧ revision = node.agentConfigRevision + 1 ∧
      s' = { s with
        nodes := s.nodes.insert nodeId { node with agentConfigRevision := revision } } := by
  obtain ⟨node, hnode, h⟩ := bind_eq_ok.1 h
  cases h
  exact ⟨node, find_eq_ok.1 hnode, rfl, rfl⟩

theorem bumpRevision_frame {nodeId : String} {revision : Nat}
    (h : bumpRevision nodeId s = .ok (revision, s')) : Frame s s' := by
  obtain ⟨node, hnode, -, rfl⟩ := bumpRevision_eq_ok h
  refine ⟨rfl, rfl, rfl, fun other => ?_⟩
  simp only [Table.lookup_insert_ite]
  split
  · next heq =>
    subst heq
    simp [hnode]
  · rfl

theorem autoDisable_frame (nodeId agentId : String) (revision : Nat) (s : Database)
    (p : String × Binding) : Frame s (autoDisable nodeId agentId revision s p) := by
  unfold autoDisable
  split
  · exact Frame.refl s
  · exact Frame.of_eq rfl rfl rfl rfl

theorem disableAt_frame (revision : Nat) (s : Database) (p : String × Binding) :
    Frame s (disableAt revision s p) := Frame.of_eq rfl rfl rfl rfl

theorem disableOnNode_frame {currentNodeId currentAgentId nodeId : String}
    {bindings : List (String × Binding)} {agentIds : List String}
    (h : disableOnNode currentNodeId currentAgentId nodeId bindings s = .ok (agentIds, s')) :
    Frame s s' := by
  obtain ⟨⟨revision, s₁⟩, hbump, h⟩ := bind_eq_ok.1 h
  have hdisabled : Frame s (bindings.foldl (disableAt revision) s₁) :=
    (bumpRevision_frame hbump).trans
      (Frame.foldl (disableAt_frame revision) bindings s₁)
  dsimp only at h
  split at h
  · cases h
    exact hdisabled
  · cases h
    exact hdisabled.trans (Frame.foldl (autoDisable_frame nodeId _ revision) bindings _)

theorem disableDirectBindings_frame {currentNodeId currentAgentId : String}
    {disabled agentIds : List String}
    (h : disableDirectBindingsForSubscriptions currentNodeId currentAgentId disabled s =
      .ok (agentIds, s')) : Frame s s' := by
  refine foldlM_induct (I := fun r : List String × Database => Frame s r.2) ?_ (Frame.refl s) h
  intro acc nodeId acc' _ hacc hstep
  obtain ⟨⟨more, t₁⟩, hnode, hstep⟩ := bind_eq_ok.1 hstep
  cases hstep
  exact hacc.trans (disableOnNode_frame hnode)

theorem chargeAll_frame {read : Database} {sampledAt : Nat} {usages : List Usage}
    {disabled : List String} {transitions : List SubscriptionTransition}
    (h : chargeAll read sampledAt usages s = .ok (disabled, transitions, s')) : Frame s s' := by
  refine foldlM_induct (I := fun r : List String × List SubscriptionTransition × Database =>
    Frame s r.2.2) ?_ (Frame.refl s) h
  intro acc usage acc' _ hacc hstep
  obtain ⟨⟨state, more, t₁⟩, hcharge, hstep⟩ := bind_eq_ok.1 hstep
  cases hstep
  obtain ⟨sub, -, hcharge⟩ := bind_eq_ok.1 hcharge
  obtain ⟨used, -, hcharge⟩ := bind_eq_ok.1 hcharge
  obtain ⟨remaining, -, hcharge⟩ := bind_eq_ok.1 hcharge
  cases hcharge
  exact hacc.trans (Frame.of_eq rfl rfl rfl rfl)

theorem writeEntries_frame (key : BatchKey) (billed : List (Entry × Nat)) (skipped : List String)
    (s : Database) : Frame s (writeEntries key billed skipped s) := by
  have hwritten := Frame.foldl (f := fun t (p : Entry × Nat) => writeEntry p.1 t)
    (fun _ _ => Frame.of_eq rfl rfl rfl rfl) (billed.filter fun p => !p.1.unchanged s) s
  refine ⟨hwritten.agents, hwritten.batches, ?_, hwritten.modes⟩
  have hlog := hwritten.accountedKeys
  unfold Database.accountedKeys at hlog ⊢
  simp only [writeEntries, List.filterMap_append, hlog, List.filterMap_map]
  simp [Function.comp_def, Event.accountedKey]

/-- The application of one batch accounts nothing by itself. -/
theorem applyDirectBatch_frame {agentId : String} {key : BatchKey} {sampledAt : Nat}
    {samples : List UsageSample} {applied : Application}
    (h : applyDirectBatch agentId key sampledAt samples s = .ok (applied, s')) : Frame s s' := by
  unfold applyDirectBatch at h
  split at h
  · cases h
    exact Frame.refl s
  obtain ⟨-, -, h⟩ := bind_eq_ok.1 h
  obtain ⟨⟨entries, skipped⟩, -, h⟩ := bind_eq_ok.1 h
  obtain ⟨billed, -, h⟩ := bind_eq_ok.1 h
  obtain ⟨⟨disabled, transitions, charged⟩, hcharge, h⟩ := bind_eq_ok.1 h
  have hcharged : Frame s { charged with
      ledger := charged.ledger ++ billed.filterMap (ledgerRow sampledAt) } :=
    ((writeEntries_frame key billed skipped s).trans (chargeAll_frame hcharge)).trans
      (Frame.of_eq rfl rfl rfl rfl)
  dsimp only at h
  split at h
  · cases h
    exact hcharged
  · obtain ⟨⟨agentIds, s₁⟩, hdisable, h⟩ := bind_eq_ok.1 h
    cases h
    exact hcharged.trans (disableDirectBindings_frame hdisable)

/-! ## Provisioning -/

theorem queueDirectBindingCommand_frame {type : CommandType} {payload : Binding → Agent.Payload}
    {bindingId : String} (h : queueDirectBindingCommand type payload bindingId s = .ok s') :
    Frame s s' := by
  obtain ⟨binding, -, h⟩ := bind_eq_ok.1 h
  obtain ⟨⟨revision, s₁⟩, hbump, h⟩ := bind_eq_ok.1 h
  dsimp only at h
  split at h
  · cases h
  · cases h
    exact (bumpRevision_frame hbump).trans (Frame.of_eq rfl rfl rfl rfl)

theorem queueAll_frame {type : CommandType} {bindingIds : List String}
    (h : queueAll type bindingIds s = .ok s') : Frame s s' :=
  foldlM_induct (I := fun t => Frame s t)
    (fun _ _ _ _ ht hstep => ht.trans (queueDirectBindingCommand_frame hstep)) (Frame.refl s) h

theorem ensureTrafficSnapshotBaseline_frame (key : SnapshotKey) (uplink downlink : Nat)
    (replaceExisting : Bool) (s : Database) :
    Frame s (ensureTrafficSnapshotBaseline key uplink downlink replaceExisting s) := by
  unfold ensureTrafficSnapshotBaseline
  split
  · exact Frame.of_eq rfl rfl rfl rfl
  · split
    · exact Frame.of_eq rfl rfl rfl rfl
    · exact Frame.refl s

theorem queuePanelEnsureJob_frame {bindingId flow : String}
    (h : queuePanelEnsureJob bindingId flow s = .ok s') : Frame s s' := by
  obtain ⟨binding, -, h⟩ := bind_eq_ok.1 h
  obtain ⟨sub, -, h⟩ := bind_eq_ok.1 h
  exact queueDirectBindingCommand_frame h

theorem rebaseline_frame (existing : Binding) (s : Database) : Frame s (rebaseline existing s) := by
  unfold rebaseline
  split <;> exact ensureTrafficSnapshotBaseline_frame ..

theorem insertBinding_frame (bindingId : String) (binding : Binding) (s : Database) :
    Frame s { s with bindings := s.bindings.insert bindingId binding } :=
  Frame.of_eq rfl rfl rfl rfl

theorem activateExisting_frame {input : Activation} {flow bindingId : String} {existing : Binding}
    (h : activateExisting input flow bindingId existing s = .ok s') : Frame s s' := by
  obtain ⟨-, -, h⟩ := bind_eq_ok.1 h
  exact ((insertBinding_frame bindingId _ s).trans (rebaseline_frame existing _)).trans
    (queuePanelEnsureJob_frame h)

theorem activateNew_frame {input : Activation} {flow : String}
    (h : activateNew input flow s = .ok s') : Frame s s' := by
  obtain ⟨-, -, h⟩ := bind_eq_ok.1 h
  exact ((insertBinding_frame input.newBindingId _ s).trans
    (ensureTrafficSnapshotBaseline_frame ..)).trans (queuePanelEnsureJob_frame h)

theorem persistBaseline_frame (s : Database) (p : String × Binding) :
    Frame s (persistBaseline s p) := by
  unfold persistBaseline
  split
  · exact Frame.refl s
  · exact Frame.trans (ensureTrafficSnapshotBaseline_frame ..) (Frame.of_eq rfl rfl rfl rfl)

end Frames

/-! ## Requests -/

/-- A transaction that is a frame. -/
def Framed {α : Type} (f : Database → Except ApiError (α × Database)) : Prop :=
  ∀ s a s', f s = .ok (a, s') → Frame s s'

/-- A disable, a deletion and a traffic reset queue commands and mark the bindings. -/
theorem framed_queueAndMark (type : CommandType) (status : BindingStatus) (old : List BindingStatus)
    (ids : Database → List String) :
    Framed fun s => do
      let s' ← queueAll type (ids s) s
      return ((), markBindings status old (ids s) s') := by
  intro s a s' h
  obtain ⟨s₁, hqueue, h⟩ := bind_eq_ok.1 h
  cases h
  exact (queueAll_frame hqueue).trans (Frame.of_eq rfl rfl rfl rfl)

theorem framed_ensurePanelClientBinding (input : Activation) :
    Framed (ensurePanelClientBinding input) := by
  intro s a s' h
  obtain ⟨node, -, h⟩ := bind_eq_ok.1 h
  obtain ⟨-, -, h⟩ := bind_eq_ok.1 h
  obtain ⟨s₁, hactivate, h⟩ := bind_eq_ok.1 h
  cases h
  unfold ensurePanelClientBindingLocally at hactivate
  split at hactivate
  · exact activateExisting_frame hactivate
  · exact activateNew_frame hactivate

theorem framed_completeCommand (agentId : String) (key : JobKey) (result : CommandResult) :
    Framed (completeCommand agentId key result) := by
  intro s a s' h
  obtain ⟨agent, -, h⟩ := bind_eq_ok.1 h
  obtain ⟨job, -, h⟩ := bind_eq_ok.1 h
  obtain ⟨-, -, h⟩ := bind_eq_ok.1 h
  cases result with
  | failed =>
    cases h
    exact Frame.of_eq rfl rfl rfl rfl
  | completed watermarks =>
    cases h
    have hjob : Frame s { s with jobs := s.jobs.insert key { job with status := .completed } } :=
      Frame.of_eq rfl rfl rfl rfl
    refine hjob.trans ?_
    unfold recordWatermarks
    split
    · exact Frame.refl _
    · split
      · exact Frame.of_eq rfl rfl rfl rfl
      · exact Frame.refl _

theorem framed_cancelExhausted (key : JobKey) : Framed (cancelExhausted key) := by
  intro s a s' h
  unfold cancelExhausted at h
  split at h
  · cases h
    exact Frame.refl s
  · split at h <;> cases h <;> exact Frame.of_eq rfl rfl rfl rfl

theorem framed_claimDue (key : JobKey) : Framed (claimDue key) := by
  intro s a s' h
  unfold claimDue at h
  split at h
  · cases h
    exact Frame.refl s
  · split at h <;> cases h <;> exact Frame.of_eq rfl rfl rfl rfl

theorem framed_resetTraffic (subscriptionId : String) (userId : Option String) :
    Framed (resetTraffic subscriptionId userId) := by
  intro s a s' h
  obtain ⟨-, -, h⟩ := bind_eq_ok.1 h
  obtain ⟨sub, -, h⟩ := bind_eq_ok.1 h
  cases h
  exact (Frame.foldl persistBaseline_frame _ s).trans (Frame.of_eq rfl rfl rfl rfl)

/-- The request is one of the agents or about their credentials. -/
def Request.ofAgents : Request → Bool
  | .heartbeat .. => true
  | .upload .. => true
  | .createCredential .. => true
  | .revokeCredential .. => true
  | .register .. => true
  | _ => false

/-- The rule of the requests that are frames. -/
theorem Request.preserved_of_frame {payloadHash : UsageBatch → String} {I : Database → Prop}
    (hI : ∀ s s', Frame s s' → I s → I s') {request : Request} (h : request.ofAgents = false) :
    request.Preserved payloadHash I := by
  have hframed : ∀ {α : Type} {f : Database → Except ApiError (α × Database)},
      Framed f → Preserves I f := fun hf s a s' hs hrun => hI s s' (hf s a s' hrun) hs
  cases request with
  | heartbeat | upload | createCredential | revokeCredential | register => cases h
  | complete agentId key result => exact hframed (framed_completeCommand agentId key result)
  | disable subscriptionId filter => exact hframed (framed_queueAndMark _ _ _ _)
  | delete subscriptionId filter => exact hframed (framed_queueAndMark _ _ _ _)
  | quiesce subscriptionId userId => exact hframed (framed_queueAndMark _ _ _ _)
  | activate input => exact hframed (framed_ensurePanelClientBinding input)
  | reset subscriptionId userId => exact hframed (framed_resetTraffic subscriptionId userId)
  | cancelExhausted key => exact hframed (framed_cancelExhausted key)
  | claimDue key => exact hframed (framed_claimDue key)
  | tick milliseconds => exact fun s hs => hI s _ (Frame.of_eq rfl rfl rfl rfl) hs

end ChordV.Api
