import ChordV.Api.Queue
import ChordV.Api.Access

/-!
# Revoked service

When an account is disabled or a member is removed, no binding of the user stays active, as
long as no activation comes too late for the follow-up disconnect.

* `Database.Serving` says that a user has an active binding of a subscription.  `Fades` is the
  relation of the transactions that make nobody `Serving`: all but the activations.
* `queuePanelDisableJobs_ends` says when a disable commits, and that it leaves nobody
  `Serving`.
* `Revoking` is the invariant of a run: a covered binding that is active is still ahead of a
  follow-up disconnect.  `Timely` is the condition on each step that keeps it.
-/

namespace ChordV.Api

open Lib Fallible

/-- The user has an active binding of the subscription. -/
def Database.Serving (s : Database) (subscriptionId userId : String) : Prop :=
  ∃ id b, s.bindings.lookup id = some b ∧ b.status = .active ∧
    b.subscriptionId = subscriptionId ∧ b.userId = some userId

/-- The binding is of the same subscription and user, and it did not become active. -/
structure Binding.Fades (b b' : Binding) : Prop where
  subscriptionId : b'.subscriptionId = b.subscriptionId
  userId : b'.userId = b.userId
  active : b'.status = .active → b.status = .active

theorem Binding.Fades.refl (b : Binding) : b.Fades b := ⟨rfl, rfl, fun hactive => hactive⟩

/-- No binding is created or becomes active. -/
def Fades (s s' : Database) : Prop :=
  ∀ id b', s'.bindings.lookup id = some b' → ∃ b, s.bindings.lookup id = some b ∧ b.Fades b'

section Fades

variable {s s' s'' : Database} {subscriptionId userId : String}

namespace Fades

theorem of_bindings (h : s'.bindings = s.bindings) : Fades s s' :=
  fun _ b' hb' => ⟨b', h ▸ hb', .refl b'⟩

theorem trans (h : Fades s s') (h' : Fades s' s'') : Fades s s'' := by
  intro id b'' hb''
  obtain ⟨b', hb', hfades'⟩ := h' id b'' hb''
  obtain ⟨b, hb, hfades⟩ := h id b' hb'
  exact ⟨b, hb, hfades'.subscriptionId.trans hfades.subscriptionId,
    hfades'.userId.trans hfades.userId, fun hactive => hfades.active (hfades'.active hactive)⟩

theorem serving (h : Fades s s') (hserving : s'.Serving subscriptionId userId) :
    s.Serving subscriptionId userId := by
  obtain ⟨id, b', hb', hactive, hsub, huser⟩ := hserving
  obtain ⟨b, hb, hfades⟩ := h id b' hb'
  exact ⟨id, b, hb, hfades.active hactive, hfades.subscriptionId ▸ hsub, hfades.userId ▸ huser⟩

end Fades

theorem Still.fades (h : Still s s') : Fades s s' := by
  intro id b' hb'
  obtain ⟨b, hb, hcontrol⟩ := control_eq hb' (h.bindings id)
  simp only [Binding.control, Binding.mk.injEq] at hcontrol
  obtain ⟨hsub, huser, -, -, -, -, -, -, hstatus, -⟩ := hcontrol
  exact ⟨b, hb, hsub, huser, fun hactive => hstatus ▸ hactive⟩

/-! ## Disables -/

theorem queueDirectBindingCommand_fades {type : CommandType} {payload : Binding → Agent.Payload}
    {bindingId : String} (h : queueDirectBindingCommand type payload bindingId s = .ok s') :
    Fades s s' := by
  obtain ⟨binding, node, agentId, hbinding, -, -, rfl⟩ := queueDirectBindingCommand_eq_ok h
  intro id b' hb'
  dsimp only at hb'
  rw [Table.lookup_insert_ite] at hb'
  split at hb'
  · next heq =>
    cases hb'
    exact ⟨binding, heq ▸ hbinding, rfl, rfl, fun hactive => hactive⟩
  · exact ⟨b', hb', .refl b'⟩

theorem queueAll_fades {type : CommandType} {ids : List String} (h : queueAll type ids s = .ok s') :
    Fades s s' :=
  foldlM_induct (I := fun t => Fades s t)
    (fun _ _ _ _ ht hqueue => ht.trans (queueDirectBindingCommand_fades hqueue))
    (.of_bindings rfl) h

theorem markBindings_fades {status : BindingStatus} (hstatus : status ≠ .active)
    (old : List BindingStatus) (ids : List String) : Fades s (markBindings status old ids s) := by
  intro id b' hb'
  rw [lookup_markBindings] at hb'
  split at hb'
  · obtain ⟨b, hb, rfl⟩ := Option.map_eq_some_iff.1 hb'
    refine ⟨b, hb, ?_⟩
    unfold Binding.marked
    split
    · exact ⟨rfl, rfl, fun hactive => absurd hactive hstatus⟩
    · exact .refl b
  · exact ⟨b', hb', .refl b'⟩

/-- A disable, a deletion and the boundary of a reset. -/
theorem queueAndMark_fades {type : CommandType} {status : BindingStatus} {old : List BindingStatus}
    {ids : List String} (hstatus : status ≠ .active)
    (h : (do
      let t ← queueAll type ids s
      return ((), markBindings status old ids t)) = (.ok ((), s') : Except ApiError _)) :
    Fades s s' := by
  obtain ⟨t, hqueue, h⟩ := bind_eq_ok.1 h
  cases h
  exact (queueAll_fades hqueue).trans (markBindings_fades hstatus old ids)

theorem disableOnNode_fades {currentNodeId currentAgentId nodeId : String}
    {bindings : List (String × Binding)} {agentIds : List String}
    (h : disableOnNode currentNodeId currentAgentId nodeId bindings s = .ok (agentIds, s')) :
    Fades s s' := by
  obtain ⟨revision, s₁, hbump, hrest⟩ := disableOnNode_eq_ok h
  obtain ⟨node, -, -, rfl⟩ := bumpRevision_eq_ok hbump
  have hdisabled : Fades s (bindings.foldl (disableAt revision) { s with
      nodes := s.nodes.insert nodeId { node with agentConfigRevision := revision } }) := by
    intro id b' hb'
    rw [lookup_foldl_disableAt] at hb'
    split at hb'
    · obtain ⟨b, hb, rfl⟩ := Option.map_eq_some_iff.1 hb'
      exact ⟨b, hb, rfl, rfl, fun hactive => by cases hactive⟩
    · exact ⟨b', hb', .refl b'⟩
  rcases hrest with ⟨rfl, -⟩ | ⟨agentId, rfl, -⟩
  · exact hdisabled
  · refine List.foldlRecOn (motive := fun t => Fades s t) bindings
      (autoDisable nodeId agentId revision) hdisabled fun t ht p _ => ?_
    exact ht.trans (.of_bindings (autoDisable_bindings nodeId agentId revision t p).1)

theorem applyDirectBatch_fades {agentId : String} {key : BatchKey} {sampledAt : Nat}
    {samples : List UsageSample} {applied : Application}
    (h : applyDirectBatch agentId key sampledAt samples s = .ok (applied, s')) : Fades s s' := by
  rcases applyDirectBatch_eq_ok h with rfl |
    ⟨entries, skipped, billed, disabled, subscriptions, ledger, agentIds, -, -, -, -, -, hdisable⟩
  · exact .of_bindings rfl
  have hwritten : Fades s { writeEntries key billed skipped s with subscriptions, ledger } :=
    (writeEntries_still key billed skipped s).fades.trans (.of_bindings rfl)
  exact disableDirectBindings_induct (I := fun t => Fades s t)
    (fun _ _ _ _ _ _ ht hnode => ht.trans (disableOnNode_fades hnode)) hwritten hdisable

theorem ingestTx_fades {payloadHash : UsageBatch → String} {agentId : String} {batch : UsageBatch}
    {scan : Scan} (h : ingestTx payloadHash agentId batch s = .ok (scan, s')) : Fades s s' := by
  obtain ⟨agent, s₁, s₂, -, -, hstore, hprocess, rfl⟩ := ingestTx_eq_ok h
  obtain ⟨batches, rfl⟩ := storeBatch_eq_ok hstore
  have hstored : Fades s { s with batches } := .of_bindings rfl
  have hscanned : Fades s s₂ := by
    refine processBatches_induct (I := fun t => Fades s t) ?_ hstored hprocess
    intro t t' key stored applied _ _ _ ht haccount
    obtain ⟨⟨applied', t₁⟩, happly, haccount⟩ := bind_eq_ok.1 haccount
    cases haccount
    exact ht.trans ((applyDirectBatch_fades happly).trans (.of_bindings rfl))
  exact hscanned.trans (.of_bindings rfl)

theorem completeCommand_fades {agentId : String} {key : JobKey} {result : CommandResult}
    (h : completeCommand agentId key result s = .ok ((), s')) : Fades s s' := by
  obtain ⟨agent, job, -, -, -, -, -, ⟨-, rfl⟩ | ⟨watermarks, -, rfl⟩⟩ := completeCommand_eq_ok h
  · exact .of_bindings rfl
  unfold recordWatermarks
  split
  · exact .of_bindings rfl
  · split
    · intro id b' hb'
      dsimp only at hb'
      rw [Table.lookup_modify] at hb'
      split at hb'
      · next heq =>
        obtain ⟨b, hb, rfl⟩ := Option.map_eq_some_iff.1 hb'
        refine ⟨b, heq ▸ hb, ?_⟩
        split
        · exact ⟨rfl, rfl, fun hactive => hactive⟩
        · exact .refl b
      · exact ⟨b', hb', .refl b'⟩
    · exact .of_bindings rfl

/-- Only an activation makes a binding active. -/
theorem Database.step_fades (payloadHash : UsageBatch → String) (s : Database) (step : Step)
    (hstep : ∀ input, step.1 ≠ .activate input) : Fades s (s.step payloadHash step) := by
  refine step_preserved (I := fun t => Fades s t) (.of_bindings rfl) step ?_
  obtain ⟨request, fates⟩ := step
  cases request with
  | heartbeat agentId bootId =>
    intro _ t a t' ht hrun
    obtain ⟨agent, next, -, -, -, rfl⟩ := heartbeat_eq_ok hrun
    exact ht
  | upload agentId batch => exact fun _ _ t a t' ht hrun => ht.trans (ingestTx_fades hrun)
  | complete agentId key result => exact fun t a t' ht hrun => ht.trans (completeCommand_fades hrun)
  | disable subscriptionId filter =>
    exact fun t a t' ht hrun => ht.trans (queueAndMark_fades (by decide) hrun)
  | delete subscriptionId filter =>
    exact fun t a t' ht hrun => ht.trans (queueAndMark_fades (by decide) hrun)
  | quiesce subscriptionId userId =>
    exact fun t a t' ht hrun => ht.trans (queueAndMark_fades (by decide) hrun)
  | activate input => exact absurd rfl (hstep input)
  | reset subscriptionId userId =>
    exact fun t a t' ht hrun => ht.trans (resetTraffic_still hrun).fades
  | cancelExhausted key =>
    intro t a t' ht hrun
    rcases cancelExhausted_eq_ok hrun with rfl | ⟨job, resolved, -, -, -, rfl⟩ <;> exact ht
  | claimDue key =>
    intro t a t' ht hrun
    rcases claimDue_eq_ok hrun with rfl | ⟨job, -, -, rfl⟩ <;> exact ht
  | createCredential nodeId agentId =>
    intro t a t' ht hrun
    obtain ⟨-, agent, -, rfl⟩ := newAgent_eq_ok (createCredential_eq_ok hrun)
    exact ht
  | revokeCredential nodeId agentId =>
    intro t a t' ht hrun
    obtain ⟨agent, -, -, -, rfl⟩ := revokeCredential_eq_ok hrun
    exact ht
  | register nodeId agentId bootId =>
    intro _ t a t' ht hrun
    obtain ⟨-, agent, -, rfl⟩ := newAgent_eq_ok (registerAgent_eq_ok hrun)
    exact ht
  | tick milliseconds => exact fun t ht => ht

/-! ## Activations -/

/-- Only the user of the activation may be new to its subscription. -/
def Activation.Serves (input : Activation) (s s' : Database) : Prop :=
  ∀ subscriptionId userId, s'.Serving subscriptionId userId → s.Serving subscriptionId userId ∨
    (subscriptionId = input.subscriptionId ∧ userId = input.userId)

theorem Activation.Serves.fades {input : Activation} (h : input.Serves s s') (h' : Fades s' s'') :
    input.Serves s s'' := fun _ _ hserving => h _ _ (h'.serving hserving)

theorem ensureTrafficSnapshotBaseline_fades (key : SnapshotKey) (uplinkBytes downlinkBytes : Nat)
    (replaceExisting : Bool) (s : Database) :
    Fades s (ensureTrafficSnapshotBaseline key uplinkBytes downlinkBytes replaceExisting s) := by
  obtain ⟨snapshots, hsnapshots⟩ :=
    control_ensureTrafficSnapshotBaseline key uplinkBytes downlinkBytes replaceExisting s
  rw [hsnapshots]
  exact .of_bindings rfl

theorem rebaseline_fades (existing : Binding) (s : Database) : Fades s (rebaseline existing s) := by
  unfold rebaseline
  split <;> apply ensureTrafficSnapshotBaseline_fades

/-- The binding of an activation is written. -/
theorem Activation.serves_insert (input : Activation) (s : Database) (id : String) {b : Binding}
    (hsub : b.subscriptionId = input.subscriptionId) (huser : b.userId = some input.userId) :
    input.Serves s { s with bindings := s.bindings.insert id b } := by
  rintro subscriptionId userId ⟨id', b', hb', hactive, hsub', huser'⟩
  dsimp only at hb'
  rw [Table.lookup_insert_ite] at hb'
  split at hb'
  · cases hb'
    refine .inr ⟨hsub'.symm.trans hsub, ?_⟩
    rw [huser'] at huser
    exact Option.some.inj huser
  · exact .inl ⟨id', b', hb', hactive, hsub', huser'⟩

theorem Activation.serves_revive {input : Activation} {id : String} {existing : Binding}
    (h : findBinding input s = some (id, existing)) :
    input.Serves s (rebaseline existing { s with
      bindings := s.bindings.insert id (input.revive existing) }) := by
  obtain ⟨-, hkey⟩ := findBinding_eq_some h
  simp only [Binding.snapshotKey, SnapshotKey.mk.injEq] at hkey
  have hrevived :
    input.Serves s { s with bindings := s.bindings.insert id (input.revive existing) } :=
    input.serves_insert s id hkey.2.1 hkey.2.2
  exact hrevived.fades (rebaseline_fades existing _)

theorem Activation.serves_create (input : Activation) (s : Database) :
    input.Serves s (ensureTrafficSnapshotBaseline input.binding.snapshotKey 0 0 false { s with
      bindings := s.bindings.insert input.newBindingId input.binding }) :=
  (input.serves_insert s input.newBindingId rfl rfl).fades
    (ensureTrafficSnapshotBaseline_fades _ _ _ _ _)

theorem ensurePanelClientBinding_serves {input : Activation}
    (h : ensurePanelClientBinding input s = .ok ((), s')) : input.Serves s s' := by
  rcases ensurePanelClientBinding_eq_ok h with
    ⟨id, existing, payload, hfind, -, -, hqueue⟩ | ⟨payload, -, -, -, hqueue⟩
  · exact (Activation.serves_revive hfind).fades (queueDirectBindingCommand_fades hqueue)
  · exact (input.serves_create s).fades (queueDirectBindingCommand_fades hqueue)

/-! ## A disable that commits -/

/-- The node of the binding exists and has an unrevoked agent. -/
def Database.Reaches (s : Database) (b : Binding) : Prop :=
  (s.nodes.lookup b.nodeId).isSome = true ∧ (s.agentOf b.nodeId).isSome = true

instance (s : Database) (b : Binding) : Decidable (s.Reaches b) :=
  inferInstanceAs (Decidable (_ ∧ _))

theorem queueDirectBindingCommand_of_reaches (type : CommandType)
    (payload : Binding → Agent.Payload) {bindingId : String} {b : Binding}
    (hb : s.bindings.lookup bindingId = some b)
    (hreaches : s.Reaches b) :
    ∃ s', queueDirectBindingCommand type payload bindingId s = .ok s' ∧ s'.agents = s.agents ∧
      (∀ nodeId, (s.nodes.lookup nodeId).isSome → (s'.nodes.lookup nodeId).isSome) ∧
      ∀ id b, s.bindings.lookup id = some b → ∃ b', s'.bindings.lookup id = some b' ∧
        b'.nodeId = b.nodeId := by
  obtain ⟨node, hnode⟩ := Option.isSome_iff_exists.1 hreaches.1
  obtain ⟨agentId, hagent⟩ := Option.isSome_iff_exists.1 hreaches.2
  have hqueue : ∃ s', queueDirectBindingCommand type payload bindingId s = .ok s' := by
    unfold queueDirectBindingCommand bumpRevision
    rw [find_eq_ok.2 hb, ok_bind, find_eq_ok.2 hnode, ok_bind, pure_eq_ok, ok_bind]
    dsimp only
    split
    · next hnone => exact absurd (hagent.symm.trans hnone) (by simp)
    · exact ⟨_, rfl⟩
  obtain ⟨s', hqueue⟩ := hqueue
  refine ⟨s', hqueue, ?_⟩
  obtain ⟨binding, node', agentId', hbinding, hnode', -, rfl⟩ :=
    queueDirectBindingCommand_eq_ok hqueue
  refine ⟨rfl, fun nodeId hsome => ?_, fun id b hb => ?_⟩
  · dsimp only
    rw [Table.lookup_insert_ite]
    split
    · rfl
    · exact hsome
  · dsimp only
    rw [Table.lookup_insert_ite]
    split
    · next heq =>
      rw [heq, hbinding] at hb
      cases hb
      exact ⟨_, rfl, rfl⟩
    · exact ⟨b, hb, rfl⟩

theorem queueAll_of_reaches (type : CommandType) : ∀ (ids : List String) {s : Database},
    (∀ id ∈ ids, ∃ b, s.bindings.lookup id = some b ∧ s.Reaches b) →
      ∃ s', queueAll type ids s = .ok s' := by
  intro ids
  induction ids with
  | nil => exact fun _ => ⟨_, rfl⟩
  | cons id ids ih =>
    intro s h
    obtain ⟨b, hb, hreaches⟩ := h id List.mem_cons_self
    obtain ⟨s₁, hqueue, hagents, hnodes, hbindings⟩ :=
      queueDirectBindingCommand_of_reaches type (accountPayload id) hb hreaches
    have hrest : ∀ id ∈ ids, ∃ b, s₁.bindings.lookup id = some b ∧ s₁.Reaches b := by
      intro id hid
      obtain ⟨b, hb, hnode, hagent⟩ := h id (List.mem_cons_of_mem _ hid)
      obtain ⟨b', hb', hnodeId⟩ := hbindings id b hb
      refine ⟨b', hb', hnodeId ▸ hnodes b.nodeId hnode, ?_⟩
      rw [hnodeId]
      unfold Database.agentOf at hagent ⊢
      rwa [hagents]
    obtain ⟨s', hs'⟩ := ih hrest
    refine ⟨s', ?_⟩
    unfold queueAll
    rw [List.foldlM_cons, hqueue]
    exact hs'

/-- A disable commits where the agents of all its bindings can be reached, and then the user is
off. -/
theorem queuePanelDisableJobs_ends
    (h : ∀ id b, s.bindings.lookup id = some b → b.status = .active →
      b.subscriptionId = subscriptionId → b.userId = some userId → s.Reaches b) :
    ∃ s', queuePanelDisableJobs subscriptionId { userId := some userId } s = .ok ((), s') ∧
      ¬s'.Serving subscriptionId userId := by
  let ids := (bindingsOf s subscriptionId { userId := some userId } [.active]).map Prod.fst
  have hids : ∀ id, id ∈ ids ↔ ∃ b, s.bindings.lookup id = some b ∧ b.status = .active ∧
      b.subscriptionId = subscriptionId ∧ b.userId = some userId := by
    intro id
    simp only [ids, bindingsOf, BindingFilter.admits, Option.isNone_some, Bool.false_or,
      Bool.and_true, List.contains_eq_mem, List.mem_cons, List.not_mem_nil, or_false, List.mem_map,
      List.mem_filter, Bool.and_eq_true, decide_eq_true_eq, Prod.exists, Table.mem_pairs,
      exists_and_right, exists_eq_right]
    grind
  obtain ⟨t, ht⟩ := queueAll_of_reaches .disableUser ids (s := s) fun id hid => by
    obtain ⟨b, hb, hactive, hsub, huser⟩ := (hids id).1 hid
    exact ⟨b, hb, h id b hb hactive hsub huser⟩
  refine ⟨markBindings .disabled [.active] ids t, ?_, ?_⟩
  · show (queueAll .disableUser ids s >>=
      fun t => pure ((), markBindings .disabled [.active] ids t)) = _
    rw [ht]
    rfl
  · rintro ⟨id, b', hb', hactive, hsub, huser⟩
    rw [lookup_markBindings] at hb'
    split at hb'
    · obtain ⟨b, -, rfl⟩ := Option.map_eq_some_iff.1 hb'
      unfold Binding.marked at hactive
      split at hactive
      · cases hactive
      · next hother => simp [hactive] at hother
    · next hnot =>
      obtain ⟨b, hb, hfades⟩ := queueAll_fades ht id b' hb'
      exact hnot ((hids id).2 ⟨b, hb, hfades.active hactive, hfades.subscriptionId ▸ hsub,
        hfades.userId ▸ huser⟩)

end Fades

namespace Access

open Admin (TeamMember)

/-! ## What is still owed -/

/-- The revocation that a disconnect is for. -/
def Task.revocation? : Task → Option Revocation
  | .disconnecting _ r => some r
  | .disabling _ r _ => some r
  | _ => none

/-- A follow-up that has yet to disable the subscription. -/
def Task.owes (r : Revocation) (subscriptionId : String) : Task → Bool
  | .disconnecting true r' => r' = r
  | .disabling true r' subscriptionIds => r' = r && subscriptionIds.contains subscriptionId
  | _ => false

/-- Some follow-up has yet to disable the subscription. -/
def Owing (tasks : Table Nat Task) (r : Revocation) (subscriptionId : String) : Prop :=
  ∃ taskId task, tasks.lookup taskId = some task ∧ task.owes r subscriptionId = true

section Owing

variable {tasks : Table Nat Task} {r : Revocation} {subscriptionId : String} {taskId : Nat}

theorem Owing.insert {task' : Task} (h : Owing tasks r subscriptionId)
    (htask : ∀ task, tasks.lookup taskId = some task → task.owes r subscriptionId = true →
      task'.owes r subscriptionId = true) :
    Owing (tasks.insert taskId task') r subscriptionId := by
  obtain ⟨id, task, hlookup, howes⟩ := h
  by_cases heq : id = taskId
  · subst heq
    exact ⟨id, task', AList.lookup_insert .., htask task hlookup howes⟩
  · exact ⟨id, task, by rw [Table.lookup_insert_ite, if_neg heq, hlookup], howes⟩

theorem Owing.erase (h : Owing tasks r subscriptionId)
    (htask : ∀ task, tasks.lookup taskId = some task → task.owes r subscriptionId = false) :
    Owing (tasks.erase taskId) r subscriptionId := by
  obtain ⟨id, task, hlookup, howes⟩ := h
  refine ⟨id, task, ?_, howes⟩
  rw [Table.lookup_erase_ite, if_neg, hlookup]
  rintro rfl
  rw [htask task hlookup] at howes
  cases howes

end Owing

namespace Service

/-- The revocation is about the user's bindings of the subscription: all of them, or those of
the team. -/
def covers (s : Service) (r : Revocation) (subscriptionId userId : String) : Bool :=
  userId = r.userId &&
    match r with
    | .user _ => true
    | .member teamId _ => s.ownerOf subscriptionId = some (.team teamId)

/-- The account is off, or the user is no longer in the team. -/
def inForce (s : Service) : Revocation → Bool
  | .user userId => !s.isActiveUser userId
  | .member teamId userId => !s.isMember teamId userId

/-- The user is active and, if the subscription is one of a team, still a member. -/
def eligible (s : Service) (input : Activation) : Bool :=
  s.isActiveUser input.userId &&
    match s.ownerOf input.subscriptionId with
    | some (.team teamId) => s.isMember teamId input.userId
    | _ => true

/-- The activation is for an eligible user, or a follow-up comes after it. -/
def InTime (s : Service) (input : Activation) : Prop :=
  s.eligible input = true ∨ ∀ r ∈ s.revocations,
    s.covers r input.subscriptionId input.userId = true → Owing s.tasks r input.subscriptionId

/-- What the next statement of a task must find. -/
def TimelyTask (s : Service) (subscriptionId : String) : Task → Prop
  | .activating input => s.InTime input
  | .provisioning _ (some chunk) _ => ∀ input ∈ chunk, s.InTime input
  -- The lookup of a follow-up finds every subscription that still serves the user.
  | .disconnecting true r => ∀ id, s.covers r id r.userId = true → s.db.Serving id r.userId →
      id ∈ s.disconnected r
  -- Its disable reaches the agent of every binding.
  | .disabling true r _ => ∀ id b, s.db.bindings.lookup id = some b → b.status = .active →
      b.subscriptionId = subscriptionId → b.userId = some r.userId → s.db.Reaches b
  | _ => True

/-- No activation comes too late, every follow-up finds and reaches the bindings it is for, and
nobody is enabled again. -/
def Timely (s : Service) : ServiceStep → Prop
  | .updateUser userId active => active = true → .user userId ∉ s.revocations
  | .advance taskId _ subscriptionId => ∀ task, s.tasks.lookup taskId = some task →
      s.TimelyTask subscriptionId task
  -- A follow-up without a subscription leaves no one to disable.
  | .lateLookup taskId => ∀ teamId userId,
      s.tasks.lookup taskId = some (.disconnecting true (.member teamId userId)) →
        ∀ id, s.covers (.member teamId userId) id userId = true → ¬s.db.Serving id userId
  | .request step => ∀ input, step.1 = .activate input → s.InTime input
  | _ => True

/-! ## Activations -/

section Activations

variable {db db' : Database} {bindingId flow : String}

theorem queueByStatement_fades : Fades db (queueByStatement bindingId flow db) := by
  unfold queueByStatement
  split
  · next hqueue =>
    obtain ⟨payload, -, hqueue⟩ := queuePanelEnsureJob_eq_ok hqueue
    exact queueDirectBindingCommand_fades hqueue
  · next binding _ hbinding =>
    split
    · next hbump =>
      obtain ⟨node, -, -, rfl⟩ := bumpRevision_eq_ok hbump
      intro id b' hb'
      dsimp only at hb'
      rw [Table.lookup_insert_ite] at hb'
      split at hb'
      · next heq =>
        cases hb'
        exact ⟨binding, heq ▸ hbinding, rfl, rfl, fun hactive => hactive⟩
      · exact ⟨b', hb', .refl b'⟩
    · exact .of_bindings rfl
  · exact .of_bindings rfl

theorem ensureByStatement_serves (input : Activation) :
    input.Serves db (ensureByStatement input db) := by
  have hsame : input.Serves db db := fun _ _ hserving => .inl hserving
  unfold ensureByStatement
  split
  · exact hsame
  · next bindingId existing _ hfind =>
    split
    · exact (Activation.serves_revive hfind).fades queueByStatement_fades
    · exact hsame
  · split
    · exact (input.serves_create db).fades queueByStatement_fades
    · exact hsame

theorem activateAll_serves {chunk : List Activation} (h : activateAll chunk db = .ok db')
    {subscriptionId userId : String} (hserving : db'.Serving subscriptionId userId) :
    db.Serving subscriptionId userId ∨
      ∃ input ∈ chunk, subscriptionId = input.subscriptionId ∧ userId = input.userId := by
  revert hserving
  refine foldlM_induct (I := fun t : Database => t.Serving subscriptionId userId →
    db.Serving subscriptionId userId ∨
      ∃ input ∈ chunk, subscriptionId = input.subscriptionId ∧ userId = input.userId)
    (fun t input t' hinput ht hstep hserving => ?_) (fun hserving => .inl hserving) h
  obtain ⟨⟨u, t₁⟩, hactivate, rfl⟩ := map_eq_ok.1 hstep
  rcases ensurePanelClientBinding_serves hactivate _ _ hserving with hserving | hinput'
  · exact ht hserving
  · exact .inr ⟨input, hinput, hinput'⟩

end Activations

/-! ## The invariant -/

/-- A revoked user is not served again: what was revoked is in force, and every binding that it
covers and that is active is still ahead of a follow-up. -/
structure Revoking (s : Service) : Prop where
  fresh : ∀ taskId task, s.tasks.lookup taskId = some task → taskId < s.nextId
  /-- The unique index of `TeamMember` on the user. -/
  single : ∀ i j m m', s.members.lookup i = some m → s.members.lookup j = some m' →
    m.userId = m'.userId → i = j
  inForce : ∀ r ∈ s.revocations, s.inForce r = true
  owed : ∀ r ∈ s.revocations, ∀ id, s.covers r id r.userId = true → s.db.Serving id r.userId →
    Owing s.tasks r id

section Revoking

variable {s s' : Service}

theorem covers_eq_true {r : Revocation} {subscriptionId userId : String} :
    s.covers r subscriptionId userId = true ↔ userId = r.userId ∧
      ∀ teamId, r = .member teamId r.userId → s.ownerOf subscriptionId = some (.team teamId) := by
  unfold covers
  rw [Bool.and_eq_true, decide_eq_true_iff]
  cases r with
  | user userId => simp
  | member teamId userId => simp [Revocation.userId]

/-- Nobody who is eligible is covered by a revocation in force. -/
theorem not_covers_of_eligible {input : Activation} {r : Revocation} (h : s.eligible input = true)
    (hforce : s.inForce r = true) : ¬s.covers r input.subscriptionId input.userId = true := by
  rw [covers_eq_true]
  rintro ⟨huser, hteam⟩
  unfold eligible at h
  rw [Bool.and_eq_true, huser] at h
  cases r with
  | user userId =>
    have hoff : s.isActiveUser userId = false := by simpa [Service.inForce] using hforce
    rw [show (Revocation.user userId).userId = userId from rfl, hoff] at h
    exact Bool.noConfusion h.1
  | member teamId userId =>
    have hgone : s.isMember teamId userId = false := by simpa [Service.inForce] using hforce
    rw [hteam teamId rfl] at h
    exact Bool.noConfusion (hgone.symm.trans h.2)

/-- An activation in time serves nobody whom no follow-up reaches. -/
theorem InTime.owing {input : Activation} {r : Revocation} (h : s.Revoking) (htime : s.InTime input)
    (hr : r ∈ s.revocations) (hcovers : s.covers r input.subscriptionId r.userId = true)
    (huser : r.userId = input.userId) : Owing s.tasks r input.subscriptionId := by
  rw [huser] at hcovers
  rcases htime with heligible | howing
  · exact absurd hcovers (not_covers_of_eligible heligible (h.inForce r hr))
  · exact howing r hr hcovers

/-- A step of a task: accounts, members and revocations stay. -/
structure Continues (s s' : Service) : Prop where
  accounts : s'.accounts = s.accounts
  members : s'.members = s.members
  columns : s'.columns = s.columns
  revocations : s'.revocations = s.revocations
  fresh : ∀ taskId task, s'.tasks.lookup taskId = some task → taskId < s'.nextId

theorem Revoking.next (h : s.Revoking) (hnext : Continues s s')
    (howed : ∀ r ∈ s.revocations, ∀ id, s.covers r id r.userId = true →
      s'.db.Serving id r.userId → Owing s'.tasks r id) : s'.Revoking where
  fresh := hnext.fresh
  single := by
    rw [hnext.members]
    exact h.single
  inForce := by
    intro r hr
    rw [hnext.revocations] at hr
    have hforce := h.inForce r hr
    unfold Service.inForce isActiveUser isMember at hforce ⊢
    rwa [hnext.accounts, hnext.members]
  owed := by
    intro r hr id hcovers hserving
    rw [hnext.revocations] at hr
    refine howed r hr id ?_ hserving
    rw [covers_eq_true] at hcovers ⊢
    unfold ownerOf at hcovers ⊢
    rwa [hnext.columns] at hcovers

theorem fresh_insert (h : s.Revoking) {taskId : Nat} {task : Task}
    (hlookup : s.tasks.lookup taskId = some task) (task' : Task) :
    ∀ id next, (s.tasks.insert taskId task').lookup id = some next → id < s.nextId := by
  intro id next hnext
  rw [Table.lookup_insert_ite] at hnext
  split at hnext
  · next heq => exact heq ▸ h.fresh taskId task hlookup
  · exact h.fresh id next hnext

theorem fresh_erase (h : s.Revoking) (taskId : Nat) :
    ∀ id next, (s.tasks.erase taskId).lookup id = some next → id < s.nextId := by
  intro id next hnext
  rw [Table.lookup_erase_ite] at hnext
  split at hnext
  · cases hnext
  · exact h.fresh id next hnext

/-- A task goes on, with another state of the database. -/
theorem Revoking.setTask (h : s.Revoking) {taskId nextId : Nat} {task task' : Task} {db : Database}
    (hlookup : s.tasks.lookup taskId = some task) (hnextId : s.nextId ≤ nextId)
    (howed : ∀ r ∈ s.revocations, ∀ id, s.covers r id r.userId = true → db.Serving id r.userId →
      Owing s.tasks r id ∧ (task.owes r id = true → task'.owes r id = true)) :
    Revoking ({ s with db, nextId }.setTask taskId task') := by
  refine h.next ⟨rfl, rfl, rfl, rfl, fun id next hnext => ?_⟩ fun r hr id hcovers hserving => ?_
  · exact (fresh_insert h hlookup task' id next hnext).trans_le hnextId
  · obtain ⟨howing, hkeeps⟩ := howed r hr id hcovers hserving
    refine howing.insert fun task₀ htask₀ howes => hkeeps ?_
    rw [hlookup] at htask₀
    cases htask₀
    exact howes

/-- A task ends, with another state of the database. -/
theorem Revoking.endTask (h : s.Revoking) {taskId : Nat} {task : Task} {db : Database}
    (hlookup : s.tasks.lookup taskId = some task)
    (howed : ∀ r ∈ s.revocations, ∀ id, s.covers r id r.userId = true → db.Serving id r.userId →
      Owing s.tasks r id ∧ task.owes r id = false) :
    Revoking ({ s with db }.endTask taskId) := by
  refine h.next ⟨rfl, rfl, rfl, rfl, fresh_erase h taskId⟩ fun r hr id hcovers hserving => ?_
  obtain ⟨howing, hnone⟩ := howed r hr id hcovers hserving
  refine howing.erase fun task₀ htask₀ => ?_
  rw [hlookup] at htask₀
  cases htask₀
  exact hnone

theorem fresh_spawn (hfresh : ∀ taskId task, s.tasks.lookup taskId = some task → taskId < s.nextId)
    (task : Task) :
    ∀ id next, (s.spawn task).tasks.lookup id = some next → id < (s.spawn task).nextId := by
  intro id next hnext
  simp only [Service.spawn] at hnext ⊢
  rw [Table.lookup_insert_ite] at hnext
  split at hnext
  · omega
  · have := hfresh id next hnext
    omega

theorem owing_spawn (hfresh : ∀ taskId task, s.tasks.lookup taskId = some task → taskId < s.nextId)
    {r : Revocation} {id : String} (h : Owing s.tasks r id) (task : Task) :
    Owing (s.spawn task).tasks r id := by
  refine h.insert fun task₀ htask₀ => ?_
  exact absurd (hfresh _ task₀ htask₀) (by omega)

theorem Revoking.spawn (h : s.Revoking) (task : Task) : (s.spawn task).Revoking :=
  h.next ⟨rfl, rfl, rfl, rfl, fresh_spawn h.fresh task⟩ fun r hr id hcovers hserving =>
    owing_spawn h.fresh (h.owed r hr id hcovers hserving) task

/-! ## Revocations -/

/-- An account is disabled or a member is removed, and two disconnects start. -/
theorem Revoking.revoke (h : s.Revoking) {accounts : Table String Account}
    {members : Table Nat TeamMember} {r : Revocation}
    (hsingle : ∀ i j m m', members.lookup i = some m → members.lookup j = some m' →
      m.userId = m'.userId → i = j)
    (hforce : ∀ r' ∈ s.revocations ++ [r], Service.inForce { s with accounts, members } r' = true) :
    Revoking ({ s with accounts, members }.revoke r) := by
  have hfirst :=
    fresh_spawn (s := { s with accounts, members, revocations := s.revocations ++ [r] })
    h.fresh (.disconnecting false r)
  refine ⟨fresh_spawn hfirst (.disconnecting true r), hsingle,
    hforce, fun r' hr' id hcovers hserving => ?_⟩
  rcases List.mem_append.1 hr' with hr' | hr'
  · have howing := h.owed r' hr' id hcovers hserving
    exact owing_spawn hfirst (owing_spawn (s := { s with
      accounts, members, revocations := s.revocations ++ [r] }) h.fresh howing _) _
  · -- The new follow-up owes everything.
    rw [List.mem_singleton.1 hr']
    exact ⟨_, .disconnecting true r, AList.lookup_insert .., by simp [Task.owes]⟩

theorem Revoking.updateUser (h : s.Revoking) {userId : String} {active : Bool}
    (htimely : active = true → .user userId ∉ s.revocations) :
    (s.updateUser userId active).Revoking := by
  unfold Service.updateUser
  split
  · exact h
  · next account haccount =>
    have hforce : ∀ r ∈ s.revocations, Service.inForce { s with
        accounts := s.accounts.insert userId { account with active } } r = true := by
      intro r hr
      have hr' := h.inForce r hr
      cases r with
      | user userId' =>
        simp only [Service.inForce, isActiveUser] at hr' ⊢
        rw [Table.lookup_insert_ite]
        split
        · next heq =>
          subst heq
          cases active with
          | true => exact absurd hr (htimely rfl)
          | false => rfl
        · exact hr'
      | member teamId userId' => exact hr'
    dsimp only
    split
    · next hchanged =>
      rw [Bool.and_eq_true, Bool.not_eq_true'] at hchanged
      refine h.revoke h.single fun r hr => ?_
      rcases List.mem_append.1 hr with hr | hr
      · exact hforce r hr
      · rw [List.mem_singleton.1 hr]
        simp [Service.inForce, isActiveUser, AList.lookup_insert, hchanged.2]
    · exact ⟨h.fresh, h.single, hforce, h.owed⟩

theorem Revoking.deleteTeamMember (h : s.Revoking) (teamId memberId : Nat) :
    (s.deleteTeamMember teamId memberId).Revoking := by
  unfold Service.deleteTeamMember
  split
  · exact h
  next member hmember =>
  split
  · next hguard =>
    have hrest : ∀ i m, (s.members.erase memberId).lookup i = some m →
        i ≠ memberId ∧ s.members.lookup i = some m := by
      intro i m hm
      rw [Table.lookup_erase_ite] at hm
      split at hm
      · cases hm
      · next hne => exact ⟨hne, hm⟩
    refine h.revoke (fun i j m m' hm hm' => ?_) fun r hr => ?_
    · exact h.single i j m m' (hrest i m hm).2 (hrest j m' hm').2
    · rcases List.mem_append.1 hr with hr | hr
      · have hforce := h.inForce r hr
        cases r with
        | user userId => exact hforce
        | member teamId' userId =>
          simp only [Service.inForce, isMember, Bool.not_eq_true', List.any_eq_false] at hforce ⊢
          rintro ⟨i, m⟩ hm
          exact hforce (i, m) (Table.mem_pairs.2 (hrest i m (Table.mem_pairs.1 hm)).2)
      · rw [List.mem_singleton.1 hr]
        simp only [Service.inForce, isMember, Bool.not_eq_true', List.any_eq_false]
        rintro ⟨i, m⟩ hm hsame
        obtain ⟨hne, hm⟩ := hrest i m (Table.mem_pairs.1 hm)
        simp only [Bool.and_eq_true, decide_eq_true_eq] at hsame
        exact hne (h.single i memberId m member hm hmember hsame.2)
  · exact h

/-! ## Tasks -/

variable {clientEmail : String → String → String → String → String}

/-- The next disable of a disconnect. -/
theorem Revoking.disable (h : s.Revoking) {taskId : Nat} {followUp : Bool} {r : Revocation}
    {subscriptionIds : List String} {subscriptionId : String}
    (hlookup : s.tasks.lookup taskId = some (.disabling followUp r subscriptionIds))
    (htimely : s.TimelyTask subscriptionId (.disabling followUp r subscriptionIds)) {db : Database}
    (hdb : db = match queuePanelDisableJobs subscriptionId { userId := some r.userId } s.db with
      | .ok ((), db) => db
      | .error _ => s.db) :
    Revoking ({ s with db }.setTask taskId
      (.disabling followUp r (subscriptionIds.filter (· ≠ subscriptionId)))) := by
  have hfades : Fades s.db db := by
    rw [hdb]
    split
    · next hrun => exact queueAndMark_fades (by decide) hrun
    · exact .of_bindings rfl
  refine h.setTask hlookup (le_refl _) fun r' hr' id hcovers hserving => ?_
  refine ⟨h.owed r' hr' id hcovers (hfades.serving hserving), fun howes => ?_⟩
  cases followUp with
  | false => cases howes
  | true =>
    simp only [Task.owes, Bool.and_eq_true, decide_eq_true_eq, List.contains_iff_mem,
      List.mem_filter] at howes ⊢
    obtain ⟨rfl, hid⟩ := howes
    refine ⟨rfl, hid, ?_⟩
    -- The subscription that was disabled serves the user no more.
    rintro rfl
    obtain ⟨db', hrun, hends⟩ := queuePanelDisableJobs_ends htimely
    rw [hrun] at hdb
    have hdb' : db = db' := hdb
    exact hends (hdb' ▸ hserving)

theorem Revoking.advance (h : s.Revoking) {taskId : Nat} {task : Task} (size : Nat)
    (subscriptionId : String) (hlookup : s.tasks.lookup taskId = some task)
    (htimely : s.TimelyTask subscriptionId task) :
    (s.advance clientEmail taskId size subscriptionId task).Revoking := by
  cases task with
  | connecting userId nodeId =>
    simp only [Service.advance]
    split
    · exact h.setTask hlookup (Nat.le_succ _) fun r hr id hcovers hserving =>
        ⟨h.owed r hr id hcovers hserving, fun howes => by cases howes⟩
    · exact h.endTask hlookup fun r hr id hcovers hserving =>
        ⟨h.owed r hr id hcovers hserving, rfl⟩
  | activating input =>
    refine h.endTask hlookup fun r hr id hcovers hserving => ⟨?_, rfl⟩
    rcases ensureByStatement_serves input id r.userId hserving with hserving | ⟨rfl, huser⟩
    · exact h.owed r hr id hcovers hserving
    · exact InTime.owing h htimely hr hcovers huser
  | provisioning id chunk rest =>
    cases chunk with
    | none =>
      exact h.setTask hlookup (le_refl _) fun r hr id hcovers hserving =>
        ⟨h.owed r hr id hcovers hserving, fun howes => by cases howes⟩
    | some chunk =>
      have howed : ∀ db, activateAll chunk s.db = .ok db → ∀ r ∈ s.revocations, ∀ id,
          s.covers r id r.userId = true → db.Serving id r.userId → Owing s.tasks r id := by
        intro db hdb r hr id hcovers hserving
        rcases activateAll_serves hdb hserving with hserving | ⟨input, hinput, rfl, huser⟩
        · exact h.owed r hr id hcovers hserving
        · exact InTime.owing h (htimely input hinput) hr hcovers huser
      simp only [Service.advance]
      split
      · exact h.endTask hlookup fun r hr id hcovers hserving =>
          ⟨h.owed r hr id hcovers hserving, rfl⟩
      · next db hdb =>
        split
        · exact h.endTask hlookup fun r hr id hcovers hserving =>
            ⟨howed db hdb r hr id hcovers hserving, rfl⟩
        · exact h.setTask hlookup (le_refl _) fun r hr id hcovers hserving =>
            ⟨howed db hdb r hr id hcovers hserving, fun howes => by cases howes⟩
  | disconnecting followUp r =>
    refine h.setTask hlookup (le_refl _) fun r' hr' id hcovers hserving =>
      ⟨h.owed r' hr' id hcovers hserving, fun howes => ?_⟩
    cases followUp with
    | false => cases howes
    | true =>
      simp only [Task.owes, Bool.and_eq_true, decide_eq_true_eq, List.contains_iff_mem] at howes ⊢
      subst howes
      exact ⟨rfl, htimely id hcovers hserving⟩
  | disabling followUp r subscriptionIds =>
    simp only [Service.advance]
    split
    · exact h.disable hlookup htimely rfl
    · split
      · next hnone =>
        refine h.endTask hlookup fun r' hr' id hcovers hserving =>
          ⟨h.owed r' hr' id hcovers hserving, ?_⟩
        rw [hnone]
        cases followUp <;> simp [Task.owes]
      · exact h

theorem Revoking.giveUpLookup (h : s.Revoking) {taskId : Nat} {task : Task}
    (hlookup : s.tasks.lookup taskId = some task) (htimely : s.Timely (.lateLookup taskId)) :
    (s.giveUpLookup taskId task).Revoking := by
  unfold Service.giveUpLookup
  split
  · next followUp teamId userId =>
    refine h.setTask hlookup (le_refl _) fun r hr id hcovers hserving =>
      ⟨h.owed r hr id hcovers hserving, fun howes => ?_⟩
    cases followUp with
    | false => cases howes
    | true =>
      simp only [Task.owes, decide_eq_true_eq] at howes
      subst howes
      exact absurd hserving (htimely teamId userId hlookup id hcovers)
  · exact h

/-! ## Runs -/

variable {payloadHash : UsageBatch → String}

theorem Revoking.step (h : s.Revoking) {step : ServiceStep} (htimely : s.Timely step) :
    (s.step clientEmail payloadHash step).Revoking := by
  cases step with
  | authenticate userId nodeId =>
    simp only [Service.step]
    split
    · exact h.spawn _
    · exact h
  | sync subscriptionId skipActiveTargets chunked =>
    have hnumbered : Revoking { s with
        nextId := s.nextId + (s.planSync clientEmail subscriptionId skipActiveTargets).length } :=
      h.next ⟨rfl, rfl, rfl, rfl, fun id task htask => Nat.lt_add_right _ (h.fresh id task htask)⟩
        h.owed
    simp only [Service.step]
    split
    · exact hnumbered
    · split <;> exact hnumbered.spawn _
  | updateUser userId active => exact h.updateUser htimely
  | deleteTeamMember teamId memberId => exact h.deleteTeamMember teamId memberId
  | advance taskId size subscriptionId =>
    simp only [Service.step]
    split
    · exact h
    · next task htask => exact h.advance size subscriptionId htask (htimely task htask)
  | lateLookup taskId =>
    simp only [Service.step]
    split
    · exact h
    · next task htask => exact h.giveUpLookup htask htimely
  | request step =>
    refine h.next ⟨rfl, rfl, rfl, rfl, h.fresh⟩ fun r hr id hcovers hserving => ?_
    obtain ⟨request, fates⟩ := step
    cases request with
    | activate input =>
      rcases finalWorld_silently (f := ensurePanelClientBinding input)
        s.db fates with hsame | hcommit
      · exact h.owed r hr id hcovers (hsame ▸ hserving)
      · rcases ensurePanelClientBinding_serves hcommit id r.userId
          hserving with hserving | ⟨rfl, huser⟩
        · exact h.owed r hr id hcovers hserving
        · have howing : Owing s.tasks r input.subscriptionId :=
            InTime.owing h (htimely input rfl) hr hcovers huser
          exact howing
    | _ =>
      refine h.owed r hr id hcovers (Fades.serving ?_ hserving)
      exact Database.step_fades payloadHash s.db _ fun input heq => by cases heq

end Revoking

section Runs

variable (clientEmail : String → String → String → String → String)
  (payloadHash : UsageBatch → String)

/-- Every step of a run is timely where it is taken. -/
def Along : Service → List ServiceStep → Prop
  | _, [] => True
  | s, step :: rest => s.Timely step ∧ Along (s.step clientEmail payloadHash step) rest

variable {clientEmail payloadHash}

theorem Revoking.run : ∀ (steps : List ServiceStep) {s : Service}, s.Revoking →
    s.Along clientEmail payloadHash steps → (s.run clientEmail payloadHash steps).Revoking
  | [], _, h, _ => h
  | _ :: rest, _, h, halong => run rest (h.step halong.1) halong.2

end Runs

/-- In every run of timely steps, once the disconnects of a revocation are done, no binding of
the user that the revocation covers is active. -/
theorem revoked_users_end_without_service
    (clientEmail : String → String → String → String → String) (payloadHash : UsageBatch → String)
    (s : Service) (htasks : s.tasks = ∅) (hrevocations : s.revocations = [])
    (hsingle : ∀ i j m m', s.members.lookup i = some m → s.members.lookup j = some m' →
      m.userId = m'.userId → i = j)
    (steps : List ServiceStep) (halong : s.Along clientEmail payloadHash steps)
    (r : Revocation) (hr : r ∈ (s.run clientEmail payloadHash steps).revocations)
    (hdone : ∀ taskId task, (s.run clientEmail payloadHash steps).tasks.lookup taskId = some task →
      task.revocation? ≠ some r)
    (bindingId userId : String) (b : Binding)
    (hb : (s.run clientEmail payloadHash steps).db.bindings.lookup bindingId = some b)
    (huser : b.userId = some userId)
    (hcovers : (s.run clientEmail payloadHash steps).covers r b.subscriptionId userId = true) :
    b.status ≠ .active := by
  have hstart : s.Revoking := by
    refine ⟨fun taskId task htask => ?_, hsingle, fun r hr => ?_, fun r hr => ?_⟩
    · rw [htasks] at htask
      cases htask
    · rw [hrevocations] at hr
      cases hr
    · rw [hrevocations] at hr
      cases hr
  intro hactive
  have hrevoking := hstart.run steps halong
  obtain rfl := (covers_eq_true.1 hcovers).1
  obtain ⟨taskId, task, htask, howes⟩ :=
    hrevoking.owed r hr b.subscriptionId hcovers ⟨bindingId, b, hb, hactive, rfl, huser⟩
  refine hdone taskId task htask ?_
  cases task with
  | disconnecting followUp r' => cases followUp <;> simp_all [Task.owes, Task.revocation?]
  | disabling followUp r' ids => cases followUp <;> simp_all [Task.owes, Task.revocation?]
  | _ => cases howes

/-! ## A connect that comes too late -/

theorem timely_advance {s : Service} {taskId size : Nat} {subscriptionId : String} (task : Task)
    (hlookup : s.tasks.lookup taskId = some task) (h : s.TimelyTask subscriptionId task) :
    s.Timely (.advance taskId size subscriptionId) := by
  intro task' htask'
  rw [hlookup] at htask'
  cases htask'
  exact h

theorem timely_disconnecting {s : Service} {subscriptionId : String} {r : Revocation}
    (h : ∀ p ∈ s.db.bindings.pairs, p.2.subscriptionId ∈ s.disconnected r) :
    s.TimelyTask subscriptionId (.disconnecting true r) := by
  rintro id - ⟨bindingId, b, hb, -, rfl, -⟩
  exact h (bindingId, b) (Table.mem_pairs.2 hb)

theorem timely_disabling {s : Service} {subscriptionId : String} {r : Revocation}
    {ids : List String} (h : ∀ p ∈ s.db.bindings.pairs, s.db.Reaches p.2) :
    s.TimelyTask subscriptionId (.disabling true r ids) :=
  fun bindingId b hb _ _ _ => h (bindingId, b) (Table.mem_pairs.2 hb)

/-- A user with a subscription and a node. -/
def subscribed : Service where
  db := {
    nodes := AList.insert "node" {} ∅
    agents := AList.insert "agent" { nodeId := "node" } ∅
    subscriptions := AList.insert "sub" { expireAt := 100, remainingTrafficGb := 1 } ∅ }
  accounts := AList.insert "user" {} ∅
  columns := AList.insert "sub" { owner := .personal "user" } ∅
  accesses := [{ subscriptionId := "sub", nodeId := "node" }]
  servable := ["node"]

/-- An address made of the four ids. -/
def joined : String → String → String → String → String :=
  fun email subscriptionId nodeId userId => "_".intercalate [email, subscriptionId, nodeId, userId]

/-- A connect up to the activation. -/
def connects : List ServiceStep := [.authenticate "user" "node", .advance 0 0 ""]

/-- One disconnect: its lookup, its disable and its end. -/
def disconnects (taskId : Nat) : List ServiceStep :=
  [.advance taskId 0 "", .advance taskId 0 "sub", .advance taskId 0 ""]

/-- The user connects, and then the account is disabled. -/
def early : List ServiceStep :=
  connects ++ .advance 0 0 "" :: .updateUser "user" false :: (disconnects 2 ++ disconnects 3)

/-- The account is disabled while the user connects. -/
def late : List ServiceStep :=
  connects ++ .updateUser "user" false :: (disconnects 2 ++ disconnects 3 ++ [.advance 0 0 ""])

theorem early_along : subscribed.Along joined (fun _ => "") early := by
  refine ⟨trivial, timely_advance (.connecting "user" "node") (by decide +kernel) trivial,
    timely_advance (.activating { nodeId := "node", subscriptionId := "sub", userId := "user"
                                  email := "_sub_node_user", newBindingId := "panel_client_1"
                                  newClientId := "client_1" }) (by decide +kernel)
      (.inl (by decide +kernel)), nofun, ?_⟩
  -- The disconnect of the request.
  refine ⟨timely_advance (.disconnecting false (.user "user")) (by decide +kernel) trivial,
    timely_advance (.disabling false (.user "user") ["sub"]) (by decide +kernel) trivial,
    timely_advance (.disabling false (.user "user") []) (by decide +kernel) trivial, ?_⟩
  -- The follow-up.
  refine ⟨timely_advance (.disconnecting true (.user "user")) (by decide +kernel)
      (timely_disconnecting (by decide +kernel)),
    timely_advance (.disabling true (.user "user") ["sub"]) (by decide +kernel)
      (timely_disabling (by decide +kernel)),
    timely_advance (.disabling true (.user "user") []) (by decide +kernel)
      (timely_disabling (by decide +kernel)), trivial⟩

theorem revoked_users_end_without_service_early :
    ∃ b, (subscribed.run joined (fun _ => "") early).db.bindings.lookup "panel_client_1" = some b ∧
      b.userId = some "user" ∧ b.status ≠ .active := by
  have hrow : ((subscribed.run joined (fun _ => "") early).db.bindings.lookup
      "panel_client_1").any (fun b => b.userId = some "user") = true := by decide +kernel
  obtain ⟨b, hb, huser⟩ := (Option.any_eq_true ..).1 hrow
  have hdone : (subscribed.run joined (fun _ => "") early).tasks.pairs = [] := by decide +kernel
  refine ⟨b, hb, of_decide_eq_true huser, ?_⟩
  refine revoked_users_end_without_service joined (fun _ => "") subscribed rfl rfl
    (fun i j m m' hm => by cases hm) early early_along (.user "user") (by decide +kernel)
    (fun taskId task htask => ?_) "panel_client_1" "user" b hb (of_decide_eq_true huser)
    (covers_eq_true.2 ⟨rfl, nofun⟩)
  have hmem := Table.mem_pairs.2 htask
  rw [hdone] at hmem
  cases hmem

/-- A connect that read the account before it was disabled activates the binding after both
disconnects are done. -/
theorem late_connect_is_served :
    (subscribed.run joined (fun _ => "") late).revocations = [.user "user"] ∧
    (subscribed.run joined (fun _ => "") late).tasks = ∅ ∧
    (subscribed.run joined (fun _ => "") late).isActiveUser "user" = false ∧
    (subscribed.run joined (fun _ => "") late).db.Serving "sub" "user" := by
  have hrow : ((subscribed.run joined (fun _ => "") late).db.bindings.lookup
      "panel_client_1").any (fun b => b.status = .active && b.subscriptionId = "sub" &&
        b.userId = some "user") = true := by decide +kernel
  obtain ⟨b, hb, hrow⟩ := (Option.any_eq_true ..).1 hrow
  simp only [Bool.and_eq_true, decide_eq_true_eq] at hrow
  refine ⟨by decide +kernel, AList.ext (by decide +kernel), by decide +kernel, ?_⟩
  exact ⟨"panel_client_1", b, hb, hrow.1.1, hrow.1.2, hrow.2⟩

end Service

end Access

end ChordV.Api
