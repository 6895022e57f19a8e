import ChordV.Api.Effects

/-!
# The queue of node commands

What the transactions of provisioning and metering do to the bindings and their commands,
in one relation.

* `Orderly` is the invariant of the queue: a command carries the revision of its key, which
  its node has already given out.  So the next revision of a node makes a key that is free.
* `Commands s s'` says what such a transaction may do: a binding keeps everything but its
  counters, or it gets a new revision with a pending command of that revision, or it is
  disabled on a node without an agent.
* Disables, deletions, activations, traffic resets and batches are `Commands`
  (`queueAndMark_commands`, `ensurePanelClientBinding_commands`, `resetTraffic_still`,
  `applyDirectBatch_commands`).
-/

namespace ChordV.Api

open Lib Fallible

/-! ## The invariant of the queue -/

/-- The binding of the job. -/
def JobKey.bindingId : JobKey → String
  | .agent _ bindingId _ => bindingId
  | .autoDisable bindingId _ => bindingId

/-- The revision of the job. -/
def JobKey.revision : JobKey → Nat
  | .agent _ _ revision => revision
  | .autoDisable _ revision => revision

/-- A binding without its counters. -/
def Binding.control (b : Binding) : Binding :=
  { b with lastUplinkBytes := 0, lastDownlinkBytes := 0 }

/-- A command without the mark that a newer one covers it. -/
def Job.order (job : Job) : Job := { job with resolved := false }

/-- The command agrees with its key, and its node has given out its revision. -/
structure Database.Filed (s : Database) (key : JobKey) (job : Job) : Prop where
  bindingId : key.bindingId = job.bindingId
  revision : key.revision = job.targetRevision
  binding : ∃ b, s.bindings.lookup job.bindingId = some b ∧ b.nodeId = job.nodeId
  node : ∃ node, s.nodes.lookup job.nodeId = some node ∧
    job.targetRevision ≤ node.agentConfigRevision

/-- Bindings have ids, and jobs stand under their keys. -/
structure Orderly (s : Database) : Prop where
  named : ∀ id b, s.bindings.lookup id = some b → id ≠ ""
  filed : ∀ key job, s.jobs.lookup key = some job → s.Filed key job

/-- An unrevoked agent of a node. -/
def Database.Serves (s : Database) (agentId nodeId : String) : Prop :=
  ∃ agent, s.agents.lookup agentId = some agent ∧ agent.nodeId = nodeId ∧ agent.revoked = false

/-- A command of a binding for its current revision that an agent of its node has yet to run. -/
structure Database.Pending (s : Database) (type : CommandType) (id : String) (b : Binding)
    (key : JobKey) (job : Job) : Prop where
  lookup : s.jobs.lookup key = some job
  commandType : job.commandType = type
  bindingId : job.bindingId = id
  payload : job.payload.bindingId = id
  revision : job.targetRevision = b.directRevision
  status : job.status = .pending
  nodeId : job.nodeId = b.nodeId
  agent : s.Serves job.agentId b.nodeId

/-- The binding is not served. -/
def BindingStatus.off : BindingStatus → Bool
  | .disabled => true
  | .deleted => true
  | _ => false

/-- The binding got a new revision: an active one with any command, one that is off with a
terminal command. -/
def Database.Ordered (s : Database) (id : String) : Prop :=
  ∃ b type key job, s.bindings.lookup id = some b ∧ b.source = .direct ∧
    b.directDisableWatermarks = none ∧ s.Pending type id b key job ∧
    (b.status = .active ∨ (b.status.off = true ∧ type.isTerminal = true))

/-- The binding was disabled on a node without an agent. -/
def Database.Stranded (s : Database) (id : String) : Prop :=
  ∃ b, s.bindings.lookup id = some b ∧ b.status = .disabled ∧
    b.directDisableWatermarks = none ∧ s.agentOf b.nodeId = none

/-- A change of counters and of the tables of metering. -/
structure Still (s s' : Database) : Prop where
  nodes : s'.nodes = s.nodes
  agents : s'.agents = s.agents
  jobs : s'.jobs = s.jobs
  bindings : ∀ id, (s'.bindings.lookup id).map Binding.control =
    (s.bindings.lookup id).map Binding.control

/-- The binding is on the same node, and it stays direct. -/
structure Binding.Stays (b b' : Binding) : Prop where
  nodeId : b'.nodeId = b.nodeId
  direct : b.source = .direct → b'.source = .direct

/-- What provisioning and metering do to the bindings and their commands.  Only the bindings in
`S` may be stranded. -/
structure Commands (S : String → Prop) (s s' : Database) : Prop where
  orderly : Orderly s'
  agents : s'.agents = s.agents
  jobs : ∀ key job, s.jobs.lookup key = some job →
    ∃ job', s'.jobs.lookup key = some job' ∧ job'.order = job.order
  stays : ∀ id b, s.bindings.lookup id = some b → ∃ b', s'.bindings.lookup id = some b' ∧ b.Stays b'
  bindings : ∀ id,
    (s'.bindings.lookup id).map Binding.control = (s.bindings.lookup id).map Binding.control ∨
    s'.Ordered id ∨ (S id ∧ s'.Stranded id)

section Commands

variable {S : String → Prop} {s s' s'' : Database}

theorem Database.Serves.of_agents {agentId nodeId : String} (h : s.Serves agentId nodeId)
    (hagents : s'.agents = s.agents) : s'.Serves agentId nodeId := by
  unfold Serves
  rw [hagents]
  exact h

theorem control_eq {id : String} {b' : Binding} (hb' : s'.bindings.lookup id = some b')
    (h : (s'.bindings.lookup id).map Binding.control = (s.bindings.lookup id).map Binding.control) :
    ∃ b, s.bindings.lookup id = some b ∧ b'.control = b.control := by
  rw [hb', Option.map_some] at h
  obtain ⟨b, hb, hcontrol⟩ := Option.map_eq_some_iff.1 h.symm
  exact ⟨b, hb, hcontrol.symm⟩

theorem Database.Pending.kept {type : CommandType} {id : String} {b b' : Binding} {key : JobKey}
    {job : Job} (h : s.Pending type id b key job) (hagents : s'.agents = s.agents)
    (hjobs : ∀ key job, s.jobs.lookup key = some job →
      ∃ job', s'.jobs.lookup key = some job' ∧ job'.order = job.order)
    (hnodeId : b'.nodeId = b.nodeId) (hrevision : b'.directRevision = b.directRevision) :
    ∃ job', s'.Pending type id b' key job' := by
  obtain ⟨job', hjob', horder⟩ := hjobs key job h.lookup
  simp only [Job.order, Job.mk.injEq] at horder
  obtain ⟨hnode, hagent, htype, htarget, hpayload, hid, hstatus, -, -⟩ := horder
  refine ⟨job', hjob', htype.trans h.commandType, hid.trans h.bindingId, ?_, ?_, ?_, ?_, ?_⟩
  · rw [hpayload, h.payload]
  · rw [htarget, h.revision, hrevision]
  · rw [hstatus, h.status]
  · rw [hnode, h.nodeId, hnodeId]
  · rw [hagent, hnodeId]
    exact h.agent.of_agents hagents

/-- The queue depends on the node of each binding alone. -/
theorem Orderly.of_nodeIds (h : Orderly s) (hnodes : s'.nodes = s.nodes) (hjobs : s'.jobs = s.jobs)
    (hbindings : ∀ id, (s'.bindings.lookup id).map (·.nodeId) =
      (s.bindings.lookup id).map (·.nodeId)) :
    Orderly s' := by
  refine ⟨fun id b' hb' => ?_, fun key job hjob => ?_⟩
  · have hmap := hbindings id
    rw [hb', Option.map_some] at hmap
    obtain ⟨b, hb, -⟩ := Option.map_eq_some_iff.1 hmap.symm
    exact h.named id b hb
  · rw [hjobs] at hjob
    obtain ⟨hid, hrevision, ⟨b, hb, hnode⟩, hnode'⟩ := h.filed key job hjob
    have hmap := hbindings job.bindingId
    rw [hb, Option.map_some] at hmap
    obtain ⟨b', hb', hbnode⟩ := Option.map_eq_some_iff.1 hmap
    exact ⟨hid, hrevision, ⟨b', hb', hbnode.trans hnode⟩, hnodes ▸ hnode'⟩

namespace Commands

theorem refl (h : Orderly s) : Commands S s s :=
  ⟨h, rfl, fun _ job hjob => ⟨job, hjob, rfl⟩, fun _ b hb => ⟨b, hb, rfl, fun hdirect => hdirect⟩,
    fun _ => .inl rfl⟩

theorem trans (h : Commands S s s') (h' : Commands S s' s'') : Commands S s s'' where
  orderly := h'.orderly
  agents := h'.agents.trans h.agents
  jobs := by
    intro key job hjob
    obtain ⟨job', hjob', horder⟩ := h.jobs key job hjob
    obtain ⟨job'', hjob'', horder'⟩ := h'.jobs key job' hjob'
    exact ⟨job'', hjob'', horder'.trans horder⟩
  stays := by
    intro id b hb
    obtain ⟨b', hb', hstays⟩ := h.stays id b hb
    obtain ⟨b'', hb'', hstays'⟩ := h'.stays id b' hb'
    exact ⟨b'', hb'', hstays'.nodeId.trans hstays.nodeId, hstays'.direct ∘ hstays.direct⟩
  bindings := by
    intro id
    rcases h'.bindings id with hsame | hchanged
    · rcases h.bindings id with hsame' | ⟨b, type, key, job, hb, hdirect, hnone, hpending, hcase⟩ |
        ⟨hS, b, hb, hdisabled, hnone, hagent⟩
      · exact .inl (hsame.trans hsame')
      · -- The command of the first transaction is still pending after the second.
        obtain ⟨b', hb', hcontrol⟩ := control_eq hb hsame.symm
        simp only [Binding.control, Binding.mk.injEq] at hcontrol
        obtain ⟨-, -, -, hnode, -, -, -, -, hstatus, hsource, hrevision, hwatermarks⟩ := hcontrol
        obtain ⟨job', hpending'⟩ := hpending.kept h'.agents h'.jobs hnode.symm hrevision.symm
        refine .inr (.inl ⟨b', type, key, job', hb', hsource ▸ hdirect, hwatermarks ▸ hnone,
          hpending', ?_⟩)
        rw [← hstatus]
        exact hcase
      · obtain ⟨b', hb', hcontrol⟩ := control_eq hb hsame.symm
        simp only [Binding.control, Binding.mk.injEq] at hcontrol
        obtain ⟨-, -, -, hnode, -, -, -, -, hstatus, -, -, hwatermarks⟩ := hcontrol
        refine .inr (.inr ⟨hS, b', hb', hstatus ▸ hdisabled, hwatermarks ▸ hnone, ?_⟩)
        rw [← hnode]
        unfold Database.agentOf at hagent ⊢
        rw [h'.agents]
        exact hagent
    · exact .inr hchanged

/-- The counters of the bindings and the tables of metering are free to change. -/
theorem of_still (h : Orderly s) (hstill : Still s s') : Commands S s s' := by
  obtain ⟨hnodes, hagents, hjobs, hbindings⟩ := hstill
  have hnodeIds : ∀ id, (s'.bindings.lookup id).map (·.nodeId) =
      (s.bindings.lookup id).map (·.nodeId) := by
    intro id
    have hmap := congrArg (Option.map (·.nodeId)) (hbindings id)
    rwa [Option.map_map, Option.map_map] at hmap
  refine ⟨h.of_nodeIds hnodes hjobs hnodeIds, hagents, fun key job hjob => ⟨job, hjobs ▸ hjob, rfl⟩,
    fun id b hb => ?_, fun id => .inl (hbindings id)⟩
  obtain ⟨b', hb', hcontrol⟩ := control_eq hb (hbindings id).symm
  simp only [Binding.control, Binding.mk.injEq] at hcontrol
  obtain ⟨-, -, -, hnode, -, -, -, -, -, hsource, -⟩ := hcontrol
  exact ⟨b', hb', hnode.symm, fun hdirect => hsource ▸ hdirect⟩

end Commands

/-! ## Queueing -/

theorem Database.Filed.mono {key : JobKey} {job job' : Job} (h : s.Filed key job)
    (horder : job'.order = job.order)
    (hbindings : ∀ id b, s.bindings.lookup id = some b →
      ∃ b', s'.bindings.lookup id = some b' ∧ b'.nodeId = b.nodeId)
    (hnodes : ∀ nodeId node, s.nodes.lookup nodeId = some node → ∃ node',
      s'.nodes.lookup nodeId = some node' ∧ node.agentConfigRevision ≤ node'.agentConfigRevision) :
    s'.Filed key job' := by
  simp only [Job.order, Job.mk.injEq] at horder
  obtain ⟨hnode, -, -, hrevision, -, hid, -⟩ := horder
  obtain ⟨b, hb, hbnode⟩ := h.binding
  obtain ⟨b', hb', hbnode'⟩ := hbindings _ b hb
  obtain ⟨node, hlookup, hle⟩ := h.node
  obtain ⟨node', hlookup', hle'⟩ := hnodes _ node hlookup
  refine ⟨?_, ?_, ⟨b', ?_, ?_⟩, node', ?_, ?_⟩
  · rw [hid, h.bindingId]
  · rw [hrevision, h.revision]
  · rw [hid, hb']
  · rw [hbnode', hbnode, hnode]
  · rw [hnode, hlookup']
  · rw [hrevision]
    exact hle.trans hle'

/-- Covering the exhausted commands of a binding changes no order. -/
theorem lookup_resolveExhaustedCommands (bindingId : String) (type : CommandType) (s : Database)
    (key : JobKey) :
    ((resolveExhaustedCommands bindingId type s).jobs.lookup key).map Job.order =
      (s.jobs.lookup key).map Job.order := by
  unfold resolveExhaustedCommands
  refine List.foldlRecOn (motive := fun jobs : Table JobKey Job =>
    (jobs.lookup key).map Job.order = _) _ _ rfl fun jobs hjobs key' _ => ?_
  rw [Table.lookup_modify]
  split
  · next heq =>
    rw [← hjobs, heq, Option.map_map]
    rfl
  · exact hjobs

/-- The next revision of a node makes a key that is free. -/
theorem Orderly.lookup_next (h : Orderly s) {key : JobKey} {b : Binding} {node : Node}
    (hb : s.bindings.lookup key.bindingId = some b) (hnode : s.nodes.lookup b.nodeId = some node)
    (hrevision : key.revision = node.agentConfigRevision + 1) : s.jobs.lookup key = none := by
  cases hjob : s.jobs.lookup key with
  | none => rfl
  | some job =>
    obtain ⟨hid, hrevision', ⟨b', hb', hbnode⟩, node', hnode', hle⟩ := h.filed key job hjob
    rw [← hid, hb] at hb'
    cases hb'
    rw [← hbnode, hnode] at hnode'
    cases hnode'
    omega

/-- Commands of one type were queued for some bindings. -/
structure Queued (type : CommandType) (ids : List String) (s t : Database) : Prop where
  orderly : Orderly t
  agents : t.agents = s.agents
  jobs : ∀ key job, s.jobs.lookup key = some job →
    ∃ job', t.jobs.lookup key = some job' ∧ job'.order = job.order
  others : ∀ id ∉ ids, t.bindings.lookup id = s.bindings.lookup id
  queued : ∀ id ∈ ids, ∃ b revision key job, s.bindings.lookup id = some b ∧
    t.bindings.lookup id = some { b with source := .direct, directRevision := revision } ∧
    t.Pending type id { b with source := .direct, directRevision := revision } key job

theorem Queued.refl (type : CommandType) (h : Orderly s) : Queued type [] s s :=
  ⟨h, rfl, fun _ job hjob => ⟨job, hjob, rfl⟩, fun _ _ => rfl, fun _ hid => by cases hid⟩

theorem Queued.trans {type : CommandType} {ids ids' : List String} (h : Queued type ids s s')
    (h' : Queued type ids' s' s'') : Queued type (ids ++ ids') s s'' where
  orderly := h'.orderly
  agents := h'.agents.trans h.agents
  jobs := by
    intro key job hjob
    obtain ⟨job', hjob', horder⟩ := h.jobs key job hjob
    obtain ⟨job'', hjob'', horder'⟩ := h'.jobs key job' hjob'
    exact ⟨job'', hjob'', horder'.trans horder⟩
  others := by
    intro id hid
    rw [List.mem_append, not_or] at hid
    rw [h'.others id hid.2, h.others id hid.1]
  queued := by
    intro id hid
    by_cases hsecond : id ∈ ids'
    · obtain ⟨b, revision, key, job, hb, hb', hpending⟩ := h'.queued id hsecond
      by_cases hfirst : id ∈ ids
      · obtain ⟨b₀, revision₀, -, -, hb₀, hb₁, -⟩ := h.queued id hfirst
        rw [hb] at hb₁
        cases hb₁
        exact ⟨b₀, revision, key, job, hb₀, hb', hpending⟩
      · rw [h.others id hfirst] at hb
        exact ⟨b, revision, key, job, hb, hb', hpending⟩
    · have hfirst := (List.mem_append.1 hid).resolve_right hsecond
      obtain ⟨b, revision, key, job, hb, hb', hpending⟩ := h.queued id hfirst
      obtain ⟨job', hpending'⟩ := hpending.kept h'.agents h'.jobs rfl rfl
      rw [← h'.others id hsecond] at hb'
      exact ⟨b, revision, key, job', hb, hb', hpending'⟩

theorem Queued.single {type : CommandType} {payload : Binding → Agent.Payload} {id : String}
    (h : Orderly s) (hpayload : ∀ b, (payload b).bindingId = id)
    (hqueue : queueDirectBindingCommand type payload id s = .ok s') : Queued type [id] s s' := by
  obtain ⟨binding, node, agentId, hbinding, hnode, hagent, rfl⟩ :=
    queueDirectBindingCommand_eq_ok hqueue
  have hfree : s.jobs.lookup (.agent type id (node.agentConfigRevision + 1)) = none :=
    h.lookup_next hbinding hnode rfl
  have hold : ∀ key job, s.jobs.lookup key = some job →
      key ≠ .agent type id (node.agentConfigRevision + 1) := by
    rintro key job hjob rfl
    rw [hfree] at hjob
    cases hjob
  refine ⟨⟨fun id' b' hb' => ?_, fun key job' hjob' => ?_⟩, rfl, fun key job hjob => ?_,
    fun id' hid' => ?_, fun id' hid' => ?_⟩
  · dsimp only at hb'
    rw [Table.lookup_insert_ite] at hb'
    split at hb'
    · next heq => exact heq ▸ h.named id binding hbinding
    · exact h.named id' b' hb'
  · dsimp only at hjob'
    rw [Table.lookup_insert_ite] at hjob'
    split at hjob'
    · next heq =>
      cases hjob'
      subst heq
      refine ⟨rfl, rfl, ⟨_, AList.lookup_insert .., rfl⟩, _, AList.lookup_insert .., le_refl _⟩
    · obtain ⟨job, hjob, horder⟩ := Option.map_eq_some_iff.1
        ((lookup_resolveExhaustedCommands id type s key).symm.trans
          (congrArg (Option.map Job.order) hjob'))
      refine (h.filed key job hjob).mono horder.symm (fun id' b' hb' => ?_)
        fun nodeId node' hnode' => ?_
      · dsimp only
        rw [Table.lookup_insert_ite]
        split
        · next heq =>
          rw [heq, hbinding] at hb'
          cases hb'
          exact ⟨_, rfl, rfl⟩
        · exact ⟨b', hb', rfl⟩
      · dsimp only
        rw [Table.lookup_insert_ite]
        split
        · next heq =>
          rw [heq, hnode] at hnode'
          cases hnode'
          exact ⟨_, rfl, Nat.le_succ _⟩
        · exact ⟨node', hnode', le_refl _⟩
  · dsimp only
    rw [Table.lookup_insert_ite, if_neg (hold key job hjob)]
    have hresolved := lookup_resolveExhaustedCommands id type s key
    rw [hjob, Option.map_some] at hresolved
    exact Option.map_eq_some_iff.1 hresolved
  · dsimp only
    rw [Table.lookup_insert_ite,
      if_neg fun heq : id' = id => hid' (heq ▸ List.mem_singleton_self id)]
  · obtain rfl := List.mem_singleton.1 hid'
    exact ⟨binding, _, _, _, hbinding, AList.lookup_insert .., AList.lookup_insert .., rfl, rfl,
      hpayload binding, rfl, rfl, rfl, Database.agentOf_eq_some hagent⟩

theorem Queued.queueAll {type : CommandType} {ids : List String} (h : Orderly s)
    (hqueue : queueAll type ids s = .ok s') : Queued type ids s s' := by
  have hfold : ∀ (ids done : List String) (t : Database), Queued type done s t →
      Api.queueAll type ids t = .ok s' → Queued type (done ++ ids) s s' := by
    intro ids
    induction ids with
    | nil =>
      intro done t ht hrun
      cases hrun
      rw [List.append_nil]
      exact ht
    | cons id ids ih =>
      intro done t ht hrun
      unfold Api.queueAll at hrun
      rw [List.foldlM_cons] at hrun
      obtain ⟨t₁, hfirst, hrun⟩ := bind_eq_ok.1 hrun
      have hpayload : ∀ b, (accountPayload id b).bindingId = id := fun _ => rfl
      have hstep := ht.trans (Queued.single ht.orderly hpayload hfirst)
      have hrest := ih (done ++ [id]) t₁ hstep hrun
      rwa [List.append_assoc] at hrest
  exact hfold ids [] s (Queued.refl type h) hqueue

/-- A disable, a deletion and the boundary of a reset: terminal commands are queued for bindings
with a status that allows the mark. -/
theorem queueAndMark_commands {type : CommandType} {status : BindingStatus}
    {old : List BindingStatus}
    {ids : List String} (h : Orderly s) (hterminal : type.isTerminal = true)
    (hoff : status.off = true)
    (hids : ∀ id ∈ ids, ∃ b, s.bindings.lookup id = some b ∧ old.contains b.status = true)
    (hrun : (do
      let t ← queueAll type ids s
      return ((), markBindings status old ids t)) = (.ok ((), s') : Except ApiError _)) :
    Commands S s s' := by
  obtain ⟨t, hqueue, hrun⟩ := bind_eq_ok.1 hrun
  cases hrun
  have ht := Queued.queueAll h hqueue
  refine ⟨ht.orderly.of_nodeIds rfl rfl fun id => ?_, ht.agents,
    ht.jobs, fun id b hb => ?_, fun id => ?_⟩
  · rw [lookup_markBindings]
    split
    · rw [Option.map_map]
      congr 1
      funext b
      unfold Function.comp Binding.marked
      split <;> rfl
    · rfl
  · rw [lookup_markBindings]
    split
    · next hid =>
      obtain ⟨b₀, revision, -, -, hb₀, hb', -⟩ := ht.queued id hid
      rw [hb] at hb₀
      cases hb₀
      rw [hb']
      refine ⟨_, rfl, ?_, fun _ => ?_⟩
      · unfold Binding.marked
        split <;> rfl
      · unfold Binding.marked
        split <;> rfl
    · next hid => exact ⟨b, (ht.others id hid).trans hb, rfl, fun hdirect => hdirect⟩
  · by_cases hid : id ∈ ids
    · obtain ⟨b, revision, key, job, hb, hb', hpending⟩ := ht.queued id hid
      obtain ⟨b₀, hb₀, hold⟩ := hids id hid
      rw [hb] at hb₀
      cases hb₀
      have hmarked : (markBindings status old ids t).bindings.lookup id = some { b with
          source := .direct, directRevision := revision, status,
          directDisableWatermarks := none } := by
        rw [lookup_markBindings, if_pos hid, hb', Option.map_some, Binding.marked, if_pos hold]
      refine .inr (.inl ⟨_, type, key, job, hmarked, rfl, rfl, ?_, .inr ⟨hoff, hterminal⟩⟩)
      exact ⟨hpending.lookup, hpending.commandType, hpending.bindingId, hpending.payload,
        hpending.revision, hpending.status, hpending.nodeId, hpending.agent⟩
    · left
      rw [lookup_markBindings, if_neg hid, ht.others id hid]

/-! ## Activations -/

theorem control_ensureTrafficSnapshotBaseline (key : SnapshotKey) (uplinkBytes downlinkBytes : Nat)
    (replaceExisting : Bool) (s : Database) :
    ∃ snapshots, ensureTrafficSnapshotBaseline key uplinkBytes downlinkBytes replaceExisting s =
      { s with snapshots } := by
  unfold ensureTrafficSnapshotBaseline
  split
  · exact ⟨_, rfl⟩
  · split
    · exact ⟨_, rfl⟩
    · exact ⟨s.snapshots, rfl⟩

/-- A binding is written as active without watermarks, and its command is queued. -/
theorem insertAndQueue_commands {id : String} {b : Binding}
    {snapshots : Table SnapshotKey TrafficSnapshot}
    {payload : Binding → Agent.Payload} (h : Orderly s) (hid : id ≠ "")
    (hb : ∀ b', s.bindings.lookup id = some b' → b'.nodeId = b.nodeId)
    (hactive : b.status = .active)
    (hnone : b.directDisableWatermarks = none) (hpayload : ∀ b, (payload b).bindingId = id)
    (hqueue : queueDirectBindingCommand .ensureUser payload id
      { s with bindings := s.bindings.insert id b, snapshots } = .ok s') : Commands S s s' := by
  have hinserted : Orderly { s with bindings := s.bindings.insert id b, snapshots } := by
    refine ⟨fun id' b' hb' => ?_, fun key job hjob => ?_⟩
    · dsimp only at hb'
      rw [Table.lookup_insert_ite] at hb'
      split at hb'
      · next heq => exact heq ▸ hid
      · exact h.named id' b' hb'
    · refine (h.filed key job hjob).mono rfl (fun id' b' hb' => ?_) fun _ node hnode =>
        ⟨node, hnode, le_refl _⟩
      dsimp only
      rw [Table.lookup_insert_ite]
      split
      · next heq => exact ⟨b, rfl, (hb b' (heq ▸ hb')).symm⟩
      · exact ⟨b', hb', rfl⟩
  have hqueued := Queued.single hinserted hpayload hqueue
  obtain ⟨b', revision, key, job, hb', hrow, hpending⟩ :=
    hqueued.queued id (List.mem_singleton_self id)
  dsimp only at hb'
  rw [AList.lookup_insert] at hb'
  cases hb'
  have hothers : ∀ id', id' ≠ id → s'.bindings.lookup id' = s.bindings.lookup id' := by
    intro id' hne
    rw [hqueued.others id' fun hmem => hne (List.mem_singleton.1 hmem)]
    dsimp only
    rw [Table.lookup_insert_ite, if_neg hne]
  refine ⟨hqueued.orderly, hqueued.agents, hqueued.jobs, fun id' b' hlookup => ?_, fun id' => ?_⟩
  · by_cases heq : id' = id
    · subst heq
      exact ⟨_, hrow, (hb b' hlookup).symm, fun _ => rfl⟩
    · exact ⟨b', (hothers id' heq).trans hlookup, rfl, fun hdirect => hdirect⟩
  by_cases heq : id' = id
  · subst heq
    exact .inr (.inl ⟨_, _, key, job, hrow, rfl, hnone, hpending, .inl hactive⟩)
  · exact .inl (by rw [hothers id' heq])

theorem ensurePanelClientBinding_commands {input : Activation} (h : Orderly s)
    (hactivate : ensurePanelClientBinding input s = .ok ((), s')) : Commands S s s' := by
  rcases ensurePanelClientBinding_eq_ok hactivate with
    ⟨id, existing, payload, hfind, -, hpayload, hqueue⟩ | ⟨payload, -, hfresh, hpayload, hqueue⟩
  · obtain ⟨hexisting, -⟩ := findBinding_eq_some hfind
    have hrebaseline : ∃ snapshots, rebaseline existing { s with
        bindings := s.bindings.insert id (input.revive existing) } =
        { s with bindings := s.bindings.insert id (input.revive existing), snapshots } := by
      unfold rebaseline
      split <;> exact control_ensureTrafficSnapshotBaseline ..
    obtain ⟨snapshots, hrebaseline⟩ := hrebaseline
    rw [hrebaseline] at hqueue
    refine insertAndQueue_commands h (h.named id existing hexisting) (fun b' hb' => ?_) rfl rfl
      hpayload hqueue
    rw [hexisting] at hb'
    cases hb'
    rfl
  · obtain ⟨snapshots, hbaseline⟩ := control_ensureTrafficSnapshotBaseline
      input.binding.snapshotKey 0 0 false
      { s with bindings := s.bindings.insert input.newBindingId input.binding }
    rw [hbaseline] at hqueue
    refine insertAndQueue_commands h input.named (fun b' hb' => ?_) rfl rfl hpayload hqueue
    rw [hfresh] at hb'
    cases hb'

/-! ## Counters -/

theorem Still.refl (s : Database) : Still s s := ⟨rfl, rfl, rfl, fun _ => rfl⟩

theorem Still.trans (h : Still s s') (h' : Still s' s'') : Still s s'' :=
  ⟨h'.nodes.trans h.nodes, h'.agents.trans h.agents, h'.jobs.trans h.jobs,
    fun id => (h'.bindings id).trans (h.bindings id)⟩

theorem Still.foldl {α : Type} {f : Database → α → Database} (hf : ∀ s x, Still s (f s x))
    (xs : List α) (s : Database) : Still s (xs.foldl f s) :=
  List.foldlRecOn (motive := fun t => Still s t) xs f (refl s) fun t ht x _ => ht.trans (hf t x)

/-- The counters of one binding and a snapshot are written. -/
theorem Still.setCounters (s : Database) (id : String) (uplinkBytes downlinkBytes : Nat)
    (snapshots : Table SnapshotKey TrafficSnapshot) :
    Still s { s with
      snapshots
      bindings := s.bindings.modify id fun b => { b with
        lastUplinkBytes := uplinkBytes, lastDownlinkBytes := downlinkBytes } } := by
  refine ⟨rfl, rfl, rfl, fun id' => ?_⟩
  dsimp only
  rw [Table.lookup_modify]
  split
  · next heq =>
    rw [heq, Option.map_map]
    rfl
  · rfl

theorem writeEntries_still (batchKey : BatchKey) (billed : List (Entry × Nat))
    (skipped : List String) (s : Database) : Still s (writeEntries batchKey billed skipped s) := by
  have hfold : Still s ((billed.filter fun p => !p.1.unchanged s).foldl
      (fun t p => writeEntry p.1 t) s) :=
    Still.foldl (fun t p => Still.setCounters t _ _ _ _) _ s
  exact ⟨hfold.nodes, hfold.agents, hfold.jobs, hfold.bindings⟩

theorem resetTraffic_still {subscriptionId : String} {userId : Option String}
    (h : resetTraffic subscriptionId userId s = .ok ((), s')) : Still s s' := by
  obtain ⟨ledger, subscriptions, rfl⟩ := resetTraffic_eq_ok h
  have hstep : ∀ (t : Database) (p : String × Binding), Still t (persistBaseline t p) := by
    intro t p
    unfold persistBaseline
    split
    · exact .refl t
    · dsimp only
      obtain ⟨snapshots, hbaseline⟩ := control_ensureTrafficSnapshotBaseline p.2.snapshotKey
        (if p.2.source = .direct then (p.2.lastUplinkBytes, p.2.lastDownlinkBytes) else (0, 0)).1
        (if p.2.source = .direct then (p.2.lastUplinkBytes, p.2.lastDownlinkBytes) else (0, 0)).2
        true t
      rw [hbaseline]
      exact Still.setCounters t _ _ _ _
  have hfold := Still.foldl hstep (bindingsOf s subscriptionId { userId } [.active, .disabled]) s
  exact ⟨hfold.nodes, hfold.agents, hfold.jobs, hfold.bindings⟩

/-! ## Disables of metering -/

/-- What a disable of metering writes to a binding. -/
def Binding.disabledAt (revision : Nat) (b : Binding) : Binding :=
  { b with status := .disabled, directRevision := revision, directDisableWatermarks := none }

theorem foldl_disableAt (revision : Nat) (bindings : List (String × Binding)) (s : Database) :
    bindings.foldl (disableAt revision) s = { s with
      bindings := bindings.foldl (fun t p => t.modify p.1 (Binding.disabledAt revision))
        s.bindings } := by
  induction bindings generalizing s with
  | nil => rfl
  | cons p rest ih => exact ih _

theorem lookup_foldl_disableAt (revision : Nat) (bindings : List (String × Binding)) (s : Database)
    (id : String) : (bindings.foldl (disableAt revision) s).bindings.lookup id =
      if ∃ p ∈ bindings, p.1 = id then (s.bindings.lookup id).map (Binding.disabledAt revision)
      else s.bindings.lookup id := by
  rw [foldl_disableAt]
  exact Table.lookup_foldl_modify (f := Prod.fst) (g := fun _ => Binding.disabledAt revision)
    (u := Binding.disabledAt revision) (fun _ => rfl) bindings s.bindings fun _ _ _ => rfl

/-- The command of a disable that metering ordered. -/
structure Job.AutoDisables (job : Job) (nodeId agentId : String) (revision : Nat) (id : String) :
    Prop where
  commandType : job.commandType = .disableUser
  bindingId : job.bindingId = id
  payload : job.payload.bindingId = id
  revision : job.targetRevision = revision
  status : job.status = .pending
  nodeId : job.nodeId = nodeId
  agentId : job.agentId = agentId

theorem Job.AutoDisables.of_order {job job' : Job} {nodeId agentId id : String} {revision : Nat}
    (h : job.AutoDisables nodeId agentId revision id) (horder : job'.order = job.order) :
    job'.AutoDisables nodeId agentId revision id := by
  simp only [Job.order, Job.mk.injEq] at horder
  obtain ⟨hnode, hagent, htype, hrevision, hpayload, hid, hstatus, -, -⟩ := horder
  exact ⟨htype.trans h.commandType, hid.trans h.bindingId, hpayload ▸ h.payload,
    hrevision.trans h.revision, hstatus.trans h.status, hnode.trans h.nodeId,
    hagent.trans h.agentId⟩

/-- Disables were ordered for some bindings. -/
structure AutoDisabled (nodeId agentId : String) (revision : Nat) (ids : List String)
    (s t : Database) : Prop where
  others : t = { s with jobs := t.jobs }
  jobs : ∀ key job, s.jobs.lookup key = some job →
    ∃ job', t.jobs.lookup key = some job' ∧ job'.order = job.order
  known : ∀ key job', t.jobs.lookup key = some job' →
    (∃ job, s.jobs.lookup key = some job ∧ job'.order = job.order) ∨
    ∃ id ∈ ids, key = .autoDisable id revision ∧ job'.AutoDisables nodeId agentId revision id
  ordered : ∀ id ∈ ids, ∃ job', t.jobs.lookup (.autoDisable id revision) = some job' ∧
    job'.AutoDisables nodeId agentId revision id

theorem AutoDisabled.step {nodeId agentId : String} {revision : Nat} {ids : List String}
    (h : AutoDisabled nodeId agentId revision ids s s') (p : String × Binding)
    (hfree : s.jobs.lookup (.autoDisable p.1 revision) = none) :
    AutoDisabled nodeId agentId revision (ids ++ [p.1]) s
      (autoDisable nodeId agentId revision s' p) := by
  have hids : ∀ id ∈ ids, id ∈ ids ++ [p.1] := fun _ hid => List.mem_append_left _ hid
  unfold autoDisable
  split
  · next hexists =>
    -- The command is there already, so it was ordered for the same binding.
    obtain ⟨job', hjob'⟩ := Option.isSome_iff_exists.1 hexists
    obtain ⟨job, hjob, -⟩ | ⟨id, hid, hkey, -⟩ := h.known _ job' hjob'
    · rw [hfree] at hjob
      cases hjob
    cases hkey
    refine ⟨h.others, h.jobs, fun key job' hjob' => ?_, fun id' hid' => ?_⟩
    · exact (h.known key job' hjob').imp_right fun ⟨id', hid', hrest⟩ => ⟨id', hids id' hid', hrest⟩
    · rcases List.mem_append.1 hid' with hid' | hid'
      · exact h.ordered id' hid'
      · rw [List.mem_singleton.1 hid']
        exact h.ordered p.1 hid
  · next hnone =>
    rw [Option.not_isSome_iff_eq_none] at hnone
    have hresolved := lookup_resolveExhaustedCommands p.1 .disableUser s'
    refine ⟨by rw [h.others]; rfl, fun key job hjob => ?_, fun key job' hjob' => ?_,
      fun id hid => ?_⟩
    · obtain ⟨job', hjob', horder⟩ := h.jobs key job hjob
      have hne : key ≠ .autoDisable p.1 revision := by
        rintro rfl
        rw [hfree] at hjob
        cases hjob
      dsimp only
      rw [Table.lookup_insert_ite, if_neg hne]
      have hmap := hresolved key
      rw [hjob', Option.map_some] at hmap
      obtain ⟨job'', hjob'', horder'⟩ := Option.map_eq_some_iff.1 hmap
      exact ⟨job'', hjob'', horder'.trans horder⟩
    · dsimp only at hjob'
      rw [Table.lookup_insert_ite] at hjob'
      split at hjob'
      · next heq =>
        cases hjob'
        exact .inr ⟨p.1, List.mem_append_right _ (List.mem_singleton_self _),
          heq, rfl, rfl, rfl, rfl, rfl, rfl, rfl⟩
      · obtain ⟨job₁, hjob₁, horder⟩ := Option.map_eq_some_iff.1
          ((hresolved key).symm.trans (congrArg (Option.map Job.order) hjob'))
        rcases h.known key job₁ hjob₁ with ⟨job, hjob, horder'⟩ | ⟨id, hid, hkey, hauto⟩
        · exact .inl ⟨job, hjob, horder.symm.trans horder'⟩
        · exact .inr ⟨id, hids id hid, hkey, hauto.of_order horder.symm⟩
    · dsimp only
      rw [Table.lookup_insert_ite]
      split
      · next heq =>
        cases heq
        exact ⟨_, rfl, rfl, rfl, rfl, rfl, rfl, rfl, rfl⟩
      · next hne =>
        have hid : id ∈ ids := by
          rcases List.mem_append.1 hid with hid | hid
          · exact hid
          · exact absurd (congrArg (JobKey.autoDisable · revision) (List.mem_singleton.1 hid)) hne
        obtain ⟨job', hjob', hauto⟩ := h.ordered id hid
        have hmap := hresolved (.autoDisable id revision)
        rw [hjob', Option.map_some] at hmap
        obtain ⟨job'', hjob'', horder⟩ := Option.map_eq_some_iff.1 hmap
        exact ⟨job'', hjob'', hauto.of_order horder⟩

theorem AutoDisabled.foldl {nodeId agentId : String} {revision : Nat} {s : Database}
    (bindings : List (String × Binding))
    (hfree : ∀ p ∈ bindings, s.jobs.lookup (.autoDisable p.1 revision) = none) :
    AutoDisabled nodeId agentId revision (bindings.map Prod.fst) s
      (bindings.foldl (autoDisable nodeId agentId revision) s) := by
  have hfold : ∀ (bindings : List (String × Binding)) (ids : List String) (t : Database),
      AutoDisabled nodeId agentId revision ids s t →
      (∀ p ∈ bindings, s.jobs.lookup (.autoDisable p.1 revision) = none) →
      AutoDisabled nodeId agentId revision (ids ++ bindings.map Prod.fst) s
        (bindings.foldl (autoDisable nodeId agentId revision) t) := by
    intro bindings
    induction bindings with
    | nil =>
      intro ids t h _
      simpa using h
    | cons p rest ih =>
      intro ids t h hfree
      have hrest := ih (ids ++ [p.1]) _ (h.step p (hfree p List.mem_cons_self))
        fun q hq => hfree q (List.mem_cons_of_mem _ hq)
      rwa [List.append_assoc] at hrest
  have hstart : AutoDisabled nodeId agentId revision [] s s :=
    ⟨rfl, fun _ job hjob => ⟨job, hjob, rfl⟩, fun _ job hjob => .inl ⟨job, hjob, rfl⟩,
      fun _ hid => by cases hid⟩
  exact hfold bindings [] s hstart hfree

/-- The disables of one node. -/
theorem disableOnNode_commands {currentNodeId currentAgentId nodeId : String}
    {bindings : List (String × Binding)} {agentIds : List String} (h : Orderly s)
    (hcurrent : s.Serves currentAgentId currentNodeId)
    (hbindings : ∀ p ∈ bindings, ∃ b, s.bindings.lookup p.1 = some b ∧ b.nodeId = nodeId ∧
      b.source = .direct)
    (hS : nodeId ≠ currentNodeId → s.agentOf nodeId = none → ∀ p ∈ bindings, S p.1)
    (hrun : disableOnNode currentNodeId currentAgentId nodeId bindings s = .ok (agentIds, s')) :
    Commands S s s' := by
  obtain ⟨revision, s₁, hbump, hrest⟩ := disableOnNode_eq_ok hrun
  obtain ⟨node, hnode, rfl, rfl⟩ := bumpRevision_eq_ok hbump
  have hrows := lookup_foldl_disableAt (node.agentConfigRevision + 1) bindings { s with
    nodes :=
      s.nodes.insert nodeId { node with agentConfigRevision := node.agentConfigRevision + 1 } }
  rw [foldl_disableAt] at hrest hrows
  generalize bindings.foldl (fun t p => t.modify p.1 (Binding.disabledAt
    (node.agentConfigRevision + 1))) s.bindings = rows at hrest hrows
  dsimp only at hrest hrows
  -- The rows of the disabled bindings, and of all others.
  have hdisabled : ∀ p ∈ bindings, ∃ b, s.bindings.lookup p.1 = some b ∧ b.nodeId = nodeId ∧
      b.source = .direct ∧
      rows.lookup p.1 = some (b.disabledAt (node.agentConfigRevision + 1)) := by
    intro p hp
    obtain ⟨b, hb, hbnode, hdirect⟩ := hbindings p hp
    refine ⟨b, hb, hbnode, hdirect, ?_⟩
    rw [hrows, if_pos ⟨p, hp, rfl⟩, hb]
    rfl
  have hothers : ∀ id, (¬∃ p ∈ bindings, p.1 = id) → rows.lookup id = s.bindings.lookup id := by
    intro id hid
    rw [hrows, if_neg hid]
  have hstays : ∀ id b, s.bindings.lookup id = some b → ∃ b',
    rows.lookup id = some b' ∧ b.Stays b' := by
    intro id b hb
    rw [hrows, hb]
    split
    · exact ⟨_, rfl, rfl, fun hdirect => hdirect⟩
    · exact ⟨b, rfl, rfl, fun hdirect => hdirect⟩
  have hnamed : ∀ id b', rows.lookup id = some b' → id ≠ "" := by
    intro id b' hb'
    rw [hrows] at hb'
    split at hb'
    · obtain ⟨b, hb, -⟩ := Option.map_eq_some_iff.1 hb'
      exact h.named id b hb
    · exact h.named id b' hb'
  have hnodes : ∀ nodeId' node', s.nodes.lookup nodeId' = some node' → ∃ node'',
      (s.nodes.insert nodeId { node with
        agentConfigRevision := node.agentConfigRevision + 1 }).lookup nodeId' = some node'' ∧
      node'.agentConfigRevision ≤ node''.agentConfigRevision := by
    intro nodeId' node' hnode'
    rw [Table.lookup_insert_ite]
    split
    · next heq =>
      rw [heq, hnode] at hnode'
      cases hnode'
      exact ⟨_, rfl, Nat.le_succ _⟩
    · exact ⟨node', hnode', le_refl _⟩
  have hmono : ∀ id b, s.bindings.lookup id = some b → ∃ b', rows.lookup id = some b' ∧
      b'.nodeId = b.nodeId := fun id b hb => (hstays id b hb).imp fun b' h => ⟨h.1, h.2.nodeId⟩
  rcases hrest with ⟨rfl, hother, hnone⟩ | ⟨agentId, rfl, hagent⟩
  · refine ⟨⟨hnamed, fun key job hjob => ?_⟩, rfl, fun key job hjob => ⟨job, hjob, rfl⟩, hstays,
      fun id => ?_⟩
    · exact (h.filed key job hjob).mono rfl hmono hnodes
    · by_cases hid : ∃ p ∈ bindings, p.1 = id
      · obtain ⟨p, hp, rfl⟩ := hid
        obtain ⟨b, -, hbnode, -, hrow⟩ := hdisabled p hp
        exact .inr (.inr ⟨hS hother hnone p hp, _, hrow, rfl, rfl,
          (congrArg s.agentOf hbnode).trans hnone⟩)
      · exact .inl (by rw [hothers id hid])
  · have hserves : s.Serves agentId nodeId := by
      split at hagent
      · next heq =>
        cases hagent
        exact heq ▸ hcurrent
      · exact Database.agentOf_eq_some hagent
    have hfree : ∀ p ∈ bindings,
        s.jobs.lookup (.autoDisable p.1 (node.agentConfigRevision + 1)) = none := by
      intro p hp
      obtain ⟨b, hb, hbnode, -⟩ := hbindings p hp
      exact h.lookup_next hb (hbnode ▸ hnode) rfl
    have hauto : AutoDisabled nodeId agentId (node.agentConfigRevision + 1) (bindings.map Prod.fst)
        { s with
          nodes :=
            s.nodes.insert nodeId { node with agentConfigRevision := node.agentConfigRevision + 1 }
          bindings := rows } _ := AutoDisabled.foldl bindings hfree
    generalize bindings.foldl _ _ = t at hauto ⊢
    obtain ⟨hothers', hjobs, hknown, hordered⟩ := hauto
    generalize t.jobs = jobs at *
    subst hothers'
    refine ⟨⟨hnamed, fun key job' hjob' => ?_⟩, rfl, hjobs, hstays, fun id => ?_⟩
    · rcases hknown key job' hjob' with ⟨job, hjob, horder⟩ | ⟨id, hid, rfl, hjob⟩
      · exact (h.filed key job hjob).mono horder hmono hnodes
      · obtain ⟨p, hp, rfl⟩ := List.mem_map.1 hid
        obtain ⟨b, -, hbnode, -, hrow⟩ := hdisabled p hp
        refine ⟨hjob.bindingId.symm, hjob.revision.symm, ⟨_, hjob.bindingId ▸ hrow, ?_⟩,
          { node with agentConfigRevision := node.agentConfigRevision + 1 }, ?_, hjob.revision.le⟩
        · exact hbnode.trans hjob.nodeId.symm
        · rw [hjob.nodeId]
          exact AList.lookup_insert ..
    · by_cases hid : ∃ p ∈ bindings, p.1 = id
      · obtain ⟨p, hp, rfl⟩ := hid
        obtain ⟨b, -, hbnode, hdirect, hrow⟩ := hdisabled p hp
        obtain ⟨job, hlookup, hjob⟩ := hordered p.1 (List.mem_map_of_mem hp)
        refine .inr (.inl ⟨b.disabledAt (node.agentConfigRevision + 1), .disableUser,
          .autoDisable p.1 (node.agentConfigRevision + 1), job, hrow, hdirect, rfl, ?_,
          .inr ⟨rfl, rfl⟩⟩)
        refine ⟨hlookup, hjob.commandType, hjob.bindingId, hjob.payload, hjob.revision, hjob.status,
          hjob.nodeId.trans hbnode.symm, ?_⟩
        rw [hjob.agentId]
        exact hbnode ▸ hserves
      · exact .inl (by rw [hothers id hid])

/-- Metering on a node may disable the binding, and its own node has no agent to tell: it is an
active one on another node, of a subscription that has a binding on the first. -/
def Database.Strandable (s : Database) (nodeId id : String) : Prop :=
  ∃ b id₀ b₀, s.bindings.lookup id = some b ∧ b.source = .direct ∧ b.status = .active ∧
    b.nodeId ≠ nodeId ∧ s.agentOf b.nodeId = none ∧ s.bindings.lookup id₀ = some b₀ ∧
    b₀.nodeId = nodeId ∧ b₀.source = .direct ∧ b₀.subscriptionId = b.subscriptionId

/-- A batch leaves the commands alone, and orders the disables of the exhausted subscriptions. -/
theorem applyDirectBatch_commands {agentId : String} {key : BatchKey} {sampledAt : Nat}
    {samples : List UsageSample} {applied : Application} (h : Orderly s)
    (hagent : s.Serves agentId key.nodeId)
    (hrun : applyDirectBatch agentId key sampledAt samples s = .ok (applied, s')) :
    Commands (s.Strandable key.nodeId) s s' := by
  rcases applyDirectBatch_eq_ok hrun with rfl |
    ⟨entries, skipped, billed, disabled, subscriptions, ledger, agentIds, -, hprepare, -, hdisabled,
      -, hdisable⟩
  · exact .refl h
  obtain ⟨-, hentries, -⟩ := prepareSamples_eq_ok hprepare
  have hstill := writeEntries_still key billed skipped s
  have hwritten : Commands (s.Strandable key.nodeId) s
      { writeEntries key billed skipped s with subscriptions, ledger } :=
    .of_still h ⟨hstill.nodes, hstill.agents, hstill.jobs, hstill.bindings⟩
  refine (disableDirectBindings_induct (I := fun t => Commands (s.Strandable key.nodeId) s t ∧
    Commands (s.Strandable key.nodeId)
      { writeEntries key billed skipped s with subscriptions, ledger } t) ?_
    ⟨hwritten, .refl hwritten.orderly⟩ hdisable).1
  rintro t t' nodeId bindings agentIds' hbindings ⟨ht, hrest⟩ hnode
  have hstep : Commands (s.Strandable key.nodeId) t t' := by
    refine disableOnNode_commands ht.orderly (hagent.of_agents ht.agents) (fun p hp => ?_)
      (fun hother hnone p hp => ?_) hnode
    · obtain ⟨hp, hpnode, hdirect, -⟩ := hbindings p hp
      obtain ⟨b, hb, hstays⟩ := hrest.stays p.1 p.2 hp
      exact ⟨b, hb, hstays.nodeId.trans hpnode, hstays.direct hdirect⟩
    · obtain ⟨hp, hpnode, hdirect, hactive, hsub⟩ := hbindings p hp
      obtain ⟨b, hb, hcontrol⟩ := control_eq hp (hstill.bindings p.1)
      obtain ⟨e, he, hesub⟩ := hdisabled _ hsub
      obtain ⟨hebinding, henode, hedirect⟩ := hentries e he
      simp only [Binding.control, Binding.mk.injEq] at hcontrol
      obtain ⟨hbsub, -, -, hbnode, -, -, -, -, hbstatus, hbsource, -⟩ := hcontrol
      have hagentOf : s.agentOf b.nodeId = none := by
        rw [← hbnode, hpnode]
        unfold Database.agentOf at hnone ⊢
        rwa [ht.agents] at hnone
      exact ⟨b, _, _, hb, hbsource ▸ hdirect, hbstatus ▸ hactive, hbnode ▸ hpnode ▸ hother,
        hagentOf, hebinding, henode, hedirect, hesub.trans hbsub⟩
  exact ⟨ht.trans hstep, hrest.trans hstep⟩

/-- No binding is created or activated, and none changes its place. -/
structure Dims (s s' : Database) : Prop where
  agents : s'.agents = s.agents
  bindings : ∀ id b', s'.bindings.lookup id = some b' → ∃ b, s.bindings.lookup id = some b ∧
    b'.nodeId = b.nodeId ∧ b'.subscriptionId = b.subscriptionId ∧ b'.source = b.source ∧
    (b'.status = .active → b.status = .active)

theorem Dims.trans (h : Dims s s') (h' : Dims s' s'') : Dims s s'' := by
  refine ⟨h'.agents.trans h.agents, fun id b'' hb'' => ?_⟩
  obtain ⟨b', hb', hnode', hsub', hsource', hactive'⟩ := h'.bindings id b'' hb''
  obtain ⟨b, hb, hnode, hsub, hsource, hactive⟩ := h.bindings id b' hb'
  exact ⟨b, hb, hnode'.trans hnode, hsub'.trans hsub, hsource'.trans hsource, hactive ∘ hactive'⟩

theorem Still.dims (h : Still s s') : Dims s s' := by
  refine ⟨h.agents, fun id b' hb' => ?_⟩
  obtain ⟨b, hb, hcontrol⟩ := control_eq hb' (h.bindings id)
  simp only [Binding.control, Binding.mk.injEq] at hcontrol
  obtain ⟨hsub, -, -, hnode, -, -, -, -, hstatus, hsource, -⟩ := hcontrol
  exact ⟨b, hb, hnode, hsub, hsource, fun hactive => hstatus ▸ hactive⟩

theorem autoDisable_bindings (nodeId agentId : String) (revision : Nat) (s : Database)
    (p : String × Binding) :
    (autoDisable nodeId agentId revision s p).bindings = s.bindings ∧
      (autoDisable nodeId agentId revision s p).agents = s.agents := by
  unfold autoDisable
  split
  · exact ⟨rfl, rfl⟩
  · exact ⟨rfl, rfl⟩

theorem disableOnNode_dims {currentNodeId currentAgentId nodeId : String}
    {bindings : List (String × Binding)} {agentIds : List String}
    (h : disableOnNode currentNodeId currentAgentId nodeId bindings s = .ok (agentIds, s')) :
    Dims s s' := by
  obtain ⟨revision, s₁, hbump, hrest⟩ := disableOnNode_eq_ok h
  have hbumped : s₁.bindings = s.bindings ∧ s₁.agents = s.agents := by
    obtain ⟨node, -, -, rfl⟩ := bumpRevision_eq_ok hbump
    exact ⟨rfl, rfl⟩
  have hdisabled : Dims s (bindings.foldl (disableAt revision) s₁) := by
    refine ⟨by rw [foldl_disableAt]; exact hbumped.2, fun id b' hb' => ?_⟩
    rw [lookup_foldl_disableAt, hbumped.1] at hb'
    split at hb'
    · obtain ⟨b, hb, rfl⟩ := Option.map_eq_some_iff.1 hb'
      exact ⟨b, hb, rfl, rfl, rfl, fun hactive => by cases hactive⟩
    · exact ⟨b', hb', rfl, rfl, rfl, fun hactive => hactive⟩
  rcases hrest with ⟨rfl, -⟩ | ⟨agentId, rfl, -⟩
  · exact hdisabled
  · refine List.foldlRecOn (motive := fun t => Dims s t) bindings
      (autoDisable nodeId agentId revision) hdisabled fun t ht p _ => ?_
    obtain ⟨hbindings, hagents⟩ := autoDisable_bindings nodeId agentId revision t p
    exact ⟨hagents.trans ht.agents, hbindings ▸ ht.bindings⟩

theorem applyDirectBatch_dims {agentId : String} {key : BatchKey} {sampledAt : Nat}
    {samples : List UsageSample} {applied : Application}
    (h : applyDirectBatch agentId key sampledAt samples s = .ok (applied, s')) : Dims s s' := by
  rcases applyDirectBatch_eq_ok h with rfl |
    ⟨entries, skipped, billed, disabled, subscriptions, ledger, agentIds, -, -, -, -, -, hdisable⟩
  · exact (Still.refl _).dims
  have hwritten : Dims s { writeEntries key billed skipped s with subscriptions, ledger } := by
    have hstill := writeEntries_still key billed skipped s
    exact Still.dims ⟨hstill.nodes, hstill.agents, hstill.jobs, hstill.bindings⟩
  exact disableDirectBindings_induct (I := fun t => Dims s t)
    (fun _ _ _ _ _ _ ht hnode => ht.trans (disableOnNode_dims hnode)) hwritten hdisable

/-- A node without a chosen agent has no agent that serves it. -/
theorem Database.agentOf_eq_none {nodeId : String} :
    s.agentOf nodeId = none ↔ ∀ agentId, ¬s.Serves agentId nodeId := by
  unfold agentOf
  simp only [Option.map_eq_none_iff, List.head?_eq_none_iff]
  constructor
  · rintro hnone agentId ⟨agent, hagent, hnode, hlive⟩
    have hmem : (agentId, agent) ∈ (s.agents.pairs.filter fun p =>
        p.2.nodeId = nodeId && !p.2.revoked).insertionSort fun p q => p.2.before q.2 := by
      rw [List.mem_insertionSort, List.mem_filter]
      exact ⟨Table.mem_pairs.2 hagent, by simp [hnode, hlive]⟩
    rw [hnone] at hmem
    cases hmem
  · intro hnone
    rw [List.eq_nil_iff_forall_not_mem]
    rintro ⟨agentId, agent⟩ hmem
    rw [List.mem_insertionSort, List.mem_filter] at hmem
    simp only [Bool.and_eq_true, decide_eq_true_eq, Bool.not_eq_true'] at hmem
    exact hnone agentId ⟨agent, Table.mem_pairs.1 hmem.1, hmem.2.1, hmem.2.2⟩

/-- Nothing becomes strandable, if no agent leaves. -/
theorem Database.Strandable.dims {nodeId id : String} (h : s'.Strandable nodeId id)
    (hbindings : ∀ id b', s'.bindings.lookup id = some b' → ∃ b, s.bindings.lookup id = some b ∧
      b'.nodeId = b.nodeId ∧ b'.subscriptionId = b.subscriptionId ∧ b'.source = b.source ∧
      (b'.status = .active → b.status = .active))
    (hagents : ∀ agentId nodeId, s.Serves agentId nodeId → s'.Serves agentId nodeId) :
    s.Strandable nodeId id := by
  obtain ⟨b', id₀, b₀', hb', hdirect, hactive, hother, hnone, hb₀', hnode₀, hdirect₀, hshare⟩ := h
  obtain ⟨b, hb, hnode, hsub, hsource, hwas⟩ := hbindings id b' hb'
  obtain ⟨b₀, hb₀, hbnode₀, hsub₀, hsource₀, -⟩ := hbindings id₀ b₀' hb₀'
  refine ⟨b, id₀, b₀, hb, hsource ▸ hdirect, hwas hactive, hnode ▸ hother, ?_, hb₀,
    hbnode₀ ▸ hnode₀, hsource₀ ▸ hdirect₀, ?_⟩
  · rw [agentOf_eq_none] at hnone ⊢
    intro agentId hserves
    exact hnone agentId (hnode ▸ hagents agentId b.nodeId hserves)
  · rw [← hsub₀, hshare, hsub]

end Commands

end ChordV.Api
