import ChordV.Agent.Identity
import ChordV.Api.Inbounds

/-!
# Registration of an agent at the control plane

`apps/api/src/modules/agent/agent-register.service.ts`, and the two functions of
`agent.service.ts` that make and revoke the credentials of an agent.

* Each function is one serializable transaction, so it is a function on `Server`.  A
  serialization failure that outlasts the retries leaves nothing behind.
* `NodeAgent.tokenHash` and `AgentRegisterToken.tokenHash` are unique columns and the keys of
  their tables.  `NodeAgent.agentId` and the dedupe key of the first job are unique too.
* `hashAgentToken` stands for the SHA-256 of a token with the pepper of the deployment.
* A stored `onboardingSpec` has passed `normalizePanelInbound`, which returns it as it is.
-/

namespace ChordV.Api.Registration

open Lib Fallible Inbounds Agent.Identity

/-! ## Rows -/

/-- `NodeRegistrationStatus`. -/
inductive RegistrationStatus where
  | pendingRegister
  | agentReady
  deriving DecidableEq, Repr

/-- `onboardingSpec`, with its `activateOnFirstValidation`. -/
inductive OnboardingSpec where
  | awaitingPanel (activate : Bool)
  | panel (spec : PanelInboundSpec) (activate : Bool)
  deriving DecidableEq, Repr

/-- Whether the node is to be activated. -/
def OnboardingSpec.activate : OnboardingSpec → Bool
  | .awaitingPanel activate | .panel _ activate => activate

/-- What a registration reads and writes of a node. -/
structure Node where
  registrationStatus : Option RegistrationStatus
  onboardingSpec : Option OnboardingSpec
  agentConfigRevision : Nat := 0
  agentLastSeenAt : Option Nat := none
  deriving DecidableEq, Repr

/-- A token of the installer; only its digest is stored. -/
structure AgentRegisterToken where
  nodeId : Word
  expiresAt : Nat
  usedAt : Option Nat := none
  deriving DecidableEq

/-- The agent of a node. -/
structure NodeAgent where
  agentId : Word
  nodeId : Word
  version : Option String := none
  bootId : Option String := none
  lastSeenAt : Option Nat := none
  revokedAt : Option Nat := none
  deriving DecidableEq

/-- The `ENSURE_INBOUND` job that a registration queues, by its node. -/
structure OnboardingJob where
  tokenHash : String
  targetRevision : Nat
  payload : PanelInboundSpec
  deriving DecidableEq

/-- The tables of the panel. -/
structure Server where
  nodes : Table Word Node := ∅
  tokens : Table String AgentRegisterToken := ∅
  agents : Table String NodeAgent := ∅
  jobs : Table Word OnboardingJob := ∅
  now : Nat := 0

/-! ## Requests -/

/-- What the host says about itself. -/
structure HostDetails where
  hostname : String
  arch : String
  agentVersion : String
  xrayInboundTag : Option String
  bootId : String
  deriving DecidableEq, Repr

/-- The body of a registration. -/
structure AgentRegisterDto where
  registerToken : String
  agentToken : String
  details : HostDetails
  deriving DecidableEq, Repr

/-- `@IsNotEmpty() @MaxLength(n)`. -/
def filled (n : Nat) (s : String) : Bool := s ≠ "" && s.length ≤ n

/-- `^[A-Za-z0-9_-]{1,32}$`. -/
def inboundTagPattern (s : String) : Bool :=
  1 ≤ s.length && s.length ≤ 32 && s.toList.all isTokenChar

/-- The checks of the body, but for the two tokens. -/
def HostDetails.valid (details : HostDetails) : Bool :=
  filled 255 details.hostname && ["linux-x64", "linux-arm64"].contains details.arch &&
    filled 64 details.agentVersion && details.xrayInboundTag.all inboundTagPattern &&
    filled 128 details.bootId

/-- The validators of `AgentRegisterDto`. -/
def AgentRegisterDto.valid (input : AgentRegisterDto) : Bool :=
  filled 128 input.registerToken && agentTokenPattern input.agentToken && input.details.valid

/-- What a registration answers. -/
structure Registered where
  agentId : Word
  nodeId : Word
  replay : Bool
  deriving DecidableEq

/-! ## Transactions -/

section

variable (hashAgentToken : String → String)

namespace Server

/-- The node has an agent that is not revoked. -/
def hasAgent (s : Server) (nodeId : Word) : Bool :=
  s.agents.pairs.any fun p => p.2.nodeId = nodeId && p.2.revokedAt.isNone

/-- The specification that a new agent has to validate, with the tag that the installer found. -/
def confirmedSpec (spec : Option OnboardingSpec) (details : HostDetails) :
    Except String (Option PanelInboundSpec) :=
  match spec with
  | none => .ok none
  | some (.awaitingPanel _) =>
    if details.agentVersion.startsWith "go-" then .ok none
    else .error "此节点需要 Go agent，不能使用旧 Node 安装器注册"
  | some (.panel spec _) =>
    if details.agentVersion.startsWith "go-" then
      match details.xrayInboundTag with
      | some tag =>
        if !inboundTagPattern tag then .error "缺少安装器核实的实际入站 tag，请使用新版 Go 接入命令"
        else if spec.tagOverrideConfirmed ∧ spec.inboundTag ≠ tag then
          .error "Agent 实际 tag 与手工确认的目标不一致"
        else .ok (some { spec with inboundTag := tag, tagOverrideConfirmed := true })
      | none => .error "缺少安装器核实的实际入站 tag，请使用新版 Go 接入命令"
    else .error "此节点需要 Go agent，不能使用旧 Node 安装器注册"

/-- The rows that a registration writes. -/
def commit (s : Server) (record : AgentRegisterToken) (node : Node)
    (spec : Option PanelInboundSpec) (input : AgentRegisterDto) (agentId : Word) : Server :=
  let revision := if spec.isSome then node.agentConfigRevision + 1 else node.agentConfigRevision
  { s with
    agents := s.agents.insert (hashAgentToken input.agentToken)
      { agentId, nodeId := record.nodeId, version := some input.details.agentVersion
        bootId := some input.details.bootId, lastSeenAt := some s.now }
    tokens := s.tokens.insert (hashAgentToken input.registerToken)
      { record with usedAt := some s.now }
    nodes := s.nodes.insert record.nodeId
      { registrationStatus := some .agentReady
        onboardingSpec :=
          match spec with
          | some spec => some (.panel spec (node.onboardingSpec.any OnboardingSpec.activate))
          | none => node.onboardingSpec
        agentConfigRevision := revision
        agentLastSeenAt := some s.now }
    jobs :=
      match spec with
      | some spec =>
        s.jobs.insert record.nodeId ⟨hashAgentToken input.agentToken, revision, spec⟩
      | none => s.jobs }

/-- `registerOnce`, with the random `agentId` of a new agent. -/
def registerOnce (s : Server) (input : AgentRegisterDto) (agentId : Word) :
    Except String (Server × Registered) :=
  match s.tokens.lookup (hashAgentToken input.registerToken) with
  | none => .error "注册令牌无效"
  | some record =>
    match s.nodes.lookup record.nodeId with
    | none => .error "注册令牌对应的节点不存在"
    | some node => do
      let holder := s.agents.lookup (hashAgentToken input.agentToken)
      require (holder.all fun agent => agent.nodeId = record.nodeId)
        "Agent 凭据已绑定其他节点，不能跨节点复用"
      match holder.filter (·.revokedAt.isNone), record.usedAt with
      | some existing, some _ =>
        -- A replay proves that it holds the credential, so it is answered after the expiry too.
        return (s, ⟨existing.agentId, record.nodeId, true⟩)
      | _, _ =>
        require (s.now < record.expiresAt) "注册令牌已过期"
        require (s.hasAgent record.nodeId = false) "该节点已存在有效 Agent，注册令牌不可复用"
        require record.usedAt.isNone "注册令牌已被使用"
        require (node.registrationStatus = some .pendingRegister)
          "节点不处于待注册状态，不能签发 Agent 凭据"
        let spec ← confirmedSpec node.onboardingSpec input.details
        require (holder.isNone ∧ ∀ p ∈ s.agents.pairs, p.2.agentId ≠ agentId)
          "Unique constraint failed"
        require (spec.isNone ∨ (s.jobs.lookup record.nodeId).isNone) "Unique constraint failed"
        return (s.commit hashAgentToken record node spec input agentId,
          ⟨agentId, record.nodeId, false⟩)

/-- The part of `createAgentNode` that stores rows. -/
def createAgentNode (s : Server) (nodeId : Word) (spec : OnboardingSpec) (token : String)
    (ttl : Nat) : Server :=
  if (s.nodes.lookup nodeId).isNone ∧ (s.tokens.lookup (hashAgentToken token)).isNone then
    { s with
      nodes := s.nodes.insert nodeId
        { registrationStatus := some .pendingRegister, onboardingSpec := some spec }
      tokens := s.tokens.insert (hashAgentToken token)
        { nodeId, expiresAt := s.now + ttl } }
  else s

/-- `issueRegisterTokenOnce`: the open tokens of the node are used up and a new one is stored. -/
def issueRegisterToken (s : Server) (nodeId : Word) (token : String) (ttl : Nat) :
    Except String Server :=
  match s.nodes.lookup nodeId with
  | none => .error "节点不存在"
  | some node => do
    require (node.registrationStatus = some .pendingRegister)
      "仅待注册（pending_register）节点可生成注册令牌"
    require (s.hasAgent nodeId = false) "该节点存在历史 Agent 凭据，与 Agent 原生注册流程冲突"
    require (s.tokens.lookup (hashAgentToken token)).isNone "Unique constraint failed"
    let tokens := s.tokens.updateWhere
      (fun _ record => record.nodeId = nodeId ∧ record.usedAt.isNone)
      fun record => { record with usedAt := some s.now }
    return { s with
      tokens := tokens.insert (hashAgentToken token) { nodeId, expiresAt := s.now + ttl } }

/-- `revokeCredential`. -/
def revokeCredential (s : Server) (nodeId : Word) (tokenHash : String) : Server :=
  { s with
    agents := s.agents.updateWhere
      (fun hash agent => hash = tokenHash ∧ agent.nodeId = nodeId ∧ agent.revokedAt.isNone)
      fun agent => { agent with revokedAt := some s.now } }

/-- `createCredential`: the agents of the node are revoked and a new one is stored. -/
def createCredential (s : Server) (nodeId agentId : Word) (token : String) : Except String Server :=
  match s.nodes.lookup nodeId with
  | none => .error "节点不存在"
  | some _ => do
    require ((s.agents.lookup (hashAgentToken token)).isNone ∧
      ∀ p ∈ s.agents.pairs, p.2.agentId ≠ agentId) "Unique constraint failed"
    let agents := s.agents.updateWhere
      (fun _ agent => agent.nodeId = nodeId ∧ agent.revokedAt.isNone)
      fun agent => { agent with revokedAt := some s.now }
    return { s with agents := agents.insert (hashAgentToken token) { agentId, nodeId } }

/-! ## What a registration does -/

variable {hashAgentToken} {s s' : Server} {input : AgentRegisterDto} {agentId : Word}

/-- A registration that succeeds is a replay, or it spends the token and creates the agent. -/
theorem registerOnce_cases {r : Registered}
    (h : s.registerOnce hashAgentToken input agentId = .ok (s', r)) :
    ∃ record node, s.tokens.lookup (hashAgentToken input.registerToken) = some record ∧
      s.nodes.lookup record.nodeId = some node ∧
      ((s' = s ∧ record.usedAt.isSome = true ∧
        ∃ existing, s.agents.lookup (hashAgentToken input.agentToken) = some existing ∧
          existing.nodeId = record.nodeId ∧ r = ⟨existing.agentId, record.nodeId, true⟩) ∨
      (record.usedAt = none ∧ s.agents.lookup (hashAgentToken input.agentToken) = none ∧
        ∃ spec, s' = s.commit hashAgentToken record node spec input agentId ∧
          r = ⟨agentId, record.nodeId, false⟩)) := by
  rw [registerOnce] at h
  split at h
  · cases h
  · next record hrecord =>
    split at h
    · cases h
    · next node hnode =>
      refine ⟨record, node, hrecord, hnode, ?_⟩
      simp only [bind_eq_ok, require_eq_ok] at h
      obtain ⟨-, hhere, h⟩ := h
      split at h
      · next existing used hexisting hused =>
        cases h
        rw [Option.filter_eq_some_iff] at hexisting
        obtain ⟨hholder, -⟩ := hexisting
        rw [hholder] at hhere
        exact .inl ⟨rfl, by rw [hused]; rfl, existing, hholder, by simpa using hhere, rfl⟩
      · simp only [bind_eq_ok, require_eq_ok] at h
        obtain ⟨-, -, -, -, -, hunused, -, -, spec, -, -, ⟨hnew, -⟩, -, -, h⟩ := h
        cases h
        exact .inr ⟨Option.isNone_iff_eq_none.1 hunused, Option.isNone_iff_eq_none.1 hnew, spec,
          rfl, rfl⟩

/-- A token that was spent on an agent is answered with that agent as long as it is not
revoked. -/
theorem registerOnce_replay {record : AgentRegisterToken} {node : Node} {agent : NodeAgent}
    (hrecord : s.tokens.lookup (hashAgentToken input.registerToken) = some record)
    (hnode : s.nodes.lookup record.nodeId = some node)
    (hagent : s.agents.lookup (hashAgentToken input.agentToken) = some agent)
    (hhere : agent.nodeId = record.nodeId) (hlive : agent.revokedAt = none)
    (hused : record.usedAt.isSome = true) :
    s.registerOnce hashAgentToken input agentId =
      .ok (s, ⟨agent.agentId, record.nodeId, true⟩) := by
  obtain ⟨used, hused⟩ := Option.isSome_iff_exists.1 hused
  have hfilter : (some agent).filter (·.revokedAt.isNone) = some agent := by
    simp [Option.filter, hlive]
  simp only [registerOnce, hrecord, hnode, hagent, hfilter, hused]
  rw [show require ((some agent).all fun a => decide (a.nodeId = record.nodeId))
    "Agent 凭据已绑定其他节点，不能跨节点复用" = Except.ok () from require_eq_ok.2 (by simpa using hhere)]
  rfl

/-! ## What every transaction keeps -/

/-- Agents, tokens and nodes stay.  An agent keeps its id and its node, a token its node, and a
token that was used stays used. -/
structure Grows (s s' : Server) : Prop where
  agents : ∀ hash agent, s.agents.lookup hash = some agent → ∃ agent',
    s'.agents.lookup hash = some agent' ∧ agent'.agentId = agent.agentId ∧
      agent'.nodeId = agent.nodeId
  tokens : ∀ hash record, s.tokens.lookup hash = some record → ∃ record',
    s'.tokens.lookup hash = some record' ∧ record'.nodeId = record.nodeId ∧
      (record.usedAt.isSome = true → record'.usedAt.isSome = true)
  nodes : ∀ nodeId, (s.nodes.lookup nodeId).isSome = true →
    (s'.nodes.lookup nodeId).isSome = true

namespace Grows

theorem refl (s : Server) : Grows s s where
  agents := fun _ agent hagent => ⟨agent, hagent, rfl, rfl⟩
  tokens := fun _ record hrecord => ⟨record, hrecord, rfl, fun h => h⟩
  nodes := fun _ h => h

theorem nodes_insert {nodes : Table Word Node} {nodeId nodeId' : Word} {node : Node}
    (h : (nodes.lookup nodeId').isSome = true) :
    ((nodes.insert nodeId node).lookup nodeId').isSome = true := by
  rw [Table.lookup_insert_ite]
  split
  · rfl
  · exact h

theorem register {r : Registered}
    (h : s.registerOnce hashAgentToken input agentId = .ok (s', r)) : Grows s s' := by
  obtain ⟨record, node, hrecord, hnode, ⟨rfl, -⟩ | ⟨-, hnew, spec, rfl, -⟩⟩ :=
    registerOnce_cases h
  · exact refl s'
  · refine ⟨fun hash agent hagent => ⟨agent, ?_, rfl, rfl⟩, fun hash record' hrecord' => ?_,
      fun nodeId hsome => nodes_insert hsome⟩
    · have hne : hash ≠ hashAgentToken input.agentToken := by
        rintro rfl
        rw [hnew] at hagent
        cases hagent
      exact (AList.lookup_insert_ne hne).trans hagent
    · simp only [commit, Table.lookup_insert_ite]
      split
      · next heq =>
        rw [heq, hrecord] at hrecord'
        cases hrecord'
        exact ⟨_, rfl, rfl, fun _ => rfl⟩
      · exact ⟨record', hrecord', rfl, fun h => h⟩

theorem createAgentNode (nodeId : Word) (spec : OnboardingSpec) (token : String) (ttl : Nat) :
    Grows s (s.createAgentNode hashAgentToken nodeId spec token ttl) := by
  rw [Server.createAgentNode]
  split
  · next hnew =>
    refine ⟨fun hash agent hagent => ⟨agent, hagent, rfl, rfl⟩, fun hash record hrecord => ?_,
      fun nodeId hsome => nodes_insert hsome⟩
    have hne : hash ≠ hashAgentToken token := by
      rintro rfl
      rw [hrecord] at hnew
      exact absurd hnew.2 Bool.false_ne_true
    exact ⟨record, (AList.lookup_insert_ne hne).trans hrecord, rfl, fun h => h⟩
  · exact refl s

theorem issueRegisterToken {nodeId : Word} {token : String} {ttl : Nat}
    (h : s.issueRegisterToken hashAgentToken nodeId token ttl = .ok s') : Grows s s' := by
  rw [Server.issueRegisterToken] at h
  split at h
  · cases h
  · simp only [bind_eq_ok, require_eq_ok] at h
    obtain ⟨-, -, -, -, -, hnew, h⟩ := h
    cases h
    refine ⟨fun hash agent hagent => ⟨agent, hagent, rfl, rfl⟩, fun hash record hrecord => ?_,
      fun nodeId hsome => hsome⟩
    have hne : hash ≠ hashAgentToken token := by
      rintro rfl
      rw [hrecord] at hnew
      exact absurd hnew Bool.false_ne_true
    refine ⟨_, (AList.lookup_insert_ne hne).trans
      ((Table.lookup_updateWhere _ _ _ hash).trans (by rw [hrecord, Option.map_some])), ?_, ?_⟩
    · split <;> rfl
    · intro hused
      split
      · rfl
      · exact hused

/-- Agents are revoked. -/
theorem revoke (p : String → NodeAgent → Bool) (now : Nat) :
    Grows s
      { s with
        agents := s.agents.updateWhere p fun agent => { agent with revokedAt := some now } } := by
  refine ⟨fun hash agent hagent => ?_, (refl s).tokens, (refl s).nodes⟩
  refine ⟨_, (Table.lookup_updateWhere _ _ _ hash).trans (by rw [hagent, Option.map_some]), ?_, ?_⟩
  · split <;> rfl
  · split <;> rfl

theorem createCredential {nodeId : Word} {token : String}
    (h : s.createCredential hashAgentToken nodeId agentId token = .ok s') : Grows s s' := by
  rw [Server.createCredential] at h
  split at h
  · cases h
  · simp only [bind_eq_ok, require_eq_ok] at h
    obtain ⟨-, ⟨hnew, -⟩, h⟩ := h
    cases h
    refine ⟨fun hash agent hagent => ?_, (refl s).tokens, (refl s).nodes⟩
    have hne : hash ≠ hashAgentToken token := by
      rintro rfl
      rw [hagent] at hnew
      exact absurd hnew Bool.false_ne_true
    obtain ⟨agent', hagent', hsame⟩ := (revoke (s := s)
      (fun _ agent => agent.nodeId = nodeId ∧ agent.revokedAt.isNone) s.now).agents
      hash agent hagent
    exact ⟨agent', (AList.lookup_insert_ne hne).trans hagent', hsame⟩

end Grows

end Server

end

end ChordV.Api.Registration
