import ChordV.Agent.IdentityReset
import ChordV.Api.AgentRegister

/-!
# An agent registers with its control plane

The host of `ChordV.Agent.Identity` and the server of `ChordV.Api.AgentRegister` in one machine.
The host resolves its identity with one register token, over any number of starts.

* A request that went out can reach the server at any later time, any number of times or never,
  and so can an answer reach the host.  A process that died leaves its requests behind, so
  attempts race at the server.
* Two processes do not race on the host: `AcquireProcessLock` comes before `Resolve`.
* Other hosts register with other tokens, and administrators issue tokens, make and revoke
  credentials and change nodes at any time.  No node is deleted.
-/

namespace ChordV.Api.Registration

open Lib Lib.Machine Agent.Identity

/-! ## The machine -/

/-- The last field is no part of it: it records the hashes of the agents that were created for
the register token. -/
structure World where
  host : Host := {}
  server : Server := {}
  requests : Table Nat AgentRegisterDto := ∅
  sent : Nat := 0
  answers : List (Nat × Registered) := []
  created : List String := []

/-- What happens between the agent and the panel. -/
inductive Event where
  | start (resetIdentity : Bool)
  | crash
  /-- The next statement of the agent, with the clock, a random secret and what the host says
  about itself. -/
  | advance (now : Int) (secret : AgentToken) (details : HostDetails)
  /-- The server runs the transaction of a request. -/
  | process (request : Nat) (agentId : Word)
  /-- The answer to a request reaches the host. -/
  | deliver (request : Nat) (answer : Registered)
  /-- Another host registers with another token. -/
  | register (input : AgentRegisterDto) (agentId : Word)
  | createAgentNode (nodeId : Word) (spec : OnboardingSpec) (token : String) (ttl : Nat)
  | issueRegisterToken (nodeId : Word) (token : String) (ttl : Nat)
  | revokeCredential (nodeId : Word) (tokenHash : String)
  | createCredential (nodeId agentId : Word) (token : String)
  | updateNode (nodeId : Word) (node : Node)
  | tick (seconds : Nat)

section

variable (fingerprint : String → Word) (hashAgentToken : String → String) (registerToken : String)

/-- The configuration that the installer wrote. -/
def installed (resetIdentity : Bool) : Config := { registerToken, resetIdentity }

namespace World

/-- What a transaction leaves; one that fails leaves everything as it was. -/
def commit (w : World) : Except String Server → World
  | .ok server => { w with server }
  | .error _ => w

/-- The server runs the transaction of a request that passed validation. -/
def process (w : World) (request : Nat) (input : AgentRegisterDto) (agentId : Word) : World :=
  if input.valid then
    match w.server.registerOnce hashAgentToken input agentId with
    | .ok (server, answer) =>
      { w with
        server
        answers := (request, answer) :: w.answers
        created :=
          if answer.replay then w.created else hashAgentToken input.agentToken :: w.created }
    | .error _ => w
  else w

/-- The agent takes a step.  A request that it sends is on its way. -/
def advance (w : World) (now : Int) (secret : AgentToken) (details : HostDetails) : World :=
  let host := Agent.Identity.step fingerprint .standard w.host (.advance now secret w.sent)
  match w.host.process with
  | some ⟨cfg, .requesting agentToken⟩ =>
    { w with
      host
      requests := w.requests.insert w.sent ⟨cfg.registerToken, agentToken, details⟩
      sent := w.sent + 1 }
  | _ => { w with host }

/-- The answer to the request that the agent waits for. -/
def deliver (w : World) (request : Nat) (answer : Registered) : World :=
  match w.host.process with
  | some ⟨_, .waiting _ request'⟩ =>
    if request' = request ∧ (request, answer) ∈ w.answers then
      { w with
        host := Agent.Identity.step fingerprint .standard w.host
          (.respond ⟨true, answer.agentId.1, answer.nodeId.1⟩) }
    else w
  | _ => w

end World

/-- One event. -/
def step (w : World) : Event → World
  | .start resetIdentity =>
    { w with
      host := Agent.Identity.step fingerprint .standard w.host
        (.start (installed registerToken resetIdentity)) }
  | .crash => { w with host := Agent.Identity.step fingerprint .standard w.host .crash }
  | .advance now secret details => w.advance fingerprint now secret details
  | .process request agentId =>
    match w.requests.lookup request with
    | some input => w.process hashAgentToken request input agentId
    | none => w
  | .deliver request answer => w.deliver fingerprint request answer
  | .register input agentId =>
    if input.valid && hashAgentToken input.registerToken ≠ hashAgentToken registerToken then
      w.commit ((w.server.registerOnce hashAgentToken input agentId).map Prod.fst)
    else w
  | .createAgentNode nodeId spec token ttl =>
    { w with server := w.server.createAgentNode hashAgentToken nodeId spec token ttl }
  | .issueRegisterToken nodeId token ttl =>
    w.commit (w.server.issueRegisterToken hashAgentToken nodeId token ttl)
  | .revokeCredential nodeId tokenHash =>
    { w with server := w.server.revokeCredential nodeId tokenHash }
  | .createCredential nodeId agentId token =>
    w.commit (w.server.createCredential hashAgentToken nodeId agentId token)
  | .updateNode nodeId node =>
    { w with server := { w.server with nodes := w.server.nodes.modify nodeId fun _ => node } }
  | .tick seconds => { w with server := { w.server with now := w.server.now + seconds } }

/-! ## What the agent is promised -/

/-- The credentials that the server stores under the hash of the token are those. -/
def Backed (server : Server) (identity : Credentials) : Prop :=
  ∃ agent, server.agents.lookup (hashAgentToken identity.token) = some agent ∧
    agent.agentId.1 = identity.agentId ∧ agent.nodeId.1 = identity.nodeId

/-- The file holds an identity that the register token issued. -/
def Ours (content : Content) : Prop :=
  ∃ fields, content = .secret fields ∧
    trimSpace fields.registerTokenFingerprint = (fingerprint registerToken).1

/-- The agent has this identity: `Resolve` returned it, or it is saved under the register
token. -/
def World.Has (w : World) (identity : Credentials) : Prop :=
  (∃ p, w.host.process = some p ∧ p.stage = .serving identity) ∨
    ∃ birth fields, w.host.disk.lookup .credentials = some ⟨birth, .secret fields⟩ ∧
      Ours fingerprint registerToken (.secret fields) ∧ savedCredentials fields = .ok identity

/-- The token was not used yet: the host has no identity of it, and no request went out. -/
structure World.Fresh (w : World) : Prop where
  token : registerToken ≠ ""
  process : w.host.process = none
  saved : ∀ file, w.host.disk.lookup .credentials = some file →
    ¬ Ours fingerprint registerToken file.content
  requests : w.requests = ∅
  answers : w.answers = []
  created : w.created = []

/-- One more start of the agent that nothing interrupts. -/
def World.retry (w : World) (now : Int) (secret : AgentToken) (details : HostDetails)
    (agentId : Word) (answer : Registered) : List Event :=
  [.crash, .start false] ++ List.replicate 5 (.advance now secret details) ++
    [.process w.sent agentId, .deliver w.sent answer, .advance now secret details]

/-! ## The invariant -/

/-- A request went out. -/
def World.Spent (w : World) : Prop := ∃ request input, w.requests.lookup request = some input

/-- The pending file holds this secret, under the register token. -/
def Parked (h : Host) (agentToken : String) : Prop :=
  ∃ birth, h.disk.lookup .pending =
    some ⟨birth, .secret (pendingFile fingerprint (installed registerToken false) agentToken)⟩

/-- An identity that the server gave to the secret in the pending file. -/
structure Earned (w : World) (identity : Credentials) : Prop where
  spent : w.Spent
  pattern : agentTokenPattern identity.token = true
  parked : Parked fingerprint registerToken w.host identity.token
  backed : Backed hashAgentToken w.server identity

/-- Nothing stands in the way of a registration: no journal and no identity. -/
def Clear (h : Host) : Prop :=
  h.disk.lookup .journal = none ∧ h.disk.lookup .credentials = none

/-- What the stage of the agent says about the host and the requests. -/
def StageOk (w : World) : Stage → Prop
  | .starting => True
  | .archiving _ todo after => ¬ w.Spent ∧ todo ⊆ archiveCandidates ∧
      (after = .resolve ∨
        after = .register ∧ (.credentials ∈ todo ∨ w.host.disk.lookup .credentials = none))
  | .clearing after => ¬ w.Spent ∧
      (after = .resolve ∨ after = .register ∧ w.host.disk.lookup .credentials = none)
  | .resolving => w.host.disk.lookup .journal = none
  | .journaling files after => ¬ w.Spent ∧ files = archiveCandidates ∧ after = .register
  | .registering => Clear w.host
  | .persisting agentToken => Clear w.host ∧ agentTokenPattern agentToken = true ∧
      (w.Spent → Parked fingerprint registerToken w.host agentToken)
  | .requesting agentToken => Clear w.host ∧ agentTokenPattern agentToken = true ∧
      Parked fingerprint registerToken w.host agentToken
  | .waiting agentToken request => Clear w.host ∧
      ∃ input, w.requests.lookup request = some input ∧ input.agentToken = agentToken
  | .saving identity => Clear w.host ∧ Earned fingerprint hashAgentToken registerToken w identity
  | .serving identity => Backed hashAgentToken w.server identity

/-- The server has created an agent for the register token: the one of the secret that was
sent. -/
structure Issued (w : World) (tokenHash : String) : Prop where
  request : ∃ request input, w.requests.lookup request = some input ∧
    tokenHash = hashAgentToken input.agentToken
  token : filled 128 registerToken = true
  agent : ∃ record agent, w.server.tokens.lookup (hashAgentToken registerToken) = some record ∧
    record.usedAt.isSome = true ∧ (w.server.nodes.lookup record.nodeId).isSome = true ∧
    w.server.agents.lookup tokenHash = some agent ∧ agent.nodeId = record.nodeId

/-- The requests come from this host, and the secrets are its own. -/
structure Consistent (w : World) : Prop where
  cfg : ∀ p, w.host.process = some p → ∃ reset, p.cfg = installed registerToken reset
  sent : ∀ request input, w.requests.lookup request = some input → request < w.sent
  requests : ∀ request input, w.requests.lookup request = some input →
    input.registerToken = registerToken ∧ agentTokenPattern input.agentToken = true ∧
      Parked fingerprint registerToken w.host input.agentToken
  quiet : w.Spent → w.host.disk.lookup .journal = none
  saved : ∀ file, w.host.disk.lookup .credentials = some file →
    ¬ w.Spent ∧ ¬ Ours fingerprint registerToken file.content ∨
      ∃ identity, file.content = .secret
          (credentialsFile fingerprint (installed registerToken false) identity) ∧
        Earned fingerprint hashAgentToken registerToken w identity
  answers : ∀ request answer, (request, answer) ∈ w.answers →
    ∃ input agent, w.requests.lookup request = some input ∧
      w.server.agents.lookup (hashAgentToken input.agentToken) = some agent ∧
      agent.agentId = answer.agentId ∧ agent.nodeId = answer.nodeId
  created : w.created = [] ∨
    ∃ tokenHash, w.created = [tokenHash] ∧ Issued hashAgentToken registerToken w tokenHash
  stage : ∀ p, w.host.process = some p →
    StageOk fingerprint hashAgentToken registerToken w p.stage

/-! ## What carries over -/

variable {fingerprint hashAgentToken registerToken} {w w' : World}

theorem Backed.mono {s s' : Server} {identity : Credentials} (hgrows : s.Grows s')
    (h : Backed hashAgentToken s identity) : Backed hashAgentToken s' identity := by
  obtain ⟨agent, hagent, hid, hnode⟩ := h
  obtain ⟨agent', hagent', hid', hnode'⟩ := hgrows.agents _ _ hagent
  exact ⟨agent', hagent', by rw [hid', hid], by rw [hnode', hnode]⟩

theorem Earned.mono {identity : Credentials}
    (h : Earned fingerprint hashAgentToken registerToken w identity) (hspent : w.Spent → w'.Spent)
    (hdisk : w'.host.disk.lookup .pending = w.host.disk.lookup .pending)
    (hgrows : w.server.Grows w'.server) :
    Earned fingerprint hashAgentToken registerToken w' identity where
  spent := hspent h.spent
  pattern := h.pattern
  parked := by
    rw [Parked, hdisk]
    exact h.parked
  backed := h.backed.mono hgrows

theorem Issued.mono {tokenHash : String} (h : Issued hashAgentToken registerToken w tokenHash)
    (hrequests : w'.requests = w.requests) (hgrows : w.server.Grows w'.server) :
    Issued hashAgentToken registerToken w' tokenHash where
  request := by
    rw [hrequests]
    exact h.request
  token := h.token
  agent := by
    obtain ⟨record, agent, hrecord, hused, hnode, hagent, hhere⟩ := h.agent
    obtain ⟨record', hrecord', hnode', hused'⟩ := hgrows.tokens _ _ hrecord
    obtain ⟨agent', hagent', -, hhere'⟩ := hgrows.agents _ _ hagent
    refine ⟨record', agent', hrecord', hused' hused, ?_, hagent', ?_⟩
    · rw [hnode']
      exact hgrows.nodes _ hnode
    · rw [hhere', hhere, hnode']

theorem Parked.unique {h : Host} {t t' : String} (ht : Parked fingerprint registerToken h t)
    (ht' : Parked fingerprint registerToken h t') : t = t' := by
  obtain ⟨birth, hfile⟩ := ht
  obtain ⟨birth', hfile'⟩ := ht'
  rw [hfile] at hfile'
  simp only [pendingFile, Option.some.injEq, File.mk.injEq, Content.secret.injEq,
    Secret.mk.injEq] at hfile'
  exact hfile'.2.2.2.2.1

theorem Issued.spent {tokenHash : String} (h : Issued hashAgentToken registerToken w tokenHash) :
    w.Spent := by
  obtain ⟨request, input, hinput, -⟩ := h.request
  exact ⟨request, input, hinput⟩

/-! ## Steps of the server -/

/-- The stage only depends on the host, the requests and the agents that are stored. -/
theorem StageOk.mono {stage : Stage}
    (h : StageOk fingerprint hashAgentToken registerToken w stage)
    (hhost : w'.host.disk = w.host.disk) (hrequests : w'.requests = w.requests)
    (hgrows : w.server.Grows w'.server) :
    StageOk fingerprint hashAgentToken registerToken w' stage := by
  have hspent : w'.Spent ↔ w.Spent := by rw [World.Spent, World.Spent, hrequests]
  cases stage with
  | starting => trivial
  | archiving journal todo after => simpa only [StageOk, hspent, hhost] using h
  | clearing after => simpa only [StageOk, hspent, hhost] using h
  | resolving => simpa only [StageOk, hhost] using h
  | journaling files after => simpa only [StageOk, hspent] using h
  | registering => simpa only [StageOk, Clear, hhost] using h
  | persisting agentToken => simpa only [StageOk, Clear, Parked, hspent, hhost] using h
  | requesting agentToken => simpa only [StageOk, Clear, Parked, hhost] using h
  | waiting agentToken request => simpa only [StageOk, Clear, hrequests, hhost] using h
  | saving identity =>
    refine ⟨by simpa only [Clear, hhost] using h.1, h.2.mono hspent.2 (by rw [hhost]) hgrows⟩
  | serving identity => exact Backed.mono hgrows h

/-- A transaction that is not about the register token, or that only answers. -/
theorem Consistent.grow (hc : Consistent fingerprint hashAgentToken registerToken w)
    {server : Server} (hgrows : w.server.Grows server) :
    Consistent fingerprint hashAgentToken registerToken { w with server } where
  cfg := hc.cfg
  sent := hc.sent
  requests := hc.requests
  quiet := hc.quiet
  saved := by
    intro file hfile
    rcases hc.saved file hfile with hno | ⟨identity, hcontent, hearned⟩
    · exact .inl hno
    · exact .inr ⟨identity, hcontent, hearned.mono (fun h => h) rfl hgrows⟩
  answers := by
    intro request answer hanswer
    obtain ⟨input, agent, hinput, hagent, hid, hnode⟩ := hc.answers request answer hanswer
    obtain ⟨agent', hagent', hid', hnode'⟩ := hgrows.agents _ _ hagent
    exact ⟨input, agent', hinput, hagent', by rw [hid', hid], by rw [hnode', hnode]⟩
  created := by
    rcases hc.created with hnone | ⟨tokenHash, hone, hissued⟩
    · exact .inl hnone
    · exact .inr ⟨tokenHash, hone, hissued.mono rfl hgrows⟩
  stage := fun p hp => (hc.stage p hp).mono rfl rfl hgrows

theorem Consistent.commit (hc : Consistent fingerprint hashAgentToken registerToken w)
    {result : Except String Server}
    (hgrows : ∀ server, result = .ok server → w.server.Grows server) :
    Consistent fingerprint hashAgentToken registerToken (w.commit result) := by
  cases result with
  | error message => exact hc
  | ok server => exact hc.grow (hgrows server rfl)

/-- The transaction of a request: it answers with the agent of the secret, and it creates one
only if none was created before. -/
theorem Consistent.process (hc : Consistent fingerprint hashAgentToken registerToken w)
    {request : Nat} {input : AgentRegisterDto} (hinput : w.requests.lookup request = some input)
    (agentId : Word) :
    Consistent fingerprint hashAgentToken registerToken
      (w.process hashAgentToken request input agentId) := by
  rw [World.process]
  split
  case isFalse => exact hc
  next hvalid =>
  split
  case h_2 => exact hc
  next server answer hregister =>
  obtain ⟨htoken, hpattern, -⟩ := hc.requests request input hinput
  have hgrows := Server.Grows.register hregister
  have hg := hc.grow hgrows
  obtain ⟨record, node, hrecord, hnode, hcases⟩ := Server.registerOnce_cases hregister
  rw [htoken] at hrecord
  refine ⟨hg.cfg, hg.sent, hg.requests, hg.quiet, ?_, ?_, ?_, ?_⟩
  · intro file hfile
    rcases hg.saved file hfile with hno | ⟨identity, hcontent, hearned⟩
    · exact .inl hno
    · exact .inr ⟨identity, hcontent, hearned.mono (fun h => h) rfl (.refl _)⟩
  · intro request' answer' hanswer
    rcases List.mem_cons.1 hanswer with heq | hanswer
    · cases heq
      rcases hcases with ⟨rfl, -, existing, hexisting, hhere, rfl⟩ | ⟨-, -, spec, rfl, rfl⟩
      · exact ⟨input, existing, hinput, hexisting, rfl, hhere⟩
      · exact ⟨input, _, hinput, AList.lookup_insert _, rfl, rfl⟩
    · exact hg.answers request' answer' hanswer
  · rcases hcases with ⟨rfl, -, existing, -, -, rfl⟩ | ⟨hunused, -, spec, rfl, rfl⟩
    · rcases hc.created with hnone | ⟨tokenHash, hone, hissued⟩
      · exact .inl hnone
      · exact .inr ⟨tokenHash, hone, hissued.mono rfl (.refl _)⟩
    · have hnone : w.created = [] := by
        rcases hc.created with hnone | ⟨tokenHash, -, hissued⟩
        · exact hnone
        · obtain ⟨record', -, hrecord', hused, -⟩ := hissued.agent
          rw [hrecord] at hrecord'
          cases hrecord'
          rw [hunused] at hused
          cases hused
      refine .inr ⟨hashAgentToken input.agentToken, ?_, ?_⟩
      · simp [hnone]
      · refine ⟨⟨request, input, hinput, rfl⟩, ?_, ?_⟩
        · simp only [AgentRegisterDto.valid, htoken, Bool.and_eq_true] at hvalid
          exact hvalid.1.1
        · refine ⟨{ record with usedAt := some w.server.now }, _, ?_, rfl, ?_,
            AList.lookup_insert _, rfl⟩
          · simp only [Server.commit, htoken]
            exact AList.lookup_insert _
          · simp only [Server.commit]
            rw [AList.lookup_insert]
            rfl
  · intro p hp
    exact (hg.stage p hp).mono rfl rfl (.refl _)

/-! ## What the agent reads -/

theorem explicitCredentials_installed (reset : Bool) :
    explicitCredentials (installed registerToken reset) = .ok none := by
  simp [explicitCredentials, installed]

/-- A credentials file that the register token issued is read back as it was written. -/
theorem savedCredentials_credentialsFile {cfg : Config} {server : Server} {identity : Credentials}
    (hbacked : Backed hashAgentToken server identity)
    (hpattern : agentTokenPattern identity.token = true) :
    savedCredentials (credentialsFile fingerprint cfg identity) = .ok identity := by
  obtain ⟨agent, -, hid, hnode⟩ := hbacked
  have htoken := AgentToken.trimSpace_val ⟨identity.token, hpattern⟩
  have hid' : trimSpace identity.agentId = identity.agentId ∧ identity.agentId ≠ "" :=
    hid ▸ agent.agentId.2
  have hnode' : trimSpace identity.nodeId = identity.nodeId ∧ identity.nodeId ≠ "" :=
    hnode ▸ agent.nodeId.2
  have hne : identity.token ≠ "" := by
    intro hempty
    rw [hempty] at hpattern
    exact absurd hpattern (by decide)
  simp only [savedCredentials, credentialsFile, hid'.1, hnode'.1, htoken]
  rw [if_neg (by simp [hid'.2, hnode'.2, hne])]

/-- A secret that is parked is used again. -/
theorem pendingSecret_of_parked {h : Host} {agentToken : String} {reset : Bool}
    (hparked : Parked fingerprint registerToken h agentToken)
    (hpattern : agentTokenPattern agentToken = true) :
    pendingSecret fingerprint (installed registerToken reset) h.disk = .ok (some agentToken) := by
  obtain ⟨birth, hfile⟩ := hparked
  have htoken := AgentToken.trimSpace_val ⟨agentToken, hpattern⟩
  have hfp := (fingerprint registerToken).2.1
  simp only [pendingSecret, readSecret, hfile, pendingFile, installed, Fallible.ok_bind, htoken,
    hpattern, hfp, Bool.not_true, Bool.false_eq_true, if_false, if_true]
  rfl

/-- What `register` takes from the pending file has the form of a token. -/
theorem pattern_of_pendingSecret {cfg : Config} {d : Disk} {agentToken : String}
    (h : pendingSecret fingerprint cfg d = .ok (some agentToken)) :
    agentTokenPattern agentToken = true := by
  rw [pendingSecret, Fallible.bind_eq_ok] at h
  obtain ⟨secret, -, h⟩ := h
  cases secret with
  | none => cases h
  | some fields =>
    simp only at h
    split at h
    · cases h
    · next hpattern =>
      split at h
      · cases h
        simpa using hpattern
      · cases h

/-- `readSecret` finds nothing only if there is no file. -/
theorem lookup_of_readSecret_none {cfg : Config} {d : Disk} {path : Path}
    (h : readSecret cfg d path = .ok none) : d.lookup path = none := by
  rw [readSecret] at h
  split at h
  · next hnone => exact hnone
  · split at h <;> cases h

/-- `readSecret` finds the fields of a file, or none if the file is a journal. -/
theorem lookup_of_readSecret_some {cfg : Config} {d : Disk} {path : Path} {fields : Secret}
    (h : readSecret cfg d path = .ok (some fields)) :
    ∃ file, d.lookup path = some file ∧ (file.content = .secret fields ∨ fields = {}) := by
  rw [readSecret] at h
  split at h
  · cases h
  · next file hfile =>
    split at h
    · next hcontent =>
      cases h
      exact ⟨file, hfile, .inl hcontent⟩
    · cases h
      exact ⟨file, hfile, .inr rfl⟩
    · cases h

/-! ## Steps of the agent -/

/-- The process goes on and the files stay. -/
theorem Consistent.of_disk (hc : Consistent fingerprint hashAgentToken registerToken w)
    {host : Host} (hdisk : host.disk = w.host.disk)
    (hcfg : ∀ p, host.process = some p → ∃ reset, p.cfg = installed registerToken reset)
    (hstage : ∀ p, host.process = some p →
      StageOk fingerprint hashAgentToken registerToken w p.stage) :
    Consistent fingerprint hashAgentToken registerToken { w with host } where
  cfg := hcfg
  sent := hc.sent
  requests := by
    intro request input hinput
    rw [Parked, hdisk]
    exact hc.requests request input hinput
  quiet := by
    intro hspent
    rw [hdisk]
    exact hc.quiet hspent
  saved := by
    intro file hfile
    rw [hdisk] at hfile
    rcases hc.saved file hfile with hno | ⟨identity, hcontent, hearned⟩
    · exact .inl hno
    · exact .inr ⟨identity, hcontent, hearned.mono (fun h => h) (by rw [hdisk]) (.refl _)⟩
  answers := hc.answers
  created := by
    rcases hc.created with hnone | ⟨tokenHash, hone, hissued⟩
    · exact .inl hnone
    · exact .inr ⟨tokenHash, hone, hissued.mono rfl (.refl _)⟩
  stage := fun p hp => (hstage p hp).mono hdisk rfl (.refl _)

theorem Consistent.goto (hc : Consistent fingerprint hashAgentToken registerToken w)
    {stage : Stage} (hstage : StageOk fingerprint hashAgentToken registerToken w stage)
    (reset : Bool) :
    Consistent fingerprint hashAgentToken registerToken
      { w with host := w.host.goto (installed registerToken reset) stage } := by
  refine hc.of_disk rfl ?_ ?_
  · rintro p ⟨⟩
    exact ⟨reset, rfl⟩
  · rintro p ⟨⟩
    exact hstage

theorem Consistent.stop (hc : Consistent fingerprint hashAgentToken registerToken w) :
    Consistent fingerprint hashAgentToken registerToken { w with host := w.host.stop } := by
  refine hc.of_disk rfl ?_ ?_
  · rintro p ⟨⟩
  · rintro p ⟨⟩

/-- Before the first request the files of the host may go. -/
theorem Consistent.unspent (hc : Consistent fingerprint hashAgentToken registerToken w)
    (hno : ¬ w.Spent) {host : Host} {stage : Stage} {reset : Bool}
    (hprocess : host.process = some ⟨installed registerToken reset, stage⟩)
    (hcredentials : ∀ file, host.disk.lookup .credentials = some file →
      w.host.disk.lookup .credentials = some file)
    (hstage : StageOk fingerprint hashAgentToken registerToken { w with host } stage) :
    Consistent fingerprint hashAgentToken registerToken { w with host } where
  cfg := by
    intro p hp
    have hp : host.process = some p := hp
    rw [hprocess] at hp
    cases hp
    exact ⟨reset, rfl⟩
  sent := hc.sent
  requests := fun request input hinput => absurd ⟨request, input, hinput⟩ hno
  quiet := fun hspent => absurd hspent hno
  saved := by
    intro file hfile
    rcases hc.saved file (hcredentials file hfile) with hforeign | ⟨identity, -, hearned⟩
    · exact .inl hforeign
    · exact absurd hearned.spent hno
  answers := hc.answers
  created := by
    rcases hc.created with hnone | ⟨tokenHash, -, hissued⟩
    · exact .inl hnone
    · exact absurd hissued.spent hno
  stage := by
    intro p hp
    have hp : host.process = some p := hp
    rw [hprocess] at hp
    cases hp
    exact hstage

/-- `Resolve` finds an identity that the server stores, or it goes on to a registration. -/
theorem Consistent.resolve (hc : Consistent fingerprint hashAgentToken registerToken w)
    (htoken : registerToken ≠ "") (hnone : w.host.disk.lookup .journal = none) {reset : Bool}
    {stage : Stage}
    (hresolve : Agent.Identity.resolve fingerprint (installed registerToken reset) w.host.disk =
      .ok stage) :
    StageOk fingerprint hashAgentToken registerToken w stage := by
  rcases resolve_cases hresolve with ⟨identity, hexplicit, -⟩ | ⟨-, ⟨hread, -, rfl⟩ |
    ⟨saved, identity, hread, hsaved, hstage⟩⟩
  · rw [explicitCredentials_installed] at hexplicit
    cases hexplicit
  · exact ⟨hnone, lookup_of_readSecret_none hread⟩
  · obtain ⟨file, hfile, hcontent⟩ := lookup_of_readSecret_some hread
    have hsecret : file.content = .secret saved := by
      rcases hcontent with hcontent | rfl
      · exact hcontent
      · cases hsaved
    rcases hstage with ⟨hforeign, -, rfl⟩ | ⟨hours, rfl⟩
    · refine ⟨?_, rfl, rfl⟩
      rcases hc.saved file hfile with ⟨hno, -⟩ | ⟨identity', hcontent', -⟩
      · exact hno
      · rw [hsecret] at hcontent'
        cases hcontent'
        exact absurd (fingerprint registerToken).2.1 hforeign.2
    · have hfp : Ours fingerprint registerToken file.content := by
        refine ⟨saved, hsecret, ?_⟩
        by_contra hne
        exact hours ⟨htoken, hne⟩
      rcases hc.saved file hfile with ⟨-, hno⟩ | ⟨identity', hcontent', hearned⟩
      · exact absurd hfp hno
      · rw [hsecret] at hcontent'
        cases hcontent'
        rw [savedCredentials_credentialsFile hearned.backed hearned.pattern] at hsaved
        cases hsaved
        exact hearned.backed

/-- `register` uses the secret of the requests that went out. -/
theorem Consistent.pending (hc : Consistent fingerprint hashAgentToken registerToken w)
    {reset : Bool} {found : Option String}
    (hpending : pendingSecret fingerprint (installed registerToken reset) w.host.disk = .ok found)
    (secret : AgentToken) :
    agentTokenPattern (found.getD secret.1) = true ∧
      (w.Spent → Parked fingerprint registerToken w.host (found.getD secret.1)) := by
  constructor
  · cases found with
    | none => exact secret.2
    | some agentToken => exact pattern_of_pendingSecret hpending
  · rintro ⟨request, input, hinput⟩
    obtain ⟨-, hpattern, hparked⟩ := hc.requests request input hinput
    rw [pendingSecret_of_parked hparked hpattern] at hpending
    cases hpending
    exact hparked

/-- The pending file is written. -/
theorem Consistent.persist (hc : Consistent fingerprint hashAgentToken registerToken w)
    {reset : Bool} {agentToken : String}
    (hstage : StageOk fingerprint hashAgentToken registerToken w (.persisting agentToken))
    {host : Host} (hhost : host = (w.host.write .pending (.secret (pendingFile fingerprint
      (installed registerToken reset) agentToken))).goto (installed registerToken reset)
      (.requesting agentToken)) :
    Consistent fingerprint hashAgentToken registerToken { w with host } := by
  subst hhost
  obtain ⟨⟨hjournal, hcredentials⟩, hpattern, hspent⟩ := hstage
  have hnone : (w.host.disk.insert Path.pending ⟨.written w.host.writes, .secret (pendingFile
      fingerprint (installed registerToken reset) agentToken)⟩).lookup .credentials = none :=
    (AList.lookup_insert_ne Agent.Identity.Path.noConfusion).trans hcredentials
  have hparked : ∀ h : Host, h.disk = w.host.disk.insert Path.pending ⟨.written w.host.writes,
      .secret (pendingFile fingerprint (installed registerToken reset) agentToken)⟩ →
      Parked fingerprint registerToken h agentToken := by
    intro h hdisk
    refine ⟨.written w.host.writes, ?_⟩
    rw [hdisk]
    exact AList.lookup_insert _
  refine ⟨?_, hc.sent, ?_, ?_, ?_, hc.answers, ?_, ?_⟩
  · rintro p ⟨⟩
    exact ⟨reset, rfl⟩
  · intro request input hinput
    obtain ⟨htoken, hpattern', hparked'⟩ := hc.requests request input hinput
    refine ⟨htoken, hpattern', ?_⟩
    rw [hparked'.unique (hspent ⟨request, input, hinput⟩)]
    exact hparked _ rfl
  · intro hsp
    exact (AList.lookup_insert_ne Agent.Identity.Path.noConfusion).trans (hc.quiet hsp)
  · intro file hfile
    have hfile : (w.host.disk.insert Path.pending _).lookup .credentials = some file := hfile
    rw [hnone] at hfile
    cases hfile
  · rcases hc.created with hnone | ⟨tokenHash, hone, hissued⟩
    · exact .inl hnone
    · exact .inr ⟨tokenHash, hone, hissued.mono rfl (.refl _)⟩
  · rintro p ⟨⟩
    exact ⟨⟨(AList.lookup_insert_ne Agent.Identity.Path.noConfusion).trans hjournal, hnone⟩,
      hpattern, hparked _ rfl⟩

/-- The request goes out. -/
theorem Consistent.send (hc : Consistent fingerprint hashAgentToken registerToken w)
    {reset : Bool} {agentToken : String}
    (hstage : StageOk fingerprint hashAgentToken registerToken w (.requesting agentToken))
    (details : HostDetails) :
    Consistent fingerprint hashAgentToken registerToken
      { w with
        host := w.host.goto (installed registerToken reset) (.waiting agentToken w.sent)
        requests := w.requests.insert w.sent ⟨registerToken, agentToken, details⟩
        sent := w.sent + 1 } := by
  obtain ⟨hclear, hpattern, hparked⟩ := hstage
  have hkeep : ∀ request input, w.requests.lookup request = some input →
      (w.requests.insert w.sent ⟨registerToken, agentToken, details⟩).lookup request =
        some input := by
    intro request input hinput
    rw [AList.lookup_insert_ne (Nat.ne_of_lt (hc.sent request input hinput))]
    exact hinput
  have hspent : w.Spent → World.Spent { w with
      host := w.host.goto (installed registerToken reset) (.waiting agentToken w.sent)
      requests := w.requests.insert w.sent ⟨registerToken, agentToken, details⟩
      sent := w.sent + 1 } := by
    rintro ⟨request, input, hinput⟩
    exact ⟨request, input, hkeep request input hinput⟩
  refine ⟨?_, ?_, ?_, ?_, ?_, ?_, ?_, ?_⟩
  · rintro p ⟨⟩
    exact ⟨reset, rfl⟩
  · intro request input hinput
    rw [Table.lookup_insert_ite] at hinput
    split at hinput
    · next heq =>
      rw [heq]
      exact Nat.lt_succ_self _
    · exact Nat.lt_succ_of_lt (hc.sent request input hinput)
  · intro request input hinput
    rw [Table.lookup_insert_ite] at hinput
    split at hinput
    · cases hinput
      exact ⟨rfl, hpattern, hparked⟩
    · exact hc.requests request input hinput
  · intro _
    exact hclear.1
  · intro file hfile
    have hfile : w.host.disk.lookup .credentials = some file := hfile
    rw [hclear.2] at hfile
    cases hfile
  · intro request answer hanswer
    obtain ⟨input, agent, hinput, hagent⟩ := hc.answers request answer hanswer
    exact ⟨input, agent, hkeep request input hinput, hagent⟩
  · rcases hc.created with hnone | ⟨tokenHash, hone, hissued⟩
    · exact .inl hnone
    · obtain ⟨request, input, hinput, heq⟩ := hissued.request
      exact .inr ⟨tokenHash, hone, ⟨request, input, hkeep request input hinput, heq⟩,
        hissued.token, hissued.agent⟩
  · rintro p ⟨⟩
    exact ⟨hclear, _, AList.lookup_insert _, rfl⟩

/-- The credentials are written. -/
theorem Consistent.save (hc : Consistent fingerprint hashAgentToken registerToken w)
    {reset : Bool} {identity : Credentials}
    (hstage : StageOk fingerprint hashAgentToken registerToken w (.saving identity))
    {host : Host} (hhost : host = (w.host.write .credentials (.secret (credentialsFile fingerprint
      (installed registerToken reset) identity))).goto (installed registerToken reset)
      (.serving identity)) :
    Consistent fingerprint hashAgentToken registerToken { w with host } := by
  subst hhost
  obtain ⟨⟨hjournal, -⟩, hearned⟩ := hstage
  have hpending : ∀ content, (w.host.disk.insert Path.credentials content).lookup .pending =
      w.host.disk.lookup .pending :=
        fun content => AList.lookup_insert_ne Agent.Identity.Path.noConfusion
  refine ⟨?_, hc.sent, ?_, ?_, ?_, hc.answers, ?_, ?_⟩
  · rintro p ⟨⟩
    exact ⟨reset, rfl⟩
  · intro request input hinput
    obtain ⟨htoken, hpattern, birth, hparked⟩ := hc.requests request input hinput
    exact ⟨htoken, hpattern, birth, (hpending _).trans hparked⟩
  · intro hsp
    exact (AList.lookup_insert_ne Agent.Identity.Path.noConfusion).trans (hc.quiet hsp)
  · intro file hfile
    have hfile : (w.host.disk.insert Path.credentials _).lookup .credentials = some file := hfile
    rw [AList.lookup_insert] at hfile
    cases hfile
    exact .inr ⟨identity, rfl, hearned.mono (fun h => h) (hpending _) (.refl _)⟩
  · rcases hc.created with hnone | ⟨tokenHash, hone, hissued⟩
    · exact .inl hnone
    · exact .inr ⟨tokenHash, hone, hissued.mono rfl (.refl _)⟩
  · rintro p ⟨⟩
    exact hearned.backed

/-- The next file of an archive that started before any request. -/
theorem Consistent.archive (hc : Consistent fingerprint hashAgentToken registerToken w)
    {reset : Bool} {journal : ResetJournal} {path : Path} {todo : List Path} {after : After}
    (hstage : StageOk fingerprint hashAgentToken registerToken w
      (.archiving journal (path :: todo) after)) {host : Host}
    (hhost : host = (w.host.archive journal.stamp path).goto (installed registerToken reset)
      (.archiving journal todo after)) :
    Consistent fingerprint hashAgentToken registerToken { w with host } := by
  subst hhost
  obtain ⟨hno, htodo, hafter⟩ := hstage
  have hlookup : (w.host.archive journal.stamp path).disk.lookup .credentials =
      if .credentials = path then none else w.host.disk.lookup .credentials :=
    Host.lookup_archive_of_mem (by decide)
  refine hc.unspent hno rfl ?_ ⟨hno, fun p hp => htodo (List.mem_cons_of_mem _ hp), ?_⟩
  · intro file hfile
    have hfile : (w.host.archive journal.stamp path).disk.lookup .credentials = some file := hfile
    rw [hlookup] at hfile
    split at hfile
    · cases hfile
    · exact hfile
  · refine hafter.imp (fun h => h) fun ⟨hregister, hgone⟩ => ⟨hregister, ?_⟩
    change _ ∨ (w.host.archive journal.stamp path).disk.lookup .credentials = none
    rw [hlookup]
    split
    · exact .inr rfl
    · next hne =>
      rcases hgone with hmem | hnone
      · exact .inl ((List.mem_cons.1 hmem).resolve_left hne)
      · exact .inr hnone

theorem Consistent.advance (hc : Consistent fingerprint hashAgentToken registerToken w)
    (htoken : registerToken ≠ "") (now : Int) (secret : AgentToken) (details : HostDetails) :
    Consistent fingerprint hashAgentToken registerToken
      (w.advance fingerprint now secret details) := by
  cases hprocess : w.host.process with
  | none =>
    have hsame : w.advance fingerprint now secret details = w := by
      simp [World.advance, hprocess, Agent.Identity.step]
    rw [hsame]
    exact hc
  | some p =>
    obtain ⟨cfg, stage⟩ := p
    obtain ⟨reset, hcfg⟩ := hc.cfg _ hprocess
    simp only at hcfg
    subst hcfg
    have hstage := hc.stage _ hprocess
    simp only at hstage
    cases stage with
    | requesting agentToken =>
      simp only [World.advance, hprocess, Agent.Identity.step, Host.advance]
      exact hc.send hstage details
    | starting =>
      simp only [World.advance, hprocess, Agent.Identity.step, Host.advance]
      split
      · next hread =>
        refine hc.goto ?_ reset
        exact lookup_journal_of_readJournal_none hread
      · next journal hread =>
        obtain ⟨hjournal, hfiles⟩ := journal_of_readJournal hread
        refine hc.goto ?_ reset
        refine ⟨fun hspent => ?_, hfiles, .inl rfl⟩
        rw [Host.journal_of_lookup_none (hc.quiet hspent)] at hjournal
        cases hjournal
      · exact hc.stop
    | archiving journal todo after =>
      cases todo with
      | cons path todo =>
        simp only [World.advance, hprocess, Agent.Identity.step, Host.advance]
        exact hc.archive hstage rfl
      | nil =>
        simp only [World.advance, hprocess, Agent.Identity.step, Host.advance]
        obtain ⟨hno, -, hafter⟩ := hstage
        refine hc.goto ?_ reset
        refine ⟨hno, hafter.imp (fun h => h) fun h => ⟨h.1, ?_⟩⟩
        exact h.2.resolve_left List.not_mem_nil
    | clearing after =>
      simp only [World.advance, hprocess, Agent.Identity.step, Host.advance]
      obtain ⟨hno, hafter⟩ := hstage
      have hcredentials : (w.host.disk.erase Path.journal).lookup .credentials =
          w.host.disk.lookup .credentials := AList.lookup_erase_ne Agent.Identity.Path.noConfusion
      refine hc.unspent hno rfl (fun file hfile => hcredentials.symm.trans hfile) ?_
      rcases hafter with rfl | ⟨rfl, hnone⟩
      · exact AList.lookup_erase _ _
      · exact ⟨AList.lookup_erase _ _, hcredentials.trans hnone⟩
    | resolving =>
      simp only [World.advance, hprocess, Agent.Identity.step, Host.advance]
      split
      · next stage hresolve => exact hc.goto (hc.resolve htoken hstage hresolve) reset
      · exact hc.stop
    | journaling files after =>
      simp only [World.advance, hprocess, Agent.Identity.step, Host.advance]
      obtain ⟨hno, rfl, rfl⟩ := hstage
      refine hc.unspent hno rfl (fun file hfile => ?_) ?_
      · have hfile : (w.host.disk.insert Path.journal _).lookup .credentials = some file := hfile
        rw [AList.lookup_insert_ne Agent.Identity.Path.noConfusion] at hfile
        exact hfile
      · exact ⟨hno, List.Subset.refl _, .inr ⟨rfl, .inl (by decide)⟩⟩
    | registering =>
      simp only [World.advance, hprocess, Agent.Identity.step, Host.advance]
      split
      · next agentToken hpending =>
        refine hc.goto ?_ reset
        exact ⟨hstage, hc.pending hpending secret⟩
      · next hpending =>
        refine hc.goto ?_ reset
        exact ⟨hstage, hc.pending hpending secret⟩
      · exact hc.stop
    | persisting agentToken =>
      simp only [World.advance, hprocess, Agent.Identity.step, Host.advance]
      exact hc.persist hstage rfl
    | waiting agentToken request =>
      simp only [World.advance, hprocess, Agent.Identity.step, Host.advance]
      exact hc
    | saving identity =>
      simp only [World.advance, hprocess, Agent.Identity.step, Host.advance]
      exact hc.save hstage rfl
    | serving identity =>
      simp only [World.advance, hprocess, Agent.Identity.step, Host.advance]
      exact hc

/-- An answer that arrives is about the secret that the agent sent. -/
theorem Consistent.deliver (hc : Consistent fingerprint hashAgentToken registerToken w)
    (request : Nat) (answer : Registered) :
    Consistent fingerprint hashAgentToken registerToken (w.deliver fingerprint request answer) := by
  rw [World.deliver]
  split
  case h_2 => exact hc
  next cfg agentToken request' hprocess =>
  split
  case isFalse => exact hc
  next hanswer =>
  obtain ⟨rfl, hanswer⟩ := hanswer
  obtain ⟨reset, hcfg⟩ := hc.cfg _ hprocess
  simp only at hcfg
  subst hcfg
  obtain ⟨hclear, input, hinput, hsent⟩ := hc.stage _ hprocess
  obtain ⟨-, hpattern, hparked⟩ := hc.requests _ _ hinput
  obtain ⟨input', agent, hinput', hagent, hid, hnode⟩ := hc.answers _ _ hanswer
  rw [hinput] at hinput'
  cases hinput'
  subst hsent
  simp only [Agent.Identity.step, hprocess, Host.respond]
  split
  · exact hc.stop
  · refine hc.goto ?_ reset
    refine ⟨hclear, ⟨⟨_, input, hinput⟩, hpattern, hparked, agent, hagent, ?_, ?_⟩⟩
    · rw [hid]
    · rw [hnode]

theorem Consistent.step (hc : Consistent fingerprint hashAgentToken registerToken w)
    (htoken : registerToken ≠ "") (e : Event) :
    Consistent fingerprint hashAgentToken registerToken
      (step fingerprint hashAgentToken registerToken w e) := by
  cases e with
  | start resetIdentity =>
    simp only [Registration.step, Agent.Identity.step]
    split
    · refine hc.goto ?_ resetIdentity
      trivial
    · exact hc
  | crash => exact hc.stop
  | advance now secret details => exact hc.advance htoken now secret details
  | process request agentId =>
    simp only [Registration.step]
    split
    · next input hinput => exact hc.process hinput agentId
    · exact hc
  | deliver request answer => exact hc.deliver request answer
  | register input agentId =>
    simp only [Registration.step]
    split
    · refine hc.commit fun server hserver => ?_
      obtain ⟨⟨server', answer⟩, hregister, rfl⟩ := Fallible.map_eq_ok.1 hserver
      exact Server.Grows.register hregister
    · exact hc
  | createAgentNode nodeId spec token ttl =>
    exact hc.grow (Server.Grows.createAgentNode nodeId spec token ttl)
  | issueRegisterToken nodeId token ttl =>
    exact hc.commit fun server hserver => Server.Grows.issueRegisterToken hserver
  | revokeCredential nodeId tokenHash => exact hc.grow (Server.Grows.revoke _ _)
  | createCredential nodeId agentId token =>
    exact hc.commit fun server hserver => Server.Grows.createCredential hserver
  | updateNode nodeId node =>
    refine hc.grow ⟨(Server.Grows.refl _).agents, (Server.Grows.refl _).tokens, fun id hsome => ?_⟩
    simp only [Table.lookup_modify]
    split
    · next heq =>
      rw [← heq, Option.isSome_map]
      exact hsome
    · exact hsome
  | tick seconds =>
    exact hc.grow ⟨(Server.Grows.refl _).agents, (Server.Grows.refl _).tokens,
      (Server.Grows.refl _).nodes⟩

theorem World.Fresh.consistent (hfresh : w.Fresh fingerprint registerToken) :
    Consistent fingerprint hashAgentToken registerToken w := by
  have hno : ¬ w.Spent := by
    rintro ⟨request, input, hinput⟩
    rw [hfresh.requests] at hinput
    cases hinput
  refine ⟨?_, ?_, ?_, fun hspent => absurd hspent hno, ?_, ?_, .inl hfresh.created, ?_⟩
  · intro p hp
    rw [hfresh.process] at hp
    cases hp
  · exact fun request input hinput => absurd ⟨request, input, hinput⟩ hno
  · exact fun request input hinput => absurd ⟨request, input, hinput⟩ hno
  · exact fun file hfile => .inl ⟨hno, hfresh.saved file hfile⟩
  · intro request answer hanswer
    rw [hfresh.answers] at hanswer
    cases hanswer
  · intro p hp
    rw [hfresh.process] at hp
    cases hp

/-! ## One more attempt -/

section

variable {h : Host} {reset : Bool} {now : Int} {secret : AgentToken} {details : HostDetails}

/-- The agent takes a step that sends nothing. -/
theorem step_advance_goto {cfg : Config} {stage : Stage} (hstage : ∀ t, stage ≠ .requesting t) :
    step fingerprint hashAgentToken registerToken { w with host := h.goto cfg stage }
        (.advance now secret details) =
      { w with host := (h.goto cfg stage).advance fingerprint cfg now secret w.sent stage } := by
  cases stage with
  | requesting t => exact absurd rfl (hstage t)
  | _ => rfl

theorem readJournal_of_lookup_none {d : Disk} (hnone : d.lookup .journal = none) :
    readJournal d = .ok none := by
  simp only [readJournal, hnone]

/-- Without an identity the agent goes on to a registration. -/
theorem resolve_of_clear (htoken : registerToken ≠ "") (hnone : h.disk.lookup .credentials = none) :
    Agent.Identity.resolve fingerprint (installed registerToken reset) h.disk =
      .ok .registering := by
  have hread : readSecret (installed registerToken reset) h.disk .credentials = .ok none := by
    simp only [readSecret, hnone]
  rw [Agent.Identity.resolve, explicitCredentials_installed, Fallible.ok_bind]
  simp only [hread, Fallible.ok_bind]
  rw [if_neg (by exact htoken)]
  rfl

/-- With an identity of its register token the agent uses it. -/
theorem resolve_of_saved {file : File} {identity : Credentials}
    (hfile : h.disk.lookup .credentials = some file)
    (hcontent : file.content = .secret
      (credentialsFile fingerprint (installed registerToken false) identity))
    (hsaved : savedCredentials (credentialsFile fingerprint (installed registerToken false)
      identity) = .ok identity) :
    Agent.Identity.resolve fingerprint (installed registerToken reset) h.disk =
      .ok (.serving identity) := by
  have hread : readSecret (installed registerToken reset) h.disk .credentials =
      .ok (some (credentialsFile fingerprint (installed registerToken false) identity)) := by
    simp only [readSecret, hfile, hcontent]
  have hours : ¬ (credentialsFile fingerprint (installed registerToken false) identity).foreign
      fingerprint (installed registerToken reset) :=
    fun hforeign => hforeign.2 (fingerprint registerToken).2.1
  rw [Agent.Identity.resolve, explicitCredentials_installed, Fallible.ok_bind]
  simp only [hread, Fallible.ok_bind, hsaved]
  rw [if_neg hours]
  rfl

/-- An attempt up to the point where the identity is looked for. -/
theorem run_to_resolving (hnone : w.host.disk.lookup .journal = none) :
    run (step fingerprint hashAgentToken registerToken) w
        [.crash, .start false, .advance now secret details] =
      { w with host := w.host.goto (installed registerToken false) .resolving } := by
  have hstart : run (step fingerprint hashAgentToken registerToken) w [.crash, .start false] =
      { w with host := w.host.goto (installed registerToken false) .starting } := by
    simp [run, step, Agent.Identity.step, Host.stop, Host.goto, installed]
  rw [show ([.crash, .start false, .advance now secret details] : List Event) =
    [.crash, .start false] ++ [.advance now secret details] from rfl, run_append, hstart,
    run_cons, run_nil, step_advance_goto fun _ => Stage.noConfusion]
  simp only [Host.advance, Host.goto, readJournal_of_lookup_none hnone]

/-- Without an identity the next statement is the registration. -/
theorem step_resolving (htoken : registerToken ≠ "")
    (hnone : h.disk.lookup .credentials = none) :
    step fingerprint hashAgentToken registerToken
        { w with host := h.goto (installed registerToken false) .resolving }
        (.advance now secret details) =
      { w with host := h.goto (installed registerToken false) .registering } := by
  have hresolve : Agent.Identity.resolve fingerprint (installed registerToken false) h.disk =
      .ok .registering := resolve_of_clear htoken hnone
  rw [step_advance_goto fun _ => Stage.noConfusion]
  simp only [Host.advance, Host.goto, hresolve]

/-- The parked secret is taken. -/
theorem step_registering {agentToken : String}
    (hparked : Parked fingerprint registerToken h agentToken)
    (hpattern : agentTokenPattern agentToken = true) :
    step fingerprint hashAgentToken registerToken
        { w with host := h.goto (installed registerToken false) .registering }
        (.advance now secret details) =
      { w with host := h.goto (installed registerToken false) (.persisting agentToken) } := by
  have hpending : pendingSecret fingerprint (installed registerToken false) h.disk =
      .ok (some agentToken) := pendingSecret_of_parked hparked hpattern
  rw [step_advance_goto fun _ => Stage.noConfusion]
  simp only [Host.advance, Host.goto, hpending]

/-- A saved identity is returned. -/
theorem step_resolving_saved {file : File} {identity : Credentials}
    (hfile : h.disk.lookup .credentials = some file)
    (hcontent : file.content = .secret
      (credentialsFile fingerprint (installed registerToken false) identity))
    (hsaved : savedCredentials (credentialsFile fingerprint (installed registerToken false)
      identity) = .ok identity) :
    step fingerprint hashAgentToken registerToken
        { w with host := h.goto (installed registerToken false) .resolving }
        (.advance now secret details) =
      { w with host := h.goto (installed registerToken false) (.serving identity) } := by
  have hresolve : Agent.Identity.resolve fingerprint (installed registerToken false) h.disk =
      .ok (.serving identity) := resolve_of_saved hfile hcontent hsaved
  rw [step_advance_goto fun _ => Stage.noConfusion]
  simp only [Host.advance, Host.goto, hresolve]

/-- The agent that has an identity keeps it. -/
theorem process_of_serving {cfg : Config} {identity : Credentials} :
    ∀ (events : List Event) (w : World), w.host.process = some ⟨cfg, .serving identity⟩ →
      (∀ e ∈ events, (∃ now secret details, e = .advance now secret details) ∨
        (∃ request agentId, e = .process request agentId) ∨
        ∃ request answer, e = .deliver request answer) →
      (run (step fingerprint hashAgentToken registerToken) w events).host.process =
        some ⟨cfg, .serving identity⟩
  | [], _, hprocess, _ => hprocess
  | e :: events, w, hprocess, hevents => by
    refine process_of_serving events _ ?_ fun e he => hevents e (List.mem_cons_of_mem _ he)
    rcases hevents e List.mem_cons_self with ⟨now, secret, details, rfl⟩ |
      ⟨request, agentId, rfl⟩ | ⟨request, answer, rfl⟩
    · simp [step, World.advance, hprocess, Agent.Identity.step, Host.advance]
    · simp only [step]
      split
      · rw [World.process]
        split
        · split <;> exact hprocess
        · exact hprocess
      · exact hprocess
    · simp [step, World.deliver, hprocess]

/-- The server answers a request with the agent of the secret. -/
theorem process_of_replay {input : AgentRegisterDto} {request : Nat} {agentId : Word}
    {answer : Registered} (hvalid : input.valid = true)
    (hregister : w.server.registerOnce hashAgentToken input agentId = .ok (w.server, answer))
    (hreplay : answer.replay = true) :
    w.process hashAgentToken request input agentId =
      { w with answers := (request, answer) :: w.answers } := by
  simp [World.process, hvalid, hregister, hreplay]

/-- The answer gives the agent its identity. -/
theorem deliver_of_waiting {cfg : Config} {agentToken : String} {request : Nat}
    {answer : Registered} (hprocess : w.host.process = some ⟨cfg, .waiting agentToken request⟩)
    (hanswer : (request, answer) ∈ w.answers) :
    w.deliver fingerprint request answer =
      { w with host :=
          w.host.goto cfg (.saving ⟨answer.agentId.1, answer.nodeId.1, agentToken⟩) } := by
  have hid := answer.agentId.2
  have hnode := answer.nodeId.2
  rw [World.deliver]
  simp only [hprocess, true_and, hanswer, if_true, Agent.Identity.step, Host.respond,
    Bool.not_true, Bool.false_eq_true, hid.1, hnode.1, hid.2, hnode.2, or_self, if_false]

/-- The secret is parked again, the request goes out, and its answer is saved. -/
theorem run_persisting {cfg : Config} {agentToken : String} {agentId : Word} {answer : Registered}
    (hvalid : AgentRegisterDto.valid ⟨cfg.registerToken, agentToken, details⟩ = true)
    (hregister : w.server.registerOnce hashAgentToken ⟨cfg.registerToken, agentToken, details⟩
      agentId = .ok (w.server, answer)) (hreplay : answer.replay = true) :
    (run (step fingerprint hashAgentToken registerToken)
      { w with host := h.goto cfg (.persisting agentToken) }
      [.advance now secret details, .advance now secret details, .process w.sent agentId,
        .deliver w.sent answer, .advance now secret details]).host.process =
      some ⟨cfg, .serving ⟨answer.agentId.1, answer.nodeId.1, agentToken⟩⟩ := by
  obtain ⟨h', hwritten⟩ : ∃ h' : Host, step fingerprint hashAgentToken registerToken
      { w with host := h.goto cfg (.persisting agentToken) } (.advance now secret details) =
        { w with host := h'.goto cfg (.requesting agentToken) } := by
    rw [step_advance_goto fun _ => Stage.noConfusion]
    exact ⟨_, rfl⟩
  obtain ⟨w₁, hsent, hserver, hwaiting, hrequest⟩ : ∃ w₁ : World,
      step fingerprint hashAgentToken registerToken
        { w with host := h'.goto cfg (.requesting agentToken) } (.advance now secret details) = w₁ ∧
      w₁.server = w.server ∧ w₁.host.process = some ⟨cfg, .waiting agentToken w.sent⟩ ∧
      w₁.requests.lookup w.sent = some ⟨cfg.registerToken, agentToken, details⟩ :=
    ⟨_, rfl, rfl, rfl, AList.lookup_insert _⟩
  rw [← hserver] at hregister
  rw [run_cons, hwritten, run_cons, hsent, run_cons]
  simp only [step, hrequest]
  rw [process_of_replay hvalid hregister hreplay, run_cons]
  simp only [step]
  rw [deliver_of_waiting (w := { w₁ with answers := (w.sent, answer) :: w₁.answers }) hwaiting
    List.mem_cons_self]
  rfl

/-- An attempt that nothing interrupts ends with the identity that the server stores for the
parked secret. -/
theorem retry_returns (htoken : registerToken ≠ "")
    (hc : Consistent fingerprint hashAgentToken registerToken w) {tokenHash : String}
    (hissued : Issued hashAgentToken registerToken w tokenHash) {agent : NodeAgent}
    (hagent : w.server.agents.lookup tokenHash = some agent) (hlive : agent.revokedAt = none)
    (hdetails : details.valid = true) (agentId : Word) :
    ∃ agentToken, hashAgentToken agentToken = tokenHash ∧
      (run (step fingerprint hashAgentToken registerToken) w
        (w.retry now secret details agentId ⟨agent.agentId, agent.nodeId, true⟩)).host.process =
        some ⟨installed registerToken false,
          .serving ⟨agent.agentId.1, agent.nodeId.1, agentToken⟩⟩ := by
  obtain ⟨request, input, hinput, rfl⟩ := hissued.request
  obtain ⟨htok, hpattern, hparked⟩ := hc.requests request input hinput
  refine ⟨input.agentToken, rfl, ?_⟩
  have hnone := hc.quiet ⟨request, input, hinput⟩
  have hsplit : w.retry now secret details agentId ⟨agent.agentId, agent.nodeId, true⟩ =
      [.crash, .start false, .advance now secret details] ++
        [.advance now secret details, .advance now secret details, .advance now secret details,
          .advance now secret details, .process w.sent agentId,
          .deliver w.sent ⟨agent.agentId, agent.nodeId, true⟩, .advance now secret details] := rfl
  rw [hsplit, run_append, run_to_resolving hnone]
  cases hcredentials : w.host.disk.lookup .credentials with
  | none =>
    rw [run_cons, step_resolving htoken hcredentials, run_cons, step_registering hparked hpattern]
    obtain ⟨record, agent', hrecord, hused, hnode, hagent', hhere⟩ := hissued.agent
    rw [hagent] at hagent'
    cases hagent'
    obtain ⟨node, hnode⟩ := Option.isSome_iff_exists.1 hnode
    have hreplay : w.server.registerOnce hashAgentToken
        ⟨registerToken, input.agentToken, details⟩ agentId =
          .ok (w.server, ⟨agent.agentId, record.nodeId, true⟩) :=
      Server.registerOnce_replay hrecord hnode hagent hhere hlive hused
    rw [← hhere] at hreplay
    refine run_persisting ?_ hreplay rfl
    simp [AgentRegisterDto.valid, installed, hissued.token, hpattern, hdetails]
  | some file =>
    have hspent : w.Spent := ⟨request, input, hinput⟩
    obtain ⟨identity, hcontent, hearned⟩ := (hc.saved file hcredentials).resolve_left
      fun hno => hno.1 hspent
    have hsaved : savedCredentials (credentialsFile fingerprint (installed registerToken false)
        identity) = .ok identity :=
      savedCredentials_credentialsFile hearned.backed hearned.pattern
    -- The saved token is the one that was sent, so the saved identity is that of the agent.
    have hsame : identity = ⟨agent.agentId.1, agent.nodeId.1, input.agentToken⟩ := by
      obtain ⟨agent', hagent', hid, hnode⟩ := hearned.backed
      have heq := hearned.parked.unique hparked
      rw [heq, hagent] at hagent'
      cases hagent'
      obtain ⟨agentId', nodeId', token'⟩ := identity
      simp only at hid hnode heq
      rw [hid, hnode, heq]
    rw [run_cons, step_resolving_saved hcredentials hcontent hsaved]
    refine process_of_serving _ _ (by rw [← hsame]; rfl) fun e he => ?_
    simp only [List.mem_cons, List.not_mem_nil, or_false] at he
    rcases he with rfl | rfl | rfl | rfl | rfl | rfl
    · exact .inl ⟨now, secret, details, rfl⟩
    · exact .inl ⟨now, secret, details, rfl⟩
    · exact .inl ⟨now, secret, details, rfl⟩
    · exact .inr (.inl ⟨_, _, rfl⟩)
    · exact .inr (.inr ⟨_, _, rfl⟩)
    · exact .inl ⟨now, secret, details, rfl⟩

end

/-! ## Main result -/

theorem World.Has.backed (hc : Consistent fingerprint hashAgentToken registerToken w)
    {identity : Credentials} (hhas : w.Has fingerprint registerToken identity) :
    Backed hashAgentToken w.server identity := by
  rcases hhas with ⟨p, hp, hstage⟩ | ⟨birth, fields, hfile, hours, hsaved⟩
  · have h := hc.stage p hp
    rw [hstage] at h
    exact h
  · rcases hc.saved _ hfile with ⟨-, hno⟩ | ⟨identity', hcontent, hearned⟩
    · exact absurd hours hno
    · cases hcontent
      rw [savedCredentials_credentialsFile hearned.backed hearned.pattern] at hsaved
      cases hsaved
      exact hearned.backed

/-- In every run from a register token that was not used yet: at most one agent is created for the
token; an identity that the agent has is stored by the server, the hash of its token under its
agent and node; and as long as the agent of the token is not revoked, an attempt that nothing
interrupts returns its identity, whatever the time is. -/
theorem registration_exactly_once (fingerprint : String → Word)
    (hashAgentToken : String → String) (registerToken : String) (w₀ : World)
    (hfresh : w₀.Fresh fingerprint registerToken) (events : List Event) (w : World)
    (hrun : w = run (step fingerprint hashAgentToken registerToken) w₀ events) :
    w.created.length ≤ 1 ∧
    (∀ identity, w.Has fingerprint registerToken identity →
      Backed hashAgentToken w.server identity) ∧
    ∀ tokenHash ∈ w.created, ∀ agent, w.server.agents.lookup tokenHash = some agent →
      agent.revokedAt = none → ∀ now secret details agentId, details.valid = true →
        ∃ agentToken, hashAgentToken agentToken = tokenHash ∧
          (run (step fingerprint hashAgentToken registerToken) w
            (w.retry now secret details agentId ⟨agent.agentId, agent.nodeId, true⟩)).host.process =
            some ⟨installed registerToken false,
              .serving ⟨agent.agentId.1, agent.nodeId.1, agentToken⟩⟩ := by
  have hc : Consistent fingerprint hashAgentToken registerToken w := by
    rw [hrun]
    exact run_keeps (fun _ e hc => hc.step hfresh.token e) hfresh.consistent events
  refine ⟨?_, fun identity hhas => hhas.backed hc, ?_⟩
  · rcases hc.created with hnone | ⟨tokenHash, hone, -⟩
    · rw [hnone]
      exact Nat.zero_le 1
    · rw [hone]
      exact Nat.le_refl 1
  · intro tokenHash hmem agent hagent hlive now secret details agentId hdetails
    rcases hc.created with hnone | ⟨tokenHash', hone, hissued⟩
    · rw [hnone] at hmem
      cases hmem
    · rw [hone, List.mem_singleton] at hmem
      subst hmem
      exact retry_returns hfresh.token hc hissued hagent hlive hdetails agentId

end

/-! ### A lost answer and an expired token -/

namespace LostAnswer

/-- Any fingerprint. -/
def fingerprint (_ : String) : Word := ⟨"f", by decide⟩

/-- A node. -/
def node : Word := ⟨"n", by decide⟩

/-- The id of its agent. -/
def agentId : Word := ⟨"agent-1", by decide⟩

theorem isToken :
    agentTokenPattern "chordv_agent_0123456789012345678901234567890123456789012" = true := by
  decide

/-- A token of the agent. -/
def secret : AgentToken := ⟨"chordv_agent_0123456789012345678901234567890123456789012", isToken⟩

/-- What the host says of itself. -/
def details : HostDetails := ⟨"h", "linux-x64", "go-1", none, "b"⟩

/-- A pending node with a token that lasts ten seconds, and an empty host. -/
def first : World where
  server :=
    { nodes := AList.insert node ⟨some .pendingRegister, none, 0, none⟩ ∅
      tokens := AList.insert "r" ⟨node, 10, none⟩ ∅ }

/-- The server commits, the answer is lost with the process, and the token expires. -/
def events : List Event :=
  [.start false] ++ List.replicate 5 (.advance 0 secret details) ++
    [.process 0 agentId, .crash, .tick 20]

/-- The world after the run. -/
def last : World := run (step fingerprint (fun t => t) "r") first events

theorem fresh : first.Fresh fingerprint "r" where
  token := by decide
  process := rfl
  saved := by
    intro file hfile
    cases hfile
  requests := rfl
  answers := rfl
  created := rfl

end LostAnswer

/-- The next start returns the identity that was registered. -/
theorem lostAnswer_recovered :
    ∃ agentToken, agentToken = LostAnswer.secret.1 ∧
      (run (step LostAnswer.fingerprint (fun t => t) "r") LostAnswer.last
        (LostAnswer.last.retry 0 LostAnswer.secret LostAnswer.details LostAnswer.agentId
          ⟨LostAnswer.agentId, LostAnswer.node, true⟩)).host.process =
        some ⟨installed "r" false, .serving ⟨"agent-1", "n", agentToken⟩⟩ :=
  (registration_exactly_once LostAnswer.fingerprint (fun t => t) "r" LostAnswer.first
    LostAnswer.fresh LostAnswer.events LostAnswer.last rfl).2.2 LostAnswer.secret.1
    (by decide +kernel)
    ⟨LostAnswer.agentId, LostAnswer.node, some "go-1", some "b", some 0, none⟩
    (by decide +kernel) rfl 0 LostAnswer.secret LostAnswer.details LostAnswer.agentId
    (by decide +kernel)

end ChordV.Api.Registration
