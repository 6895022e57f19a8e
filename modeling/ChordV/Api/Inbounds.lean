import Mathlib.Data.List.Sort
import ChordV.Api.Model

/-!
# Inbound deployments of a node

The `ENSURE_INBOUND` commands of one node: how `queueCommand` of
`apps/api/src/modules/agent/agent.service.ts` collapses repeated requests onto one job, how
`completeCommand` takes a report and `applyInboundReport` writes it on the node, and how the
retry sweep claims and cancels a job.

* A transaction runs under the lock of the `Node` row, so each one is a single step on `Desk`.
* A payload stands here as it was normalised.  What `normalizeInboundSpec` and
  `normalizePanelInbound` refuse never reaches the transaction.
* `randomUUID` is a counter.  A dedupe key is the tree of its text: a released key holds the
  key it replaces and the id of its own job.
* `specHash` stands for the `sha256` of the JSON text of a payload, and `isPublic` for
  `isPublicUnicastAddress`.
-/

namespace ChordV.Api.Inbounds

open Lib Fallible

/-! ## Payloads -/

/-- A spec after its checks. -/
structure NormalizedInboundSpec where
  inboundTag : String
  listenPort : Nat
  dest : String
  serverNames : List String
  flow : String
  fingerprint : String
  spiderX : String
  rotateKeys : Bool
  deriving DecidableEq, Repr

/-- The parameters of a panel inbound.  An imported link names one server name. -/
structure PanelInboundSpec where
  inboundTag : String
  listenPort : Nat
  serverHost : String
  realityPublicKey : String
  shortId : String
  serverName : String
  flow : String
  fingerprint : String
  spiderX : String
  panelVersion : String
  tagOverrideConfirmed : Bool
  deriving DecidableEq, Repr

/-- The payload of an `ENSURE_INBOUND` command, by its mode. -/
inductive InboundSpec where
  | deploy (spec : NormalizedInboundSpec)
  | validatePanel (spec : PanelInboundSpec)
  deriving DecidableEq, Repr

/-- What `inboundSpecKey` hashes: the payload with its server names in order. -/
def InboundSpec.identity : InboundSpec → InboundSpec
  | .deploy spec => .deploy { spec with serverNames := spec.serverNames.insertionSort (· ≤ ·) }
  | .validatePanel spec => .validatePanel spec

/-- Two payloads that order the same deployment: they differ at most in the order of the
server names. -/
def InboundSpec.SameDeployment : InboundSpec → InboundSpec → Prop
  | .deploy a, .deploy b =>
    a.serverNames.Perm b.serverNames ∧ a = { b with serverNames := a.serverNames }
  | .validatePanel a, .validatePanel b => a = b
  | _, _ => False

/-- The tag that `normalizePanelInbound` derives from the port. -/
def PanelInboundSpec.derivedTag (spec : PanelInboundSpec) : String :=
  "inbound-" ++ toString spec.listenPort

/-- A request whose tag is not confirmed takes the tag of the applied deployment. -/
def inheritTag (applied : Option InboundSpec) (spec : PanelInboundSpec) : PanelInboundSpec :=
  if spec.tagOverrideConfirmed then spec
  else
    match applied with
    | some (.validatePanel old) =>
      { spec with inboundTag := old.inboundTag, tagOverrideConfirmed := true }
    | _ => spec

/-! ## Rows -/

/-- The parameters that clients dial, as a report leaves them on the node. -/
structure InboundReportFields where
  serverHost : String
  serverPort : Nat
  realityPublicKey : String
  shortId : String
  serverName : String
  flow : String
  fingerprint : String
  spiderX : String
  deriving DecidableEq, Repr

/-- The `inbound` part of a result.  A field of another type than the one read is absent. -/
structure InboundReport where
  validatePanel : Bool := false
  validated : Bool := false
  serverHost : Option String := none
  serverPort : Option Nat := none
  realityPublicKey : Option String := none
  shortId : Option String := none
  serverName : Option String := none
  inboundTag : Option String := none
  flow : Option String := none
  fingerprint : Option String := none
  spiderX : Option String := none
  deriving DecidableEq, Repr

/-- How a job gave its dedupe key back. -/
inductive Release where
  | superseded
  | done
  | cancelled
  deriving DecidableEq, Repr

/-- What a job is deduplicated by. -/
inductive DedupeKey where
  /-- `inboundSpecKey`. -/
  | spec (hash : String)
  /-- The key of the job that a registration queues. -/
  | onboarding
  | released (key : DedupeKey) (how : Release) (jobId : Nat)
  deriving DecidableEq, Repr

/-- One `ENSURE_INBOUND` row of `NodeCommandJob`. -/
structure InboundJob where
  dedupeKey : DedupeKey
  agentId : String
  targetRevision : Nat
  payload : InboundSpec
  status : JobStatus := .pending
  attempts : Nat := 0
  result : Option InboundReport := none
  deriving DecidableEq, Repr

/-- The columns of the `Node` row that deployments read and write. -/
structure InboundNode where
  agentConfigRevision : Nat := 0
  inboundAppliedRevision : Nat := 0
  isActive : Bool := false
  agentReady : Bool := false
  /-- `onboardingSpec.mode` is `awaiting_panel`. -/
  awaitingPanel : Bool := false
  activateOnFirstValidation : Bool := false
  inbound : InboundReportFields
  deriving DecidableEq, Repr

/-- One node with its deployments. -/
structure Desk where
  node : InboundNode
  jobs : Table Nat InboundJob := ∅
  nextId : Nat := 0

/-- Why a request is refused. -/
inductive InboundError where
  | panelOnly
  | goAgentOnly
  | tagUnconfirmed
  | nodeActive
  | environmentNotReady
  | revisionRequired
  | staleForm
  | commandMissing
  | keyTaken
  | reportMissing
  | reportMismatch (field : String)
  | staleReport
  deriving DecidableEq, Repr

/-! ## Requests -/

/-- The agent that a command is queued for. -/
structure Credential where
  id : String
  version : Option String
  deriving DecidableEq, Repr

/-- The agent is the Go one. -/
def Credential.isGo (agent : Credential) : Bool :=
  match agent.version with
  | some version => "go-".toList.isPrefixOf version.toList
  | none => false

/-- One request for `queueCommand`, with what it reads before its transaction: the applied
deployment, and whether the agent is live and its environment ready. -/
structure InboundRequest where
  agent : Credential
  spec : InboundSpec
  applied : Option InboundSpec := none
  expectedInboundAppliedRevision : Option Nat := none
  environmentReady : Bool := true
  deriving DecidableEq, Repr

/-- The payload of a request, or the refusal before the transaction. -/
def InboundRequest.payload (request : InboundRequest) : Except InboundError InboundSpec :=
  match request.spec with
  | .deploy spec => do
    require (request.agent.isGo = false) .panelOnly
    return .deploy spec
  | .validatePanel spec => do
    require (request.agent.isGo = true) .goAgentOnly
    let spec := inheritTag request.applied spec
    require (spec.tagOverrideConfirmed ∨ spec.inboundTag = spec.derivedTag) .tagUnconfirmed
    return .validatePanel spec

/-- What the transaction demands of a panel validation. -/
def requireValidation (request : InboundRequest) (payload : InboundSpec) (node : InboundNode) :
    Except InboundError Unit :=
  match payload with
  | .deploy _ => .ok ()
  | .validatePanel _ => do
    require (node.isActive = false) .nodeActive
    require (node.awaitingPanel ∧ node.inboundAppliedRevision = 0 → request.environmentReady)
      .environmentNotReady
    require (request.expectedInboundAppliedRevision.isSome) .revisionRequired

namespace Desk

/-- The job that holds a dedupe key. -/
def holder (d : Desk) (key : DedupeKey) : Option (Nat × InboundJob) :=
  d.jobs.pairs.find? fun p => p.2.dedupeKey = key

/-- The next configuration revision of the node. -/
def bump (d : Desk) : Desk :=
  { d with node := { d.node with agentConfigRevision := d.node.agentConfigRevision + 1 } }

/-- Add a job at the current configuration revision. -/
def create (d : Desk) (key : DedupeKey) (agentId : String) (payload : InboundSpec) : Desk :=
  let job := { dedupeKey := key, agentId, targetRevision := d.node.agentConfigRevision, payload }
  { d with jobs := d.jobs.insert d.nextId job, nextId := d.nextId + 1 }

/-- The outstanding job gives its key back if a newer deployment was ordered since, or if it
has ended. -/
def releaseSuperseded (d : Desk) (key : DedupeKey) : Desk :=
  match d.holder key with
  | none => d
  | some (id, outstanding) =>
    let intervening := d.jobs.pairs.any fun p =>
      decide (outstanding.targetRevision < p.2.targetRevision)
    if intervening ∨ outstanding.status = .failed ∨ outstanding.status = .cancelled then
      let released := { outstanding with dedupeKey := .released key .superseded id }
      { d with jobs := d.jobs.insert id released }
    else d

end Desk

section Operations

variable (specHash : InboundSpec → String)

/-- `inboundSpecKey`. -/
def inboundSpecKey (payload : InboundSpec) : DedupeKey := .spec (specHash payload.identity)

/-- `queueCommand` for an `ENSURE_INBOUND` without an explicit dedupe key.  It answers with
the job that the request stands for. -/
def queueCommand (request : InboundRequest) (d : Desk) :
    Except InboundError ((Nat × InboundJob) × Desk) := do
  let payload ← request.payload
  requireValidation request payload d.node
  let d := d.bump
  require (∀ expected ∈ request.expectedInboundAppliedRevision,
    expected = d.node.inboundAppliedRevision) .staleForm
  let key := inboundSpecKey specHash payload
  let d := d.releaseSuperseded key
  match d.holder key with
  | some replayed => return (replayed, d)
  | none =>
    let job := { dedupeKey := key, agentId := request.agent.id,
                 targetRevision := d.node.agentConfigRevision, payload }
    return ((d.nextId, job), d.create key request.agent.id payload)

end Operations

/-! ## Reports -/

/-- The white space that `String.prototype.trim` removes. -/
def isBlank (c : Char) : Bool :=
  [9, 10, 11, 12, 13, 32, 160, 0x1680, 0x2028, 0x2029, 0x202f, 0x205f, 0x3000, 0xfeff].contains
      c.toNat ||
    (decide (0x2000 ≤ c.toNat) && decide (c.toNat ≤ 0x200a))

/-- Without the blanks at both ends. -/
def trim (s : String) : String :=
  String.ofList ((s.toList.dropWhile isBlank).reverse.dropWhile isBlank).reverse

/-- A text field of a report, trimmed.  An absent one reads as empty. -/
def trimmed (field : Option String) : String := trim (field.getD "")

/-- A character of an inbound tag. -/
def isTagChar (c : Char) : Bool := c.isAlphanum || c == '_' || c == '-'

/-- A digit of a short id. -/
def isLowerHex (c : Char) : Bool := c.isDigit || (decide ('a' ≤ c) && decide (c ≤ 'f'))

/-- `/^[A-Za-z0-9_-]{43}$/`. -/
def isRealityPublicKey (s : String) : Bool := s.length = 43 && s.toList.all isTagChar

/-- `/^(?:[0-9a-f]{2}){1,8}$/`. -/
def isShortId (s : String) : Bool :=
  s.length % 2 = 0 && 2 ≤ s.length && s.length ≤ 16 && s.toList.all isLowerHex

/-- `/^[A-Za-z0-9_-]{1,32}$/`. -/
def isTag (s : String) : Bool := 1 ≤ s.length && s.length ≤ 32 && s.toList.all isTagChar

/-- `parseInboundReport`. -/
def parseInboundReport (isPublic : String → Bool) (result : Option InboundReport)
    (spec : NormalizedInboundSpec) : Except InboundError InboundReportFields :=
  match result with
  | none => throw .reportMissing
  | some report => do
    require (isPublic (trimmed report.serverHost)) (.reportMismatch "serverHost")
    require (report.serverPort = some spec.listenPort) (.reportMismatch "serverPort")
    require (isRealityPublicKey (trimmed report.realityPublicKey))
      (.reportMismatch "realityPublicKey")
    require (isShortId (trimmed report.shortId)) (.reportMismatch "shortId")
    require (trimmed report.serverName ∈ spec.serverNames) (.reportMismatch "serverName")
    require (report.inboundTag = some spec.inboundTag) (.reportMismatch "inboundTag")
    require (report.flow = some spec.flow) (.reportMismatch "flow")
    require (report.fingerprint = some spec.fingerprint) (.reportMismatch "fingerprint")
    require (report.spiderX = some spec.spiderX) (.reportMismatch "spiderX")
    return {
      serverHost := trimmed report.serverHost
      serverPort := spec.listenPort
      realityPublicKey := trimmed report.realityPublicKey
      shortId := trimmed report.shortId
      serverName := trimmed report.serverName
      flow := spec.flow
      fingerprint := spec.fingerprint
      spiderX := spec.spiderX }

/-- `parsePanelReport`, with the tag that the report names. -/
def parsePanelReport (result : Option InboundReport) (spec : PanelInboundSpec) :
    Except InboundError (String × InboundReportFields) :=
  match result with
  | none => throw .reportMissing
  | some report => do
    require (report.validatePanel ∧ report.validated) .reportMissing
    let tag := report.inboundTag.getD ""
    require (isTag tag ∧ (spec.tagOverrideConfirmed → tag = spec.inboundTag))
      (.reportMismatch "inboundTag")
    require (report.serverPort = some spec.listenPort) (.reportMismatch "serverPort")
    require (report.serverHost = some spec.serverHost) (.reportMismatch "serverHost")
    require (report.realityPublicKey = some spec.realityPublicKey)
      (.reportMismatch "realityPublicKey")
    require (report.shortId = some spec.shortId) (.reportMismatch "shortId")
    require (report.serverName = some spec.serverName) (.reportMismatch "serverName")
    require (report.flow = some spec.flow) (.reportMismatch "flow")
    require (report.fingerprint = some spec.fingerprint) (.reportMismatch "fingerprint")
    require (report.spiderX = some spec.spiderX) (.reportMismatch "spiderX")
    return (tag, {
      serverHost := spec.serverHost
      serverPort := spec.listenPort
      realityPublicKey := spec.realityPublicKey
      shortId := spec.shortId
      serverName := spec.serverName
      flow := spec.flow
      fingerprint := spec.fingerprint
      spiderX := spec.spiderX })

section Operations

variable (isPublic : String → Bool)

/-- The parameters that a report carries for a payload. -/
def InboundSpec.reported (payload : InboundSpec) (result : Option InboundReport) :
    Except InboundError InboundReportFields :=
  match payload with
  | .deploy spec => parseInboundReport isPublic result spec
  | .validatePanel spec => (parsePanelReport result spec).map Prod.snd

/-- Write the parameters of a report on the node. -/
def InboundNode.apply (node : InboundNode) (revision : Nat) (fields : InboundReportFields) :
    InboundNode :=
  { node with inbound := fields, inboundAppliedRevision := revision }

/-- `applyInboundReport`: a deployment is written unless a newer one was, a panel validation
freezes its tag and is refused where it cannot be written. -/
def applyInboundReport (id : Nat) (job : InboundJob) (d : Desk) : Except InboundError Desk :=
  match job.payload with
  | .deploy spec => do
    let fields ← parseInboundReport isPublic job.result spec
    if d.node.inboundAppliedRevision < job.targetRevision then
      return { d with node := d.node.apply job.targetRevision fields }
    else return d
  | .validatePanel spec => do
    let (inboundTag, fields) ← parsePanelReport job.result spec
    let frozen := { spec with inboundTag, tagOverrideConfirmed := true }
    let d := { d with jobs := d.jobs.insert id { job with payload := .validatePanel frozen } }
    if d.node.inboundAppliedRevision = 0 ∧ d.node.agentReady ∧ d.node.isActive = false ∧
        d.node.activateOnFirstValidation then
      return { d with node := { d.node.apply job.targetRevision fields with isActive := true } }
    else if d.node.inboundAppliedRevision < job.targetRevision ∧ d.node.isActive = false then
      return { d with node := d.node.apply job.targetRevision fields }
    else throw .staleReport

/-- `completeCommand` for an `ENSURE_INBOUND` job. -/
def completeCommand (agentId : String) (id : Nat) (completed : Bool)
    (result : Option InboundReport) (d : Desk) : Except InboundError Desk :=
  match d.jobs.lookup id with
  | none => throw .commandMissing
  | some job => do
    require (job.agentId = agentId ∧ job.status.outstanding = true) .commandMissing
    if completed then
      let job := { job with status := .completed, result,
                            dedupeKey := .released job.dedupeKey .done id }
      applyInboundReport isPublic id job { d with jobs := d.jobs.insert id job }
    else
      return { d with jobs := d.jobs.insert id { job with status := .failed, result } }

end Operations

/-! ## The sweep and the registration -/

/-- The attempts after which the sweep gives a command up. -/
def attemptLimit : Nat := 8

/-- One cancellation of `retryDueCommands`. -/
def cancelExhausted (id : Nat) (d : Desk) : Desk :=
  match d.jobs.lookup id with
  | none => d
  | some job =>
    if job.status.outstanding ∧ attemptLimit ≤ job.attempts then
      let cancelled := { job with status := .cancelled
                                  dedupeKey := .released job.dedupeKey .cancelled id }
      { d with jobs := d.jobs.insert id cancelled }
    else d

/-- One claim of `retryDueCommands`. -/
def claimDue (id : Nat) (d : Desk) : Desk :=
  match d.jobs.lookup id with
  | none => d
  | some job =>
    if job.status.outstanding ∧ job.attempts < attemptLimit then
      let claimed := { job with status := .running, attempts := job.attempts + 1 }
      { d with jobs := d.jobs.insert id claimed }
    else d

/-- What a registration leaves on the node and in the queue. -/
def registerAgent (agentId : String) (spec : PanelInboundSpec) (d : Desk) :
    Except InboundError Desk := do
  let d := d.bump
  require (d.holder .onboarding = none) .keyTaken
  let d := d.create .onboarding agentId (.validatePanel spec)
  return { d with node := { d.node with agentReady := true, awaitingPanel := false } }

/-- One step of the control plane on the deployments of a node. -/
inductive DeskEvent where
  | queue (request : InboundRequest)
  | complete (agentId : String) (id : Nat) (completed : Bool) (result : Option InboundReport)
  | cancel (id : Nat)
  | claim (id : Nat)
  | register (agentId : String) (spec : PanelInboundSpec)
  /-- A command of another type takes a configuration revision. -/
  | otherCommand
  /-- An administrator or the onboarding writes the other columns of the node. -/
  | administer (isActive agentReady awaitingPanel activateOnFirstValidation : Bool)
  deriving DecidableEq, Repr

section Operations

variable (specHash : InboundSpec → String) (isPublic : String → Bool)

/-- What a fallible transaction leaves: its result, or the old state. -/
def committed (d : Desk) : Except InboundError Desk → Desk
  | .ok d' => d'
  | .error _ => d

/-- One request or sweep. -/
def Desk.step (d : Desk) : DeskEvent → Desk
  | .queue request => committed d ((queueCommand specHash request d).map Prod.snd)
  | .complete agentId id completed result =>
    committed d (completeCommand isPublic agentId id completed result d)
  | .cancel id => cancelExhausted id d
  | .claim id => claimDue id d
  | .register agentId spec => committed d (registerAgent agentId spec d)
  | .otherCommand => d.bump
  | .administer isActive agentReady awaitingPanel activateOnFirstValidation =>
    { d with
      node := { d.node with isActive, agentReady, awaitingPanel, activateOnFirstValidation } }

/-- A run of the deployments of a node. -/
def Desk.run (d : Desk) (events : List DeskEvent) : Desk :=
  events.foldl (Desk.step specHash isPublic) d

end Operations

end ChordV.Api.Inbounds
