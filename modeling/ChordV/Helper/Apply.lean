import Mathlib.Data.List.Sort
import ChordV.Lib.Program

/-!
# The root helper of inbound deployments

`applyRequest` of `apps/node-agent/src/xray-apply.ts` with what it calls: `readState`,
`requestHash`, `renderInbound` and `publishAndRestart`, and the part of `main` that turns what it
throws into a result.

* A request is given as `parseRequest` returns it.  Its id is not read here.
* Two files matter: the fragment `50-inbound.json` and the state file.  A file is given by what
  was written with `JSON.stringify`, or it is another text.  The members of a rendered inbound
  that are constants are left out.
* `Env` is what the world outside answers during one request: the checks, the key generator, the
  service manager and the socket tables.  A write that fails has not replaced its file.
* Replacing or removing a file and restarting Xray are actions before which the helper may be
  killed.  So is writing the result, after which a request has ended.
* `sha256` stands for the digest of the JSON text of its argument.
-/

namespace ChordV.Helper

open Lib

/-! ## Requests -/

/-- `mode` of a request. -/
inductive Mode where
  | ensure
  | reset
  | status
  deriving DecidableEq, Repr

/-- `InboundRequest`. -/
structure InboundRequest where
  commandId : String := ""
  requireListen : String := ""
  mode : Mode := .ensure
  inboundTag : String := ""
  listenPort : Nat := 0
  dest : String := ""
  serverNames : List String := []
  flow : String := ""
  fingerprint : String := ""
  spiderX : String := ""
  rotateKeys : Bool := false
  deriving DecidableEq, Repr

/-- What `requestHash` hashes. -/
structure Identity where
  inboundTag : String
  listenPort : Nat
  dest : String
  serverNames : List String
  flow : String
  fingerprint : String
  spiderX : String
  deriving DecidableEq, Repr

/-- The hash of what identifies a request. -/
def requestHash (sha256 : Identity → String) (request : InboundRequest) : String :=
  sha256
    { inboundTag := request.inboundTag, listenPort := request.listenPort, dest := request.dest
      serverNames := request.serverNames.insertionSort (· ≤ ·), flow := request.flow
      fingerprint := request.fingerprint, spiderX := request.spiderX }

/-- The keys of an inbound. -/
structure RealityKeys where
  privateKey : String
  publicKey : String
  shortId : String
  deriving DecidableEq, Repr

/-! ## Files -/

/-- The inbound that `renderInbound` writes. -/
structure Inbound where
  tag : String
  listen : String
  port : Nat
  dest : String
  serverNames : List String
  privateKey : String
  shortId : String
  deriving DecidableEq, Repr

/-- The inbound that is written. -/
def renderInbound (request : InboundRequest) (keys : RealityKeys) (listen : String) : Inbound :=
  { tag := request.inboundTag, listen, port := request.listenPort, dest := request.dest
    serverNames := request.serverNames, privateKey := keys.privateKey, shortId := keys.shortId }

/-- A text of `50-inbound.json`. -/
inductive Fragment where
  /-- `EMPTY_INBOUND_FRAGMENT`. -/
  | empty
  | inbound (inbound : Inbound)
  | other (text : String)
  deriving DecidableEq, Repr

/-- The object in a state file.  A member of another type than the one read is absent. -/
structure Record where
  hash : Option String
  keys : Option RealityKeys
  serverName : Option String := none
  listen : Option String := none
  listenPort : Option Nat := none
  pinnedDest : Option String := none
  pending : Bool := false
  commandId : Option String := none
  /-- The members that nothing reads. -/
  rest : String := ""
  deriving DecidableEq, Repr

/-- A text of the state file. -/
inductive StateFile where
  | record (record : Record)
  | other (text : String)
  deriving DecidableEq, Repr

/-- What `readState` returns. -/
structure State where
  hash : String
  keys : RealityKeys
  serverName : String
  listen : String
  listenPort : Nat
  pinnedDest : String
  pending : Bool
  commandId : String
  deriving DecidableEq, Repr

/-- No key of a pair is empty. -/
def RealityKeys.present (keys : RealityKeys) : Bool :=
  keys.privateKey ≠ "" && keys.publicKey ≠ "" && keys.shortId ≠ ""

/-- The record, unless fields are missing. -/
def readState : Option StateFile → Option State
  | some (.record record) =>
    match record.hash, record.keys with
    | some hash, some keys =>
      if keys.present then
        some
          { hash, keys, serverName := record.serverName.getD "", listen := record.listen.getD ""
            listenPort := record.listenPort.getD 0, pinnedDest := record.pinnedDest.getD ""
            pending := record.pending, commandId := record.commandId.getD "" }
      else none
    | _, _ => none
  | _ => none

/-- The text that a state is written as. -/
def State.file (state : State) (rest : String) : StateFile :=
  .record
    { hash := some state.hash, keys := some state.keys, serverName := some state.serverName
      listen := some state.listen, listenPort := some state.listenPort
      pinnedDest := some state.pinnedDest, pending := state.pending
      commandId := some state.commandId, rest }

theorem readState_file {state : State} (h : state.keys.present = true) (rest : String) :
    readState (some (state.file rest)) = some state := by
  simp [State.file, readState, h]

/-- The two files. -/
structure Files where
  fragment : Option Fragment := none
  state : Option StateFile := none
  deriving DecidableEq, Repr

/-! ## The world of a request -/

/-- The files, and what was done to them during one request. -/
structure World where
  files : Files
  generated : List RealityKeys := []
  /-- The fragments that were published.  A fragment that is put back is not. -/
  published : List Fragment := []
  restarts : Nat := 0
  deriving DecidableEq, Repr

namespace World

/-- The fragment is replaced. -/
def publish (contents : Fragment) (w : World) : World :=
  { w with
    files := { w.files with fragment := some contents }
    published := w.published ++ [contents] }

/-- The fragment is restored. -/
def putBack (fragment : Option Fragment) (w : World) : World :=
  { w with files := { w.files with fragment } }

/-- The state file is replaced. -/
def setState (state : Option StateFile) (w : World) : World :=
  { w with files := { w.files with state } }

/-- Xray is restarted. -/
def restarted (w : World) : World := { w with restarts := w.restarts + 1 }

/-- A pair of keys is generated. -/
def recordKeys (keys : RealityKeys) (w : World) : World :=
  { w with generated := w.generated ++ [keys] }

end World

/-- A replacement that is not a roll-back. -/
inductive Write where
  | journal
  | fragment
  | committed
  deriving DecidableEq, Repr

/-- The answers during one request, in the order in which they are asked for. -/
structure Env where
  reservedInboundTags : Except String (List String)
  assertPublicDest : Except String String
  /-- `isListening` for a redelivered command, and for a deployment that is in place. -/
  serving : Nat → Bool
  stillServing : Nat → Bool
  generateKeys : Except String RealityKeys
  resolveListen : Except String String
  assertPortAvailable : Except String Unit
  assertConfigValid : Except String Unit
  write : Write → Except String Unit
  restart : Except String Unit
  /-- `isListening` after the restart. -/
  isListening : Nat → Bool
  now : String
  xrayVersion : String

/-- A part of a request. -/
abbrev Action := Prog String World

/-- `ApplyOutcome`. -/
structure ApplyOutcome where
  deployed : Bool := false
  listen : String := ""
  changed : Bool := false
  restarted : Bool := false
  realityPublicKey : String := ""
  shortId : String := ""
  serverName : String := ""
  listenPort : Nat := 0
  xrayVersion : String
  deriving DecidableEq, Repr

/-! ## Publishing -/

/-- `writeFileAtomic`. -/
def writeFileAtomic (env : Env) (write : Write) (f : World → World) : Action Unit := do
  liftExcept (env.write write)
  surely f

/-- Writes the fragment and restarts, or rolls back. -/
def publishAndRestart (env : Env) (contents : Fragment) (port : Nat) : Action Unit := do
  let previous ← peek (·.files.fragment)
  writeFileAtomic env .fragment (World.publish contents)
  let rollback (reason : String) : Action Unit := do
    surely (World.putBack previous)
    surely World.restarted
    fail (reason ++ "，已回滚上一份配置")
  surely World.restarted
  match env.restart with
  | .error e => rollback ("重启 Xray 失败：" ++ e)
  | .ok () =>
    if 0 < port && !env.isListening port then
      rollback ("Xray 未能在端口 " ++ toString port ++ " 上开始监听")
    else pure ()

/-! ## Answers without a change -/

/-- `a || b`. -/
def orText (a b : String) : String := if a = "" then b else a

/-- `a || b` for ports. -/
def orPort (a b : Nat) : Nat := if a = 0 then b else a

/-- `isEmptyFragment`, or no fragment at all. -/
def servesNobody (fragment : Option Fragment) : Bool :=
  fragment = none || fragment = some .empty

/-- The answer to `status`. -/
def statusOutcome (env : Env) (files : Files) : ApplyOutcome :=
  let state := readState files.state
  { deployed := state.isSome || !servesNobody files.fragment
    listen := (state.map (·.listen)).getD ""
    realityPublicKey := (state.map (·.keys.publicKey)).getD ""
    shortId := (state.map (·.keys.shortId)).getD ""
    serverName := (state.map (·.serverName)).getD ""
    listenPort := (state.map (·.listenPort)).getD 0
    xrayVersion := env.xrayVersion }

/-- The answer to an ensure that finds its inbound in place. -/
def unchanged (request : InboundRequest) (env : Env) (state : State) : ApplyOutcome :=
  { deployed := true, listen := orText state.listen "0.0.0.0"
    realityPublicKey := state.keys.publicKey, shortId := state.keys.shortId
    serverName := orText state.serverName (request.serverNames.headD "")
    listenPort := orPort state.listenPort request.listenPort, xrayVersion := env.xrayVersion }

/-- The fragment is the one that is recorded. -/
def configMatches (request : InboundRequest) (fragment : Option Fragment) (recorded : State) :
    Bool :=
  fragment = some (.inbound (renderInbound
    { request with
      listenPort := orPort recorded.listenPort request.listenPort
      dest := orText recorded.pinnedDest request.dest }
    recorded.keys (orText recorded.listen "0.0.0.0")))

/-- The recorded address is the one that is asked for. -/
def familyMatches (request : InboundRequest) (recorded : State) : Bool :=
  request.requireListen = "" || orText recorded.listen "0.0.0.0" = request.requireListen

/-- What both answers without a change ask of the state and of the fragment. -/
def inPlace (request : InboundRequest) (files : Files) (state : State)
    (serving : Nat → Bool) : Bool :=
  !state.pending && configMatches request files.fragment state && familyMatches request state &&
    0 < orPort state.listenPort request.listenPort &&
    serving (orPort state.listenPort request.listenPort)

/-- The command was recorded before. -/
def sameCommand (request : InboundRequest) (state : State) : Bool :=
  request.commandId ≠ "" && state.commandId = request.commandId

/-- The state whose deployment answers a request. -/
def inPlace? (sha256 : Identity → String) (request : InboundRequest) (env : Env) (files : Files) :
    Option State :=
  (readState files.state).filter fun state =>
    sameCommand request state && inPlace request files state env.serving ||
      state.hash = requestHash sha256 request && !request.rotateKeys &&
        inPlace request files state env.stillServing

/-- The recorded keys, where a request keeps them. -/
def reusableKeys (request : InboundRequest) (files : Files) : Option RealityKeys :=
  ((readState files.state).filter fun state =>
    !request.rotateKeys || sameCommand request state).map (·.keys)

/-! ## Requests -/

/-- What a reset does once it is journaled. -/
def dropInbound (env : Env) (committed : Option StateFile) : Action ApplyOutcome := do
  match ← attempt (publishAndRestart env .empty 0) with
  | .error e =>
    match committed with
    | some committed => surely (World.setState (some committed))
    | none => pure ()
    fail e
  | .ok () =>
    surely (World.setState none)
    return { changed := true, restarted := true, xrayVersion := env.xrayVersion }

/-- Takes the inbound away. -/
def resetInbound (env : Env) : Action ApplyOutcome := do
  let files ← peek (·.files)
  let state := readState files.state
  if state.isNone && servesNobody files.fragment then
    return { xrayVersion := env.xrayVersion }
  liftExcept env.assertConfigValid
  match state with
  | some state =>
    writeFileAtomic env .journal
      (World.setState (some (State.file { state with pending := true } "")))
    dropInbound env files.state
  | none => dropInbound env files.state

/-- What an ensure does once its keys and its address are known. -/
def deploy (env : Env) (contents : Inbound) (state : State) (outcome : ApplyOutcome) :
    Action ApplyOutcome := do
  let committed ← peek (·.files.state)
  writeFileAtomic env .journal
    (World.setState (some (State.file { state with pending := true } env.now)))
  match ← attempt (publishAndRestart env (.inbound contents) contents.port) with
  | .error e =>
    surely (World.setState committed)
    fail e
  | .ok () =>
    writeFileAtomic env .committed
      (World.setState (some (State.file { state with pending := false } env.now)))
    return outcome

/-- `reusable ?? deps.generateKeys()`. -/
def chooseKeys (request : InboundRequest) (env : Env) (files : Files) : Action RealityKeys :=
  match reusableKeys request files with
  | some keys => pure keys
  | none => do
    let keys ← liftExcept env.generateKeys
    poke (World.recordKeys keys)
    return keys

/-- Deploys the inbound. -/
def ensureInbound (sha256 : Identity → String) (request : InboundRequest) (env : Env) :
    Action ApplyOutcome := do
  let files ← peek (·.files)
  let reserved ← liftExcept env.reservedInboundTags
  ensure (!reserved.contains request.inboundTag)
    ("入站 tag " ++ request.inboundTag ++ " 已被其它配置片段占用，拒绝部署（它会顶掉那个入站）")
  let pinnedDest ← liftExcept env.assertPublicDest
  match inPlace? sha256 request env files with
  | some state => return unchanged request env state
  | none =>
    let keys ← chooseKeys request env files
    let serverName := request.serverNames.headD ""
    let listen ← liftExcept env.resolveListen
    ensure (request.requireListen = "" || request.requireListen = listen)
      ("本机入站只能监听 " ++ listen ++ "，无法满足节点对外地址所需的 " ++ request.requireListen)
    liftExcept env.assertPortAvailable
    liftExcept env.assertConfigValid
    deploy env (renderInbound { request with dest := pinnedDest } keys listen)
      { hash := requestHash sha256 request, keys, serverName, listen
        listenPort := request.listenPort, pinnedDest, pending := true
        commandId := request.commandId }
      { deployed := true, listen, changed := true, restarted := true
        realityPublicKey := keys.publicKey, shortId := keys.shortId, serverName
        listenPort := request.listenPort, xrayVersion := env.xrayVersion }

/-- By the mode of the request. -/
def applyRequest (sha256 : Identity → String) (request : InboundRequest) (env : Env) :
    Action ApplyOutcome :=
  match request.mode with
  | .status => statusOutcome env <$> peek (·.files)
  | .reset => resetInbound env
  | .ensure => ensureInbound sha256 request env

/-- What `main` does with a request: the result is a file as well. -/
def handle (sha256 : Identity → String) (request : InboundRequest) (env : Env) :
    Action ApplyOutcome := do
  let result ← attempt (applyRequest sha256 request env)
  surely id
  liftExcept result

/-! ## Runs -/

/-- One run of the helper on a request. -/
structure Attempt where
  request : InboundRequest
  env : Env
  fates : List Fate := []

/-- How a run ends.  A run that is killed has written no result. -/
inductive Ending where
  | answered (outcome : ApplyOutcome)
  | failed (error : String)
  | killed
  deriving DecidableEq, Repr

/-- How an attempt ends, and what it leaves. -/
def endingOf : EStateM.Result (Stop String) (Sched World) ApplyOutcome → Ending × World
  | .ok outcome s => (.answered outcome, s.world)
  | .error (.err e) s => (.failed e, s.world)
  | .error .died s => (.killed, s.world)

/-- An attempt on the two files. -/
def Attempt.perform (sha256 : Identity → String) (a : Attempt) (files : Files) : Ending × World :=
  endingOf (handle sha256 a.request a.env ⟨{ files }, a.fates⟩)

/-- A run of the helper that is over. -/
structure Done where
  attempt : Attempt
  before : Files
  ending : Ending
  after : World

/-- What the runs of a list of attempts do, one after the other. -/
def history (sha256 : Identity → String) : Files → List Attempt → List Done
  | _, [] => []
  | files, a :: rest =>
    let (ending, after) := a.perform sha256 files
    { attempt := a, before := files, ending, after } :: history sha256 after.files rest

end ChordV.Helper
