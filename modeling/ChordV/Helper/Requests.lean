import ChordV.Helper.Apply
import ChordV.Lib.Double
import ChordV.Lib.Fallible

/-!
# The requests of the root helper

`parseRequest` of `apps/node-agent/src/xray-apply.ts` with `requireString`, `requirePort` and
`requireHostname`.

* A request file is a text, and a request is what `InboundRequest` has, with its id in front.
* The errors are the messages of the source.
* `dest_of_parseRequest` is what the root helper knows of the fallback target of an accepted
  request: its host is a host name, and its port text is read as a port.
-/

namespace ChordV.Helper

open Lib Lib.Js Lib.Fallible

/-! ## Scalars -/

/-- The length of a string of the source, in code units. -/
def codeUnits (s : Text) : Nat := (s.map fun c => if c.toNat < 0x10000 then 1 else 2).sum

/-- The longest request that is read. -/
def MAX_REQUEST_BYTES : Nat := 8 * 1024

/-- `/^[p]{low,high}$/`. -/
def isWord (p : Char → Bool) (low high : Nat) (s : Text) : Bool :=
  low ≤ s.length && s.length ≤ high && s.all p

/-- A field that has to be a text. -/
def requireString (value : Option Json) (label : String) : Except String Text :=
  match value with
  | some (.string s) => do
    require (trim s ≠ []) (label ++ " 缺失或不是字符串")
    return trim s
  | _ => throw (label ++ " 缺失或不是字符串")

/-- A value is given if it is a number. -/
def requirePort (value : Option Number) (label : String) : Except String Nat :=
  match value with
  | some (.finite units) => do
    require ((perOne : Int) ∣ units ∧ (perOne : Int) ≤ units ∧ units ≤ 65535 * perOne)
      (label ++ " 不是 1-65535 的端口")
    return (units / perOne).toNat
  | _ => throw (label ++ " 不是 1-65535 的端口")

/-- A label of `HOSTNAME`. -/
def isLabel (s : Text) : Bool :=
  isWord (fun c => c.isAlphanum || c == '-') 1 63 s && s.head?.all Char.isAlphanum &&
    s.getLast?.all Char.isAlphanum

/-- Labels with dots between them. -/
def isHostname (s : Text) : Bool := (s.splitOn '.').all isLabel

/-- A field that has to be a name. -/
def requireHostname (value : Text) (label : String) : Except String Text := do
  require (¬ 253 < codeUnits value ∧ isHostname value)
    (label ++ " 不是合法域名：" ++ String.ofList value)
  return value

/-- `s.slice(0, separator)` and `s.slice(separator + 1)` for the last index of a character. -/
def cutLast (separator : Char) (s : Text) : Option (Text × Text) :=
  match cut (· == separator) s.reverse with
  | (_, none) => none
  | (after, some before) => some (before.reverse, after.reverse)

/-! ## Requests -/

section

variable (value : List (Text × Json))

/-- A field of the request. -/
def field (key : String) : Option Json := Json.lookup key.toList value

/-- A member that counts if it is a string. -/
def optionalString (key : String) : Text :=
  match field value key with
  | some (.string s) => trim s
  | _ => []

/-- A member that is a number. -/
def numberField (key : String) : Option Number :=
  match field value key with
  | some (.number text) => some (number text)
  | _ => none

/-- The host and the port of `dest`. -/
def requireDest : Except String Text := do
  let dest ← requireString (field value "dest") "dest"
  match cutLast ':' dest with
  | none => throw ("dest 必须是 host:port：" ++ String.ofList dest)
  | some (host, port) =>
    require (host ≠ []) ("dest 必须是 host:port：" ++ String.ofList dest)
    let _ ← requireHostname host "dest"
    let _ ← requirePort (some (number port)) "dest 端口"
    return dest

/-- The names, one to eight. -/
def requireServerNames : Except String (List Text) :=
  match field value "serverNames" with
  | some (.array names) => do
    require (1 ≤ names.length ∧ names.length ≤ 8) "serverNames 必须是 1-8 个域名"
    names.mapM fun name => do
      requireHostname (← requireString (some name) "serverNames") "serverNames"
  | _ => throw "serverNames 必须是 1-8 个域名"

/-- The fields of an `ensure`. -/
def parseEnsure (commandId : Text) : Except String InboundRequest := do
  let requireListen := optionalString value "requireListen"
  require (requireListen = [] ∨ requireListen = "::".toList ∨ requireListen = "0.0.0.0".toList)
    ("requireListen 不合法：" ++ String.ofList requireListen)
  let inboundTag ← requireString (field value "inboundTag") "inboundTag"
  require (isWord (fun c => c.isAlphanum || c == '_' || c == '-') 1 32 inboundTag)
    ("inboundTag 不合法：" ++ String.ofList inboundTag)
  let dest ← requireDest value
  let serverNames ← requireServerNames value
  let flow := optionalString value "flow"
  require (flow = [] ∨ flow = "xtls-rprx-vision".toList) ("flow 不支持：" ++ String.ofList flow)
  let fingerprint ← requireString (field value "fingerprint") "fingerprint"
  require (isWord (fun c => c.isDigit || c.isLower) 1 16 fingerprint)
    ("fingerprint 不合法：" ++ String.ofList fingerprint)
  let spiderX ← requireString (field value "spiderX") "spiderX"
  require (spiderX.head? = some '/' ∧ codeUnits spiderX ≤ 64 ∧
      spiderX.all fun c => !(isBlank c || c == '"' || c == '\'' || c == '\\'))
    ("spiderX 不合法：" ++ String.ofList spiderX)
  let listenPort ← requirePort (numberField value "listenPort") "listenPort"
  return {
    commandId := String.ofList commandId
    requireListen := String.ofList requireListen
    mode := .ensure
    inboundTag := String.ofList inboundTag
    listenPort
    dest := String.ofList dest
    serverNames := serverNames.map String.ofList
    flow := String.ofList flow
    fingerprint := String.ofList fingerprint
    spiderX := String.ofList spiderX
    rotateKeys := match field value "rotateKeys" with
      | some (.bool b) => b
      | _ => false }

end

/-- The id and the request of a text. -/
def parseRequest (raw : Text) : Except String (String × InboundRequest) := do
  require (codeUnits raw ≤ MAX_REQUEST_BYTES) "请求文件过大"
  match Json.parse raw with
  | none => throw "请求不是合法 JSON"
  | some (.object value) =>
    let requestId ← requireString (field value "requestId") "requestId"
    require (isWord (fun c => c.isAlphanum || c == '-') 8 64 requestId)
      ("requestId 不合法：" ++ String.ofList requestId)
    let commandId := optionalString value "commandId"
    require (commandId = [] ∨ isWord (fun c => c.isAlphanum || c == '_' || c == ':' || c == '-')
        1 128 commandId)
      ("commandId 不合法：" ++ String.ofList commandId)
    match field value "mode" with
    | some (.string ['r', 'e', 's', 'e', 't']) =>
      return (String.ofList requestId, { commandId := String.ofList commandId, mode := .reset })
    | some (.string ['s', 't', 'a', 't', 'u', 's']) =>
      return (String.ofList requestId, { commandId := String.ofList commandId, mode := .status })
    | _ => return (String.ofList requestId, ← parseEnsure value commandId)
  | some _ => throw "请求格式错误"

/-! ## The target of an accepted request -/

/-- A target that the parser lets through. -/
structure IsDest (dest host port : Text) : Prop where
  cut : cutLast ':' dest = some (host, port)
  hostname : isHostname host = true
  port : ∃ p, requirePort (some (number port)) "dest 端口" = .ok p

theorem isDest_of_requireDest {value : List (Text × Json)} {dest : Text}
    (h : requireDest value = .ok dest) : ∃ host port, IsDest dest host port := by
  unfold requireDest at h
  obtain ⟨text, -, h⟩ := bind_eq_ok.1 h
  split at h
  · cases h
  next host port hcut =>
    obtain ⟨_, -, h⟩ := bind_eq_ok.1 h
    obtain ⟨_, hhost, h⟩ := bind_eq_ok.1 h
    obtain ⟨p, hp, h⟩ := bind_eq_ok.1 h
    cases h
    unfold requireHostname at hhost
    obtain ⟨_, hreq, -⟩ := bind_eq_ok.1 hhost
    exact ⟨host, port, hcut, (require_eq_ok.1 hreq).2, p, hp⟩

theorem dest_of_parseEnsure {value : List (Text × Json)} {commandId : Text}
    {request : InboundRequest} (h : parseEnsure value commandId = .ok request) :
    ∃ host port, IsDest request.dest.toList host port := by
  unfold parseEnsure at h
  obtain ⟨_, -, h⟩ := bind_eq_ok.1 h
  obtain ⟨_, -, h⟩ := bind_eq_ok.1 h
  obtain ⟨_, -, h⟩ := bind_eq_ok.1 h
  obtain ⟨dest, hdest, h⟩ := bind_eq_ok.1 h
  obtain ⟨_, -, h⟩ := bind_eq_ok.1 h
  obtain ⟨_, -, h⟩ := bind_eq_ok.1 h
  obtain ⟨_, -, h⟩ := bind_eq_ok.1 h
  obtain ⟨_, -, h⟩ := bind_eq_ok.1 h
  obtain ⟨_, -, h⟩ := bind_eq_ok.1 h
  obtain ⟨_, -, h⟩ := bind_eq_ok.1 h
  obtain ⟨_, -, h⟩ := bind_eq_ok.1 h
  cases h
  simpa using isDest_of_requireDest hdest

theorem dest_of_parseRequest {raw : Text} {requestId : String} {request : InboundRequest}
    (h : parseRequest raw = .ok (requestId, request)) (hmode : request.mode = .ensure) :
    ∃ host port, IsDest request.dest.toList host port := by
  unfold parseRequest at h
  obtain ⟨_, -, h⟩ := bind_eq_ok.1 h
  split at h
  · cases h
  next value =>
    obtain ⟨_, -, h⟩ := bind_eq_ok.1 h
    obtain ⟨_, -, h⟩ := bind_eq_ok.1 h
    obtain ⟨_, -, h⟩ := bind_eq_ok.1 h
    split at h
    · cases h
      cases hmode
    · cases h
      cases hmode
    · obtain ⟨_, hensure, h⟩ := bind_eq_ok.1 h
      cases h
      exact dest_of_parseEnsure hensure
  · cases h

end ChordV.Helper
