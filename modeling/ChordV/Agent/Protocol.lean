import Mathlib.Tactic.Common

/-!
# The wire contract between the control plane and the node agent

The data of `apps/agent/internal/protocol` that the command processor, the store and
the runner read.  Three conventions hold for the whole agent.

* A number travels as a decimal string that `decimal.Parse` accepts only in its one
  canonical spelling (`0` or a first digit from `1` to `9`).  So an accepted string
  is a natural number, and two accepted strings are equal exactly when their numbers
  are.  `Decimal` is the string after that reading: `none` is a string it rejects.
* A text field of a payload that is missing, or is not a string, reads as the empty
  string, as `payload["email"].(string)` does.
* An error is a value of `Failure`.  Its constructors follow the errors the source
  returns, and their arguments are the data those texts name.
-/

namespace ChordV.Agent

/-- A decimal string as `decimal.Parse` reads it. -/
abbrev Decimal := Option Nat

/-- Who may write to Xray.  Only `directPrimary` may. -/
inductive ControlMode where
  | xuiPrimary
  | shadowDirect
  | directPrimary
  | rollbackPending
  deriving DecidableEq, Repr

/-- What the control plane may ask for.  `other` is a type this build does not know. -/
inductive CommandType where
  | ensureUser
  | enableUser
  | disableUser
  | removeUser
  | reconcileUsers
  | refreshQuota
  | ensureInbound
  | other (name : String)
  deriving DecidableEq, Repr

/-- `DISABLE_USER` and `REMOVE_USER`. -/
def CommandType.isTerminal : CommandType → Bool
  | .disableUser => true
  | .removeUser => true
  | _ => false

/-- The two VLESS flows of the protocol. -/
def flowNone : String := ""

/-- The flow of a Vision inbound. -/
def flowVision : String := "xtls-rprx-vision"

/-- The refusals and errors of the agent. -/
inductive Failure where
  /-- The database or Xray did not answer. -/
  | unavailable
  /-- A string that `decimal.Parse` rejects. -/
  | malformedDecimal
  /-- A field the payload must carry is missing. -/
  | missingField (field : String)
  /-- `validateUser` refuses an empty field of a binding. -/
  | incompleteUser (bindingId field : String)
  | duplicateBinding (bindingId : String)
  | duplicateEmail (email : String)
  /-- The unique index on the address column. -/
  | uniqueEmail (email : String)
  | badFlow
  | usersNotArray
  | badUserPayload
  | unknownControlMode
  | unknownCommand (name : String)
  | unsupportedInbound
  | inboundUnbound
  | notWritable
  /-- A binding id and an address that belong to two bindings. -/
  | conflictingTarget (bindingId email owner : String)
  /-- An address that names a live account this agent never installed. -/
  | collision (bindingId email : String)
  | noTerminalTarget
  | missingTerminalBinding
  | staleReconcile
  | modeOnlyPromotion
  | foreignNode
  /-- The adapter found the address in another letter case. -/
  | emailCase (email : String)
  /-- The adapter found another identity than the caller observed. -/
  | identityChanged (email : String)
  | badUuid
  | uuidTaken
  /-- The address also names an account of another inbound. -/
  | ambiguousCounter (email : String)
  | implausibleUptime
  /-- Batches were acknowledged while the configuration was being fetched. -/
  | settledDuringFetch
  deriving DecidableEq, Repr

/-- One account the control plane wants provisioned.  An `offlineAllowanceBytes` of
`none` is the empty string, which means the default of the agent. -/
structure DesiredUser where
  bindingId : String
  revision : Decimal
  email : String
  uuid : String
  flow : String := flowNone
  enabled : Bool := true
  quotaRemainingBytes : Decimal := some 0
  offlineAllowanceBytes : Option Decimal := none
  deriving DecidableEq, Repr

/-- The `flow` entry of a payload. -/
inductive FlowField where
  | absent
  | null
  | text (value : String)
  | other
  deriving DecidableEq, Repr

/-- The entries of a payload that describe one user.  A decimal entry of `none` is a
missing or empty one. -/
structure UserPayload where
  bindingId : String := ""
  email : String := ""
  userKey : String := ""
  uuid : String := ""
  flow : FlowField := .absent
  enabled : Option Bool := none
  revision : Option Decimal := none
  quotaRemainingBytes : Option Decimal := none
  offlineAllowanceBytes : Option Decimal := none
  deriving DecidableEq, Repr

/-- The `users` entry of a payload.  An item of `none` is not an object. -/
inductive UsersField where
  | absent
  | notArray
  | items (payloads : List (Option UserPayload))
  deriving DecidableEq, Repr

/-- The `controlMode` entry of a payload. -/
inductive ModeField where
  | absent
  | unknown
  | mode (m : ControlMode)
  deriving DecidableEq, Repr

/-- A command payload. -/
structure Payload extends UserPayload where
  users : UsersField := .absent
  controlMode : ModeField := .absent
  /-- The `mode` entry is `validate_panel`. -/
  validatePanel : Bool := false
  deriving DecidableEq, Repr

/-- One unit of work delivered over the event stream. -/
structure Command where
  commandId : String
  type : CommandType
  targetRevision : Decimal
  payload : Payload := {}
  deriving DecidableEq, Repr

/-- The highest unacknowledged sequence of one boot. -/
structure Watermark where
  bootId : String
  sequenceThrough : Nat
  deriving DecidableEq, Repr

/-- What a command reports back.  A failed one carries its error. -/
inductive Outcome where
  | completed (appliedRevision : Nat) (disableWatermarks : Option (List Watermark))
  | failed (error : Failure)
  deriving DecidableEq, Repr

/-- The full desired state of a node. -/
structure ConfigSnapshot where
  nodeId : String
  revision : Decimal
  controlMode : ControlMode
  users : List DesiredUser
  deriving DecidableEq, Repr

/-- The cumulative traffic of one account as Xray reports it. -/
structure AbsoluteCounter where
  email : String
  uplinkBytes : Nat
  downlinkBytes : Nat
  deriving DecidableEq, Repr

/-- The contribution of one user to a batch. -/
structure UsageSample where
  bindingId : String
  counterGeneration : Nat
  uplinkBytes : Nat
  downlinkBytes : Nat
  uplinkDeltaBytes : Nat
  downlinkDeltaBytes : Nat
  deriving DecidableEq, Repr

/-- One metering upload. -/
structure UsageBatch where
  bootId : String
  sequence : Nat
  sampledAt : Nat
  samples : List UsageSample
  deriving DecidableEq, Repr

/-! ## Reading decimals -/

/-- `decimal.Parse`. -/
def parseDecimal (d : Decimal) : Except Failure Nat :=
  match d with
  | some n => .ok n
  | none => .error .malformedDecimal

/-- `decimal.Less`. -/
def decimalLess (a b : Decimal) : Except Failure Bool := do
  let left ← parseDecimal a
  let right ← parseDecimal b
  return left < right

@[simp] theorem parseDecimal_some (n : Nat) : parseDecimal (some n) = .ok n := rfl

@[simp] theorem parseDecimal_none : parseDecimal none = .error .malformedDecimal := rfl

theorem parseDecimal_eq_ok {d : Decimal} {n : Nat} : parseDecimal d = .ok n ↔ d = some n := by
  cases d with
  | none => constructor <;> intro h <;> cases h
  | some m => constructor <;> intro h <;> cases h <;> rfl

@[simp] theorem decimalLess_some (a b : Nat) :
    decimalLess (some a) (some b) = .ok (decide (a < b)) := rfl

theorem decimalLess_eq_false {d : Decimal} {n : Nat} :
    decimalLess d (some n) = .ok false ↔ ∃ m, d = some m ∧ n ≤ m := by
  cases d with
  | none => exact ⟨fun h => (by cases h), fun ⟨m, hm, _⟩ => (by cases hm)⟩
  | some m =>
    rw [decimalLess_some]
    constructor
    · intro h
      exact ⟨m, rfl, Nat.not_lt.1 (of_decide_eq_false (Except.ok.inj h))⟩
    · rintro ⟨_, ⟨⟩, hle⟩
      exact congrArg Except.ok (decide_eq_false (Nat.not_lt.2 hle))

@[simp] theorem decimalLess_none_left (b : Decimal) :
    decimalLess none b = .error .malformedDecimal := rfl

end ChordV.Agent
