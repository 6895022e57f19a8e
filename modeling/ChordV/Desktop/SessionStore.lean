import Mathlib.Algebra.Ring.Nat
import Mathlib.Data.List.Basic
import ChordV.Lib.Machine

/-!
# The session store of the desktop client

`session_store.rs`: `reserve_save`, `invalidate`, `read`, `save`, `rotate` and `clear_with`.

* `io` is who holds the lock, and how far it is.  `invalidate` and `reserve_save` take no lock, so
  they come between any two steps.  An event of a call that needs the lock while another one holds
  it does nothing.
* A session is its JSON value.  `Serde` is what the store asks of `serde_json` and `sha2`.
* A save checks, persists and exchanges the epoch.  Persisting replaces the file or fails.  Errors
  before that step leave everything as it was, like a call that was not made.
* `rotate` is called with the ticket and the session of a read, and `clear_with` with the value of
  an `invalidate`.  A save has any ticket.
* `born`, `seen`, `since`, `invalidated` and `history` are what has happened so far.
-/

namespace ChordV.Desktop.SessionStore

open Lib

variable {Value Hash : Type}

/-! ## Credentials -/

/-- `value.get("refreshToken")`, and the digest of the text of a value. -/
structure Serde (Value Hash : Type) where
  refreshToken : Value → Option Value
  digest : Value → Hash

/-- The token identity, or the whole session. -/
def Serde.identity (serde : Serde Value Hash) (value : Value) : Value :=
  (serde.refreshToken value).getD value

/-- `credential_hash`. -/
def Serde.credentialHash (serde : Serde Value Hash) (value : Value) : Hash :=
  serde.digest (serde.identity value)

/-! ## The store -/

/-- An epoch that was loaded, and the number of invalidations before that. -/
structure Load where
  epoch : Nat
  born : Nat
deriving DecidableEq, Repr

/-- `SaveTicket`. -/
structure SaveTicket extends Load where
  order : Nat
deriving DecidableEq, Repr

/-- What a save or a rotation of a session stores. -/
structure Write (Value : Type) where
  session : Value
  ticket : SaveTicket
  previous : Option Value
deriving DecidableEq, Repr

/-- The last entry is the first of a history. -/
inductive Entry (Value : Type) where
  | invalidated
  | committed (write : Write Value)
  /-- The file was removed for an invalidation. -/
  | cleared (invalidation : Nat)
deriving DecidableEq, Repr

/-- The newest entry first. -/
abbrev History (Value : Type) := List (Entry Value)

/-- A read that has returned, and the history when it loaded the epoch. -/
structure Read (Value : Type) where
  session : Option Value
  ticket : SaveTicket
  seen : History Value
deriving DecidableEq, Repr

/-- A save that has passed its checks.  `since` is the history at the read of a rotation. -/
structure Call (Value : Type) where
  expected : Nat
  write : Write Value
  since : History Value
deriving DecidableEq, Repr

/-- Who has the lock of the file. -/
inductive Holder (Value : Type) where
  | reading (load : Load) (seen : History Value)
  | saving (call : Call Value)
  | committing (call : Call Value)
  | clearing (invalidation : Nat)
deriving DecidableEq, Repr

/-- The file, the counters and the calls under way. -/
structure State (Value Hash : Type) where
  epoch : Nat := 0
  next : Nat := 0
  order : Nat := 0
  retired : List Hash := []
  file : Option Value
  io : Option (Holder Value) := none
  /-- The reservations that have loaded the epoch. -/
  loaded : List Load := []
  tickets : List SaveTicket := []
  reads : List (Read Value) := []
  /-- What `invalidate` has returned. -/
  invalidated : List Nat := []
  history : History Value := []

/-- What happens to the store. -/
inductive Event (Value : Type) where
  | loadEpoch
  | reserve (load : Nat)
  | invalidate
  | lockRead
  | read (ok : Bool)
  | save (ticket : Nat) (session : Value)
  | rotate (read : Nat) (session : Value)
  | persist (ok : Bool)
  | advance
  | clearWith (invalidation : Nat)
  | remove (ok : Bool)

/-- `wrapping_add` of a `u64`. -/
def wrappingAdd (value n : Nat) : Nat := (value + n) % 2 ^ 64

/-- The ticket is of this login, or of the tombstone that this login has replaced. -/
def sameLogin (expected epoch : Nat) : Prop :=
  expected = epoch ∨ epoch % 2 ≠ 0 ∧ expected = wrappingAdd epoch 1

instance (expected epoch : Nat) : Decidable (sameLogin expected epoch) :=
  inferInstanceAs (Decidable (expected = epoch ∨ epoch % 2 ≠ 0 ∧ expected = wrappingAdd epoch 1))

namespace State

/-- The epoch as it is now. -/
def load (s : State Value Hash) : Load := { epoch := s.epoch, born := s.invalidated.length }

/-- A caller reads the epoch. -/
def loadEpoch (s : State Value Hash) : State Value Hash := { s with loaded := s.loaded ++ [s.load] }

/-- The ticket that `reserve` makes. -/
def ticket (s : State Value Hash) (load : Load) : SaveTicket :=
  { load with order := wrappingAdd s.next 1 }

/-- A caller draws a ticket. -/
def reserve (s : State Value Hash) (load : Load) : State Value Hash :=
  { s with next := wrappingAdd s.next 1, tickets := s.tickets ++ [s.ticket load] }

/-- Odd generations are tombstones. -/
def invalidate (s : State Value Hash) : State Value Hash :=
  let epoch := wrappingAdd s.epoch 2 ||| 1
  { s with
    epoch
    invalidated := s.invalidated ++ [epoch]
    history := .invalidated :: s.history }

/-- A reader gets the lock. -/
def lockRead (s : State Value Hash) : State Value Hash :=
  match s.io with
  | none => { s with io := some (.reading s.load s.history) }
  | some _ => s

/-- The ticket is reserved, and the file is read unless the generation is odd. -/
def read (s : State Value Hash) (ok : Bool) : State Value Hash :=
  match s.io with
  | some (.reading load seen) =>
    let s' := { s.reserve load with io := none }
    let ticket := s.ticket load
    if load.epoch % 2 ≠ 0 then { s' with reads := s.reads ++ [{ session := none, ticket, seen }] }
    else if ok then { s' with reads := s.reads ++ [{ session := s.file, ticket, seen }] }
    else s'
  | _ => s

variable [DecidableEq Value] [DecidableEq Hash]

/-- A save gets the lock, or is refused. -/
def save (serde : Serde Value Hash) (s : State Value Hash) (ticket : SaveTicket) (session : Value) :
    State Value Hash :=
  match s.io with
  | none =>
    let call := { expected := s.epoch, write := { session, ticket, previous := none }
                  since := s.history }
    if sameLogin s.epoch ticket.epoch ∧ s.order < ticket.order ∧
        serde.credentialHash session ∉ s.retired then
      { s with io := some (.saving call) }
    else s
  | some _ => s

/-- The file has the session of the read. -/
def rotate (s : State Value Hash) (read : Read Value) (session : Value) : State Value Hash :=
  match s.io with
  | none =>
    match read.session with
    | some previous =>
      let call := { expected := s.epoch
                    write := { session, ticket := read.ticket, previous := some previous }
                    since := read.seen }
      if sameLogin s.epoch read.ticket.epoch ∧ s.file = some previous then
        { s with io := some (.saving call) }
      else s
    | none => s
  | some _ => s

/-- The write to the keyring. -/
def persist (s : State Value Hash) (ok : Bool) : State Value Hash :=
  match s.io with
  | some (.saving call) =>
    if ok then { s with file := some call.write.session, io := some (.committing call) }
    else { s with io := none }
  | _ => s

/-- A call whose exchange succeeds. -/
def commit (serde : Serde Value Hash) (s : State Value Hash) (call : Call Value) :
    State Value Hash :=
  { s with
    epoch := if call.expected % 2 = 0 then call.expected else wrappingAdd call.expected 1
    order := max s.order call.write.ticket.order
    retired := (call.write.previous.map serde.credentialHash).toList ++ s.retired
    history := .committed call.write :: s.history
    io := none }

/-- The call commits if the epoch is still the one it expects. -/
def advance (serde : Serde Value Hash) (s : State Value Hash) : State Value Hash :=
  match s.io with
  | some (.committing call) =>
    if s.epoch = call.expected then s.commit serde call else { s with io := none }
  | _ => s

/-- A clear gets the lock if the epoch is the one it expects. -/
def clearWith (s : State Value Hash) (invalidation expected : Nat) : State Value Hash :=
  match s.io with
  | none => if s.epoch = expected then { s with io := some (.clearing invalidation) } else s
  | some _ => s

/-- `cleanup` and `remove_file`. -/
def remove (s : State Value Hash) (ok : Bool) : State Value Hash :=
  match s.io with
  | some (.clearing invalidation) =>
    if ok then { s with file := none, io := none, history := .cleared invalidation :: s.history }
    else { s with io := none }
  | _ => s

end State

variable [DecidableEq Value] [DecidableEq Hash] (serde : Serde Value Hash)

/-- One step of the store. -/
def step (s : State Value Hash) : Event Value → State Value Hash
  | .loadEpoch => s.loadEpoch
  | .reserve i => (s.loaded[i]?.map s.reserve).getD s
  | .invalidate => s.invalidate
  | .lockRead => s.lockRead
  | .read ok => s.read ok
  | .save i session => (s.tickets[i]?.map (s.save serde · session)).getD s
  | .rotate i session => (s.reads[i]?.map (s.rotate · session)).getD s
  | .persist ok => s.persist ok
  | .advance => s.advance serde
  | .clearWith i => (s.invalidated[i]?.map (s.clearWith i)).getD s
  | .remove ok => s.remove ok

/-! ## What the reads may show -/

/-- The session of a history that began with a file. -/
def visible (file : Option Value) : History Value → Option Value
  | [] => file
  | .invalidated :: _ => none
  | .committed write :: _ => some write.session
  | .cleared _ :: history => visible file history

/-- The write of the visible session, and the history before it. -/
def current : History Value → Option (Write Value × History Value)
  | [] | .invalidated :: _ => none
  | .committed write :: history => some (write, history)
  | .cleared _ :: history => current history

/-- How often the session was invalidated. -/
def invalidations : History Value → Nat
  | [] => 0
  | .invalidated :: history => invalidations history + 1
  | .committed _ :: history | .cleared _ :: history => invalidations history

/-- What was committed. -/
def commits (history : History Value) : List (Write Value) :=
  history.filterMap fun
    | .committed write => some write
    | _ => none

/-- The committed saves that are no rotations. -/
def plainSaves (history : History Value) : List (Write Value) :=
  (commits history).filter (·.previous.isNone)

/-- The sessions that committed rotations have replaced. -/
def rotatedOut (history : History Value) : List Value := (commits history).filterMap (·.previous)

/-- What every state of a run should be like, if the file was there when the process started. -/
structure Safe (file : Option Value) (s : State Value Hash) : Prop where
  shown : ∀ read ∈ s.reads, read.session = visible file read.seen
  /-- After an invalidation there is no session, until a save that was reserved later. -/
  reserved : ∀ read ∈ s.reads, read.session.isSome = true → ∀ later earlier,
    read.seen = later ++ .invalidated :: earlier →
      ∃ write ∈ plainSaves later, invalidations earlier < write.ticket.born
  retired : ∀ read ∈ s.reads, ∀ session ∈ read.session, ∀ previous ∈ rotatedOut read.seen,
    serde.identity previous ≠ serde.identity session
  newest : ∀ read ∈ s.reads, ∀ write earlier, current read.seen = some (write, earlier) →
    ∀ save ∈ plainSaves earlier, write.ticket.order < save.ticket.order →
      write.previous = some save.session
  /-- The sessions that were committed when the file was removed are older than the invalidation. -/
  cleared : ∀ later invalidation history, s.history = later ++ .cleared invalidation :: history →
    ∀ after write before, history = after ++ .committed write :: before →
      invalidations before ≤ invalidation
  /-- A save that fails leaves everything but the file as it was.  Where it has replaced the file,
  every later read is the same with any other file, so with the one before. -/
  failed : ∀ call e, s.io = some (.saving call) ∨ s.io = some (.committing call) →
    (step serde s e).io = none → (step serde s e).history = s.history →
      step serde s e = { s with io := none } ∧
      ∀ before, (s.io = some (.saving call) → before = s.file) →
        ∀ later, (Machine.run (step serde) { step serde s e with file := before } later).reads =
          (Machine.run (step serde) (step serde s e) later).reads

/-- The entries after an older history. -/
def newer (history since : History Value) : History Value :=
  history.take (history.length - since.length)

/-- A rotation stores a token that no rotation has replaced, and no save that was reserved and
committed since its read has stored another session.  The counters do not wrap. -/
def Forward (s : State Value Hash) : Event Value → Prop
  | .invalidate => s.epoch + 4 < 2 ^ 64
  | .reserve _ | .read _ => s.next + 1 < 2 ^ 64
  | .advance =>
    match s.io with
    | some (.committing call) =>
      s.epoch = call.expected → ∀ previous ∈ call.write.previous,
        (∀ old ∈ previous :: rotatedOut s.history,
          serde.identity old ≠ serde.identity call.write.session) ∧
        ∀ save ∈ plainSaves (newer s.history call.since),
          call.write.ticket.order < save.ticket.order → save.session = previous
    | _ => True
  | .loadEpoch | .lockRead | .save .. | .rotate .. | .persist _ | .clearWith _ | .remove _ => True

instance (s : State Value Hash) : ∀ e, Decidable (Forward serde s e)
  | .invalidate => inferInstanceAs (Decidable (s.epoch + 4 < 2 ^ 64))
  | .reserve _ | .read _ => inferInstanceAs (Decidable (s.next + 1 < 2 ^ 64))
  | .advance => by
    unfold Forward
    exact match s.io with
    | some (.committing call) => inferInstance
    | none | some (.reading ..) | some (.saving _) | some (.clearing _) => isTrue trivial
  | .loadEpoch | .lockRead | .save .. | .rotate .. | .persist _ | .clearWith _ | .remove _ =>
    isTrue trivial

end ChordV.Desktop.SessionStore
