import ChordV.Api.Unread
import Mathlib.Logic.Function.Basic

/-!
# The unread changes of one user and what the store has of them

The ticket system as a log of the unread changes of one user, with the webhooks that deliver them
and the resyncs that ask for the total.

* A change is stamped with the clock of the ticket system when it is logged, so changes may have
  the same stamp.  Its event may come without the stamp (`dated`) or without the total
  (`withTotal`), and it is delivered in any order, late or again.
* A resync reads the row of the user, sends its request, and gets the total after the changes that
  were logged when the ticket system read it.  The header `Date` is the clock in full seconds when
  the answer is made.  A request takes at most `RESYNC_TIMEOUT_MS`.
* `startLength` is no data of the program: it is how many changes were logged at `startedAt`.
* The connection of the integration stays the same.
-/

namespace ChordV.Api.Unread

open Lib

/-- A change of the unread count of a request, with the total after it. -/
structure Entry where
  eventId : String
  requestId : String
  unreadCount : Nat
  total : Nat
  changedAt : Int
  withTotal : Bool := true
  dated : Bool := true
deriving DecidableEq, Repr

namespace Entry

/-- The date that the event carries. -/
def createdAt (e : Entry) : Option Int := if e.dated then some e.changedAt else none

/-- The body of the event. -/
def change (e : Entry) (userId : String) : UnreadChange where
  externalUserId := userId
  requestId := e.requestId
  unreadCount := e.unreadCount
  contactUnreadCount := if e.withTotal then some e.total else none

end Entry

/-- A request for the total.  `read` is the number of the changes that the total is after. -/
structure Request where
  sentAt : Int
  read : Option Nat := none
  serverTime : Option Int := none
deriving DecidableEq, Repr

/-- The request has not timed out. -/
def Request.isOpen (request : Request) (clock : Int) : Bool :=
  clock ≤ request.sentAt + RESYNC_TIMEOUT_MS

/-- A call of `resyncUnread`. -/
structure Query where
  before : Before
  startedAt : Int
  startLength : Nat
  request : Option Request := none
deriving DecidableEq, Repr

/-- The database, and what the support system knows. -/
structure World where
  db : Database := {}
  /-- The total before the first change. -/
  initial : Nat := 0
  log : List Entry := []
  clock : Int := 0
  queries : Nat → Option Query := fun _ => none

/-- What happens on the two sides. -/
inductive LogEvent where
  | tick (ms : Nat)
  | change (eventId requestId : String) (unreadCount total : Nat) (withTotal dated : Bool)
  /-- The webhook of a change. -/
  | deliver (index : Nat) (now : Int)
  | start (query : Nat)
  | send (query : Nat)
  /-- The ticket system reads the total. -/
  | read (query : Nat)
  /-- It writes the header of the answer. -/
  | respond (query : Nat)
  | finish (query : Nat) (now : Int)
  /-- The request fails, or the process ends. -/
  | drop (query : Nat)
deriving DecidableEq, Repr

namespace World

/-- The total after the first changes of the log. -/
def totalAfter (w : World) : Nat → Nat
  | 0 => w.initial
  | n + 1 => (w.log[n]?.map (·.total)).getD w.initial

/-- The query is at another point. -/
def setQuery (w : World) (query : Nat) (call : Option Query) : World :=
  { w with queries := Function.update w.queries query call }

/-- A request changes its count in the support system. -/
def change (w : World) (eventId requestId : String) (unreadCount total : Nat)
    (withTotal dated : Bool) : World :=
  if (w.log.any fun e => e.eventId = eventId) || w.db.eventIds.contains eventId then w
  else
    { w with log := w.log ++ [{ eventId, requestId, unreadCount, total, changedAt := w.clock
                                withTotal, dated }] }

/-- A webhook arrives. -/
def deliver (w : World) (userId : String) (index : Nat) (now : Int) : World :=
  match w.log[index]? with
  | some e =>
    { w with
      db := (applyUnreadChange w.db e.eventId (e.change userId) e.createdAt w.db.config.generation
        now).1 }
  | none => w

/-- A resync begins: it reads the state. -/
def start (w : World) (userId : String) (query : Nat) : World :=
  match w.queries query with
  | none =>
    w.setQuery query (some { before := readBefore w.db userId, startedAt := w.clock
                             startLength := w.log.length })
  | some _ => w

/-- The request of the query is sent. -/
def send (w : World) (query : Nat) : World :=
  match w.queries query with
  | some { before, startedAt, startLength, request := none } =>
    let request := some { sentAt := w.clock }
    w.setQuery query (some { before, startedAt, startLength, request })
  | _ => w

/-- The support system reads the total. -/
def read (w : World) (query : Nat) : World :=
  match w.queries query with
  | some { before, startedAt, startLength, request := some request } =>
    if request.isOpen w.clock && request.read.isNone then
      let request := some { request with read := some w.log.length }
      w.setQuery query (some { before, startedAt, startLength, request })
    else w
  | _ => w

/-- The answer gets its date, in whole seconds. -/
def respond (w : World) (query : Nat) : World :=
  match w.queries query with
  | some { before, startedAt, startLength, request := some request } =>
    if request.isOpen w.clock && request.serverTime.isNone then
      let request := some { request with serverTime := some (w.clock / 1000 * 1000) }
      w.setQuery query (some { before, startedAt, startLength, request })
    else w
  | _ => w

/-- The answer is written. -/
def finish (w : World) (userId : String) (credentials : Credentials) (query : Nat) (now : Int) :
    World :=
  match w.queries query with
  | some { before, startedAt := _, startLength := _,
           request := some { sentAt := _, read := some count, serverTime := some serverTime } } =>
    let answer := { unreadCount := w.totalAfter count, serverTime }
    ({ w with db := (resyncUnread w.db userId credentials before answer now).1 }).setQuery
      query none
  | _ => w

/-- One step. -/
def step (userId : String) (credentials : Credentials) (w : World) : LogEvent → World
  | .tick ms => { w with clock := w.clock + ms }
  | .change eventId requestId unreadCount total withTotal dated =>
    w.change eventId requestId unreadCount total withTotal dated
  | .deliver index now => w.deliver userId index now
  | .start query => w.start userId query
  | .send query => w.send query
  | .read query => w.read query
  | .respond query => w.respond query
  | .finish query now => w.finish userId credentials query now
  | .drop query => w.setQuery query none

end World

end ChordV.Api.Unread
