import ChordV.Lib.Machine
import ChordV.Lib.ReplayLog
import ChordV.Lib.Js

/-!
# The runtime events of the clients

`client-runtime-events.service.ts` of one instance, with the clients that read its streams
(`subscribeClientEvents` of the desktop client's `api/client.ts`).

* `Service` is the instance: the sinks of each user, the last events of each user, and the sequence
  of the event ids.
* `Client` is a subscription of a client.  It keeps the last id that it has seen, and sends it when
  it connects again.
* A sink has a queue: the events that were delivered to it and that the client has not read yet.
  A connection can break for the client and for the instance at different times, and what was sent
  before the instance closed it can still be read.
* `published` is everything that the instance has recorded, `usedIds` are all ids so far, and
  `Client.received` are the events with an id that a client got from this instance.  The code does
  not keep these.
-/

namespace ChordV.Api.RuntimeEvents

open Lib Js

/-! ## Events -/

/-- `ClientRuntimeEventType`. -/
inductive ClientRuntimeEventType where
  | session_revoked | subscription_updated | node_access_updated | announcement_updated
  | policy_updated | announcement_read_state_updated | ticket_updated | ticket_read_state_updated
  | support_unread_updated | version_updated | runtime_component_updated | release_center_updated
  | image_bed_updated | account_updated | sync_queue_updated | keepalive
deriving DecidableEq, Repr

/-- `ClientRuntimeEventDto`.  The fields that depend on the type are one text here. -/
structure ClientRuntimeEventDto where
  type : ClientRuntimeEventType
  occurredAt : Nat
  fields : Text := []
deriving DecidableEq, Repr

/-- `MessageEvent`.  Its type and its data are written from the event. -/
structure MessageEvent where
  id : Option Text := none
  event : ClientRuntimeEventDto
deriving DecidableEq, Repr

/-- An event without an id. -/
def toMessageEvent (event : ClientRuntimeEventDto) : MessageEvent := { event }

/-- An event with an id. -/
def toReplayableMessageEvent (event : ClientRuntimeEventDto) (eventId : Text) : MessageEvent :=
  { id := some eventId, event }

/-- What a new stream begins with. -/
def createStreamOpenedEvents (now : Nat) : List ClientRuntimeEventDto :=
  [.keepalive, .subscription_updated, .node_access_updated, .announcement_updated, .policy_updated,
    .version_updated, .runtime_component_updated, .ticket_updated].map fun type =>
      { type, occurredAt := now }

/-- `Number.MAX_SAFE_INTEGER`. -/
def maxSafeInteger : Nat := 2 ^ 53 - 1

/-- The text of an event id. -/
def eventIdText (now sequence : Nat) : Text :=
  Nat.toDigits 10 now ++ '-' :: Nat.toDigits 10 sequence

/-- `isReplayableEventId`: `/^\d+-\d+$/`. -/
def isReplayableEventId (eventId : Text) : Bool :=
  match cut (· == '-') eventId with
  | (time, some sequence) => isDigits time && isDigits sequence
  | (_, none) => false

/-! ## One instance -/

/-- `MAX_REPLAY_EVENTS_PER_USER`. -/
def maxReplayEventsPerUser : Nat := 100

variable {U C : Type} [DecidableEq U] [DecidableEq C]

/-- `ClientRuntimeEventsService`.  A user that a map does not have is one with an empty entry. -/
structure Service (U : Type) where
  subscribers : U → List Nat := fun _ => []
  replayEventsByUser : U → List MessageEvent := fun _ => []
  eventSequence : Nat := 0

namespace Service

/-- The next id: the time and a sequence number. -/
def nextEventId (s : Service U) (now : Nat) : Text × Service U :=
  let eventSequence := (s.eventSequence + 1) % maxSafeInteger
  (eventIdText now eventSequence, { s with eventSequence })

/-- Keeps the event, and drops old ones of the user. -/
def recordReplayEvent (s : Service U) (userId : U) (event : MessageEvent) : Service U :=
  if event.id.getD [] = [] then s
  else
    let events := s.replayEventsByUser userId ++ [event]
    let kept :=
      if events.length > maxReplayEventsPerUser then
        events.drop (events.length - maxReplayEventsPerUser)
      else events
    { s with replayEventsByUser := Function.update s.replayEventsByUser userId kept }

/-- The events behind the last one the client has. -/
def getReplayEvents (s : Service U) (userId : U) (lastEventId : Option Text) : List MessageEvent :=
  let normalizedLastEventId := trim (lastEventId.getD [])
  if normalizedLastEventId = [] then []
  else
    let events := s.replayEventsByUser userId
    match events.findIdx? fun event => event.id = some normalizedLastEventId with
    | some lastIndex => events.drop (lastIndex + 1)
    | none => events

/-- `Set.add`. -/
def addSubscriber (s : Service U) (userId : U) (sink : Nat) : Service U :=
  let current := s.subscribers userId
  let current := if sink ∈ current then current else current ++ [sink]
  { s with subscribers := Function.update s.subscribers userId current }

/-- `Set.delete`. -/
def deleteSubscriber (s : Service U) (userId : U) (sink : Nat) : Service U :=
  { s with subscribers :=
      Function.update s.subscribers userId ((s.subscribers userId).filter (· ≠ sink)) }

end Service

/-! ## The clients -/

/-- A client: its last id, its stream and what it has received. -/
structure Client where
  lastEventId : Option Text := none
  stream : Option Nat := none
  /-- The events with an id since the instance started. -/
  received : List MessageEvent := []
  /-- It had an id when the instance started. -/
  resumes : Bool := false

/-- A message of the stream. -/
def Client.handle (client : Client) (message : MessageEvent) : Client :=
  match message.id with
  | some eventId =>
    { client with
      lastEventId := if isReplayableEventId eventId then some eventId else client.lastEventId
      received := client.received ++ [message] }
  | none => client

/-- The instance and the clients. -/
structure State (U C : Type) where
  service : Service U := {}
  queues : Nat → List MessageEvent := fun _ => []
  sinks : Nat := 0
  clients : C → Client := fun _ => {}
  published : U → List MessageEvent := fun _ => []
  usedIds : U → List Text := fun _ => []

/-- What happens to the streams. -/
inductive Event (U C : Type) where
  | publishToUser (userId : U) (event : ClientRuntimeEventDto) (now : Nat)
  /-- A broadcast of another instance. -/
  | notification (userId : U) (event : ClientRuntimeEventDto) (eventId : Text)
  | connect (client : C) (now : Nat)
  | keepalive (userId : U) (sink : Nat) (now : Nat)
  /-- The client reads the next message. -/
  | read (client : C)
  /-- The connection is over for the client. -/
  | lose (client : C)
  /-- The connection is over for the instance, after `sent` of the messages were sent. -/
  | close (userId : U) (sink : Nat) (sent : Nat)
  | restart

namespace State

/-- Puts the event into the stream. -/
def deliver (s : State U C) (message : MessageEvent) (sink : Nat) : State U C :=
  { s with queues := Function.update s.queues sink (s.queues sink ++ [message]) }

/-- Puts the event into all streams of the user. -/
def dispatchMessageToUser (s : State U C) (userId : U) (message : MessageEvent) : State U C :=
  (s.service.subscribers userId).foldl (fun s sink => s.deliver message sink) s

/-- `recordReplayEvent`, with what is remembered of it. -/
def record (s : State U C) (userId : U) (message : MessageEvent) : State U C :=
  { s with
    service := s.service.recordReplayEvent userId message
    published := Function.update s.published userId (s.published userId ++ [message])
    usedIds := Function.update s.usedIds userId (s.usedIds userId ++ message.id.toList) }

/-- Keeps an event of another instance and sends it. -/
def dispatchToUser (s : State U C) (userId : U) (event : ClientRuntimeEventDto)
    (eventId : Text) : State U C :=
  let message := toReplayableMessageEvent event eventId
  (s.record userId message).dispatchMessageToUser userId message

/-- Gives the event an id, keeps it and sends it. -/
def publishToUser (s : State U C) (userId : U) (event : ClientRuntimeEventDto) (now : Nat) :
    State U C :=
  let (eventId, service) := s.service.nextEventId now
  let message := toReplayableMessageEvent event eventId
  ({ s with service }.record userId message).dispatchMessageToUser userId message

/-- An envelope without an event id is dropped. -/
def notification (s : State U C) (userId : U) (event : ClientRuntimeEventDto) (eventId : Text) :
    State U C :=
  if eventId = [] then s else s.dispatchToUser userId event eventId

/-- `streamForUser`. -/
def streamForUser (s : State U C) (userId : U) (lastEventId : Option Text) (now : Nat) :
    State U C :=
  let sink := s.sinks
  let s' := { s with service := s.service.addSubscriber userId sink, sinks := sink + 1 }
  let replayed := (s'.service.getReplayEvents userId lastEventId).foldl
    (fun s event => s.deliver event sink) s'
  (createStreamOpenedEvents now).foldl (fun s event => s.deliver (toMessageEvent event) sink)
    replayed

/-- The client has changed. -/
def setClient (s : State U C) (c : C) (client : Client) : State U C :=
  { s with clients := Function.update s.clients c client }

variable (user : C → U)

/-- The client opens a stream, with the last id it has. -/
def connect (s : State U C) (c : C) (now : Nat) : State U C :=
  let client := s.clients c
  (s.streamForUser (user c) client.lastEventId now).setClient c
    { client with stream := some s.sinks }

/-- The client reads the next event. -/
def read (s : State U C) (c : C) : State U C :=
  let client := s.clients c
  match client.stream with
  | none => s
  | some sink =>
    match s.queues sink with
    | [] => s
    | message :: queue =>
      { s with queues := Function.update s.queues sink queue }.setClient c (client.handle message)

/-- A sign of life for the stream. -/
def keepalive (s : State U C) (userId : U) (sink : Nat) (now : Nat) : State U C :=
  if sink ∈ s.service.subscribers userId then
    s.deliver (toMessageEvent { type := .keepalive, occurredAt := now }) sink
  else s

/-- The stream is closed after some of its events were sent. -/
def close (s : State U C) (userId : U) (sink : Nat) (sent : Nat) : State U C :=
  if sink ∈ s.service.subscribers userId then
    { s with
      service := s.service.deleteSubscriber userId sink
      queues := Function.update s.queues sink ((s.queues sink).take sent) }
  else s

/-- Another process.  A client that still reads what the old one sent has read it before. -/
def restart (s : State U C) : State U C where
  sinks := s.sinks
  clients c := { lastEventId := (s.clients c).lastEventId
                 resumes := (s.clients c).lastEventId.isSome }
  usedIds := s.usedIds

/-- One step of the system. -/
def step (s : State U C) : Event U C → State U C
  | .publishToUser userId event now => s.publishToUser userId event now
  | .notification userId event eventId => s.notification userId event eventId
  | .connect c now => s.connect user c now
  | .keepalive userId sink now => s.keepalive userId sink now
  | .read c => s.read c
  | .lose c => s.setClient c { s.clients c with stream := none }
  | .close userId sink sent => s.close userId sink sent
  | .restart => s.restart

/-- The messages with an id that wait for a client. -/
def pending (s : State U C) (c : C) : List MessageEvent :=
  match (s.clients c).stream with
  | none => []
  | some sink => (s.queues sink).filter (·.id.isSome)

/-- The client has a stream and the instance still serves it. -/
def Subscribed (s : State U C) (c : C) : Prop :=
  ∃ sink, (s.clients c).stream = some sink ∧ sink ∈ s.service.subscribers (user c)

/-- The ids are new, and a client that connects again is at most `maxReplayEventsPerUser` events
behind. -/
def Admissible (s : State U C) : Event U C → Prop
  | .publishToUser userId _ now => (s.service.nextEventId now).1 ∉ s.usedIds userId
  | .notification userId _ eventId => isReplayableEventId eventId ∧ eventId ∉ s.usedIds userId
  | .connect c _ => ∀ lastEventId ∈ (s.clients c).lastEventId,
      ReplayLog.since MessageEvent.id (some lastEventId) (s.published (user c)) ≤
        maxReplayEventsPerUser
  | _ => True

instance (s : State U C) : ∀ e : Event U C, Decidable (s.Admissible user e)
  | .publishToUser userId _ now =>
    inferInstanceAs (Decidable ((s.service.nextEventId now).1 ∉ s.usedIds userId))
  | .notification userId _ eventId =>
    inferInstanceAs (Decidable (isReplayableEventId eventId ∧ eventId ∉ s.usedIds userId))
  | .connect c _ =>
    inferInstanceAs (Decidable (∀ lastEventId ∈ (s.clients c).lastEventId,
      ReplayLog.since MessageEvent.id (some lastEventId) (s.published (user c)) ≤
        maxReplayEventsPerUser))
  | .keepalive .. | .read _ | .lose _ | .close .. | .restart => isTrue trivial

end State

end ChordV.Api.RuntimeEvents
