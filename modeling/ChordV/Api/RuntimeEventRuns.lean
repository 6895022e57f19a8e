import ChordV.Api.RuntimeEvents

/-!
# What the clients receive of the runtime events

* Event ids survive `trim` and are replayable.
* The service keeps the last events of the log, and replays what follows an id.
* `Tracks` says where a client stands in the log, and each operation keeps it.
* `Inv` is the invariant of the system.
* `received_in_order`: in every run a client receives the events of the log one after the other.
-/

namespace ChordV.Api.RuntimeEvents

open Lib Js

/-! ## Event ids -/

theorem isReplayableEventId_eventIdText (now sequence : Nat) :
    isReplayableEventId (eventIdText now sequence) = true := by
  have hcut : cut (· == '-') (eventIdText now sequence) =
      (Nat.toDigits 10 now, some (Nat.toDigits 10 sequence)) := by
    refine cut_append (by decide) _ fun c hc => ?_
    have hdigit := Nat.isDigit_of_mem_toDigits (by decide) (by decide) hc
    rw [beq_eq_false_iff_ne]
    rintro rfl
    exact absurd hdigit (by decide)
  rw [isReplayableEventId, hcut]
  simp only [isDigits_toDigits, Bool.and_self]

theorem not_isBlank_of_replayable {eventId : Text} (h : isReplayableEventId eventId = true) :
    ∀ c ∈ eventId, isBlank c = false := by
  unfold isReplayableEventId at h
  split at h
  · next time sequence heq =>
    rw [Bool.and_eq_true] at h
    obtain ⟨sep, hsep, rfl, -⟩ := cut_eq_some heq
    obtain rfl : sep = '-' := by simpa using hsep
    intro c hc
    rcases List.mem_append.1 hc with hc | hc
    · exact not_isBlank_of_isDigits h.1 c hc
    · rcases List.mem_cons.1 hc with rfl | hc
      · decide
      · exact not_isBlank_of_isDigits h.2 c hc
  · cases h

theorem trim_of_replayable {eventId : Text} (h : isReplayableEventId eventId = true) :
    trim eventId = eventId :=
  trim_of_forall (not_isBlank_of_replayable h)

theorem ne_nil_of_replayable {eventId : Text} (h : isReplayableEventId eventId = true) :
    eventId ≠ [] := by
  rintro rfl
  cases h

/-! ## The replay log of a user -/

variable {U C : Type}

section Record

variable [DecidableEq U]

theorem replayEventsByUser_record {s : Service U} {u : U} {message : MessageEvent}
    {log : List MessageEvent} (hid : message.id.getD [] ≠ [])
    (h : s.replayEventsByUser u = ReplayLog.keepLast maxReplayEventsPerUser log) :
    (s.recordReplayEvent u message).replayEventsByUser u =
      ReplayLog.keepLast maxReplayEventsPerUser (log ++ [message]) := by
  rw [Service.recordReplayEvent, if_neg hid]
  dsimp only
  rw [Function.update_self, ← ReplayLog.push_keepLast, ← h, ReplayLog.push]
  split
  · rfl
  · next hle => rw [ReplayLog.keepLast_of_le (Nat.le_of_not_lt hle)]

theorem replayEventsByUser_record_of_ne {s : Service U} {u v : U} {message : MessageEvent}
    (h : v ≠ u) : (s.recordReplayEvent u message).replayEventsByUser v =
      s.replayEventsByUser v := by
  unfold Service.recordReplayEvent
  split
  · rfl
  · exact Function.update_of_ne h _ _

@[simp] theorem subscribers_record (s : Service U) (u : U) (message : MessageEvent) :
    (s.recordReplayEvent u message).subscribers = s.subscribers := by
  unfold Service.recordReplayEvent
  split <;> rfl

end Record

theorem getReplayEvents_some {s : Service U} {u : U} {eventId : Text}
    (h : isReplayableEventId eventId = true) : s.getReplayEvents u (some eventId) =
      ReplayLog.resume MessageEvent.id (some eventId) (s.replayEventsByUser u) := by
  rw [Service.getReplayEvents, Option.getD_some, trim_of_replayable h,
    if_neg (ne_nil_of_replayable h)]
  rfl

/-! ## Where a client stands -/

theorem Client.handle_stream (client : Client) (message : MessageEvent) :
    (client.handle message).stream = client.stream := by
  unfold Client.handle
  split <;> rfl

/-- `waiting` are the messages with an id that the client has not read. -/
structure Tracks (log : List MessageEvent) (client : Client) (waiting : List MessageEvent) :
    Prop where
  inLog : client.received ++ waiting <:+: log
  last : ∀ m ∈ client.received.getLast?, client.lastEventId = m.id
  /-- Before the first event, the id that it has is of an earlier instance. -/
  foreign : client.received = [] → ∀ id ∈ client.lastEventId, some id ∉ log.map MessageEvent.id
  resumed : client.resumes = true →
    client.lastEventId.isSome = true ∧ client.received ++ waiting <+: log

/-- Nothing that was recorded since the first event is missing. -/
structure CaughtUp (log : List MessageEvent) (client : Client) (waiting : List MessageEvent) :
    Prop where
  suffix : client.received ++ waiting <:+ log
  resumed : client.resumes = true → client.received ++ waiting = log

namespace Tracks

variable {log waiting : List MessageEvent} {client : Client} {message : MessageEvent}

/-- What is lost on the way. -/
theorem shorten (h : Tracks log client waiting) {sent : List MessageEvent}
    (hsent : sent <+: waiting) (stream : Option Nat) :
    Tracks log { client with stream } sent where
  inLog := ((List.prefix_append_right_inj client.received).2 hsent).isInfix.trans h.inLog
  last := h.last
  foreign := h.foreign
  resumed hresumes := ⟨(h.resumed hresumes).1,
    ((List.prefix_append_right_inj client.received).2 hsent).trans (h.resumed hresumes).2⟩

/-- An event is recorded that is not for this client. -/
theorem record (h : Tracks log client waiting) (hnew : client.lastEventId ≠ message.id) :
    Tracks (log ++ [message]) client waiting where
  inLog := h.inLog.trans (List.prefix_append log [message]).isInfix
  last := h.last
  foreign hnil id hid hmem := by
    rw [List.map_append, List.mem_append] at hmem
    rcases hmem with hmem | hmem
    · exact h.foreign hnil id hid hmem
    · rw [List.map_singleton, List.mem_singleton] at hmem
      exact hnew (hid.trans hmem)
  resumed hresumes := ⟨(h.resumed hresumes).1,
    (h.resumed hresumes).2.trans (List.prefix_append log [message])⟩

/-- An event is recorded and delivered to the stream of the client. -/
theorem deliver (h : Tracks log client waiting) (hup : CaughtUp log client waiting)
    (hnew : client.lastEventId ≠ message.id) :
    Tracks (log ++ [message]) client (waiting ++ [message]) ∧
      CaughtUp (log ++ [message]) client (waiting ++ [message]) := by
  have hsuffix : client.received ++ (waiting ++ [message]) <:+ log ++ [message] := by
    obtain ⟨before, heq⟩ := hup.suffix
    exact ⟨before, by rw [← heq]; simp⟩
  have hall : client.resumes = true →
      client.received ++ (waiting ++ [message]) = log ++ [message] := by
    intro hresumes
    rw [← List.append_assoc, hup.resumed hresumes]
  have hrecord := h.record hnew
  exact ⟨⟨hsuffix.isInfix, h.last, hrecord.foreign, fun hresumes =>
    ⟨(h.resumed hresumes).1, (hall hresumes) ▸ List.prefix_refl _⟩⟩, ⟨hsuffix, hall⟩⟩

theorem handle_of_some {id : Text} (hid : message.id = some id)
    (hreplayable : isReplayableEventId id = true) (client : Client) :
    client.handle message = { client with
      lastEventId := message.id, received := client.received ++ [message] } := by
  rw [Client.handle, hid]
  dsimp only
  rw [if_pos hreplayable]

/-- The client reads an event. -/
theorem handle (h : Tracks log client (message :: waiting)) {id : Text}
    (hid : message.id = some id) (hreplayable : isReplayableEventId id = true) :
    Tracks log (client.handle message) waiting := by
  rw [handle_of_some hid hreplayable]
  refine ⟨?_, ?_, ?_, ?_⟩
  · simpa using h.inLog
  · simp
  · simp
  · intro hresumes
    exact ⟨by rw [hid]; rfl, by simpa using (h.resumed hresumes).2⟩

/-- What an instance replays for a client. -/
def replayed (log : List MessageEvent) : Option Text → List MessageEvent
  | none => []
  | some id =>
    ReplayLog.resume MessageEvent.id (some id) (ReplayLog.keepLast maxReplayEventsPerUser log)

theorem replayed_suffix (log : List MessageEvent) (lastEventId : Option Text) :
    replayed log lastEventId <:+ log := by
  cases lastEventId with
  | none => exact List.nil_suffix
  | some id => exact (ReplayLog.resume_suffix _ _).trans (ReplayLog.keepLast_suffix log)

/-- Behind an event that the client has, the replay has everything. -/
theorem replayed_of_received {before rest : List MessageEvent}
    (hlog : log = before ++ message :: rest) (hnodup : (log.map MessageEvent.id).Nodup)
    (hlast : client.lastEventId = message.id)
    (hsince : ∀ id ∈ client.lastEventId,
      ReplayLog.since MessageEvent.id (some id) log ≤ maxReplayEventsPerUser)
    (hid : message.id.isSome = true) : replayed log client.lastEventId = rest := by
  obtain ⟨id, hid⟩ := Option.isSome_iff_exists.1 hid
  rw [hlast, hid, replayed, hlog, ← hid]
  subst hlog
  refine ReplayLog.resume_keepLast hnodup ?_
  rw [List.map_append, List.map_cons, List.nodup_append] at hnodup
  have hafter := (List.nodup_cons.1 hnodup.2.1).1
  have hle := hsince id (hlast.trans hid)
  rw [← hid, ReplayLog.since_append hafter] at hle
  exact hle

/-- The client connects again. -/
theorem connect (h : Tracks log client waiting) (hnodup : (log.map MessageEvent.id).Nodup)
    (hids : ∀ m ∈ log, m.id.isSome = true)
    (hsince : ∀ id ∈ client.lastEventId,
      ReplayLog.since MessageEvent.id (some id) log ≤ maxReplayEventsPerUser)
    (stream : Option Nat) :
    Tracks log { client with stream } (replayed log client.lastEventId) ∧
      CaughtUp log { client with stream } (replayed log client.lastEventId) := by
  have hup : CaughtUp log client (replayed log client.lastEventId) := by
    rcases List.eq_nil_or_concat client.received with hnil | ⟨earlier, m, hreceived⟩
    · cases hlast : client.lastEventId with
      | none =>
        refine ⟨?_, fun hresumes => ?_⟩
        · rw [hnil]
          exact List.nil_suffix
        · have hsome := (h.resumed hresumes).1
          rw [hlast] at hsome
          cases hsome
      | some id =>
        have hforeign := h.foreign hnil id hlast
        have hreplayed : replayed log (some id) =
            ReplayLog.keepLast maxReplayEventsPerUser log :=
          ReplayLog.resume_of_not_mem fun hmem => hforeign
            (((ReplayLog.keepLast_suffix log).map MessageEvent.id).mem hmem)
        rw [hreplayed]
        refine ⟨?_, fun _ => ?_⟩
        · rw [hnil]
          exact ReplayLog.keepLast_suffix log
        · have hle := hsince id hlast
          rw [ReplayLog.since_of_not_mem hforeign] at hle
          rw [hnil, ReplayLog.keepLast_of_le hle]
          rfl
    · have hlast : client.lastEventId = m.id := h.last m (by rw [hreceived]; simp)
      have hmem : m ∈ log := h.inLog.mem (by rw [hreceived]; simp)
      have hreplayed : ∀ before rest, log = before ++ client.received ++ rest →
          replayed log client.lastEventId = rest := by
        intro before rest hlog
        have hsplit : log = before ++ earlier ++ m :: rest := by
          rw [hlog, hreceived]
          simp
        exact replayed_of_received hsplit hnodup hlast hsince (hids m hmem)
      refine ⟨?_, fun hresumes => ?_⟩
      · obtain ⟨before, after, heq⟩ := h.inLog
        have hlog : log = before ++ client.received ++ (waiting ++ after) := by
          rw [← heq]
          simp
        exact ⟨before, by rw [hreplayed before _ hlog, ← List.append_assoc, ← hlog]⟩
      · obtain ⟨after, heq⟩ := (h.resumed hresumes).2
        have hlog : log = [] ++ client.received ++ (waiting ++ after) := by
          rw [← heq]
          simp
        rw [hreplayed [] _ hlog]
        exact hlog.symm
  refine ⟨⟨hup.suffix.isInfix, h.last, h.foreign, fun hresumes => ?_⟩, ⟨hup.suffix, hup.resumed⟩⟩
  exact ⟨(h.resumed hresumes).1, [], (List.append_nil _).trans (hup.resumed hresumes)⟩

/-- Another instance starts. -/
theorem restart (client : Client) : Tracks []
    { lastEventId := client.lastEventId, resumes := client.lastEventId.isSome } [] where
  inLog := List.infix_refl []
  last := by simp
  foreign := by simp
  resumed hresumes := ⟨hresumes, List.prefix_refl []⟩

end Tracks

/-! ## Queues -/

namespace State

variable {s : State U C} {message : MessageEvent}

/-- A message for several sinks. -/
theorem foldl_deliver_sinks (message : MessageEvent) {sinks : List Nat} (hnodup : sinks.Nodup)
    (s : State U C) : sinks.foldl (fun s sink => s.deliver message sink) s =
      { s with queues := fun sink =>
          if sink ∈ sinks then s.queues sink ++ [message] else s.queues sink } := by
  induction sinks generalizing s with
  | nil => simp
  | cons sink sinks ih =>
    rw [List.foldl_cons, ih (List.nodup_cons.1 hnodup).2]
    have hnot := (List.nodup_cons.1 hnodup).1
    simp only [deliver, State.mk.injEq, true_and, and_true]
    funext other
    by_cases heq : other = sink
    · subst heq
      simp [hnot]
    · simp [heq]

/-- Several messages for a sink. -/
theorem foldl_deliver_messages (sink : Nat) (messages : List MessageEvent) (s : State U C) :
    messages.foldl (fun s message => s.deliver message sink) s =
      { s with queues := Function.update s.queues sink (s.queues sink ++ messages) } := by
  induction messages generalizing s with
  | nil => simp
  | cons message messages ih =>
    rw [List.foldl_cons, ih]
    simp [deliver]

variable (user : C → U)

/-- What holds of a client. -/
structure ClientInv (s : State U C) (c : C) : Prop where
  lastEventId : ∀ id ∈ (s.clients c).lastEventId, isReplayableEventId id = true ∧
    id ∈ s.usedIds (user c)
  stream : ∀ sink ∈ (s.clients c).stream, sink < s.sinks ∧
    ∀ u, sink ∈ s.service.subscribers u → u = user c
  tracks : Tracks (s.published (user c)) (s.clients c) (s.pending c)
  caughtUp : s.Subscribed user c →
    CaughtUp (s.published (user c)) (s.clients c) (s.pending c)

/-- What holds in every reachable state. -/
structure Inv (s : State U C) : Prop where
  nodup : ∀ u, ((s.published u).map MessageEvent.id).Nodup
  ids : ∀ u, ∀ m ∈ s.published u, ∃ id, m.id = some id ∧ isReplayableEventId id = true ∧
    id ∈ s.usedIds u
  kept : ∀ u, s.service.replayEventsByUser u =
    ReplayLog.keepLast maxReplayEventsPerUser (s.published u)
  subscribers : ∀ u, (s.service.subscribers u).Nodup ∧
    ∀ sink ∈ s.service.subscribers u, sink < s.sinks
  /-- A sink that is not made yet has no queue. -/
  fresh : ∀ sink, s.sinks ≤ sink → s.queues sink = []
  exclusive : ∀ c c' sink, (s.clients c).stream = some sink → (s.clients c').stream = some sink →
    c = c'
  client : ∀ c, s.ClientInv user c

variable {user}

theorem inv_init : Inv user ({} : State U C) where
  nodup _ := List.nodup_nil
  ids _ := by simp
  kept _ := rfl
  subscribers _ := ⟨List.nodup_nil, by simp⟩
  fresh _ _ := rfl
  exclusive _ _ _ hstream := by cases hstream
  client _ := {
    lastEventId := by simp
    stream := by simp
    tracks := ⟨List.infix_refl [], by simp, by simp, by simp⟩
    caughtUp := by
      rintro ⟨sink, hstream, -⟩
      cases hstream }

theorem pending_eq {s : State U C} {c : C} {sink : Nat} (h : (s.clients c).stream = some sink) :
    s.pending c = (s.queues sink).filter (·.id.isSome) := by
  rw [pending, h]

theorem pending_of_queue {s : State U C} {c : C} {sink : Nat} {queue : List MessageEvent}
    (h : (s.clients c).stream = some sink) (hqueue : s.queues sink = queue) :
    s.pending c = queue.filter (·.id.isSome) := by
  rw [pending_eq h, hqueue]

theorem pending_none {s : State U C} {c : C} (h : (s.clients c).stream = none) :
    s.pending c = [] := by
  rw [pending, h]

/-! ### One client -/

variable {s' : State U C} {c : C}

/-- A client that a step leaves alone, but for messages that are lost with its sink. -/
theorem ClientInv.mono (h : s.ClientInv user c) (hclient : s'.clients c = s.clients c)
    (hpublished : s'.published = s.published) (hused : s'.usedIds = s.usedIds)
    (hsinks : s.sinks ≤ s'.sinks)
    (hsubscribers : ∀ u, ∀ sink < s.sinks, sink ∈ s'.service.subscribers u →
      sink ∈ s.service.subscribers u)
    (hpending : s'.pending c <+: s.pending c)
    (hkept : s'.Subscribed user c → s'.pending c = s.pending c) : s'.ClientInv user c where
  lastEventId := by
    rw [hclient, hused]
    exact h.lastEventId
  stream := by
    rw [hclient]
    intro sink hsink
    obtain ⟨hlt, huser⟩ := h.stream sink hsink
    exact ⟨Nat.lt_of_lt_of_le hlt hsinks, fun u hmem => huser u (hsubscribers u sink hlt hmem)⟩
  tracks := by
    rw [hclient, hpublished]
    exact h.tracks.shorten hpending _
  caughtUp hsubscribed := by
    rw [hclient, hpublished, hkept hsubscribed]
    obtain ⟨sink, hsink, hmem⟩ := hsubscribed
    rw [hclient] at hsink
    exact h.caughtUp ⟨sink, hsink, hsubscribers _ sink (h.stream sink hsink).1 hmem⟩

/-- A client that a step leaves alone. -/
theorem ClientInv.same (h : s.ClientInv user c) (hclient : s'.clients c = s.clients c)
    (hpublished : s'.published = s.published) (hused : s'.usedIds = s.usedIds)
    (hsinks : s.sinks ≤ s'.sinks)
    (hsubscribers : ∀ u, ∀ sink < s.sinks, sink ∈ s'.service.subscribers u →
      sink ∈ s.service.subscribers u)
    (hpending : s'.pending c = s.pending c) : s'.ClientInv user c :=
  h.mono hclient hpublished hused hsinks hsubscribers (hpending ▸ List.prefix_refl _)
    fun _ => hpending

/-- The messages that wait are those of the sink. -/
theorem pending_congr (hclient : s'.clients c = s.clients c)
    (hqueue : ∀ sink ∈ (s.clients c).stream, (s'.queues sink).filter (·.id.isSome) =
      (s.queues sink).filter (·.id.isSome)) : s'.pending c = s.pending c := by
  cases hstream : (s.clients c).stream with
  | none => rw [pending_none hstream, pending_none (by rw [hclient, hstream])]
  | some sink =>
    rw [pending_eq hstream, pending_eq (by rw [hclient, hstream])]
    exact hqueue sink hstream

/-- The client that reads. -/
theorem ClientInv.read (h : s.ClientInv user c) {sink : Nat} {message : MessageEvent}
    {queue : List MessageEvent} (hstream : (s.clients c).stream = some sink)
    (hqueue : s.queues sink = message :: queue)
    (hids : ∀ m ∈ s.published (user c), ∃ id, m.id = some id ∧ isReplayableEventId id = true ∧
      id ∈ s.usedIds (user c))
    (hclient : s'.clients c = (s.clients c).handle message) (hqueue' : s'.queues sink = queue)
    (hservice : s'.service = s.service) (hsinks : s'.sinks = s.sinks)
    (hpublished : s'.published = s.published) (hused : s'.usedIds = s.usedIds) :
    s'.ClientInv user c := by
  have hpending : s.pending c = (message :: queue).filter (·.id.isSome) :=
    pending_of_queue hstream hqueue
  have hpending' : s'.pending c = queue.filter (·.id.isSome) :=
    pending_of_queue (by rw [hclient, Client.handle_stream, hstream]) hqueue'
  obtain ⟨hlast, hsinkOf, htracks, hup⟩ := h
  rw [hpending] at htracks hup
  cases hid : message.id with
  | none =>
    have hhandle : (s.clients c).handle message = s.clients c := by
      rw [Client.handle, hid]
    rw [List.filter_cons_of_neg (by simp [hid])] at htracks hup
    rw [hhandle] at hclient
    refine ⟨?_, ?_, ?_, ?_⟩
    · rw [hclient, hused]
      exact hlast
    · rw [hclient, hsinks, hservice]
      exact hsinkOf
    · rw [hclient, hpending', hpublished]
      exact htracks
    · rw [Subscribed, hclient, hpending', hpublished, hservice]
      exact hup
  | some id =>
    rw [List.filter_cons_of_pos (by simp [hid])] at htracks hup
    have hmem : message ∈ s.published (user c) := htracks.inLog.mem (by simp)
    obtain ⟨id', hid', hreplayable, hmemUsed⟩ := hids message hmem
    obtain rfl : id' = id := Option.some.inj (hid'.symm.trans hid)
    have hhandle := Tracks.handle_of_some hid hreplayable (s.clients c)
    refine ⟨?_, ?_, ?_, ?_⟩
    · rw [hclient, hhandle, hid, hused]
      intro _ hsome
      obtain rfl := Option.some.inj hsome
      exact ⟨hreplayable, hmemUsed⟩
    · rw [hclient, hsinks, hservice, Client.handle_stream]
      exact hsinkOf
    · rw [hclient, hpending', hpublished]
      exact htracks.handle hid hreplayable
    · rw [Subscribed, hclient, Client.handle_stream, hpending', hpublished, hservice, hhandle]
      intro hsubscribed
      obtain ⟨hsuffix, hall⟩ := hup hsubscribed
      exact ⟨by simpa using hsuffix, fun hresumes => by simpa using hall hresumes⟩

/-- What the service replays for a client. -/
theorem Inv.getReplayEvents (h : Inv user s) (c : C) :
    s.service.getReplayEvents (user c) (s.clients c).lastEventId =
      Tracks.replayed (s.published (user c)) (s.clients c).lastEventId := by
  cases hlast : (s.clients c).lastEventId with
  | none => rfl
  | some id =>
    rw [getReplayEvents_some ((h.client c).lastEventId id hlast).1, h.kept, Tracks.replayed]

/-- The client that connects. -/
theorem ClientInv.connect (h : s.ClientInv user c) {now : Nat}
    (hnodup : ((s.published (user c)).map MessageEvent.id).Nodup)
    (hids : ∀ m ∈ s.published (user c), ∃ id, m.id = some id ∧ isReplayableEventId id = true ∧
      id ∈ s.usedIds (user c))
    (hsince : ∀ lastEventId ∈ (s.clients c).lastEventId,
      ReplayLog.since MessageEvent.id (some lastEventId) (s.published (user c)) ≤
        maxReplayEventsPerUser)
    (hclient : s'.clients c = { s.clients c with stream := some s.sinks })
    (hqueue : s'.queues s.sinks =
      Tracks.replayed (s.published (user c)) (s.clients c).lastEventId ++
        (createStreamOpenedEvents now).map toMessageEvent)
    (hsubscribers : ∀ u, s.sinks ∈ s'.service.subscribers u → u = user c)
    (hsinks : s'.sinks = s.sinks + 1) (hpublished : s'.published = s.published)
    (hused : s'.usedIds = s.usedIds) : s'.ClientInv user c := by
  have hsome : ∀ m ∈ s.published (user c), m.id.isSome = true := by
    intro m hm
    obtain ⟨id, hid, -⟩ := hids m hm
    rw [hid]
    rfl
  have hpending : s'.pending c =
      Tracks.replayed (s.published (user c)) (s.clients c).lastEventId := by
    rw [pending_of_queue (by rw [hclient]) hqueue, List.filter_append,
      List.filter_eq_self.2 fun m hm => hsome m ((Tracks.replayed_suffix _ _).mem hm)]
    exact List.append_nil _
  obtain ⟨htracks, hup⟩ := h.tracks.connect hnodup hsome hsince (some s.sinks)
  refine ⟨?_, ?_, ?_, ?_⟩
  · rw [hclient, hused]
    exact h.lastEventId
  · rw [hclient, hsinks]
    rintro sink hsink
    obtain rfl : s.sinks = sink := Option.some.inj hsink
    exact ⟨Nat.lt_succ_self _, hsubscribers⟩
  · rw [hclient, hpending, hpublished]
    exact htracks
  · rw [hclient, hpending, hpublished]
    exact fun _ => hup

theorem Inv.keepalive (h : Inv user s) (u : U) (sink now : Nat) :
    Inv user (s.keepalive u sink now) := by
  unfold State.keepalive
  split
  · next hmem =>
    have hpending : ∀ c, (s.deliver (toMessageEvent { type := .keepalive, occurredAt := now })
        sink).pending c = s.pending c := by
      intro c
      refine pending_congr rfl fun other _ => ?_
      rw [deliver]
      dsimp only
      by_cases heq : other = sink
      · rw [heq, Function.update_self, List.filter_append]
        exact List.append_nil _
      · rw [Function.update_of_ne heq]
    refine { h with fresh := fun other hle => ?_, client := fun c => ?_ }
    · have hne : other ≠ sink := by
        rintro rfl
        exact absurd ((h.subscribers u).2 other hmem) (Nat.not_lt_of_le hle)
      exact (Function.update_of_ne hne _ _).trans (h.fresh other hle)
    · exact (h.client c).same rfl rfl rfl le_rfl (fun _ _ _ hmem => hmem) (hpending c)
  · exact h

theorem Inv.restart (h : Inv user s) : Inv user s.restart where
  nodup _ := List.nodup_nil
  ids _ := by simp [State.restart]
  kept _ := rfl
  subscribers _ := ⟨List.nodup_nil, by simp [State.restart]⟩
  fresh _ _ := rfl
  exclusive _ _ _ hstream := by cases hstream
  client c := {
    lastEventId := (h.client c).lastEventId
    stream := by simp [State.restart]
    tracks := Tracks.restart (s.clients c)
    caughtUp := by
      rintro ⟨sink, hstream, -⟩
      cases hstream }

/-! ### Dispatching -/

section Users

variable [DecidableEq U]

theorem dispatchToUser_eq (h : Inv user s) (u : U) (event : ClientRuntimeEventDto) (id : Text) :
    s.dispatchToUser u event id =
      { s.record u (toReplayableMessageEvent event id) with
        queues := fun sink =>
          if sink ∈ s.service.subscribers u then
            s.queues sink ++ [toReplayableMessageEvent event id]
          else s.queues sink } := by
  have hsubscribers : (s.record u (toReplayableMessageEvent event id)).service.subscribers u =
      s.service.subscribers u := by simp [record]
  rw [State.dispatchToUser, dispatchMessageToUser, hsubscribers,
    foldl_deliver_sinks _ (h.subscribers u).1]
  rfl

section Dispatch

variable {u : U} {event : ClientRuntimeEventDto} {id : Text}

theorem subscribers_dispatchToUser (h : Inv user s) :
    (s.dispatchToUser u event id).service.subscribers = s.service.subscribers := by
  rw [dispatchToUser_eq h]
  exact subscribers_record ..

theorem clients_dispatchToUser (h : Inv user s) :
    (s.dispatchToUser u event id).clients = s.clients := by
  rw [dispatchToUser_eq h]
  rfl

theorem published_dispatchToUser (h : Inv user s) : (s.dispatchToUser u event id).published =
    Function.update s.published u (s.published u ++ [toReplayableMessageEvent event id]) := by
  rw [dispatchToUser_eq h]
  rfl

theorem usedIds_dispatchToUser (h : Inv user s) : (s.dispatchToUser u event id).usedIds =
    Function.update s.usedIds u (s.usedIds u ++ [id]) := by
  rw [dispatchToUser_eq h]
  rfl

/-- The message waits for the clients whose sinks are in the set of the user. -/
theorem pending_dispatchToUser (h : Inv user s) {c : C} {sink : Nat}
    (hstream : (s.clients c).stream = some sink) : (s.dispatchToUser u event id).pending c =
      if sink ∈ s.service.subscribers u then
        s.pending c ++ [toReplayableMessageEvent event id] else s.pending c := by
  have hstream' : ((s.dispatchToUser u event id).clients c).stream = some sink := by
    rw [clients_dispatchToUser h, hstream]
  rw [pending_eq hstream', pending_eq hstream, dispatchToUser_eq h]
  dsimp only
  split
  · rw [List.filter_append]
    rfl
  · rfl

/-- What a dispatch is for one client. -/
theorem Inv.dispatch_client (h : Inv user s) (hnew : id ∉ s.usedIds u)
    (event : ClientRuntimeEventDto) (c : C) :
    Tracks ((s.dispatchToUser u event id).published (user c)) (s.clients c)
        ((s.dispatchToUser u event id).pending c) ∧
      (s.Subscribed user c → CaughtUp ((s.dispatchToUser u event id).published (user c))
        (s.clients c) ((s.dispatchToUser u event id).pending c)) := by
  obtain ⟨hid, hstreamOf, htracks, hup⟩ := h.client c
  rw [published_dispatchToUser h]
  by_cases hmine : user c = u
  · have hlast : (s.clients c).lastEventId ≠ (toReplayableMessageEvent event id).id :=
      fun hlast => hnew (hmine ▸ (hid id hlast).2)
    rw [hmine, Function.update_self]
    rw [hmine] at htracks hup
    cases hstream : (s.clients c).stream with
    | none =>
      have hstream' : ((s.dispatchToUser u event id).clients c).stream = none := by
        rw [clients_dispatchToUser h, hstream]
      rw [pending_none hstream] at htracks
      rw [pending_none hstream']
      refine ⟨htracks.record hlast, ?_⟩
      rintro ⟨sink, hsome, -⟩
      rw [hstream] at hsome
      cases hsome
    | some sink =>
      rw [pending_dispatchToUser h hstream]
      split
      · next hmem =>
        have hdeliver := htracks.deliver (hup ⟨sink, hstream, hmine ▸ hmem⟩) hlast
        exact ⟨hdeliver.1, fun _ => hdeliver.2⟩
      · next hmem =>
        refine ⟨htracks.record hlast, ?_⟩
        rintro ⟨sink', hsome, hsink'⟩
        rw [hstream] at hsome
        cases hsome
        exact absurd (hmine ▸ hsink') hmem
  · rw [Function.update_of_ne hmine]
    have hpending : (s.dispatchToUser u event id).pending c = s.pending c := by
      cases hstream : (s.clients c).stream with
      | none =>
        rw [pending_none hstream, pending_none (by rw [clients_dispatchToUser h, hstream])]
      | some sink =>
        rw [pending_dispatchToUser h hstream, if_neg]
        exact fun hmem => hmine ((hstreamOf sink hstream).2 u hmem).symm
    rw [hpending]
    exact ⟨htracks, hup⟩

/-- An event with a new id is recorded and dispatched. -/
theorem Inv.dispatchToUser (h : Inv user s) (hreplayable : isReplayableEventId id = true)
    (hnew : id ∉ s.usedIds u) : Inv user (s.dispatchToUser u event id) where
  nodup v := by
    rw [published_dispatchToUser h]
    by_cases heq : v = u
    · subst heq
      rw [Function.update_self, List.map_append, List.nodup_append]
      refine ⟨h.nodup v, List.nodup_singleton _, ?_⟩
      rintro _ hmem _ hsingle rfl
      obtain ⟨m, hm, hid⟩ := List.mem_map.1 hmem
      obtain ⟨id', hid', -, hused⟩ := h.ids v m hm
      rw [List.map_singleton, List.mem_singleton, ← hid, hid'] at hsingle
      exact hnew (Option.some.inj hsingle ▸ hused)
    · rw [Function.update_of_ne heq]
      exact h.nodup v
  ids v m hm := by
    rw [published_dispatchToUser h] at hm
    rw [usedIds_dispatchToUser h]
    by_cases heq : v = u
    · subst heq
      rw [Function.update_self] at hm ⊢
      rcases List.mem_append.1 hm with hm | hm
      · obtain ⟨id', hid', hreplayable', hused⟩ := h.ids v m hm
        exact ⟨id', hid', hreplayable', List.mem_append_left _ hused⟩
      · rw [List.mem_singleton.1 hm]
        exact ⟨id, rfl, hreplayable, by simp⟩
    · rw [Function.update_of_ne heq] at hm ⊢
      exact h.ids v m hm
  kept v := by
    rw [published_dispatchToUser h]
    have hkept : (s.dispatchToUser u event id).service =
        s.service.recordReplayEvent u (toReplayableMessageEvent event id) := by
      rw [dispatchToUser_eq h]
      rfl
    rw [hkept]
    by_cases heq : v = u
    · subst heq
      rw [Function.update_self]
      exact replayEventsByUser_record (ne_nil_of_replayable hreplayable) (h.kept v)
    · rw [Function.update_of_ne heq, replayEventsByUser_record_of_ne heq]
      exact h.kept v
  subscribers v := by
    rw [subscribers_dispatchToUser h, dispatchToUser_eq h]
    exact h.subscribers v
  fresh sink hle := by
    rw [dispatchToUser_eq h] at hle ⊢
    dsimp only
    rw [if_neg, h.fresh sink hle]
    exact fun hmem => absurd ((h.subscribers u).2 sink hmem) (Nat.not_lt_of_le hle)
  exclusive := by
    rw [clients_dispatchToUser h]
    exact h.exclusive
  client c := by
    obtain ⟨htracks, hup⟩ := h.dispatch_client hnew event c
    refine ⟨?_, ?_, ?_, ?_⟩
    · rw [clients_dispatchToUser h, usedIds_dispatchToUser h]
      intro id' hid'
      obtain ⟨hreplayable', hused⟩ := (h.client c).lastEventId id' hid'
      refine ⟨hreplayable', ?_⟩
      by_cases heq : user c = u
      · rw [← heq, Function.update_self]
        exact List.mem_append_left _ hused
      · rwa [Function.update_of_ne heq]
    · rw [subscribers_dispatchToUser h, clients_dispatchToUser h, dispatchToUser_eq h]
      exact (h.client c).stream
    · rwa [clients_dispatchToUser h]
    · rw [Subscribed, clients_dispatchToUser h, subscribers_dispatchToUser h]
      exact hup

end Dispatch

theorem Inv.publishToUser (h : Inv user s) {u : U} {event : ClientRuntimeEventDto} {now : Nat}
    (hnew : (s.service.nextEventId now).1 ∉ s.usedIds u) :
    Inv user (s.publishToUser u event now) := by
  have hservice : Inv user { s with service := (s.service.nextEventId now).2 } := by
    refine { h with client := fun c => ?_ }
    exact (h.client c).same rfl rfl rfl le_rfl (fun _ _ _ hmem => hmem) rfl
  exact hservice.dispatchToUser (isReplayableEventId_eventIdText ..) hnew

theorem Inv.notification (h : Inv user s) {u : U} {event : ClientRuntimeEventDto} {id : Text}
    (hreplayable : isReplayableEventId id = true) (hnew : id ∉ s.usedIds u) :
    Inv user (s.notification u event id) := by
  rw [State.notification, if_neg (ne_nil_of_replayable hreplayable)]
  exact h.dispatchToUser hreplayable hnew

theorem subscribers_delete (s : Service U) (u v : U) (sink : Nat) :
    (s.deleteSubscriber u sink).subscribers v =
      if v = u then (s.subscribers u).filter (· ≠ sink) else s.subscribers v := by
  rw [Service.deleteSubscriber]
  dsimp only
  split
  · next heq => rw [heq, Function.update_self]
  · next hne => exact Function.update_of_ne hne _ _

theorem mem_subscribers_delete {s : Service U} {u v : U} {sink other : Nat}
    (h : other ∈ (s.deleteSubscriber u sink).subscribers v) : other ∈ s.subscribers v ∧
      (v = u → other ≠ sink) := by
  rw [subscribers_delete] at h
  split at h
  · next heq =>
    rw [List.mem_filter, decide_eq_true_iff] at h
    exact ⟨heq ▸ h.1, fun _ => h.2⟩
  · next hne => exact ⟨h, fun heq => absurd heq hne⟩

theorem Inv.close (h : Inv user s) (u : U) (sink sent : Nat) : Inv user (s.close u sink sent) := by
  unfold State.close
  split
  · next hmem =>
    refine { h with subscribers := fun v => ⟨?_, fun other hother => ?_⟩
                    fresh := fun other hle => ?_
                    client := fun c => ?_ }
    · dsimp only
      rw [subscribers_delete]
      split
      · exact (h.subscribers u).1.filter _
      · exact (h.subscribers v).1
    · exact (h.subscribers v).2 other (mem_subscribers_delete hother).1
    · have hne : other ≠ sink := by
        rintro rfl
        exact absurd ((h.subscribers u).2 other hmem) (Nat.not_lt_of_le hle)
      exact (Function.update_of_ne hne _ _).trans (h.fresh other hle)
    · by_cases hstream : (s.clients c).stream = some sink
      · have hsent : ({ s with
            service := s.service.deleteSubscriber u sink
            queues := Function.update s.queues sink ((s.queues sink).take sent) }.pending c) =
              ((s.queues sink).take sent).filter (·.id.isSome) :=
          pending_of_queue hstream (Function.update_self ..)
        refine (h.client c).mono rfl rfl rfl le_rfl
          (fun v other _ hother => (mem_subscribers_delete hother).1) ?_ ?_
        · rw [hsent, pending_eq hstream]
          exact (List.take_prefix sent _).filter _
        · rintro ⟨other, hother, hmem'⟩
          obtain rfl : other = sink := Option.some.inj (hother.symm.trans hstream)
          have huser := ((h.client c).stream other hstream).2 u hmem
          exact absurd rfl ((mem_subscribers_delete hmem').2 huser.symm)
      · have hpending : ({ s with
            service := s.service.deleteSubscriber u sink
            queues := Function.update s.queues sink ((s.queues sink).take sent) }.pending c) =
              s.pending c := by
          refine pending_congr rfl fun other hother => ?_
          dsimp only
          rw [Function.update_of_ne]
          rintro rfl
          exact hstream hother
        exact (h.client c).same rfl rfl rfl le_rfl
          (fun v other _ hother => (mem_subscribers_delete hother).1) hpending
  · exact h

theorem subscribers_add {s : Service U} {u : U} {sink : Nat} (hnew : sink ∉ s.subscribers u)
    (v : U) : (s.addSubscriber u sink).subscribers v =
      if v = u then s.subscribers u ++ [sink] else s.subscribers v := by
  rw [Service.addSubscriber]
  dsimp only
  rw [if_neg hnew]
  split
  · next heq => rw [heq, Function.update_self]
  · next hne => exact Function.update_of_ne hne _ _

/-- A new sink gets the replay and the events of an opened stream. -/
theorem streamForUser_eq (s : State U C) (u : U) (lastEventId : Option Text) (now : Nat) :
    s.streamForUser u lastEventId now = { s with
      service := s.service.addSubscriber u s.sinks
      sinks := s.sinks + 1
      queues := Function.update s.queues s.sinks (s.queues s.sinks ++
        (s.service.getReplayEvents u lastEventId ++
          (createStreamOpenedEvents now).map toMessageEvent)) } := by
  rw [streamForUser]
  dsimp only
  rw [← List.foldl_map (f := toMessageEvent) (g := fun (s : State U C) message =>
    s.deliver message _), foldl_deliver_messages, foldl_deliver_messages]
  simp [Service.getReplayEvents, Service.addSubscriber]

end Users

section Clients

variable [DecidableEq C]

/-- One client changes. -/
theorem exclusive_update (h : Inv user s) {client : Client}
    (hclients : s'.clients = Function.update s.clients c client)
    (hstream : ∀ sink ∈ client.stream, ∀ c', (s.clients c').stream = some sink → c' = c) :
    ∀ d d' sink, (s'.clients d).stream = some sink → (s'.clients d').stream = some sink →
      d = d' := by
  intro d d' sink hd hd'
  rw [hclients] at hd hd'
  by_cases hdc : d = c <;> by_cases hdc' : d' = c
  · rw [hdc, hdc']
  · subst hdc
    rw [Function.update_self] at hd
    rw [Function.update_of_ne hdc'] at hd'
    exact (hstream sink hd d' hd').symm
  · subst hdc'
    rw [Function.update_self] at hd'
    rw [Function.update_of_ne hdc] at hd
    exact hstream sink hd' d hd
  · rw [Function.update_of_ne hdc] at hd
    rw [Function.update_of_ne hdc'] at hd'
    exact h.exclusive d d' sink hd hd'

theorem Inv.lose (h : Inv user s) (c : C) :
    Inv user (s.setClient c { s.clients c with stream := none }) := by
  have hclients : (s.setClient c { s.clients c with stream := none }).clients =
      Function.update s.clients c { s.clients c with stream := none } := rfl
  refine { h with exclusive := exclusive_update h hclients (by simp), client := fun c' => ?_ }
  by_cases hne : c' = c
  · subst hne
    have hself : (s.setClient c' { s.clients c' with stream := none }).clients c' =
        { s.clients c' with stream := none } := Function.update_self ..
    refine ⟨?_, ?_, ?_, ?_⟩
    · rw [hself]
      exact (h.client c').lastEventId
    · rw [hself]
      simp
    · rw [pending_none (by rw [hself]), hself]
      exact (h.client c').tracks.shorten List.nil_prefix none
    · rintro ⟨sink, hsink, -⟩
      rw [hself] at hsink
      cases hsink
  · have hother : (s.setClient c { s.clients c with stream := none }).clients c' =
        s.clients c' := Function.update_of_ne hne _ _
    have hpending := pending_congr hother fun sink _ => rfl
    exact (h.client c').same hother rfl rfl le_rfl (fun _ _ _ hmem => hmem) hpending

theorem Inv.read (h : Inv user s) (c : C) : Inv user (s.read c) := by
  unfold State.read
  dsimp only
  split
  · exact h
  · next sink hstream =>
    split
    · exact h
    · next message queue hqueue =>
      obtain ⟨hsink, -⟩ := (h.client c).stream sink hstream
      have hqueues : ∀ other, other ≠ sink →
          Function.update s.queues sink queue other = s.queues other :=
        fun other hne => Function.update_of_ne hne _ _
      refine { h with fresh := fun other hle => ?_
                      exclusive := exclusive_update h rfl fun other hother c' hc' => ?_
                      client := fun c' => ?_ }
      · have hle : s.sinks ≤ other := hle
        exact (hqueues other (by omega)).trans (h.fresh other hle)
      · rw [Client.handle_stream] at hother
        exact h.exclusive c' c other hc' hother
      · by_cases hne : c' = c
        · subst hne
          exact (h.client c').read hstream hqueue (h.ids (user c')) (Function.update_self ..)
            (Function.update_self ..) rfl rfl rfl rfl
        · have hclient : Function.update s.clients c ((s.clients c).handle message) c' =
              s.clients c' := Function.update_of_ne hne _ _
          have hpending : ({ s with queues := Function.update s.queues sink queue }.setClient c
              ((s.clients c).handle message)).pending c' = s.pending c' := by
            refine pending_congr hclient fun other hother => congrArg _ (hqueues other ?_)
            rintro rfl
            exact hne (h.exclusive c' c other hother hstream)
          exact (h.client c').same hclient rfl rfl le_rfl (fun _ _ _ hmem => hmem) hpending

end Clients

variable [DecidableEq U] [DecidableEq C]

theorem Inv.connect (h : Inv user s) {c : C} (now : Nat)
    (hsince : ∀ lastEventId ∈ (s.clients c).lastEventId,
      ReplayLog.since MessageEvent.id (some lastEventId) (s.published (user c)) ≤
        maxReplayEventsPerUser) : Inv user (s.connect user c now) := by
  have hnew : ∀ u, s.sinks ∉ s.service.subscribers u := fun u hmem =>
    absurd ((h.subscribers u).2 s.sinks hmem) (Nat.lt_irrefl _)
  have hnoStream : ∀ c', (s.clients c').stream ≠ some s.sinks := fun c' hstream =>
    absurd ((h.client c').stream s.sinks hstream).1 (Nat.lt_irrefl _)
  rw [State.connect, streamForUser_eq, h.fresh s.sinks le_rfl, List.nil_append,
    h.getReplayEvents c]
  refine { h with kept := h.kept
                  subscribers := fun u => ?_
                  fresh := fun other hle => ?_
                  exclusive := exclusive_update h rfl fun other hother c' hc' => ?_
                  client := fun c' => ?_ }
  · show ((s.service.addSubscriber (user c) s.sinks).subscribers u).Nodup ∧
      ∀ sink ∈ (s.service.addSubscriber (user c) s.sinks).subscribers u, sink < s.sinks + 1
    obtain ⟨hnodup, hlt⟩ := h.subscribers u
    rw [subscribers_add (hnew (user c))]
    split
    · next heq =>
      rw [← heq]
      refine ⟨hnodup.append (List.nodup_singleton _) (by simpa using hnew u), fun sink hsink => ?_⟩
      rcases List.mem_append.1 hsink with hsink | hsink
      · exact Nat.lt_succ_of_lt (hlt sink hsink)
      · rw [List.mem_singleton.1 hsink]
        exact Nat.lt_succ_self _
    · exact ⟨hnodup, fun sink hsink => Nat.lt_succ_of_lt (hlt sink hsink)⟩
  · have hlt : s.sinks < other := hle
    exact (Function.update_of_ne (Nat.ne_of_gt hlt) _ _).trans (h.fresh other (Nat.le_of_lt hlt))
  · obtain rfl : s.sinks = other := Option.some.inj hother
    exact absurd hc' (hnoStream c')
  · have hsubscribers : ∀ u, ∀ sink ∈ (s.service.addSubscriber (user c) s.sinks).subscribers u,
        sink ∈ s.service.subscribers u ∨ sink = s.sinks ∧ u = user c := by
      intro u sink hsink
      rw [subscribers_add (hnew (user c))] at hsink
      split at hsink
      · next heq =>
        rcases List.mem_append.1 hsink with hsink | hsink
        · exact Or.inl (heq ▸ hsink)
        · exact Or.inr ⟨List.mem_singleton.1 hsink, heq⟩
      · exact Or.inl hsink
    by_cases hne : c' = c
    · subst hne
      exact (h.client c').connect (h.nodup _) (h.ids _) hsince (Function.update_self ..)
        (Function.update_self ..) (fun u hmem => (hsubscribers u _ hmem).elim
          (fun hmem => absurd hmem (hnew u)) And.right) rfl rfl rfl
    · have hclient : Function.update s.clients c { s.clients c with stream := some s.sinks } c' =
          s.clients c' := Function.update_of_ne hne _ _
      refine (h.client c').same hclient rfl rfl (Nat.le_succ _) (fun u sink hlt hmem => ?_)
        (pending_congr hclient fun other hother => congrArg _ (Function.update_of_ne ?_ _ _))
      · exact (hsubscribers u sink hmem).resolve_right fun hnew => absurd hnew.1 (Nat.ne_of_lt hlt)
      · rintro rfl
        exact hnoStream c' hother

theorem Inv.step (h : Inv user s) (e : Event U C) (hadmissible : s.Admissible user e) :
    Inv user (s.step user e) := by
  cases e with
  | publishToUser u event now => exact h.publishToUser hadmissible
  | notification u event eventId => exact h.notification hadmissible.1 hadmissible.2
  | connect c now => exact h.connect now hadmissible
  | keepalive u sink now => exact h.keepalive u sink now
  | read c => exact h.read c
  | lose c => exact h.lose c
  | close u sink sent => exact h.close u sink sent
  | restart => exact h.restart

end State

/-- In every run in which the ids are new and each client connects again before it is too far
behind, a client receives the events of the log one after the other. -/
theorem received_in_order [DecidableEq U] [DecidableEq C] {user : C → U} {events : List (Event U C)}
    (hevents : Machine.Meets (State.step user) (State.Admissible user) {} events) (c : C) :
    let s := Machine.run (State.step user) {} events
    let log := s.published (user c)
    let seen := (s.clients c).received ++ s.pending c
    (log.map MessageEvent.id).Nodup ∧ seen <:+: log ∧ (s.Subscribed user c → seen <:+ log) ∧
      ((s.clients c).resumes = true → seen <+: log ∧ (s.Subscribed user c → seen = log)) := by
  have hinv : State.Inv user (Machine.run (State.step user) {} events) :=
    Machine.run_keeps_of_meets (fun s e h => h.step e) State.inv_init hevents
  obtain ⟨-, -, htracks, hup⟩ := hinv.client c
  exact ⟨hinv.nodup _, htracks.inLog, fun hsubscribed => (hup hsubscribed).suffix,
    fun hresumes => ⟨(htracks.resumed hresumes).2,
      fun hsubscribed => (hup hsubscribed).resumed hresumes⟩⟩

/-- A client that misses an event, and connects again. -/
def reconnecting : List (Event Unit Unit) :=
  [.connect () 5, .publishToUser () { type := .ticket_updated, occurredAt := 6 } 7] ++
    List.replicate 9 (.read ()) ++
    [.lose (), .publishToUser () { type := .account_updated, occurredAt := 8 } 8, .connect () 9]

/-- The instance starts again, and the client connects to it with the id that it has. -/
def restarting : List (Event Unit Unit) :=
  [.restart, .publishToUser () { type := .ticket_updated, occurredAt := 10 } 10, .connect () 11]

theorem received_in_order_reconnecting :
    let s := Machine.run (State.step fun _ : Unit => ()) {} reconnecting
    let s' := Machine.run (State.step fun _ : Unit => ()) {} (reconnecting ++ restarting)
    (s.clients ()).received ++ s.pending () <:+ s.published () ∧
      (s'.clients ()).received ++ s'.pending () = s'.published () :=
  ⟨(received_in_order (by decide +kernel) ()).2.2.1 ⟨1, by decide +kernel, by decide +kernel⟩,
    ((received_in_order (by decide +kernel) ()).2.2.2 (by decide +kernel)).2
      ⟨2, by decide +kernel, by decide +kernel⟩⟩

end ChordV.Api.RuntimeEvents
