import ChordV.Lib.Machine
import Mathlib.Order.MinMax

/-!
# The pings of a client and what the database has of them

`notePing`, `flushThrottledPings` and `recordPing` of `client-presence.service.ts`, for one user of
one process.  Times are in milliseconds.

* A ping and a flush queue writes, and a queued write is executed at some later moment: first its
  update, and then its insert if the update has matched no row.  `drained` is what the database has
  once the queue is empty.
* Another process can write the row of the user at any time, also between the two statements.
* `received`, `lastWrite`, `lastFlush` and `now` are what has happened so far.
* `Flushed` says that a flush now would leave no ping behind, if it comes long enough after the
  last write.  The steps that keep it are those of `KeepsPing`: a flush stamps its write with its
  own time, and a ping of the same millisecond is not later than that stamp; and an insert does
  nothing if another process has inserted the row since the update.
* `NotSilent` is about the time that another process sees since the last ping.
-/

namespace ChordV.Api.PingWrites

open Lib

/-- `PRESENCE_PING_INTERVAL_SECONDS`. -/
def pingIntervalMs : Nat := 60 * 1000

/-- `PRESENCE_PING_CHECK_MS`, between two flushes. -/
def pingCheckMs : Nat := 30000

/-- `PRESENCE_PING_WRITE_THROTTLE_MS`. -/
def pingWriteThrottleMs : Nat := 50000

/-! ## The record and the row -/

/-- The entry of the user in `pings`. -/
structure Ping where
  pingAt : Nat
  writtenAt : Option Nat
  pending : Bool
deriving DecidableEq, Repr

/-- `UserClientPresence` of the user: the row, and `lastPingAt` in it. -/
abbrev Row := Option (Option Nat)

/-- The `updateMany` of `recordPing`: it matches a row that has no ping as late. -/
def updateMany (row : Row) (time : Nat) : Option Row :=
  match row with
  | some last => if last.all (· < time) then some (some (some time)) else none
  | none => none

/-- The `createMany` of `recordPing`, with `skipDuplicates`. -/
def createMany (row : Row) (time : Nat) : Row :=
  match row with
  | some last => some last
  | none => some (some time)

/-- `recordPing`, if nothing comes between its two statements. -/
def recordPing (row : Row) (time : Nat) : Row := (updateMany row time).getD (createMany row time)

/-- A write of another process: it inserts the row, with a ping or without one, or moves the ping
of the row forward. -/
def foreignWrite (row : Row) (last : Option Nat) : Row :=
  match last with
  | some time => recordPing row time
  | none => row.orElse fun _ => some none

/-- What the service knows of the user, and what it still has to write. -/
structure State where
  row : Row
  /-- The pings that `runExclusive` still has to write. -/
  queue : List Nat := []
  /-- The ping whose update has matched no row, so that it is to be inserted. -/
  inserting : Option Nat := none
  pings : Option Ping := none
  received : List Nat := []
  /-- When the last write was queued. -/
  lastWrite : Option Nat := none
  lastFlush : Nat
  now : Nat
deriving DecidableEq, Repr

/-- What happens to the service. -/
inductive Event where
  | notePing (time : Nat)
  | flushThrottledPings (now : Nat)
  /-- The next statement of the queued writes is executed. -/
  | write
  /-- Another process writes the row. -/
  | foreign (last : Option Nat)
deriving DecidableEq, Repr

namespace State

/-- The record, the time and the ping of a write. -/
def queueWrite (s : State) (entry : Ping) (now time : Nat) : State :=
  { s with pings := some entry, queue := s.queue ++ [time], lastWrite := some now }

/-- The ping is written at once. -/
def shouldWrite (s : State) (isDraining : Bool) (time : Nat) : Bool :=
  !isDraining && ((s.pings.bind Ping.writtenAt).all fun w => w + pingWriteThrottleMs ≤ time)

/-- The latest ping so far. -/
def latest (s : State) (time : Nat) : Nat := max time ((s.pings.map Ping.pingAt).getD 0)

/-- A ping: written now, or pending. -/
def notePing (s : State) (isDraining : Bool) (time : Nat) : State :=
  let writtenAt := s.pings.bind Ping.writtenAt
  let latest := s.latest time
  let s' := { s with received := s.received ++ [time], now := time }
  if s.shouldWrite isDraining time then
    s'.queueWrite { pingAt := latest, writtenAt := some time, pending := time < latest } time time
  else
    { s' with pings := some { pingAt := latest, writtenAt, pending := writtenAt.getD 0 < latest } }

/-- Writes the pending ping if the last write is long enough ago. -/
def flushThrottledPings (s : State) (now : Nat) : State :=
  let s' := { s with lastFlush := now, now := now }
  match s.pings with
  | none => s'
  | some entry =>
    if !entry.pending then s'
    else if entry.writtenAt.any fun w => now < w + pingWriteThrottleMs then s'
    else s'.queueWrite { entry with pending := false, writtenAt := some now } now entry.pingAt

/-- The next statement of the queue. -/
def write (s : State) : State :=
  match s.inserting, s.queue with
  | some time, _ => { s with row := createMany s.row time, inserting := none }
  | none, [] => s
  | none, time :: queue =>
    match updateMany s.row time with
    | some row => { s with row, queue }
    | none => { s with inserting := some time, queue }

end State

/-- The process is not draining. -/
def step (s : State) : Event → State
  | .notePing time => s.notePing false time
  | .flushThrottledPings now => s.flushThrottledPings now
  | .write => s.write
  | .foreign last => { s with row := foreignWrite s.row last }

/-- The row after the insert that is under way. -/
def State.inserted (s : State) : Row := s.inserting.elim s.row (createMany s.row)

/-- `lastPingAt` after the writes of the queue. -/
def State.drained (s : State) : Option Nat := (s.queue.foldl recordPing s.inserted).join

/-- The database will have a ping as late. -/
def State.Stored (s : State) (time : Nat) : Prop := ∃ last ∈ s.drained, time ≤ last

/-- A process that starts. -/
def State.start (row : Row) (now : Nat) : State := { row, lastFlush := now, now }

/-! ## What is asked of a run -/

/-- The ping is in the row that another process inserts, or a later one is in the queue. -/
def Waits (s : State) (last : Option Nat) (time : Nat) : Prop :=
  (∃ other ∈ last, time ≤ other) ∨ ∃ other ∈ s.queue, time ≤ other

instance (s : State) (last : Option Nat) (time : Nat) : Decidable (Waits s last time) :=
  inferInstanceAs (Decidable (_ ∨ _))

/-- A flush that comes long enough after the last write leaves no ping behind. -/
def Flushed (s : State) : Prop :=
  ∀ now, (∀ w ∈ s.lastWrite, w + pingWriteThrottleMs ≤ now) →
    ∀ time ∈ s.received, (s.flushThrottledPings now).Stored time

/-- A ping that is later than those before it and is not written now is later than the stamp of
the last write, or the database has a later one.  Another process that inserts the row between an
update and its insert has the last ping, or that ping still waits. -/
def KeepsPing (s : State) : Event → Prop
  | .notePing time => ∀ entry ∈ s.pings, ∀ w ∈ entry.writtenAt,
      entry.pingAt < time → time < w + pingWriteThrottleMs → w < time ∨ s.Stored time
  | .foreign last => s.row = none → s.inserting ≠ none → ∀ entry ∈ s.pings,
      entry.pending = true ∨ Waits s last entry.pingAt
  | .flushThrottledPings _ | .write => True

/-- Time goes on, and neither a ping nor a flush is late. -/
structure OnTime (s : State) (time : Nat) : Prop where
  now : s.now ≤ time
  ping : s.received ≠ [] → ∃ last ∈ s.received, time ≤ last + pingIntervalMs
  flush : time ≤ s.lastFlush + pingCheckMs

/-- Nothing is late, and no other process inserts the row between an update and its insert unless
the ping still waits. -/
def Regular (s : State) : Event → Prop
  | .notePing time | .flushThrottledPings time => OnTime s time
  | .foreign last => s.row = none → ∀ time ∈ s.inserting, Waits s last time
  | .write => True

/-- The database is never behind by more than the three intervals. -/
def NotSilent (s : State) : Prop :=
  ∀ time, OnTime s time → s.received ≠ [] →
    ∃ last ∈ s.drained, time ≤ last + (pingIntervalMs + pingWriteThrottleMs + pingCheckMs)

instance (s : State) (time : Nat) : Decidable (s.Stored time) :=
  inferInstanceAs (Decidable (∃ last ∈ s.drained, time ≤ last))

instance (s : State) (time : Nat) : Decidable (OnTime s time) :=
  decidable_of_iff (s.now ≤ time ∧
      (s.received ≠ [] → ∃ last ∈ s.received, time ≤ last + pingIntervalMs) ∧
      time ≤ s.lastFlush + pingCheckMs)
    ⟨fun h => ⟨h.1, h.2.1, h.2.2⟩, fun h => ⟨h.now, h.ping, h.flush⟩⟩

instance (s : State) : ∀ e, Decidable (Regular s e)
  | .notePing time | .flushThrottledPings time => inferInstanceAs (Decidable (OnTime s time))
  | .foreign last =>
    inferInstanceAs (Decidable (s.row = none → ∀ time ∈ s.inserting, Waits s last time))
  | .write => isTrue trivial

variable {s : State} {entry : Ping} {time now w : Nat}

/-! ## The database -/

/-- A write moves the ping forward only. -/
theorem join_recordPing (row : Row) (time : Nat) :
    (recordPing row time).join = some (max (row.join.getD 0) time) := by
  cases row with
  | none => simp [recordPing, updateMany, createMany]
  | some last =>
    cases last with
    | none => simp [recordPing, updateMany]
    | some last =>
      by_cases hlt : last < time
      · simp [recordPing, updateMany, hlt, Nat.max_eq_right (Nat.le_of_lt hlt)]
      · simp [recordPing, updateMany, createMany, hlt, Nat.max_eq_left (Nat.le_of_not_lt hlt)]

/-- The queue leaves the latest of its pings and of the row. -/
theorem exists_join_foldl {time : Nat} (queue : List Nat) (row : Row) :
    (∃ last ∈ (queue.foldl recordPing row).join, time ≤ last) ↔
      (∃ last ∈ row.join, time ≤ last) ∨ ∃ other ∈ queue, time ≤ other := by
  induction queue generalizing row with
  | nil => simp
  | cons first queue ih =>
    rw [List.foldl_cons, ih, join_recordPing]
    cases row.join with
    | none => simp
    | some last => simp [or_assoc]

theorem stored_iff : s.Stored time ↔
    (∃ last ∈ s.inserted.join, time ≤ last) ∨ ∃ other ∈ s.queue, time ≤ other :=
  exists_join_foldl s.queue s.inserted

@[simp] theorem drained_queueWrite (s : State) (entry : Ping) (now time : Nat) :
    (s.queueWrite entry now time).drained = some (max (s.drained.getD 0) time) := by
  simp only [State.drained, State.queueWrite, List.foldl_append, List.foldl_cons, List.foldl_nil]
  rw [join_recordPing]
  rfl

theorem State.Stored.of_le {later : Nat} (h : s.Stored later) (hle : time ≤ later) :
    s.Stored time := by
  obtain ⟨last, hlast, hlater⟩ := h
  exact ⟨last, hlast, Nat.le_trans hle hlater⟩

theorem stored_queueWrite : (s.queueWrite entry now time).Stored time :=
  ⟨_, drained_queueWrite s entry now time, Nat.le_max_right _ _⟩

/-! ## One step -/

theorem le_latest (s : State) (time : Nat) : time ≤ s.latest time := Nat.le_max_left _ _

theorem pingAt_le_latest (time : Nat) (hentry : s.pings = some entry) :
    entry.pingAt ≤ s.latest time := by
  rw [State.latest, hentry]
  exact Nat.le_max_right _ _

theorem latest_of_forall (hlast : ∀ entry ∈ s.pings, entry.pingAt ≤ time) :
    s.latest time = time := by
  unfold State.latest
  cases hpings : s.pings with
  | none => exact Nat.max_zero time
  | some entry => exact Nat.max_eq_left (hlast entry hpings)

theorem latest_eq_time (hentry : s.pings = some entry) (hle : entry.pingAt ≤ time) :
    s.latest time = time := by
  rw [State.latest, hentry]
  exact Nat.max_eq_left hle

theorem latest_eq_pingAt (hentry : s.pings = some entry) (hle : time ≤ entry.pingAt) :
    s.latest time = entry.pingAt := by
  rw [State.latest, hentry]
  exact Nat.max_eq_right hle

/-- A ping is written or throttled. -/
theorem notePing_cases (s : State) (time : Nat) :
    ((∀ w ∈ s.pings.bind Ping.writtenAt, w + pingWriteThrottleMs ≤ time) ∧
      s.notePing false time =
        { s with received := s.received ++ [time], now := time }.queueWrite
          { pingAt := s.latest time, writtenAt := some time, pending := time < s.latest time }
          time time) ∨
    ∃ entry w, s.pings = some entry ∧ entry.writtenAt = some w ∧ time < w + pingWriteThrottleMs ∧
      s.notePing false time =
        { s with
          received := s.received ++ [time]
          now := time
          pings := some { pingAt := s.latest time, writtenAt := some w
                          pending := w < s.latest time } } := by
  unfold State.notePing
  cases hshould : s.shouldWrite false time with
  | true =>
    left
    refine ⟨fun w hw => ?_, by simp⟩
    rw [State.shouldWrite, Option.mem_def.1 hw] at hshould
    simpa using hshould
  | false =>
    right
    cases hpings : s.pings with
    | none => simp [State.shouldWrite, hpings] at hshould
    | some entry =>
      cases hw : entry.writtenAt with
      | none => simp [State.shouldWrite, hpings, hw] at hshould
      | some w =>
        refine ⟨entry, w, rfl, hw, ?_, by simp [hw]⟩
        simpa [State.shouldWrite, hpings, hw] using hshould

/-- A write changes nothing but the row, the insert and the queue, and not what they come to. -/
theorem write_cases (s : State) :
    ∃ row inserting queue, s.write = { s with row, inserting, queue } ∧
      ({ s with row, inserting, queue } : State).drained = s.drained := by
  unfold State.write
  split
  next _ time hinserting =>
    refine ⟨createMany s.row time, none, s.queue, rfl, ?_⟩
    simp [State.drained, State.inserted, hinserting]
  next => exact ⟨s.row, s.inserting, s.queue, rfl, rfl⟩
  next time queue hinserting hqueue =>
    split
    next row hrow =>
      refine ⟨row, s.inserting, queue, rfl, ?_⟩
      simp [State.drained, State.inserted, hinserting, hqueue, recordPing, hrow]
    next hrow =>
      refine ⟨s.row, some time, queue, rfl, ?_⟩
      simp [State.drained, State.inserted, hinserting, hqueue, recordPing, hrow]

/-- The insert does nothing once the row is there. -/
theorem inserted_of_isSome (h : s.row.isSome = true) : s.inserted = s.row := by
  obtain ⟨last, hrow⟩ := Option.isSome_iff_exists.1 h
  cases hinserting : s.inserting with
  | none => simp [State.inserted, hinserting]
  | some time => simp [State.inserted, hinserting, hrow, createMany]

theorem isSome_foreignWrite (row : Row) (last : Option Nat) :
    (foreignWrite row last).isSome = true := by
  cases last with
  | none => cases row <;> rfl
  | some time =>
    cases hrow : recordPing row time with
    | none =>
      have hjoin := join_recordPing row time
      rw [hrow] at hjoin
      cases hjoin
    | some last => simp [foreignWrite, hrow]

/-- Another process leaves the row, and its ping if it has brought one. -/
theorem stored_foreign_iff {last : Option Nat} : (step s (.foreign last)).Stored time ↔
    (∃ old ∈ s.row.join, time ≤ old) ∨ Waits s last time := by
  have hinserted : (step s (.foreign last)).inserted = foreignWrite s.row last :=
    inserted_of_isSome (isSome_foreignWrite s.row last)
  rw [stored_iff, hinserted, Waits, ← or_assoc]
  refine or_congr ?_ Iff.rfl
  cases last with
  | none =>
    cases s.row with
    | none => simp [foreignWrite]
    | some old => simp [foreignWrite]
  | some given =>
    rw [foreignWrite, join_recordPing]
    cases s.row.join with
    | none => simp
    | some old => simp

/-- It loses no ping of this process, except one that is to be inserted. -/
theorem stored_foreign {last : Option Nat}
    (hwaits : s.row = none → ∀ other ∈ s.inserting, time ≤ other → Waits s last time)
    (hstored : s.Stored time) : (step s (.foreign last)).Stored time := by
  rw [stored_foreign_iff]
  rw [stored_iff] at hstored
  rcases hstored with ⟨old, hold, hle⟩ | hqueue
  · cases hrow : s.row with
    | none =>
      cases hinserting : s.inserting with
      | none => simp [State.inserted, hinserting, hrow] at hold
      | some other =>
        have hother : other = old := by
          simpa [State.inserted, hinserting, hrow, createMany] using hold
        exact .inr (hwaits hrow other hinserting (hother ▸ hle))
    | some last =>
      rw [inserted_of_isSome (by rw [hrow]; rfl), hrow] at hold
      exact .inl ⟨old, hold, hle⟩
  · exact .inr (.inr hqueue)

/-- A flush writes a pending ping when the throttle is over. -/
theorem flushThrottledPings_cases (s : State) (now : Nat) :
    (s.flushThrottledPings now = { s with lastFlush := now, now } ∧
      ∀ entry ∈ s.pings, entry.pending = true →
        ∃ w, entry.writtenAt = some w ∧ now < w + pingWriteThrottleMs) ∨
    ∃ entry, s.pings = some entry ∧ entry.pending = true ∧
      s.flushThrottledPings now =
        { s with lastFlush := now, now }.queueWrite
          { entry with pending := false, writtenAt := some now } now entry.pingAt := by
  unfold State.flushThrottledPings
  cases hpings : s.pings with
  | none => simp
  | some entry =>
    cases hpending : entry.pending with
    | false => simp [hpending]
    | true =>
      by_cases hearly : entry.writtenAt.any fun w => now < w + pingWriteThrottleMs
      · left
        refine ⟨by simp [hpending, hearly], ?_⟩
        intro entry' hentry' _
        cases hentry'
        simpa [Option.any_eq_true] using hearly
      · right
        exact ⟨entry, rfl, hpending, by simp [hpending, hearly]⟩

/-! ## No ping is left behind -/

/-- The last ping is stored or waits for a flush. -/
structure Kept (s : State) : Prop where
  received : ∀ time ∈ s.received, ∃ entry ∈ s.pings, time ≤ entry.pingAt
  last : ∀ entry ∈ s.pings, entry.pingAt ∈ s.received
  lastWrite : s.lastWrite = s.pings.bind Ping.writtenAt
  pending : ∀ entry ∈ s.pings, entry.pending = true → ∃ w ∈ entry.writtenAt, w < entry.pingAt
  stored : ∀ entry ∈ s.pings, s.Stored entry.pingAt ∨ entry.pending = true

theorem kept_start (row : Row) (now : Nat) : Kept (State.start row now) where
  received := by simp [State.start]
  last := by simp [State.start]
  lastWrite := rfl
  pending := by simp [State.start]
  stored := by simp [State.start]

namespace Kept

theorem flushed (h : Kept s) : Flushed s := by
  intro now hlate time htime
  obtain ⟨entry, hentry, hle⟩ := h.received time htime
  rw [h.lastWrite, Option.mem_def.1 hentry] at hlate
  cases flushThrottledPings_cases s now with
  | inl hearly =>
    obtain hstored | hpending := h.stored entry hentry
    · rw [hearly.1]
      exact hstored.of_le hle
    · obtain ⟨w, hw, hlt⟩ := hearly.2 entry hentry hpending
      have hover := hlate w hw
      omega
  | inr hwritten =>
    obtain ⟨entry', hentry', -, heq⟩ := hwritten
    rw [Option.mem_def.1 hentry] at hentry'
    cases hentry'
    rw [heq]
    exact stored_queueWrite.of_le hle

theorem write (h : Kept s) : Kept s.write := by
  obtain ⟨row, inserting, queue, heq, hdrained⟩ := write_cases s
  rw [heq]
  refine ⟨h.received, h.last, h.lastWrite, h.pending, ?_⟩
  unfold State.Stored
  rw [hdrained]
  exact h.stored

theorem flushThrottledPings (h : Kept s) (now : Nat) : Kept (s.flushThrottledPings now) := by
  cases flushThrottledPings_cases s now with
  | inl hearly =>
    rw [hearly.1]
    exact ⟨h.received, h.last, h.lastWrite, h.pending, h.stored⟩
  | inr hwritten =>
    obtain ⟨entry, hentry, -, heq⟩ := hwritten
    rw [heq]
    refine ⟨fun time htime => ?_, fun entry' hentry' => ?_, rfl, fun entry' hentry' hpending => ?_,
      fun entry' hentry' => ?_⟩
    · obtain ⟨entry', hentry', hle⟩ := h.received time htime
      rw [hentry] at hentry'
      cases hentry'
      exact ⟨_, rfl, hle⟩
    · cases hentry'
      exact h.last entry hentry
    · cases hentry'
      cases hpending
    · cases hentry'
      exact .inl stored_queueWrite

theorem foreign (h : Kept s) {last : Option Nat} (hkeeps : KeepsPing s (.foreign last)) :
    Kept (PingWrites.step s (.foreign last)) := by
  refine ⟨h.received, h.last, h.lastWrite, h.pending, fun entry hentry => ?_⟩
  cases hpending : entry.pending with
  | true => exact .inr rfl
  | false =>
    have hstored := (h.stored entry hentry).resolve_right (by simp [hpending])
    refine .inl (stored_foreign (fun hrow other hother _ => ?_) hstored)
    exact (hkeeps hrow (Option.ne_none_iff_exists'.2 ⟨other, hother⟩) entry hentry).resolve_left
      (by simp [hpending])

/-- A ping is in the record. -/
theorem received_notePing (hreceived : ∀ time ∈ s.received, ∃ entry ∈ s.pings, time ≤ entry.pingAt)
    {earlier : Nat} (hearlier : earlier ∈ s.received ++ [time]) : earlier ≤ s.latest time := by
  obtain hbefore | hnew := List.mem_append.1 hearlier
  · obtain ⟨entry, hentry, hle⟩ := hreceived earlier hbefore
    exact Nat.le_trans hle (pingAt_le_latest time hentry)
  · rw [List.mem_singleton.1 hnew]
    exact le_latest s time

/-- The last ping of the record was received. -/
theorem latest_mem (h : Kept s) (time : Nat) : s.latest time ∈ s.received ++ [time] := by
  unfold State.latest
  cases hpings : s.pings with
  | none => simp
  | some entry =>
    rcases Nat.le_total entry.pingAt time with hle | hle
    · simp [Nat.max_eq_left hle]
    · simp [Nat.max_eq_right hle, h.last entry hpings]

theorem notePing (h : Kept s) (hkeeps : KeepsPing s (.notePing time)) :
    Kept (s.notePing false time) := by
  obtain ⟨-, heq⟩ | ⟨entry, w, hentry, hw, hthrottled, heq⟩ := notePing_cases s time
  · rw [heq]
    refine ⟨fun earlier hearlier => ⟨_, rfl, received_notePing h.received hearlier⟩,
      fun entry hentry => ?_, rfl, fun entry hentry hpending => ?_, fun entry hentry => ?_⟩
    · cases hentry
      exact h.latest_mem time
    · cases hentry
      exact ⟨time, rfl, by simpa using hpending⟩
    · cases hentry
      by_cases hlt : time < s.latest time
      · exact .inr (by simp [hlt])
      · exact .inl (stored_queueWrite.of_le (Nat.le_of_not_lt hlt))
  · have hlast : s.lastWrite = some w := by rw [h.lastWrite, hentry, Option.bind_some, hw]
    rw [heq]
    refine ⟨fun earlier hearlier => ⟨_, rfl, received_notePing h.received hearlier⟩,
      fun entry' hentry' => ?_, hlast, fun entry' hentry' hpending => ?_, fun entry' hentry' => ?_⟩
    · cases hentry'
      exact h.latest_mem time
    · cases hentry'
      exact ⟨w, rfl, by simpa using hpending⟩
    cases hentry'
    by_cases hlater : w < s.latest time
    · exact .inr (by simp [hlater])
    left
    by_cases hnew : entry.pingAt < time
    · rw [latest_eq_time hentry (Nat.le_of_lt hnew)] at hlater ⊢
      exact (hkeeps entry hentry w hw hnew hthrottled).resolve_left hlater
    · rw [latest_eq_pingAt hentry (Nat.le_of_not_lt hnew)] at hlater ⊢
      refine (h.stored entry hentry).resolve_right fun hpending => ?_
      obtain ⟨w', hw', hlt⟩ := h.pending entry hentry hpending
      rw [hw] at hw'
      cases hw'
      exact hlater hlt

theorem step (h : Kept s) {e : Event} (hkeeps : KeepsPing s e) : Kept (step s e) := by
  cases e with
  | notePing time => exact h.notePing hkeeps
  | flushThrottledPings now => exact h.flushThrottledPings now
  | write => exact h.write
  | foreign last => exact h.foreign hkeeps

/-- A flush that leaves no ping behind after a step is what the step needs. -/
theorem flushed_step_iff (h : Kept s) (e : Event) :
    Flushed (PingWrites.step s e) ↔ KeepsPing s e := by
  refine ⟨fun hflushed => ?_, fun hkeeps => (h.step hkeeps).flushed⟩
  cases e with
  | notePing time =>
    intro entry hentry w hw hnew hthrottled
    obtain ⟨hover, -⟩ | ⟨entry', w', hentry', hw', -, heq⟩ := notePing_cases s time
    · have hover' := hover w (by rw [Option.mem_def.1 hentry]; exact hw)
      omega
    · rw [Option.mem_def.1 hentry] at hentry'
      cases hentry'
      rw [Option.mem_def.1 hw] at hw'
      cases hw'
      by_cases hlater : w < time
      · exact .inl hlater
      · right
        rw [latest_eq_time hentry (Nat.le_of_lt hnew), decide_eq_false hlater] at heq
        have hlast : s.lastWrite = some w := by
          rw [h.lastWrite, Option.mem_def.1 hentry, Option.bind_some, Option.mem_def.1 hw]
        have hstored := hflushed (w + pingWriteThrottleMs) (by simp [PingWrites.step, heq, hlast])
          time (by simp [PingWrites.step, heq])
        have hdrained : ((PingWrites.step s (.notePing time)).flushThrottledPings
            (w + pingWriteThrottleMs)).drained = s.drained := by
          simp [PingWrites.step, heq, State.flushThrottledPings, State.drained, State.inserted]
        rwa [State.Stored, hdrained] at hstored
  | foreign last =>
    intro hrow _ entry hentry
    cases hpending : entry.pending with
    | true => exact .inl rfl
    | false =>
      -- The flush has nothing to write.
      have hstored := hflushed (s.lastWrite.getD 0 + pingWriteThrottleMs)
        (fun w hw => by
          have hw' : s.lastWrite = some w := hw
          simp [hw']) entry.pingAt (h.last entry hentry)
      have hsame : ((PingWrites.step s (.foreign last)).flushThrottledPings
          (s.lastWrite.getD 0 + pingWriteThrottleMs)).drained =
            (PingWrites.step s (.foreign last)).drained := by
        have hpings : s.pings = some entry := hentry
        simp [PingWrites.step, hpings, hpending, State.flushThrottledPings, State.drained,
          State.inserted]
      rw [State.Stored, hsame] at hstored
      have hiff := stored_foreign_iff.1 hstored
      rw [hrow] at hiff
      exact .inr (hiff.resolve_left (by simp))
  | flushThrottledPings _ | write => trivial

end Kept

/-! ## The time that another process sees -/

/-- What the database may be behind.  The last write came at most one interval after the last ping
that it has, and a later ping waits for a flush or came with that write. -/
structure Behind (s : State) (entry : Ping) (w : Nat) : Prop where
  write : ∃ last ∈ s.drained, w ≤ last + pingIntervalMs
  flush : entry.pingAt ≤ w ∨
    entry.pending = true ∧ s.lastFlush < w + pingWriteThrottleMs

/-- A state of a run in which nothing is late. -/
structure Timely (s : State) : Prop where
  received : ∀ time ∈ s.received, ∃ entry ∈ s.pings, time ≤ entry.pingAt
  pinged : ∀ entry ∈ s.pings, s.received ≠ []
  now : s.lastFlush ≤ s.now
  entry : ∀ entry ∈ s.pings, ∃ w ∈ entry.writtenAt, w ≤ s.now ∧ entry.pingAt ≤ s.now ∧
    (s.Stored entry.pingAt ∨ Behind s entry w)

theorem timely_start (row : Row) (now : Nat) : Timely (State.start row now) where
  received := by simp [State.start]
  pinged := by simp [State.start]
  now := Nat.le_refl _
  entry := by simp [State.start]

namespace Timely

/-- The last ping is at most one interval ago. -/
theorem le_pingAt (h : Timely s) (htime : OnTime s time) (hentry : s.pings = some entry) :
    time ≤ entry.pingAt + pingIntervalMs := by
  obtain ⟨last, hlast, hle⟩ := htime.ping (h.pinged entry hentry)
  obtain ⟨entry', hentry', hle'⟩ := h.received last hlast
  rw [hentry] at hentry'
  cases hentry'
  omega

theorem notSilent (h : Timely s) : NotSilent s := by
  intro time htime hreceived
  obtain ⟨first, hfirst⟩ := List.exists_mem_of_ne_nil _ hreceived
  obtain ⟨entry, hentry, -⟩ := h.received first hfirst
  have hle := h.le_pingAt htime hentry
  have hflush := htime.flush
  obtain ⟨w, -, -, -, hstored | hbehind⟩ := h.entry entry hentry
  · obtain ⟨last, hlast, hle'⟩ := hstored
    exact ⟨last, hlast, by omega⟩
  · obtain ⟨last, hlast, hw⟩ := hbehind.write
    refine ⟨last, hlast, ?_⟩
    have hflushed := hbehind.flush
    simp only [pingIntervalMs, pingWriteThrottleMs, pingCheckMs] at *
    omega

theorem write (h : Timely s) : Timely s.write := by
  obtain ⟨row, inserting, queue, heq, hdrained⟩ := write_cases s
  rw [heq]
  refine ⟨h.received, h.pinged, h.now, fun entry hentry => ?_⟩
  obtain ⟨w, hw, hle, hle', hstored | hbehind⟩ := h.entry entry hentry
  · exact ⟨w, hw, hle, hle', .inl (by rwa [State.Stored, hdrained])⟩
  · exact ⟨w, hw, hle, hle', .inr ⟨by rw [hdrained]; exact hbehind.write, hbehind.flush⟩⟩

theorem flushThrottledPings (h : Timely s) (hnow : OnTime s now) :
    Timely (s.flushThrottledPings now) := by
  have hlate : s.now ≤ now := hnow.now
  obtain ⟨heq, hearly⟩ | ⟨entry, hentry, -, heq⟩ := flushThrottledPings_cases s now
  · rw [heq]
    refine ⟨h.received, h.pinged, Nat.le_refl _, fun entry hentry => ?_⟩
    obtain ⟨w, hw, hle, hle', hstored⟩ := h.entry entry hentry
    refine ⟨w, hw, Nat.le_trans hle hlate, Nat.le_trans hle' hlate, ?_⟩
    obtain hstored | hbehind := hstored
    · exact .inl hstored
    · refine .inr ⟨hbehind.write, ?_⟩
      obtain hsame | hpending := hbehind.flush
      · exact .inl hsame
      · obtain ⟨w', hw', hlt⟩ := hearly entry hentry hpending.1
        rw [Option.mem_def.1 hw] at hw'
        cases hw'
        exact .inr ⟨hpending.1, hlt⟩
  · have hreceived := h.received
    have hpinged := h.pinged entry hentry
    obtain ⟨-, -, -, hle, -⟩ := h.entry entry hentry
    rw [hentry] at hreceived
    rw [heq]
    refine ⟨fun time htime => ?_, fun _ _ => hpinged, Nat.le_refl _, fun entry' hentry' => ?_⟩
    · obtain ⟨entry', hentry', hle'⟩ := hreceived time htime
      cases hentry'
      exact ⟨_, rfl, hle'⟩
    · cases hentry'
      exact ⟨now, rfl, Nat.le_refl _, Nat.le_trans hle hlate, .inl stored_queueWrite⟩

theorem notePing (h : Timely s) (htime : OnTime s time) : Timely (s.notePing false time) := by
  have hlate : s.now ≤ time := htime.now
  have hlatest : s.latest time = time := latest_of_forall fun entry hentry => by
    obtain ⟨-, -, -, hle, -⟩ := h.entry entry hentry
    exact Nat.le_trans hle hlate
  obtain ⟨-, heq⟩ | ⟨entry, w, hentry, hw, hthrottled, heq⟩ := notePing_cases s time
  · rw [heq]
    refine ⟨fun earlier hearlier => ⟨_, rfl, Kept.received_notePing h.received hearlier⟩,
      fun _ _ => by simp [State.queueWrite], Nat.le_trans h.now hlate, fun entry hentry => ?_⟩
    cases hentry
    refine ⟨time, rfl, Nat.le_refl _, Nat.le_of_eq hlatest, .inl ?_⟩
    simp only [hlatest]
    exact stored_queueWrite
  · have hle := h.le_pingAt htime hentry
    obtain ⟨w', hw', hlast, -, hstored⟩ := h.entry entry hentry
    rw [hw] at hw'
    cases hw'
    have hwrite : ∃ last ∈ s.drained, w ≤ last + pingIntervalMs := by
      obtain ⟨last, hmem, hle'⟩ | hbehind := hstored
      · exact ⟨last, hmem, by omega⟩
      · exact hbehind.write
    rw [heq]
    refine ⟨fun earlier hearlier => ⟨_, rfl, Kept.received_notePing h.received hearlier⟩,
      fun _ _ => by simp, Nat.le_trans h.now hlate, fun entry' hentry' => ?_⟩
    cases hentry'
    refine ⟨w, rfl, Nat.le_trans hlast hlate, Nat.le_of_eq hlatest, .inr ⟨hwrite, ?_⟩⟩
    simp only [hlatest, decide_eq_true_eq]
    have hflush := h.now
    omega

theorem foreign (h : Timely s) {last : Option Nat} (hregular : Regular s (.foreign last)) :
    Timely (PingWrites.step s (.foreign last)) := by
  -- What was stored stays stored.
  have hkeeps : ∀ time, s.Stored time → (PingWrites.step s (.foreign last)).Stored time := by
    intro time
    refine stored_foreign fun hrow other hother hle => ?_
    rcases hregular hrow other hother with ⟨given, hgiven, hle'⟩ | ⟨later, hlater, hle'⟩
    · exact .inl ⟨given, hgiven, Nat.le_trans hle hle'⟩
    · exact .inr ⟨later, hlater, Nat.le_trans hle hle'⟩
  refine ⟨h.received, h.pinged, h.now, fun entry hentry => ?_⟩
  obtain ⟨w, hw, hlast, hle, hstored | hbehind⟩ := h.entry entry hentry
  · exact ⟨w, hw, hlast, hle, .inl (hkeeps _ hstored)⟩
  · obtain ⟨written, hwritten, hle'⟩ := hbehind.write
    obtain ⟨later, hlater, hle''⟩ := hkeeps written ⟨written, hwritten, Nat.le_refl _⟩
    exact ⟨w, hw, hlast, hle, .inr ⟨⟨later, hlater, by omega⟩, hbehind.flush⟩⟩

theorem step (h : Timely s) {e : Event} (hregular : Regular s e) : Timely (step s e) := by
  cases e with
  | notePing time => exact h.notePing hregular
  | flushThrottledPings now => exact h.flushThrottledPings hregular
  | write => exact h.write
  | foreign last => exact h.foreign hregular

end Timely

/-- **No throttled ping is lost,** exactly in the runs in which no ping falls on the stamp of the
last write and no other process comes between an update and its insert.  In every run where
nothing is late and no other process does that, another process sees no more than the three
intervals. -/
theorem no_ping_lost (row : Row) (now : Nat) (events : List Event) :
    (Machine.Meets step (fun s e => Flushed (step s e)) (State.start row now) events ↔
      Machine.Meets step KeepsPing (State.start row now) events) ∧
    (Machine.Meets step Regular (State.start row now) events →
      NotSilent (Machine.run step (State.start row now) events)) := by
  constructor
  · exact Machine.meets_congr_of_meets (fun s e h hkeeps => h.step hkeeps)
      (fun s e h => h.flushed_step_iff e) (kept_start row now) events
  · intro hregular
    exact (Machine.run_keeps_of_meets (fun s e h hregular => h.step hregular)
      (timely_start row now) hregular).notSilent

/-- The first ping is inserted, the second one is throttled, and the flush that writes it is in
time.  Another process finds the row. -/
def throttled : List Event :=
  [.notePing 0, .write, .write, .foreign none, .flushThrottledPings 20000, .notePing 40000,
   .flushThrottledPings 50000]

theorem no_ping_lost_throttled :
    NotSilent (Machine.run step (State.start none 0) throttled) :=
  (no_ping_lost none 0 throttled).2 (by decide)

/-- A ping of the same millisecond as the flush is neither written nor pending. -/
theorem ping_on_flush_is_lost :
    ¬ ∀ row now events, Machine.Meets step Regular (State.start row now) events →
      Machine.Meets step (fun s e => Flushed (step s e)) (State.start row now) events := by
  intro h
  have hmeets := h none 0 (throttled ++ [.notePing 50000]) (by decide)
  have hflushed := (Machine.meets_append.1 hmeets).2.1 100000 (by decide) 50000 (by decide)
  exact absurd hflushed (by decide)

end ChordV.Api.PingWrites
