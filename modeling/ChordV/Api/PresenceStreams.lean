import ChordV.Lib.Machine

/-!
# The presence record of the open streams

`streamOpened`, `streamClosed`, `markOnline`, `markOffline`, `refreshOnlineUsers` and
`runExclusive` of `client-presence.service.ts`, for one user of one process that is not draining.
Times are in milliseconds.

* `queue` is the chain of `runExclusive`.  A task is one step: it is the statement that writes or
  deletes the row of the user and the process.
* A refresh takes the users of `streamCounts` when it starts, and its statements follow one by one.
  It has other users in the same batch, so it may look for missing rows although this one is there.
  The timer starts no refresh beside another.
* `removed` says that a clean-up has deleted the row since it was last written.  The clean-up of a
  refresh deletes what was not written for ten minutes, and does not know the users of the process.
* `row_follows_streams` is about every run, and `refresh_restores` about the row after a refresh.
-/

namespace ChordV.Api.PresenceStreams

open Lib

/-- `PRESENCE_STREAM_STALE_CLEANUP_MS`. -/
def streamStaleCleanupMs : Nat := 10 * 60000

/-! ## The row -/

/-- The row of the user and the process, by its `lastSeenAt`. -/
structure Record where
  row : Option Nat := none
  removed : Bool := false
deriving DecidableEq, Repr

/-- A write of the service. -/
inductive Write where
  | markOnline (now : Nat)
  | markOffline
deriving DecidableEq, Repr

/-- A write of the queue.  A refresh waits for its own. -/
structure Task where
  write : Write
  awaited : Bool := false
deriving DecidableEq, Repr

/-- The upsert and the delete. -/
def Record.run (r : Record) (task : Task) : Record :=
  match task.write with
  | .markOnline now => { row := some now, removed := false }
  | .markOffline => { r with row := none }

/-- `deleteMany` of a refresh that started at `now`. -/
def Record.cleanUp (r : Record) (now : Nat) : Record :=
  if r.row.any (· + streamStaleCleanupMs < now) then { row := none, removed := true } else r

/-! ## The process -/

/-- Where the refresh is. -/
inductive Stage where
  /-- Before `updateMany`, for a user of the batch. -/
  | touching
  /-- Before `findMany`. -/
  | lookingUp
  /-- The row was missing. -/
  | restoring
  | cleaningUp
deriving DecidableEq, Repr

/-- A refresh that is under way. -/
structure Refresh where
  now : Nat
  stage : Stage
deriving DecidableEq, Repr

/-- What the service knows of the user, and the row. -/
structure State where
  /-- The open streams of the user. -/
  streamCount : Nat := 0
  /-- A grace timer is pending. -/
  offlineTimer : Bool := false
  queue : List Task := []
  record : Record := {}
  refreshing : Option Refresh := none
deriving DecidableEq, Repr

/-- What happens to the service. -/
inductive Event where
  | streamOpened (now : Nat)
  | streamClosed (immediate : Bool)
  | graceExpired
  | write
  | refresh (now : Nat)
  /-- `updateMany`.  Rows of other users may be missing. -/
  | touch (othersMissing : Bool)
  /-- `findMany`. -/
  | lookUp
  | restore
  | cleanUp
deriving DecidableEq, Repr

namespace State

/-- Queues a write. -/
def runExclusive (s : State) (write : Write) (awaited : Bool) : State :=
  { s with queue := s.queue ++ [{ write, awaited }] }

/-- A stream opens: the first one marks the user online. -/
def streamOpened (s : State) (now : Nat) : State :=
  let count := s.streamCount + 1
  let s' := { s with streamCount := count }
  if s.offlineTimer then { s' with offlineTimer := false }
  else if count = 1 then s'.runExclusive (.markOnline now) false
  else s'

/-- A stream that is open is closed. -/
def streamClosed (s : State) (immediate : Bool) : State :=
  match s.streamCount with
  | 0 => s
  | count + 1 =>
    let s' := { s with streamCount := count }
    if 0 < count then s'
    else if s.offlineTimer then s'
    else if immediate then s'.runExclusive .markOffline false
    else { s' with offlineTimer := true }

/-- The timer fires: the user goes offline if no stream is open. -/
def graceExpired (s : State) : State :=
  if s.offlineTimer then
    let s' := { s with offlineTimer := false }
    if 0 < s.streamCount then s' else s'.runExclusive .markOffline false
  else s

/-- The next write of the queue. -/
def write (s : State) : State :=
  match s.queue with
  | [] => s
  | task :: queue => { s with record := s.record.run task, queue }

/-- The users that have a stream when the refresh starts are its batch. -/
def refresh (s : State) (now : Nat) : State :=
  if s.refreshing.isSome then s
  else
    let stage := if 0 < s.streamCount then .touching else .cleaningUp
    { s with refreshing := some { now, stage } }

/-- The `updateMany` of the refresh. -/
def touch (s : State) (othersMissing : Bool) : State :=
  match s.refreshing with
  | some { now, stage := .touching } =>
    let stage := if s.record.row.isNone || othersMissing then .lookingUp else .cleaningUp
    { s with
      record := { s.record with row := s.record.row.map fun _ => now }
      refreshing := some { now, stage } }
  | _ => s

/-- The `findMany` of the refresh. -/
def lookUp (s : State) : State :=
  match s.refreshing with
  | some { now, stage := .lookingUp } =>
    let stage := if s.record.row.isSome then .cleaningUp else .restoring
    { s with refreshing := some { now, stage } }
  | _ => s

/-- Queues the insert of a row that is missing. -/
def restore (s : State) : State :=
  match s.refreshing with
  | some { now, stage := .restoring } =>
    let s' := { s with refreshing := some { now, stage := .cleaningUp } }
    if s.streamCount = 0 then s' else s'.runExclusive (.markOnline now) true
  | _ => s

/-- The clean-up comes after the write that the refresh waits for. -/
def cleanUp (s : State) : State :=
  match s.refreshing with
  | some { now, stage := .cleaningUp } =>
    if s.queue.any (·.awaited) then s
    else { s with record := s.record.cleanUp now, refreshing := none }
  | _ => s

end State

/-- One step of the service. -/
def step (s : State) : Event → State
  | .streamOpened now => s.streamOpened now
  | .streamClosed immediate => s.streamClosed immediate
  | .graceExpired => s.graceExpired
  | .write => s.write
  | .refresh now => s.refresh now
  | .touch othersMissing => s.touch othersMissing
  | .lookUp => s.lookUp
  | .restore => s.restore
  | .cleanUp => s.cleanUp

/-- The user has an open stream, or a grace timer is pending. -/
def State.Online (s : State) : Prop := 0 < s.streamCount ∨ s.offlineTimer = true

instance (s : State) : Decidable s.Online :=
  inferInstanceAs (Decidable (0 < s.streamCount ∨ s.offlineTimer = true))

/-- The row after the writes of the queue. -/
def State.drained (s : State) : Record := s.queue.foldl Record.run s.record

/-- There is a row for a user that is online, and for no other one, unless a clean-up has deleted
it. -/
def Follows (s : State) : Prop := s.drained.row.isSome = true ↔ s.Online ∧ s.drained.removed = false

variable {s : State} {r r' : Record} {now : Nat}

/-! ## What the queue makes of a record -/

/-- Two records that differ in the time of the row at most. -/
def SameRow (r r' : Record) : Prop := r.row.isSome = r'.row.isSome ∧ r.removed = r'.removed

theorem sameRow_foldl (h : SameRow r r') (queue : List Task) :
    SameRow (queue.foldl Record.run r) (queue.foldl Record.run r') := by
  induction queue generalizing r r' with
  | nil => exact h
  | cons task queue ih =>
    apply ih
    unfold Record.run
    split
    · exact ⟨rfl, rfl⟩
    · exact ⟨rfl, h.2⟩

/-- Without a row nothing is left, or the queue has written the row anew. -/
theorem foldl_run_removed (queue : List Task) :
    queue.foldl Record.run { removed := true } = { removed := true } ∨
      ∀ r, queue.foldl Record.run r = queue.foldl Record.run { removed := true } := by
  induction queue with
  | nil => exact .inl rfl
  | cons task queue ih =>
    simp only [List.foldl_cons]
    cases hwrite : task.write with
    | markOnline now => simp [Record.run, hwrite]
    | markOffline =>
      cases ih with
      | inl hempty => exact .inl (by simpa [Record.run, hwrite] using hempty)
      | inr hsame =>
        right
        intro r
        rw [hsame, hsame (Record.run { removed := true } task)]

theorem drained_runExclusive (s : State) (write : Write) (awaited : Bool) :
    (s.runExclusive write awaited).drained = s.drained.run { write, awaited } := by
  simp only [State.drained, State.runExclusive, List.foldl_append, List.foldl_cons, List.foldl_nil]

/-! ## Every step follows the streams -/

theorem follows_init : Follows {} := by
  simp [Follows, State.drained, State.Online]

/-- A step that changes neither who is online nor what the queue comes to. -/
theorem Follows.of_same (h : Follows s) {s' : State} (honline : s'.Online ↔ s.Online)
    (hrecord : SameRow s'.drained s.drained) : Follows s' := by
  unfold Follows at h ⊢
  rw [hrecord.1, hrecord.2, honline]
  exact h

theorem follows_markOnline (honline : s.Online) (now : Nat) (awaited : Bool) :
    Follows (s.runExclusive (.markOnline now) awaited) := by
  unfold Follows
  rw [drained_runExclusive]
  simpa [Record.run, State.Online, State.runExclusive] using honline

theorem follows_markOffline (honline : ¬ s.Online) :
    Follows (s.runExclusive .markOffline false) := by
  unfold Follows
  rw [drained_runExclusive]
  constructor
  · intro hrow
    cases hrow
  · intro hrow
    exact absurd hrow.1 honline

namespace Follows

theorem streamOpened (h : Follows s) (now : Nat) : Follows (s.streamOpened now) := by
  unfold State.streamOpened
  dsimp only
  split
  next htimer => exact h.of_same (by simp [State.Online, htimer]) ⟨rfl, rfl⟩
  · split
    · exact follows_markOnline (.inl (Nat.succ_pos _)) now false
    next hcount =>
      have hopen : 0 < s.streamCount := by omega
      exact h.of_same (by simp [State.Online, hopen]) ⟨rfl, rfl⟩

theorem streamClosed (h : Follows s) (immediate : Bool) : Follows (s.streamClosed immediate) := by
  unfold State.streamClosed
  split
  · exact h
  next count hcount =>
    have hopen : 0 < s.streamCount := by omega
    dsimp only
    split
    next hleft => exact h.of_same (by simp [State.Online, hopen, hleft]) ⟨rfl, rfl⟩
    next hlast =>
      split
      next htimer => exact h.of_same (by simp [State.Online, htimer]) ⟨rfl, rfl⟩
      next htimer =>
        split
        · exact follows_markOffline (by simp [State.Online, htimer]; omega)
        · exact h.of_same (by simp [State.Online, hopen]) ⟨rfl, rfl⟩

theorem graceExpired (h : Follows s) : Follows s.graceExpired := by
  unfold State.graceExpired
  split
  next htimer =>
    dsimp only
    split
    next hopen => exact h.of_same (by simp [State.Online, hopen]) ⟨rfl, rfl⟩
    next hclosed => exact follows_markOffline (by simpa [State.Online] using hclosed)
  · exact h

theorem write (h : Follows s) : Follows s.write := by
  unfold State.write
  split
  · exact h
  next task queue hqueue =>
    have hdrained : ({ s with record := s.record.run task, queue } : State).drained =
        s.drained := by
      rw [State.drained, State.drained, hqueue, List.foldl_cons]
    exact h.of_same Iff.rfl (by rw [hdrained]; exact ⟨rfl, rfl⟩)

theorem refresh (h : Follows s) (now : Nat) : Follows (s.refresh now) := by
  unfold State.refresh
  split
  · exact h
  · exact h.of_same Iff.rfl ⟨rfl, rfl⟩

theorem touch (h : Follows s) (othersMissing : Bool) : Follows (s.touch othersMissing) := by
  unfold State.touch
  split
  next now _ =>
    have hrow : SameRow { s.record with row := s.record.row.map fun _ => now } s.record :=
      ⟨Option.isSome_map, rfl⟩
    exact h.of_same Iff.rfl (sameRow_foldl hrow s.queue)
  · exact h

theorem lookUp (h : Follows s) : Follows s.lookUp := by
  unfold State.lookUp
  split
  · exact h.of_same Iff.rfl ⟨rfl, rfl⟩
  · exact h

theorem restore (h : Follows s) : Follows s.restore := by
  unfold State.restore
  split
  · dsimp only
    split
    · exact h.of_same Iff.rfl ⟨rfl, rfl⟩
    next hopen => exact follows_markOnline (.inl (Nat.pos_of_ne_zero hopen)) _ true
  · exact h

theorem cleanUp (h : Follows s) : Follows s.cleanUp := by
  unfold State.cleanUp
  split
  next now _ =>
    split
    · exact h
    · unfold Record.cleanUp
      split
      · -- The row is deleted here, unless the queue writes it anew.
        cases foldl_run_removed s.queue with
        | inl hempty => simp [Follows, State.drained, hempty]
        | inr hsame =>
          refine h.of_same Iff.rfl ?_
          rw [State.drained, State.drained, hsame s.record]
          exact ⟨rfl, rfl⟩
      · exact h.of_same Iff.rfl ⟨rfl, rfl⟩
  · exact h

end Follows

theorem follows_step (s : State) (e : Event) (h : Follows s) : Follows (step s e) := by
  cases e with
  | streamOpened now => exact h.streamOpened now
  | streamClosed immediate => exact h.streamClosed immediate
  | graceExpired => exact h.graceExpired
  | write => exact h.write
  | refresh now => exact h.refresh now
  | touch othersMissing => exact h.touch othersMissing
  | lookUp => exact h.lookUp
  | restore => exact h.restore
  | cleanUp => exact h.cleanUp

/-- **The record follows the streams.**  After every run whose writes are all done, the row is
there exactly if the user has an open stream or a pending grace timer and no clean-up has deleted
the row since it was last written. -/
theorem row_follows_streams (events : List Event)
    (hqueue : (Machine.run step {} events).queue = []) :
    (Machine.run step {} events).record.row.isSome = true ↔
      (Machine.run step {} events).Online ∧
        (Machine.run step {} events).record.removed = false := by
  have hfollows := Machine.run_keeps follows_step follows_init events
  rwa [Follows, State.drained, hqueue] at hfollows

/-- A stream is closed with grace and opened again before the row is refreshed. -/
theorem row_follows_streams_reconnect :
    (Machine.run step {} [.streamOpened 0, .write, .streamClosed false, .streamOpened 9000,
      .refresh 60000, .touch false, .cleanUp]).record.row.isSome = true :=
  (row_follows_streams _ (by decide)).2 (by decide)

/-- A refresh that takes ten minutes, and a stream that is closed before the next one and opened
again after it.  The next refresh does not know the user and deletes the row. -/
def slowRefresh : List Event :=
  [.streamOpened 0, .write, .refresh 60000, .touch false, .streamClosed false, .cleanUp,
    .refresh 661000, .cleanUp, .streamOpened 662000]

theorem row_is_cleaned_up_online :
    ¬ ∀ events, (Machine.run step {} events).queue = [] →
      ((Machine.run step {} events).record.row.isSome = true ↔
        (Machine.run step {} events).Online) := by
  intro h
  have hrow := (h slowRefresh (by decide)).2 (by decide)
  exact absurd hrow (by decide)

/-- A row that was written when the refresh started is not cleaned up. -/
theorem cleanUp_written (now : Nat) (removed : Bool) :
    ({ row := some now, removed } : Record).cleanUp now = { row := some now, removed } := by
  have hfresh : ¬ now + streamStaleCleanupMs < now := by omega
  unfold Record.cleanUp
  rw [Option.any_some, if_neg (by rw [decide_eq_true_eq]; exact hfresh)]

/-- A refresh of a user with an open stream leaves a row, also where there was none. -/
theorem refresh_restores (hopen : 0 < s.streamCount) (hqueue : s.queue = [])
    (hrefreshing : s.refreshing = none) (now : Nat) (othersMissing : Bool) :
    (Machine.run step s [.refresh now, .touch othersMissing, .lookUp, .restore, .write,
      .cleanUp]).record.row = some now := by
  have hne : s.streamCount ≠ 0 := by omega
  cases hrow : s.record.row with
  | none =>
    simp [Machine.run, step, State.refresh, State.touch, State.lookUp, State.restore, State.write,
      State.cleanUp, State.runExclusive, Record.run, cleanUp_written, hopen, hqueue, hrefreshing,
      hrow, hne]
  | some last =>
    cases othersMissing with
    | true =>
      simp [Machine.run, step, State.refresh, State.touch, State.lookUp, State.restore,
        State.write, State.cleanUp, cleanUp_written, hopen, hqueue, hrefreshing, hrow]
    | false =>
      simp [Machine.run, step, State.refresh, State.touch, State.lookUp, State.restore,
        State.write, State.cleanUp, cleanUp_written, hopen, hqueue, hrefreshing, hrow]

end ChordV.Api.PresenceStreams
