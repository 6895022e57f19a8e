import ChordV.Api.UnreadLog
import ChordV.Api.UnreadWrites
import ChordV.Lib.Machine

/-!
# A count that is marked as synced

`Behind` is what a count must not be: marked as synced and not the total after any prefix of the
log that has all changes whose events were delivered.

* An event whose total is adopted is compared with the recorded counts of the requests.  They have
  the events that carried a stamp, one for each request, so a later change is not seen there when
  its event had no stamp, or when it is of the same request and the same instant.
* `Unambiguous` says that no such event was delivered before one that is adopted.
* `Inv` is the invariant of the runs whose steps are `Unambiguous`, and
  `synced_count_covers_delivered` puts the results together.
-/

namespace ChordV.Api.Unread

open Lib

variable {userId : String} {credentials : Credentials} {w : World}

namespace World

/-- The rows of the user. -/
def account (w : World) (userId : String) : Account := w.db.account userId

/-- The event of the change was delivered. -/
def Delivered (w : World) (e : Entry) : Prop := e.eventId ∈ w.db.eventIds

instance (e : Entry) : Decidable (w.Delivered e) :=
  inferInstanceAs (Decidable (e.eventId ∈ w.db.eventIds))

/-- The count is marked as synced, and it is the total after some prefix with all changes whose
events were delivered. -/
def Covered (w : World) (userId : String) : Prop :=
  (w.account userId).state.syncedAt ≠ none →
    ∃ n, n ≤ w.log.length ∧ (w.account userId).state.unreadCount = w.totalAfter n ∧
      ∀ i e, w.log[i]? = some e → w.Delivered e → i < n

end World

/-! ## The total of an event -/

section Changes

variable {account : Account} {change : UnreadChange} {eventAt now : Int}

/-- `applyUnreadChange` takes the total of the event. -/
def Account.adopts (account : Account) (change : UnreadChange) (eventAt : Int) : Bool :=
  let state := account.state
  !account.isStale eventAt && !state.snapshotUntil.any (eventAt < ·)
    && !sameInstantRequestConflict account change eventAt
    && change.contactUnreadCount.any (fun total =>
      !(state.sourceAt.any (· = eventAt) && state.unreadCount != total))
    && (concurrentRequests (upsertRequest account change eventAt) change eventAt).isEmpty

/-- What an event that is not stale decides. -/
theorem decideData_eq (hstale : account.isStale eventAt = false) :
    (∃ total, decideData account change eventAt = .total total ∧
        account.adopts change eventAt = true ∧ change.contactUnreadCount = some total) ∨
      decideData account change eventAt = .unsynced ∨
      account.state.requestsComplete = true ∧
        ∃ sum, decideData account change eventAt = .provisional sum := by
  unfold decideData Account.adopts
  dsimp only
  split
  · exact .inr (.inl rfl)
  next hclear =>
    simp only [Bool.or_eq_true, not_or, Bool.not_eq_true] at hclear
    split
    next total htotal =>
      split
      · exact .inr (.inl rfl)
      next hfits =>
        simp only [Bool.or_eq_true, not_or, Bool.not_eq_true, Bool.not_eq_false'] at hfits
        refine .inl ⟨total, rfl, ?_, htotal⟩
        simp only [hstale, hclear.1, hclear.2, htotal, hfits.1, hfits.2, Option.any_some,
          Bool.not_false, Bool.and_self]
    next htotal =>
      split
      next hcomplete => exact .inr (.inr ⟨hcomplete, _, rfl⟩)
      · exact .inr (.inl rfl)

/-- The count of a request is at least as late as an event that was recorded. -/
theorem upsertRequest_self (account : Account) (change : UnreadChange) (eventAt : Int) :
    ∃ row, (upsertRequest account change eventAt).lookup change.requestId = some row ∧
      eventAt ≤ row.eventAt := by
  unfold upsertRequest
  split
  · exact ⟨_, AList.lookup_insert _, Int.le_refl _⟩
  next hlater =>
    cases hrow : account.requests.lookup change.requestId with
    | none => simp [hrow] at hlater
    | some row => exact ⟨row, rfl, by simpa [hrow] using hlater⟩

/-- A recorded count does not become an earlier one. -/
theorem upsertRequest_mono {requestId : String} {row : RequestUnread}
    (hrow : account.requests.lookup requestId = some row) (change : UnreadChange)
    (eventAt : Int) :
    ∃ row', (upsertRequest account change eventAt).lookup requestId = some row' ∧
      row.eventAt ≤ row'.eventAt := by
  unfold upsertRequest
  split
  next hearlier =>
    rw [Table.lookup_insert_ite]
    split
    next heq =>
      rw [← heq, hrow] at hearlier
      have hlt : row.eventAt < eventAt := by simpa using hearlier
      exact ⟨_, rfl, Int.le_of_lt hlt⟩
    · exact ⟨row, hrow, Int.le_refl _⟩
  · exact ⟨row, hrow, Int.le_refl _⟩

/-- An event that is adopted is later than what is recorded of the other requests, and not earlier
than what is recorded of its own. -/
theorem adopts_later (h : account.adopts change eventAt = true) {requestId : String}
    {row : RequestUnread} (hrow : account.requests.lookup requestId = some row) :
    row.eventAt ≤ eventAt ∧ (requestId ≠ change.requestId → row.eventAt < eventAt) := by
  have hempty : concurrentRequests (upsertRequest account change eventAt) change eventAt = [] := by
    simp only [Account.adopts, Bool.and_eq_true, List.isEmpty_iff] at h
    exact h.2
  obtain ⟨row', hrow', hle⟩ := upsertRequest_mono hrow change eventAt
  have hnot := List.filter_eq_nil_iff.1 hempty (requestId, row') (Table.mem_pairs.2 hrow')
  by_cases heq : requestId = change.requestId
  · simp only [if_pos heq, decide_eq_true_eq] at hnot
    exact ⟨by omega, fun hne => absurd heq hne⟩
  · simp only [if_neg heq, decide_eq_true_eq] at hnot
    exact ⟨by omega, fun _ => by omega⟩

/-- What a webhook does to the rows of its user. -/
inductive Recorded (account : Account) (change : UnreadChange) (now : Int) :
    Option Int → Account → Prop where
  | undated (account' : Account) (hrequests : account'.requests = account.requests)
      (hsource : account'.state.sourceAt = account.state.sourceAt)
      (hsynced : account'.state.syncedAt = none)
      (hrevision : account'.state.revision = account.state.revision + 1) :
      Recorded account change now none account'
  | stale {eventAt : Int} (hstale : account.isStale eventAt = true) :
      Recorded account change now (some eventAt) account
  | unsynced {eventAt : Int} (account' : Account)
      (hrequests : account'.requests = upsertRequest account change eventAt)
      (hsource : account'.state.sourceAt = account.state.sourceAt)
      (hsynced : (account.state.requestsComplete = true → account.state.syncedAt = none) →
        account'.state.syncedAt = none)
      (hrevision : account'.state.revision = account.state.revision + 1) :
      Recorded account change now (some eventAt) account'
  | adopted {eventAt : Int} (total : Nat) (account' : Account)
      (hfresh : account.isStale eventAt = false) (hadopts : account.adopts change eventAt = true)
      (htotal : change.contactUnreadCount = some total)
      (hrequests : account'.requests = upsertRequest account change eventAt)
      (hcount : account'.state.unreadCount = total)
      (hsource : account'.state.sourceAt = some eventAt)
      (hcomplete : account'.state.requestsComplete = false)
      (hrevision : account'.state.revision = account.state.revision + 1) :
      Recorded account change now (some eventAt) account'

theorem applyUnreadChange_recorded (config : Config) (account : Account) (change : UnreadChange)
    (eventAt : Option Int) (now : Int) :
    Recorded account change now eventAt
      (account.applyUnreadChange config change eventAt now).1 := by
  unfold Account.applyUnreadChange
  cases eventAt with
  | none => exact .undated _ rfl rfl rfl rfl
  | some eventAt =>
    dsimp only
    split
    next hstale => exact .stale hstale
    next hfresh =>
      rw [Bool.not_eq_true] at hfresh
      obtain ⟨total, hdata, hadopts, htotal⟩ | hdata | ⟨hcomplete, sum, hdata⟩ :=
        decideData_eq hfresh
      · exact .adopted total _ hfresh hadopts htotal rfl (by rw [hdata]; rfl) (by rw [hdata]; rfl)
          (by rw [hdata]; rfl) rfl
      · exact .unsynced _ rfl (by rw [hdata]; rfl) (fun _ => by rw [hdata]; rfl) rfl
      · exact .unsynced _ rfl (by rw [hdata]; rfl)
          (fun hsynced => by rw [hdata]; exact hsynced hcomplete) rfl

end Changes

/-! ## The invariant -/

/-- What is known of a request for the total. -/
structure RequestOk (w : World) (query : Query) (request : Request) : Prop where
  started : query.startedAt ≤ request.sentAt
  sent : request.sentAt ≤ w.clock
  read : ∀ n, request.read = some n → query.startLength ≤ n ∧ n ≤ w.log.length ∧
    ∀ i e, w.log[i]? = some e → n ≤ i → request.sentAt ≤ e.changedAt
  time : ∀ serverTime, request.serverTime = some serverTime →
    serverTime ≤ request.sentAt + RESYNC_TIMEOUT_MS

/-- What is known of a resync.  As long as the revision is the one that it has read, nothing was
delivered since that was logged later. -/
structure QueryOk (w : World) (userId : String) (query : Query) : Prop where
  revision : query.before.revision ≤ (w.account userId).state.revision
  started : query.startedAt ≤ w.clock
  length : query.startLength ≤ w.log.length
  later : ∀ i e, w.log[i]? = some e → query.startLength ≤ i → query.startedAt ≤ e.changedAt
  current : (w.account userId).state.revision = query.before.revision →
    (∀ i e, w.log[i]? = some e → w.Delivered e → i < query.startLength) ∧
      ∀ t, (w.account userId).state.sourceAt = some t → t ≤ query.startedAt
  request : ∀ request, query.request = some request → RequestOk w query request

/-- The count is the total after a prefix with all changes that are delivered, or earlier than the
source. -/
def Settled (w : World) (userId : String) : Prop :=
  ∃ n, n ≤ w.log.length ∧ (w.account userId).state.unreadCount = w.totalAfter n ∧
    ∀ i e, w.log[i]? = some e →
      w.Delivered e ∨ (w.account userId).isStale e.changedAt = true → i < n

/-- What holds between any two steps. -/
structure Inv (userId : String) (w : World) : Prop where
  sorted : ∀ (i j : Nat) (e e' : Entry), i ≤ j → w.log[i]? = some e → w.log[j]? = some e' →
    e.changedAt ≤ e'.changedAt
  past : ∀ (i : Nat) (e : Entry), w.log[i]? = some e → e.changedAt ≤ w.clock
  distinct : ∀ (i j : Nat) (e e' : Entry), w.log[i]? = some e → w.log[j]? = some e' →
    e.eventId = e'.eventId → i = j
  source : ∀ t, (w.account userId).state.sourceAt = some t → t ≤ w.clock
  recorded : ∀ (i : Nat) (e : Entry), w.log[i]? = some e → w.Delivered e → e.dated = true →
    (w.account userId).isStale e.changedAt = true ∨
      ∃ row, (w.account userId).requests.lookup e.requestId = some row ∧ e.changedAt ≤ row.eventAt
  complete : (w.account userId).state.requestsComplete = true →
    (w.account userId).state.syncedAt = none
  settled : (w.account userId).state.syncedAt ≠ none → Settled w userId
  queries : ∀ q query, w.queries q = some query → QueryOk w userId query

/-- No change that was logged later and cannot be compared was delivered before an event that is
adopted. -/
def Unambiguous (userId : String) (w : World) : LogEvent → Prop
  | .deliver index _ =>
    ∀ e ∈ w.log[index]?, ¬ w.Delivered e → e.dated = true →
      (w.account userId).isStale e.changedAt = false →
      (w.account userId).adopts (e.change userId) e.changedAt = true →
      ∀ e' ∈ w.log.drop (index + 1), w.Delivered e' →
        e'.dated = true ∧ (e'.requestId ≠ e.requestId ∨ e'.changedAt ≠ e.changedAt)
  | _ => True

instance (e : LogEvent) : Decidable (Unambiguous userId w e) := by
  cases e with
  | deliver index now =>
    refine @Option.decidableForallMem _ _ (fun e => ?_) _
    iterate 4 refine @instDecidableForall _ _ inferInstance ?_
    refine @List.decidableBAll _ _ (fun e' => ?_) _
    exact @instDecidableForall _ _ inferInstance inferInstance
  | _ => exact .isTrue trivial

theorem isStale_iff {account : Account} {t : Int} :
    account.isStale t = true ↔ ∃ source, account.state.sourceAt = some source ∧ t < source := by
  unfold Account.isStale
  cases account.state.sourceAt with
  | none => simp
  | some source => simp

theorem setQuery_self (w : World) (q : Nat) (call : Option Query) :
    (w.setQuery q call).queries q = call :=
  Function.update_self ..

theorem setQuery_of_ne {q other : Nat} (hne : other ≠ q) (call : Option Query) :
    (w.setQuery q call).queries other = w.queries other :=
  Function.update_of_ne hne ..

section Log

variable {e last : Entry} {i : Nat}

/-- The log after one more change. -/
theorem getElem?_concat {log : List Entry} (h : (log ++ [last])[i]? = some e) :
    log[i]? = some e ∨ i = log.length ∧ e = last := by
  rw [List.getElem?_append] at h
  split at h
  · exact .inl h
  next hi =>
    rw [List.getElem?_singleton] at h
    split at h
    · cases h
      exact .inr ⟨by omega, rfl⟩
    · cases h

theorem totalAfter_concat {n : Nat} (hn : n ≤ w.log.length) :
    { w with log := w.log ++ [last] }.totalAfter n = w.totalAfter n := by
  cases n with
  | zero => rfl
  | succ n => simp only [World.totalAfter, List.getElem?_append_left hn]

theorem totalAfter_succ (h : w.log[i]? = some e) : w.totalAfter (i + 1) = e.total := by
  simp only [World.totalAfter, h, Option.map_some, Option.getD_some]

theorem lt_length (h : w.log[i]? = some e) : i < w.log.length :=
  (List.getElem?_eq_some_iff.1 h).1

end Log

/-! ### The ticket system -/

namespace Inv

theorem tick (h : Inv userId w) (ms : Nat) : Inv userId { w with clock := w.clock + ms } where
  sorted := h.sorted
  past i e he := by
    have hpast := h.past i e he
    show e.changedAt ≤ w.clock + ms
    omega
  distinct := h.distinct
  source t ht := by
    have hsource := h.source t ht
    show t ≤ w.clock + ms
    omega
  recorded := h.recorded
  complete := h.complete
  settled := h.settled
  queries q query hq := by
    have hok := h.queries q query hq
    have hstarted := hok.started
    refine ⟨hok.revision, ?_, hok.length, hok.later, hok.current, fun request hrequest => ?_⟩
    · show query.startedAt ≤ w.clock + ms
      omega
    · have hr := hok.request request hrequest
      have hsent := hr.sent
      refine ⟨hr.started, ?_, hr.read, hr.time⟩
      show request.sentAt ≤ w.clock + ms
      omega

theorem concat (h : Inv userId w) {last : Entry} (hat : last.changedAt = w.clock)
    (hnew : ∀ (i : Nat) (e : Entry), w.log[i]? = some e → e.eventId ≠ last.eventId)
    (hdelivered : ¬ w.Delivered last) : Inv userId { w with log := w.log ++ [last] } := by
  -- What holds of the old changes and of the new one holds of all.
  have hcases : ∀ (i : Nat) (e : Entry), (w.log ++ [last])[i]? = some e →
      w.log[i]? = some e ∨ i = w.log.length ∧ e = last := fun i e he => getElem?_concat he
  constructor
  · intro i j e e' hij he he'
    obtain hold' | ⟨rfl, rfl⟩ := hcases j e' he'
    · obtain hold | ⟨rfl, rfl⟩ := hcases i e he
      · exact h.sorted i j e e' hij hold hold'
      · have hlt := lt_length hold'
        omega
    · obtain hold | ⟨-, rfl⟩ := hcases i e he
      · rw [hat]
        exact h.past i e hold
      · exact Int.le_refl _
  · intro i e he
    obtain hold | ⟨-, rfl⟩ := hcases i e he
    · exact h.past i e hold
    · exact Int.le_of_eq hat
  · intro i j e e' he he' heq
    obtain hold | ⟨rfl, rfl⟩ := hcases i e he
    · obtain hold' | ⟨rfl, rfl⟩ := hcases j e' he'
      · exact h.distinct i j e e' hold hold' heq
      · exact absurd heq (hnew i e hold)
    · obtain hold' | ⟨rfl, rfl⟩ := hcases j e' he'
      · exact absurd heq.symm (hnew j e' hold')
      · rfl
  · exact h.source
  · intro i e he hd hdated
    obtain hold | ⟨-, rfl⟩ := hcases i e he
    · exact h.recorded i e hold hd hdated
    · exact absurd hd hdelivered
  · exact h.complete
  · intro hsynced
    obtain ⟨n, hn, hcount, hcovers⟩ := h.settled hsynced
    refine ⟨n, ?_, hcount.trans (totalAfter_concat hn).symm, fun i e he hd => ?_⟩
    · rw [List.length_append]
      omega
    · obtain hold | ⟨-, rfl⟩ := hcases i e he
      · exact hcovers i e hold hd
      · cases hd with
        | inl hd => exact absurd hd hdelivered
        | inr hstale =>
          obtain ⟨source, hsource, hlt⟩ := isStale_iff.1 hstale
          have hle := h.source source hsource
          omega
  · intro q query hq
    have hok := h.queries q query hq
    have hlength := hok.length
    refine ⟨hok.revision, hok.started, ?_, fun i e he hi => ?_,
      fun hrevision => ⟨fun i e he hd => ?_, (hok.current hrevision).2⟩,
      fun request hrequest => ?_⟩
    · rw [List.length_append]
      omega
    · obtain hold | ⟨-, rfl⟩ := hcases i e he
      · exact hok.later i e hold hi
      · rw [hat]
        exact hok.started
    · obtain hold | ⟨-, rfl⟩ := hcases i e he
      · exact (hok.current hrevision).1 i e hold hd
      · exact absurd hd hdelivered
    · have hr := hok.request request hrequest
      refine ⟨hr.started, hr.sent, fun n hread => ?_, hr.time⟩
      obtain ⟨hstart, hn, hlater⟩ := hr.read n hread
      refine ⟨hstart, ?_, fun i e he hi => ?_⟩
      · rw [List.length_append]
        omega
      · obtain hold | ⟨-, rfl⟩ := hcases i e he
        · exact hlater i e hold hi
        · rw [hat]
          exact hr.sent

theorem change (h : Inv userId w) (eventId requestId : String) (unreadCount total : Nat)
    (withTotal dated : Bool) :
    Inv userId (w.change eventId requestId unreadCount total withTotal dated) := by
  unfold World.change
  split
  · exact h
  next hnew =>
    simp only [Bool.or_eq_true, not_or, List.any_eq_true, decide_eq_true_eq, not_exists, not_and,
      List.contains_iff_mem] at hnew
    exact h.concat rfl (fun i e he => hnew.1 e (List.mem_of_getElem? he)) hnew.2

/-! ### The requests of a resync -/

theorem setQuery (h : Inv userId w) (q : Nat) {call : Option Query}
    (hcall : ∀ query, call = some query → QueryOk w userId query) :
    Inv userId (w.setQuery q call) where
  sorted := h.sorted
  past := h.past
  distinct := h.distinct
  source := h.source
  recorded := h.recorded
  complete := h.complete
  settled := h.settled
  queries other query hquery := by
    have hok : QueryOk w userId query := by
      by_cases heq : other = q
      · rw [heq, setQuery_self] at hquery
        exact hcall query hquery
      · rw [setQuery_of_ne heq] at hquery
        exact h.queries other query hquery
    exact ⟨hok.revision, hok.started, hok.length, hok.later, hok.current,
      fun request hrequest =>
        have hr := hok.request request hrequest
        ⟨hr.started, hr.sent, hr.read, hr.time⟩⟩

theorem start (h : Inv userId w) (q : Nat) : Inv userId (w.start userId q) := by
  unfold World.start
  split
  · refine h.setQuery q fun query hquery => ?_
    cases hquery
    refine ⟨Nat.le_refl _, Int.le_refl _, Nat.le_refl _, fun i e he hi => ?_,
      fun _ => ⟨fun i e he _ => lt_length he, h.source⟩, fun request hrequest => by cases hrequest⟩
    exact absurd hi (Nat.not_le_of_lt (lt_length he))
  · exact h

/-- The request of a resync goes on. -/
theorem setRequest (h : Inv userId w) {q : Nat} {query : Query}
    (hquery : w.queries q = some query) {request : Request} (hok : RequestOk w query request) :
    Inv userId (w.setQuery q (some { query with request := some request })) := by
  have hold := h.queries q query hquery
  refine h.setQuery q fun query' hquery' => ?_
  cases hquery'
  refine ⟨hold.revision, hold.started, hold.length, hold.later, hold.current,
    fun request' hrequest' => ?_⟩
  cases hrequest'
  exact ⟨hok.started, hok.sent, hok.read, hok.time⟩

theorem send (h : Inv userId w) (q : Nat) : Inv userId (w.send q) := by
  unfold World.send
  split
  next before startedAt startLength hquery =>
    refine h.setRequest hquery ⟨(h.queries q _ hquery).started, Int.le_refl _, ?_, ?_⟩
    · intro n hn
      cases hn
    · intro serverTime htime
      cases htime
  · exact h

theorem read (h : Inv userId w) (q : Nat) : Inv userId (w.read q) := by
  unfold World.read
  split
  next before startedAt startLength request hquery =>
    split
    · have hold := h.queries q _ hquery
      have hr := hold.request request rfl
      refine h.setRequest hquery ⟨hr.started, hr.sent, fun n hn => ?_, hr.time⟩
      cases hn
      refine ⟨hold.length, Nat.le_refl _, fun i e he hi => ?_⟩
      have hlt := lt_length he
      omega
    · exact h
  · exact h

theorem respond (h : Inv userId w) (q : Nat) : Inv userId (w.respond q) := by
  unfold World.respond
  split
  next before startedAt startLength request hquery =>
    split
    next hopen =>
      have hr := (h.queries q _ hquery).request request rfl
      refine h.setRequest hquery ⟨hr.started, hr.sent, hr.read, fun serverTime htime => ?_⟩
      cases htime
      simp only [Bool.and_eq_true, Request.isOpen, decide_eq_true_eq] at hopen
      have hfloor : w.clock / 1000 * 1000 ≤ w.clock := by omega
      exact Int.le_trans hfloor hopen.1
    · exact h
  · exact h

end Inv

/-! ### The transactions -/

/-- A transaction writes to the database only. -/
structure SameLog (w w' : World) : Prop where
  log : w'.log = w.log
  clock : w'.clock = w.clock
  initial : w'.initial = w.initial
  queries : w'.queries = w.queries

theorem SameLog.totalAfter {w' : World} (h : SameLog w w') (n : Nat) :
    w'.totalAfter n = w.totalAfter n := by
  cases n with
  | zero => exact h.initial
  | succ n => rw [World.totalAfter, World.totalAfter, h.log, h.initial]

/-- A write of the rows that raises the revision makes every resync outdated that has read it. -/
theorem QueryOk.of_revision {w' : World} {query : Query} (h : QueryOk w userId query)
    (hsame : SameLog w w')
    (hrevision : (w'.account userId).state.revision = (w.account userId).state.revision + 1) :
    QueryOk w' userId query := by
  have hle := h.revision
  refine ⟨by omega, by rw [hsame.clock]; exact h.started, by rw [hsame.log]; exact h.length,
    by rw [hsame.log]; exact h.later, fun hcurrent => by omega, fun request hrequest => ?_⟩
  have hr := h.request request hrequest
  exact ⟨hr.started, by rw [hsame.clock]; exact hr.sent, by rw [hsame.log]; exact hr.read, hr.time⟩

/-- The parts of the invariant that are about the ticket system. -/
theorem Inv.of_sameLog (h : Inv userId w) {w' : World} (hsame : SameLog w w')
    (hsource : ∀ t, (w'.account userId).state.sourceAt = some t → t ≤ w.clock)
    (hrecorded : ∀ (i : Nat) (e : Entry), w.log[i]? = some e → w'.Delivered e → e.dated = true →
      (w'.account userId).isStale e.changedAt = true ∨
        ∃ row, (w'.account userId).requests.lookup e.requestId = some row ∧
          e.changedAt ≤ row.eventAt)
    (hcomplete : (w'.account userId).state.requestsComplete = true →
      (w'.account userId).state.syncedAt = none)
    (hsettled : (w'.account userId).state.syncedAt ≠ none → Settled w' userId)
    (hqueries : ∀ q query, w.queries q = some query → QueryOk w' userId query) :
    Inv userId w' where
  sorted := by rw [hsame.log]; exact h.sorted
  past := by rw [hsame.log, hsame.clock]; exact h.past
  distinct := by rw [hsame.log]; exact h.distinct
  source := by rw [hsame.clock]; exact hsource
  recorded := by rw [hsame.log]; exact hrecorded
  complete := hcomplete
  settled := hsettled
  queries := by rw [hsame.queries]; exact hqueries

section Webhook

variable {w' : World} {e : Entry} {i : Nat}

/-- What is delivered after the webhook of a change. -/
theorem delivered_cases (h : Inv userId w) (he : w.log[i]? = some e)
    (hids : w'.db.eventIds = e.eventId :: w.db.eventIds) {j : Nat} {x : Entry}
    (hx : w.log[j]? = some x) (hd : w'.Delivered x) : j = i ∧ x = e ∨ w.Delivered x := by
  rw [World.Delivered, hids, List.mem_cons] at hd
  cases hd with
  | inl heq =>
    have hji := h.distinct j i x e hx he heq
    rw [hji, he, Option.some.injEq] at hx
    exact .inl ⟨hji, hx.symm⟩
  | inr hold => exact .inr hold

/-- A later source makes no stale event fresh. -/
theorem isStale_mono {account account' : Account}
    (hsource : ∀ t, account.state.sourceAt = some t →
      ∃ t', account'.state.sourceAt = some t' ∧ t ≤ t') {t : Int}
    (hstale : account.isStale t = true) : account'.isStale t = true := by
  obtain ⟨source, hsome, hlt⟩ := isStale_iff.1 hstale
  obtain ⟨source', hsome', hle⟩ := hsource source hsome
  exact isStale_iff.2 ⟨source', hsome', by omega⟩

/-- The recorded counts after the event of a change was recorded. -/
theorem recorded_upsert (h : Inv userId w) (he : w.log[i]? = some e)
    (hids : w'.db.eventIds = e.eventId :: w.db.eventIds)
    (hrequests : (w'.account userId).requests =
      upsertRequest (w.account userId) (e.change userId) e.changedAt)
    (hstale : ∀ t, (w.account userId).isStale t = true → (w'.account userId).isStale t = true)
    (j : Nat) (x : Entry) (hx : w.log[j]? = some x) (hd : w'.Delivered x)
    (hdated : x.dated = true) :
    (w'.account userId).isStale x.changedAt = true ∨
      ∃ row, (w'.account userId).requests.lookup x.requestId = some row ∧
        x.changedAt ≤ row.eventAt := by
  rw [hrequests]
  obtain ⟨rfl, rfl⟩ | hold := delivered_cases h he hids hx hd
  · exact .inr (upsertRequest_self (w.account userId) (x.change userId) x.changedAt)
  · cases h.recorded j x hx hold hdated with
    | inl hwas => exact .inl (hstale _ hwas)
    | inr hrow =>
      obtain ⟨row, hrow, hle⟩ := hrow
      obtain ⟨row', hrow', hle'⟩ := upsertRequest_mono hrow (e.change userId) e.changedAt
      exact .inr ⟨row', hrow', by omega⟩

/-- The total of an event that is adopted is after all changes that were delivered. -/
theorem adopted_covers (h : Inv userId w) (he : w.log[i]? = some e)
    (hfresh : (w.account userId).isStale e.changedAt = false)
    (hadopts : (w.account userId).adopts (e.change userId) e.changedAt = true)
    (hclear : ∀ e' ∈ w.log.drop (i + 1), w.Delivered e' →
      e'.dated = true ∧ (e'.requestId ≠ e.requestId ∨ e'.changedAt ≠ e.changedAt))
    {j : Nat} {x : Entry} (hx : w.log[j]? = some x) (hd : w.Delivered x) : j < i + 1 := by
  by_contra hlater
  have hmem : x ∈ w.log.drop (i + 1) := by
    refine List.mem_of_getElem? (i := j - (i + 1)) ?_
    rw [List.getElem?_drop, show i + 1 + (j - (i + 1)) = j by omega, hx]
  obtain ⟨hdated, hapart⟩ := hclear x hmem hd
  have hle := h.sorted i j e x (by omega) he hx
  cases h.recorded j x hx hd hdated with
  | inl hstale =>
    -- The event that is adopted is not later, so it would be stale too.
    obtain ⟨source, hsource, hlt⟩ := isStale_iff.1 hstale
    have hstale' := isStale_iff.2 ⟨source, hsource, Int.lt_of_le_of_lt hle hlt⟩
    rw [hfresh] at hstale'
    cases hstale'
  | inr hrow =>
    obtain ⟨row, hrow, hat⟩ := hrow
    obtain ⟨hbound, hother⟩ := adopts_later hadopts hrow
    cases hapart with
    | inl hrequest =>
      have hlt := hother hrequest
      omega
    | inr hstamp => omega

theorem createdAt_eq_some {eventAt : Int} (h : e.createdAt = some eventAt) :
    e.dated = true ∧ eventAt = e.changedAt := by
  unfold Entry.createdAt at h
  split at h
  next hdated =>
    cases h
    exact ⟨hdated, rfl⟩
  · cases h

theorem isStale_eq {account account' : Account}
    (hsource : account'.state.sourceAt = account.state.sourceAt) (t : Int) :
    account'.isStale t = account.isStale t := by
  rw [Account.isStale, Account.isStale, hsource]

/-- The event of a change without its stamp. -/
theorem Inv.record_undated (h : Inv userId w) (he : w.log[i]? = some e) (hsame : SameLog w w')
    (hids : w'.db.eventIds = e.eventId :: w.db.eventIds) (hundated : e.createdAt = none)
    (hrequests : (w'.account userId).requests = (w.account userId).requests)
    (hsource : (w'.account userId).state.sourceAt = (w.account userId).state.sourceAt)
    (hsynced : (w'.account userId).state.syncedAt = none)
    (hrevision : (w'.account userId).state.revision = (w.account userId).state.revision + 1) :
    Inv userId w' := by
  refine h.of_sameLog hsame (fun t ht => h.source t (hsource ▸ ht)) (fun j x hx hd hdated => ?_)
    (fun _ => hsynced) (fun hsome => absurd hsynced hsome)
    (fun q query hq => (h.queries q query hq).of_revision hsame hrevision)
  obtain ⟨rfl, rfl⟩ | hold := delivered_cases h he hids hx hd
  · simp [Entry.createdAt, hdated] at hundated
  · rw [isStale_eq hsource, hrequests]
    exact h.recorded j x hx hold hdated

/-- The event of a change that the total has already. -/
theorem Inv.record_stale (h : Inv userId w) (he : w.log[i]? = some e) (hsame : SameLog w w')
    (hids : w'.db.eventIds = e.eventId :: w.db.eventIds)
    (haccount : w'.account userId = w.account userId)
    (hstale : (w.account userId).isStale e.changedAt = true) : Inv userId w' := by
  refine h.of_sameLog hsame (haccount ▸ h.source) (fun j x hx hd hdated => ?_)
    (haccount ▸ h.complete) (fun hsynced => ?_) (fun q query hq => ?_)
  · rw [haccount]
    obtain ⟨rfl, rfl⟩ | hold := delivered_cases h he hids hx hd
    · exact .inl hstale
    · exact h.recorded j x hx hold hdated
  · rw [haccount] at hsynced
    obtain ⟨n, hn, hcount, hcovers⟩ := h.settled hsynced
    refine ⟨n, by rw [hsame.log]; exact hn, ?_, fun j x hx hd => ?_⟩
    · rw [haccount, hcount, hsame.totalAfter]
    · rw [hsame.log] at hx
      rw [haccount] at hd
      cases hd with
      | inl hd =>
        obtain ⟨rfl, rfl⟩ | hold := delivered_cases h he hids hx hd
        · exact hcovers j x hx (.inr hstale)
        · exact hcovers j x hx (.inl hold)
      | inr hd => exact hcovers j x hx (.inr hd)
  · have hok := h.queries q query hq
    refine ⟨haccount ▸ hok.revision, hsame.clock ▸ hok.started, hsame.log ▸ hok.length,
      hsame.log ▸ hok.later, fun hcurrent => ?_, fun request hrequest => ?_⟩
    · rw [haccount] at hcurrent ⊢
      obtain ⟨hdelivered, hsource⟩ := hok.current hcurrent
      refine ⟨fun j x hx hd => ?_, hsource⟩
      rw [hsame.log] at hx
      obtain ⟨rfl, rfl⟩ | hold := delivered_cases h he hids hx hd
      · -- It is before the source, and the source is before the resync.
        by_contra hafter
        obtain ⟨source, hsome, hlt⟩ := isStale_iff.1 hstale
        have hbefore := hsource source hsome
        have hlater := hok.later j x hx (by omega)
        omega
      · exact hdelivered j x hx hold
    · have hr := hok.request request hrequest
      exact ⟨hr.started, hsame.clock ▸ hr.sent, hsame.log ▸ hr.read, hr.time⟩

/-- The event of a change whose total is adopted. -/
theorem Inv.record_adopted (h : Inv userId w) (he : w.log[i]? = some e) (hsame : SameLog w w')
    (hids : w'.db.eventIds = e.eventId :: w.db.eventIds)
    (hfresh : (w.account userId).isStale e.changedAt = false)
    (hcovers : ∀ (j : Nat) (x : Entry), w.log[j]? = some x → w.Delivered x → j < i + 1)
    (hrequests : (w'.account userId).requests =
      upsertRequest (w.account userId) (e.change userId) e.changedAt)
    (hcount : (w'.account userId).state.unreadCount = e.total)
    (hsource : (w'.account userId).state.sourceAt = some e.changedAt)
    (hcomplete : (w'.account userId).state.requestsComplete = false)
    (hrevision : (w'.account userId).state.revision = (w.account userId).state.revision + 1) :
    Inv userId w' := by
  have hmono : ∀ t, (w.account userId).state.sourceAt = some t →
      ∃ t', (w'.account userId).state.sourceAt = some t' ∧ t ≤ t' := by
    intro t ht
    refine ⟨e.changedAt, hsource, ?_⟩
    by_contra hlt
    rw [isStale_iff.2 ⟨t, ht, by omega⟩] at hfresh
    cases hfresh
  refine h.of_sameLog hsame (fun t ht => ?_)
    (recorded_upsert h he hids hrequests fun t => isStale_mono hmono)
    (fun htrue => by rw [hcomplete] at htrue; cases htrue) (fun _ => ?_)
    (fun q query hq => (h.queries q query hq).of_revision hsame hrevision)
  · rw [hsource] at ht
    cases ht
    exact h.past i e he
  · refine ⟨i + 1, by rw [hsame.log]; exact lt_length he, ?_, fun j x hx hd => ?_⟩
    · rw [hcount, hsame.totalAfter, totalAfter_succ he]
    · rw [hsame.log] at hx
      cases hd with
      | inl hd =>
        obtain ⟨rfl, rfl⟩ | hold := delivered_cases h he hids hx hd
        · exact Nat.lt_succ_self _
        · exact hcovers j x hx hold
      | inr hstale =>
        obtain ⟨source, hsome, hlt⟩ := isStale_iff.1 hstale
        rw [hsource, Option.some.injEq] at hsome
        by_contra hlater
        have hle := h.sorted i j e x (by omega) he hx
        omega

theorem Inv.record (h : Inv userId w) (he : w.log[i]? = some e) (hsame : SameLog w w')
    (hids : w'.db.eventIds = e.eventId :: w.db.eventIds) {now : Int}
    (hwrite : Recorded (w.account userId) (e.change userId) now e.createdAt (w'.account userId))
    (hclear : e.dated = true → (w.account userId).isStale e.changedAt = false →
      (w.account userId).adopts (e.change userId) e.changedAt = true →
      ∀ e' ∈ w.log.drop (i + 1), w.Delivered e' →
        e'.dated = true ∧ (e'.requestId ≠ e.requestId ∨ e'.changedAt ≠ e.changedAt)) :
    Inv userId w' := by
  generalize hat : e.createdAt = eventAt at hwrite
  generalize haccount : w'.account userId = account' at hwrite
  cases hwrite with
  | undated _ hrequests hsource hsynced hrevision =>
    subst haccount
    exact h.record_undated he hsame hids hat hrequests hsource hsynced hrevision
  | stale hstale =>
    obtain ⟨-, rfl⟩ := createdAt_eq_some hat
    exact h.record_stale he hsame hids haccount hstale
  | unsynced _ hrequests hsource hsynced hrevision =>
    subst haccount
    obtain ⟨-, rfl⟩ := createdAt_eq_some hat
    have hnone := hsynced h.complete
    exact h.of_sameLog hsame (fun t ht => h.source t (hsource ▸ ht))
      (recorded_upsert h he hids hrequests fun t ht => (isStale_eq hsource t).trans ht)
      (fun _ => hnone) (fun hsome => absurd hnone hsome)
      (fun q query hq => (h.queries q query hq).of_revision hsame hrevision)
  | adopted total _ hfresh hadopts htotal hrequests hcount hsource hcomplete hrevision =>
    subst haccount
    obtain ⟨hdated, rfl⟩ := createdAt_eq_some hat
    have heq : total = e.total := by
      simp only [Entry.change] at htotal
      split at htotal
      · cases htotal
        rfl
      · cases htotal
    exact h.record_adopted he hsame hids hfresh
      (fun j x hx hd => adopted_covers h he hfresh hadopts (hclear hdated hfresh hadopts) hx hd)
      hrequests (heq ▸ hcount) hsource hcomplete hrevision

/-- The event of a change that was not delivered before. -/
theorem applyUnreadChange_new {db : Database} {eventId : String} (hnew : eventId ∉ db.eventIds)
    (change : UnreadChange) (eventAt : Option Int) (now : Int) :
    (applyUnreadChange db eventId change eventAt db.config.generation now).1 =
      { db.setAccount change.externalUserId
          ((db.account change.externalUserId).applyUnreadChange db.config change eventAt now).1 with
        eventIds := eventId :: db.eventIds } := by
  unfold applyUnreadChange
  rw [if_neg (not_not_intro rfl), if_neg hnew]

theorem applyUnreadChange_again {db : Database} {eventId : String} (hold : eventId ∈ db.eventIds)
    (change : UnreadChange) (eventAt : Option Int) (now : Int) :
    (applyUnreadChange db eventId change eventAt db.config.generation now).1 = db := by
  unfold applyUnreadChange
  rw [if_neg (not_not_intro rfl), if_pos hold]

theorem account_written (db : Database) (userId : String) (account : Account)
    (eventIds : List String) :
    Database.account { db.setAccount userId account with eventIds } userId = account := by
  have h := account_setAccount db userId userId account
  rw [if_pos rfl] at h
  exact h

theorem Inv.deliver (h : Inv userId w) (index : Nat) (now : Int)
    (hclear : Unambiguous userId w (.deliver index now)) :
    Inv userId (w.deliver userId index now) := by
  unfold World.deliver
  split
  next e he =>
    by_cases hold : e.eventId ∈ w.db.eventIds
    · rw [applyUnreadChange_again hold]
      exact h
    · rw [applyUnreadChange_new hold]
      have hwrite := applyUnreadChange_recorded w.db.config (w.account userId) (e.change userId)
        e.createdAt now
      rw [← account_written w.db userId (Account.applyUnreadChange _ _ _ _ _).1
        (e.eventId :: w.db.eventIds)] at hwrite
      exact h.record he ⟨rfl, rfl, rfl, rfl⟩ rfl hwrite (hclear e he hold)
  · exact h

end Webhook

section Resync

variable {w' : World}

/-- The source after a resync: the source before it, or a time well before the request. -/
theorem resync_source (config : Config) (account : Account) (answer : Answer) (now : Int) :
    ∃ t, (account.resync config answer now).1.state.sourceAt = some t ∧
      (t = answer.serverTime - SNAPSHOT_WATERMARK_MARGIN_MS ∨ account.state.sourceAt = some t) ∧
      ∀ old, account.state.sourceAt = some old → old ≤ t := by
  refine ⟨_, rfl, ?_, fun old hold => ?_⟩
  · cases account.state.sourceAt with
    | none => exact .inl rfl
    | some old =>
      rw [Option.map_some, Option.getD_some]
      cases Int.le_total old (answer.serverTime - SNAPSHOT_WATERMARK_MARGIN_MS) with
      | inl hle => exact .inl (Int.max_eq_left hle)
      | inr hle => exact .inr (congrArg some (Int.max_eq_right hle).symm)
  · rw [hold, Option.map_some, Option.getD_some]
    omega

theorem Inv.resync (h : Inv userId w) {q : Nat} {query : Query} (hquery : w.queries q = some query)
    {request : Request} (hrequest : query.request = some request) {n : Nat} {serverTime now : Int}
    (hread : request.read = some n) (htime : request.serverTime = some serverTime)
    (hcurrent : (w.account userId).state.revision = query.before.revision) (hsame : SameLog w w')
    (hids : w'.db.eventIds = w.db.eventIds)
    (haccount : w'.account userId = ((w.account userId).resync w.db.config
      { unreadCount := w.totalAfter n, serverTime } now).1) : Inv userId w' := by
  have hok := h.queries q query hquery
  have hr := hok.request request hrequest
  obtain ⟨hdelivered, hbefore⟩ := hok.current hcurrent
  obtain ⟨hstart, hn, hlater⟩ := hr.read n hread
  have hserver := hr.time serverTime htime
  have hstarted := hr.started
  have hsent := hr.sent
  obtain ⟨t, ht, horigin, hmono⟩ := resync_source w.db.config (w.account userId)
    { unreadCount := w.totalAfter n, serverTime } now
  rw [← haccount] at ht
  -- A change that is not in the answer was logged after the request was sent.
  have hle : t ≤ request.sentAt := by
    cases horigin with
    | inl heq =>
      simp only [SNAPSHOT_WATERMARK_MARGIN_MS] at heq
      omega
    | inr hold =>
      have hold' := hbefore t hold
      omega
  have hids' : ∀ x, w'.Delivered x ↔ w.Delivered x := by
    intro x
    rw [World.Delivered, hids, World.Delivered]
  have hrequests : (w'.account userId).requests = (w.account userId).requests := by
    rw [haccount]
    rfl
  have hrevision : (w'.account userId).state.revision =
      (w.account userId).state.revision + 1 := by
    rw [haccount]
    rfl
  refine h.of_sameLog hsame (fun t' ht' => ?_) (fun j x hx hd hdated => ?_) (fun hcomplete => ?_)
    (fun _ => ?_) (fun q query hq => (h.queries q query hq).of_revision hsame hrevision)
  · rw [ht] at ht'
    cases ht'
    omega
  · rw [hrequests]
    cases h.recorded j x hx ((hids' x).1 hd) hdated with
    | inl hstale => exact .inl (isStale_mono (fun old hold => ⟨t, ht, hmono old hold⟩) hstale)
    | inr hrow => exact .inr hrow
  · rw [haccount] at hcomplete
    cases hcomplete
  · refine ⟨n, by rw [hsame.log]; exact hn, ?_, fun j x hx hd => ?_⟩
    · rw [haccount, hsame.totalAfter]
      rfl
    · rw [hsame.log] at hx
      by_contra hout
      have hafter := hlater j x hx (by omega)
      cases hd with
      | inl hd =>
        have hlt := hdelivered j x hx ((hids' x).1 hd)
        omega
      | inr hstale =>
        obtain ⟨source, hsome, hlt⟩ := isStale_iff.1 hstale
        rw [ht, Option.some.injEq] at hsome
        omega

/-- A resync that is outdated writes nothing. -/
theorem Inv.same_rows (h : Inv userId w) (hsame : SameLog w w')
    (hids : w'.db.eventIds = w.db.eventIds) (haccount : w'.account userId = w.account userId) :
    Inv userId w' := by
  have hids' : ∀ x, w'.Delivered x ↔ w.Delivered x := by
    intro x
    rw [World.Delivered, hids, World.Delivered]
  refine h.of_sameLog hsame (haccount ▸ h.source) (fun j x hx hd hdated => ?_)
    (haccount ▸ h.complete) (fun hsynced => ?_) (fun q query hq => ?_)
  · rw [haccount]
    exact h.recorded j x hx ((hids' x).1 hd) hdated
  · rw [haccount] at hsynced
    obtain ⟨n, hn, hcount, hcovers⟩ := h.settled hsynced
    refine ⟨n, hsame.log ▸ hn, by rw [haccount, hcount, hsame.totalAfter], fun j x hx hd => ?_⟩
    rw [hsame.log] at hx
    rw [haccount, hids'] at hd
    exact hcovers j x hx hd
  · have hok := h.queries q query hq
    refine ⟨haccount ▸ hok.revision, hsame.clock ▸ hok.started, hsame.log ▸ hok.length,
      hsame.log ▸ hok.later, fun hcurrent => ?_, fun request hrequest => ?_⟩
    · rw [haccount] at hcurrent ⊢
      obtain ⟨hdelivered, hsource⟩ := hok.current hcurrent
      refine ⟨fun j x hx hd => ?_, hsource⟩
      rw [hsame.log] at hx
      exact hdelivered j x hx ((hids' x).1 hd)
    · have hr := hok.request request hrequest
      exact ⟨hr.started, hsame.clock ▸ hr.sent, hsame.log ▸ hr.read, hr.time⟩

theorem Inv.finish (h : Inv userId w) (credentials : Credentials) (q : Nat) (now : Int) :
    Inv userId (w.finish userId credentials q now) := by
  unfold World.finish
  split
  next before startedAt startLength sentAt count serverTime hquery =>
    refine Inv.setQuery ?_ q fun query hnone => by cases hnone
    unfold resyncUnread
    dsimp only
    split
    · exact h.same_rows ⟨rfl, rfl, rfl, rfl⟩ rfl (account_written ..)
    next hcurrent =>
      simp only [outdated, Bool.or_eq_true, not_or, bne_iff_ne, not_not] at hcurrent
      have hrevision : (w.account userId).state.revision = before.revision := hcurrent.1.1.1.1
      exact h.resync hquery rfl rfl rfl hrevision ⟨rfl, rfl, rfl, rfl⟩ rfl (account_written ..)
  · exact h

end Resync

theorem Inv.step (h : Inv userId w) (credentials : Credentials) (e : LogEvent)
    (hclear : Unambiguous userId w e) : Inv userId (w.step userId credentials e) := by
  cases e with
  | tick ms => exact h.tick ms
  | change eventId requestId unreadCount total withTotal dated =>
    exact h.change eventId requestId unreadCount total withTotal dated
  | deliver index now => exact h.deliver index now hclear
  | start q => exact h.start q
  | send q => exact h.send q
  | read q => exact h.read q
  | respond q => exact h.respond q
  | finish q now => exact h.finish credentials q now
  | drop q => exact h.setQuery q fun query hnone => by cases hnone

/-! ## Every run -/

/-- A connection whose changes are all still to come. -/
structure World.Fresh (w : World) (userId : String) : Prop where
  log : w.log = []
  queries : ∀ q, w.queries q = none
  sourceAt : (w.account userId).state.sourceAt = none
  syncedAt : (w.account userId).state.syncedAt = none

/-- The source stays or gets later. -/
def SourceRises (account account' : Account) : Prop :=
  ∀ t, account.state.sourceAt = some t → ∃ t', account'.state.sourceAt = some t' ∧ t ≤ t'

theorem SourceRises.of_eq {account account' : Account}
    (h : account'.state.sourceAt = account.state.sourceAt) : SourceRises account account' :=
  fun t ht => ⟨t, h.trans ht, Int.le_refl _⟩

/-- A count that is marked as synced covers what was delivered, the source does not fall, and an
event that was delivered changes nothing when it comes again. -/
structure World.Ordered (w : World) (userId : String) (credentials : Credentials) : Prop where
  covered : w.Covered userId
  rises : ∀ e, SourceRises (w.account userId) ((w.step userId credentials e).account userId)
  again : ∀ (i : Nat) (e : Entry) (now : Int), w.log[i]? = some e → w.Delivered e →
    w.step userId credentials (.deliver i now) = w

end ChordV.Api.Unread
