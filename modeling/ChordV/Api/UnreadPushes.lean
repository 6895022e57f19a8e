import ChordV.Api.UnreadPublisher
import ChordV.Lib.Machine

/-!
# Pushed unread counts

One process of the API: transactions commit in any order, and what each publishes afterwards is
delayed and reordered in any way.  A callback runs once.

* `Server.Moves` lists what a step can do.
* `Server.Invariant` says that every user is `Sound`, and `Server.History` what is known of the
  saves that have committed.
* `pushes_reach_the_effective_count` is the result.  `pushed_before_the_enabling_callback` is a run
  in which a webhook of the next enabled time is faster than the callback that begins it.
-/

namespace ChordV.Api.Unread

open Lib

/-! ## The process -/

/-- The database and the publisher. -/
structure Server where
  db : Database
  publisher : Publisher := {}
  /-- What has committed and has not been published, by the order of the commits. -/
  callbacks : Table Nat Callback := ∅
  nextId : Nat := 0
  /-- All saves that have committed. -/
  saves : List (Nat × Saved) := []

/-- What happens to the server. -/
inductive Event where
  | webhook (eventId : String) (change : UnreadChange) (eventAt : Option Int) (generation : Nat)
    (now : Int)
  | resync (userId : String) (credentials : Credentials) (before : Before) (answer : Answer)
    (now : Int)
  | save (input : Update)
  | publish (id : Nat)
deriving DecidableEq, Repr

/-- A transaction commits, and its callback waits. -/
def Server.commit (s : Server) (db : Database) (callback : Callback) : Server :=
  { s with db, callbacks := s.callbacks.insert s.nextId callback, nextId := s.nextId + 1 }

/-- One step of the server. -/
def Server.step (s : Server) : Event → Server
  | .webhook eventId change eventAt generation now =>
    match applyUnreadChange s.db eventId change eventAt generation now with
    | (db, .changed result) => s.commit db (.unreadChanged change.externalUserId result)
    | (db, _) => { s with db }
  | .resync userId credentials before answer now =>
    match resyncUnread s.db userId credentials before answer now with
    | (db, some result) => s.commit db (.unreadChanged userId result)
    | (db, none) => { s with db }
  | .save input =>
    match updateAdminConfig s.db input with
    | some (db, saved) =>
      { s.commit db (.configSaved saved) with saves := (s.nextId, saved) :: s.saves }
    | none => s
  | .publish id =>
    match s.callbacks.lookup id with
    | some callback =>
      { s with publisher := callback.run s.publisher, callbacks := s.callbacks.erase id }
    | none => s

/-- The process starts on any database. -/
def Server.start (db : Database) : Server := { db }

/-- The callback of a disabling save has run. -/
def Server.Disabled (s : Server) (id : Nat) : Prop :=
  (∃ saved, (id, saved) ∈ s.saves ∧ saved.Disables) ∧ s.callbacks.lookup id = none

/-- A step makes no push but of 0. -/
def Server.Clears (s : Server) (event : Event) : Prop :=
  ∃ pushes, (s.step event).publisher.pushes = pushes ++ s.publisher.pushes ∧
    ∀ push ∈ pushes, push.count = 0

/-- After the callback of a disabling save, what has committed before the next enabling save
clears. -/
def Server.Dark (s : Server) (event : Event) : Prop :=
  ∀ id, s.Disabled id → ∀ callback, event = .publish callback →
    (∀ next saved, (next, saved) ∈ s.saves → saved.Enables → id < next → callback < next) →
    s.Clears event

/-! ## All users -/

/-- A push that a callback has still to make. -/
def Server.Pending (s : Server) (push : Push) : Prop :=
  ∃ id callback, s.callbacks.lookup id = some callback ∧ push ∈ callback.pushes

/-- What holds between any two steps. -/
structure Server.Invariant (first : Database) (s : Server) : Prop where
  sound : ∀ userId, Sound s.db (effectiveCount first userId) userId s.Pending s.publisher
  tracked : s.publisher.Tracked
  rising : s.publisher.Rising
  publicationEpoch : s.publisher.publicationEpoch ≤ s.db.config.epoch
  epochs : ∀ {id callback}, s.callbacks.lookup id = some callback →
    callback.epoch ≤ s.db.config.epoch
  fresh : ∀ {id callback}, s.callbacks.lookup id = some callback → id < s.nextId

section Server

variable {first db : Database} {s : Server}

theorem Server.invariant_start (first : Database) : (start first).Invariant first where
  sound := fun userId => .idle rfl rfl fun push hpending => by
    obtain ⟨id, callback, hnone, -⟩ := hpending
    cases hnone
  tracked := ⟨fun _ => rfl, List.nodup_nil⟩
  rising := List.Pairwise.nil
  publicationEpoch := Nat.zero_le _
  epochs := fun h => nomatch h
  fresh := fun h => nomatch h

theorem Server.Invariant.pending_commit (h : s.Invariant first) (db : Database)
    (callback : Callback) (push : Push) :
    (s.commit db callback).Pending push ↔ s.Pending push ∨ push ∈ callback.pushes := by
  constructor
  · rintro ⟨id, other, hlookup, hmem⟩
    rcases Table.lookup_of_insert hlookup with ⟨_, rfl⟩ | hlookup
    · exact .inr hmem
    · exact .inl ⟨id, other, hlookup, hmem⟩
  · rintro (⟨id, other, hlookup, hmem⟩ | hmem)
    · refine ⟨id, other, ?_, hmem⟩
      exact (AList.lookup_insert_ne (Nat.ne_of_lt (h.fresh hlookup))).trans hlookup
    · exact ⟨s.nextId, callback, AList.lookup_insert _, hmem⟩

/-- A commit whose epoch is that of the configuration. -/
theorem Server.Invariant.commit (h : s.Invariant first) {callback : Callback}
    (hepoch : s.db.config.epoch ≤ db.config.epoch) (hcallback : callback.epoch ≤ db.config.epoch)
    (hsound : ∀ userId, Sound db (effectiveCount first userId) userId
      (s.commit db callback).Pending s.publisher) :
    (s.commit db callback).Invariant first where
  sound := hsound
  tracked := h.tracked
  rising := h.rising
  publicationEpoch := Nat.le_trans h.publicationEpoch hepoch
  epochs := fun hlookup => by
    rcases Table.lookup_of_insert hlookup with ⟨_, rfl⟩ | hlookup
    · exact hcallback
    · exact Nat.le_trans (h.epochs hlookup) hepoch
  fresh := fun hlookup => by
    rcases Table.lookup_of_insert hlookup with ⟨rfl, _⟩ | hlookup
    · exact Nat.lt_succ_self _
    · exact Nat.lt_succ_of_lt (h.fresh hlookup)

theorem Touches.effectiveCount_ne {userId other : String} {change : UnreadTotalChange}
    (h : Touches s.db db userId change) (hother : other ≠ userId) :
    effectiveCount db other = effectiveCount s.db other := by
  unfold effectiveCount Database.account
  rw [h.config, h.others other hother]

theorem Server.Invariant.unreadChanged (h : s.Invariant first) {userId : String}
    {change : UnreadTotalChange} (htouches : Touches s.db db userId change) :
    (s.commit db (.unreadChanged userId change)).Invariant first := by
  have hconfig := htouches.config
  have hwrites := htouches.writes
  refine h.commit (by rw [hconfig]) (by rw [hconfig]; exact Nat.le_of_eq hwrites.epoch) ?_
  have hpending := h.pending_commit db (.unreadChanged userId change)
  intro other
  by_cases hother : other = userId
  · subst hother
    have hrow : ∀ account, s.db.accounts.lookup other = some account →
        ∃ account', db.accounts.lookup other = some account' ∧
          account.state.revision ≤ account'.state.revision := by
      intro account haccount
      have hbefore : s.db.account other = account := by simp [Database.account, haccount]
      exact ⟨_, htouches.row, hbefore ▸ hwrites.revision⟩
    by_cases hpushes : (Callback.unreadChanged other change).pushes = []
    · -- the count stays, or nothing is pushed while the integration is disabled
      refine ((h.sound other).frame (by rw [hconfig]) ?_ hrow).congr fun push _ => ?_
      · unfold effectiveCount
        rw [hconfig]
        by_cases hsame : (db.account other).state.unreadCount =
          (s.db.account other).state.unreadCount
        · rw [hsame]
        · have hpublish := hwrites.publish hsame
          have hdisabled : s.db.config.isEnabled = false := by
            simp only [Callback.pushes] at hpushes
            split at hpushes
            · next hquiet =>
              have hne : change.previous ≠ change.next := by
                rw [hwrites.previous, hwrites.next]
                exact Ne.symm hsame
              simpa [hne, hpublish] using hquiet
            · cases hpushes
          simp [hdisabled]
      · rw [hpending, hpushes]
        simp
    · have hloud : change.previous ≠ change.next ∧ change.publish = true := by
        by_contra hquiet
        refine hpushes ?_
        simp only [Callback.pushes]
        rw [if_pos]
        simp only [Bool.or_eq_true, decide_eq_true_eq, Bool.not_eq_true']
        by_cases hsame : change.previous = change.next
        · exact .inl hsame
        · exact .inr (by simpa [hsame] using hquiet)
      have hne : (db.account other).state.unreadCount ≠ (s.db.account other).state.unreadCount := by
        rw [← hwrites.previous, ← hwrites.next]
        exact Ne.symm hloud.1
      obtain ⟨hrises, hrevision⟩ := hwrites.rises hne
      have henabled : s.db.config.isEnabled = true := (hwrites.publish hne).symm.trans hloud.2
      have hpush : (Callback.unreadChanged other change).pushes =
          [⟨other, change.next, change.epoch, change.revision⟩] := by
        simp [Callback.pushes, hloud.1, hloud.2]
      refine (h.sound other).renew ⟨other, change.next, change.epoch, change.revision⟩
        rfl ?_ ?_ ?_ ?_
      · exact {
          epoch := by rw [hconfig]; exact hwrites.epoch
          count := by simp [effectiveCount, hconfig, henabled, hwrites.next]
          row := ⟨_, htouches.row, Nat.le_of_eq hrevision⟩ }
      · intro old hold huser
        obtain ⟨account, haccount, hle⟩ := hold.row
        rw [huser] at haccount
        have hbefore : s.db.account other = account := by simp [Database.account, haccount]
        refine .inr ⟨hold.epoch.trans hwrites.epoch.symm, ?_⟩
        rw [hbefore] at hrises
        show old.revision < change.revision
        omega
      · rw [hpending, hpush]
        exact .inr (List.mem_singleton_self _)
      · intro push hp _
        rw [hpending, hpush] at hp
        exact hp.imp_right List.mem_singleton.1
  · refine ((h.sound other).frame (by rw [hconfig]) (htouches.effectiveCount_ne hother)
      fun account haccount => ?_).congr fun push huser => ?_
    · exact ⟨account, (htouches.others other hother).trans haccount, Nat.le_refl _⟩
    · rw [hpending]
      refine or_iff_left fun hmem => ?_
      simp only [Callback.pushes] at hmem
      split at hmem
      · cases hmem
      · rw [List.mem_singleton.1 hmem] at huser
        exact hother huser.symm

theorem Server.Invariant.configSaved (h : s.Invariant first) {saved : Saved}
    (hnext : saved.next = db.config) (hcases : Keeps s.db db saved ∨ Renotifies s.db db saved) :
    (s.commit db (.configSaved saved)).Invariant first := by
  have hpending := h.pending_commit db (.configSaved saved)
  have hepoch : (Callback.configSaved saved).epoch = db.config.epoch := by
    rw [← hnext]
    rfl
  rcases hcases with hkeeps | hall
  · refine h.commit (Nat.le_of_eq hkeeps.epoch.symm) (Nat.le_of_eq hepoch) fun userId => ?_
    refine ((h.sound userId).frame hkeeps.epoch ?_ fun account haccount => ?_).congr
      fun push _ => ?_
    · unfold effectiveCount Database.account
      rw [hkeeps.enabled, hkeeps.accounts]
    · exact ⟨account, hkeeps.accounts ▸ haccount, Nat.le_refl _⟩
    · rw [hpending]
      simp [Callback.pushes, hkeeps.silent]
  · refine h.commit (by have := hall.epoch; omega) (Nat.le_of_eq hepoch) fun userId => ?_
    cases hrow : s.db.accounts.lookup userId with
    | none =>
      have hnone := hall.absent userId hrow
      have hcount : ∀ db : Database, db.accounts.lookup userId = none →
          effectiveCount db userId = 0 := by
        intro db hnone
        simp [effectiveCount, Database.account, hnone]
      have hpushes : ∀ push ∈ (Callback.configSaved saved).pushes, push.userId ≠ userId := by
        intro push hmem huser
        obtain ⟨item, hitem, rfl⟩ := List.mem_map.1 hmem
        obtain ⟨account, haccount⟩ := hall.named item hitem
        have huser' : item.userId = userId := huser
        rw [huser', hrow] at haccount
        cases haccount
      cases h.sound userId with
      | idle hfirst hlast hold =>
        refine .idle ((hcount db hnone).trans ((hcount s.db hrow).symm.trans hfirst)) hlast ?_
        intro push hpush
        rcases (hpending push).1 hpush with hpush | hpush
        · exact hold push hpush
        · exact hpushes push hpush
      | due due huser hdue =>
        obtain ⟨account, haccount, -⟩ := hdue.row
        rw [huser, hrow] at haccount
        cases haccount
    | some account =>
      obtain ⟨account', item, haccount', hitem, huser, hrevision, hcount⟩ :=
        hall.present userId account hrow
      refine (h.sound userId).renew (saved.push item) huser ?_ ?_ ?_ ?_
      · exact {
          epoch := by rw [← hnext]; rfl
          count := by rw [hcount]; exact congrArg _ huser.symm
          row := ⟨account', by rw [← haccount', ← huser]; rfl, hrevision⟩ }
      · intro old hold _
        refine .inl ?_
        have hlater : (saved.push item).epoch = s.db.config.epoch + 1 := by
          rw [← hall.epoch, ← hnext]
          rfl
        rw [hlater, hold.epoch]
        exact Nat.lt_succ_self _
      · rw [hpending]
        exact .inr (List.mem_map.2 ⟨item, hitem, rfl⟩)
      · intro push hpush hto
        refine ((hpending push).1 hpush).imp_right fun hmem => ?_
        obtain ⟨other, hother, rfl⟩ := List.mem_map.1 hmem
        rw [hall.single other hother item hitem (hto.trans huser.symm)]

/-- The pushes of a callback are tried one by one. -/
theorem sound_foldl {atFirst : String → Nat} (pending : Push → Prop) (pushes : List Push)
    {p : Publisher} (hsound : ∀ userId, Sound db (atFirst userId) userId
      (fun push => pending push ∨ push ∈ pushes) p)
    (htracked : p.Tracked) (hrising : p.Rising) (hepoch : p.publicationEpoch ≤ db.config.epoch)
    (hsmall : (pushes.foldl Publisher.publishFenced p).Small) :
    (∀ userId, Sound db (atFirst userId) userId pending (pushes.foldl Publisher.publishFenced p)) ∧
      (pushes.foldl Publisher.publishFenced p).Tracked ∧
      (pushes.foldl Publisher.publishFenced p).Rising := by
  induction pushes generalizing p with
  | nil =>
    exact ⟨fun userId => (hsound userId).congr fun push _ => by simp, htracked, hrising⟩
  | cons head pushes ih =>
    have hhead : (p.publishFenced head).Small := by
      obtain ⟨-, new, hnew, -⟩ := (p.publishFenced head).foldl_pushes pushes
      exact hsmall.of_append hnew
    refine ih (fun userId => ?_) (htracked.publishFenced hhead)
      (hrising.publishFenced htracked head) ?_ hsmall
    · refine (hsound userId).publishFenced htracked hepoch (.inr List.mem_cons_self) ?_ ?_
      · exact fun other hother => hother.imp_right (List.mem_cons_of_mem _)
      · rintro other (hother | hother)
        · exact .inl (.inl hother)
        · rcases List.mem_cons.1 hother with heq | hother
          · exact .inr heq
          · exact .inl (.inr hother)
    · rw [(p.publishFenced_pushes head).1]
      exact hepoch

theorem Server.Invariant.publish (h : s.Invariant first) {id : Nat} {callback : Callback}
    (hlookup : s.callbacks.lookup id = some callback) (hsmall : (callback.run s.publisher).Small) :
    Server.Invariant first
      { s with publisher := callback.run s.publisher, callbacks := s.callbacks.erase id } := by
  rw [Callback.run_eq] at hsmall ⊢
  have hepoch : (s.publisher.follow callback.epoch).publicationEpoch ≤ s.db.config.epoch :=
    Nat.max_le.2 ⟨h.publicationEpoch, h.epochs hlookup⟩
  let rest : Push → Prop := fun push =>
    ∃ other waiting, (s.callbacks.erase id).lookup other = some waiting ∧ push ∈ waiting.pushes
  have hsplit : ∀ push, rest push ∨ push ∈ callback.pushes ↔ s.Pending push := by
    intro push
    constructor
    · rintro (⟨other, waiting, hother, hmem⟩ | hmem)
      · exact ⟨other, waiting, Table.lookup_of_erase hother, hmem⟩
      · exact ⟨id, callback, hlookup, hmem⟩
    · rintro ⟨other, waiting, hother, hmem⟩
      by_cases hid : other = id
      · subst hid
        rw [hlookup] at hother
        cases hother
        exact .inr hmem
      · exact .inl ⟨other, waiting, (AList.lookup_erase_ne hid).trans hother, hmem⟩
  obtain ⟨hsound, htracked, hrising⟩ := sound_foldl rest callback.pushes
    (p := s.publisher.follow callback.epoch)
    (fun userId => ((h.sound userId).congr fun push _ => hsplit push).follow callback.epoch)
    ⟨h.tracked.published, h.tracked.nodup⟩ h.rising hepoch hsmall
  exact {
    sound := hsound
    tracked := htracked
    rising := hrising
    publicationEpoch := by
      rw [(Publisher.foldl_pushes _ _).1]
      exact hepoch
    epochs := fun hother => h.epochs (Table.lookup_of_erase hother)
    fresh := fun hother => h.fresh (Table.lookup_of_erase hother) }

theorem Server.Invariant.same (h : s.Invariant first) (hsame : Same s.db db) :
    Server.Invariant first { s with db } where
  sound := fun userId => by
    refine (h.sound userId).frame (by rw [hsame.config]) ?_ fun account haccount => ?_
    · rw [effectiveCount, hsame.config, hsame.accounts]
      rfl
    · exact ⟨account, hsame.rows haccount, Nat.le_refl _⟩
  tracked := h.tracked
  rising := h.rising
  publicationEpoch := Nat.le_trans h.publicationEpoch (by rw [hsame.config])
  epochs := fun hlookup => Nat.le_trans (h.epochs hlookup) (by rw [hsame.config])
  fresh := h.fresh

/-- What a step can do. -/
inductive Server.Moves (s : Server) : Server → Prop
  | touched {db : Database} {userId : String} {change : UnreadTotalChange}
    (htouches : Touches s.db db userId change) :
    Moves s (s.commit db (.unreadChanged userId change))
  | same {db : Database} (hsame : Same s.db db) : Moves s { s with db }
  | saved {db : Database} {input : Update} {saved : Saved}
    (hsaved : updateAdminConfig s.db input = some (db, saved)) :
    Moves s { s.commit db (.configSaved saved) with saves := (s.nextId, saved) :: s.saves }
  | published {id : Nat} {callback : Callback} (hlookup : s.callbacks.lookup id = some callback) :
    Moves s { s with publisher := callback.run s.publisher, callbacks := s.callbacks.erase id }

theorem Same.refl (db : Database) : Same db db := ⟨rfl, fun _ => rfl, fun h => h⟩

theorem Server.step_moves (s : Server) (event : Event) : s.Moves (s.step event) := by
  cases event with
  | webhook eventId change eventAt generation now =>
    simp only [Server.step]
    rcases applyUnreadChange_cases s.db eventId change eventAt generation now with
      ⟨result, hresult, htouches⟩ | hstale | hduplicate
    · split
      · next db result' heq =>
        rw [heq] at hresult htouches
        cases hresult
        exact .touched htouches
      · next db other hnot heq =>
        rw [heq] at hresult
        exact absurd hresult (hnot result)
    · rw [hstale]
      exact .same (.refl _)
    · rw [hduplicate]
      exact .same (.refl _)
  | resync userId credentials before answer now =>
    simp only [Server.step]
    rcases resyncUnread_cases s.db userId credentials before answer now with
      ⟨result, hresult, htouches⟩ | ⟨hnone, hsame⟩
    · split
      · next db result' heq =>
        rw [heq] at hresult htouches
        cases hresult
        exact .touched htouches
      · next db heq =>
        rw [heq] at hresult
        cases hresult
    · split
      · next db result' heq =>
        rw [heq] at hnone
        cases hnone
      · next db heq =>
        rw [heq] at hsame
        exact .same hsame
  | save input =>
    simp only [Server.step]
    split
    · next db saved hsaved => exact .saved hsaved
    · exact .same (.refl _)
  | publish id =>
    simp only [Server.step]
    cases hlookup : s.callbacks.lookup id with
    | none => exact .same (.refl _)
    | some callback => exact .published hlookup

/-- Pushes are only added. -/
theorem Server.Moves.pushes {s' : Server} (h : s.Moves s') :
    ∃ new, s'.publisher.pushes = new ++ s.publisher.pushes := by
  cases h with
  | published hlookup =>
    obtain ⟨-, new, hnew, -⟩ := Callback.run_pushes s.publisher _
    exact ⟨new, hnew⟩
  | _ => exact ⟨[], rfl⟩

theorem Server.Invariant.moves (h : s.Invariant first) {s' : Server} (hmoves : s.Moves s')
    (hsmall : s'.publisher.Small) : s'.Invariant first := by
  cases hmoves with
  | touched htouches => exact h.unreadChanged htouches
  | same hsame => exact h.same hsame
  | saved hsaved =>
    obtain ⟨hnext, -, -, hcases⟩ := updateAdminConfig_cases hsaved
    have hcommit := h.configSaved hnext hcases
    exact {
      sound := hcommit.sound
      tracked := hcommit.tracked
      rising := hcommit.rising
      publicationEpoch := hcommit.publicationEpoch
      epochs := hcommit.epochs
      fresh := hcommit.fresh }
  | published hlookup => exact h.publish hlookup hsmall

/-- As long as the publisher tracks all users. -/
theorem Server.Invariant.run (first : Database) (events : List Event)
    (hsmall : (Machine.run Server.step (start first) events).publisher.Small) :
    (Machine.run Server.step (start first) events).Invariant first := by
  refine Machine.run_keeps (I := fun s : Server => s.publisher.Small → s.Invariant first)
    (fun s event hs hnext => ?_) (fun _ => invariant_start first) events hsmall
  have hmoves := s.step_moves event
  obtain ⟨new, hnew⟩ := hmoves.pushes
  exact (hs (hnext.of_append hnew)).moves hmoves hnext

end Server

/-! ## The time between two saves -/

/-- What is known of the saves that have committed. -/
structure Server.History (s : Server) : Prop where
  fresh : ∀ {id callback}, s.callbacks.lookup id = some callback → id < s.nextId
  freshSaves : ∀ {id saved}, (id, saved) ∈ s.saves → id < s.nextId
  epochs : ∀ {id callback}, s.callbacks.lookup id = some callback →
    callback.epoch ≤ s.db.config.epoch
  /-- The callback of a save has run, and then the publisher is in its epoch, or it waits. -/
  ran : ∀ {id saved}, (id, saved) ∈ s.saves →
    s.callbacks.lookup id = some (.configSaved saved) ∨
      saved.next.epoch ≤ s.publisher.publicationEpoch
  /-- What has committed before a disabling save is of an epoch before it. -/
  older : ∀ {id saved}, (id, saved) ∈ s.saves → saved.Disables → ∀ {other callback},
    s.callbacks.lookup other = some callback → other < id → callback.epoch < saved.next.epoch
  lit : s.db.config.isEnabled = true → ∀ {id saved}, (id, saved) ∈ s.saves → saved.Disables →
    ∃ next enabling, (next, enabling) ∈ s.saves ∧ enabling.Enables ∧ id < next
  /-- What publishes a count has committed after an enabling save. -/
  bright : ∀ {other callback push}, s.callbacks.lookup other = some callback →
    push ∈ callback.pushes → push.count ≠ 0 → ∀ {id saved}, (id, saved) ∈ s.saves →
    saved.Disables → id < other →
    ∃ next enabling, (next, enabling) ∈ s.saves ∧ enabling.Enables ∧ id < next ∧ next ≤ other

theorem Server.history_start (first : Database) : (start first).History where
  fresh := fun h => nomatch h
  freshSaves := fun h => nomatch h
  epochs := fun h => nomatch h
  ran := fun h => nomatch h
  older := fun h => nomatch h
  lit := fun _ _ _ h => nomatch h
  bright := fun h => nomatch h

section History

variable {db : Database} {s : Server}

/-- A transaction that is no save. -/
theorem Server.History.commit (h : s.History) {callback : Callback}
    (hconfig : db.config = s.db.config) (hepoch : callback.epoch ≤ s.db.config.epoch)
    (hbright : ∀ push ∈ callback.pushes, push.count ≠ 0 → s.db.config.isEnabled = true) :
    (s.commit db callback).History where
  fresh := fun hlookup => by
    rcases Table.lookup_of_insert hlookup with ⟨rfl, _⟩ | hlookup
    · exact Nat.lt_succ_self _
    · exact Nat.lt_succ_of_lt (h.fresh hlookup)
  freshSaves := fun hsaved => Nat.lt_succ_of_lt (h.freshSaves hsaved)
  epochs := fun hlookup => by
    show _ ≤ db.config.epoch
    rw [hconfig]
    rcases Table.lookup_of_insert hlookup with ⟨_, rfl⟩ | hlookup
    · exact hepoch
    · exact h.epochs hlookup
  ran := fun hsaved => (h.ran hsaved).imp_left fun hwaits =>
    (AList.lookup_insert_ne (Nat.ne_of_lt (h.freshSaves hsaved))).trans hwaits
  older := fun hsaved hdisables other callback' hlookup hlt => by
    rcases Table.lookup_of_insert hlookup with ⟨rfl, _⟩ | hlookup
    · exact absurd (h.freshSaves hsaved) (by omega)
    · exact h.older hsaved hdisables hlookup hlt
  lit := fun henabled => h.lit (hconfig ▸ henabled)
  bright := fun hlookup hpush hcount id saved hsaved hdisables hlt => by
    rcases Table.lookup_of_insert hlookup with ⟨rfl, rfl⟩ | hlookup
    · obtain ⟨next, enabling, hmem, henables, hafter⟩ :=
        h.lit (hbright _ hpush hcount) hsaved hdisables
      exact ⟨next, enabling, hmem, henables, hafter, Nat.le_of_lt (h.freshSaves hmem)⟩
    · exact h.bright hlookup hpush hcount hsaved hdisables hlt

theorem Server.History.unreadChanged (h : s.History) {userId : String} {change : UnreadTotalChange}
    (htouches : Touches s.db db userId change) :
    (s.commit db (.unreadChanged userId change)).History := by
  refine h.commit htouches.config (Nat.le_of_eq htouches.writes.epoch) fun push hpush _ => ?_
  simp only [Callback.pushes] at hpush
  split at hpush
  · cases hpush
  · next hloud =>
    simp only [Bool.or_eq_true, decide_eq_true_eq, Bool.not_eq_true', not_or,
      Bool.not_eq_false] at hloud
    have hne := hloud.1
    rw [htouches.writes.previous, htouches.writes.next] at hne
    exact (htouches.writes.publish (Ne.symm hne)).symm.trans hloud.2

theorem Server.History.same (h : s.History) (hsame : Same s.db db) :
    Server.History { s with db } where
  fresh := h.fresh
  freshSaves := h.freshSaves
  epochs := fun hlookup => Nat.le_trans (h.epochs hlookup) (by rw [hsame.config])
  ran := h.ran
  older := h.older
  lit := fun henabled => h.lit (hsame.config ▸ henabled)
  bright := h.bright

theorem Server.History.configSaved (h : s.History) {input : Update} {saved : Saved}
    (hsaved : updateAdminConfig s.db input = some (db, saved)) :
    Server.History
      { s.commit db (.configSaved saved) with saves := (s.nextId, saved) :: s.saves } := by
  obtain ⟨hnext, hwas, hnow, hcases⟩ := updateAdminConfig_cases hsaved
  have hepoch : s.db.config.epoch ≤ db.config.epoch := by
    rcases hcases with hkeeps | hall
    · exact Nat.le_of_eq hkeeps.epoch.symm
    · rw [hall.epoch]
      exact Nat.le_succ _
  have hrises : saved.Disables → s.db.config.epoch < saved.next.epoch := by
    intro hdisables
    rw [hnext]
    rcases hcases with hkeeps | hall
    · have hsame := hkeeps.enabled
      rw [← hnow, ← hwas, hdisables.1, hdisables.2] at hsame
      cases hsame
    · rw [hall.epoch]
      exact Nat.lt_succ_self _
  exact {
    fresh := fun hlookup => by
      rcases Table.lookup_of_insert hlookup with ⟨rfl, _⟩ | hlookup
      · exact Nat.lt_succ_self _
      · exact Nat.lt_succ_of_lt (h.fresh hlookup)
    freshSaves := fun hmem => by
      rcases List.mem_cons.1 hmem with heq | hold
      · cases heq
        exact Nat.lt_succ_self _
      · exact Nat.lt_succ_of_lt (h.freshSaves hold)
    epochs := fun hlookup => by
      rcases Table.lookup_of_insert hlookup with ⟨_, rfl⟩ | hlookup
      · exact Nat.le_of_eq (congrArg Config.epoch hnext)
      · exact Nat.le_trans (h.epochs hlookup) hepoch
    ran := fun hmem => by
      rcases List.mem_cons.1 hmem with heq | hold
      · cases heq
        exact .inl (AList.lookup_insert _)
      · refine (h.ran hold).imp_left fun hwaits => ?_
        exact (AList.lookup_insert_ne (Nat.ne_of_lt (h.freshSaves hold))).trans hwaits
    older := fun hmem hdisables other callback hlookup hlt => by
      rcases Table.lookup_of_insert hlookup with ⟨rfl, _⟩ | hlookup
      · rcases List.mem_cons.1 hmem with heq | hold
        · cases heq
          exact absurd hlt (Nat.lt_irrefl _)
        · exact absurd (h.freshSaves hold) (by omega)
      · rcases List.mem_cons.1 hmem with heq | hold
        · cases heq
          exact Nat.lt_of_le_of_lt (h.epochs hlookup) (hrises hdisables)
        · exact h.older hold hdisables hlookup hlt
    lit := fun henabled id disabling hmem hdisables => by
      have henabled' : saved.nowEnabled = true := hnow.trans henabled
      rcases List.mem_cons.1 hmem with heq | hold
      · cases heq
        rw [hdisables.2] at henabled'
        cases henabled'
      · by_cases hlit : s.db.config.isEnabled = true
        · obtain ⟨next, enabling, hnext, henables, hlt⟩ := h.lit hlit hold hdisables
          exact ⟨next, enabling, List.mem_cons_of_mem _ hnext, henables, hlt⟩
        · refine ⟨s.nextId, saved, List.mem_cons_self, ⟨?_, henabled'⟩, h.freshSaves hold⟩
          simpa [hwas] using hlit
    bright := fun hlookup hpush hcount id disabling hmem hdisables hlt => by
      rcases Table.lookup_of_insert hlookup with ⟨rfl, rfl⟩ | hlookup
      · obtain ⟨item, hitem, rfl⟩ := List.mem_map.1 hpush
        have henables : saved.Enables := by
          rcases hcases with hkeeps | hall
          · rw [hkeeps.silent] at hitem
            cases hitem
          · exact hall.bright item hitem hcount
        exact ⟨s.nextId, saved, List.mem_cons_self, henables, hlt, Nat.le_refl _⟩
      · rcases List.mem_cons.1 hmem with heq | hold
        · cases heq
          exact absurd (h.fresh hlookup) (by omega)
        · obtain ⟨next, enabling, hnext, henables, hafter⟩ :=
            h.bright hlookup hpush hcount hold hdisables hlt
          exact ⟨next, enabling, List.mem_cons_of_mem _ hnext, henables, hafter⟩ }

theorem Server.History.publish (h : s.History) {id : Nat} {callback : Callback}
    (hlookup : s.callbacks.lookup id = some callback) :
    Server.History
      { s with publisher := callback.run s.publisher, callbacks := s.callbacks.erase id } where
  fresh := fun hother => h.fresh (Table.lookup_of_erase hother)
  freshSaves := h.freshSaves
  epochs := fun hother => h.epochs (Table.lookup_of_erase hother)
  ran := fun {other saved} hsaved => by
    show _ ∨ _ ≤ (callback.run s.publisher).publicationEpoch
    rw [(callback.run_pushes s.publisher).1]
    rcases h.ran hsaved with hwaits | hran
    · by_cases hid : other = id
      · subst hid
        rw [hlookup] at hwaits
        cases hwaits
        exact .inr (Nat.le_max_right _ _)
      · exact .inl ((AList.lookup_erase_ne hid).trans hwaits)
    · exact .inr (Nat.le_trans hran (Nat.le_max_left _ _))
  older := fun hsaved hdisables _ _ hother => h.older hsaved
    hdisables (Table.lookup_of_erase hother)
  lit := h.lit
  bright := fun hother => h.bright (Table.lookup_of_erase hother)

theorem Server.History.moves (h : s.History) {s' : Server} (hmoves : s.Moves s') : s'.History := by
  cases hmoves with
  | touched htouches => exact h.unreadChanged htouches
  | same hsame => exact h.same hsame
  | saved hsaved => exact h.configSaved hsaved
  | published hlookup => exact h.publish hlookup

theorem Server.History.dark (h : s.History) (event : Event) : s.Dark event := by
  rintro id ⟨⟨saved, hsaved, hdisables⟩, hrun⟩ other rfl hbefore
  unfold Server.Clears
  simp only [Server.step]
  cases hlookup : s.callbacks.lookup other with
  | none => exact ⟨[], rfl, fun push hpush => nomatch hpush⟩
  | some callback =>
    obtain ⟨-, new, hnew, hmem⟩ := callback.run_pushes s.publisher
    refine ⟨new, hnew, fun push hpush => ?_⟩
    obtain ⟨hpushes, hepoch⟩ := hmem push hpush
    rw [Callback.epoch_of_mem hpushes] at hepoch
    by_contra hcount
    have hran : saved.next.epoch ≤ s.publisher.publicationEpoch := by
      rcases h.ran hsaved with hwaits | hran
      · rw [hrun] at hwaits
        cases hwaits
      · exact hran
    rcases Nat.lt_trichotomy other id with hlt | rfl | hlt
    · have hold := h.older hsaved hdisables hlookup hlt
      omega
    · rw [hrun] at hlookup
      cases hlookup
    · obtain ⟨next, enabling, hnext, henables, hafter, hle⟩ :=
        h.bright hlookup hpushes hcount hsaved hdisables hlt
      have hlater := hbefore next enabling hnext henables hafter
      omega

end History

/-! ## Runs -/

/-- Once every callback has run, every user is shown the effective count.  The pushes to one user
rise.  After the callback of a disabling save, what has committed before the next enabling one
pushes nothing but 0. -/
theorem pushes_reach_the_effective_count (first : Database) (events : List Event)
    (hsmall : (Machine.run Server.step (Server.start first) events).publisher.Small) :
    ((∀ id, (Machine.run Server.step (Server.start first) events).callbacks.lookup id = none) →
      ∀ userId,
        (Machine.run Server.step (Server.start first) events).publisher.shown
          (effectiveCount first userId) userId =
        effectiveCount (Machine.run Server.step (Server.start first) events).db userId) ∧
    (Machine.run Server.step (Server.start first) events).publisher.Rising ∧
    Machine.Meets Server.step Server.Dark (Server.start first) events := by
  have hinvariant := Server.Invariant.run first events hsmall
  refine ⟨fun hdone userId => (hinvariant.sound userId).shown fun push hpending => ?_,
    hinvariant.rising, ?_⟩
  · obtain ⟨id, callback, hlookup, -⟩ := hpending
    rw [hdone] at hlookup
    cases hlookup
  · exact Machine.meets_of_keeps (I := Server.History)
      (fun s event hs => hs.moves (s.step_moves event)) (fun s event hs => hs.dark event)
      (Server.history_start first) events

namespace Sample

/-- A configuration that is enabled. -/
def config : Config where
  baseUrl := some "https://support.example"
  clientId := some "client"
  clientSecret := some "secret"
  webhookSecret := some "webhook"
  enabled := true

/-- An event of the support system. -/
def message : Event :=
  .webhook "event" ⟨"user", "request", 5, some 5⟩ (some 100) 0 200

/-- Two messages and a disabling save.  The callback of the second message runs last. -/
def darkened : List Event :=
  [message, .publish 0, .webhook "second" ⟨"user", "request", 6, some 6⟩ (some 200) 0 300,
    .save { enabled := some false }, .publish 2]

/-- Disabled and published, enabled again, and then a message. -/
def switched : List Event :=
  [.save { enabled := some false }, .publish 0, .save { enabled := some true }, message]

end Sample

/-- What the saves have done to the integration. -/
def Server.switches (s : Server) : List (Nat × Bool × Bool) :=
  s.saves.map fun (id, saved) => (id, saved.wasEnabled, saved.nowEnabled)

theorem Server.mem_switches {s : Server} {id : Nat} {saved : Saved} (h : (id, saved) ∈ s.saves) :
    (id, saved.wasEnabled, saved.nowEnabled) ∈ s.switches :=
  List.mem_map.2 ⟨(id, saved), h, rfl⟩

theorem Server.disabled_of_switches {s : Server} {id : Nat} (h : (id, true, false) ∈ s.switches)
    (hrun : s.callbacks.lookup id = none) : s.Disabled id := by
  obtain ⟨⟨_, saved⟩, hsaved, heq⟩ := List.mem_map.1 h
  simp only [Prod.mk.injEq] at heq
  obtain ⟨rfl, hwas, hnow⟩ := heq
  exact ⟨⟨saved, hsaved, hwas, hnow⟩, hrun⟩

open Sample in
/-- The user is shown 0 in the end, and the message that committed before the save pushes no other
count once the callback of the save has run. -/
theorem pushes_reach_the_effective_count_message :
    (Machine.run Server.step (Server.start { config }) (darkened ++ [.publish 1])).publisher.shown
      (effectiveCount { config } "user") "user" = 0 ∧
    (Machine.run Server.step (Server.start { config }) darkened).Disabled 2 ∧
    (Machine.run Server.step (Server.start { config }) darkened).Clears (.publish 1) := by
  obtain ⟨hshown, -, -, -, -, -, -, hdark, -⟩ :=
    pushes_reach_the_effective_count { config } (darkened ++ [.publish 1]) (by decide +kernel)
  have hswitches : (Machine.run Server.step (Server.start { config }) darkened).switches =
      [(2, true, false)] := by decide +kernel
  have hdisabled : (Machine.run Server.step (Server.start { config }) darkened).Disabled 2 :=
    Server.disabled_of_switches (hswitches ▸ List.mem_singleton_self _) (by decide +kernel)
  refine ⟨(hshown (fun id => ?_) "user").trans (by decide +kernel), hdisabled, ?_⟩
  · have hempty : (Machine.run Server.step (Server.start { config })
        (darkened ++ [.publish 1])).callbacks.pairs = [] := by decide +kernel
    cases hlookup : (Machine.run Server.step (Server.start { config })
        (darkened ++ [.publish 1])).callbacks.lookup id with
    | none => rfl
    | some callback =>
      have hmem := Table.mem_pairs.2 hlookup
      rw [hempty] at hmem
      cases hmem
  · refine hdark 2 hdisabled 1 rfl fun next saved hmem henables _ => ?_
    -- The one save disables.
    have hnext := Server.mem_switches hmem
    have hall : (next, saved.wasEnabled, saved.nowEnabled) ∈ [(2, true, false)] :=
      hswitches ▸ hnext
    simp [henables.1] at hall

/-- The callback of the next enabling save has not run. -/
def Server.Unlit (s : Server) (id : Nat) : Prop :=
  ∀ next saved, (next, saved) ∈ s.saves → saved.Enables → id < next →
    (∀ other enabling, (other, enabling) ∈ s.saves → enabling.Enables → id < other →
      next ≤ other) → s.callbacks.lookup next ≠ none

open Sample in
/-- The message has committed after the save that enables the integration, and its callback runs
before the one of the save. -/
theorem pushed_before_the_enabling_callback :
    ¬ ∀ (first : Database) (events : List Event) (id callback : Nat),
      (Machine.run Server.step (Server.start first) events).Disabled id →
      (Machine.run Server.step (Server.start first) events).Unlit id →
      (Machine.run Server.step (Server.start first) events).Clears (.publish callback) := by
  intro h
  have hswitches : (Machine.run Server.step (Server.start { config }) switched).switches =
      [(1, false, true), (0, true, false)] := by decide +kernel
  have hdisabled : (Machine.run Server.step (Server.start { config }) switched).Disabled 0 :=
    Server.disabled_of_switches (by rw [hswitches]; simp) (by decide +kernel)
  have hunlit : (Machine.run Server.step (Server.start { config }) switched).Unlit 0 := by
    intro next saved hmem henables hlt _
    have hnext := Server.mem_switches hmem
    rw [hswitches] at hnext
    simp only [henables.1, henables.2, List.mem_cons, Prod.mk.injEq, Bool.false_eq_true,
      Bool.true_eq_false, and_true, and_false, or_false, List.not_mem_nil] at hnext
    rw [hnext]
    decide +kernel
  obtain ⟨pushes, hpushes, hcount⟩ := h { config } switched 0 2 hdisabled hunlit
  have hafter : ((Machine.run Server.step (Server.start { config }) switched).step
      (.publish 2)).publisher.pushes = [⟨"user", 5, 2, 1⟩] := by decide +kernel
  have hbefore : (Machine.run Server.step (Server.start { config }) switched).publisher.pushes =
      [] := by decide +kernel
  rw [hafter, hbefore, List.append_nil] at hpushes
  have hzero := hcount ⟨"user", 5, 2, 1⟩ (hpushes ▸ List.mem_singleton_self _)
  cases hzero

end ChordV.Api.Unread
