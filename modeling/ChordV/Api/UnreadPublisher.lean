import ChordV.Api.UnreadWrites
import Mathlib.Data.List.Dedup

/-!
# The publisher of unread counts

* `Callback` is what a transaction leaves to do after its commit.
* `Tracked` says that the publisher knows the last push of each user, as long as it pushed to no
  more users than it tracks: `Small`.
* `Sound` is the invariant of one user.  Either nothing was ever due, or the newest push that is
  due carries the effective count, and it was made or is pending.
-/

namespace ChordV.Api.Unread

open Lib

/-- What a transaction leaves to do after its commit. -/
inductive Callback where
  | unreadChanged (userId : String) (change : UnreadTotalChange)
  | configSaved (saved : Saved)
deriving DecidableEq, Repr

/-- Runs a callback. -/
def Callback.run (p : Publisher) : Callback → Publisher
  | .unreadChanged userId change => p.publishIfChanged userId change
  | .configSaved saved => p.afterConfigSaved saved

/-! ## What clients show -/

/-- The last push to a user. -/
def Publisher.last (p : Publisher) (userId : String) : Option Push :=
  p.pushes.find? (·.userId = userId)

/-- What the clients of a user show, if they showed a count at first. -/
def Publisher.shown (p : Publisher) (atFirst : Nat) (userId : String) : Nat :=
  ((p.last userId).map (·.count)).getD atFirst

/-- The order of the fence. -/
def Push.Before (a b : Push) : Prop :=
  a.epoch < b.epoch ∨ a.epoch = b.epoch ∧ a.revision < b.revision

/-- The pushes to a user have rising positions. -/
def Publisher.Rising (p : Publisher) : Prop :=
  p.pushes.Pairwise fun newer older => newer.userId = older.userId → older.Before newer

/-- No more users were pushed to than the publisher tracks. -/
def Publisher.Small (p : Publisher) : Prop :=
  (p.pushes.map (·.userId)).dedup.length ≤ RESYNC_ATTEMPT_TRACKING_LIMIT

instance (p : Publisher) : Decidable p.Small := inferInstanceAs (Decidable (_ ≤ _))

/-! ## Publication -/

/-- The epoch of the callback. -/
def Callback.epoch : Callback → Nat
  | .unreadChanged _ change => change.epoch
  | .configSaved saved => saved.next.epoch

/-- What a callback tries to push. -/
def Callback.pushes : Callback → List Push
  | .unreadChanged userId change =>
    if change.previous = change.next || !change.publish then []
    else [{ userId, count := change.next, epoch := change.epoch, revision := change.revision }]
  | .configSaved saved => saved.withUnread.map saved.push

/-- The publisher follows the epoch of a callback. -/
def Publisher.follow (p : Publisher) (epoch : Nat) : Publisher :=
  { p with publicationEpoch := max p.publicationEpoch epoch }

theorem Callback.run_eq (p : Publisher) (callback : Callback) :
    callback.run p = callback.pushes.foldl Publisher.publishFenced (p.follow callback.epoch) := by
  cases callback with
  | unreadChanged userId change =>
    simp only [Callback.run, Publisher.publishIfChanged, Callback.pushes, Callback.epoch]
    split <;> rfl
  | configSaved saved => rfl

theorem Callback.epoch_of_mem {callback : Callback} {push : Push} (h : push ∈ callback.pushes) :
    push.epoch = callback.epoch := by
  cases callback with
  | unreadChanged userId change =>
    simp only [Callback.pushes] at h
    split at h
    · cases h
    · rw [List.mem_singleton.1 h]
      rfl
  | configSaved saved =>
    obtain ⟨item, -, rfl⟩ := List.mem_map.1 h
    rfl

/-- Pushes are only added, and none of an epoch that is over. -/
theorem Publisher.publishFenced_pushes (p : Publisher) (push : Push) :
    (p.publishFenced push).publicationEpoch = p.publicationEpoch ∧
      ((p.publishFenced push).pushes = p.pushes ∨
        (p.publishFenced push).pushes = push :: p.pushes ∧ p.publicationEpoch ≤ push.epoch) := by
  unfold Publisher.publishFenced
  split
  · exact ⟨rfl, .inl rfl⟩
  · next hepoch =>
    split
    · exact ⟨rfl, .inl rfl⟩
    · exact ⟨rfl, .inr ⟨rfl, Nat.not_lt.1 hepoch⟩⟩

theorem Publisher.foldl_pushes (p : Publisher) (pushes : List Push) :
    (pushes.foldl Publisher.publishFenced p).publicationEpoch = p.publicationEpoch ∧
      ∃ new, (pushes.foldl Publisher.publishFenced p).pushes = new ++ p.pushes ∧
        ∀ push ∈ new, push ∈ pushes ∧ p.publicationEpoch ≤ push.epoch := by
  induction pushes generalizing p with
  | nil => exact ⟨rfl, [], rfl, fun push h => nomatch h⟩
  | cons head pushes ih =>
    obtain ⟨hepoch, hhead⟩ := p.publishFenced_pushes head
    obtain ⟨hepochs, new, hnew, hmem⟩ := ih (p.publishFenced head)
    rw [hepoch] at hepochs hmem
    refine ⟨hepochs, ?_⟩
    rcases hhead with hsame | ⟨hcons, hle⟩
    · refine ⟨new, by rw [List.foldl_cons, hnew, hsame], fun push hpush => ?_⟩
      exact ⟨List.mem_cons_of_mem _ (hmem push hpush).1, (hmem push hpush).2⟩
    · refine ⟨new ++ [head], by rw [List.foldl_cons, hnew, hcons]; simp, fun push hpush => ?_⟩
      rcases List.mem_append.1 hpush with hpush | hpush
      · exact ⟨List.mem_cons_of_mem _ (hmem push hpush).1, (hmem push hpush).2⟩
      · rw [List.mem_singleton.1 hpush]
        exact ⟨List.mem_cons_self, hle⟩

theorem Callback.run_pushes (p : Publisher) (callback : Callback) :
    (callback.run p).publicationEpoch = max p.publicationEpoch callback.epoch ∧
      ∃ new, (callback.run p).pushes = new ++ p.pushes ∧
        ∀ push ∈ new, push ∈ callback.pushes ∧ p.publicationEpoch ≤ push.epoch := by
  rw [Callback.run_eq]
  obtain ⟨hepoch, new, hnew, hmem⟩ :=
    (p.follow callback.epoch).foldl_pushes callback.pushes
  refine ⟨hepoch, new, hnew, fun push hpush => ⟨(hmem push hpush).1, ?_⟩⟩
  exact Nat.le_trans (Nat.le_max_left _ _) (hmem push hpush).2

theorem Publisher.Small.of_append {p p' : Publisher} (h : p'.Small) {new : List Push}
    (hnew : p'.pushes = new ++ p.pushes) : p.Small := by
  have hsub : (p.pushes.map (·.userId)).dedup ⊆ (p'.pushes.map (·.userId)).dedup := by
    intro userId hmem
    rw [List.mem_dedup] at hmem ⊢
    rw [hnew, List.map_append]
    exact List.mem_append_right _ hmem
  exact Nat.le_trans (List.subperm_of_subset (List.nodup_dedup _) hsub).length_le h

theorem Push.Before.trans {a b c : Push} (hab : a.Before b) (hbc : b.Before c) : a.Before c := by
  unfold Push.Before at *
  omega

theorem Push.Before.irrefl {a b : Push} (hab : a.Before b) : ¬ b.Before a := by
  unfold Push.Before at *
  omega

/-- The publisher knows the last push of every user. -/
structure Publisher.Tracked (p : Publisher) : Prop where
  published : ∀ userId, p.published userId =
    (p.last userId).map fun push => ⟨push.userId, push.epoch, push.revision⟩
  nodup : (p.publishedRevisions.map (·.userId)).Nodup

theorem Publisher.userId_of_last {p : Publisher} {userId : String} {push : Push}
    (h : p.last userId = some push) : push.userId = userId := by
  have hmatch := List.find?_some h
  exact of_decide_eq_true hmatch

/-- A push passes the fence, or it comes too late. -/
theorem Publisher.publishFenced_cases {p : Publisher} (h : p.Tracked) (push : Push) :
    p.publishFenced push = p ∧ (push.epoch < p.publicationEpoch ∨
      ∃ last, p.last push.userId = some last ∧ ¬ last.Before push) ∨
    (p.publishFenced push).pushes = push :: p.pushes ∧
      (p.publishFenced push).publicationEpoch = p.publicationEpoch ∧
      p.publicationEpoch ≤ push.epoch ∧
      ∀ last, p.last push.userId = some last → last.Before push := by
  unfold Publisher.publishFenced
  rw [h.published]
  split
  · next hold => exact .inl ⟨rfl, .inl hold⟩
  · next hepoch =>
    cases hlast : p.last push.userId with
    | none => exact .inr ⟨rfl, rfl, Nat.not_lt.1 hepoch, fun last h => nomatch h⟩
    | some last =>
      simp only [Option.map_some, Option.any_some]
      split
      · next hlate =>
        refine .inl ⟨rfl, .inr ⟨last, rfl, ?_⟩⟩
        simp only [Bool.or_eq_true, decide_eq_true_eq, Bool.and_eq_true] at hlate
        unfold Push.Before
        omega
      · next hlate =>
        refine .inr ⟨rfl, rfl, Nat.not_lt.1 hepoch, fun last' h => ?_⟩
        cases h
        simp only [Bool.or_eq_true, decide_eq_true_eq, Bool.and_eq_true] at hlate
        unfold Push.Before
        omega

theorem Publisher.Tracked.pushed {p : Publisher} (h : p.Tracked) {published : PublishedRevision}
    (hmem : published ∈ p.publishedRevisions) : published.userId ∈ p.pushes.map (·.userId) := by
  have hfound : (p.published published.userId).isSome :=
    List.find?_isSome.2 ⟨published, hmem, decide_eq_true rfl⟩
  rw [h.published, Option.isSome_map] at hfound
  obtain ⟨push, hpush⟩ := Option.isSome_iff_exists.1 hfound
  exact List.mem_map.2 ⟨push, List.mem_of_find?_eq_some hpush, Publisher.userId_of_last hpush⟩

theorem Publisher.last_cons {p p' : Publisher} {push : Push} (h : p'.pushes = push :: p.pushes)
    (userId : String) :
    p'.last userId = if push.userId = userId then some push else p.last userId := by
  unfold Publisher.last
  rw [h, List.find?_cons]
  by_cases huser : push.userId = userId <;> simp [huser]

theorem Publisher.Tracked.record_nodup {p : Publisher} (h : p.Tracked) (push : Push) :
    ((p.record push).map (·.userId)).Nodup := by
  rw [Publisher.record, List.map_append, List.nodup_append]
  refine ⟨h.nodup.sublist (List.filter_sublist.map _), by simp, ?_⟩
  intro userId hmem other hother heq
  obtain ⟨published, hpublished, rfl⟩ := List.mem_map.1 hmem
  simp only [List.map_cons, List.map_nil, List.mem_singleton] at hother
  have hne := (List.mem_filter.1 hpublished).2
  simp [heq, hother] at hne

/-- Only users that were pushed to are recorded. -/
theorem Publisher.Tracked.record_length_le {p : Publisher} (h : p.Tracked) (push : Push) :
    (p.record push).length ≤ ((push :: p.pushes).map (·.userId)).dedup.length := by
  have hsub : (p.record push).map (·.userId) ⊆ ((push :: p.pushes).map (·.userId)).dedup := by
    intro userId hmem
    rw [List.mem_dedup, List.map_cons]
    obtain ⟨published, hpublished, rfl⟩ := List.mem_map.1 hmem
    rcases List.mem_append.1 hpublished with hold | hnew
    · exact List.mem_cons_of_mem _ (h.pushed (List.mem_filter.1 hold).1)
    · rw [List.mem_singleton.1 hnew]
      exact List.mem_cons_self
  have hle := (List.subperm_of_subset (h.record_nodup push) hsub).length_le
  rwa [List.length_map] at hle

theorem find_filter_userId (published : List PublishedRevision) (userId other : String) :
    (published.filter (·.userId ≠ other)).find? (·.userId = userId) =
      if other = userId then none else published.find? (·.userId = userId) := by
  induction published with
  | nil => simp
  | cons head published ih =>
    by_cases hhead : head.userId = other
    · subst hhead
      rw [List.filter_cons_of_neg (by simp), ih]
      by_cases huser : head.userId = userId <;> simp [huser]
    · rw [List.filter_cons_of_pos (by simpa using hhead), List.find?_cons, List.find?_cons, ih]
      by_cases huser : head.userId = userId
      · have hother : other ≠ userId := fun h => hhead (huser.trans h.symm)
        simp [huser, hother]
      · simp [huser]

theorem Publisher.find_record (p : Publisher) (push : Push) (userId : String) :
    (p.record push).find? (·.userId = userId) =
      if push.userId = userId then some ⟨push.userId, push.epoch, push.revision⟩
      else p.published userId := by
  rw [Publisher.record, List.find?_append, find_filter_userId]
  by_cases huser : push.userId = userId
  · simp [huser]
  · simp [huser, Publisher.published]

/-- A publisher that tracks all its users never forgets one. -/
theorem Publisher.Tracked.publishFenced {p : Publisher} (h : p.Tracked) {push : Push}
    (hsmall : (p.publishFenced push).Small) : (p.publishFenced push).Tracked := by
  unfold Publisher.publishFenced at hsmall ⊢
  split
  · exact h
  · next hepoch =>
    rw [if_neg hepoch] at hsmall
    split
    · exact h
    · next hlate =>
      rw [if_neg hlate] at hsmall
      have hlimit : ((push :: p.pushes).map (·.userId)).dedup.length ≤
        RESYNC_ATTEMPT_TRACKING_LIMIT := hsmall
      have hlength := h.record_length_le push
      rw [if_neg (by omega)]
      refine ⟨fun userId => ?_, h.record_nodup push⟩
      rw [Publisher.last_cons (p := p) rfl]
      show (p.record push).find? (·.userId = userId) = _
      rw [Publisher.find_record, h.published]
      split <;> rfl

/-- A rising publisher pushed nothing to a user after its last push. -/
theorem Publisher.Rising.le_last {p : Publisher} (h : p.Rising) {push last : Push}
    (hpush : push ∈ p.pushes) (hlast : p.last push.userId = some last) :
    push = last ∨ push.Before last := by
  unfold Publisher.Rising at h
  unfold Publisher.last at hlast
  generalize p.pushes = pushes at h hpush hlast
  induction pushes with
  | nil => cases hpush
  | cons head pushes ih =>
    rw [List.pairwise_cons] at h
    rw [List.find?_cons] at hlast
    by_cases hhead : head.userId = push.userId
    · simp only [hhead, decide_true, Option.some.injEq] at hlast
      subst hlast
      rcases List.mem_cons.1 hpush with heq | hold
      · exact .inl heq
      · exact .inr (h.1 push hold hhead)
    · simp only [hhead, decide_false] at hlast
      rcases List.mem_cons.1 hpush with heq | hold
      · rw [heq] at hhead
        exact absurd rfl hhead
      · exact ih h.2 hold hlast

theorem Publisher.Rising.publishFenced {p : Publisher} (h : p.Rising) (htracked : p.Tracked)
    (push : Push) : (p.publishFenced push).Rising := by
  rcases Publisher.publishFenced_cases htracked push with ⟨hsame, -⟩ | ⟨hpushes, -, -, hlast⟩
  · rwa [hsame]
  · unfold Publisher.Rising
    rw [hpushes, List.pairwise_cons]
    refine ⟨fun older holder huser => ?_, h⟩
    cases hfound : p.last push.userId with
    | none =>
      have hnone := List.find?_eq_none.1 hfound older holder
      simp [huser] at hnone
    | some last =>
      have hbefore := hlast last hfound
      rw [huser] at hfound
      rcases h.le_last holder hfound with heq | hlt
      · rwa [heq]
      · exact hlt.trans hbefore

/-! ## One user -/

/-- The newest push that is due to a user. -/
structure Due (db : Database) (due : Push) : Prop where
  epoch : due.epoch = db.config.epoch
  count : due.count = effectiveCount db due.userId
  row : ∃ account, db.accounts.lookup due.userId = some account ∧
    due.revision ≤ account.state.revision

/-- What a user is shown is the effective count, or a push of it is pending. -/
inductive Sound (db : Database) (atFirst : Nat) (userId : String) (pending : Push → Prop)
    (p : Publisher) : Prop
  | idle (hcount : effectiveCount db userId = atFirst) (hlast : p.last userId = none)
    (hpending : ∀ push, pending push → push.userId ≠ userId)
  | due (due : Push) (huser : due.userId = userId) (hdue : Due db due)
    (hpending : ∀ push, pending push → push.userId = userId → push = due ∨ push.Before due)
    (hlast : ∀ push, p.last userId = some push → push = due ∨ push.Before due)
    (hmade : p.last userId = some due ∨ pending due)

section Sound

variable {db db' : Database} {atFirst : Nat} {userId : String} {pending pending' : Push → Prop}
  {p : Publisher}

/-- Nothing is pending any more. -/
theorem Sound.shown (h : Sound db atFirst userId pending p) (hnone : ∀ push, ¬ pending push) :
    p.shown atFirst userId = effectiveCount db userId := by
  unfold Publisher.shown
  cases h with
  | idle hcount hlast hpending => simp [hlast, hcount]
  | due due huser hdue hpending hlast hmade =>
    rcases hmade with hmade | hmade
    · rw [hmade, ← huser, ← hdue.count]
      rfl
    · exact absurd hmade (hnone due)

/-- Only the pushes to the user matter. -/
theorem Sound.congr (h : Sound db atFirst userId pending p)
    (hpending : ∀ push, push.userId = userId → (pending' push ↔ pending push)) :
    Sound db atFirst userId pending' p := by
  cases h with
  | idle hcount hlast hold =>
    refine .idle hcount hlast fun push hpush huser => ?_
    exact hold push ((hpending push huser).1 hpush) huser
  | due due huser hdue hold hlast hmade =>
    refine .due due huser hdue (fun push hpush hto => ?_) hlast ?_
    · exact hold push ((hpending push hto).1 hpush) hto
    · exact hmade.imp_right (hpending due huser).2

theorem Sound.follow (h : Sound db atFirst userId pending p) (epoch : Nat) :
    Sound db atFirst userId pending (p.follow epoch) := by
  cases h with
  | idle hcount hlast hpending => exact .idle hcount hlast hpending
  | due due huser hdue hpending hlast hmade => exact .due due huser hdue hpending hlast hmade

/-- A transaction that changes neither the epoch nor the effective count of the user. -/
theorem Sound.frame (h : Sound db atFirst userId pending p)
    (hepoch : db'.config.epoch = db.config.epoch)
    (hcount : effectiveCount db' userId = effectiveCount db userId)
    (hrow : ∀ account, db.accounts.lookup userId = some account →
      ∃ account', db'.accounts.lookup userId = some account' ∧
        account.state.revision ≤ account'.state.revision) :
    Sound db' atFirst userId pending p := by
  cases h with
  | idle hold hlast hpending => exact .idle (hcount.trans hold) hlast hpending
  | due due huser hdue hpending hlast hmade =>
    subst huser
    obtain ⟨account, haccount, hrevision⟩ := hdue.row
    obtain ⟨account', haccount', hle⟩ := hrow account haccount
    refine .due due rfl ?_ hpending hlast hmade
    exact {
      epoch := hdue.epoch.trans hepoch.symm
      count := hdue.count.trans hcount.symm
      row := ⟨account', haccount', Nat.le_trans hrevision hle⟩ }

/-- A new push is due, after all that were. -/
theorem Sound.renew (h : Sound db atFirst userId pending p) (due : Push)
    (huser : due.userId = userId)
    (hdue : Due db' due) (hafter : ∀ old, Due db old → old.userId = userId → old.Before due)
    (hnew : pending' due)
    (hpending : ∀ push, pending' push → push.userId = userId → pending push ∨ push = due) :
    Sound db' atFirst userId pending' p := by
  cases h with
  | idle hcount hlast hold =>
    refine .due due huser hdue (fun push hpush hto => ?_) (fun push hpush => ?_) (.inr hnew)
    · rcases hpending push hpush hto with hpush | heq
      · exact absurd hto (hold push hpush)
      · exact .inl heq
    · rw [hlast] at hpush
      cases hpush
  | due old hold_user hold hpushes hlast hmade =>
    have hbefore := hafter old hold hold_user
    have hlift : ∀ {push : Push}, push = old ∨ push.Before old → push = due ∨ push.Before due := by
      intro push hpush
      rcases hpush with rfl | hlt
      · exact .inr hbefore
      · exact .inr (hlt.trans hbefore)
    refine .due due huser hdue (fun push hpush hto => ?_)
      (fun push hpush => hlift (hlast push hpush)) (.inr hnew)
    rcases hpending push hpush hto with hpush | heq
    · exact hlift (hpushes push hpush hto)
    · exact .inl heq

/-- A pending push is tried. -/
theorem Sound.publishFenced {push : Push} (h : Sound db atFirst userId pending p)
    (htracked : p.Tracked) (hepoch : p.publicationEpoch ≤ db.config.epoch) (hpush : pending push)
    (hsub : ∀ other, pending' other → pending other)
    (hrest : ∀ other, pending other → pending' other ∨ other = push) :
    Sound db atFirst userId pending' (p.publishFenced push) := by
  rcases Publisher.publishFenced_cases htracked push with ⟨hsame, hlate⟩ | ⟨hpushes, -, -, hafter⟩
  · rw [hsame]
    cases h with
    | idle hcount hlast hpending =>
      exact .idle hcount hlast fun other hother => hpending other (hsub other hother)
    | due due huser hdue hpending hlast hmade =>
      refine .due due huser hdue (fun other hother => hpending other (hsub other hother)) hlast ?_
      rcases hmade with hmade | hmade
      · exact .inl hmade
      · rcases hrest due hmade with hstays | heq
        · exact .inr hstays
        · -- the push that is due comes too late only after itself
          subst heq
          left
          rcases hlate with hold | ⟨last, hfound, hnot⟩
          · have := hdue.epoch
            omega
          · rw [huser] at hfound
            rcases hlast last hfound with heq | hlt
            · rw [hfound, heq]
            · exact absurd hlt hnot
  · have hcons := Publisher.last_cons hpushes
    cases h with
    | idle hcount hlast hpending =>
      refine .idle hcount ?_ fun other hother => hpending other (hsub other hother)
      rw [hcons, if_neg (hpending push hpush)]
      exact hlast
    | due due huser hdue hpending hlast hmade =>
      refine .due due huser hdue (fun other hother => hpending other (hsub other hother))
        (fun other hother => ?_) ?_
      · rw [hcons] at hother
        split at hother
        · next hto =>
          cases hother
          exact hpending push hpush hto
        · exact hlast other hother
      · by_cases heq : push = due
        · left
          rw [hcons, heq, if_pos huser]
        · rcases hmade with hmade | hmade
          · by_cases hto : push.userId = userId
            · -- the push would be after the one that is due
              rw [← hto] at hmade
              have hbefore := hafter due hmade
              rcases hpending push hpush hto with hsame | hlt
              · exact absurd hsame heq
              · exact absurd hlt hbefore.irrefl
            · left
              rw [hcons, if_neg hto]
              exact hmade
          · rcases hrest due hmade with hstays | hsame
            · exact .inr hstays
            · exact absurd hsame.symm heq

end Sound

end ChordV.Api.Unread
