import ChordV.Api.Unread

/-!
# What a transaction does to the shown counts

* `Touches` is what a webhook or a resync changes, with what it says that it changed: `Writes`.
* `Keeps` and `Renotifies` are the two kinds of configuration saves.  A save that changes the
  connection or the enabled state notifies every user with a row.
-/

namespace ChordV.Api.Unread

open Lib

/-- The count that the clients of a user should show. -/
def effectiveCount (db : Database) (userId : String) : Nat :=
  if db.config.isEnabled then (db.account userId).state.unreadCount else 0

/-- The save switches the integration off. -/
def Saved.Disables (saved : Saved) : Prop := saved.wasEnabled = true ∧ saved.nowEnabled = false

/-- The save switches the integration on. -/
def Saved.Enables (saved : Saved) : Prop := saved.wasEnabled = false ∧ saved.nowEnabled = true

/-! ## Transactions -/

/-- What a webhook or a resync writes, and what it says that it wrote. -/
structure Writes (config : Config) (before after : UnreadState) (change : UnreadTotalChange) :
    Prop where
  previous : change.previous = before.unreadCount
  next : change.next = after.unreadCount
  epoch : change.epoch = config.epoch
  revision : before.revision ≤ after.revision
  publish : after.unreadCount ≠ before.unreadCount → change.publish = config.isEnabled
  rises : after.unreadCount ≠ before.unreadCount →
    before.revision < after.revision ∧ change.revision = after.revision

theorem account_setAccount (db : Database) (userId other : String) (account : Account) :
    (db.setAccount userId account).account other =
      if other = userId then account else db.account other := by
  unfold Database.account Database.setAccount
  rw [Table.lookup_insert_ite]
  split <;> rfl

theorem applyUnreadChange_writes (config : Config) (account : Account) (change : UnreadChange)
    (eventAt : Option Int) (now : Int) :
    Writes config account.state (account.applyUnreadChange config change eventAt now).1.state
      (account.applyUnreadChange config change eventAt now).2 := by
  unfold Account.applyUnreadChange
  cases eventAt with
  | none =>
    exact {
      previous := rfl
      next := rfl
      epoch := rfl
      revision := Nat.le_succ _
      publish := fun _ => rfl
      rises := fun h => absurd rfl h }
  | some eventAt =>
    dsimp only
    split
    · exact {
        previous := rfl
        next := rfl
        epoch := rfl
        revision := Nat.le_refl _
        publish := fun h => absurd rfl h
        rises := fun h => absurd rfl h }
    · exact {
        previous := rfl
        next := rfl
        epoch := rfl
        revision := Nat.le_succ _
        publish := fun _ => rfl
        rises := fun _ => ⟨Nat.lt_succ_self _, rfl⟩ }

theorem resync_writes (config : Config) (account : Account) (answer : Answer) (now : Int) :
    Writes config account.state (account.resync config answer now).1.state
      (account.resync config answer now).2 where
  previous := rfl
  next := rfl
  epoch := rfl
  revision := Nat.le_succ _
  publish := fun _ => rfl
  rises := fun _ => ⟨Nat.lt_succ_self _, rfl⟩

/-- What a transaction on one user changes. -/
structure Touches (db db' : Database) (userId : String) (change : UnreadTotalChange) : Prop where
  config : db'.config = db.config
  others : ∀ other, other ≠ userId → db'.accounts.lookup other = db.accounts.lookup other
  row : db'.accounts.lookup userId = some (db'.account userId)
  writes : Writes db.config (db.account userId).state (db'.account userId).state change

theorem touches_setAccount {db : Database} {userId : String} {account : Account}
    {change : UnreadTotalChange} (eventIds : List String)
    (h : Writes db.config (db.account userId).state account.state change) :
    Touches db { db.setAccount userId account with eventIds } userId change where
  config := rfl
  others := fun _ hother => AList.lookup_insert_ne hother
  row := by
    show (db.accounts.insert userId account).lookup userId =
      some (((db.accounts.insert userId account).lookup userId).getD {})
    rw [AList.lookup_insert]
    rfl
  writes := by
    show Writes db.config _ ((db.setAccount userId account).account userId).state change
    rw [account_setAccount, if_pos rfl]
    exact h

/-- Nothing that is shown changes. -/
structure Same (db db' : Database) : Prop where
  config : db'.config = db.config
  accounts : ∀ userId, db'.account userId = db.account userId
  rows : ∀ {userId account}, db.accounts.lookup userId = some account →
    db'.accounts.lookup userId = some account

theorem applyUnreadChange_cases (db : Database) (eventId : String) (change : UnreadChange)
    (eventAt : Option Int) (generation : Nat) (now : Int) :
    (∃ result, (applyUnreadChange db eventId change eventAt generation now).2 = .changed result ∧
      Touches db (applyUnreadChange db eventId change eventAt generation now).1
        change.externalUserId result) ∨
    applyUnreadChange db eventId change eventAt generation now = (db, .stale) ∨
    applyUnreadChange db eventId change eventAt generation now = (db, .duplicate) := by
  unfold applyUnreadChange
  split
  · exact .inr (.inl rfl)
  · split
    · exact .inr (.inr rfl)
    · exact .inl ⟨_, rfl, touches_setAccount _ (applyUnreadChange_writes _ _ _ _ _)⟩

theorem resyncUnread_cases (db : Database) (userId : String) (credentials : Credentials)
    (before : Before) (answer : Answer) (now : Int) :
    (∃ result, (resyncUnread db userId credentials before answer now).2 = some result ∧
      Touches db (resyncUnread db userId credentials before answer now).1 userId result) ∨
    (resyncUnread db userId credentials before answer now).2 = none ∧
      Same db (resyncUnread db userId credentials before answer now).1 := by
  unfold resyncUnread
  dsimp only
  split
  · refine .inr ⟨rfl, rfl, fun other => ?_, fun {other account} hrow => ?_⟩
    · rw [account_setAccount]
      split
      · next hother => rw [hother]
      · rfl
    · show (db.accounts.insert userId (db.account userId)).lookup other = some account
      rw [Table.lookup_insert_ite]
      split
      · next hother =>
        subst hother
        simp [Database.account, hrow]
      · exact hrow
  · exact .inl ⟨_, rfl, touches_setAccount _ (resync_writes _ _ _ _)⟩

/-- What a save that counts as a change does to a user with a row. -/
structure Renotifies (db db' : Database) (saved : Saved) : Prop where
  epoch : db'.config.epoch = db.config.epoch + 1
  absent : ∀ userId, db.accounts.lookup userId = none → db'.accounts.lookup userId = none
  present : ∀ userId account, db.accounts.lookup userId = some account →
    ∃ account' item, db'.accounts.lookup userId = some account' ∧ item ∈ saved.withUnread ∧
      item.userId = userId ∧ item.revision ≤ account'.state.revision ∧
      (saved.push item).count = effectiveCount db' userId
  named : ∀ item ∈ saved.withUnread, ∃ account, db.accounts.lookup item.userId = some account
  single : ∀ item ∈ saved.withUnread, ∀ item' ∈ saved.withUnread, item.userId = item'.userId →
    item = item'
  /-- Only an enabling save publishes counts. -/
  bright : ∀ item ∈ saved.withUnread, (saved.push item).count ≠ 0 → saved.Enables

/-- What a save leaves alone when it counts as none. -/
structure Keeps (db db' : Database) (saved : Saved) : Prop where
  epoch : db'.config.epoch = db.config.epoch
  enabled : db'.config.isEnabled = db.config.isEnabled
  accounts : db'.accounts = db.accounts
  silent : saved.withUnread = []

theorem applyConfigUpdate_epoch {current next : Config} {input : Update}
    (h : applyConfigUpdate current input = some next) : next.epoch = current.epoch := by
  unfold applyConfigUpdate at h
  dsimp only at h
  split at h
  · cases h
  · split at h
    · cases h
    · cases h
      rfl

/-- The columns of the epoch and the generation decide nothing. -/
theorem isEnabled_bump (config : Config) (generation epoch : Nat) :
    { config with generation, epoch }.isEnabled = config.isEnabled := rfl

/-- The rows all change alike, and every user with a row is notified. -/
theorem renotifies_of_map {db db' : Database} {saved : Saved} (bump : Nat) (f : Account → Account)
    (hepoch : db'.config.epoch = db.config.epoch + 1)
    (haccounts : ∀ userId, db'.accounts.lookup userId = (db.accounts.lookup userId).map f)
    (hwith : saved.withUnread = db.accounts.pairs.map fun (userId, account) =>
      { userId, unreadCount := account.state.unreadCount
        revision := account.state.revision + bump })
    (hrevision : ∀ account : Account, account.state.revision + bump ≤ (f account).state.revision)
    (hcount : ∀ account : Account,
      (if saved.nowEnabled && !saved.connectionChanged then account.state.unreadCount else 0) =
        if db'.config.isEnabled then (f account).state.unreadCount else 0)
    (hbright : saved.nowEnabled = true → saved.connectionChanged = false → saved.Enables) :
    Renotifies db db' saved := by
  have hitem : ∀ item ∈ saved.withUnread, ∃ account,
      db.accounts.lookup item.userId = some account ∧
        item = ⟨item.userId, account.state.unreadCount, account.state.revision + bump⟩ := by
    intro item hmem
    rw [hwith] at hmem
    obtain ⟨⟨userId, account⟩, hrow, rfl⟩ := List.mem_map.1 hmem
    exact ⟨account, Table.mem_pairs.1 hrow, rfl⟩
  exact {
    epoch := hepoch
    absent := fun userId hnone => by simp [haccounts, hnone]
    present := fun userId account hrow => by
      refine ⟨f account, ⟨userId, account.state.unreadCount, account.state.revision + bump⟩,
        by simp [haccounts, hrow], ?_, rfl, hrevision account, ?_⟩
      · rw [hwith]
        exact List.mem_map.2 ⟨(userId, account), Table.mem_pairs.2 hrow, rfl⟩
      · have haccount : db'.account userId = f account := by
          simp [Database.account, haccounts, hrow]
        show (if saved.nowEnabled && !saved.connectionChanged then _ else 0) = _
        rw [hcount, effectiveCount, haccount]
    named := fun item hmem => by
      obtain ⟨account, hrow, -⟩ := hitem item hmem
      exact ⟨account, hrow⟩
    single := fun item hmem item' hmem' huser => by
      obtain ⟨account, hrow, heq⟩ := hitem item hmem
      obtain ⟨account', hrow', heq'⟩ := hitem item' hmem'
      rw [huser, hrow'] at hrow
      cases hrow
      rw [heq, heq', huser]
    bright := fun item _ hne => by
      by_cases hlit : (saved.nowEnabled && !saved.connectionChanged) = true
      · simp only [Bool.and_eq_true, Bool.not_eq_true'] at hlit
        exact hbright hlit.1 hlit.2
      · exact absurd (by simp [Saved.push, hlit]) hne }

theorem updateAdminConfig_cases {db db' : Database} {input : Update} {saved : Saved}
    (h : updateAdminConfig db input = some (db', saved)) :
    saved.next = db'.config ∧ saved.wasEnabled = db.config.isEnabled ∧
      saved.nowEnabled = db'.config.isEnabled ∧ (Keeps db db' saved ∨ Renotifies db db' saved) := by
  unfold updateAdminConfig at h
  simp only [Option.bind_eq_bind, Option.bind_eq_some_iff] at h
  obtain ⟨updated, hupdated, h⟩ := h
  have hepoch := applyConfigUpdate_epoch hupdated
  generalize hchanged : (db.config.baseUrl != updated.baseUrl ||
    db.config.clientId != updated.clientId) = changed at h
  generalize hwas : db.config.isEnabled = was at h
  generalize hnow : updated.isEnabled = now at h
  cases h
  refine ⟨rfl, rfl, hnow.symm, ?_⟩
  cases changed with
  | true =>
    refine .inr (renotifies_of_map 1 Account.reset (by simp) (fun userId => ?_)
      (by simp) (fun account => Nat.le_refl _) (fun account => ?_) fun _ h => nomatch h)
    · exact Table.lookup_mapRows _ _ _
    · simp [Account.reset]
  | false =>
    cases was with
    | true =>
      cases now with
      | true =>
        exact .inl {
          epoch := by simp [hepoch]
          enabled := by rw [isEnabled_bump, hnow, hwas]
          accounts := by simp
          silent := by simp }
      | false =>
        refine .inr (renotifies_of_map 0 id (by simp) (fun userId => ?_)
          (by simp) (fun account => Nat.le_refl _) (fun account => ?_) fun h => nomatch h)
        · simp
        · simp [isEnabled_bump, hnow]
    | false =>
      cases now with
      | true =>
        refine .inr (renotifies_of_map 0 Account.reopened (by simp)
          (fun userId => ?_) (by simp) (fun account => Nat.le_succ _) (fun account => ?_)
          fun _ _ => ⟨rfl, rfl⟩)
        · exact Table.lookup_mapRows _ _ _
        · simp [isEnabled_bump, hnow, Account.reopened]
      | false =>
        exact .inl {
          epoch := by simp [hepoch]
          enabled := by rw [isEnabled_bump, hnow, hwas]
          accounts := by simp
          silent := by simp }

end ChordV.Api.Unread
