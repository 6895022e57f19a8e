import Mathlib.Algebra.Ring.Nat
import ChordV.Lib.Table

/-!
# Unread counts of the support integration

The transactions and the publication of
`apps/api/src/modules/support/support-integration.service.ts`.

* Webhooks, resyncs and saves of the configuration each write in one transaction, under the
  lock of the settings row.  The two that touch a user also lock the row of the user.
* The rows of a user are an `Account`.  A user without one has never been written.
* `createMany` leaves a row that exists alone, so it is `Database.account`.
* Times are milliseconds.  A counter is not bounded, and it is not negative, so
  `updateAdminConfig` notifies all users with a row.
* The texts in an update are given normalized, and a text that is stored is not empty.
* What is scheduled in the background is left out: a resync may run at any time.
-/

namespace ChordV.Api.Unread

open Lib

/-! ## Configuration -/

/-- What a request to the support system needs. -/
structure Credentials where
  baseUrl : String
  clientId : String
  clientSecret : String
deriving DecidableEq, Repr

/-- `StoredSupportIntegrationConfig`. -/
structure Config where
  baseUrl : Option String := none
  clientId : Option String := none
  clientSecret : Option String := none
  webhookSecret : Option String := none
  enabled : Bool := false
  /-- The connection: it rises with every change of the address or the client id. -/
  generation : Nat := 0
  /-- It rises with every change of the connection or of whether the integration is enabled. -/
  epoch : Nat := 0
deriving DecidableEq, Repr

/-- The credentials, if all three are set. -/
def Config.readCredentials (config : Config) : Option Credentials := do
  let baseUrl ← config.baseUrl
  let clientId ← config.clientId
  let clientSecret ← config.clientSecret
  return { baseUrl, clientId, clientSecret }

/-- `isStoredSupportIntegrationEnabled`. -/
def Config.isEnabled (config : Config) : Bool :=
  config.enabled && config.readCredentials.isSome && config.webhookSecret.isSome

/-! ## Rows -/

/-- `SupportUnreadState`. -/
structure UnreadState where
  unreadCount : Nat := 0
  sourceAt : Option Int := none
  snapshotUntil : Option Int := none
  syncedAt : Option Int := none
  requestsComplete : Bool := true
  revision : Nat := 0
deriving DecidableEq, Repr

/-- `SupportRequestUnread`. -/
structure RequestUnread where
  unreadCount : Nat
  eventAt : Int
deriving DecidableEq, Repr

/-- The rows of a user. -/
structure Account where
  state : UnreadState := {}
  requests : Table String RequestUnread := ∅

/-- The configuration, the users and the events. -/
structure Database where
  config : Config := {}
  accounts : Table String Account := ∅
  /-- `AchordConnectWebhookEvent`. -/
  eventIds : List String := []

/-- The rows of the user; none is the default. -/
def Database.account (db : Database) (userId : String) : Account :=
  (db.accounts.lookup userId).getD {}

/-- Writes the rows of the user. -/
def Database.setAccount (db : Database) (userId : String) (account : Account) : Database :=
  { db with accounts := db.accounts.insert userId account }

/-! ## Webhooks -/

/-- `AchordConnectUnreadChange`. -/
structure UnreadChange where
  externalUserId : String
  requestId : String
  unreadCount : Nat
  contactUnreadCount : Option Nat
deriving DecidableEq, Repr

/-- `UnreadTotalChange`. -/
structure UnreadTotalChange where
  previous : Nat
  next : Nat
  revision : Nat
  publish : Bool
  epoch : Nat
  needsResync : Bool := false
deriving DecidableEq, Repr

/-- What a webhook writes into the state of the user. -/
inductive Data where
  | unsynced
  | total (unreadCount : Nat)
  | provisional (unreadCount : Nat)
deriving DecidableEq, Repr

/-- The `data` of the update. -/
def Data.write (eventAt now : Int) (state : UnreadState) : Data → UnreadState
  | .unsynced => { state with syncedAt := none }
  | .total unreadCount => { state with
      unreadCount, sourceAt := some eventAt, syncedAt := some now, requestsComplete := false }
  | .provisional unreadCount => { state with unreadCount }

/-- The same request had another count at the same instant. -/
def sameInstantRequestConflict (account : Account) (change : UnreadChange) (eventAt : Int) : Bool :=
  (account.requests.lookup change.requestId).any fun row =>
    row.eventAt = eventAt && row.unreadCount != change.unreadCount

/-- The counts of the requests after an event.  A later count stays. -/
def upsertRequest (account : Account) (change : UnreadChange) (eventAt : Int) :
    Table String RequestUnread :=
  if (account.requests.lookup change.requestId).all (·.eventAt < eventAt) then
    account.requests.insert change.requestId { unreadCount := change.unreadCount, eventAt }
  else account.requests

/-- Another request has a count of the same instant or later, or the same request a later one. -/
def concurrentRequests (requests : Table String RequestUnread) (change : UnreadChange)
    (eventAt : Int) : List (String × RequestUnread) :=
  requests.pairs.filter fun (requestId, row) =>
    if requestId = change.requestId then eventAt < row.eventAt else eventAt ≤ row.eventAt

/-- What an event that is not stale writes, once its request is recorded. -/
def decideData (account : Account) (change : UnreadChange) (eventAt : Int) : Data :=
  let state := account.state
  let requests := upsertRequest account change eventAt
  if state.snapshotUntil.any (eventAt < ·) || sameInstantRequestConflict account change eventAt then
    .unsynced
  else
    match change.contactUnreadCount with
    | some contactUnreadCount =>
      if (state.sourceAt.any (· = eventAt) && state.unreadCount != contactUnreadCount) ||
          !(concurrentRequests requests change eventAt).isEmpty then
        .unsynced
      else .total contactUnreadCount
    | none =>
      if state.requestsComplete then .provisional (requests.pairs.map (·.2.unreadCount)).sum
      else .unsynced

/-- An event before the last total is part of it. -/
def Account.isStale (account : Account) (eventAt : Int) : Bool :=
  account.state.sourceAt.any (eventAt < ·)

/-- The part of `applyUnreadChange` under the lock of the user. -/
def Account.applyUnreadChange (config : Config) (account : Account) (change : UnreadChange)
    (eventAt : Option Int) (now : Int) : Account × UnreadTotalChange :=
  let state := account.state
  let unchanged : UnreadTotalChange :=
    { previous := state.unreadCount, next := state.unreadCount, revision := state.revision,
      publish := false, epoch := config.epoch }
  match eventAt with
  | none =>
    ({ account with state := { state with syncedAt := none, revision := state.revision + 1 } },
      { unchanged with
        revision := state.revision + 1, publish := config.isEnabled, needsResync := true })
  | some eventAt =>
    if account.isStale eventAt then (account, unchanged)
    else
      let data := decideData account change eventAt
      let written := { data.write eventAt now state with revision := state.revision + 1 }
      ({ state := written, requests := upsertRequest account change eventAt },
        { previous := state.unreadCount, next := written.unreadCount,
          revision := state.revision + 1
          publish := config.isEnabled, epoch := config.epoch,
          needsResync := match data with | .total _ => false | _ => true })

/-- What became of an event. -/
inductive Applied where
  | stale
  | duplicate
  | changed (change : UnreadTotalChange)
deriving DecidableEq, Repr

/-- `applyUnreadChange`.  The generation is that of the connection whose signature was verified. -/
def applyUnreadChange (db : Database) (eventId : String) (change : UnreadChange)
    (eventAt : Option Int) (generation : Nat) (now : Int) : Database × Applied :=
  if db.config.generation ≠ generation then (db, .stale)
  else if eventId ∈ db.eventIds then (db, .duplicate)
  else
    let (account, result) :=
      (db.account change.externalUserId).applyUnreadChange db.config change eventAt now
    ({ db.setAccount change.externalUserId account with eventIds := eventId :: db.eventIds },
      .changed result)

/-! ## Resyncs -/

/-- How long the query may take, in milliseconds. -/
def RESYNC_TIMEOUT_MS : Int := 3000

/-- How far the snapshot is dated back. -/
def SNAPSHOT_WATERMARK_MARGIN_MS : Int := RESYNC_TIMEOUT_MS + 1000

/-- What `resyncUnread` reads before it asks. -/
structure Before where
  revision : Nat
  generation : Nat
  epoch : Nat
deriving DecidableEq, Repr

/-- What is read before the query. -/
def readBefore (db : Database) (userId : String) : Before where
  revision := (db.account userId).state.revision
  generation := db.config.generation
  epoch := db.config.epoch

/-- The answer of the support system, with its header `Date`. -/
structure Answer where
  unreadCount : Nat
  serverTime : Int
deriving DecidableEq, Repr

/-- Something was written since, or the connection or the enabled state has changed. -/
def outdated (config : Config) (state : UnreadState) (credentials : Credentials) (before : Before) :
    Bool :=
  state.revision != before.revision || config.generation != before.generation ||
    config.epoch != before.epoch ||
    config.readCredentials.map (·.baseUrl) != some credentials.baseUrl ||
    config.readCredentials.map (·.clientId) != some credentials.clientId

/-- The rows after the answer of the query. -/
def Account.resync (config : Config) (account : Account) (answer : Answer) (now : Int) :
    Account × UnreadTotalChange :=
  let state := account.state
  let snapshotWatermark := answer.serverTime - SNAPSHOT_WATERMARK_MARGIN_MS
  let written := { state with
    unreadCount := answer.unreadCount
    sourceAt := some ((state.sourceAt.map (max snapshotWatermark)).getD snapshotWatermark)
    snapshotUntil := some (answer.serverTime + 1000)
    syncedAt := some now
    requestsComplete := false
    revision := state.revision + 1 }
  ({ account with state := written },
    { previous := state.unreadCount, next := answer.unreadCount, revision := state.revision + 1,
      publish := config.isEnabled, epoch := config.epoch })

/-- The transaction of `resyncUnread`. -/
def resyncUnread (db : Database) (userId : String) (credentials : Credentials) (before : Before)
    (answer : Answer) (now : Int) : Database × Option UnreadTotalChange :=
  let account := db.account userId
  if outdated db.config account.state credentials before then (db.setAccount userId account, none)
  else
    let (account, result) := account.resync db.config answer now
    (db.setAccount userId account, some result)

/-! ## Configuration saves -/

/-- `UpdateAdminSupportIntegrationConfigInputDto`.  A field that is absent stays as it is. -/
structure Update where
  baseUrl : Option (Option String) := none
  clientId : Option (Option String) := none
  clientSecret : Option (Option String) := none
  webhookSecret : Option (Option String) := none
  enabled : Option Bool := none
deriving DecidableEq, Repr

/-- `applyConfigUpdate`: `none` is an exception. -/
def applyConfigUpdate (current : Config) (input : Update) : Option Config :=
  let next := { current with
    baseUrl := input.baseUrl.getD current.baseUrl
    clientId := input.clientId.getD current.clientId
    clientSecret := input.clientSecret.getD current.clientSecret
    webhookSecret := input.webhookSecret.getD current.webhookSecret
    enabled := input.enabled.getD current.enabled }
  let switchingConnection := current.baseUrl.isSome && current.clientId.isSome &&
    (current.baseUrl != next.baseUrl || current.clientId != next.clientId)
  if switchingConnection &&
      (!(input.webhookSecret.any (·.isSome)) || next.webhookSecret = current.webhookSecret) then
    none
  else if next.enabled && (next.readCredentials.isNone || next.webhookSecret.isNone) then none
  else some next

/-- A user who is told of the configuration. -/
structure Notified where
  userId : String
  unreadCount : Nat
  revision : Nat
deriving DecidableEq, Repr

/-- What a save of the configuration has committed. -/
structure Saved where
  next : Config
  connectionChanged : Bool
  wasEnabled : Bool
  nowEnabled : Bool
  withUnread : List Notified
deriving DecidableEq, Repr

/-- Enabled again: events may have been missed. -/
def Account.reopened (account : Account) : Account :=
  { account with
    state := { account.state with syncedAt := none, revision := account.state.revision + 1 } }

/-- Another connection: nothing of the old one is left. -/
def Account.reset (account : Account) : Account where
  state := { revision := account.state.revision + 1 }

/-- The transaction of `updateAdminConfig`: `none` is an exception. -/
def updateAdminConfig (db : Database) (input : Update) : Option (Database × Saved) := do
  let current := db.config
  let updated ← applyConfigUpdate current input
  let connectionChanged :=
    current.baseUrl != updated.baseUrl || current.clientId != updated.clientId
  let wasEnabled := current.isEnabled
  let nowEnabled := updated.isEnabled
  let next := { updated with
    generation := if connectionChanged then current.generation + 1 else updated.generation
    epoch := if connectionChanged || wasEnabled != nowEnabled then current.epoch + 1
      else updated.epoch }
  let bump := if connectionChanged then 1 else 0
  let withUnread := if connectionChanged || wasEnabled != nowEnabled then
      db.accounts.pairs.map fun (userId, account) =>
        { userId, unreadCount := account.state.unreadCount
          revision := account.state.revision + bump }
    else []
  let accounts :=
    if connectionChanged then db.accounts.mapRows fun _ account => account.reset
    else if nowEnabled && !wasEnabled then db.accounts.mapRows fun _ account => account.reopened
    else db.accounts
  return ({ db with config := next, accounts },
    { next, connectionChanged, wasEnabled, nowEnabled, withUnread })

/-! ## Publication -/

/-- A push to the clients of a user, with what it was fenced by. -/
structure Push where
  userId : String
  count : Nat
  epoch : Nat
  revision : Nat
deriving DecidableEq, Repr

/-- The newest push to a user. -/
structure PublishedRevision where
  userId : String
  epoch : Nat
  revision : Nat
deriving DecidableEq, Repr

/-- How many users are kept. -/
def RESYNC_ATTEMPT_TRACKING_LIMIT : Nat := 10000

/-- The publication state of the process.  It is lost with the process. -/
structure Publisher where
  publicationEpoch : Nat := 0
  /-- In the order of their insertion. -/
  publishedRevisions : List PublishedRevision := []
  /-- What was pushed, the newest first. -/
  pushes : List Push := []

/-- The newest push to the user. -/
def Publisher.published (p : Publisher) (userId : String) : Option PublishedRevision :=
  p.publishedRevisions.find? (·.userId = userId)

/-- The position of a push is recorded after all others. -/
def Publisher.record (p : Publisher) (push : Push) : List PublishedRevision :=
  p.publishedRevisions.filter (·.userId ≠ push.userId) ++
    [{ userId := push.userId, epoch := push.epoch, revision := push.revision }]

/-- Pushes, unless a newer push has been made. -/
def Publisher.publishFenced (p : Publisher) (push : Push) : Publisher :=
  if push.epoch < p.publicationEpoch then p
  else if (p.published push.userId).any fun published =>
      push.epoch < published.epoch ||
        (push.epoch = published.epoch && push.revision ≤ published.revision) then p
  else
    { p with
      publishedRevisions :=
        if (p.record push).length > RESYNC_ATTEMPT_TRACKING_LIMIT then (p.record push).tail
        else p.record push
      pushes := push :: p.pushes }

/-- Pushes a total that has changed. -/
def Publisher.publishIfChanged (p : Publisher) (userId : String) (change : UnreadTotalChange) :
    Publisher :=
  let p := { p with publicationEpoch := max p.publicationEpoch change.epoch }
  if change.previous = change.next || !change.publish then p
  else p.publishFenced
    { userId, count := change.next, epoch := change.epoch, revision := change.revision }

/-- The push to a user after a save. -/
def Saved.push (saved : Saved) (item : Notified) : Push where
  userId := item.userId
  count := if saved.nowEnabled && !saved.connectionChanged then item.unreadCount else 0
  epoch := saved.next.epoch
  revision := item.revision

/-- Pushes to all users after a save. -/
def Publisher.afterConfigSaved (p : Publisher) (saved : Saved) : Publisher :=
  (saved.withUnread.map saved.push).foldl Publisher.publishFenced
    { p with publicationEpoch := max p.publicationEpoch saved.next.epoch }

end ChordV.Api.Unread
