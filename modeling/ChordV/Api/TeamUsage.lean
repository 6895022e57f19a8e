import ChordV.Api.Metering
import ChordV.Api.Subscriptions
import ChordV.Api.TrafficBytes
import ChordV.Lib.Machine

/-!
# The used bytes of a team subscription

What changes the used bytes of one team subscription or its ledger: usage batches, traffic
resets, renewals, plan changes and updates, from `agent-direct-metering.ts` and
`admin-subscription.service.ts`.

* The figures in GB are doubles here, as the columns are.
* Every operation reads and writes under the usage lock of the subscription, and so it is one
  step.  What it throws leaves the state as it was: `none`.
* A batch is given by what it bills to the subscription.  `deltaBytes_foldl_addUsage` says that
  this is the sum which the batch adds to the subscription.
-/

namespace ChordV.Api.TeamUsage

open Lib Lib.Js
open Admin (resolveSubscriptionState)

/-! ## Rows -/

/-- A column of type `BIGINT`. -/
def column (bytes : Nat) : Option Nat := if bytes < 2 ^ 63 then some bytes else none

theorem column_eq_some {bytes bytes' : Nat} (h : column bytes = some bytes') : bytes' = bytes := by
  unfold column at h
  split_ifs at h
  exact (Option.some.inj h).symm

/-- One row of `TrafficLedger`.  Its team and its subscription are those at hand. -/
structure Row where
  userId : String
  nodeId : String
  usedTrafficBytes : Nat
  usedTrafficGb : Double
  recordedAt : Nat
deriving DecidableEq

/-- A team subscription with its ledger. -/
structure TeamSubscription where
  planId : String
  totalTrafficGb : Double
  usedTrafficGb : Double
  remainingTrafficGb : Double
  totalTrafficBytes : Nat
  usedTrafficBytes : Nat
  expireAt : Nat
  state : SubscriptionState
  renewable : Bool
  ledger : List Row := []
deriving DecidableEq

/-- The bytes in some rows. -/
def bytesOf (rows : List Row) : Nat := (rows.map (·.usedTrafficBytes)).sum

/-! ## Metering -/

/-- What a batch bills for one binding of the subscription.  Such bindings have a user and the
team. -/
structure MemberSample where
  userId : String
  nodeId : String
  deltaBytes : Nat
deriving DecidableEq

/-- The row of the ledger for a sample. -/
def MemberSample.row (sampledAt : Nat) (sample : MemberSample) : Option Row := do
  let usedTrafficGb ← trafficBytesToGbNumber sample.deltaBytes
  let usedTrafficBytes ← column sample.deltaBytes
  return { userId := sample.userId, nodeId := sample.nodeId, usedTrafficBytes, usedTrafficGb
           recordedAt := sampledAt }

namespace TeamSubscription

/-- The total: the bytes, or the figure while they are zero. -/
def totalBytes (s : TeamSubscription) : Nat :=
  if 0 < s.totalTrafficBytes then s.totalTrafficBytes else trafficGbNumberToBytes s.totalTrafficGb

/-- What is used: the bytes, or the figure while they are zero. -/
def currentUsedBytes (s : TeamSubscription) : Nat :=
  if 0 < s.usedTrafficBytes then s.usedTrafficBytes else trafficGbNumberToBytes s.usedTrafficGb

/-- The state after a batch. -/
def nextState (s : TeamSubscription) (sampledAt remainingBytes : Nat) : SubscriptionState :=
  if s.state ≠ .active then s.state
  else if s.expireAt ≤ sampledAt then .expired
  else if remainingBytes = 0 then .exhausted
  else .active

end TeamSubscription

/-- `applyDirectBatch` for one subscription. -/
def applyDirectBatch (sampledAt : Nat) (samples : List MemberSample) (s : TeamSubscription) :
    Option TeamSubscription :=
  let billed := samples.filter (0 < ·.deltaBytes)
  if billed.isEmpty then some s
  else do
    let nextUsedBytes := s.currentUsedBytes + (billed.map (·.deltaBytes)).sum
    let remainingBytes := s.totalBytes - nextUsedBytes
    let rows ← billed.mapM (·.row sampledAt)
    let totalTrafficBytes ← column s.totalBytes
    let usedTrafficBytes ← column nextUsedBytes
    let usedTrafficGb ← trafficBytesToGbNumber nextUsedBytes
    let remainingTrafficGb ← trafficBytesToGbNumber remainingBytes
    return { s with
      totalTrafficBytes, usedTrafficBytes, usedTrafficGb, remainingTrafficGb
      state := s.nextState sampledAt remainingBytes, ledger := s.ledger ++ rows }

/-! ## Resets -/

/-- The order in which the database adds up some rows is its own. -/
def scanned (order rows : List Row) : List Row := if order.isPerm rows then order else rows

/-- The sum of the figures of some rows. -/
def sumGb (rows : List Row) : Option Double :=
  rows.foldlM (fun sum row => sum.add row.usedTrafficGb) .zero

/-- `resetSubscriptionTrafficCounters`, from its transaction on: of one member, or of the team. -/
def resetSubscriptionTrafficCounters (targetUserId : Option String) (order : List Row)
    (totalTrafficGb : Option Double) (expireAt : Option Nat)
    (statePreference : Option SubscriptionState) (now : Nat) (s : TeamSubscription) :
    Option TeamSubscription := do
  let totalTrafficGb := totalTrafficGb.getD s.totalTrafficGb
  let expireAt := expireAt.getD s.expireAt
  let ledger := match targetUserId with
    | some userId => s.ledger.filter (·.userId ≠ userId)
    | none => []
  let usedTrafficGb ← if targetUserId.isSome then sumGb (scanned order ledger) else some .zero
  let usedTrafficBytes ← column (if targetUserId.isSome then bytesOf ledger else 0)
  let totalTrafficBytes ← column (trafficGbNumberToBytes totalTrafficGb)
  let remainingTrafficGb := totalTrafficGb.monus usedTrafficGb
  let preferred := statePreference.getD (if s.state = .paused then .paused else .active)
  return { s with
    totalTrafficGb, usedTrafficGb, remainingTrafficGb, totalTrafficBytes, usedTrafficBytes
    expireAt, ledger
    state := resolveSubscriptionState preferred remainingTrafficGb.units expireAt now }

/-- `resetSubscriptionTraffic`.  A team-wide reset is refused here, and so is one of somebody who
is not in the team. -/
def resetSubscriptionTraffic (userId : Option String) (isMember : Bool) (order : List Row)
    (now : Nat) (s : TeamSubscription) : Option TeamSubscription :=
  match userId with
  | some userId =>
    if isMember then
      resetSubscriptionTrafficCounters (some userId) order none none none now s
    else none
  | none => none

/-! ## Administration -/

/-- Renews the subscription, with or without a reset. -/
def renewSubscription (totalTrafficGb : Option Double) (expireAt : Option Nat)
    (resetTraffic : Bool) (now : Nat) (s : TeamSubscription) : Option TeamSubscription :=
  if resetTraffic then
    resetSubscriptionTrafficCounters none [] totalTrafficGb expireAt (some .active) now s
  else do
    let expireAt := expireAt.getD s.expireAt
    let totalTrafficGb := totalTrafficGb.getD s.totalTrafficGb
    let remainingTrafficGb := totalTrafficGb.monus s.usedTrafficGb
    let totalTrafficBytes ← column (trafficGbNumberToBytes totalTrafficGb)
    return { s with
      totalTrafficGb, remainingTrafficGb, totalTrafficBytes, expireAt
      state := resolveSubscriptionState .active remainingTrafficGb.units expireAt now }

/-- What a plan change reads of a plan. -/
structure Plan where
  planId : String
  isActive : Bool
  isTeamPlan : Bool
  totalTrafficGb : Double
  renewable : Bool
deriving DecidableEq

/-- Moves the subscription to another plan of teams. -/
def changeSubscriptionPlan (plan : Plan) (totalTrafficGb : Option Double) (expireAt : Option Nat)
    (now : Nat) (s : TeamSubscription) : Option TeamSubscription :=
  if !plan.isActive || !plan.isTeamPlan then none
  else do
    let expireAt := expireAt.getD s.expireAt
    let totalTrafficGb := totalTrafficGb.getD plan.totalTrafficGb
    let remainingTrafficGb := totalTrafficGb.monus s.usedTrafficGb
    let totalTrafficBytes ← column (trafficGbNumberToBytes totalTrafficGb)
    return { s with
      planId := plan.planId, totalTrafficGb, remainingTrafficGb, totalTrafficBytes, expireAt
      renewable := plan.renewable
      state := resolveSubscriptionState .active remainingTrafficGb.units expireAt now }

/-- Writes the figures anew, given or not. -/
def updateSubscription (totalTrafficGb usedTrafficGb : Option Double)
    (state : Option SubscriptionState) (expireAt : Option Nat) (now : Nat)
    (s : TeamSubscription) : Option TeamSubscription := do
  let totalTrafficGb := totalTrafficGb.getD s.totalTrafficGb
  let usedTrafficGb := usedTrafficGb.getD s.usedTrafficGb
  let expireAt := expireAt.getD s.expireAt
  let remainingTrafficGb := totalTrafficGb.monus usedTrafficGb
  let totalTrafficBytes ← column (trafficGbNumberToBytes totalTrafficGb)
  let usedTrafficBytes ← column (trafficGbNumberToBytes usedTrafficGb)
  return { s with
    totalTrafficGb, usedTrafficGb, remainingTrafficGb, totalTrafficBytes, usedTrafficBytes
    expireAt
    state := resolveSubscriptionState (state.getD s.state) remainingTrafficGb.units expireAt now }

/-! ## Runs -/

/-- What happens to the subscription. -/
inductive Event where
  | batch (sampledAt : Nat) (samples : List MemberSample)
  | resetTraffic (userId : Option String) (isMember : Bool) (order : List Row) (now : Nat)
  | renew (totalTrafficGb : Option Double) (expireAt : Option Nat) (resetTraffic : Bool)
      (now : Nat)
  | changePlan (plan : Plan) (totalTrafficGb : Option Double) (expireAt : Option Nat) (now : Nat)
  | update (totalTrafficGb usedTrafficGb : Option Double) (state : Option SubscriptionState)
      (expireAt : Option Nat) (now : Nat)
deriving DecidableEq

/-- The state that an operation commits, if it commits. -/
def Event.apply (s : TeamSubscription) : Event → Option TeamSubscription
  | .batch sampledAt samples => applyDirectBatch sampledAt samples s
  | .resetTraffic userId isMember order now => resetSubscriptionTraffic userId isMember order now s
  | .renew totalTrafficGb expireAt reset now =>
    renewSubscription totalTrafficGb expireAt reset now s
  | .changePlan plan totalTrafficGb expireAt now =>
    changeSubscriptionPlan plan totalTrafficGb expireAt now s
  | .update totalTrafficGb usedTrafficGb state expireAt now =>
    updateSubscription totalTrafficGb usedTrafficGb state expireAt now s

/-- An operation that is refused changes nothing. -/
def step (s : TeamSubscription) (e : Event) : TeamSubscription := (e.apply s).getD s

/-! ## The samples of a batch -/

/-- The bytes in the usages of a subscription. -/
def deltaBytesOf (subscriptionId : String) (usages : List Usage) : Nat :=
  ((usages.filter (·.subscriptionId = subscriptionId)).map (·.deltaBytes)).sum

theorem deltaBytesOf_cons (subscriptionId : String) (usage : Usage) (usages : List Usage) :
    deltaBytesOf subscriptionId (usage :: usages) =
      (if usage.subscriptionId = subscriptionId then usage.deltaBytes else 0) +
        deltaBytesOf subscriptionId usages := by
  by_cases h : usage.subscriptionId = subscriptionId <;> simp [deltaBytesOf, h]

/-- No subscription has two usages. -/
theorem nodup_addUsage {usages : List Usage} (h : (usages.map (·.subscriptionId)).Nodup)
    (p : Entry × Nat) : ((addUsage usages p).map (·.subscriptionId)).Nodup := by
  unfold addUsage
  simp only
  split_ifs with hzero hany
  · exact h
  · rw [List.map_map]
    convert h using 2
    funext usage
    simp only [Function.comp_apply]
    split_ifs <;> rfl
  · rw [List.map_append, List.nodup_append]
    refine ⟨h, by simp, ?_⟩
    simpa [List.any_eq_true] using hany

/-- Adding to the usage of a subscription that has one. -/
theorem deltaBytesOf_map {usages : List Usage} (h : (usages.map (·.subscriptionId)).Nodup)
    (subscriptionId : String) {target : String}
    (hany : ∃ usage ∈ usages, usage.subscriptionId = target) (delta : Nat) :
    deltaBytesOf subscriptionId (usages.map fun usage =>
        if usage.subscriptionId = target then { usage with deltaBytes := usage.deltaBytes + delta }
        else usage) =
      deltaBytesOf subscriptionId usages + if target = subscriptionId then delta else 0 := by
  induction usages with
  | nil => simp at hany
  | cons usage usages ih =>
    obtain ⟨hfresh, hnodup⟩ := List.nodup_cons.1 h
    rw [List.map_cons, deltaBytesOf_cons, deltaBytesOf_cons]
    by_cases htarget : usage.subscriptionId = target
    · have hothers : ∀ other ∈ usages, (if other.subscriptionId = target then
          { other with deltaBytes := other.deltaBytes + delta } else other) = id other := by
        intro other hother
        refine if_neg fun heq => hfresh ?_
        exact List.mem_map.2 ⟨other, hother, heq.trans htarget.symm⟩
      rw [List.map_congr_left hothers, List.map_id, if_pos htarget]
      by_cases hsub : target = subscriptionId
      · simp only [htarget, hsub, if_true]
        omega
      · simp [htarget, hsub]
    · rw [if_neg htarget, ih hnodup (by simpa [htarget] using hany)]
      omega

/-- A usage for a subscription that has none. -/
theorem deltaBytesOf_append (subscriptionId : String) (usages : List Usage) (usage : Usage) :
    deltaBytesOf subscriptionId (usages ++ [usage]) = deltaBytesOf subscriptionId usages +
      if usage.subscriptionId = subscriptionId then usage.deltaBytes else 0 := by
  by_cases h : usage.subscriptionId = subscriptionId <;> simp [deltaBytesOf, h]

theorem deltaBytesOf_addUsage {usages : List Usage} (h : (usages.map (·.subscriptionId)).Nodup)
    (subscriptionId : String) (p : Entry × Nat) :
    deltaBytesOf subscriptionId (addUsage usages p) = deltaBytesOf subscriptionId usages +
      if p.1.binding.subscriptionId = subscriptionId then p.2 else 0 := by
  unfold addUsage
  simp only
  by_cases hzero : p.2 = 0
  · rw [if_pos hzero, hzero, ite_self, Nat.add_zero]
  · rw [if_neg hzero]
    by_cases hany : usages.any fun usage => usage.subscriptionId = p.1.binding.subscriptionId
    · rw [if_pos hany]
      exact deltaBytesOf_map h subscriptionId (by simpa using hany) p.2
    · rw [if_neg hany]
      exact deltaBytesOf_append subscriptionId usages _

/-- The sum that a batch adds to a subscription is that of what it bills for its bindings. -/
theorem deltaBytes_foldl_addUsage (subscriptionId : String) (billed : List (Entry × Nat)) :
    deltaBytesOf subscriptionId (billed.foldl addUsage []) =
      ((billed.filter (·.1.binding.subscriptionId = subscriptionId)).map Prod.snd).sum := by
  suffices h : ∀ usages : List Usage, (usages.map (·.subscriptionId)).Nodup →
      deltaBytesOf subscriptionId (billed.foldl addUsage usages) =
        deltaBytesOf subscriptionId usages +
          ((billed.filter (·.1.binding.subscriptionId = subscriptionId)).map Prod.snd).sum by
    simpa [deltaBytesOf] using h [] List.nodup_nil
  induction billed with
  | nil => simp
  | cons p billed ih =>
    intro usages husages
    rw [List.foldl_cons, ih _ (nodup_addUsage husages p), deltaBytesOf_addUsage husages]
    by_cases hsub : p.1.binding.subscriptionId = subscriptionId
    · simp [hsub, Nat.add_assoc]
    · simp [hsub]

end ChordV.Api.TeamUsage
