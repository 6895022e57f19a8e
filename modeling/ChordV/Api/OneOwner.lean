import ChordV.Api.Subscriptions

/-!
# One effective subscription for each owner

No user has two effective subscriptions or one beside a team, and no team has two.

* `OneOwner` is the statement, and `Free` says that an owner has nothing.
* An operation that adds a subscription or a member has checked that the owner is free, and it
  holds the owner lock until it writes.  `Invariant` carries that from the check to the write.
* A renewal, a plan change, a correction or a reset checks nothing of the kind and holds
  another lock, and a conversion looks at the team alone.  `Considerate` says when they do no
  harm, and `one_owner_along` is the result for the runs in which they do none.
* `renewal_revives_a_second_subscription` is the run that goes wrong.
-/

namespace ChordV.Api.Admin

open Lib Fallible

/-! ## Effective subscriptions -/

/-- Time ends subscriptions and starts none. -/
theorem Standing.isEffective_of_le {standing : Standing} {now later : Nat} (hle : now ≤ later)
    (h : standing.isEffective later = true) : standing.isEffective now = true := by
  unfold isEffective effectiveState resolveSubscriptionState at h ⊢
  cases hstate : standing.state with
  | active =>
    rw [hstate] at h
    dsimp only at h ⊢
    by_cases hexpired : standing.expireAt ≤ later
    · simp [hexpired] at h
    · have hnow : ¬ standing.expireAt ≤ now := by omega
      simpa [hexpired, hnow] using h
  | expired => simp [hstate] at h
  | exhausted => simp [hstate] at h
  | paused => rfl

/-- The current subscription is effective if one of them is. -/
theorem pickCurrentSubscription_isEffective {α : Type} {standing : α → Standing} {now : Nat}
    {rows : List α} {row : α} (hmem : row ∈ rows) (h : (standing row).isEffective now = true) :
    (pickCurrentSubscription standing now rows).any (fun a => (standing a).isEffective now) =
      true := by
  unfold pickCurrentSubscription
  cases hactive : rows.find? (fun a => (standing a).effectiveState now = .active) with
  | some current =>
    have hstate := List.find?_some hactive
    simp only [decide_eq_true_eq] at hstate
    simp [Standing.isEffective, hstate]
  | none =>
    have hnot := List.find?_eq_none.1 hactive row hmem
    simp only [decide_eq_true_eq] at hnot
    have hpaused : (standing row).effectiveState now = .paused := by
      simpa [Standing.isEffective, hnot] using h
    cases hfind : rows.find? (fun a => (standing a).effectiveState now = .paused) with
    | some current =>
      have hstate := List.find?_some hfind
      simp only [decide_eq_true_eq] at hstate
      simp [Standing.isEffective, hstate]
    | none => exact absurd (decide_eq_true hpaused) (List.find?_eq_none.1 hfind row hmem)

namespace Registry

variable {s s' : Registry}

/-- The owner has this subscription, and it is effective. -/
def EffectiveFor (s : Registry) (owner : Owner) (id : Nat) : Prop :=
  ∃ sub, s.subscriptions.lookup id = some sub ∧ sub.owner = owner ∧ sub.isEffective s.clock = true

instance (s : Registry) (owner : Owner) (id : Nat) : Decidable (s.EffectiveFor owner id) :=
  inferInstanceAs (Decidable (∃ sub ∈ s.subscriptions.lookup id,
    sub.owner = owner ∧ sub.isEffective s.clock = true))

/-- The user is in some team. -/
def IsMember (s : Registry) (userId : String) : Prop :=
  ∃ id member, s.members.lookup id = some member ∧ member.userId = userId

/-- The owner has no effective subscription and, if it is a user, no team. -/
structure Free (s : Registry) (owner : Owner) : Prop where
  no_subscription : ∀ id, ¬ s.EffectiveFor owner id
  no_team : ∀ userId, owner = .personal userId → ¬ s.IsMember userId

/-- Each owner has at most one effective subscription, and a user with one is in no team. -/
structure OneOwner (s : Registry) : Prop where
  unique : ∀ owner a b, s.EffectiveFor owner a → s.EffectiveFor owner b → a = b
  no_team : ∀ userId id, s.EffectiveFor (.personal userId) id → ¬ s.IsMember userId

theorem not_isMember_of_membership {userId : String} (h : s.membership userId = none) :
    ¬ s.IsMember userId := by
  rintro ⟨id, member, hmember, huser⟩
  exact List.find?_eq_none.1 h (id, member) (Table.mem_pairs.2 hmember) (decide_eq_true huser)

theorem not_effectiveFor_of_hasEffective {owner : Owner} (h : s.hasEffective owner = false)
    (id : Nat) : ¬ s.EffectiveFor owner id := by
  rintro ⟨sub, hsub, howner, heffective⟩
  have hrow : sub ∈ ((s.subscriptions.pairs.map Prod.snd).filter (·.owner = owner)).mergeSort
      Subscription.listedBefore := by
    rw [List.mem_mergeSort, List.mem_filter]
    exact ⟨List.mem_map.2 ⟨(id, sub), Table.mem_pairs.2 hsub, rfl⟩, decide_eq_true howner⟩
  have hany : s.hasEffective owner = true := pickCurrentSubscription_isEffective hrow heffective
  rw [hany] at h
  cases h

end Registry

/-! ## The invariant -/

/-- The owner that an operation has found free and will give a subscription or a team. -/
def Operation.claims : Operation → Option Owner
  | .createSubscription row => some row.owner
  | .createTeam ownerUserId _ => some (.personal ownerUserId)
  | .createTeamMember _ userId => some (.personal userId)
  | _ => none

/-- An operation holds the lock of the owner that it claims. -/
theorem Operation.mem_locks_of_claims {operation : Operation} {owner : Owner}
    (h : operation.claims = some owner) : Lock.owner owner ∈ operation.locks := by
  cases operation with
  | createSubscription row =>
    cases h
    exact List.mem_singleton_self _
  | createTeam ownerUserId active =>
    cases h
    exact List.mem_singleton_self _
  | createTeamMember teamId userId =>
    cases h
    exact List.mem_singleton_self _
  | _ => cases h

namespace Registry

variable {s s' : Registry}

/-- What the locks keep. -/
structure Invariant (s : Registry) : Prop where
  one : s.OneOwner
  /-- Two operations never hold the same lock. -/
  exclusive : ∀ {i j a b lock}, s.running.lookup i = some a → s.running.lookup j = some b →
    lock ∈ a.locks → lock ∈ b.locks → i = j
  /-- What an operation has checked holds until it writes. -/
  claimed : ∀ {i a owner}, s.running.lookup i = some a → a.claims = some owner → s.Free owner

/-- Nobody gains anything. -/
structure Shrinks (s s' : Registry) : Prop where
  effective : ∀ {owner id}, s'.EffectiveFor owner id → s.EffectiveFor owner id
  member : ∀ {userId}, s'.IsMember userId → s.IsMember userId
  running : ∀ {i a}, s'.running.lookup i = some a → s.running.lookup i = some a

theorem Shrinks.free {owner : Owner} (h : Shrinks s s') (hfree : s.Free owner) : s'.Free owner where
  no_subscription := fun id heffective => hfree.no_subscription id (h.effective heffective)
  no_team := fun userId howner hmember => hfree.no_team userId howner (h.member hmember)

theorem Invariant.shrinks (h : s.Invariant) (hshrinks : Shrinks s s') : s'.Invariant where
  one := {
    unique := fun owner a b ha hb =>
      h.one.unique owner a b (hshrinks.effective ha) (hshrinks.effective hb)
    no_team := fun userId id hid hmember =>
      h.one.no_team userId id (hshrinks.effective hid) (hshrinks.member hmember) }
  exclusive := fun ha hb => h.exclusive (hshrinks.running ha) (hshrinks.running hb)
  claimed := fun ha hclaims => hshrinks.free (h.claimed (hshrinks.running ha) hclaims)

/-- One owner may gain something, the others gain nothing. -/
structure Touches (s s' : Registry) (owner : Owner) : Prop where
  effective : ∀ {other id}, other ≠ owner → s'.EffectiveFor other id → s.EffectiveFor other id
  member : ∀ {userId}, Owner.personal userId ≠ owner → s'.IsMember userId → s.IsMember userId
  running : s'.running = s.running

/-- One owner gains something that nobody else is about to give it, and it ends with one
effective subscription at most. -/
theorem Invariant.touches (h : s.Invariant) {owner : Owner} (htouches : Touches s s' owner)
    (hunclaimed : ∀ i a, s.running.lookup i = some a → a.claims ≠ some owner)
    (hunique : ∀ a b, s'.EffectiveFor owner a → s'.EffectiveFor owner b → a = b)
    (hteam : ∀ userId id, owner = .personal userId → s'.EffectiveFor owner id →
      ¬ s'.IsMember userId) : s'.Invariant where
  one := {
    unique := fun other a b ha hb => by
      by_cases hother : other = owner
      · subst hother
        exact hunique a b ha hb
      · exact h.one.unique other a b (htouches.effective hother ha) (htouches.effective hother hb)
    no_team := fun userId id hid hmember => by
      by_cases hother : Owner.personal userId = owner
      · exact hteam userId id hother.symm (hother ▸ hid) hmember
      · exact h.one.no_team userId id (htouches.effective hother hid)
          (htouches.member hother hmember) }
  exclusive := fun ha hb => by
    rw [htouches.running] at ha hb
    exact h.exclusive ha hb
  claimed := fun {i a other} ha hclaims => by
    rw [htouches.running] at ha
    have hother : other ≠ owner := by
      rintro rfl
      exact hunclaimed i a ha hclaims
    have hfree := h.claimed ha hclaims
    exact {
      no_subscription := fun id hid => hfree.no_subscription id (htouches.effective hother hid)
      no_team := fun userId howner hmember =>
        hfree.no_team userId howner (htouches.member (howner ▸ hother) hmember) }

/-! ## Checks -/

theorem get_eq_ok {κ α : Type} [DecidableEq κ] {table : Table κ α} {key : κ} {missing : AdminError}
    {row : α} (h : get table key missing = .ok row) : table.lookup key = some row := by
  unfold get at h
  split at h
  · next hrow =>
    cases h
    exact hrow
  · cases h

theorem assertUserCanJoinTeam_free {userId : String} {u : Unit}
    (h : s.assertUserCanJoinTeam userId = .ok u) : s.Free (.personal userId) := by
  simp only [assertUserCanJoinTeam, bind_eq_ok, require_eq_ok, exists_const] at h
  obtain ⟨_, _, _, hmember, heffective⟩ := h
  exact {
    no_subscription := not_effectiveFor_of_hasEffective heffective
    no_team := fun _ howner => by
      cases howner
      exact not_isMember_of_membership hmember }

/-- An operation that gives an owner something has found it free. -/
theorem check_free {request : AdminRequest} {operation : Operation} {owner : Owner}
    (h : s.check request = .ok operation) (hclaims : operation.claims = some owner) :
    s.Free owner := by
  cases request with
  | createSubscription userId planId totalTrafficGb usedTrafficGb expireAt state =>
    simp only [check, bind_eq_ok, require_eq_ok, exists_const] at h
    obtain ⟨_, _, _, hmember, heffective, plan, _, _, _, h⟩ := h
    cases h
    cases hclaims
    exact {
      no_subscription := not_effectiveFor_of_hasEffective heffective
      no_team := fun _ howner => by
        cases howner
        exact not_isMember_of_membership hmember }
  | createTeamSubscription teamId planId totalTrafficGb usedTrafficGb expireAt =>
    simp only [check, bind_eq_ok, require_eq_ok, exists_const] at h
    obtain ⟨_, _, _, heffective, plan, _, _, _, h⟩ := h
    cases h
    cases hclaims
    exact {
      no_subscription := not_effectiveFor_of_hasEffective heffective
      no_team := fun _ howner => by cases howner }
  | createTeam ownerUserId active =>
    simp only [check, bind_eq_ok, require_eq_ok, exists_const] at h
    obtain ⟨_, _, _, _, hjoin, h⟩ := h
    cases h
    cases hclaims
    exact assertUserCanJoinTeam_free hjoin
  | createTeamMember teamId userId isOwner =>
    simp only [check, bind_eq_ok, require_eq_ok, exists_const] at h
    obtain ⟨_, _, _, _, hjoin, h⟩ := h
    cases h
    cases hclaims
    exact assertUserCanJoinTeam_free hjoin
  | renewSubscription subscriptionId expireAt totalTrafficGb =>
    simp only [check, bind_eq_ok] at h
    obtain ⟨_, _, h⟩ := h
    cases h
    cases hclaims
  | renewWithReset subscriptionId expireAt totalTrafficGb =>
    simp only [check, bind_eq_ok] at h
    obtain ⟨_, _, _, _, h⟩ := h
    cases h
    cases hclaims
  | changeSubscriptionPlan subscriptionId planId expireAt totalTrafficGb =>
    simp only [check, bind_eq_ok, require_eq_ok, exists_const] at h
    obtain ⟨_, _, _, _, _, _, h⟩ := h
    cases h
    cases hclaims
  | updateSubscription subscriptionId totalTrafficGb usedTrafficGb expireAt state =>
    simp only [check, bind_eq_ok] at h
    obtain ⟨_, _, h⟩ := h
    cases h
    cases hclaims
  | resetSubscriptionTraffic subscriptionId userId ledgerGb =>
    simp only [check, bind_eq_ok] at h
    obtain ⟨_, _, _, _, h⟩ := h
    cases h
    cases hclaims
  | convertPersonalSubscriptionToTeam subscriptionId targetTeamId =>
    simp only [check, bind_eq_ok] at h
    obtain ⟨sub, _, h⟩ := h
    split at h
    · cases h
    · simp only [bind_eq_ok, require_eq_ok, exists_const] at h
      obtain ⟨_, _, _, _, _, _, _, _, h⟩ := h
      cases h
      cases hclaims
  | updateTeam teamId ownerUserId active =>
    simp only [check, bind_eq_ok] at h
    obtain ⟨team, _, h⟩ := h
    split at h
    · cases h
      cases hclaims
    · split at h
      · cases h
        cases hclaims
      · simp only [bind_eq_ok, require_eq_ok, exists_const] at h
        obtain ⟨_, _, _, _, _, h⟩ := h
        cases h
        cases hclaims
  | deleteTeamMember teamId memberId =>
    simp only [check, bind_eq_ok, require_eq_ok, exists_const] at h
    obtain ⟨_, _, _, _, h⟩ := h
    cases h
    cases hclaims

/-! ## Writes -/

/-- The operation that was running holds its locks alone. -/
structure Alone (s : Registry) (operation : Operation) : Prop where
  unlocked : ∀ {i a lock}, s.running.lookup i = some a → lock ∈ operation.locks → lock ∉ a.locks
  free : ∀ {owner}, operation.claims = some owner → s.Free owner

theorem Alone.unclaimed {operation : Operation} (h : s.Alone operation) {owner : Owner}
    (hlock : Lock.owner owner ∈ operation.locks) (i : Nat) (a : Operation)
    (ha : s.running.lookup i = some a) : a.claims ≠ some owner := fun hclaims =>
  h.unlocked ha hlock (Operation.mem_locks_of_claims hclaims)

/-- When the save of a subscription or a conversion does no harm. -/
def Harmless (s : Registry) : Operation → Prop
  | .saveSubscription subscriptionId change =>
    ∀ sub ∈ s.subscriptions.lookup subscriptionId, sub.isEffective s.clock = false →
      (change.apply sub).isEffective s.clock = true →
        s.hasEffective sub.owner = false ∧
        (∀ p ∈ s.members.pairs, sub.owner ≠ .personal p.2.userId) ∧
        ∀ p ∈ s.running.pairs, p.2.claims ≠ some sub.owner
  | .convertPersonalSubscriptionToTeam subscriptionId _ userId =>
    ∀ p ∈ s.subscriptions.pairs, p.2.owner = .personal userId → p.2.isEffective s.clock = true →
      p.1 = subscriptionId
  | _ => True

instance (s : Registry) : DecidablePred s.Harmless
  | .saveSubscription _ _ => by
    unfold Harmless
    infer_instance
  | .convertPersonalSubscriptionToTeam _ _ _ => by
    unfold Harmless
    infer_instance
  | .createSubscription _ => .isTrue trivial
  | .createTeam _ _ => .isTrue trivial
  | .createTeamMember _ _ => .isTrue trivial
  | .updateTeam _ _ _ _ => .isTrue trivial
  | .deleteTeamMember _ => .isTrue trivial

theorem addMember_eq_ok {member : TeamMember} (h : s.addMember member = .ok s') :
    s' = { s with members := s.members.insert s.nextId member, nextId := s.nextId + 1 } := by
  obtain ⟨_, _, h⟩ := bind_eq_ok.1 h
  cases h
  rfl

theorem isMember_insert {id : Nat} {member : TeamMember} {userId : String}
    (hmembers : s'.members = s.members.insert id member) (h : s'.IsMember userId) :
    userId = member.userId ∨ s.IsMember userId := by
  obtain ⟨i, other, hother, huser⟩ := h
  rw [hmembers, Table.lookup_insert_ite] at hother
  split at hother
  · cases hother
    exact .inl huser.symm
  · exact .inr ⟨i, other, hother, huser⟩

/-- A subscription is added or rewritten. -/
theorem effectiveFor_insert {id other : Nat} {sub : Subscription} {owner : Owner}
    (hsubscriptions : s'.subscriptions = s.subscriptions.insert id sub)
    (hclock : s'.clock = s.clock)
    (h : s'.EffectiveFor owner other) :
    (other = id ∧ sub.owner = owner ∧ sub.isEffective s.clock = true) ∨
      (other ≠ id ∧ s.EffectiveFor owner other) := by
  obtain ⟨row, hrow, howner, heffective⟩ := h
  rw [hsubscriptions, Table.lookup_insert_ite] at hrow
  rw [hclock] at heffective
  split at hrow
  · next hid =>
    cases hrow
    exact .inl ⟨hid, howner, heffective⟩
  · next hid => exact .inr ⟨hid, row, hrow, howner, heffective⟩

/-- An owner that has nothing is given a subscription. -/
theorem Invariant.gives (h : s.Invariant) {id : Nat} {sub : Subscription}
    (hsubscriptions : s'.subscriptions = s.subscriptions.insert id sub)
    (hclock : s'.clock = s.clock)
    (hmembers : s'.members = s.members) (hrunning : s'.running = s.running)
    (hfree : s.Free sub.owner)
    (hunclaimed : ∀ i a, s.running.lookup i = some a → a.claims ≠ some sub.owner) :
    s'.Invariant := by
  have hmember : ∀ userId, s'.IsMember userId → s.IsMember userId := by
    rintro userId ⟨i, member, hmember, huser⟩
    exact ⟨i, member, hmembers ▸ hmember, huser⟩
  have honly : ∀ a, s'.EffectiveFor sub.owner a → a = id := by
    intro a ha
    obtain ⟨ha, -⟩ | ⟨-, hold⟩ := effectiveFor_insert hsubscriptions hclock ha
    · exact ha
    · exact absurd hold (hfree.no_subscription a)
  refine h.touches ?_ hunclaimed (fun a b ha hb => (honly a ha).trans (honly b hb).symm)
    fun userId _ howner _ hjoined => hfree.no_team userId howner (hmember userId hjoined)
  refine { effective := fun {other a} hother ha => ?_, member := fun _ => hmember _,
           running := hrunning }
  obtain ⟨-, howner, -⟩ | ⟨-, hold⟩ := effectiveFor_insert hsubscriptions hclock ha
  · exact absurd howner.symm hother
  · exact hold

theorem Invariant.createSubscription (h : s.Invariant) {row : Subscription}
    (halone : s.Alone (.createSubscription row))
    (hrun : s.write (.createSubscription row) = .ok s') :
    s'.Invariant := by
  cases hrun
  exact h.gives rfl rfl rfl rfl (halone.free rfl) (halone.unclaimed (List.mem_singleton_self _))

/-- A user joins a team, and no effective subscription of the user is left. -/
theorem Invariant.join (h : s.Invariant) {id : Nat} {member : TeamMember}
    (hmembers : s'.members = s.members.insert id member) (hrunning : s'.running = s.running)
    (heffective : ∀ owner id, s'.EffectiveFor owner id → s.EffectiveFor owner id)
    (hunclaimed : ∀ i a, s.running.lookup i = some a → a.claims ≠ some (.personal member.userId))
    (hnone : ∀ id, ¬ s'.EffectiveFor (.personal member.userId) id) : s'.Invariant := by
  refine h.touches ?_ hunclaimed (fun a _ ha => absurd ha (hnone a))
    fun _ id _ hid => absurd hid (hnone id)
  refine { effective := fun _ hid => heffective _ _ hid, member := fun hother hmember => ?_,
           running := hrunning }
  obtain rfl | hold := isMember_insert hmembers hmember
  · exact absurd rfl hother
  · exact hold

theorem Invariant.createTeam (h : s.Invariant) {ownerUserId : String} {active : Bool}
    (halone : s.Alone (.createTeam ownerUserId active))
    (hrun : s.write (.createTeam ownerUserId active) = .ok s') : s'.Invariant := by
  cases addMember_eq_ok hrun
  exact h.join rfl rfl (fun _ _ hid => hid) (halone.unclaimed (List.mem_singleton_self _))
    (halone.free rfl).no_subscription

theorem Invariant.createTeamMember (h : s.Invariant) {teamId : Nat} {userId : String}
    (halone : s.Alone (.createTeamMember teamId userId))
    (hrun : s.write (.createTeamMember teamId userId) = .ok s') : s'.Invariant := by
  cases addMember_eq_ok hrun
  exact h.join rfl rfl (fun _ _ hid => hid) (halone.unclaimed (List.mem_singleton_self _))
    (halone.free rfl).no_subscription

theorem Invariant.convert (h : s.Invariant) {subscriptionId teamId : Nat} {userId : String}
    (halone : s.Alone (.convertPersonalSubscriptionToTeam subscriptionId teamId userId))
    (hharmless : s.Harmless (.convertPersonalSubscriptionToTeam subscriptionId teamId userId))
    (hrun : s.write (.convertPersonalSubscriptionToTeam subscriptionId teamId userId) = .ok s') :
    s'.Invariant := by
  obtain ⟨joined, hjoined, hrun⟩ := bind_eq_ok.1 hrun
  obtain ⟨sub, hsub, hrun⟩ := bind_eq_ok.1 hrun
  cases addMember_eq_ok hjoined
  obtain ⟨ended, hended, hs'⟩ : ∃ ended : Subscription, ended.isEffective s.clock = false ∧
      s' = { s with
        members := s.members.insert s.nextId { teamId, userId }, nextId := s.nextId + 1
        subscriptions := s.subscriptions.insert subscriptionId ended } := by
    cases hrun
    exact ⟨_, rfl, rfl⟩
  have hothers : ∀ owner id, s'.EffectiveFor owner id →
      id ≠ subscriptionId ∧ s.EffectiveFor owner id := by
    intro owner id hid
    obtain ⟨-, -, heffective⟩ | hold := effectiveFor_insert (s := s) (by rw [hs']) (by rw [hs']) hid
    · rw [hended] at heffective
      cases heffective
    · exact hold
  have hmembers : s'.members = s.members.insert s.nextId { teamId, userId } := by rw [hs']
  refine h.join hmembers (by rw [hs']) (fun owner id hid => (hothers owner id hid).2)
    (halone.unclaimed (List.mem_singleton_self _)) ?_
  intro id hid
  obtain ⟨hne, row, hrow, howner, heffective⟩ := hothers _ _ hid
  exact hne (hharmless (id, row) (Table.mem_pairs.2 hrow) howner heffective)

/-- A subscription is saved.  Where that makes it effective, its owner had nothing. -/
theorem Invariant.saveSubscription (h : s.Invariant) {subscriptionId : Nat}
    {change : SubscriptionChange} (hharmless : s.Harmless (.saveSubscription subscriptionId change))
    (hrun : s.write (.saveSubscription subscriptionId change) = .ok s') : s'.Invariant := by
  obtain ⟨sub, hsub, hrun⟩ := bind_eq_ok.1 hrun
  have hsub := get_eq_ok hsub
  have hs' := (Except.ok.inj hrun).symm
  by_cases hrevived : sub.isEffective s.clock = false ∧
    (change.apply sub).isEffective s.clock = true
  · obtain ⟨hnone, hteam, hrunning⟩ := hharmless sub hsub hrevived.1 hrevived.2
    refine h.gives (congrArg subscriptions hs') (by rw [hs']) (by rw [hs']) (by rw [hs']) ?_
      fun i a ha => hrunning (i, a) (Table.mem_pairs.2 ha)
    refine { no_subscription := not_effectiveFor_of_hasEffective hnone, no_team := ?_ }
    rintro userId howner ⟨i, member, hmember, huser⟩
    exact hteam (i, member) (Table.mem_pairs.2 hmember) (huser ▸ howner)
  · refine h.shrinks { effective := fun {owner id} hid => ?_, member := ?_, running := ?_ }
    · obtain ⟨hid, howner, heffective⟩ | ⟨-, hold⟩ :=
        effectiveFor_insert (congrArg subscriptions hs') (by rw [hs']) hid
      · have hbefore : sub.isEffective s.clock = true := by
          by_contra hnot
          exact hrevived ⟨Bool.eq_false_of_not_eq_true hnot, heffective⟩
        exact ⟨sub, hid ▸ hsub, howner, hbefore⟩
      · exact hold
    · subst hs'
      exact fun hmember => hmember
    · subst hs'
      exact fun ha => ha

/-- A change of roles makes nobody a member. -/
theorem isMember_transferRoles {teamId memberId : Nat} {userId : String}
    (h : (s.transferRoles teamId memberId).IsMember userId) : s.IsMember userId := by
  have hdemoted : ∀ i m, (s.members.pairs.foldl (fun (members : Table Nat TeamMember) p =>
      if p.2.teamId = teamId ∧ p.2.isOwner then members.insert p.1 { p.2 with isOwner := false }
      else members) s.members).lookup i = some m → s.IsMember m.userId := by
    refine List.foldlRecOn
      (motive := fun members : Table Nat TeamMember =>
        ∀ i m, members.lookup i = some m → s.IsMember m.userId)
      _ _ (fun i m hm => ⟨i, m, hm, rfl⟩) fun members hmembers p hp i m hm => ?_
    split at hm
    · rw [Table.lookup_insert_ite] at hm
      split at hm
      · cases hm
        exact ⟨p.1, p.2, Table.mem_pairs.1 hp, rfl⟩
      · exact hmembers i m hm
    · exact hmembers i m hm
  obtain ⟨i, member, hmember, huser⟩ := h
  rw [transferRoles, Table.lookup_modify] at hmember
  split at hmember
  · obtain ⟨old, hold, rfl⟩ := Option.map_eq_some_iff.1 hmember
    exact huser ▸ hdemoted memberId old hold
  · exact huser ▸ hdemoted i member hmember

theorem saveTeam_eq_ok {teamId : Nat} {ownerUserId : Option String} {active : Option Bool}
    (h : s.saveTeam teamId ownerUserId active = .ok s') : ∃ teams, s' = { s with teams } := by
  obtain ⟨_, _, h⟩ := bind_eq_ok.1 h
  cases h
  exact ⟨_, rfl⟩

theorem Invariant.updateTeam (h : s.Invariant) {teamId : Nat} {ownerUserId : Option String}
    {transfers : Bool} {active : Option Bool}
    (hrun : s.write (.updateTeam teamId ownerUserId transfers active) = .ok s') : s'.Invariant := by
  have hsaved : s.saveTeam teamId none active = .ok s' → s'.Invariant := by
    intro hrun
    obtain ⟨teams, rfl⟩ := saveTeam_eq_ok hrun
    exact h.shrinks {
      effective := fun hid => hid, member := fun hmember => hmember, running := fun ha => ha }
  cases ownerUserId with
  | none => exact hsaved hrun
  | some nextOwner =>
    cases transfers with
    | false => exact hsaved hrun
    | true =>
      simp only [Registry.write] at hrun
      split at hrun
      · cases hrun
      · obtain ⟨_, _, hrun⟩ := bind_eq_ok.1 hrun
        obtain ⟨teams, rfl⟩ := saveTeam_eq_ok hrun
        exact h.shrinks {
          effective := fun hid => hid
          member := fun hmember => isMember_transferRoles hmember
          running := fun ha => ha }

theorem Invariant.deleteTeamMember (h : s.Invariant) {memberId : Nat}
    (hrun : s.write (.deleteTeamMember memberId) = .ok s') : s'.Invariant := by
  obtain ⟨_, _, hrun⟩ := bind_eq_ok.1 hrun
  cases hrun
  refine h.shrinks { effective := fun hid => hid, member := ?_, running := fun ha => ha }
  rintro userId ⟨i, member, hmember, huser⟩
  rw [Table.lookup_erase_ite] at hmember
  split at hmember
  · cases hmember
  · exact ⟨i, member, hmember, huser⟩

/-! ## Runs -/

/-- Every write keeps the invariant, where the saves and the conversions do no harm. -/
theorem Invariant.write (h : s.Invariant) {operation : Operation} (halone : s.Alone operation)
    (hharmless : s.Harmless operation) (hrun : s.write operation = .ok s') : s'.Invariant := by
  cases operation with
  | createSubscription row => exact h.createSubscription halone hrun
  | createTeam ownerUserId active => exact h.createTeam halone hrun
  | createTeamMember teamId userId => exact h.createTeamMember halone hrun
  | convertPersonalSubscriptionToTeam subscriptionId teamId userId =>
    exact h.convert halone hharmless hrun
  | updateTeam teamId ownerUserId transfers active => exact h.updateTeam hrun
  | deleteTeamMember memberId => exact h.deleteTeamMember hrun
  | saveSubscription subscriptionId change => exact h.saveSubscription hharmless hrun

theorem lookup_running_erase {operationId i : Nat} {a : Operation}
    (h : (s.running.erase operationId).lookup i = some a) :
    i ≠ operationId ∧ s.running.lookup i = some a := by
  rw [Table.lookup_erase_ite] at h
  split at h
  · cases h
  · next hne => exact ⟨hne, h⟩

/-- What does no harm does none after an operation has ended. -/
theorem Harmless.erase {operation : Operation} (h : s.Harmless operation) (operationId : Nat) :
    Harmless { s with running := s.running.erase operationId } operation := by
  cases operation with
  | saveSubscription subscriptionId change =>
    intro sub hsub hbefore hafter
    obtain ⟨hnone, hteam, hrunning⟩ := h sub hsub hbefore hafter
    refine ⟨hnone, hteam, fun p hp => hrunning p ?_⟩
    exact Table.mem_pairs.2 (lookup_running_erase (Table.mem_pairs.1 hp)).2
  | convertPersonalSubscriptionToTeam subscriptionId teamId userId => exact h
  | _ => trivial

/-- An operation ends. -/
theorem Invariant.abandon (h : s.Invariant) (operationId : Nat) :
    Invariant { s with running := s.running.erase operationId } :=
  h.shrinks {
    effective := fun hid => hid, member := fun hmember => hmember
    running := fun ha => (lookup_running_erase ha).2 }

/-- A request has passed its checks and got its locks. -/
theorem Invariant.start (h : s.Invariant) {request : AdminRequest} {operation : Operation}
    (hcheck : s.check request = .ok operation) (hlocks : s.locksFree operation.locks = true) :
    Invariant { s with
      running := s.running.insert s.nextId operation, nextId := s.nextId + 1 } := by
  have hapart : ∀ i a lock, s.running.lookup i = some a → lock ∈ a.locks →
      lock ∉ operation.locks := by
    intro i a lock ha hlock hheld
    have hall := List.all_eq_true.1 hlocks (i, a) (Table.mem_pairs.2 ha)
    have hfree := List.all_eq_true.1 hall lock hlock
    simp only [Bool.not_eq_true', List.contains_eq_mem, decide_eq_false_iff_not] at hfree
    exact hfree hheld
  refine { one := ⟨h.one.unique, h.one.no_team⟩, exclusive := ?_, claimed := ?_ }
  · intro i j a b lock ha hb hla hlb
    rw [Table.lookup_insert_ite] at ha hb
    split at ha <;> split at hb
    · next hi hj => rw [hi, hj]
    · cases ha
      exact absurd hla (hapart j b lock hb hlb)
    · cases hb
      exact absurd hlb (hapart i a lock ha hla)
    · exact h.exclusive ha hb hla hlb
  · intro i a owner ha hclaims
    rw [Table.lookup_insert_ite] at ha
    have hfree : s.Free owner := by
      split at ha
      · cases ha
        exact check_free hcheck hclaims
      · exact h.claimed ha hclaims
    exact ⟨hfree.no_subscription, hfree.no_team⟩

/-- A step that does no harm: the operation that it finishes revives no subscription of an
owner that has something else or is about to get it, and moves nobody into a team who keeps an
effective subscription. -/
def Considerate (s : Registry) : AdminStep → Prop
  | .finish operationId => ∀ operation ∈ s.running.lookup operationId, s.Harmless operation
  | _ => True

instance (s : Registry) : DecidablePred s.Considerate
  | .finish operationId =>
    inferInstanceAs (Decidable (∀ operation ∈ s.running.lookup operationId, s.Harmless operation))
  | .start _ => .isTrue trivial
  | .abandon _ => .isTrue trivial
  | .updateUser _ _ => .isTrue trivial
  | .savePlan _ _ => .isTrue trivial
  | .tick _ => .isTrue trivial

theorem Invariant.step (h : s.Invariant) (step : AdminStep) (hconsiderate : s.Considerate step) :
    (s.step step).Invariant := by
  cases step with
  | start request =>
    rw [Registry.step]
    split
    · exact h
    · next operation hcheck =>
      split
      · next hlocks => exact h.start hcheck hlocks
      · exact h
  | finish operationId =>
    rw [Registry.step]
    split
    · exact h
    · next operation hoperation =>
      have hended := h.abandon operationId
      dsimp only
      split
      · next s' hwrite =>
        refine hended.write ?_ ?_ hwrite
        · refine { unlocked := fun {i a lock} ha hlock hheld => ?_, free := fun hclaims => ?_ }
          · obtain ⟨hne, ha⟩ := lookup_running_erase ha
            exact hne (h.exclusive ha hoperation hheld hlock)
          · have hfree := h.claimed hoperation hclaims
            exact ⟨hfree.no_subscription, hfree.no_team⟩
        · exact (hconsiderate operation hoperation).erase operationId
      · exact hended
  | abandon operationId => exact h.abandon operationId
  | updateUser userId active =>
    exact h.shrinks {
      effective := fun hid => hid, member := fun hmember => hmember, running := fun ha => ha }
  | savePlan planId plan =>
    exact h.shrinks {
      effective := fun hid => hid, member := fun hmember => hmember, running := fun ha => ha }
  | tick milliseconds =>
    refine h.shrinks { effective := ?_, member := fun hmember => hmember, running := fun ha => ha }
    rintro owner id ⟨sub, hsub, howner, heffective⟩
    exact ⟨sub, hsub, howner, Standing.isEffective_of_le (Nat.le_add_right _ _) heffective⟩

/-- Every step of a run does no harm in the state that it finds. -/
def Along : Registry → List AdminStep → Prop
  | _, [] => True
  | s, step :: steps => s.Considerate step ∧ Along (s.step step) steps

instance decidableAlong : ∀ (s : Registry) (steps : List AdminStep), Decidable (s.Along steps)
  | _, [] => .isTrue trivial
  | s, step :: steps =>
    have := decidableAlong (s.step step) steps
    inferInstanceAs (Decidable (s.Considerate step ∧ Along (s.step step) steps))

theorem Invariant.run : ∀ (steps : List AdminStep) {s : Registry}, s.Invariant → s.Along steps →
    (s.run steps).Invariant
  | [], _, h, _ => h
  | step :: steps, _, h, halong => Invariant.run steps (h.step step halong.1) halong.2

/-- The runs start with users, teams, plans and members, and without subscriptions. -/
theorem Invariant.init (users : Table String User) (plans : Table String Plan)
    (teams : Table Nat Team) (members : Table Nat TeamMember) (nextId : Nat) :
    Invariant { users, plans, teams, members, nextId } where
  one := {
    unique := fun _ _ _ ha => by
      obtain ⟨_, hsub, _⟩ := ha
      cases hsub
    no_team := fun _ _ ha => by
      obtain ⟨_, hsub, _⟩ := ha
      cases hsub }
  exclusive := fun ha => nomatch ha
  claimed := fun ha => nomatch ha

end Registry

/-- In every run of requests, in any interleaving that the locks allow, in which no save
revives a subscription of an owner that has something else or is about to get it and no
conversion leaves the user an effective subscription, no owner ever has two effective
subscriptions and no user has one beside a team. -/
theorem one_owner_along {users : Table String User} {plans : Table String Plan}
    {teams : Table Nat Team} {members : Table Nat TeamMember} {nextId : Nat}
    {steps : List AdminStep}
    (halong : Registry.Along { users, plans, teams, members, nextId } steps) :
    (Registry.run { users, plans, teams, members, nextId } steps).OneOwner :=
  (Registry.Invariant.run steps (.init users plans teams members nextId) halong).one

namespace Renewal

/-- One user. -/
def users : Table String User := AList.insert "user" {} ∅

/-- One plan. -/
def plans : Table String Plan :=
  AList.insert "plan" { scope := .personal, totalTrafficGb := 100 } ∅

/-- The user gets a subscription until a time. -/
def subscribe (expireAt : Nat) : AdminRequest :=
  .createSubscription "user" "plan" none none expireAt none

/-- A subscription runs out and is renewed. -/
def alone : List AdminStep :=
  [.start (subscribe 10), .finish 0, .tick 20, .start (.renewSubscription 1 (some 100) none),
    .finish 2]

/-- A subscription runs out, another one follows, and the old one is renewed. -/
def second : List AdminStep :=
  [.start (subscribe 10), .finish 0, .tick 20, .start (subscribe 100), .finish 2,
    .start (.renewSubscription 1 (some 100) none), .finish 4]

end Renewal

open Renewal in
/-- The renewal of the only subscription of a user does no harm. -/
theorem one_owner_along_renewed :
    (Registry.run { users, plans, teams := ∅, members := ∅, nextId := 0 } alone).OneOwner ∧
      (Registry.run { users, plans, teams := ∅, members := ∅, nextId := 0 } alone).EffectiveFor
        (.personal "user") 1 :=
  ⟨one_owner_along (by decide +kernel), by decide +kernel⟩

open Renewal in
/-- The renewal of a subscription that has run out leaves the user with two effective ones. -/
theorem renewal_revives_a_second_subscription :
    ¬ (Registry.run { users, plans } second).OneOwner := by
  intro h
  have htwo : (Registry.run { users, plans } second).EffectiveFor (.personal "user") 1 ∧
      (Registry.run { users, plans } second).EffectiveFor (.personal "user") 3 := by decide +kernel
  exact absurd (h.unique _ 1 3 htwo.1 htwo.2) (by decide)

end ChordV.Api.Admin
