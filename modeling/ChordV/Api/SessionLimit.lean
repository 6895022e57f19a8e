import ChordV.Api.Leases

/-!
# The limit on concurrent sessions

How many leases of a user can be renewed right after a `connect`, and which leases are never
renewed again.

* `Fades` says what a step does to the leases if it creates none: a lease that can be renewed
  afterwards could be renewed before, and one that cannot is left alone.
* `Sound` is the invariant of a connect between its list and its return: all leases of the user
  that can be renewed are in a list that is short enough.
* Eviction leaves out a lease at the last instant at which a heartbeat renews it, and the write
  of a heartbeat does not check the time again.  `sessions_limited` is about the runs in which
  neither matters and `limit_exceeded` is one in which the first does.
-/

namespace ChordV.Api.Leases

open Lib Lib.Machine

namespace Store

/-- A heartbeat could renew the lease now. -/
def renewable (cfg : Config) (s : Store) (lease : Lease) : Bool :=
  lease.status = .active && !isLeaseHardExpired cfg lease.expiresAt s.now

/-- The leases of a user that a heartbeat could renew now. -/
def renewableLeases (cfg : Config) (s : Store) (userId : String) : List (String × Lease) :=
  s.leases.pairs.filter fun p => p.2.userId = userId && s.renewable cfg p.2

/-- Right after a successful `connect`, and from the creation of its lease on, the leases that
can be renewed keep to its limit. -/
def Limited (cfg : Config) (s : Store) : Prop :=
  (∀ call userId limit kept, s.calls.lookup call = some (.created userId limit kept) →
    (s.renewableLeases cfg userId).length ≤ limit) ∧
  ∀ userId limit, s.connected = some (userId, limit) →
    (s.renewableLeases cfg userId).length ≤ limit

/-- A `connect` lists the leases at the very end of the grace period of one of them, or a
heartbeat writes its renewal after the end of the grace period. -/
def mistimed (cfg : Config) (s : Store) : Event → Bool
  | .connect _ userId _ _ time =>
    (s.renewableLeases cfg userId).any fun p => getLeaseGraceDeadline cfg p.2.expiresAt = time
  | .advance call =>
    match s.calls.lookup call with
    | some (.checked leaseId _ _) =>
      (s.leases.lookup leaseId).any fun lease =>
        lease.status = .active && isLeaseHardExpired cfg lease.expiresAt s.now
    | _ => false
  | _ => false

variable {cfg : Config} {s s' : Store} {call : Nat} {c : Call} {userId : String}
  {ids : List String}

theorem renewable_iff {l : Lease} : s.renewable cfg l = true ↔
    l.status = .active ∧ s.now ≤ getLeaseGraceDeadline cfg l.expiresAt := by
  simp [renewable, isLeaseHardExpired]

/-! ## Leases that fade -/

/-- What a step does to the leases if it creates none. -/
structure Fades (cfg : Config) (s s' : Store) : Prop where
  origin : ∀ id l', s'.leases.lookup id = some l' → s'.renewable cfg l' = true →
    ∃ l, s.leases.lookup id = some l ∧ l.userId = l'.userId ∧ s.renewable cfg l = true
  stays : ∀ id l, s.leases.lookup id = some l → s.renewable cfg l = false →
    ∃ l', s'.leases.lookup id = some l' ∧ s'.renewable cfg l' = false ∧
      l'.expiresAt = l.expiresAt ∧ l'.lastHeartbeatAt = l.lastHeartbeatAt

/-- The leases stay as they are, and time may pass. -/
theorem Fades.same (hleases : s'.leases = s.leases) (hnow : s.now ≤ s'.now) : Fades cfg s s' := by
  have hlater : ∀ l, s'.renewable cfg l = true → s.renewable cfg l = true := by
    intro l hl
    rw [renewable_iff] at hl ⊢
    exact ⟨hl.1, hnow.trans hl.2⟩
  refine ⟨fun id l' hl' hr => ?_, fun id l hl hr => ?_⟩
  · rw [hleases] at hl'
    exact ⟨l', hl', rfl, hlater l' hr⟩
  · refine ⟨l, by rw [hleases, hl], ?_, rfl, rfl⟩
    cases hr' : s'.renewable cfg l with
    | false => rfl
    | true => rw [hlater l hr'] at hr; cases hr

/-- One lease changes. -/
theorem Fades.modify {id : String} {f : Lease → Lease}
    (huser : ∀ l, (f l).userId = l.userId)
    (hrenewable : ∀ l, s.leases.lookup id = some l → s.renewable cfg (f l) = true →
      s.renewable cfg l = true)
    (hsame : ∀ l, s.leases.lookup id = some l → s.renewable cfg l = false →
      (f l).expiresAt = l.expiresAt ∧ (f l).lastHeartbeatAt = l.lastHeartbeatAt) :
    Fades cfg s { s with leases := s.leases.modify id f } := by
  refine ⟨fun k l' hl' hr => ?_, fun k l hl hr => ?_⟩
  · change (s.leases.modify id f).lookup k = some l' at hl'
    rw [Table.lookup_modify] at hl'
    split at hl'
    case isTrue hk =>
      obtain ⟨l, hl, rfl⟩ := Option.map_eq_some_iff.1 hl'
      exact ⟨l, hk ▸ hl, (huser l).symm, hrenewable l hl hr⟩
    case isFalse => exact ⟨l', hl', rfl, hr⟩
  · show ∃ l', (s.leases.modify id f).lookup k = some l' ∧ _
    rw [Table.lookup_modify]
    split
    case isTrue hk =>
      rw [hk] at hl
      refine ⟨f l, by rw [hl]; rfl, ?_, hsame l hl hr⟩
      cases hr' : s.renewable cfg (f l) with
      | false => exact hr'
      | true => rw [hrenewable l hl hr'] at hr; cases hr
    case isFalse => exact ⟨l, hl, hr, rfl, rfl⟩

theorem Fades.revokeLease (id reason : String) : Fades cfg s (s.revokeLease id reason) := by
  refine Fades.modify (fun l => ?_) (fun l _ hr => ?_) fun l _ _ => ?_
  · split
    · rfl
    · rfl
  · split at hr
    · obtain ⟨hstatus, -⟩ := renewable_iff.1 hr
      simp only at hstatus
      split at hstatus
      · cases hstatus
      · cases hstatus
    · exact hr
  · split
    · exact ⟨rfl, rfl⟩
    · exact ⟨rfl, rfl⟩

/-- A renewal of a lease that is not hard expired. -/
theorem Fades.renewLease {id : String} {now : Nat}
    (htime : ∀ l, s.leases.lookup id = some l → l.status = .active →
      isLeaseHardExpired cfg l.expiresAt s.now = false) :
    Fades cfg s (s.renewLease cfg id userId now) := by
  have hactive : ∀ l, s.leases.lookup id = some l → l.userId = userId ∧ l.status = .active →
      s.renewable cfg l = true := by
    intro l hl hl'
    simp [renewable, hl'.2, htime l hl hl'.2]
  refine Fades.modify (fun l => ?_) (fun l hl hr => ?_) fun l hl hr => ?_
  · split
    · rfl
    · rfl
  · split at hr
    case isTrue hl' => exact hactive l hl hl'
    case isFalse => exact hr
  · split
    case isTrue hl' => rw [hactive l hl hl'] at hr; cases hr
    case isFalse => exact ⟨rfl, rfl⟩

/-! ## The leases of one user -/

/-- All leases of the user that can be renewed are among `ids`. -/
def Within (cfg : Config) (s : Store) (userId : String) (ids : List String) : Prop :=
  ∀ id l, s.leases.lookup id = some l → l.userId = userId → s.renewable cfg l = true → id ∈ ids

theorem Within.fades (h : Within cfg s userId ids) (hfades : Fades cfg s s') :
    Within cfg s' userId ids := by
  intro id l' hl' huser hr
  obtain ⟨l, hl, heq, hr⟩ := hfades.origin id l' hl' hr
  exact h id l hl (heq.trans huser) hr

/-- A lease that has just been revoked cannot be renewed. -/
theorem Within.revokeLease {id : String} (h : Within cfg s userId (id :: ids)) (reason : String) :
    Within cfg (s.revokeLease id reason) userId ids := by
  intro k l' hl' huser hr
  have hk := h.fades (Fades.revokeLease id reason) k l' hl' huser hr
  rcases List.mem_cons.1 hk with rfl | hk
  · change (s.leases.modify k _).lookup k = some l' at hl'
    rw [Table.lookup_modify_self] at hl'
    obtain ⟨l, -, rfl⟩ := Option.map_eq_some_iff.1 hl'
    obtain ⟨hstatus, -⟩ := renewable_iff.1 hr
    split at hstatus
    case isTrue =>
      simp only at hstatus
      split at hstatus
      · cases hstatus
      · cases hstatus
    case isFalse hne => exact absurd (.inl hstatus) hne
  · exact hk

theorem Within.length_le (h : Within cfg s userId ids) :
    (s.renewableLeases cfg userId).length ≤ ids.length := by
  have hnodup : ((s.renewableLeases cfg userId).map Prod.fst).Nodup :=
    (Table.nodup_keys s.leases).sublist (List.filter_sublist.map _)
  have hsub : (s.renewableLeases cfg userId).map Prod.fst ⊆ ids := by
    intro id hid
    obtain ⟨p, hp, rfl⟩ := List.mem_map.1 hid
    obtain ⟨hmem, hp⟩ := List.mem_filter.1 hp
    simp only [Bool.and_eq_true, decide_eq_true_eq] at hp
    exact h p.1 p.2 (Table.mem_pairs.1 hmem) hp.1 hp.2
  simpa using (List.subperm_of_subset hnodup hsub).length_le

/-- The list of `evictExceededUserLeases` has all leases that can be renewed, unless it is made
at the end of the grace period of one of them. -/
theorem within_activeLeases {time : Nat} (htime : time ≤ s.now)
    (hend : (s.renewableLeases cfg userId).any (fun p =>
      getLeaseGraceDeadline cfg p.2.expiresAt = time) = false) :
    Within cfg s userId (s.activeLeases cfg userId time) := by
  intro id l hl huser hr
  have hmem : (id, l) ∈ s.leases.pairs := Table.mem_pairs.2 hl
  have hne := List.any_eq_false.1 hend (id, l)
    (List.mem_filter.2 ⟨hmem, by simp [huser, hr]⟩)
  simp only [decide_eq_true_eq] at hne
  obtain ⟨hactive, hdeadline⟩ := renewable_iff.1 hr
  refine List.mem_map.2 ⟨(id, l), (List.mem_insertionSort _).2 (List.mem_filter.2 ⟨hmem, ?_⟩), rfl⟩
  have hcutoff : getLeaseHardExpireCutoff cfg time < l.expiresAt := by
    simp only [getLeaseGraceDeadline] at hne hdeadline
    simp only [getLeaseHardExpireCutoff]
    omega
  simp [huser, hactive, hcutoff]

/-! ## The invariant -/

/-- What a `connect` knows about the leases of its user. -/
def Covered (cfg : Config) (s : Store) : Call → Prop
  | .evicting userId limit reservedSlots todo kept =>
    reservedSlots = 1 → Within cfg s userId (todo ++ kept) ∧ kept.length + 1 ≤ limit
  | .created userId limit kept => Within cfg s userId kept ∧ kept.length ≤ limit
  | _ => True

/-- The lock is held by one caller, and the leases are covered. -/
structure Sound (cfg : Config) (s : Store) : Prop where
  lock : ∀ k k' c c' userId, s.calls.lookup k = some c → s.calls.lookup k' = some c' →
    c.user = some userId → c'.user = some userId → k = k'
  covered : ∀ k c, s.calls.lookup k = some c → Covered cfg s c
  connected : ∀ userId limit, s.connected = some (userId, limit) →
    ∃ ids, Within cfg s userId ids ∧ ids.length ≤ limit

theorem Sound.empty : Sound cfg {} :=
  ⟨fun _ _ _ _ _ h => by (cases h), fun _ _ h => by (cases h), fun _ _ h => by (cases h)⟩

theorem Sound.limited (h : Sound cfg s) : Limited cfg s := by
  refine ⟨fun call userId limit kept hc => ?_, fun userId limit hconnected => ?_⟩
  · obtain ⟨hwithin, hlength⟩ := h.covered call _ hc
    exact hwithin.length_le.trans hlength
  · obtain ⟨ids, hwithin, hlength⟩ := h.connected userId limit hconnected
    exact hwithin.length_le.trans hlength

theorem Covered.fades (h : Covered cfg s c) (hfades : Fades cfg s s') : Covered cfg s' c := by
  cases c with
  | evicting userId limit reservedSlots todo kept =>
    intro hslots
    obtain ⟨hwithin, hlength⟩ := h hslots
    exact ⟨hwithin.fades hfades, hlength⟩
  | created userId limit kept => exact ⟨h.1.fades hfades, h.2⟩
  | _ => trivial

/-- The leases fade and the requests stay. -/
theorem Sound.fades (h : Sound cfg s) (hfades : Fades cfg s s') (hcalls : s'.calls = s.calls)
    (hconnected : s'.connected = s.connected) : Sound cfg s' := by
  refine ⟨?_, fun k c hc => ?_, fun userId limit hlast => ?_⟩
  · rw [hcalls]
    exact h.lock
  · rw [hcalls] at hc
    exact (h.covered k c hc).fades hfades
  · rw [hconnected] at hlast
    obtain ⟨ids, hwithin, hlength⟩ := h.connected userId limit hlast
    exact ⟨ids, hwithin.fades hfades, hlength⟩

theorem lookup_setCall {k : Nat} {c' : Call}
    (h : (s.setCall call c).calls.lookup k = some c') :
    k = call ∧ c' = c ∨ k ≠ call ∧ s.calls.lookup k = some c' := by
  change (s.calls.insert call c).lookup k = some c' at h
  rw [Table.lookup_insert_ite] at h
  split at h
  case isTrue hk => exact .inl ⟨hk, (Option.some.inj h).symm⟩
  case isFalse hk => exact .inr ⟨hk, h⟩

/-- A request moves on.  If it holds the lock of a user then nobody else does. -/
theorem Sound.setCall (h : Sound cfg s) (hcovered : Covered cfg s c)
    (huser : ∀ userId, c.user = some userId → ∀ k c', s.calls.lookup k = some c' →
      c'.user = some userId → k = call) :
    Sound cfg (s.setCall call c) := by
  refine ⟨fun k k' d d' userId hd hd' hu hu' => ?_, fun k d hd => ?_, h.connected⟩
  · rcases lookup_setCall hd with ⟨rfl, rfl⟩ | ⟨-, hk⟩
    · rcases lookup_setCall hd' with ⟨rfl, -⟩ | ⟨-, hk'⟩
      · rfl
      · exact (huser userId hu k' d' hk' hu').symm
    · rcases lookup_setCall hd' with ⟨rfl, rfl⟩ | ⟨-, hk'⟩
      · exact huser userId hu' k d hk hu
      · exact h.lock k k' d d' userId hk hk' hu hu'
  · rcases lookup_setCall hd with ⟨-, rfl⟩ | ⟨-, hk⟩
    · exact hcovered
    · exact h.covered k d hk

/-- A request that needs no lock moves on. -/
theorem Sound.setFree (h : Sound cfg s) (hc : c.user = none) : Sound cfg (s.setCall call c) := by
  refine h.setCall ?_ fun userId hu => ?_
  · cases c with
    | evicting userId limit reservedSlots todo kept => cases hc
    | created userId limit kept => cases hc
    | _ => trivial
  · rw [hc] at hu
    cases hu

theorem Sound.endCall (h : Sound cfg s) (call : Nat) : Sound cfg (s.endCall call) := by
  have hcalls : ∀ k c, (s.endCall call).calls.lookup k = some c → s.calls.lookup k = some c := by
    intro k c hc
    change (s.calls.erase call).lookup k = some c at hc
    rw [Table.lookup_erase_ite] at hc
    split at hc
    · cases hc
    · exact hc
  exact ⟨fun k k' c c' userId hc hc' => h.lock k k' c c' userId (hcalls k c hc) (hcalls k' c' hc'),
    fun k c hc => h.covered k c (hcalls k c hc), h.connected⟩

/-! ## One step -/

/-- An eviction starts under the lock of the user. -/
theorem Sound.evict (h : Sound cfg s) {limit reservedSlots time : Nat} (hlimit : 1 ≤ limit)
    (hlock : s.lockedUser userId = false)
    (hwithin : reservedSlots = 1 → Within cfg s userId (s.activeLeases cfg userId time)) :
    Sound cfg (s.evictExceededUserLeases cfg call userId limit reservedSlots time) := by
  refine h.setCall ?_ fun u hu k c' hc' hu' => ?_
  · intro hslots
    rw [List.take_append_drop]
    refine ⟨hwithin hslots, ?_⟩
    rw [List.length_drop]
    omega
  · cases hu
    have hany := List.any_eq_false.1 hlock (k, c') (Table.mem_pairs.2 hc')
    simp [hu'] at hany

/-- The lock of the user stays with the request. -/
theorem Sound.keepsLock (h : Sound cfg s) {c' : Call} (hc : s.calls.lookup call = some c)
    (hcovered : Covered cfg s c') (huser : c'.user = c.user) : Sound cfg (s.setCall call c') := by
  refine h.setCall hcovered fun userId hu k d hd hu' => ?_
  rw [huser] at hu
  exact h.lock k call d c userId hd hc hu' hu

theorem Within.insert (h : Within cfg s userId ids) (id : String) (lease : Lease) :
    Within cfg { s with leases := s.leases.insert id lease } userId (id :: ids) := by
  intro k l hl huser hr
  rw [Table.lookup_insert_ite] at hl
  split at hl
  case isTrue hk => exact hk ▸ List.mem_cons_self
  case isFalse => exact List.mem_cons_of_mem _ (h k l hl huser hr)

/-- A lease of another user changes nothing. -/
theorem Within.insert_ne (h : Within cfg s userId ids) (id : String) {lease : Lease}
    (hne : lease.userId ≠ userId) :
    Within cfg { s with leases := s.leases.insert id lease } userId ids := by
  intro k l hl huser hr
  rw [Table.lookup_insert_ite] at hl
  split at hl
  · cases hl
    exact absurd huser hne
  · exact h k l hl huser hr

theorem Covered.insert_ne (h : Covered cfg s c) (id : String) {lease : Lease}
    (hne : c.user ≠ some lease.userId) :
    Covered cfg { s with leases := s.leases.insert id lease } c := by
  cases c with
  | evicting userId limit reservedSlots todo kept =>
    intro hslots
    obtain ⟨hwithin, hlength⟩ := h hslots
    exact ⟨hwithin.insert_ne id fun heq => hne (congrArg some heq.symm), hlength⟩
  | created userId limit kept =>
    exact ⟨h.1.insert_ne id fun heq => hne (congrArg some heq.symm), h.2⟩
  | _ => trivial

theorem Sound.create (h : Sound cfg s) {limit : Nat} {kept : List String} {id : String}
    {lease : Lease} (hc : s.calls.lookup call = some (.evicting userId limit 1 [] kept))
    (hlease : lease.userId = userId) (hconnected : s.connected = none) :
    Sound cfg { s.setCall call (.created userId limit (id :: kept)) with
      leases := s.leases.insert id lease } := by
  obtain ⟨hwithin, hlength⟩ := h.covered call _ hc rfl
  refine ⟨fun k k' d d' u hd hd' hu hu' => ?_, fun k d hd => ?_, fun u limit' hu => ?_⟩
  · rcases lookup_setCall hd with ⟨rfl, rfl⟩ | ⟨-, hk⟩
    · rcases lookup_setCall hd' with ⟨rfl, -⟩ | ⟨-, hk'⟩
      · rfl
      · exact h.lock k k' _ d' u hc hk' hu hu'
    · rcases lookup_setCall hd' with ⟨rfl, rfl⟩ | ⟨-, hk'⟩
      · exact h.lock k k' d _ u hk hc hu hu'
      · exact h.lock k k' d d' u hk hk' hu hu'
  · rcases lookup_setCall hd with ⟨-, rfl⟩ | ⟨hne, hk⟩
    · exact ⟨hwithin.insert id lease, hlength⟩
    · refine (h.covered k d hk).insert_ne id fun hu => hne ?_
      rw [hlease] at hu
      exact h.lock k call d _ userId hk hc hu rfl
  · rw [show ({ s.setCall call (.created userId limit (id :: kept)) with
      leases := s.leases.insert id lease } : Store).connected = s.connected from rfl,
      hconnected] at hu
    cases hu

theorem Sound.advance (h : Sound cfg s) (hc : s.calls.lookup call = some c)
    (htime : mistimed cfg s (.advance call) = false) : Sound cfg (s.advance cfg call c) := by
  cases c with
  | found leaseId userId expiresAt =>
    simp only [Store.advance]
    split
    · exact h.setFree rfl
    · exact h.setFree rfl
  | checked leaseId userId now =>
    refine (h.fades (Fades.renewLease fun l hl hactive => ?_) rfl rfl).endCall call
    simp only [mistimed, hc, hl, Option.any_some, hactive, decide_true, Bool.true_and] at htime
    exact htime
  | revoking todo reason =>
    cases todo with
    | nil => exact h.endCall call
    | cons leaseId todo =>
      exact (h.fades (Fades.revokeLease leaseId reason) rfl rfl).setFree rfl
  | evicting userId limit reservedSlots todo kept =>
    cases todo with
    | nil =>
      simp only [Store.advance]
      split
      · exact h.endCall call
      · exact h
    | cons leaseId todo =>
      have hcovered := h.covered call _ hc
      refine (h.fades (Fades.revokeLease leaseId securityReasonConcurrency) rfl rfl).keepsLock hc ?_
        rfl
      intro hslots
      obtain ⟨hwithin, hlength⟩ := hcovered hslots
      exact ⟨hwithin.revokeLease _, hlength⟩
  | created userId limit kept =>
    obtain ⟨hwithin, hlength⟩ := h.covered call _ hc
    have hend := h.endCall call
    refine ⟨hend.lock, hend.covered, fun u limit' hu => ?_⟩
    cases hu
    exact ⟨kept, hwithin, hlength⟩

theorem Sound.next (h : Sound cfg s) (e : Event) (htime : mistimed cfg s e = false)
    (hconnected : s.connected = none) : Sound cfg (s.next cfg e) := by
  cases e with
  | connect call userId override plan time =>
    simp only [Store.next]
    split
    case isTrue hguard =>
      simp only [Bool.and_eq_true, Bool.not_eq_true', decide_eq_true_eq] at hguard
      obtain ⟨⟨-, hlock⟩, hle⟩ := hguard
      refine h.evict ?_ hlock fun _ => within_activeLeases hle htime
      simp only [concurrentLimit]
      omega
    case isFalse => exact h
  | create call leaseId time =>
    simp only [Store.next]
    split
    case h_1 userId limit kept hc =>
      split
      · exact h.create hc rfl hconnected
      · exact h
    case h_2 => exact h
  | enforce call userId maxConcurrentSessions time =>
    simp only [Store.next]
    split
    case isTrue hguard =>
      simp only [Bool.and_eq_true, Bool.not_eq_true', decide_eq_true_eq] at hguard
      obtain ⟨⟨-, hlock⟩, -⟩ := hguard
      refine h.evict ?_ hlock fun hslots => by cases hslots
      omega
    case isFalse => exact h
  | heartbeat call userId leaseId =>
    simp only [Store.next]
    split
    · split
      · exact h.setFree rfl
      · exact h
    · exact h
  | refuse call reason =>
    simp only [Store.next]
    split
    · exact h.setFree rfl
    · exact h
  | disconnect call userId leaseId =>
    simp only [Store.next]
    split
    · split
      · exact h.setFree rfl
      · exact h
    · exact h
  | sweep call time =>
    simp only [Store.next]
    split
    · exact h.setFree rfl
    · exact h
  | revokeLeases call leaseIds reason =>
    simp only [Store.next]
    split
    · exact h.setFree rfl
    · exact h
  | advance call =>
    simp only [Store.next]
    split
    case h_1 c hc => exact h.advance hc htime
    case h_2 => exact h
  | abort call => exact h.endCall call
  | tick milliseconds => exact h.fades (Fades.same rfl (Nat.le_add_right _ _)) rfl rfl

/-! ## Leases that are gone -/

theorem advance_fades (hc : s.calls.lookup call = some c)
    (htime : mistimed cfg s (.advance call) = false) : Fades cfg s (s.advance cfg call c) := by
  cases c with
  | found leaseId userId expiresAt =>
    simp only [Store.advance]
    split
    · exact .same rfl le_rfl
    · exact .same rfl le_rfl
  | checked leaseId userId now =>
    have hrenew : Fades cfg s (s.renewLease cfg leaseId userId now) := by
      refine .renewLease fun l hl hactive => ?_
      simp only [mistimed, hc, hl, Option.any_some, hactive, decide_true, Bool.true_and] at htime
      exact htime
    exact ⟨hrenew.origin, hrenew.stays⟩
  | revoking todo reason =>
    cases todo with
    | nil => exact .same rfl le_rfl
    | cons leaseId todo =>
      have hrevoke : Fades cfg s (s.revokeLease leaseId reason) := .revokeLease leaseId reason
      exact ⟨hrevoke.origin, hrevoke.stays⟩
  | evicting userId limit reservedSlots todo kept =>
    cases todo with
    | nil =>
      simp only [Store.advance]
      split
      · exact .same rfl le_rfl
      · exact .same rfl le_rfl
    | cons leaseId todo =>
      have hrevoke : Fades cfg s (s.revokeLease leaseId securityReasonConcurrency) :=
        .revokeLease leaseId _
      exact ⟨hrevoke.origin, hrevoke.stays⟩
  | created userId limit kept => exact .same rfl le_rfl

/-- A step that creates no lease lets the leases fade, and a new lease has a new id. -/
theorem next_cases (e : Event) (htime : mistimed cfg s e = false) :
    Fades cfg s (s.next cfg e) ∨
      ∃ id lease, s.leases.lookup id = none ∧ (s.next cfg e).now = s.now ∧
        (s.next cfg e).leases = s.leases.insert id lease := by
  cases e with
  | create call leaseId time =>
    simp only [Store.next]
    split
    · split
      case isTrue hguard =>
        simp only [Bool.and_eq_true, Option.isNone_iff_eq_none] at hguard
        exact .inr ⟨leaseId, _, hguard.1, rfl, rfl⟩
      case isFalse => exact .inl (.same rfl le_rfl)
    · exact .inl (.same rfl le_rfl)
  | advance call =>
    simp only [Store.next]
    split
    case h_1 c hc => exact .inl (advance_fades hc htime)
    case h_2 => exact .inl (.same rfl le_rfl)
  | tick milliseconds => exact .inl (.same rfl (Nat.le_add_right _ _))
  | abort call => exact .inl (.same rfl le_rfl)
  | _ =>
    refine .inl ?_
    simp only [Store.next]
    repeat' split
    all_goals exact .same rfl le_rfl

/-- A lease that cannot be renewed is not renewed by the next step. -/
theorem next_stays (e : Event) (htime : mistimed cfg s e = false) {id : String} {l : Lease}
    (hl : s.leases.lookup id = some l) (hr : s.renewable cfg l = false) :
    ∃ l', (s.next cfg e).leases.lookup id = some l' ∧ (s.next cfg e).renewable cfg l' = false ∧
      l'.expiresAt = l.expiresAt ∧ l'.lastHeartbeatAt = l.lastHeartbeatAt := by
  rcases next_cases e htime with hfades | ⟨k, lease, hnone, hnow, hleases⟩
  · exact hfades.stays id l hl hr
  · have hne : id ≠ k := by
      rintro rfl
      rw [hl] at hnone
      cases hnone
    refine ⟨l, by rw [hleases, AList.lookup_insert_ne hne, hl], ?_, rfl, rfl⟩
    rw [renewable, hnow]
    exact hr

end Store

/-! ## Runs -/

theorem sound_step {cfg : Config} (s : Store) (e : Event) (h : s.Sound cfg)
    (htime : s.mistimed cfg e = false) : (step cfg s e).Sound cfg := by
  have hclear : ({ s with connected := none } : Store).Sound cfg :=
    ⟨h.lock, h.covered, fun _ _ hc => by (cases hc)⟩
  exact hclear.next e htime rfl

theorem run_stays {cfg : Config} (events : List Event) :
    ∀ {s : Store}, Meets (step cfg) (fun s e => s.mistimed cfg e = false) s events →
      ∀ {id l}, s.leases.lookup id = some l → s.renewable cfg l = false →
        ∃ l', (run (step cfg) s events).leases.lookup id = some l' ∧
          l'.expiresAt = l.expiresAt ∧ l'.lastHeartbeatAt = l.lastHeartbeatAt := by
  induction events with
  | nil => exact fun _ _ l hl _ => ⟨l, hl, rfl, rfl⟩
  | cons e events ih =>
    intro s hmeets id l hl hr
    obtain ⟨l₁, hl₁, hr₁, hexpires, hbeat⟩ :=
      Store.next_stays (s := { s with connected := none }) e hmeets.1 hl hr
    obtain ⟨l₂, hl₂, hexpires', hbeat'⟩ := ih hmeets.2 hl₁ hr₁
    exact ⟨l₂, hl₂, hexpires'.trans hexpires, hbeat'.trans hbeat⟩

/-- In a run in which no list is made at the very end of a grace period and no heartbeat writes
after it: right after a `connect` the leases of the user that a heartbeat could renew keep to the
limit, and a lease that no heartbeat could renew is never renewed. -/
theorem sessions_limited (cfg : Config) (events events' : List Event)
    (h : Meets (step cfg) (fun s e => s.mistimed cfg e = false) {} (events ++ events')) :
    (run (step cfg) {} events).Limited cfg ∧
    ∀ id l, (run (step cfg) {} events).leases.lookup id = some l →
      (run (step cfg) {} events).renewable cfg l = false →
      ∃ l', (run (step cfg) {} (events ++ events')).leases.lookup id = some l' ∧
        l'.expiresAt = l.expiresAt ∧ l'.lastHeartbeatAt = l.lastHeartbeatAt := by
  obtain ⟨hbefore, hafter⟩ := meets_append.1 h
  refine ⟨(run_keeps_of_meets sound_step Store.Sound.empty hbefore).limited, ?_⟩
  intro id l hl hr
  rw [run_append]
  exact run_stays events' hafter hl hr

/-- A plan with one session: a client connects and renews its lease, then a second one connects
and evicts the first. -/
def secondClient : List Event :=
  [.connect 0 "u" none (some 1) 0, .create 0 "a" 0, .advance 0, .tick 600000,
   .heartbeat 1 "u" "a", .advance 1, .advance 1, .tick 600000,
   .connect 2 "u" none (some 1) 1200000, .advance 2, .create 2 "b" 1200000, .advance 2]

/-- The first client sends another heartbeat. -/
def lateHeartbeat : List Event := [.heartbeat 3 "u" "a", .advance 3, .advance 3]

theorem sessions_limited_second :
    (run (step {}) {} secondClient).connected = some ("u", 1) ∧
    (run (step {}) {} secondClient).Limited {} ∧
    ∀ id l, (run (step {}) {} secondClient).leases.lookup id = some l →
      (run (step {}) {} secondClient).renewable {} l = false →
      ∃ l', (run (step {}) {} (secondClient ++ lateHeartbeat)).leases.lookup id = some l' ∧
        l'.expiresAt = l.expiresAt ∧ l'.lastHeartbeatAt = l.lastHeartbeatAt :=
  ⟨by decide +kernel, sessions_limited {} secondClient lateHeartbeat (by decide +kernel)⟩

/-- A plan with one session: a second client connects when the grace period of the first lease
ends.  The list leaves the lease out, but a heartbeat would still renew it. -/
def lastInstant : List Event :=
  [.connect 0 "u" none (some 1) 0, .create 0 "a" 0, .advance 0, .tick 2100000,
   .connect 1 "u" none (some 1) 2100000, .create 1 "b" 2100000, .advance 1]

theorem limit_exceeded :
    ¬ ∀ (cfg : Config) (events events' : List Event),
      (run (step cfg) {} events).Limited cfg ∧
      ∀ id l, (run (step cfg) {} events).leases.lookup id = some l →
        (run (step cfg) {} events).renewable cfg l = false →
        ∃ l', (run (step cfg) {} (events ++ events')).leases.lookup id = some l' ∧
          l'.expiresAt = l.expiresAt ∧ l'.lastHeartbeatAt = l.lastHeartbeatAt := by
  intro h
  have hlimit := (h {} lastInstant []).1.2 "u" 1 (by decide +kernel)
  have hlength : ((run (step {}) {} lastInstant).renewableLeases {} "u").length = 2 := by
    decide +kernel
  omega

end ChordV.Api.Leases
