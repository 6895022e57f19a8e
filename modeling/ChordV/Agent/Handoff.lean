import ChordV.Agent.Floors

/-!
# Handing addresses over

A list of users may move addresses between bindings.  `applyDesiredUsers` parks the rows whose
address is taken first, and writes the users then.

* `lookup_parkContestedEmailsTx` is the row of a binding after the parking, and
  `upsertAllTx_writes` what the upserts make of a list whose addresses are free.
* `Handover` is a list that is newer than the stored rows, and `Handover.applies` says that it
  is applied whatever it does with the addresses.
-/

namespace ChordV.Agent.Store

open Lib Fallible

variable {s s' : Store} {users : List DesiredUser}

/-! ## Parking -/

/-- The row of a binding after the parking. -/
def parkedRow (applying : List DesiredUser) (omitted : String → Bool) (b : String)
    (row : UserRow) : UserRow :=
  if parks applying omitted b row then parkRow row else row

@[simp] theorem parkRow_parkRow (row : UserRow) : parkRow (parkRow row) = parkRow row := rfl

theorem lookup_parkContestedEmailsTx {omitted : String → Bool} {applying : List DesiredUser}
    (happlying : applyingUsers users s = .ok applying)
    (hok : parkContestedEmailsTx users omitted s = .ok s') (b : String) :
    s'.rows.lookup b = (s.rows.lookup b).map (parkedRow applying omitted b) := by
  unfold parkContestedEmailsTx at hok
  rw [happlying, ok_bind] at hok
  cases hok
  dsimp only
  rw [← List.foldl_filter, Table.lookup_foldl_modify (u := parkRow) parkRow_parkRow _ _
    fun _ _ _ => rfl]
  cases hrow : s.rows.lookup b with
  | none =>
    split
    · rfl
    · rfl
  | some row =>
    -- The row is parked when its own pair passes the filter.
    have hiff : (∃ p ∈ s.rows.pairs.filter fun p => parks applying omitted p.1 p.2, p.1 = b) ↔
        parks applying omitted b row = true := by
      constructor
      · rintro ⟨⟨b', row'⟩, hmem, rfl⟩
        obtain ⟨hmem, hparks⟩ := List.mem_filter.1 hmem
        obtain rfl := Option.some.inj ((Table.mem_pairs.1 hmem).symm.trans hrow)
        exact hparks
      · intro hparks
        exact ⟨(b, row), List.mem_filter.2 ⟨Table.mem_pairs.2 hrow, hparks⟩, rfl⟩
    simp only [hiff, parkedRow, Option.map_some]
    split <;> rfl

/-- A row that is parked loses its address only. -/
theorem parkedRow_cases (applying : List DesiredUser) (omitted : String → Bool) (b : String)
    (row : UserRow) : parkedRow applying omitted b row = row ∨
      parkedRow applying omitted b row = parkRow row := by
  unfold parkedRow
  split
  · exact .inr rfl
  · exact .inl rfl

/-! ## Upserts of users with free addresses -/

/-- Nobody else holds the address of a user. -/
def Free (s : Store) (user : DesiredUser) : Prop :=
  ∀ b row, s.rows.lookup b = some row → row.address = .real user.email → b = user.bindingId

theorem emailTaken_eq_false {user : DesiredUser} :
    emailTaken s user.bindingId user.email = false ↔ s.Free user := by
  simp only [emailTaken, List.any_eq_false, Bool.and_eq_true, decide_eq_true_eq, not_and,
    Prod.forall, Table.mem_pairs, Free]
  exact forall₃_congr fun b row _ => ⟨fun h haddress => by_contra fun hb => h hb haddress,
    fun h hb haddress => hb (h haddress)⟩

/-- The numbers of a user are decimals. -/
structure Numeric (user : DesiredUser) : Prop where
  quota : ∃ quota, user.quotaRemainingBytes = some quota
  allowance : ∀ allowance, user.offlineAllowanceBytes = some allowance → allowance.isSome

/-- The user is newer than its row. -/
def Newer (s : Store) (user : DesiredUser) : Prop :=
  ∃ revision, user.revision = some revision ∧
    ∀ row, s.rows.lookup user.bindingId = some row → row.revision < revision

theorem upsertApplies_of_newer {row : UserRow} {user : DesiredUser} {revision : Nat}
    (h : row.revision < revision) : upsertApplies row user revision = true := by
  simp [upsertApplies, h]

/-- The upsert of a newer user whose address is free. -/
theorem upsertDesiredUserTx_of_free {user : DesiredUser} (hnumeric : Numeric user)
    (hnewer : s.Newer user) (hfree : s.Free user) :
    ∃ revision row, user.revision = some revision ∧ Writes user revision s row ∧
      upsertDesiredUserTx user s = .ok { s with rows := s.rows.insert user.bindingId row } := by
  obtain ⟨revision, hrevision, hrow⟩ := hnewer
  obtain ⟨quota, hquota⟩ := hnumeric.quota
  obtain ⟨allowance, hallowance⟩ : ∃ allowance,
      user.offlineAllowanceBytes.getD (some s.defaultOfflineAllowance) = some allowance := by
    cases hraw : user.offlineAllowanceBytes with
    | none => exact ⟨_, rfl⟩
    | some raw => exact Option.isSome_iff_exists.1 (hnumeric.allowance raw hraw)
  have htaken := emailTaken_eq_false.2 hfree
  cases hlookup : s.rows.lookup user.bindingId with
  | none =>
    refine ⟨revision, _, hrevision, ⟨quota, allowance, hquota, .inl ⟨hlookup, rfl⟩⟩, ?_⟩
    simp [upsertDesiredUserTx, hrevision, hquota, hallowance, htaken, hlookup]
  | some row =>
    have happlies : upsertApplies row user revision = true :=
      upsertApplies_of_newer (hrow row hlookup)
    refine ⟨revision, _, hrevision,
      ⟨quota, allowance, hquota, .inr ⟨row, hlookup, happlies, rfl⟩⟩, ?_⟩
    simp [upsertDesiredUserTx, hrevision, hquota, hallowance, htaken, hlookup, happlies]

/-- An upsert of another user keeps an address free, and a user newer. -/
theorem free_insert {user other : DesiredUser} {row : UserRow} (hfree : s.Free other)
    (hemail : user.email ≠ other.email) (haddress : row.address = .real user.email) :
    ({ s with rows := s.rows.insert user.bindingId row } : Store).Free other := by
  intro b row' hrow' haddress'
  rcases Table.lookup_of_insert hrow' with ⟨-, rfl⟩ | hrow'
  · rw [haddress] at haddress'
    exact absurd (Address.real.inj haddress') hemail
  · exact hfree b row' hrow' haddress'

theorem newer_insert {user other : DesiredUser} {row : UserRow} (hnewer : s.Newer other)
    (hbinding : other.bindingId ≠ user.bindingId) :
    ({ s with rows := s.rows.insert user.bindingId row } : Store).Newer other := by
  obtain ⟨revision, hrevision, hrow⟩ := hnewer
  refine ⟨revision, hrevision, fun row' hrow' => hrow row' ?_⟩
  rwa [AList.lookup_insert_ne hbinding] at hrow'

/-- The list names each binding and each address once. -/
structure Distinct (users : List DesiredUser) : Prop where
  bindings : (users.map (·.bindingId)).Nodup
  emails : (users.map (·.email)).Nodup

theorem Distinct.tail {user : DesiredUser} (h : Distinct (user :: users)) : Distinct users :=
  ⟨(List.nodup_cons.1 h.bindings).2, (List.nodup_cons.1 h.emails).2⟩

theorem Distinct.head_ne {user other : DesiredUser} (h : Distinct (user :: users))
    (hother : other ∈ users) : other.bindingId ≠ user.bindingId ∧ user.email ≠ other.email :=
  ⟨fun heq => (List.nodup_cons.1 h.bindings).1 (List.mem_map.2 ⟨other, hother, heq⟩),
    fun heq => (List.nodup_cons.1 h.emails).1 (List.mem_map.2 ⟨other, hother, heq.symm⟩)⟩

/-- What a list makes of the rows: each user gets its row, and the other bindings keep theirs. -/
structure Assigns (users : List DesiredUser) (s s' : Store) : Prop where
  named : ∀ user ∈ users, ∃ revision row, user.revision = some revision ∧
    Writes user revision s row ∧ s'.rows.lookup user.bindingId = some row
  other : ∀ b, omittedBy users b = true → s'.rows.lookup b = s.rows.lookup b

theorem omittedBy_cons {user : DesiredUser} {b : String} :
    omittedBy (user :: users) b = true ↔ user.bindingId ≠ b ∧ omittedBy users b = true := by
  simp [omittedBy]

theorem not_omittedBy {user : DesiredUser} (h : user ∈ users) :
    omittedBy users user.bindingId = false := by
  simp only [omittedBy, Bool.not_eq_false', List.any_eq_true]
  exact ⟨user, h, by simp⟩

/-- What a user is written as depends on the row of its own binding. -/
theorem Writes.congr {user : DesiredUser} {revision : Nat} {row : UserRow}
    (h : Writes user revision s row)
    (hrow : s'.rows.lookup user.bindingId = s.rows.lookup user.bindingId) :
    Writes user revision s' row := by
  unfold Writes at h ⊢
  rwa [hrow]

/-- A list of newer users with free addresses is written as a whole. -/
theorem upsertAllTx_writes (hdistinct : Distinct users) (hnumeric : ∀ user ∈ users, Numeric user)
    (hnewer : ∀ user ∈ users, s.Newer user) (hfree : ∀ user ∈ users, s.Free user) :
    ∃ s', upsertAllTx users s = .ok s' ∧ Assigns users s s' := by
  induction users generalizing s with
  | nil => exact ⟨s, rfl, ⟨fun _ hmem => (by cases hmem), fun _ _ => rfl⟩⟩
  | cons user users ih =>
    obtain ⟨revision, row, hrevision, hwrites, hok⟩ := upsertDesiredUserTx_of_free
      (hnumeric user List.mem_cons_self) (hnewer user List.mem_cons_self)
      (hfree user List.mem_cons_self)
    obtain ⟨s', hrest, hassigns⟩ := ih (s := { s with rows := s.rows.insert user.bindingId row })
      hdistinct.tail (fun other hother => hnumeric other (List.mem_cons_of_mem _ hother))
      (fun other hother => newer_insert (hnewer other (List.mem_cons_of_mem _ hother))
        (hdistinct.head_ne hother).1)
      (fun other hother => free_insert (hfree other (List.mem_cons_of_mem _ hother))
        (hdistinct.head_ne hother).2 hwrites.fields.2.2.2.2)
    refine ⟨s', ?_, ?_, ?_⟩
    · unfold upsertAllTx at hrest ⊢
      rw [List.foldlM_cons, hok]
      exact hrest
    · intro other hother
      rcases List.mem_cons.1 hother with rfl | hother
      · have homitted : omittedBy users other.bindingId = true := by
          simp only [omittedBy, Bool.not_eq_true', List.any_eq_false, decide_eq_true_eq]
          exact fun named hnamed => (hdistinct.head_ne hnamed).1
        exact ⟨revision, row, hrevision, hwrites,
          (hassigns.other _ homitted).trans (AList.lookup_insert _)⟩
      · obtain ⟨r, row', hr, hwrites', hrow'⟩ := hassigns.named other hother
        refine ⟨r, row', hr, hwrites'.congr ?_, hrow'⟩
        exact (AList.lookup_insert_ne (hdistinct.head_ne hother).1).symm
    · intro b homitted
      obtain ⟨hne, homitted⟩ := omittedBy_cons.1 homitted
      rw [hassigns.other b homitted]
      exact AList.lookup_insert_ne hne.symm

/-! ## The hand-over of a whole list -/

/-- No address belongs to two rows. -/
def OneHolder (s : Store) : Prop :=
  ∀ b b' row row' email, s.rows.lookup b = some row → s.rows.lookup b' = some row' →
    row.address = .real email → row'.address = .real email → b = b'

/-- The list names bindings and addresses once, and each user is newer than its row. -/
structure Handover (users : List DesiredUser) (s : Store) : Prop where
  distinct : Distinct users
  numeric : ∀ user ∈ users, Numeric user
  newer : ∀ user ∈ users, s.Newer user

namespace Handover

theorem takesAddress (h : Handover users s) {user : DesiredUser} (hmem : user ∈ users) :
    Store.takesAddress s user = .ok true := by
  obtain ⟨revision, hrevision, hrow⟩ := h.newer user hmem
  unfold Store.takesAddress
  cases hlookup : s.rows.lookup user.bindingId with
  | none => rfl
  | some row => simp [hrevision, hrow row hlookup]

/-- All users of the list are takers. -/
theorem applyingUsers (h : Handover users s) : Store.applyingUsers users s = .ok users := by
  have htakes := Fallible.filterM_of_ok (q := fun _ => true) fun user hmem => h.takesAddress hmem
  rwa [List.filter_true] at htakes

/-- After the parking nobody holds an address of the list but its own user. -/
theorem parked_free (h : Handover users s)
    (hparked : parkContestedEmailsTx users (omittedBy users) s = .ok s')
    {user : DesiredUser} (hmem : user ∈ users) : s'.Free user := by
  intro b row hrow haddress
  rw [lookup_parkContestedEmailsTx h.applyingUsers hparked] at hrow
  obtain ⟨old, -, rfl⟩ := Option.map_eq_some_iff.1 hrow
  by_contra hb
  have hparks : parks users (omittedBy users) b old = false := by
    unfold parkedRow at haddress
    split at haddress
    · cases haddress
    · next hnot => simpa using hnot
  have hold : old.address = .real user.email := by
    rwa [parkedRow, hparks, if_neg Bool.false_ne_true] at haddress
  -- The user itself is the taker of its address, so the row would have been parked.
  obtain ⟨taker, htaker⟩ : ∃ taker, users.find? (·.email = user.email) = some taker :=
    Option.isSome_iff_exists.1 (List.find?_isSome.2 ⟨user, hmem, by simp⟩)
  have htakerEmail : taker.email = user.email := by simpa using List.find?_some htaker
  obtain rfl : taker = user := List.inj_on_of_nodup_map h.distinct.emails
    (List.mem_of_find?_eq_some htaker) hmem htakerEmail
  unfold parks at hparks
  rw [hold] at hparks
  simp only [htaker, omittedBy, Bool.or_not_self, Bool.and_true, decide_eq_false_iff_not,
    not_not] at hparks
  exact hb hparks.symm

theorem parked_newer (h : Handover users s)
    (hparked : parkContestedEmailsTx users (omittedBy users) s = .ok s') {user : DesiredUser}
    (hmem : user ∈ users) : s'.Newer user := by
  obtain ⟨revision, hrevision, hold⟩ := h.newer user hmem
  refine ⟨revision, hrevision, fun row hrow => ?_⟩
  rw [lookup_parkContestedEmailsTx h.applyingUsers hparked] at hrow
  obtain ⟨old, hlookup, rfl⟩ := Option.map_eq_some_iff.1 hrow
  have hlt := hold old hlookup
  rcases parkedRow_cases users (omittedBy users) user.bindingId old with heq | heq <;> rw [heq]
  · exact hlt
  · exact hlt

/-- The list is applied: each user gets its row, and another binding keeps its own, possibly
parked. -/
theorem applies (h : Handover users s) : ∃ t s', applyDesiredUsers users s = .ok s' ∧
    (∀ b, t.rows.lookup b = (s.rows.lookup b).map (parkedRow users (omittedBy users) b)) ∧
    (∀ user ∈ users, t.Free user) ∧ Assigns users t s' := by
  have hpark : ∃ t, parkContestedEmailsTx users (omittedBy users) s = .ok t := by
    unfold parkContestedEmailsTx
    rw [h.applyingUsers]
    exact ⟨_, rfl⟩
  obtain ⟨t, hparked⟩ := hpark
  obtain ⟨s', hok, hassigns⟩ := upsertAllTx_writes h.distinct h.numeric
    (fun user hmem => h.parked_newer hparked hmem) fun user hmem => h.parked_free hparked hmem
  refine ⟨t, s', ?_, lookup_parkContestedEmailsTx h.applyingUsers hparked,
    fun user hmem => h.parked_free hparked hmem, hassigns⟩
  unfold applyDesiredUsers
  rw [hparked]
  exact hok

end Handover

/-- A list whose users have free addresses leaves no address with two holders. -/
theorem Assigns.oneHolder (h : Assigns users s s') (hdistinct : Distinct users)
    (hfree : ∀ user ∈ users, s.Free user) (hone : s.OneHolder) : s'.OneHolder := by
  have hcases : ∀ b row email, s'.rows.lookup b = some row → row.address = .real email →
      (∃ user ∈ users, user.bindingId = b ∧ user.email = email) ∨
        omittedBy users b = true ∧ s.rows.lookup b = some row := by
    intro b row email hrow haddress
    by_cases homitted : omittedBy users b = true
    · exact .inr ⟨homitted, h.other b homitted ▸ hrow⟩
    · simp only [omittedBy, Bool.not_eq_true', Bool.not_eq_false, List.any_eq_true,
        decide_eq_true_eq] at homitted
      obtain ⟨user, hmem, rfl⟩ := homitted
      obtain ⟨revision, row', -, hwrites, hrow'⟩ := h.named user hmem
      obtain rfl := Option.some.inj (hrow'.symm.trans hrow)
      have hreal := hwrites.fields.2.2.2.2.symm.trans haddress
      exact .inl ⟨user, hmem, rfl, Address.real.inj hreal⟩
  intro b b' row row' email hrow hrow' haddress haddress'
  rcases hcases b row email hrow haddress with ⟨user, hmem, rfl, rfl⟩ | ⟨homitted, hold⟩ <;>
    rcases hcases b' row' _ hrow' haddress' with ⟨user', hmem', rfl, hemail⟩ | ⟨homitted', hold'⟩
  · rw [List.inj_on_of_nodup_map hdistinct.emails hmem' hmem hemail]
  · exact (hfree user hmem b' row' hold' haddress').symm
  · exact hfree user' hmem' b row hold (hemail ▸ haddress)
  · exact hone b b' row row' email hold hold' haddress haddress'

end ChordV.Agent.Store
