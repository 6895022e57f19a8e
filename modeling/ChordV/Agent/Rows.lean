import ChordV.Agent.Ledger
import ChordV.Lib.Fallible

/-!
# What the transactions do to the rows

A statement `K` about single rows that reads the row only through its identity and its
enabled flag is `Coarse`: it survives every change that keeps the identity and enables
nothing.  `AllRows K s` says that every row satisfies `K`.  This file proves for each
transaction of the store what keeps `AllRows K`, and that no transaction but the
clearing of a tombstone lowers a tombstone.

The sections follow the store: upserts, the hand-off of addresses, terminal commands,
whole snapshots, quotas, metering, and opening.
-/

namespace ChordV.Agent.Store

open Lib Fallible

/-- Every row satisfies the statement. -/
def AllRows (K : String → UserRow → Prop) (s : Store) : Prop :=
  ∀ b row, s.rows.lookup b = some row → K b row

/-- The statement reads a row through its identity and its enabled flag, and a row that
is not enabled satisfies it whenever an enabled one does. -/
def Coarse (K : String → UserRow → Prop) : Prop :=
  ∀ b row row', (row'.enabled = true → row.enabled = true) → row'.uuid = row.uuid →
    K b row → K b row'

/-- The rows a user may be written as satisfy the statement. -/
def Admits (K : String → UserRow → Prop) (user : DesiredUser) : Prop :=
  ∀ row : UserRow, row.enabled = user.enabled → row.uuid = user.uuid → K user.bindingId row

variable {K : String → UserRow → Prop} {s s' : Store}

theorem AllRows.insert (h : AllRows K s) {b : String} {row : UserRow} (hrow : K b row) :
    AllRows K { s with rows := s.rows.insert b row } := by
  intro b' row' hlookup
  rw [Table.lookup_insert_ite] at hlookup
  split at hlookup
  · next heq =>
    cases hlookup
    exact heq ▸ hrow
  · exact h b' row' hlookup

theorem AllRows.modify (h : AllRows K s) {b : String} {f : UserRow → UserRow}
    (hf : ∀ row, K b row → K b (f row)) : AllRows K { s with rows := s.rows.modify b f } := by
  intro b' row' hlookup
  rw [Table.lookup_modify] at hlookup
  split at hlookup
  · next heq =>
    subst heq
    obtain ⟨row, hrow, rfl⟩ := Option.map_eq_some_iff.1 hlookup
    exact hf row (h b' row hrow)
  · exact h b' row' hlookup

theorem AllRows.erase (h : AllRows K s) (b : String) :
    AllRows K { s with rows := s.rows.erase b } := by
  intro b' row' hlookup
  rw [Table.lookup_erase_ite] at hlookup
  split at hlookup
  · cases hlookup
  · exact h b' row' hlookup

/-- The statement only reads the rows. -/
theorem AllRows.of_rows_eq (h : AllRows K s) (hrows : s'.rows = s.rows) : AllRows K s' := by
  intro b row hlookup
  exact h b row (hrows ▸ hlookup)

/-! ## Upserts -/

@[simp] theorem updatedRow_enabled (row : UserRow) (user : DesiredUser) (r q a : Nat) :
    (updatedRow row user r q a).enabled = user.enabled := by
  unfold updatedRow
  dsimp only
  split <;> rfl

@[simp] theorem updatedRow_uuid (row : UserRow) (user : DesiredUser) (r q a : Nat) :
    (updatedRow row user r q a).uuid = user.uuid := by
  unfold updatedRow
  dsimp only
  split <;> rfl

/-- An upsert leaves the store alone, or writes the row of the user's binding. -/
theorem upsertDesiredUserTx_eq_ok {user : DesiredUser}
    (h : upsertDesiredUserTx user s = .ok s') :
    s' = s ∨ ∃ row, row.enabled = user.enabled ∧ row.uuid = user.uuid ∧
      s' = { s with rows := s.rows.insert user.bindingId row } := by
  unfold upsertDesiredUserTx at h
  obtain ⟨revision, -, h⟩ := bind_eq_ok.1 h
  split at h
  · split at h
    · cases h
      exact .inl rfl
    · obtain ⟨quota, -, h⟩ := bind_eq_ok.1 h
      obtain ⟨allowance, -, h⟩ := bind_eq_ok.1 h
      split at h
      · cases h
      · cases h
        exact .inr ⟨_, updatedRow_enabled .., updatedRow_uuid .., rfl⟩
  · obtain ⟨quota, -, h⟩ := bind_eq_ok.1 h
    obtain ⟨allowance, -, h⟩ := bind_eq_ok.1 h
    split at h
    · cases h
    · cases h
      exact .inr ⟨_, rfl, rfl, rfl⟩

theorem AllRows.upsert (h : AllRows K s) {user : DesiredUser} (huser : Admits K user)
    (hok : upsertDesiredUserTx user s = .ok s') : AllRows K s' := by
  obtain rfl | ⟨row, henabled, huuid, rfl⟩ := upsertDesiredUserTx_eq_ok hok
  · exact h
  · exact h.insert (huser row henabled huuid)

theorem upsertDesiredUserTx_tombstones {user : DesiredUser}
    (hok : upsertDesiredUserTx user s = .ok s') : s'.tombstones = s.tombstones := by
  obtain rfl | ⟨row, -, -, rfl⟩ := upsertDesiredUserTx_eq_ok hok <;> rfl

theorem AllRows.upsertAll (h : AllRows K s) {users : List DesiredUser}
    (husers : ∀ user ∈ users, Admits K user) (hok : upsertAllTx users s = .ok s') :
    AllRows K s' :=
  foldlM_induct (fun _ _ _ hu hc hstep => AllRows.upsert hc (husers _ hu) hstep) h hok

/-! ## The hand-off of addresses -/

/-- What the hand-off does to the row of a binding. -/
theorem lookup_parkContested {users : List DesiredUser} {omitted : String → Bool}
    (hok : parkContestedEmailsTx users omitted s = .ok s') (b : String) :
    s'.rows.lookup b = s.rows.lookup b ∨ s'.rows.lookup b = (s.rows.lookup b).map parkRow := by
  unfold parkContestedEmailsTx at hok
  obtain ⟨applying, -, hok⟩ := bind_eq_ok.1 hok
  cases hok
  -- Parking is idempotent, so after any part of the loop the row is untouched or parked.
  refine List.foldlRecOn (motive := fun rows : Table String UserRow =>
    rows.lookup b = s.rows.lookup b ∨ rows.lookup b = (s.rows.lookup b).map parkRow)
    s.rows.pairs _ (.inl rfl) ?_
  intro rows h p _
  split
  · rw [Table.lookup_modify]
    by_cases hb : b = p.1
    · rw [if_pos hb, ← hb]
      rcases h with h | h <;> rw [h]
      · exact .inr rfl
      · right
        rw [Option.map_map]
        rfl
    · rw [if_neg hb]
      exact h
  · exact h

theorem parkContestedEmailsTx_tombstones {users : List DesiredUser} {omitted : String → Bool}
    (hok : parkContestedEmailsTx users omitted s = .ok s') : s'.tombstones = s.tombstones := by
  unfold parkContestedEmailsTx at hok
  obtain ⟨applying, -, hok⟩ := bind_eq_ok.1 hok
  cases hok
  rfl

theorem AllRows.park (h : AllRows K s) (hK : Coarse K) {users : List DesiredUser}
    {omitted : String → Bool} (hok : parkContestedEmailsTx users omitted s = .ok s') :
    AllRows K s' := by
  intro b row hlookup
  rcases lookup_parkContested hok b with heq | heq <;> rw [heq] at hlookup
  · exact h b row hlookup
  · obtain ⟨row₀, hrow₀, rfl⟩ := Option.map_eq_some_iff.1 hlookup
    exact hK b row₀ _ (fun he => he) rfl (h b row₀ hrow₀)

theorem AllRows.applyDesiredUsers (h : AllRows K s) (hK : Coarse K) {users : List DesiredUser}
    (husers : ∀ user ∈ users, Admits K user)
    (hok : Store.applyDesiredUsers users s = .ok s') : AllRows K s' := by
  obtain ⟨s₁, hpark, hok⟩ := bind_eq_ok.1 hok
  exact (h.park hK hpark).upsertAll husers hok

theorem upsertAllTx_tombstones {users : List DesiredUser} (hok : upsertAllTx users s = .ok s') :
    s'.tombstones = s.tombstones :=
  foldlM_induct (I := fun t => t.tombstones = s.tombstones)
    (fun _ _ _ _ hc hstep => (upsertDesiredUserTx_tombstones hstep).trans hc) rfl hok

theorem applyDesiredUsers_tombstones {users : List DesiredUser}
    (hok : Store.applyDesiredUsers users s = .ok s') : s'.tombstones = s.tombstones := by
  obtain ⟨s₁, hpark, hok⟩ := bind_eq_ok.1 hok
  exact (upsertAllTx_tombstones hok).trans (parkContestedEmailsTx_tombstones hpark)

/-! ## Tombstones and terminal commands -/

theorem bindingTombstone_congr (h : s'.tombstones = s.tombstones) (b : String) :
    s'.bindingTombstone b = s.bindingTombstone b := by
  unfold bindingTombstone
  rw [h]

/-- Recording a tombstone raises the one of its binding to the revision at least. -/
theorem bindingTombstone_recordTombstoneTx (s : Store) (b b' : String) (r : Nat) (e : String) :
    (recordTombstoneTx b r e s).bindingTombstone b' =
      if b' = b then max (s.bindingTombstone b) r else s.bindingTombstone b' := by
  unfold recordTombstoneTx bindingTombstone
  cases h : s.tombstones.lookup b with
  | none =>
    dsimp only
    rw [Table.lookup_insert_ite]
    split <;> simp
  | some t =>
    dsimp only
    split
    · next hle =>
      split
      · next heq =>
        rw [heq, h]
        simp [hle]
      · rfl
    · next hlt =>
      dsimp only
      rw [Table.lookup_insert_ite]
      split
      · simp only [Option.map_some, Option.getD_some]
        omega
      · rfl

theorem le_bindingTombstone_recordTombstoneTx (s : Store) (b b' : String) (r : Nat) (e : String) :
    s.bindingTombstone b' ≤ (recordTombstoneTx b r e s).bindingTombstone b' := by
  rw [bindingTombstone_recordTombstoneTx]
  split
  · next heq => exact heq ▸ Nat.le_max_left _ _
  · exact Nat.le_refl _

@[simp] theorem recordTombstoneTx_rows (b : String) (r : Nat) (e : String) (s : Store) :
    (recordTombstoneTx b r e s).rows = s.rows := by
  unfold recordTombstoneTx
  split
  · rfl
  · split <;> rfl

@[simp] theorem retireRowTx_tombstones (b : String) (r : Nat) (remove : Bool) (s : Store) :
    (retireRowTx b r remove s).tombstones = s.tombstones := by
  unfold retireRowTx
  split <;> rfl

theorem AllRows.applyTerminal (h : AllRows K s) (hK : Coarse K) {b e : String} {r : Nat}
    {remove : Bool} (hok : Store.applyTerminal b r e remove s = .ok s') : AllRows K s' := by
  unfold Store.applyTerminal at hok
  split at hok
  · cases hok
  · cases hok
    have h' : AllRows K (recordTombstoneTx b r e s) := h.of_rows_eq (by simp)
    unfold retireRowTx
    split
    · exact h'.erase b
    · refine h'.modify fun row hrow => ?_
      split
      · exact hrow
      · exact hK b row _ (by simp) rfl hrow

theorem bindingTombstone_applyTerminal {b e : String} {r : Nat} {remove : Bool}
    (hok : Store.applyTerminal b r e remove s = .ok s') (b' : String) :
    s'.bindingTombstone b' =
      if b' = b then max (s.bindingTombstone b) r else s.bindingTombstone b' := by
  unfold Store.applyTerminal at hok
  split at hok
  · cases hok
  · cases hok
    rw [bindingTombstone_congr (retireRowTx_tombstones ..), bindingTombstone_recordTombstoneTx]

/-! ## Whole snapshots -/

theorem AllRows.dropOmitted (h : AllRows K s) (r : Nat) (ps : List (String × UserRow)) :
    AllRows K (ps.foldl (dropOmittedTx r) s) := by
  induction ps generalizing s with
  | nil => exact h
  | cons p ps ih =>
    have h' : AllRows K (recordTombstoneTx p.1 r p.2.address.original s) :=
      h.of_rows_eq (by simp)
    exact ih (h'.erase p.1)

theorem le_bindingTombstone_dropOmitted (s : Store) (r : Nat) (ps : List (String × UserRow))
    (b : String) : s.bindingTombstone b ≤ (ps.foldl (dropOmittedTx r) s).bindingTombstone b := by
  induction ps generalizing s with
  | nil => exact Nat.le_refl _
  | cons p ps ih =>
    exact (le_bindingTombstone_recordTombstoneTx s p.1 b r _).trans (ih (dropOmittedTx r s p))

theorem AllRows.applyConfigSnapshot (h : AllRows K s) (hK : Coarse K) {snapshot : ConfigSnapshot}
    {applied : Bool} (husers : ∀ user ∈ snapshot.users, Admits K user)
    (hok : Store.applyConfigSnapshot snapshot s = .ok (applied, s')) : AllRows K s' := by
  unfold Store.applyConfigSnapshot at hok
  split at hok
  · cases hok
  obtain ⟨revision, -, hok⟩ := bind_eq_ok.1 hok
  split at hok
  · cases hok
    exact h
  · obtain ⟨s₁, hreplace, hok⟩ := bind_eq_ok.1 hok
    cases hok
    obtain ⟨s₂, happly, hreplace⟩ := bind_eq_ok.1 hreplace
    cases hreplace
    exact (h.applyDesiredUsers hK husers happly).dropOmitted revision _

theorem le_bindingTombstone_applyConfigSnapshot {snapshot : ConfigSnapshot} {applied : Bool}
    (hok : Store.applyConfigSnapshot snapshot s = .ok (applied, s')) (b : String) :
    s.bindingTombstone b ≤ s'.bindingTombstone b := by
  unfold Store.applyConfigSnapshot at hok
  split at hok
  · cases hok
  obtain ⟨revision, -, hok⟩ := bind_eq_ok.1 hok
  split at hok
  · cases hok
    exact Nat.le_refl _
  · obtain ⟨s₁, hreplace, hok⟩ := bind_eq_ok.1 hok
    cases hok
    obtain ⟨s₂, happly, hreplace⟩ := bind_eq_ok.1 hreplace
    cases hreplace
    have heq := bindingTombstone_congr (applyDesiredUsers_tombstones happly) b
    exact heq ▸ le_bindingTombstone_dropOmitted s₂ revision _ b

/-! ## Quotas and restored users -/

theorem AllRows.updateQuota (h : AllRows K s) (hK : Coarse K) (b : String) (q r : Nat) :
    AllRows K (Store.updateQuota b q r s) := by
  refine h.modify fun row hrow => ?_
  split
  · exact hrow
  · exact hK b row _ (fun he => he) rfl hrow

theorem AllRows.restore (h : AllRows K s) {users : List DesiredUser}
    (husers : ∀ user ∈ users, ∀ row row' : UserRow, row'.uuid = row.uuid →
      K user.bindingId row → K user.bindingId row')
    (hok : restoreBackendConfirmedUsers users s = .ok s') : AllRows K s' := by
  refine foldlM_induct (fun c user c' hu hc hstep => ?_) h hok
  unfold restoreUserTx at hstep
  split at hstep
  · cases hstep
    exact hc
  · next row hlookup =>
    obtain ⟨backend, -, hstep⟩ := bind_eq_ok.1 hstep
    cases hstep
    exact AllRows.insert hc (husers user hu row _ rfl (hc _ row hlookup))

theorem restoreBackendConfirmedUsers_tombstones {users : List DesiredUser}
    (hok : restoreBackendConfirmedUsers users s = .ok s') : s'.tombstones = s.tombstones := by
  refine foldlM_induct (I := fun t => t.tombstones = s.tombstones) ?_ rfl hok
  intro c user c' _ hc hstep
  unfold restoreUserTx at hstep
  split at hstep
  · cases hstep
    exact hc
  · obtain ⟨backend, -, hstep⟩ := bind_eq_ok.1 hstep
    cases hstep
    exact hc

/-! ## Metering -/

theorem lookup_of_userByEmail {email b : String} {row : UserRow}
    (h : s.userByEmail email = some (b, row)) :
    s.rows.lookup b = some row ∧ row.address = .real email := by
  unfold userByEmail at h
  exact ⟨Table.mem_pairs.1 (List.mem_of_find?_eq_some h), by simpa using List.find?_some h⟩

/-- One counter touches the row of one enabled binding and nothing else of the store. -/
theorem foldOne_store (online : Bool) (t : Tick) (counter : AbsoluteCounter) :
    (foldOne online t counter).store = t.store ∨
      ∃ b row, t.store.rows.lookup b = some row ∧ row.address = .real counter.email ∧
        row.enabled = true ∧ (foldOne online t counter).store =
          { t.store with
            rows := t.store.rows.insert b (foldCounter b row counter online).row } := by
  unfold foldOne
  split
  · exact .inl rfl
  · next b row hfound =>
    split
    · exact .inl rfl
    · next henabled =>
      obtain ⟨hlookup, haddress⟩ := lookup_of_userByEmail hfound
      refine .inr ⟨b, row, hlookup, haddress, by simpa using henabled, rfl⟩

theorem foldCounter_uuid (b : String) (row : UserRow) (counter : AbsoluteCounter) (online : Bool) :
    (foldCounter b row counter online).row.uuid = row.uuid := rfl

/-- What holds of the store after every counter holds after a sample.  A counter is found by
its address. -/
theorem recordSample_induct_real {I : Store → Prop}
    (hbatch : ∀ s batches nextSequence, I s → I { s with batches, nextSequence })
    (hrow : ∀ s b row counter online, s.rows.lookup b = some row →
      row.address = .real counter.email → row.enabled = true → I s →
      I { s with rows := s.rows.insert b (foldCounter b row counter online).row })
    (counters : List AbsoluteCounter) (sampledAt : Nat) (online : Bool) (hs : I s) :
    I (s.recordSample counters sampledAt online).2 := by
  have htick : ∀ (cs : List AbsoluteCounter) (t : Tick), I t.store →
      I (cs.foldl (foldOne online) t).store := by
    intro cs
    induction cs with
    | nil => exact fun _ ht => ht
    | cons c cs ih =>
      intro t ht
      refine ih _ ?_
      rcases foldOne_store online t c with heq | ⟨b, row, hlookup, haddress, henabled, heq⟩ <;>
        rw [heq]
      · exact ht
      · exact hrow _ b row c online hlookup haddress henabled ht
  unfold recordSample cutBatch
  dsimp only
  split
  · exact htick counters { store := s } hs
  · exact hbatch _ _ _ (htick counters { store := s } hs)

@[inherit_doc recordSample_induct_real]
theorem recordSample_induct {I : Store → Prop}
    (hbatch : ∀ s batches nextSequence, I s → I { s with batches, nextSequence })
    (hrow : ∀ s b row counter online, s.rows.lookup b = some row → row.enabled = true → I s →
      I { s with rows := s.rows.insert b (foldCounter b row counter online).row })
    (counters : List AbsoluteCounter) (sampledAt : Nat) (online : Bool) (hs : I s) :
    I (s.recordSample counters sampledAt online).2 :=
  recordSample_induct_real hbatch
    (fun s b row counter online hlookup _ => hrow s b row counter online hlookup) counters sampledAt
    online hs

theorem AllRows.recordSample (h : AllRows K s) (hK : Coarse K) (counters : List AbsoluteCounter)
    (sampledAt : Nat) (online : Bool) :
    AllRows K (s.recordSample counters sampledAt online).2 := by
  refine recordSample_induct (fun _ _ _ h => h) ?_ counters sampledAt online h
  intro s b row counter online hlookup henabled h
  exact AllRows.insert h (hK b row _ (fun _ => henabled) (foldCounter_uuid ..) (h b row hlookup))

theorem recordSample_tombstones (s : Store) (counters : List AbsoluteCounter) (sampledAt : Nat)
    (online : Bool) : (s.recordSample counters sampledAt online).2.tombstones = s.tombstones :=
  recordSample_induct (I := fun t => t.tombstones = s.tombstones) (fun _ _ _ h => h)
    (fun _ _ _ _ _ _ _ h => h) counters sampledAt online rfl

/-! ## Opening the store -/

theorem AllRows.recoverParkedRow (h : AllRows K s) (hK : Coarse K) (b : String) :
    AllRows K (Store.recoverParkedRow b s) := by
  unfold Store.recoverParkedRow
  split
  · next row hlookup =>
    split
    · exact h
    · split
      · exact h
      · exact h.insert (hK b row _ (fun he => he) rfl (h b row hlookup))
  · exact h

theorem recoverParkedRow_tombstones (b : String) (s : Store) :
    (Store.recoverParkedRow b s).tombstones = s.tombstones := by
  unfold Store.recoverParkedRow
  repeat' first | rfl | split

@[simp] theorem backfillSnapshotRevision_rows (s : Store) :
    s.backfillSnapshotRevision.rows = s.rows := by
  unfold backfillSnapshotRevision
  split <;> rfl

@[simp] theorem backfillSnapshotRevision_tombstones (s : Store) :
    s.backfillSnapshotRevision.tombstones = s.tombstones := by
  unfold backfillSnapshotRevision
  split <;> rfl

@[simp] theorem initializeBoot_rows (bootId : String) (s : Store) :
    (initializeBoot bootId s).rows = s.rows := by
  unfold initializeBoot
  split <;> rfl

@[simp] theorem initializeBoot_tombstones (bootId : String) (s : Store) :
    (initializeBoot bootId s).tombstones = s.tombstones := by
  unfold initializeBoot
  split <;> rfl

end ChordV.Agent.Store
