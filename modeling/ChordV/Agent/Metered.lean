import ChordV.Agent.Handoff
import ChordV.Agent.Tombstones

/-!
# Installed and metered

A sample finds the row of an account by its address.  This file says when a reconciliation leaves
a named user with a row at its address.

* `Fewer` compares what the rows hold, and `Change.oneHolder` says that no write of the store
  gives an address to two rows.
* `Accepts` says that the store takes the record of a user, or has its address already.
  `upsertAllTx_rows` and `applyDesiredUsers_holds` are what a list makes of the rows.
* `reconcile_rows` is what a reconciliation does to the rows, and `installed_means_metered` puts
  the two together.
-/

namespace ChordV.Agent

open Lib Fallible

namespace Store

variable {s s' s'' : Store} {b : String} {users : List DesiredUser}

/-! ## One holder for each address -/

/-- The row of a binding is at an address. -/
def Holds (s : Store) (b email : String) : Prop :=
  ∃ row, s.rows.lookup b = some row ∧ row.address = .real email

theorem oneHolder_iff :
    s.OneHolder ↔ ∀ b b' email, s.Holds b email → s.Holds b' email → b = b' := by
  constructor
  · rintro h b b' email ⟨row, hrow, haddress⟩ ⟨row', hrow', haddress'⟩
    exact h b b' row row' email hrow hrow' haddress haddress'
  · intro h b b' row row' email hrow hrow' haddress haddress'
    exact h b b' email ⟨row, hrow, haddress⟩ ⟨row', hrow', haddress'⟩

/-- No row has come to an address. -/
def Fewer (s s' : Store) : Prop := ∀ b email, s'.Holds b email → s.Holds b email

namespace Fewer

theorem of_rows (h : s'.rows = s.rows) : Fewer s s' := by
  rintro b email ⟨row, hrow, haddress⟩
  exact ⟨row, h ▸ hrow, haddress⟩

theorem trans (h : Fewer s s') (h' : Fewer s' s'') : Fewer s s'' :=
  fun b email hholds => h b email (h' b email hholds)

theorem modify {f : UserRow → UserRow} (hf : ∀ row, (f row).address = row.address) :
    Fewer s { s with rows := s.rows.modify b f } := by
  rintro b' email ⟨row, hrow, haddress⟩
  rw [Table.lookup_modify] at hrow
  split at hrow
  · next heq =>
    obtain ⟨old, hold, rfl⟩ := Option.map_eq_some_iff.1 hrow
    exact ⟨old, heq ▸ hold, hf old ▸ haddress⟩
  · exact ⟨row, hrow, haddress⟩

theorem insert {row row' : UserRow} (hrow : s.rows.lookup b = some row)
    (haddress : row'.address = row.address) : Fewer s { s with rows := s.rows.insert b row' } := by
  rintro b' email ⟨row'', hrow'', haddress''⟩
  rcases Table.lookup_of_insert hrow'' with ⟨rfl, rfl⟩ | hrow''
  · exact ⟨row, hrow, haddress ▸ haddress''⟩
  · exact ⟨row'', hrow'', haddress''⟩

theorem erase : Fewer s { s with rows := s.rows.erase b } := by
  rintro b' email ⟨row, hrow, haddress⟩
  exact ⟨row, Table.lookup_of_erase hrow, haddress⟩

theorem park {omitted : String → Bool} (hok : parkContestedEmailsTx users omitted s = .ok s') :
    Fewer s s' := by
  rintro b email ⟨row, hrow, haddress⟩
  rcases lookup_parkContested hok b with heq | heq <;> rw [heq] at hrow
  · exact ⟨row, hrow, haddress⟩
  · obtain ⟨old, -, rfl⟩ := Option.map_eq_some_iff.1 hrow
    cases haddress

theorem dropOmitted (revision : Nat) (dropped : List (String × UserRow)) :
    Fewer s (dropped.foldl (dropOmittedTx revision) s) := by
  refine List.foldlRecOn (motive := fun t => Fewer s t) dropped (dropOmittedTx revision)
    (fun _ _ h => h) fun t ht p _ => ?_
  exact (ht.trans (of_rows (recordTombstoneTx_rows ..))).trans erase

theorem applyTerminal {email : String} {revision : Nat} {remove : Bool}
    (hok : Store.applyTerminal b revision email remove s = .ok s') : Fewer s s' := by
  unfold Store.applyTerminal at hok
  split at hok
  · cases hok
  · cases hok
    refine (of_rows (recordTombstoneTx_rows b revision email s)).trans ?_
    unfold retireRowTx
    split
    · exact erase
    · refine modify fun row => ?_
      split <;> rfl

theorem restore (hok : restoreBackendConfirmedUsers users s = .ok s') : Fewer s s' := by
  refine foldlM_induct (I := Fewer s) (fun t user t' _ ht hstep => ?_) (fun _ _ h => h) hok
  refine ht.trans ?_
  unfold restoreUserTx at hstep
  split at hstep
  · cases hstep
    exact fun _ _ h => h
  · next row hrow =>
    obtain ⟨backend, -, hstep⟩ := bind_eq_ok.1 hstep
    cases hstep
    exact insert hrow rfl

theorem recordSample (counters : List AbsoluteCounter) (sampledAt : Nat) (online : Bool) :
    Fewer s (s.recordSample counters sampledAt online).2 := by
  refine recordSample_induct (I := Fewer s) (fun t _ _ ht => ht.trans (of_rows rfl)) ?_ counters
    sampledAt online fun _ _ h => h
  intro t b row counter online hrow _ ht
  exact ht.trans (insert hrow rfl)

end Fewer

namespace OneHolder

theorem fewer (h : s.OneHolder) (hfewer : Fewer s s') : s'.OneHolder :=
  oneHolder_iff.2 fun b b' email hholds hholds' =>
    oneHolder_iff.1 h b b' email (hfewer b email hholds) (hfewer b' email hholds')

/-- A row at a free address leaves every address with one holder. -/
theorem insert (h : s.OneHolder) {row : UserRow}
    (hfree : ∀ email, row.address = .real email → ∀ b', s.Holds b' email → b' = b) :
    OneHolder { s with rows := s.rows.insert b row } := by
  refine oneHolder_iff.2 ?_
  rintro c c' email ⟨row₁, hrow₁, haddress₁⟩ ⟨row₂, hrow₂, haddress₂⟩
  rcases Table.lookup_of_insert hrow₁ with ⟨rfl, rfl⟩ | hold₁ <;>
    rcases Table.lookup_of_insert hrow₂ with ⟨rfl, rfl⟩ | hold₂
  · rfl
  · exact (hfree email haddress₁ c' ⟨row₂, hold₂, haddress₂⟩).symm
  · exact hfree email haddress₂ c ⟨row₁, hold₁, haddress₁⟩
  · exact oneHolder_iff.1 h c c' email ⟨row₁, hold₁, haddress₁⟩ ⟨row₂, hold₂, haddress₂⟩

theorem upsert {user : DesiredUser} (h : s.OneHolder)
    (hok : upsertDesiredUserTx user s = .ok s') : s'.OneHolder := by
  obtain ⟨revision, -, ⟨_, -, -, rfl⟩ | ⟨row, hwrites, hfree, rfl⟩⟩ := upsertDesiredUserTx_cases hok
  · exact h
  · refine h.insert fun email haddress b' hholds => ?_
    obtain ⟨old, hold, haddress'⟩ := hholds
    have hemail := Address.real.inj (hwrites.fields.2.2.2.2.symm.trans haddress)
    exact emailTaken_eq_false.1 hfree b' old hold (hemail ▸ haddress')

theorem applyDesiredUsers (h : s.OneHolder) (hok : Store.applyDesiredUsers users s = .ok s') :
    s'.OneHolder := by
  obtain ⟨t, hpark, hok⟩ := bind_eq_ok.1 hok
  exact foldlM_induct (fun _ _ _ _ ht hstep => upsert ht hstep) (h.fewer (Fewer.park hpark)) hok

theorem replaceDesiredUsersTx {revision : Nat} (h : s.OneHolder)
    (hok : Store.replaceDesiredUsersTx users revision s = .ok s') : s'.OneHolder := by
  obtain ⟨t, happly, hok⟩ := bind_eq_ok.1 hok
  cases hok
  exact ((h.applyDesiredUsers happly).fewer (Fewer.dropOmitted revision _)).fewer
    (Fewer.of_rows rfl)

theorem applyConfigSnapshot {snapshot : ConfigSnapshot} {applied : Bool} (h : s.OneHolder)
    (hok : Store.applyConfigSnapshot snapshot s = .ok (applied, s')) : s'.OneHolder := by
  unfold Store.applyConfigSnapshot at hok
  split at hok
  · cases hok
  obtain ⟨revision, -, hok⟩ := bind_eq_ok.1 hok
  split at hok
  · cases hok
    exact h
  · obtain ⟨t, hreplace, hok⟩ := bind_eq_ok.1 hok
    cases hok
    exact (h.replaceDesiredUsersTx hreplace).fewer (Fewer.of_rows rfl)

theorem recoverParkedRow (h : s.OneHolder) (b : String) :
    (Store.recoverParkedRow b s).OneHolder := by
  unfold Store.recoverParkedRow
  split
  · next row hrow =>
    split
    · exact h
    · next email haddress =>
      split
      · exact h
      · next hfree =>
        simp only [Bool.or_eq_true, decide_eq_true_eq, not_or, Bool.not_eq_true,
          Option.isSome_eq_false_iff, Option.isNone_iff_eq_none] at hfree
        refine h.insert fun email' haddress' b' hholds => ?_
        obtain rfl := Address.real.inj haddress'
        obtain ⟨old, hold, hreal⟩ := hholds
        have hnone := List.find?_eq_none.1 hfree.2 (b', old) (Table.mem_pairs.2 hold)
        exact absurd hreal (by simpa using hnone)
  · exact h

/-- A search of the rows by address finds the row there. -/
theorem userByEmail (h : s.OneHolder) {row : UserRow} {email : String}
    (hrow : s.rows.lookup b = some row) (haddress : row.address = .real email) :
    s.userByEmail email = some (b, row) := by
  obtain ⟨⟨b', found⟩, hfound⟩ : ∃ p, s.userByEmail email = some p :=
    Option.isSome_iff_exists.1
      (List.find?_isSome.2 ⟨_, Table.mem_pairs.2 hrow, by simp [haddress]⟩)
  obtain ⟨hrow', haddress'⟩ := lookup_of_userByEmail hfound
  obtain rfl := h b' b found row email hrow' hrow haddress' haddress
  rw [hfound, Option.some.inj (hrow'.symm.trans hrow)]

end OneHolder

/-- No write of the store gives an address to two rows. -/
theorem Change.oneHolder {c : Change} (hok : c.apply s = .ok s') (h : s.OneHolder) :
    s'.OneHolder := by
  cases c with
  | upsertDesiredUser user => exact h.upsert hok
  | applyDesiredUsers users => exact h.applyDesiredUsers hok
  | replaceDesiredUsers users revision =>
    obtain ⟨r, -, hok⟩ := bind_eq_ok.1 hok
    exact h.replaceDesiredUsersTx hok
  | applyConfigSnapshot snapshot =>
    obtain ⟨⟨applied, t⟩, happly, rfl⟩ := map_eq_ok.1 hok
    exact h.applyConfigSnapshot happly
  | recoverParkedRow b =>
    cases hok
    exact h.recoverParkedRow b
  | applyTerminal b revision email remove => exact h.fewer (Fewer.applyTerminal hok)
  | restoreBackendConfirmedUsers users => exact h.fewer (Fewer.restore hok)
  | recordBindingTombstone b revision =>
    obtain ⟨r, -, hok⟩ := bind_eq_ok.1 hok
    cases hok
    exact h.fewer (Fewer.of_rows (recordTombstoneTx_rows ..))
  | recordSample counters sampledAt online =>
    cases hok
    exact h.fewer (Fewer.recordSample counters sampledAt online)
  | updateQuota b quota revision =>
    cases hok
    refine h.fewer (Fewer.modify fun row => ?_)
    split <;> rfl
  | setUserEnabled b enabled revision =>
    cases hok
    refine h.fewer (Fewer.modify fun row => ?_)
    split <;> rfl
  | deleteUser b =>
    cases hok
    exact h.fewer Fewer.erase
  | recordProvisioned bindingId email uuid =>
    cases hok
    refine h.fewer (Fewer.of_rows ?_)
    unfold Store.recordProvisioned
    split <;> rfl
  | recordProvisionIntent bindingId email uuid =>
    cases hok
    refine h.fewer (Fewer.of_rows ?_)
    unfold Store.recordProvisionIntent
    split <;> rfl
  | backfillSnapshotRevision =>
    cases hok
    exact h.fewer (Fewer.of_rows (backfillSnapshotRevision_rows s))
  | initializeBoot bootId =>
    cases hok
    exact h.fewer (Fewer.of_rows (initializeBoot_rows bootId s))
  | _ =>
    cases hok
    exact h.fewer (Fewer.of_rows rfl)

/-- Along every run of writes from an empty store the addresses are unique. -/
theorem Change.oneHolder_run (attempts : List (Change × Bool)) (hrows : s.rows = ∅) :
    (attempts.foldl Change.step s).OneHolder := by
  have hempty : s.OneHolder := by
    intro b b' row row' email hrow
    rw [hrows] at hrow
    cases hrow
  refine List.foldlRecOn (motive := OneHolder) attempts Change.step hempty ?_
  rintro t ht ⟨c, committed⟩ -
  rcases Change.step_cases t c committed with heq | ⟨-, hok⟩
  · rw [heq]
    exact ht
  · exact Change.oneHolder hok ht

/-! ## What a list makes of the rows -/

/-- The store takes the record of a user, or has the user at its address already. -/
def accepts (s : Store) (user : DesiredUser) : Bool :=
  match s.rows.lookup user.bindingId with
  | none => true
  | some row => row.address = .real user.email ||
      (user.revision.map (upsertApplies row user)).getD false

/-- The upserts of a list with distinct bindings: the row of each user is written, or stands
above it, and the other rows stay. -/
structure Upserted (users : List DesiredUser) (s s' : Store) : Prop where
  named : ∀ user ∈ users, ∃ revision, user.revision = some revision ∧
    ((∃ row, s.rows.lookup user.bindingId = some row ∧ upsertApplies row user revision = false ∧
        s'.rows.lookup user.bindingId = some row) ∨
      ∃ row, Writes user revision s row ∧ s'.rows.lookup user.bindingId = some row)
  other : ∀ b, omittedBy users b = true → s'.rows.lookup b = s.rows.lookup b

theorem upsertAllTx_rows (hdistinct : Distinct users) (hok : upsertAllTx users s = .ok s') :
    Upserted users s s' := by
  induction users generalizing s with
  | nil =>
    cases hok
    exact ⟨fun _ hmem => (by cases hmem), fun _ _ => rfl⟩
  | cons user users ih =>
    unfold upsertAllTx at ih hok
    rw [List.foldlM_cons, bind_eq_ok] at hok
    obtain ⟨t, hhead, hok⟩ := hok
    have hrest := ih hdistinct.tail hok
    have hne : ∀ b, user.bindingId ≠ b → t.rows.lookup b = s.rows.lookup b :=
      fun b hb => upsertDesiredUserTx_lookup_ne hb hhead
    have homitted : omittedBy users user.bindingId = true := by
      simp only [omittedBy, Bool.not_eq_true', List.any_eq_false, decide_eq_true_eq]
      exact fun named hnamed => (hdistinct.head_ne hnamed).1
    refine ⟨fun other hother => ?_, fun b hb => ?_⟩
    · rcases List.mem_cons.1 hother with rfl | hother
      · rw [hrest.other _ homitted]
        obtain ⟨revision, hrevision, ⟨row, hrow, hskipped, rfl⟩ | ⟨row, hwrites, -, rfl⟩⟩ :=
          upsertDesiredUserTx_cases hhead
        · exact ⟨revision, hrevision, .inl ⟨row, hrow, hskipped, hrow⟩⟩
        · exact ⟨revision, hrevision, .inr ⟨row, hwrites, AList.lookup_insert _⟩⟩
      · have hsame := hne other.bindingId (hdistinct.head_ne hother).1.symm
        obtain ⟨revision, hrevision, hrow⟩ := hrest.named other hother
        rw [hsame] at hrow
        refine ⟨revision, hrevision, hrow.imp_right ?_⟩
        rintro ⟨row, hwrites, hrow⟩
        exact ⟨row, hwrites.congr hsame.symm, hrow⟩
    · obtain ⟨hb, homitted⟩ := omittedBy_cons.1 hb
      rw [hrest.other b homitted, hne b hb]

@[simp] theorem upsertApplies_parkedRow (applying : List DesiredUser) (omitted : String → Bool)
    (b : String) (row : UserRow) (user : DesiredUser) (revision : Nat) :
    upsertApplies (parkedRow applying omitted b row) user revision =
      upsertApplies row user revision := by
  rcases parkedRow_cases applying omitted b row with heq | heq <;> rw [heq]
  rfl

/-- A row stays at an address that only its own binding takes. -/
theorem parkedRow_address {applying : List DesiredUser} {omitted : String → Bool} {row : UserRow}
    {email : String} (hown : ∀ taker ∈ applying, taker.email = email → taker.bindingId = b) :
    (parkedRow applying omitted b row).address = .real email ↔ row.address = .real email := by
  constructor
  · intro haddress
    rcases parkedRow_cases applying omitted b row with heq | heq <;> rw [heq] at haddress
    · exact haddress
    · cases haddress
  · intro haddress
    have hparks : parks applying omitted b row = false := by
      unfold parks
      rw [haddress]
      cases htaker : applying.find? (·.email = email) with
      | none => simp [htaker]
      | some taker =>
        have hemail : taker.email = email := by simpa using List.find?_some htaker
        have hb := hown taker (List.mem_of_find?_eq_some htaker) hemail
        simp [htaker, hb]
    rwa [parkedRow, hparks, if_neg Bool.false_ne_true]

@[simp] theorem parkedRow_uuid (applying : List DesiredUser) (omitted : String → Bool) (b : String)
    (row : UserRow) : (parkedRow applying omitted b row).uuid = row.uuid := by
  rcases parkedRow_cases applying omitted b row with heq | heq <;> rw [heq]
  rfl

/-- Among the users of a list, the address of one belongs to its own binding. -/
theorem Distinct.own (h : Distinct users) (p : DesiredUser → Bool) {user : DesiredUser}
    (hmem : user ∈ users) :
    ∀ taker ∈ users.filter p, taker.email = user.email → taker.bindingId = user.bindingId := by
  intro taker htaker hemail
  rw [List.inj_on_of_nodup_map h.emails (List.mem_filter.1 htaker).1 hmem hemail]

/-- The two halves of `ApplyDesiredUsers`. -/
theorem applyDesiredUsers_cases (hdistinct : Distinct users)
    (hok : applyDesiredUsers users s = .ok s') :
    ∃ t, (∀ b, t.rows.lookup b = (s.rows.lookup b).map
        (parkedRow (users.filter (accepted (takesAddress s))) (omittedBy users) b)) ∧
      Upserted users t s' := by
  obtain ⟨t, hpark, hupsert⟩ := bind_eq_ok.1 hok
  obtain ⟨applying, happlying, -⟩ := bind_eq_ok.1 hpark
  have hfilter := filterM_eq_ok happlying
  subst hfilter
  exact ⟨t, lookup_parkContestedEmailsTx happlying hpark, upsertAllTx_rows hdistinct hupsert⟩

/-- A named user is at its address afterwards if its record was accepted. -/
theorem applyDesiredUsers_holds (hdistinct : Distinct users)
    (hok : applyDesiredUsers users s = .ok s') {user : DesiredUser} (hmem : user ∈ users) :
    s'.Holds user.bindingId user.email ↔ s.accepts user = true := by
  obtain ⟨t, hparked, hupserted⟩ := applyDesiredUsers_cases hdistinct hok
  have hown := hdistinct.own (accepted (takesAddress s)) hmem
  obtain ⟨revision, hrevision, ⟨row, hrow, hskipped, hrow'⟩ | ⟨row, hwrites, hrow'⟩⟩ :=
    hupserted.named user hmem
  · -- The row stands above the user, so it is where the hand-off left it.
    rw [hparked] at hrow
    obtain ⟨old, hold, rfl⟩ := Option.map_eq_some_iff.1 hrow
    rw [upsertApplies_parkedRow] at hskipped
    simp [Holds, hrow', accepts, hold, hrevision, hskipped, parkedRow_address hown]
  · refine iff_of_true ⟨row, hrow', hwrites.fields.2.2.2.2⟩ ?_
    obtain ⟨quota, allowance, -, ⟨hnone, -⟩ | ⟨old, hold, happlies, -⟩⟩ := hwrites
    · rw [hparked, Option.map_eq_none_iff] at hnone
      simp [accepts, hnone]
    · rw [hparked] at hold
      obtain ⟨before, hbefore, rfl⟩ := Option.map_eq_some_iff.1 hold
      rw [upsertApplies_parkedRow] at happlies
      simp [accepts, hbefore, hrevision, happlies]

/-- What `takesAddress` counts as a taker is accepted. -/
theorem accepts_of_takes {user : DesiredUser} (h : takesAddress s user = .ok true) :
    s.accepts user = true := by
  unfold takesAddress at h
  unfold accepts
  cases hrow : s.rows.lookup user.bindingId with
  | none => rfl
  | some row =>
    rw [hrow] at h
    dsimp only at h
    cases hrevision : user.revision with
    | none => simp [hrevision, decimalLess, parseDecimal] at h
    | some revision =>
      rw [hrevision, decimalLess_some] at h
      have hlt : row.revision < revision := by simpa using h
      simp [upsertApplies_of_lt hlt]

/-- A row that the hand-off parked stays parked when the store is opened again: its taker is at
the address. -/
theorem recoverParkedRow_of_applied (hdistinct : Distinct users)
    (hok : applyDesiredUsers users s = .ok s') {row row' : UserRow} {email email' : String}
    (hrow : s.rows.lookup b = some row) (hreal : row.address = .real email)
    (hrow' : s'.rows.lookup b = some row') (hparked' : row'.address = .parked email') :
    recoverParkedRow b s' = s' := by
  obtain ⟨t, hparked, hupserted⟩ := applyDesiredUsers_cases hdistinct hok
  have ht : t.rows.lookup b = some row' := by
    by_cases homitted : omittedBy users b = true
    · rw [← hupserted.other b homitted, hrow']
    · simp only [omittedBy, Bool.not_eq_true', Bool.not_eq_false, List.any_eq_true,
        decide_eq_true_eq] at homitted
      obtain ⟨user, hmem, rfl⟩ := homitted
      obtain ⟨revision, -, ⟨old, hold, -, hsame⟩ | ⟨old, hwrites, hsame⟩⟩ :=
        hupserted.named user hmem
      · exact hold.trans (hsame.symm.trans hrow')
      · obtain rfl := Option.some.inj (hsame.symm.trans hrow')
        cases hparked'.symm.trans hwrites.fields.2.2.2.2
  rw [hparked, hrow] at ht
  obtain rfl := Option.some.inj ht
  -- The row was parked for a taker, and the taker is accepted.
  obtain ⟨taker, hmem, htaker, htakerEmail⟩ : ∃ taker ∈ users, takesAddress s taker = .ok true ∧
      taker.email = email := by
    by_contra hnone
    have hstays : (parkedRow (users.filter (accepted (takesAddress s))) (omittedBy users) b
        row).address = .real email := by
      refine (parkedRow_address fun taker htaker hemail => ?_).2 hreal
      obtain ⟨hmem, htakes⟩ := List.mem_filter.1 htaker
      exact absurd ⟨taker, hmem, accepted_eq_true.1 htakes, hemail⟩ hnone
    cases hparked'.symm.trans hstays
  obtain ⟨holder, hholder, haddress⟩ :=
    (applyDesiredUsers_holds hdistinct hok hmem).2 (accepts_of_takes htaker)
  have hemail : email' = email := by
    rcases parkedRow_cases (users.filter (accepted (takesAddress s))) (omittedBy users) b row with
      heq | heq <;> rw [heq] at hparked'
    · cases hreal.symm.trans hparked'
    · rw [parkRow, hreal] at hparked'
      exact (Address.parked.inj hparked').symm
  have hfound : (s'.userByEmail email').isSome = true := by
    unfold userByEmail
    refine List.find?_isSome.2 ⟨(taker.bindingId, holder), Table.mem_pairs.2 hholder, ?_⟩
    simp [haddress, htakerEmail, hemail]
  unfold recoverParkedRow
  rw [hrow']
  dsimp only
  rw [hparked']
  dsimp only
  rw [hfound, Bool.or_true, if_pos rfl]

/-- A parked row whose address nobody holds gets it back, with everything else it had. -/
theorem recoverParkedRow_of_free {row : UserRow} {email : String}
    (hrow : s.rows.lookup b = some row) (hparked : row.address = .parked email) (hne : email ≠ "")
    (hfree : ∀ b', ¬s.Holds b' email) :
    recoverParkedRow b s =
      { s with rows := s.rows.insert b { row with address := .real email } } := by
  have hnone : s.userByEmail email = none := by
    unfold userByEmail
    refine List.find?_eq_none.2 ?_
    rintro ⟨b', row'⟩ hmem heq
    exact hfree b' ⟨row', Table.mem_pairs.1 hmem, by simpa using heq⟩
  unfold recoverParkedRow
  rw [hrow]
  dsimp only
  rw [hparked]
  simp [hne, hnone]

/-! ## A reconciliation and the rows -/

/-- The store with other evidence. -/
def withEvidence (provisioned : Table String Provisioned) (pendingRemovals : Table String String)
    (s : Store) : Store :=
  { s with provisioned, pendingRemovals }

variable {provisioned : Table String Provisioned} {pendingRemovals : Table String String}

theorem withEvidence_of_records (h : s'.records = s.records) :
    s' = withEvidence s'.provisioned s'.pendingRemovals s := by
  have hsame := congrArg (withEvidence s'.provisioned s'.pendingRemovals) h
  exact hsame

theorem upsertDesiredUserTx_withEvidence {user : DesiredUser} :
    upsertDesiredUserTx user (withEvidence provisioned pendingRemovals s) =
      (upsertDesiredUserTx user s).map (withEvidence provisioned pendingRemovals) := by
  unfold upsertDesiredUserTx
  rw [except_map_bind]
  refine bind_congr fun revision _ => ?_
  have hrows : (withEvidence provisioned pendingRemovals s).rows = s.rows := rfl
  rw [hrows]
  cases s.rows.lookup user.bindingId with
  | none =>
    simp only [except_map_bind]
    refine bind_congr fun quota _ => bind_congr fun allowance _ => ?_
    change (if emailTaken s user.bindingId user.email = true then _ else _) = _
    split <;> rfl
  | some row =>
    dsimp only
    split
    · rfl
    · simp only [except_map_bind]
      refine bind_congr fun quota _ => bind_congr fun allowance _ => ?_
      change (if emailTaken s user.bindingId user.email = true then _ else _) = _
      split <;> rfl

/-- Applying a list does not read the evidence. -/
theorem applyDesiredUsers_withEvidence :
    applyDesiredUsers users (withEvidence provisioned pendingRemovals s) =
      (applyDesiredUsers users s).map (withEvidence provisioned pendingRemovals) := by
  have hpark : parkContestedEmailsTx users (omittedBy users)
      (withEvidence provisioned pendingRemovals s) =
        (parkContestedEmailsTx users (omittedBy users) s).map
          (withEvidence provisioned pendingRemovals) := by
    unfold parkContestedEmailsTx
    rw [except_map_bind]
    rfl
  have hupsert : ∀ (rest : List DesiredUser) (t : Store),
      upsertAllTx rest (withEvidence provisioned pendingRemovals t) =
        (upsertAllTx rest t).map (withEvidence provisioned pendingRemovals) := by
    intro rest
    induction rest with
    | nil => exact fun _ => rfl
    | cons user rest ih =>
      intro t
      unfold upsertAllTx at ih ⊢
      rw [List.foldlM_cons, List.foldlM_cons, except_map_bind, upsertDesiredUserTx_withEvidence]
      cases upsertDesiredUserTx user t with
      | error e => rfl
      | ok u => exact ih u
  unfold applyDesiredUsers
  rw [hpark, except_map_bind]
  cases parkContestedEmailsTx users (omittedBy users) s with
  | error e => rfl
  | ok t => exact hupsert users t

end Store

/-- The records are those that the list makes of a store. -/
def AppliedTo (users : List DesiredUser) (s : Store) (w : World) : Prop :=
  ∃ s', Store.applyDesiredUsers users s = .ok s' ∧ w.store.records = s'.records

theorem AppliedTo.recordInv {users : List DesiredUser} {s : Store} :
    RecordInv (AppliedTo users s) := by
  rintro w w' hrecords - ⟨s', hok, heq⟩
  exact ⟨s', hok, hrecords.trans heq⟩

/-- A reconciliation writes the rows once, or has nothing to write. -/
theorem reconcile_rows (deps : Deps) (users : List DesiredUser) (s : Store) :
    Triple (fun w => w.store.records = s.records) (Processor.reconcile deps users)
      (fun _ w => users = [] ∧ w.store.records = s.records ∨ AppliedTo users s w)
      fun w => w.store.records = s.records ∨ AppliedTo users s w := by
  have hI : RecordInv fun w => w.store.records = s.records := fun w w' h _ hw => h.trans hw
  refine hI.reconcile_phases AppliedTo.recordInv (fun user _ _ w w' hrecords _ hw => ?_) ?_
  · obtain ⟨s', hok, heq⟩ := hw
    exact ⟨s', hok, hrecords.trans heq⟩
  · refine Triple.atomic (fun w a w' hw hrun => ?_) fun _ => .inl
    obtain ⟨t, hok, heq⟩ := map_eq_ok.1 hrun
    cases heq
    rw [Store.withEvidence_of_records hw, Store.applyDesiredUsers_withEvidence] at hok
    obtain ⟨s', happly, rfl⟩ := map_eq_ok.1 hok
    have happlied : AppliedTo users s { w with
        store := Store.withEvidence w.store.provisioned w.store.pendingRemovals s' } :=
      ⟨s', happly, rfl⟩
    exact ⟨happlied, .inr happlied⟩

/-- After a reconciliation that succeeded, a sample finds the row of a named user under its address
if the store accepted the record of the user.  A reconciliation that fails leaves the rows as they
were or as its one write made them.  A row that this write parked stays parked when the store is
opened again, because its taker is at the address, and a parked row whose address nobody holds
gets it back. -/
theorem installed_means_metered (deps : Deps) {users : List DesiredUser} {s₀ : Store}
    (hrows : s₀.rows = ∅) (hdistinct : Store.Distinct users)
    (attempts : List (Store.Change × Bool)) :
    let s := attempts.foldl Store.Change.step s₀
    Triple (fun w => w.store = s) (Processor.reconcile deps users)
        (fun _ w => ∀ user ∈ users, s.accepts user = true →
          ∃ row, w.store.userByEmail user.email = some (user.bindingId, row))
        (fun w => w.store.rows = s.rows ∨ ∃ s', s.applyDesiredUsers users = .ok s' ∧
          w.store.rows = s'.rows ∧ ∀ b row row' email email', s.rows.lookup b = some row →
            row.address = .real email → s'.rows.lookup b = some row' →
            row'.address = .parked email' → Store.recoverParkedRow b s' = s') ∧
      ∀ (t : Store) b row email, t.rows.lookup b = some row → row.address = .parked email →
        email ≠ "" → (∀ b', ¬t.Holds b' email) → Store.recoverParkedRow b t =
          { t with rows := t.rows.insert b { row with address := .real email } } := by
  intro s
  have hone : s.OneHolder := Store.Change.oneHolder_run attempts hrows
  refine ⟨(reconcile_rows deps users s).conseq (fun w hw => by rw [hw]) ?_ ?_,
    fun t b row email => Store.recoverParkedRow_of_free⟩
  · rintro _ w hw user hmem haccepts
    rcases hw with ⟨rfl, -⟩ | ⟨s', hok, hrecords⟩
    · cases hmem
    obtain ⟨row, hrow, haddress⟩ :=
      (Store.applyDesiredUsers_holds hdistinct hok hmem).2 haccepts
    rw [← Store.rows_of_records hrecords] at hrow
    have hunique := (hone.applyDesiredUsers hok).fewer
      (Store.Fewer.of_rows (Store.rows_of_records hrecords))
    exact ⟨row, hunique.userByEmail hrow haddress⟩
  · rintro w (hrecords | ⟨s', hok, hrecords⟩)
    · exact .inl (Store.rows_of_records hrecords)
    · exact .inr ⟨s', hok, Store.rows_of_records hrecords, fun b row row' email email' =>
        Store.recoverParkedRow_of_applied hdistinct hok⟩

/-! ## A hand-off that failed -/

namespace HandBack

/-- An enabled user of a snapshot. -/
def user (bindingId email : String) (revision : Nat) : DesiredUser :=
  { bindingId, email, uuid := "00000000-0000-4000-8000-00000000000" ++ bindingId, flow := flowNone
    revision := some revision, quotaRemainingBytes := some 9 }

/-- A refresh that has fetched these users. -/
def refresh (revision : Nat) (users : List DesiredUser) (fates : List Fate) : Step :=
  (.refresh 0 (some { nodeId := "node", revision := some revision
                      controlMode := .directPrimary, users }) {}, fates)

/-- A snapshot gives the address of `a` to `b`, and Xray fails after the rows were written. -/
def world : World :=
  World.run {} {} [refresh 1 [user "a" "x" 1] [],
    refresh 2 [user "b" "x" 1] (List.replicate 20 .run ++ [.refuse])]

/-- The next list moves `b` on, and has `a` back as it was. -/
def users : List DesiredUser := [user "a" "x" 1, user "b" "y" 2]

end HandBack

open HandBack in
theorem installed_means_metered_moved :
    let attempts : List (Store.Change × Bool) :=
      [(.applyDesiredUsers [user "a" "x" 1], true), (.applyDesiredUsers [user "b" "x" 1], true)]
    let w : World := { store := attempts.foldl Store.Change.step {} }
    ∃ row, (finalWorld (Processor.reconcile {} users) w []).store.userByEmail "y" =
      some ("b", row) := by
  intro attempts w
  have hdistinct : Store.Distinct users := ⟨by decide, by decide⟩
  have hok : result? (Processor.reconcile {} users) w [] = some () := by decide +kernel
  have hmetered :=
    (installed_means_metered {} (rfl : ({} : Store).rows = ∅) hdistinct attempts).1.of_result
      (w := w) rfl hok
  exact hmetered (user "b" "y" 2) (by simp [users]) (by decide +kernel)

open HandBack in
/-- The rows are written before the installs.  Xray refuses the account of `b`, and neither the
failure nor opening the store again gives `a` its address back. -/
theorem failed_reconcile_keeps_its_write :
    let s := Store.Change.step {} (.applyDesiredUsers [user "a" "x" 1], true)
    let fates : List Fate := List.replicate 7 .run ++ [.refuse]
    let w := finalWorld (Processor.reconcile {} [user "b" "x" 1]) { store := s } fates
    result? (Processor.reconcile {} [user "b" "x" 1]) { store := s } fates = none ∧
      (s.rows.lookup "a").map (·.address) = some (.real "x") ∧
      (w.store.rows.lookup "a").map (·.address) = some (.parked "x") ∧
      ((["a", "b"].foldl (fun s b => Store.recoverParkedRow b s) w.store).rows.lookup "a").map
        (·.address) = some (.parked "x") := by
  decide +kernel

open HandBack in
/-- The row of `a` is not newer than before, so it stays parked, and the account of `a` runs. -/
theorem installed_but_parked :
    let w := finalWorld (Processor.reconcile {} users) world []
    result? (Processor.reconcile {} users) world [] = some () ∧
      (w.store.rows.lookup "a").map (·.address) = some (.parked "x") ∧
      (w.xray.accounts.lookup "x").map (·.uuid) = some (user "a" "x" 1).uuid := by
  decide +kernel

end ChordV.Agent
