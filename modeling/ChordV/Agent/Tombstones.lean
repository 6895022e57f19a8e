import ChordV.Agent.Floors
import ChordV.Agent.Snapshots

/-!
# Tombstones are floors

What a run of writes does to the tombstone of a binding, and what the two writes that revoke
a binding do to its row.

* `Change` is a write of the store with its arguments, `Change.apply` the transaction, and
  `Change.step` an attempt at it: a transaction that fails is rolled back.
* `Raised` says that a tombstone has not lost anything, and `Change.raised` that only
  `ClearBindingTombstone` takes something from it.
* `Retired` says that a binding was revoked: its row is deleted or disabled, and its tombstone is
  at the revision.
-/

namespace ChordV.Agent

open Lib Fallible

namespace Store

/-! ## Writes -/

/-- `RecordBindingTombstone`. -/
def recordBindingTombstone (bindingId : String) (revision : Decimal) (s : Store) :
    Except Failure Store := do
  let revision ← parseDecimal revision
  return recordTombstoneTx bindingId revision "" s

/-- `ReplaceDesiredUsers`. -/
def replaceDesiredUsers (users : List DesiredUser) (revision : Decimal) (s : Store) :
    Except Failure Store := do
  let revision ← parseDecimal revision
  replaceDesiredUsersTx users revision s

/-- `SetUserEnabled`. -/
def setUserEnabled (bindingId : String) (enabled : Bool) (revision : Nat) (s : Store) : Store :=
  { s with rows := s.rows.modify bindingId fun row =>
      if revision < row.revision then row else { row with enabled, revision } }

/-- `DeleteUser`. -/
def deleteUser (bindingId : String) (s : Store) : Store :=
  { s with rows := s.rows.erase bindingId }

/-- A write of the store. -/
inductive Change where
  | upsertDesiredUser (user : DesiredUser)
  | applyDesiredUsers (users : List DesiredUser)
  | replaceDesiredUsers (users : List DesiredUser) (revision : Decimal)
  | applyConfigSnapshot (snapshot : ConfigSnapshot)
  | updateQuota (bindingId : String) (quota revision : Nat)
  | setUserEnabled (bindingId : String) (enabled : Bool) (revision : Nat)
  | deleteUser (bindingId : String)
  | restoreBackendConfirmedUsers (users : List DesiredUser)
  | recordSample (counters : List AbsoluteCounter) (sampledAt : Nat) (backendOnline : Bool)
  | ackThrough (bootId : String) (ack : Nat)
  | recordBindingTombstone (bindingId : String) (revision : Decimal)
  | applyTerminal (bindingId : String) (revision : Nat) (email : String) (remove : Bool)
  | clearBindingTombstone (bindingId : String)
  | recordProvisioned (bindingId email uuid : String)
  | recordProvisionIntent (bindingId email uuid : String)
  | settleRotation (email uuid : String)
  | forgetProvisioned (emails : List String)
  | recordPendingRemoval (claims : List (String × String))
  | clearPendingRemoval (emails : List String)
  | beginCommand (commandId : String)
  | completeCommand (commandId : String) (outcome : Outcome)
  | advanceConfigRevision (revision : Nat)
  | backfillSnapshotRevision
  | recoverParkedRow (bindingId : String)
  | initializeBoot (bootId : String)
  deriving DecidableEq, Repr

/-- The transaction of a write. -/
def Change.apply : Change → Store → Except Failure Store
  | .upsertDesiredUser user, s => upsertDesiredUserTx user s
  | .applyDesiredUsers users, s => Store.applyDesiredUsers users s
  | .replaceDesiredUsers users revision, s => Store.replaceDesiredUsers users revision s
  | .applyConfigSnapshot snapshot, s => (Store.applyConfigSnapshot snapshot s).map Prod.snd
  | .updateQuota bindingId quota revision, s => .ok (Store.updateQuota bindingId quota revision s)
  | .setUserEnabled bindingId enabled revision, s =>
    .ok (Store.setUserEnabled bindingId enabled revision s)
  | .deleteUser bindingId, s => .ok (Store.deleteUser bindingId s)
  | .restoreBackendConfirmedUsers users, s => Store.restoreBackendConfirmedUsers users s
  | .recordSample counters sampledAt backendOnline, s =>
    .ok (s.recordSample counters sampledAt backendOnline).2
  | .ackThrough bootId ack, s => .ok (Store.ackThrough bootId ack s).2
  | .recordBindingTombstone bindingId revision, s =>
    Store.recordBindingTombstone bindingId revision s
  | .applyTerminal bindingId revision email remove, s =>
    Store.applyTerminal bindingId revision email remove s
  | .clearBindingTombstone bindingId, s => .ok (Store.clearBindingTombstone bindingId s)
  | .recordProvisioned bindingId email uuid, s =>
    .ok (Store.recordProvisioned bindingId email uuid s)
  | .recordProvisionIntent bindingId email uuid, s =>
    .ok (Store.recordProvisionIntent bindingId email uuid s)
  | .settleRotation email uuid, s => .ok (Store.settleRotation email uuid s)
  | .forgetProvisioned emails, s => .ok (Store.forgetProvisioned emails s)
  | .recordPendingRemoval claims, s => .ok (Store.recordPendingRemoval claims s)
  | .clearPendingRemoval emails, s => .ok (Store.clearPendingRemoval emails s)
  | .beginCommand commandId, s => .ok (Store.beginCommand commandId s)
  | .completeCommand commandId outcome, s => .ok (Store.completeCommand commandId outcome s)
  | .advanceConfigRevision revision, s => .ok (Store.advanceConfigRevision revision s)
  | .backfillSnapshotRevision, s => .ok s.backfillSnapshotRevision
  | .recoverParkedRow bindingId, s => .ok (Store.recoverParkedRow bindingId s)
  | .initializeBoot bootId, s => .ok (Store.initializeBoot bootId s)

/-- An attempt at a write.  It is rolled back when the transaction reports an error, or when the
database does not commit it. -/
def Change.step (s : Store) (attempt : Change × Bool) : Store :=
  if attempt.2 then (attempt.1.apply s).toOption.getD s else s

variable {s s' s'' : Store} {b : String}

theorem Change.step_cases (s : Store) (c : Change) (committed : Bool) :
    Change.step s (c, committed) = s ∨
      committed = true ∧ c.apply s = .ok (Change.step s (c, committed)) := by
  unfold Change.step
  dsimp only
  split
  · next hcommitted =>
    cases happly : c.apply s with
    | ok s' => exact .inr ⟨hcommitted, rfl⟩
    | error e => exact .inl rfl
  · exact .inl rfl

/-! ## Tombstones along a run -/

/-- The tombstone of a binding is at least what it was, and still remembers an address. -/
def Raised (b : String) (s s' : Store) : Prop :=
  ∀ t, s.tombstones.lookup b = some t → ∃ t', s'.tombstones.lookup b = some t' ∧
    t.revision ≤ t'.revision ∧ (t.email ≠ "" → t'.email ≠ "")

namespace Raised

theorem of_eq (h : s'.tombstones = s.tombstones) : Raised b s s' :=
  fun t ht => ⟨t, h ▸ ht, Nat.le_refl _, fun hemail => hemail⟩

theorem trans (h : Raised b s s') (h' : Raised b s' s'') : Raised b s s'' := by
  intro t ht
  obtain ⟨t', ht', hle, hemail⟩ := h t ht
  obtain ⟨t'', ht'', hle', hemail'⟩ := h' t' ht'
  exact ⟨t'', ht'', hle.trans hle', fun hne => hemail' (hemail hne)⟩

theorem recordTombstoneTx (s : Store) (b b' : String) (r : Nat) (e : String) :
    Raised b s (Store.recordTombstoneTx b' r e s) := by
  intro t ht
  unfold Store.recordTombstoneTx
  split
  · next hnone =>
    have hne : b ≠ b' := by
      rintro rfl
      rw [hnone] at ht
      cases ht
    exact ⟨t, (AList.lookup_insert_ne hne).trans ht, Nat.le_refl _, fun hemail => hemail⟩
  · next old hold =>
    split
    · exact ⟨t, ht, Nat.le_refl _, fun hemail => hemail⟩
    · next hraise =>
      dsimp only
      rw [Table.lookup_insert_ite]
      split
      · next heq =>
        subst heq
        obtain rfl := Option.some.inj (hold.symm.trans ht)
        refine ⟨_, rfl, Nat.le_of_not_le hraise, fun hemail => ?_⟩
        dsimp only
        split
        · exact hemail
        · assumption
      · exact ⟨t, ht, Nat.le_refl _, fun hemail => hemail⟩

theorem dropOmitted (s : Store) (revision : Nat) (dropped : List (String × UserRow)) :
    Raised b s (dropped.foldl (dropOmittedTx revision) s) := by
  refine List.foldlRecOn (motive := Raised b s) dropped _ (of_eq rfl) fun t ht p _ => ht.trans ?_
  exact Raised.recordTombstoneTx t b p.1 revision p.2.address.original

theorem replaceDesiredUsersTx {users : List DesiredUser} {revision : Nat}
    (hok : Store.replaceDesiredUsersTx users revision s = .ok s') : Raised b s s' := by
  obtain ⟨t, happly, hok⟩ := bind_eq_ok.1 hok
  cases hok
  have hupserts : Raised b s t := of_eq (applyDesiredUsers_tombstones happly)
  exact hupserts.trans (dropOmitted t revision _)

theorem applyConfigSnapshot {snapshot : ConfigSnapshot} {applied : Bool}
    (hok : Store.applyConfigSnapshot snapshot s = .ok (applied, s')) : Raised b s s' := by
  unfold Store.applyConfigSnapshot at hok
  split at hok
  · cases hok
  obtain ⟨revision, -, hok⟩ := bind_eq_ok.1 hok
  split at hok
  · cases hok
    exact of_eq rfl
  · obtain ⟨t, hreplace, hok⟩ := bind_eq_ok.1 hok
    cases hok
    exact (replaceDesiredUsersTx hreplace).trans (of_eq rfl)

theorem applyTerminal {b' email : String} {r : Nat} {remove : Bool}
    (hok : Store.applyTerminal b' r email remove s = .ok s') : Raised b s s' := by
  unfold Store.applyTerminal at hok
  split at hok
  · cases hok
  · cases hok
    exact (recordTombstoneTx s b b' r email).trans (of_eq (retireRowTx_tombstones ..))

end Raised

/-- A write other than the clearing of its tombstone takes nothing from a binding's tombstone. -/
theorem Change.raised {c : Change} (hclear : c ≠ .clearBindingTombstone b)
    (hok : c.apply s = .ok s') : Raised b s s' := by
  cases c with
  | upsertDesiredUser user => exact .of_eq (upsertDesiredUserTx_tombstones hok)
  | applyDesiredUsers users => exact .of_eq (applyDesiredUsers_tombstones hok)
  | replaceDesiredUsers users revision =>
    obtain ⟨r, -, hok⟩ := bind_eq_ok.1 hok
    exact .replaceDesiredUsersTx hok
  | applyConfigSnapshot snapshot =>
    obtain ⟨⟨applied, t⟩, happly, rfl⟩ := map_eq_ok.1 hok
    exact .applyConfigSnapshot happly
  | restoreBackendConfirmedUsers users =>
    exact .of_eq (restoreBackendConfirmedUsers_tombstones hok)
  | recordSample counters sampledAt backendOnline =>
    cases hok
    exact .of_eq (recordSample_tombstones s counters sampledAt backendOnline)
  | recordBindingTombstone bindingId revision =>
    obtain ⟨r, -, hok⟩ := bind_eq_ok.1 hok
    cases hok
    exact .recordTombstoneTx s b bindingId r ""
  | applyTerminal bindingId revision email remove => exact .applyTerminal hok
  | clearBindingTombstone bindingId =>
    cases hok
    have hne : b ≠ bindingId := fun h => hclear (h ▸ rfl)
    exact fun t ht => ⟨t, (AList.lookup_erase_ne hne).trans ht, Nat.le_refl _, fun h => h⟩
  | recordProvisioned bindingId email uuid =>
    cases hok
    refine .of_eq ?_
    unfold Store.recordProvisioned
    split <;> rfl
  | recordProvisionIntent bindingId email uuid =>
    cases hok
    refine .of_eq ?_
    unfold Store.recordProvisionIntent
    split <;> rfl
  | backfillSnapshotRevision =>
    cases hok
    exact .of_eq s.backfillSnapshotRevision_tombstones
  | recoverParkedRow bindingId =>
    cases hok
    exact .of_eq (recoverParkedRow_tombstones bindingId s)
  | initializeBoot bootId =>
    cases hok
    exact .of_eq (initializeBoot_tombstones bootId s)
  | _ =>
    cases hok
    exact .of_eq rfl

/-- The tombstone of a binding rises along a run that does not clear it. -/
theorem Change.raised_run (s : Store) (attempts : List (Change × Bool))
    (hclear : (.clearBindingTombstone b, true) ∉ attempts) :
    Raised b s (attempts.foldl Change.step s) := by
  refine List.foldlRecOn (motive := Raised b s) attempts _ (.of_eq rfl) ?_
  rintro t ht ⟨c, committed⟩ hmem
  rcases Change.step_cases t c committed with heq | ⟨rfl, hok⟩
  · rw [heq]
    exact ht
  · exact ht.trans (Change.raised (fun h => hclear (h ▸ hmem)) hok)

/-! ## Revocations -/

/-- The binding was revoked: its row is gone or disabled, and its tombstone is at the revision at
least. -/
structure Retired (b : String) (revision : Nat) (s : Store) : Prop where
  row : ∀ row, s.rows.lookup b = some row → row.enabled = false
  tombstone : revision ≤ s.bindingTombstone b

/-- A terminal command retires its binding, unless it is a disable and the row is newer. -/
theorem applyTerminal_retires {email : String} {r : Nat} {remove : Bool}
    (hok : applyTerminal b r email remove s = .ok s') : Retired b r s' ∨
      remove = false ∧ r ≤ s'.bindingTombstone b ∧
        ∃ row, s.rows.lookup b = some row ∧ r < row.revision ∧ s'.rows.lookup b = some row := by
  have htombstone : r ≤ s'.bindingTombstone b := by
    rw [bindingTombstone_applyTerminal hok, if_pos rfl]
    exact Nat.le_max_right _ _
  unfold applyTerminal at hok
  split at hok
  · cases hok
  · cases hok
    unfold retireRowTx at htombstone ⊢
    cases remove with
    | true =>
      refine .inl ⟨fun row hrow => ?_, htombstone⟩
      simp at hrow
    | false =>
      simp only [Bool.false_eq_true, if_false] at htombstone ⊢
      cases hrow : s.rows.lookup b with
      | none => exact .inl ⟨fun row hrow' => by simp [hrow] at hrow', htombstone⟩
      | some row =>
        by_cases hnewer : r < row.revision
        · exact .inr ⟨trivial, htombstone, row, rfl, hnewer, by simp [hrow, hnewer]⟩
        · refine .inl ⟨fun row' hrow' => ?_, htombstone⟩
          simp only [Table.lookup_modify_self, recordTombstoneTx_rows, hrow, Option.map_some,
            if_neg hnewer, Option.some.injEq] at hrow'
          exact hrow' ▸ rfl

/-- A terminal command leaves the other bindings alone. -/
theorem applyTerminal_other {b' email : String} {r : Nat} {remove : Bool} (hne : b' ≠ b)
    (hok : applyTerminal b r email remove s = .ok s') :
    s'.rows.lookup b' = s.rows.lookup b' ∧ s'.bindingTombstone b' = s.bindingTombstone b' := by
  refine ⟨?_, by rw [bindingTombstone_applyTerminal hok, if_neg hne]⟩
  unfold applyTerminal at hok
  split at hok
  · cases hok
  · cases hok
    unfold retireRowTx
    split
    · simp [AList.lookup_erase_ne hne]
    · dsimp only
      rw [Table.lookup_modify_ne (h := hne), recordTombstoneTx_rows]

/-- A list leaves the tombstone of a binding it names alone. -/
theorem bindingTombstone_dropOmitted_of_ne (s : Store) (revision : Nat)
    (dropped : List (String × UserRow)) (hne : ∀ p ∈ dropped, p.1 ≠ b) :
    (dropped.foldl (dropOmittedTx revision) s).bindingTombstone b = s.bindingTombstone b := by
  refine List.foldlRecOn (motive := fun t : Store => t.bindingTombstone b = s.bindingTombstone b)
    dropped _ rfl fun t ht p hp => ?_
  change (recordTombstoneTx p.1 revision p.2.address.original t).bindingTombstone b = _
  rw [bindingTombstone_recordTombstoneTx, if_neg (hne p hp).symm, ht]

/-- A list that replaces the stored one retires the bindings it omits, and leaves the tombstones
and rows of those it names in place. -/
theorem replaceDesiredUsersTx_retires {users : List DesiredUser} {revision : Nat}
    (hok : replaceDesiredUsersTx users revision s = .ok s') (hrow : (s.rows.lookup b).isSome) :
    if omittedBy users b then s'.rows.lookup b = none ∧ revision ≤ s'.bindingTombstone b
    else (s'.rows.lookup b).isSome ∧ s'.bindingTombstone b = s.bindingTombstone b := by
  obtain ⟨t, happly, hok⟩ := bind_eq_ok.1 hok
  cases hok
  split
  · next homitted =>
    obtain ⟨row, hlookup⟩ :=
      Option.isSome_iff_exists.1 (isSome_lookup_applyDesiredUsers happly hrow)
    exact dropOmitted_spec revision _
      (List.mem_filter.2 ⟨Table.mem_pairs.2 hlookup, homitted⟩)
  · next hnamed =>
    have hne : ∀ p ∈ t.rows.pairs.filter fun p => omittedBy users p.1, p.1 ≠ b := by
      rintro p hp rfl
      exact hnamed (List.mem_filter.1 hp).2
    refine ⟨?_, ?_⟩
    · change ((List.foldl (dropOmittedTx revision) t _).rows.lookup b).isSome
      rw [lookup_dropOmitted revision _ hne]
      exact isSome_lookup_applyDesiredUsers happly hrow
    · change (List.foldl (dropOmittedTx revision) t _).bindingTombstone b = _
      rw [bindingTombstone_dropOmitted_of_ne t revision _ hne]
      exact bindingTombstone_congr (applyDesiredUsers_tombstones happly) b

/-- The list and the revision of a write that replaces the stored list. -/
def Change.replacement : Change → Option (List DesiredUser × Decimal)
  | .replaceDesiredUsers users revision => some (users, revision)
  | .applyConfigSnapshot snapshot => some (snapshot.users, snapshot.revision)
  | _ => none

/-- Such a write is skipped as a whole, or replaces the list. -/
theorem Change.apply_replacement {c : Change} {users : List DesiredUser} {revision : Decimal}
    (hc : c.replacement = some (users, revision)) (hok : c.apply s = .ok s') :
    s' = s ∨ ∃ r t, revision = some r ∧ replaceDesiredUsersTx users r s = .ok t ∧
      s'.rows = t.rows ∧ s'.tombstones = t.tombstones := by
  cases c with
  | replaceDesiredUsers users' revision' =>
    cases hc
    obtain ⟨r, hr, hok⟩ := bind_eq_ok.1 hok
    exact .inr ⟨r, s', parseDecimal_eq_ok.1 hr, hok, rfl, rfl⟩
  | applyConfigSnapshot snapshot =>
    cases hc
    obtain ⟨⟨applied, t⟩, happly, rfl⟩ := map_eq_ok.1 hok
    unfold Store.applyConfigSnapshot at happly
    split at happly
    · cases happly
    obtain ⟨r, hr, happly⟩ := bind_eq_ok.1 happly
    split at happly
    · cases happly
      exact .inl rfl
    · obtain ⟨u, hreplace, happly⟩ := bind_eq_ok.1 happly
      cases happly
      exact .inr ⟨r, u, parseDecimal_eq_ok.1 hr, hreplace, rfl, rfl⟩
  | _ => cases hc

/-! ## The floor of a binding -/

/-- The revision that an instruction for the binding has to pass: its tombstone's or its row's. -/
def floor (s : Store) (b : String) : Nat :=
  max (s.bindingTombstone b) (((s.rows.lookup b).map (·.revision)).getD 0)

theorem floor_of_records (h : s'.records = s.records) (b : String) : s'.floor b = s.floor b := by
  unfold floor
  rw [rows_of_records h, bindingTombstone_congr (tombstones_of_records h)]

theorem floor_clearBindingTombstone (s : Store) (b b' : String) :
    (clearBindingTombstone b' s).floor b =
      if b = b' then ((s.rows.lookup b).map (·.revision)).getD 0 else s.floor b := by
  unfold floor clearBindingTombstone bindingTombstone
  rw [Table.lookup_erase_ite]
  split <;> simp

theorem floor_le_upsert {user : DesiredUser} (hok : upsertDesiredUserTx user s = .ok s')
    (b : String) : s.floor b ≤ s'.floor b := by
  unfold floor
  rw [bindingTombstone_congr (upsertDesiredUserTx_tombstones hok)]
  cases hrow : s.rows.lookup b with
  | none => simp
  | some row =>
    obtain ⟨row', hrow', hle, -⟩ := upsert_row_keeps hok hrow
    rw [hrow']
    simp only [Option.map_some, Option.getD_some]
    omega

end Store

namespace Processor

variable {deps : Deps} {s s' : Store} {b : String}

/-- What `ENSURE_USER` stores stands above the tombstone that it clears next. -/
theorem floor_le_ensured {command : Command} {stored : Option DesiredUser} {user : DesiredUser}
    {s₀ : Store} (hplan : planEnsure command s₀ = .ok (some (stored, user)))
    (hrecords : s.records = s₀.records) (hok : s.upsertDesiredUserTx user = .ok s') :
    s.floor user.bindingId ≤ (Store.clearBindingTombstone user.bindingId s').floor
      user.bindingId := by
  rw [Store.floor_clearBindingTombstone, if_pos rfl]
  obtain ⟨revision, hrevision, hcases⟩ := Store.upsertDesiredUserTx_cases hok
  obtain ⟨-, hsuper, hvalid, henabled, htarget⟩ := planEnsure_eq_ok hplan
  rw [← htarget, hrevision] at hsuper
  have hb := (validateUser_eq_ok hvalid).bindingId
  have habove := aboveTombstone_of_supersededForBinding hb hsuper
  rw [AboveTombstone, ← Store.bindingTombstone_congr (Store.tombstones_of_records hrecords)]
    at habove
  obtain ⟨row', hrow', hle⟩ : ∃ row', s'.rows.lookup user.bindingId = some row' ∧
      revision ≤ row'.revision := by
    rcases hcases with ⟨row, hrow, hskipped, rfl⟩ | ⟨row, hwrites, -, rfl⟩
    · refine ⟨row, hrow, ?_⟩
      simp only [Store.upsertApplies, Bool.or_eq_false_iff, decide_eq_false_iff_not] at hskipped
      exact Nat.le_of_not_lt hskipped.1
    · exact ⟨row, AList.lookup_insert _, hwrites.fields.1.ge⟩
  have hold := Store.floor_le_upsert hok user.bindingId
  unfold Store.floor at *
  rw [Store.bindingTombstone_congr (Store.upsertDesiredUserTx_tombstones hok), hrow'] at hold
  rw [hrow']
  simp only [Option.map_some, Option.getD_some] at hold ⊢
  omega

/-- `ENSURE_USER` clears the tombstone of its binding, and never lowers the floor of one. -/
theorem ensureUser_keeps_floor {command : Command} {n : Nat} :
    Keeps (fun w : World => n ≤ w.store.floor b) (ensureUser deps command) := by
  have hI : RecordInv fun w : World => n ≤ w.store.floor b :=
    fun w w' hrecords _ hw => hw.trans_eq (Store.floor_of_records hrecords b).symm
  refine Triple.bindPeek fun w₀ hw₀ => ?_
  have hsame : RecordInv fun w : World => w.store.records = w₀.store.records :=
    fun w w' hrecords _ hw => hrecords.trans hw
  have hfloor : ∀ w : World, w.store.records = w₀.store.records → n ≤ w.store.floor b :=
    fun w hw => Store.floor_of_records hw b ▸ hw₀
  refine Triple.pre (P := fun w : World => w.store.records = w₀.store.records) ?_
    fun w hw => hw ▸ rfl
  refine Triple.bindLift hfloor fun plan hplan => ?_
  cases plan with
  | none => exact Triple.pure hfloor
  | some found =>
    obtain ⟨stored, user⟩ := found
    refine Triple.bind (hsame.keeps_preflightCollision.conseq (fun _ hw => hw) (fun _ _ hw => hw)
      hfloor) fun expect => ?_
    refine Triple.bind (hsame.keeps_releaseStored.conseq (fun _ hw => hw) (fun _ _ hw => hw)
      hfloor) fun _ => ?_
    -- From the upsert on, the row alone holds the floor.
    refine Triple.bind (S := fun _ w => n ≤ w.store.floor b ∧
        n ≤ (Store.clearBindingTombstone user.bindingId w.store).floor b)
      (Triple.atomic ?_ hfloor) fun _ => ?_
    · intro w a w' hw hrun
      obtain ⟨s', hok, hrun⟩ := map_eq_ok.1 hrun
      cases hrun
      have hle := (hfloor w hw).trans (Store.floor_le_upsert hok b)
      refine ⟨⟨hle, ?_⟩, hle⟩
      by_cases hb : b = user.bindingId
      · subst hb
        exact (hfloor w hw).trans (floor_le_ensured hplan hw hok)
      · rw [Store.floor_clearBindingTombstone, if_neg hb]
        exact hle
    · refine Triple.bind (S := fun _ w => n ≤ w.store.floor b)
        (Triple.atomic ?_ fun w hw => hw.1) fun _ => ?_
      · intro w a w' hw hrun
        cases hrun
        exact ⟨hw.2, hw.2⟩
      refine Keeps.bind hI.keeps_recordProvisionIntent fun _ => ?_
      refine Keeps.bind (hI.keeps_ensureUser fun w w' hrecords _ hw =>
        hw.trans_eq (Store.floor_of_records hrecords b).symm) fun _ => ?_
      exact Keeps.bind hI.keeps_recordProvisioned fun _ => hI.keeps_clearPendingRemoval

open Store in
/-- A tombstone only rises and keeps its address, until it is cleared, which `ENSURE_USER` does
without lowering the floor of the binding.  A write that revokes bindings leaves the store alone,
or retires each of them together with its tombstone. -/
theorem tombstones_are_floors :
    (∀ (s : Store) (attempts : List (Change × Bool)) (b : String),
      (.clearBindingTombstone b, true) ∉ attempts → Raised b s (attempts.foldl Change.step s)) ∧
    (∀ (deps : Deps) (command : Command) (b : String) (n : Nat),
      Keeps (fun w : World => n ≤ w.store.floor b) (ensureUser deps command)) ∧
    (∀ (s : Store) (b email : String) (r : Nat) (remove committed : Bool),
      let s' := Change.step s (.applyTerminal b r email remove, committed)
      s' = s ∨
        (Retired b r s' ∨ remove = false ∧ r ≤ s'.bindingTombstone b ∧ ∃ row,
          s.rows.lookup b = some row ∧ r < row.revision ∧ s'.rows.lookup b = some row) ∧
        ∀ b', b' ≠ b →
          s'.rows.lookup b' = s.rows.lookup b' ∧ s'.bindingTombstone b' = s.bindingTombstone b') ∧
    ∀ (s : Store) (c : Change) (users : List DesiredUser) (revision : Decimal) (committed : Bool)
      (b : String), c.replacement = some (users, revision) → (s.rows.lookup b).isSome →
      let s' := Change.step s (c, committed)
      s' = s ∨ ∃ r, revision = some r ∧
        if omittedBy users b then s'.rows.lookup b = none ∧ r ≤ s'.bindingTombstone b
        else (s'.rows.lookup b).isSome ∧ s'.bindingTombstone b = s.bindingTombstone b := by
  refine ⟨fun s attempts b hclear => Change.raised_run s attempts hclear,
    fun deps command b n => ensureUser_keeps_floor, ?_, ?_⟩
  · intro s b email r remove committed
    rcases Change.step_cases s (.applyTerminal b r email remove) committed with heq | ⟨-, hok⟩
    · exact .inl heq
    · exact .inr ⟨applyTerminal_retires hok, fun b' hne => applyTerminal_other hne hok⟩
  · intro s c users revision committed b hc hrow
    rcases Change.step_cases s c committed with heq | ⟨-, hok⟩
    · exact .inl heq
    rcases Change.apply_replacement hc hok with heq | ⟨r, t, hr, hreplace, hrows, htombstones⟩
    · exact .inl heq
    · refine .inr ⟨r, hr, ?_⟩
      rw [hrows, bindingTombstone_congr htombstones]
      exact replaceDesiredUsersTx_retires hreplace hrow

open Store in
/-- A clearing that rolls back lowers nothing, and a list without binding `a` retires it. -/
theorem tombstones_are_floors_omitted :
    Raised "a" {} ([(.applyTerminal "a" 5 "a@x" false, true),
      (.clearBindingTombstone "a", false)].foldl Change.step {}) ∧
    let s' := Change.step disabledRow (.replaceDesiredUsers [] (some 9), true)
    s'.rows.lookup "a" = none ∧ 9 ≤ s'.bindingTombstone "a" := by
  obtain ⟨hraised, -, -, hreplaced⟩ := tombstones_are_floors
  refine ⟨hraised {} _ "a" (by decide), ?_⟩
  rcases hreplaced disabledRow (.replaceDesiredUsers [] (some 9)) [] (some 9) true "a" rfl rfl with
    heq | ⟨r, hr, hout⟩
  · exact absurd (congrArg (·.rows.lookup "a") heq) (by decide)
  · obtain rfl := Option.some.inj hr
    exact hout

open Store in
/-- The tombstone that a disable at revision 5 leaves is gone once it is cleared. -/
theorem cleared_tombstone_falls :
    let disabled := Change.step {} (.applyTerminal "a" 5 "a@x" false, true)
    disabled.bindingTombstone "a" = 5 ∧ disabled.tombstonedEmail "a" = "a@x" ∧
      (Change.step disabled (.clearBindingTombstone "a", true)).bindingTombstone "a" = 0 ∧
      (Change.step disabled (.clearBindingTombstone "a", true)).tombstonedEmail "a" = "" := by
  decide

end Processor

end ChordV.Agent
