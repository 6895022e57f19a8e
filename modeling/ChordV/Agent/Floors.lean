import ChordV.Agent.Revocation

/-!
# Revisions only rise

What the transactions of the store do to the revision of a row and to the floor that a
tombstone sets.

* `upsertDesiredUserTx_cases` is everything an upsert can do.
* `Cleared` is a user that the checks before an upsert let through, and `upsert_is_monotone`
  what an upsert keeps.
-/

namespace ChordV.Agent

open Lib Fallible

namespace Store

variable {s s' : Store} {user : DesiredUser}

/-! ## Upserts -/

/-- The row that an upsert writes when it writes one. -/
def Writes (user : DesiredUser) (revision : Nat) (s : Store) (row : UserRow) : Prop :=
  ∃ quota allowance, user.quotaRemainingBytes = some quota ∧
    (s.rows.lookup user.bindingId = none ∧ row = freshRow user revision quota allowance ∨
      ∃ old, s.rows.lookup user.bindingId = some old ∧ upsertApplies old user revision = true ∧
        row = updatedRow old user revision quota allowance)

/-- An upsert is skipped for a row that stands above the user, or writes the row of the user's
binding at an address that no other binding has. -/
theorem upsertDesiredUserTx_cases (hok : upsertDesiredUserTx user s = .ok s') :
    ∃ revision, user.revision = some revision ∧
      ((∃ row, s.rows.lookup user.bindingId = some row ∧
          upsertApplies row user revision = false ∧ s' = s) ∨
        ∃ row, Writes user revision s row ∧ emailTaken s user.bindingId user.email = false ∧
          s' = { s with rows := s.rows.insert user.bindingId row }) := by
  unfold upsertDesiredUserTx at hok
  obtain ⟨revision, hrevision, hok⟩ := bind_eq_ok.1 hok
  refine ⟨revision, parseDecimal_eq_ok.1 hrevision, ?_⟩
  cases hrow : s.rows.lookup user.bindingId with
  | some row =>
    rw [hrow] at hok
    cases happlies : upsertApplies row user revision with
    | false =>
      simp only [happlies, Bool.not_false, if_true] at hok
      cases hok
      exact .inl ⟨row, rfl, happlies, rfl⟩
    | true =>
      simp only [happlies, Bool.not_true, Bool.false_eq_true, if_false] at hok
      obtain ⟨quota, hquota, hok⟩ := bind_eq_ok.1 hok
      obtain ⟨allowance, -, hok⟩ := bind_eq_ok.1 hok
      split at hok
      · cases hok
      · next hfree =>
        cases hok
        exact .inr ⟨_, ⟨quota, allowance, parseDecimal_eq_ok.1 hquota,
          .inr ⟨row, hrow, happlies, rfl⟩⟩, by simpa using hfree, rfl⟩
  | none =>
    rw [hrow] at hok
    obtain ⟨quota, hquota, hok⟩ := bind_eq_ok.1 hok
    obtain ⟨allowance, -, hok⟩ := bind_eq_ok.1 hok
    split at hok
    · cases hok
    · next hfree =>
      cases hok
      exact .inr ⟨_, ⟨quota, allowance, parseDecimal_eq_ok.1 hquota, .inl ⟨hrow, rfl⟩⟩,
        by simpa using hfree, rfl⟩

@[simp] theorem updatedRow_revision (row : UserRow) (user : DesiredUser) (r q a : Nat) :
    (updatedRow row user r q a).revision = r := by
  unfold updatedRow
  dsimp only
  split <;> rfl

@[simp] theorem updatedRow_flow (row : UserRow) (user : DesiredUser) (r q a : Nat) :
    (updatedRow row user r q a).flow = user.flow := by
  unfold updatedRow
  dsimp only
  split <;> rfl

@[simp] theorem updatedRow_address (row : UserRow) (user : DesiredUser) (r q a : Nat) :
    (updatedRow row user r q a).address = .real user.email := by
  unfold updatedRow
  dsimp only
  split <;> rfl

namespace Writes

variable {revision : Nat} {row : UserRow}

theorem fields (h : Writes user revision s row) : row.revision = revision ∧
    row.enabled = user.enabled ∧ row.uuid = user.uuid ∧ row.flow = user.flow ∧
    row.address = .real user.email := by
  obtain ⟨quota, allowance, -, ⟨-, rfl⟩ | ⟨old, -, -, rfl⟩⟩ := h
  · exact ⟨rfl, rfl, rfl, rfl, rfl⟩
  · simp

/-- A row that is written over stood at the revision of the user or below it. -/
theorem le (h : Writes user revision s row) {old : UserRow}
    (hold : s.rows.lookup user.bindingId = some old) : old.revision ≤ revision := by
  obtain ⟨quota, allowance, -, ⟨hnone, -⟩ | ⟨old', hold', happlies, -⟩⟩ := h
  · rw [hnone] at hold
    cases hold
  · obtain rfl := Option.some.inj (hold'.symm.trans hold)
    simp only [upsertApplies, Bool.or_eq_true, Bool.and_eq_true, decide_eq_true_eq] at happlies
    omega

/-- At its own revision a row is written over only by a disable or by other connection
settings. -/
theorem refines (h : Writes user revision s row) {old : UserRow}
    (hold : s.rows.lookup user.bindingId = some old) (heq : old.revision = revision)
    (huuid : row.uuid = old.uuid) (hflow : row.flow = old.flow) : row.enabled = false := by
  obtain ⟨-, henabled, huuid', hflow', -⟩ := h.fields
  obtain ⟨quota, allowance, -, ⟨hnone, -⟩ | ⟨old', hold', happlies, -⟩⟩ := h
  · rw [hnone] at hold
    cases hold
  · obtain rfl := Option.some.inj (hold'.symm.trans hold)
    have hsame : old'.uuid = user.uuid ∧ old'.flow = user.flow :=
      ⟨huuid.symm.trans huuid', hflow.symm.trans hflow'⟩
    rw [henabled]
    simp only [upsertApplies, heq, hsame, Nat.lt_irrefl, ne_eq, not_true_eq_false, decide_false,
      decide_true, Bool.false_or, Bool.or_false, Bool.true_and, Bool.and_eq_true,
      Bool.not_eq_true'] at happlies
    exact happlies.2

end Writes

/-- An upsert never lowers the revision of a row, and at the revision, UUID and flow of a row that
is disabled it does not enable it. -/
theorem upsert_row_keeps (hok : upsertDesiredUserTx user s = .ok s') {b : String} {row : UserRow}
    (hrow : s.rows.lookup b = some row) : ∃ row', s'.rows.lookup b = some row' ∧
      row.revision ≤ row'.revision ∧
      (row'.revision = row.revision → row'.uuid = row.uuid → row'.flow = row.flow →
        row.enabled = false → row'.enabled = false) := by
  obtain ⟨revision, -, ⟨_, -, -, rfl⟩ | ⟨row', hwrites, -, rfl⟩⟩ := upsertDesiredUserTx_cases hok
  · exact ⟨row, hrow, Nat.le_refl _, fun _ _ _ hdisabled => hdisabled⟩
  · dsimp only
    rw [Table.lookup_insert_ite]
    split
    · next hb =>
      subst hb
      have hrevision := hwrites.fields.1
      refine ⟨row', rfl, hrevision ▸ hwrites.le hrow, fun heq huuid hflow _ => ?_⟩
      exact hwrites.refines hrow (heq.symm.trans hrevision) huuid hflow
    · exact ⟨row, hrow, Nat.le_refl _, fun _ _ _ hdisabled => hdisabled⟩

end Store

/-! ## The checks before an upsert -/

namespace Processor

variable {s s' : Store} {user : DesiredUser}

/-- A user that the checks before an upsert let through: those of `ENSURE_USER`, or the merge
of a list with the stored bindings. -/
def Cleared (user : DesiredUser) (s : Store) : Prop :=
  user.bindingId ≠ "" ∧
    ((∃ command stored, planEnsure command s = .ok (some (stored, user))) ∨
      ∃ users revision merged, mergeNewerBindings users revision s = .ok merged ∧ user ∈ merged)

/-- The revision is above the tombstone of the binding.  A tombstone of revision zero reads as
none. -/
def AboveTombstone (s : Store) (b : String) (revision : Nat) : Prop :=
  s.bindingTombstone b = 0 ∨ s.bindingTombstone b < revision

theorem aboveTombstone_of_supersededForBinding {b : String} {revision : Nat}
    {stored : Option DesiredUser} (hb : b ≠ "")
    (h : supersededForBinding b (some revision) stored s = .ok false) :
    AboveTombstone s b revision := by
  by_contra hnot
  simp only [AboveTombstone, not_or, Nat.not_lt] at hnot
  rw [supersededForBinding_of_le hb (by omega) (Nat.le_refl (s.bindingTombstone b))
    hnot.2] at h
  cases h

/-- A user that is let through stands above the tombstone, or is stored already. -/
theorem Cleared.above (h : Cleared user s) {revision : Nat}
    (hrevision : user.revision = some revision) :
    user ∈ s.listDesiredUsers ∨ AboveTombstone s user.bindingId revision := by
  obtain ⟨hb, ⟨command, stored, hplan⟩ | ⟨users, snapshotRevision, merged, hmerge, hmem⟩⟩ := h
  · obtain ⟨-, hsuper, -, -, htarget⟩ := planEnsure_eq_ok hplan
    rw [← htarget, hrevision] at hsuper
    exact .inr (aboveTombstone_of_supersededForBinding hb hsuper)
  · rcases mem_mergeNewerBindings hmerge hmem with ⟨hstored, -⟩ | ⟨-, stored, hsuper⟩
    · exact .inl hstored
    · rw [hrevision] at hsuper
      exact .inr (aboveTombstone_of_supersededForBinding hb hsuper)

/-- The upsert of a stored user writes nothing. -/
theorem upsert_of_mem (hmem : user ∈ s.listDesiredUsers)
    (hok : s.upsertDesiredUserTx user = .ok s') : s' = s := by
  rw [Store.upsertDesiredUserTx_stored hmem] at hok
  exact (Except.ok.inj hok).symm

/-- What is let through creates or enables a row only above the tombstone. -/
theorem Cleared.upsert (h : Cleared user s) (hok : s.upsertDesiredUserTx user = .ok s') {b : String}
    {row' : UserRow} (hrow' : s'.rows.lookup b = some row')
    (hnew : ∀ row, s.rows.lookup b = some row → row.enabled = false ∧ row'.enabled = true) :
    AboveTombstone s b row'.revision := by
  obtain ⟨revision, hrevision, hcases⟩ := Store.upsertDesiredUserTx_cases hok
  have hsame : s.rows.lookup b ≠ some row' := fun hrow => by
    have := hnew row' hrow
    simp [this.1] at this
  rcases h.above hrevision with hmem | habove
  · rw [upsert_of_mem hmem hok] at hrow'
    exact absurd hrow' hsame
  · rcases hcases with ⟨_, -, -, rfl⟩ | ⟨row, hwrites, -, rfl⟩
    · exact absurd hrow' hsame
    · rcases Table.lookup_of_insert hrow' with ⟨rfl, rfl⟩ | hrow
      · exact hwrites.fields.1 ▸ habove
      · exact absurd hrow hsame

/-- An upsert never lowers the revision of a row and never touches a tombstone.  At the revision,
UUID and flow of a disabled row it does not enable it, and what the checks before it let through
creates or enables a row only above the tombstone. -/
theorem upsert_is_monotone (hok : s.upsertDesiredUserTx user = .ok s') :
    (∀ b row, s.rows.lookup b = some row → ∃ row', s'.rows.lookup b = some row' ∧
      row.revision ≤ row'.revision ∧
      (row'.revision = row.revision → row'.uuid = row.uuid → row'.flow = row.flow →
        row.enabled = false → row'.enabled = false)) ∧
    s'.tombstones = s.tombstones ∧
    (Cleared user s → ∀ b row', s'.rows.lookup b = some row' →
      (∀ row, s.rows.lookup b = some row → row.enabled = false ∧ row'.enabled = true) →
      AboveTombstone s b row'.revision) :=
  ⟨fun _ _ hrow => Store.upsert_row_keeps hok hrow, Store.upsertDesiredUserTx_tombstones hok,
    fun h _ _ hrow' hnew => h.upsert hok hrow' hnew⟩

/-- An account of binding `a` at a revision. -/
def account (revision : Nat) : DesiredUser :=
  { bindingId := "a", revision := some revision, email := "a@x", uuid := "u"
    quotaRemainingBytes := some 10 }

/-- Binding `a` was revoked at revision 5. -/
def revoked : Store := { tombstones := (∅ : Table String Tombstone).insert "a" ⟨5, "a@x"⟩ }

/-- The row that binding `a` gets. -/
def accountRow (revision : Nat) : UserRow :=
  { address := .real "a@x", uuid := "u", flow := flowNone, enabled := true, revision
    quotaRemaining := 10, offlineAllowance := 0 }

/-- A store in which the row of binding `a` is disabled at revision 6, above its tombstone. -/
def disabledRow : Store :=
  { revoked with
    rows := (∅ : Table String UserRow).insert "a" { accountRow 6 with enabled := false } }

/-- A list lets binding `a` through at revision 7, which enables its row above the tombstone. -/
theorem upsert_is_monotone_newer :
    ∃ s', disabledRow.upsertDesiredUserTx (account 7) = .ok s' ∧
      (∃ row, s'.rows.lookup "a" = some row ∧ 6 ≤ row.revision) ∧
      s'.tombstones = revoked.tombstones ∧
      Cleared (account 7) disabledRow ∧ s'.rows.lookup "a" = some (accountRow 7) ∧
      AboveTombstone disabledRow "a" 7 := by
  refine ⟨_, rfl, ?_⟩
  have hok : disabledRow.upsertDesiredUserTx (account 7) = .ok _ := rfl
  have hmonotone := upsert_is_monotone hok
  obtain ⟨row, hrow, hle, -⟩ := hmonotone.1 "a" { accountRow 6 with enabled := false } rfl
  have hcleared : Cleared (account 7) disabledRow :=
    ⟨by decide, .inr ⟨[account 7], some 7, [account 7], rfl, List.mem_singleton_self _⟩⟩
  refine ⟨⟨row, hrow, hle⟩, hmonotone.2.1, hcleared, rfl, ?_⟩
  exact hmonotone.2.2 hcleared "a" (accountRow 7) rfl fun row hrow =>
    ⟨by obtain rfl := Option.some.inj hrow; rfl, rfl⟩

/-- The upsert itself does not look at the tombstone: at revision 3 it creates an enabled row for
a binding that was revoked at revision 5. -/
theorem upsert_ignores_tombstone :
    revoked.bindingTombstone "a" = 5 ∧ revoked.rows.lookup "a" = none ∧
      ∃ s', revoked.upsertDesiredUserTx (account 3) = .ok s' ∧
        s'.rows.lookup "a" = some (accountRow 3) := by
  refine ⟨by decide, by decide, _, rfl, by decide⟩

end Processor

end ChordV.Agent
