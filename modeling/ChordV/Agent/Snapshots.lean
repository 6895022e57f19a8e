import ChordV.Agent.Durability
import ChordV.Agent.Evidence

/-!
# What a list of instructions does to one binding

Both snapshot channels end in the same way: a list of users is handed to the
reconciliation and then stored.  This file follows the row of one binding through it.

* `Entry users user` says that `user` is what the list says about its binding.
* `UserRow.Matches` says that a row has the revision, the switch and the quota of an
  instruction, and `UserRow.Awaits` that the instruction is newer or matched already.
* `Store.Upserts` is what one upsert does to the row, and `applyUsers_spec` what follows when a
  whole list is handed over and stored.
* `Entry.merge` says what the merge with the newer bindings makes of an entry.
-/

namespace ChordV.Agent

open Lib Fallible

/-- The list says one thing about the binding. -/
structure Entry (users : List DesiredUser) (user : DesiredUser) : Prop where
  mem : user ∈ users
  only : ∀ other ∈ users, other.bindingId = user.bindingId → other = user

/-- The row says what the instruction says. -/
structure UserRow.Matches (row : UserRow) (user : DesiredUser) : Prop where
  revision : user.revision = some row.revision
  enabled : row.enabled = user.enabled
  quota : user.quotaRemainingBytes = some row.quotaRemaining

/-- The instruction is newer than the row, or the row says what it says already. -/
def UserRow.Awaits (row : UserRow) (user : DesiredUser) : Prop :=
  (∃ revision, user.revision = some revision ∧ row.revision < revision) ∨ row.Matches user

theorem UserRow.Awaits.parkRow {row : UserRow} {user : DesiredUser} (h : row.Awaits user) :
    (Store.parkRow row).Awaits user :=
  h.imp (fun hnewer => hnewer) fun hmatches => ⟨hmatches.revision, hmatches.enabled, hmatches.quota⟩

/-- The protocol view of a row says what the row says. -/
theorem Store.desired_matches {b : String} {row : UserRow} {user : DesiredUser}
    (h : Store.desired b row = some user) : row.Matches user := by
  unfold Store.desired at h
  split at h
  · cases h
  · cases h
    exact ⟨rfl, rfl, rfl⟩

namespace Store

variable {s s' : Store} {user : DesiredUser} {users : List DesiredUser} {row : UserRow}

/-! ## Storing a list -/

/-- The binding has a row of which the statement holds. -/
def HasRow (b : String) (P : UserRow → Prop) (s : Store) : Prop :=
  ∃ row, s.rows.lookup b = some row ∧ P row

theorem HasRow.mono {b : String} {P Q : UserRow → Prop} (h : s.HasRow b P)
    (hPQ : ∀ row, P row → Q row) :
    s.HasRow b Q := by
  obtain ⟨row, hrow, hP⟩ := h
  exact ⟨row, hrow, hPQ row hP⟩

theorem HasRow.of_rows {b : String} {P : UserRow → Prop} (h : s.HasRow b P)
    (hrows : s'.rows = s.rows) :
    s'.HasRow b P := by
  obtain ⟨row, hrow, hP⟩ := h
  exact ⟨row, hrows ▸ hrow, hP⟩

/-- An upsert of the instruction turns a row of which `P` holds into one of which `Q` holds. -/
structure Upserts (user : DesiredUser) (P Q : UserRow → Prop) : Prop where
  upsert : ∀ s s', s.HasRow user.bindingId P → upsertDesiredUserTx user s = .ok s' →
    s'.HasRow user.bindingId Q
  again : ∀ row, Q row → P row
  parked : ∀ row, P row → P (parkRow row)

/-- What an upsert does to the stored row of its own binding. -/
theorem upsertDesiredUserTx_own (hrow : s.rows.lookup user.bindingId = some row)
    (hok : upsertDesiredUserTx user s = .ok s') : ∃ revision, user.revision = some revision ∧
      ((upsertApplies row user revision = false ∧ s' = s) ∨
        ∃ row', s'.rows.lookup user.bindingId = some row' ∧ row'.Matches user) := by
  unfold upsertDesiredUserTx at hok
  obtain ⟨revision, hrevision, hok⟩ := bind_eq_ok.1 hok
  have hsome := parseDecimal_eq_ok.1 hrevision
  refine ⟨revision, hsome, ?_⟩
  rw [hrow] at hok
  dsimp only at hok
  cases happlies : upsertApplies row user revision with
  | false =>
    rw [happlies] at hok
    cases hok
    exact .inl ⟨rfl, rfl⟩
  | true =>
    rw [happlies] at hok
    obtain ⟨quota, hquota, hok⟩ := bind_eq_ok.1 hok
    obtain ⟨allowance, -, hok⟩ := bind_eq_ok.1 hok
    split at hok
    · cases hok
    · cases hok
      refine .inr ⟨_, AList.lookup_insert _, ?_, updatedRow_enabled .., ?_⟩
      · unfold updatedRow
        dsimp only
        split <;> exact hsome
      · unfold updatedRow
        dsimp only
        split <;> exact parseDecimal_eq_ok.1 hquota

/-- A newer revision always applies. -/
theorem upsertApplies_of_lt {revision : Nat} (hnewer : row.revision < revision) :
    upsertApplies row user revision = true := by
  simp [upsertApplies, hnewer]

/-- An instruction that the row awaits is matched after its upsert. -/
theorem upserts_matches (user : DesiredUser) : Upserts user (·.Awaits user) (·.Matches user) where
  upsert := by
    rintro s s' ⟨row, hrow, hawaits⟩ hok
    obtain ⟨revision, hrevision, ⟨hrejected, rfl⟩ | hmatches⟩ := upsertDesiredUserTx_own hrow hok
    · rcases hawaits with ⟨r, hr, hnewer⟩ | hmatches
      · obtain rfl := Option.some.inj (hrevision.symm.trans hr)
        rw [upsertApplies_of_lt hnewer] at hrejected
        cases hrejected
      · exact ⟨row, hrow, hmatches⟩
    · exact hmatches
  again := fun _ => .inr
  parked := fun _ h => h.parkRow

/-- An upsert for another binding leaves the row alone. -/
theorem upsertDesiredUserTx_lookup_ne {b : String} (hb : user.bindingId ≠ b)
    (hok : upsertDesiredUserTx user s = .ok s') : s'.rows.lookup b = s.rows.lookup b := by
  obtain rfl | ⟨row, -, -, rfl⟩ := upsertDesiredUserTx_eq_ok hok
  · rfl
  · exact AList.lookup_insert_ne hb.symm

namespace Upserts

variable {P Q : UserRow → Prop} (hup : Upserts user P Q)
include hup

/-- One upsert of the list, for this binding or for another one. -/
theorem step {R : UserRow → Prop} (hRP : ∀ row, R row → P row) (hQR : ∀ row, Q row → R row)
    (honly : ∀ other ∈ users, other.bindingId = user.bindingId → other = user) {other : DesiredUser}
    (hother : other ∈ users) (h : s.HasRow user.bindingId R)
    (hok : upsertDesiredUserTx other s = .ok s') : s'.HasRow user.bindingId R := by
  by_cases hb : other.bindingId = user.bindingId
  · obtain rfl := honly other hother hb
    exact (hup.upsert s s' (h.mono hRP) hok).mono hQR
  · obtain ⟨row, hrow, hR⟩ := h
    exact ⟨row, (upsertDesiredUserTx_lookup_ne hb hok).trans hrow, hR⟩

theorem upsertAll (hentry : Entry users user) (h : s.HasRow user.bindingId P)
    (hok : upsertAllTx users s = .ok s') : s'.HasRow user.bindingId Q := by
  -- `P` holds up to the entry of the binding, and `Q` after it.
  obtain ⟨before, after, rfl⟩ := List.append_of_mem hentry.mem
  unfold upsertAllTx at hok
  rw [List.foldlM_append, bind_eq_ok] at hok
  obtain ⟨t, hbefore, hok⟩ := hok
  rw [List.foldlM_cons, bind_eq_ok] at hok
  obtain ⟨t', hentered, hafter⟩ := hok
  have ht : t.HasRow user.bindingId P := by
    refine foldlM_induct (I := HasRow user.bindingId P) ?_ h hbefore
    intro c other c' hother hc hcall
    exact hup.step (fun _ hP => hP) hup.again hentry.only (List.mem_append_left _ hother) hc hcall
  refine foldlM_induct (I := HasRow user.bindingId Q) ?_ (hup.upsert t t' ht hentered) hafter
  intro c other c' hother hc hcall
  refine hup.step hup.again (fun _ hQ => hQ) hentry.only ?_ hc hcall
  exact List.mem_append_right _ (List.mem_cons_of_mem _ hother)

theorem applyDesiredUsers (hentry : Entry users user) (h : s.HasRow user.bindingId P)
    (hok : Store.applyDesiredUsers users s = .ok s') : s'.HasRow user.bindingId Q := by
  obtain ⟨t, hpark, hok⟩ := bind_eq_ok.1 hok
  obtain ⟨row, hrow, hP⟩ := h
  refine hup.upsertAll hentry ?_ hok
  rcases lookup_parkContested hpark user.bindingId with heq | heq
  · exact ⟨row, heq.trans hrow, hP⟩
  · rw [hrow] at heq
    exact ⟨parkRow row, heq, hup.parked row hP⟩

end Upserts

theorem lookup_dropOmitted {b : String} (revision : Nat) (dropped : List (String × UserRow))
    (hb : ∀ p ∈ dropped, p.1 ≠ b) :
    (dropped.foldl (dropOmittedTx revision) s).rows.lookup b = s.rows.lookup b := by
  refine List.foldlRecOn (motive := fun t : Store => t.rows.lookup b = s.rows.lookup b) _ _ rfl ?_
  intro t ht p hp
  unfold dropOmittedTx
  dsimp only
  rw [recordTombstoneTx_rows, Table.lookup_erase_ite, if_neg (hb p hp).symm, ht]

theorem Upserts.applyConfigSnapshot {P Q : UserRow → Prop} (hup : Upserts user P Q)
    {snapshot : ConfigSnapshot} {revision : Nat} {applied : Bool}
    (hrevision : snapshot.revision = some revision) (hconfig : s.configRevision ≤ revision)
    (hentry : Entry snapshot.users user) (h : s.HasRow user.bindingId P)
    (hok : Store.applyConfigSnapshot snapshot s = .ok (applied, s')) :
    s'.HasRow user.bindingId Q := by
  unfold Store.applyConfigSnapshot at hok
  split at hok
  · cases hok
  obtain ⟨revision', hparse, hok⟩ := bind_eq_ok.1 hok
  obtain rfl : revision = revision' := by simpa [hrevision] using hparse
  split at hok
  · omega
  · obtain ⟨t, hreplace, hok⟩ := bind_eq_ok.1 hok
    cases hok
    obtain ⟨u, happly, hreplace⟩ := bind_eq_ok.1 hreplace
    cases hreplace
    obtain ⟨row, hrow, hQ⟩ := hup.applyDesiredUsers hentry h happly
    refine ⟨row, ?_, hQ⟩
    refine (lookup_dropOmitted revision _ fun p hp hb => ?_).trans hrow
    have homitted := (List.mem_filter.1 hp).2
    simp only [omittedBy, hb, Bool.not_eq_true', List.any_eq_false] at homitted
    exact homitted user hentry.mem (by simp)

/-! ## The stored user of a binding -/

/-- Searching the list of users for a binding is looking up its row. -/
theorem find?_filter_listDesiredUsers (s : Store) (b : String) (p : DesiredUser → Bool) :
    s.listDesiredUsers.find? (fun user => p user && user.bindingId = b) =
      (s.userByBindingId b).filter p := by
  cases hfound : s.listDesiredUsers.find? (fun user => p user && user.bindingId = b) with
  | some held =>
    obtain ⟨hp, hb⟩ : p held = true ∧ held.bindingId = b := by
      simpa using List.find?_some hfound
    obtain ⟨row, hrow, hdesired⟩ := row_of_mem_listDesiredUsers (List.mem_of_find?_eq_some hfound)
    subst hb
    unfold userByBindingId
    rw [hrow, Option.bind_some, hdesired, Option.filter_some, if_pos hp]
  | none =>
    cases hheld : s.userByBindingId b with
    | none => rfl
    | some held =>
      obtain ⟨row, hrow, hdesired⟩ := Option.bind_eq_some_iff.1 hheld
      have hmem := mem_listDesiredUsers.2 ⟨b, row, hrow, hdesired⟩
      have hnot := List.find?_eq_none.1 hfound held hmem
      have hp : ¬p held = true := by simpa [(desired_eq_some hdesired).1] using hnot
      rw [Option.filter_some, if_neg hp]

theorem find?_listDesiredUsers (s : Store) (b : String) :
    s.listDesiredUsers.find? (·.bindingId = b) = s.userByBindingId b := by
  have h := s.find?_filter_listDesiredUsers b fun _ => true
  simp only [Bool.true_and] at h
  rw [h]
  cases s.userByBindingId b <;> rfl

end Store

namespace Processor

variable {s : Store} {user : DesiredUser} {users : List DesiredUser}

/-! ## Handing a list over -/

/-- A list is handed to the reconciliation and stored: what its entry makes of the row. -/
theorem applyUsers_spec (deps : Deps) (mode : ControlMode) (snapshot : ConfigSnapshot)
    {P Q : UserRow → Prop} (hup : Store.Upserts user P Q) {s₀ : Store} {revision : Nat}
    (hrevision : snapshot.revision = some revision) (hconfig : s₀.configRevision ≤ revision)
    (hentry : Entry snapshot.users user) :
    Triple (fun w => w.store.HasRow user.bindingId P ∧ Store.SameMeta s₀ w.store)
      (do reconcileOrRemember deps mode snapshot.users; let _ ← storeSnapshot snapshot)
      (fun _ w => w.store.HasRow user.bindingId Q) fun _ => True := by
  let I := fun w : World => w.store.HasRow user.bindingId P ∧ Store.SameMeta s₀ w.store
  have hI : RecordInv I := fun w w' hrecords _ hw =>
    ⟨hw.1.of_rows (Store.rows_of_records hrecords), hw.2.of_records hrecords⟩
  have hhanded : Keeps I (reconcileOrRemember deps mode snapshot.users) := by
    refine Keeps.ite (fun _ => ?_) fun _ => hI.keeps_rememberDroppedOwnership
    refine hI.reconcile_keeps (fun other _ _ w w' hrecords _ hw => ?_) ?_
    · exact ⟨hw.1.of_rows (Store.rows_of_records hrecords), hw.2.of_records hrecords⟩
    · refine Keeps.atomic fun w a w' hw hrun => ?_
      obtain ⟨t, hok, hrun⟩ := map_eq_ok.1 hrun
      cases hrun
      exact ⟨(hup.applyDesiredUsers hentry hw.1 hok).mono hup.again, hw.2.applyDesiredUsers hok⟩
  refine Triple.bind (hhanded.conseq (fun _ hw => hw) (fun _ _ hw => hw) fun _ _ => trivial)
    fun _ => ?_
  refine Triple.bind (S := fun _ w => w.store.HasRow user.bindingId Q)
    (Triple.atomic ?_ fun _ _ => trivial) fun _ => Triple.pure fun _ hw => hw
  intro w applied w' hw hrun
  obtain ⟨⟨applied', t⟩, hok, hrun⟩ := bind_eq_ok.1 hrun
  cases hrun
  refine ⟨?_, trivial⟩
  exact hup.applyConfigSnapshot hrevision (hw.2.configRevision ▸ hconfig) hentry hw.1 hok

/-! ## The merge with the newer bindings -/

/-- A list that passes `distinctBindings` has no binding and no address twice. -/
theorem distinctBindings_nodup (h : distinctBindings users = .ok ()) :
    (users.map (·.bindingId)).Nodup ∧ (users.map (·.email)).Nodup := by
  have hdistinct : ∀ {seen users : List DesiredUser}, distinctFrom seen users = .ok () →
      (∀ user ∈ users, ∀ other ∈ seen, user.bindingId ≠ other.bindingId ∧
        user.email ≠ other.email) ∧
        users.Pairwise fun user other =>
          user.bindingId ≠ other.bindingId ∧ user.email ≠ other.email := by
    intro seen users h
    induction users generalizing seen with
    | nil => exact ⟨fun _ hu => by (cases hu), .nil⟩
    | cons user users ih =>
      unfold distinctFrom at h
      obtain ⟨_, -, h⟩ := bind_eq_ok.1 h
      by_cases hbinding : seen.any (·.bindingId = user.bindingId) = true
      · simp [hbinding] at h
      by_cases hemail : seen.any (·.email = user.email) = true
      · simp [hbinding, hemail] at h
      have hrest : distinctFrom (user :: seen) users = .ok () := by
        simpa [hbinding, hemail] using h
      obtain ⟨hseen, hpairs⟩ := ih hrest
      refine ⟨fun user' huser' other hother => ?_, .cons (fun other hother => ?_) hpairs⟩
      · rcases List.mem_cons.1 huser' with rfl | huser'
        · exact ⟨fun heq => hbinding (List.any_eq_true.2 ⟨other, hother, by simp [heq]⟩),
            fun heq => hemail (List.any_eq_true.2 ⟨other, hother, by simp [heq]⟩)⟩
        · exact hseen user' huser' other (List.mem_cons_of_mem _ hother)
      · have hne := hseen other hother user List.mem_cons_self
        exact ⟨hne.1.symm, hne.2.symm⟩
  have hpairs := (hdistinct h).2
  exact ⟨List.pairwise_map.2 (hpairs.imp fun hne => hne.1),
    List.pairwise_map.2 (hpairs.imp fun hne => hne.2)⟩

/-- So it says one thing about each binding. -/
theorem distinctBindings_entry (h : distinctBindings users = .ok ()) (hmem : user ∈ users) :
    Entry users user :=
  ⟨hmem, fun _ hother hb =>
    List.inj_on_of_nodup_map (distinctBindings_nodup h).1 hother hmem hb⟩

end Processor

namespace Entry

variable {s : Store} {user result : DesiredUser} {users merged : List DesiredUser}

/-- A change of the users one by one, which keeps their bindings. -/
theorem map {f : DesiredUser → DesiredUser} (hf : ∀ user, (f user).bindingId = user.bindingId)
    (h : Entry users user) : Entry (users.map f) (f user) := by
  refine ⟨List.mem_map_of_mem h.mem, fun other hother hb => ?_⟩
  obtain ⟨original, horiginal, rfl⟩ := List.mem_map.1 hother
  rw [hf, hf] at hb
  rw [h.only original horiginal hb]

/-- What the merge makes of an entry. -/
theorem merge {revision : Decimal} (h : Entry users user)
    (hmerge : Processor.mergeUser s.listDesiredUsers s user = .ok (some result))
    (hb : result.bindingId = user.bindingId)
    (hok : Processor.mergeNewerBindings users revision s = .ok merged) : Entry merged result := by
  obtain ⟨results, hresults, hok⟩ := bind_eq_ok.1 hok
  obtain ⟨kept, hkept, hok⟩ := bind_eq_ok.1 hok
  cases hok
  have hmem : some result ∈ results := by
    have hpairs := mapM_eq_ok hresults
    obtain ⟨i, hi, hget⟩ := List.mem_iff_getElem.1 h.mem
    have hlength := hpairs.length_eq
    have hat := List.forall₂_iff_get.1 hpairs
    have hpair := hat.2 i hi (hlength ▸ hi)
    rw [List.get_eq_getElem, List.get_eq_getElem, hget, hmerge] at hpair
    rw [Except.ok.inj hpair]
    exact List.getElem_mem _
  refine ⟨List.mem_append_left _ (List.reduceOption_mem_iff.2 hmem), fun other hother hother' => ?_⟩
  rcases List.mem_append.1 hother with hcarried | homitted
  · rw [List.reduceOption_mem_iff] at hcarried
    obtain ⟨original, horiginal, heq⟩ := mem_of_mapM_eq_ok hresults hcarried
    have hbinding : other.bindingId = original.bindingId := by
      rcases Processor.mergeUser_eq_ok heq with ⟨-, hb'⟩ | ⟨rfl, -⟩
      · exact hb'
      · rfl
    obtain rfl := h.only original horiginal (hbinding.symm.trans (hother'.trans hb))
    rw [hmerge] at heq
    exact (Option.some.inj (Except.ok.inj heq)).symm
  · -- An omitted binding is not named by the list.
    rw [filterM_eq_ok hkept, List.mem_filter] at homitted
    have hnot := (List.mem_filter.1 homitted.1).2
    simp only [Bool.not_eq_true', List.any_eq_false] at hnot
    exact absurd (by simpa using (hother'.trans hb).symm) (hnot user h.mem)

end Entry

namespace Processor

variable {s : Store} {user : DesiredUser}

/-- An instruction passes the merge when it is newer than the tombstone of its binding, and
newer than the row or about an enabled row of its own revision. -/
theorem mergeUser_of_current {revision : Nat} (hrevision : user.revision = some revision)
    (htombstone : s.bindingTombstone user.bindingId = 0 ∨
      s.bindingTombstone user.bindingId < revision)
    (hrow : ∀ row, s.rows.lookup user.bindingId = some row →
      row.revision < revision ∨ (row.revision = revision ∧ row.enabled = true)) :
    mergeUser s.listDesiredUsers s user = .ok (some user) := by
  have hfloor : tombstoneSupersedes user.bindingId user.revision s = .ok false := by
    unfold tombstoneSupersedes
    split
    · rfl
    · next hpresent =>
      have hlt := htombstone.resolve_left fun hzero => hpresent (.inr hzero)
      rw [hrevision, decimalLess_some, decide_eq_true hlt]
      rfl
  unfold mergeUser supersededForBinding
  rw [Store.find?_listDesiredUsers, hfloor]
  cases hheld : s.userByBindingId user.bindingId with
  | none => rfl
  | some held =>
    obtain ⟨row, hlookup, hdesired⟩ := Option.bind_eq_some_iff.1 hheld
    have hmatches := Store.desired_matches hdesired
    dsimp only [ok_bind]
    rcases hrow row hlookup with hnewer | ⟨hsame, henabled⟩
    · have hne : ¬some revision = some row.revision := fun heq => by
        have := Option.some.inj heq
        omega
      rw [hrevision, hmatches.revision, decimalLess_some, decide_eq_false (by omega)]
      simp [hne]
    · rw [hrevision, hmatches.revision, ← hmatches.enabled, henabled, decimalLess_some,
        decide_eq_false (by omega)]
      simp

/-- A stored user passes the merge as it is. -/
theorem mergeUser_of_stored (hheld : s.userByBindingId user.bindingId = some user) :
    mergeUser s.listDesiredUsers s user = .ok (some user) := by
  obtain ⟨row, -, hdesired⟩ := Option.bind_eq_some_iff.1 hheld
  have hrevision := (Store.desired_matches hdesired).revision
  have hsuper : ∃ superseded, supersededForBinding user.bindingId user.revision (some user) s =
      .ok superseded := by
    unfold supersededForBinding tombstoneSupersedes
    rw [hrevision]
    by_cases hnone : user.bindingId = "" ∨ s.bindingTombstone user.bindingId = 0
    · exact ⟨!user.enabled, by simp [hnone, hrevision]⟩
    · by_cases hfloor : s.bindingTombstone user.bindingId < row.revision
      · exact ⟨!user.enabled, by simp [hnone, hfloor, hrevision, Except.map]⟩
      · exact ⟨true, by simp [hnone, hfloor, Except.map]⟩
  obtain ⟨superseded, hsuper⟩ := hsuper
  unfold mergeUser
  rw [Store.find?_listDesiredUsers, hheld]
  dsimp only
  rw [hsuper]
  cases superseded <;> rfl

end Processor

end ChordV.Agent
