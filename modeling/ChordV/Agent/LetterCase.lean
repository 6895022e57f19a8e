import ChordV.Agent.Metered
import ChordV.Agent.NoOrphan

/-!
# The spelling of an identity

Xray reports an identity in lower case.  The adapter installs that spelling, and the store keeps
the text that was delivered.

* `Established` is what an installation leaves at an address, and `Ours` is what the rest of the
  agent makes of it: the account is owned, and its counters are attributed to the binding.
* `ensureUser_established` and `reconcile_established` say that both ways to install a user
  establish it.
* `Store.takes` says which records put their identity into the row at their address.
* `spelling_decides` is the condition under which an installed account is the agent's own.
-/

namespace ChordV.Agent

open Lib Fallible

variable {w w₀ : World} {deps : Deps} {user : DesiredUser} {users : List DesiredUser}

/-! ## An installed account -/

/-- What an installation leaves at the address of a user: the claim in the spelling of the record,
no note, and a live account with the identity. -/
structure Established (user : DesiredUser) (w : World) : Prop where
  claim : w.store.provisioned.lookup user.email = some ⟨user.bindingId, true, user.uuid, ""⟩
  note : w.store.pendingRemovals.lookup user.email = none
  account : Adapter.Carries user w

/-- The agent takes the account of a user for its own, and its counters for those of the
binding. -/
structure Ours (user : DesiredUser) (w : World) : Prop where
  owned : user.email ∈ Processor.ownershipMap w.xray.liveUsers w.store
  owns : ∃ candidates, Processor.claimedIdentities user.email w.store = some candidates ∧
    Processor.claimStands ((Processor.liveAt w.xray.liveUsers user.email).map (·.uuid))
      candidates = true
  found : ∃ row, w.store.userByEmail user.email = some (user.bindingId, row)
  attributed : ∀ counter : AbsoluteCounter, counter.email = user.email →
    Runner.attributable w.xray.liveUsers w.store.listDesiredUsers counter = true

namespace Store

variable {s s' : Store}

/-- The row of a user is at its address and does not contradict its identity. -/
def Sits (s : Store) (user : DesiredUser) : Prop :=
  ∃ row, s.rows.lookup user.bindingId = some row ∧ row.address = .real user.email ∧
    (row.uuid = "" ∨ row.uuid = user.uuid)

/-- The store writes the record of a user, or has its identity at its address already. -/
def takes (s : Store) (user : DesiredUser) : Bool :=
  match s.rows.lookup user.bindingId with
  | none => true
  | some row => (user.revision.map (upsertApplies row user)).getD false ||
      (row.address = .real user.email && (row.uuid = "" || row.uuid = user.uuid))

theorem Writes.sits {revision : Nat} {row : UserRow} (h : Writes user revision s row)
    (hrow : s'.rows.lookup user.bindingId = some row) : s'.Sits user :=
  ⟨row, hrow, h.fields.2.2.2.2, .inr h.fields.2.2.1⟩

theorem upsertDesiredUserTx_sits (hok : upsertDesiredUserTx user s = .ok s') :
    s'.Sits user ↔ s.takes user = true := by
  obtain ⟨revision, hrevision, ⟨row, hrow, hskipped, rfl⟩ | ⟨row, hwrites, -, rfl⟩⟩ :=
    upsertDesiredUserTx_cases hok
  · simp [Sits, takes, hrow, hrevision, hskipped]
  · refine iff_of_true (hwrites.sits (AList.lookup_insert _)) ?_
    obtain ⟨quota, allowance, -, ⟨hnone, -⟩ | ⟨old, hold, happlies, -⟩⟩ := hwrites
    · simp [takes, hnone]
    · simp [takes, hold, hrevision, happlies]

theorem applyDesiredUsers_sits (hdistinct : Distinct users)
    (hok : applyDesiredUsers users s = .ok s') (hmem : user ∈ users) :
    s'.Sits user ↔ s.takes user = true := by
  obtain ⟨t, hparked, hupserted⟩ := applyDesiredUsers_cases hdistinct hok
  obtain ⟨revision, hrevision, ⟨row, hrow, hskipped, hrow'⟩ | ⟨row, hwrites, hrow'⟩⟩ :=
    hupserted.named user hmem
  · -- The row stands above the user, so it is where the hand-off left it.
    rw [hparked] at hrow
    obtain ⟨old, hold, rfl⟩ := Option.map_eq_some_iff.1 hrow
    rw [upsertApplies_parkedRow] at hskipped
    simp [Sits, hrow', takes, hold, hrevision, hskipped,
      parkedRow_address (hdistinct.own (accepted (takesAddress s)) hmem)]
  · refine iff_of_true (hwrites.sits hrow') ?_
    obtain ⟨quota, allowance, -, ⟨hnone, -⟩ | ⟨old, hold, happlies, -⟩⟩ := hwrites
    · rw [hparked, Option.map_eq_none_iff] at hnone
      simp [takes, hnone]
    · rw [hparked] at hold
      obtain ⟨before, hbefore, rfl⟩ := Option.map_eq_some_iff.1 hold
      rw [upsertApplies_parkedRow] at happlies
      simp [takes, hbefore, hrevision, happlies]

/-- A search of the stored users by address finds the row there. -/
theorem OneHolder.find?_listDesiredUsers (h : s.OneHolder) {b email : String} {row : UserRow}
    (hrow : s.rows.lookup b = some row) (haddress : row.address = .real email) :
    ∃ stored, s.listDesiredUsers.find? (·.email = email) = some stored ∧
      stored.uuid = row.uuid := by
  obtain ⟨listed, hlisted⟩ : ∃ listed, desired b row = some listed := by
    unfold desired
    rw [haddress]
    exact ⟨_, rfl⟩
  have hreal := (desired_eq_some hlisted).2.1
  obtain ⟨stored, hfound⟩ : ∃ stored, s.listDesiredUsers.find? (·.email = email) = some stored := by
    refine Option.isSome_iff_exists.1 (List.find?_isSome.2
      ⟨listed, mem_listDesiredUsers.2 ⟨b, row, hrow, hlisted⟩, ?_⟩)
    simpa using Address.real.inj (hreal.symm.trans haddress)
  have hemail : stored.email = email := by simpa using List.find?_some hfound
  obtain ⟨row', hrow', hdesired⟩ := row_of_mem_listDesiredUsers (List.mem_of_find?_eq_some hfound)
  obtain ⟨-, haddress', huuid, -⟩ := desired_eq_some hdesired
  have hb := h _ b row' row email hrow' hrow (hemail ▸ haddress') haddress
  rw [hb, hrow] at hrow'
  exact ⟨stored, hfound, huuid.trans (congrArg UserRow.uuid (Option.some.inj hrow').symm)⟩

end Store

/-! ## Ownership and attribution -/

namespace Established

/-- The claim accepts the live account if the two spellings agree. -/
theorem claimStands (h : Established user w) : Processor.claimStands
    ((Processor.liveAt w.xray.liveUsers user.email).map (·.uuid)) [user.uuid, ""] = true ↔
      canonicalUUID user.uuid = some user.uuid := by
  obtain ⟨id, account, hid, hlookup, rfl⟩ := h.account
  have hne := canonicalUUID_ne_empty hid
  rw [hid, Option.some.injEq, Processor.liveAt_liveUsers, hlookup]
  simp only [Processor.claimStands, Option.map_some, Account.toLive_uuid]
  by_cases heq : user.uuid = account.uuid
  · simp [heq, hne]
  · have huuid : user.uuid ≠ "" := by
      intro hempty
      rw [hempty] at hid
      simp [canonicalUUID, isUUID] at hid
    simp [hne, heq, huuid, Ne.symm heq]

theorem owned (h : Established user w) :
    user.email ∈ Processor.ownershipMap w.xray.liveUsers w.store ↔
      canonicalUUID user.uuid = some user.uuid := by
  have hclaim := Table.mem_pairs.2 h.claim
  rw [← h.claimStands]
  unfold Processor.ownershipMap Store.provisionedAccounts
  simp only [List.mem_append, List.mem_map, List.mem_filter, Prod.exists, exists_and_right,
    exists_eq_right]
  constructor
  · rintro (⟨row, ⟨hrow, -⟩, hstands⟩ | ⟨note, hnote, -⟩)
    · have hsame := (Table.mem_pairs.1 hrow).symm.trans h.claim
      rwa [Option.some.inj hsame] at hstands
    · cases h.note.symm.trans (Table.mem_pairs.1 hnote)
  · exact fun hstands => .inl ⟨_, ⟨hclaim, rfl⟩, hstands⟩

theorem attributed (h : Established user w) {stored : DesiredUser}
    (hfound : w.store.listDesiredUsers.find? (·.email = user.email) = some stored)
    (counter : AbsoluteCounter) (hcounter : counter.email = user.email) :
    Runner.attributable w.xray.liveUsers w.store.listDesiredUsers counter = true ↔
      stored.uuid = "" ∨ canonicalUUID user.uuid = some stored.uuid := by
  obtain ⟨id, account, hid, hlookup, rfl⟩ := h.account
  unfold Runner.attributable
  rw [hcounter, hfound, Processor.liveAt_liveUsers, hlookup, hid]
  simp only [Option.map_some, Account.toLive_uuid, canonicalUUID_ne_empty hid, decide_false,
    Bool.false_or, Bool.or_eq_true, decide_eq_true_eq, Option.some.injEq]
  exact or_congr_right decide_eq_true_iff

/-- An established account is the agent's own if its spelling is canonical and the row at its
address took the identity. -/
theorem ours (h : Established user w) (hone : w.store.OneHolder) :
    Ours user w ↔ canonicalUUID user.uuid = some user.uuid ∧ w.store.Sits user := by
  have hcandidates : Processor.claimedIdentities user.email w.store = some [user.uuid, ""] := by
    simp [Processor.claimedIdentities, Store.claimOn_eq_some h.claim rfl]
  constructor
  · intro hours
    have hcanonical := h.owned.1 hours.owned
    refine ⟨hcanonical, ?_⟩
    obtain ⟨row, hfound⟩ := hours.found
    obtain ⟨hrow, haddress⟩ := Store.lookup_of_userByEmail hfound
    obtain ⟨stored, hstored, huuid⟩ := hone.find?_listDesiredUsers hrow haddress
    have hattributed := (h.attributed hstored ⟨user.email, 0, 0⟩ rfl).1
      (hours.attributed ⟨user.email, 0, 0⟩ rfl)
    rw [hcanonical, Option.some.injEq, huuid] at hattributed
    exact ⟨row, hrow, haddress, hattributed.imp_right Eq.symm⟩
  · rintro ⟨hcanonical, row, hrow, haddress, hidentity⟩
    obtain ⟨stored, hstored, huuid⟩ := hone.find?_listDesiredUsers hrow haddress
    exact {
      owned := h.owned.2 hcanonical
      owns := ⟨_, hcandidates, h.claimStands.2 hcanonical⟩
      found := ⟨row, hone.userByEmail hrow haddress⟩
      attributed := fun counter hcounter => by
        rw [h.attributed hstored counter hcounter, hcanonical, huuid, Option.some.injEq]
        exact hidentity.imp_right Eq.symm }

end Established

/-! ## Installing one user -/

/-- Only one address was touched, and notes were only dropped. -/
structure Elsewhere (email : String) (w₀ w : World) : Prop where
  claims : ∀ email', email' ≠ email →
    w.store.provisioned.lookup email' = w₀.store.provisioned.lookup email'
  accounts : ∀ email', email' ≠ email →
    w.xray.accounts.lookup email' = w₀.xray.accounts.lookup email'
  notes : ∀ email' uuid, w.store.pendingRemovals.lookup email' = some uuid →
    w₀.store.pendingRemovals.lookup email' = some uuid

theorem Elsewhere.of_removed {email : String} (h : Adapter.Removed email w₀ w) :
    Elsewhere email w₀ w := by
  rcases h with rfl | rfl
  · exact ⟨fun _ _ => rfl, fun _ _ => rfl, fun _ _ h => h⟩
  · exact ⟨fun _ _ => rfl, fun email hne => by simp [Xray.lookup_remove, hne], fun _ _ h => h⟩

theorem Established.elsewhere {email : String} (h : Established user w₀)
    (helsewhere : Elsewhere email w₀ w) (hne : user.email ≠ email) : Established user w where
  claim := (helsewhere.claims _ hne).trans h.claim
  note := by
    cases hnote : w.store.pendingRemovals.lookup user.email with
    | none => rfl
    | some uuid => cases h.note.symm.trans (helsewhere.notes _ _ hnote)
  account := by
    obtain ⟨id, account, hid, hlookup, huuid⟩ := h.account
    exact ⟨id, account, hid, (helsewhere.accounts _ hne).trans hlookup, huuid⟩

/-- The claim and the account of an installation, before its note is dropped. -/
def Claimed (user : DesiredUser) (w₀ w : World) : Prop :=
  Elsewhere user.email w₀ w ∧
    w.store.provisioned.lookup user.email = some ⟨user.bindingId, true, user.uuid, ""⟩ ∧
    Adapter.Carries user w

/-- The three actions of an installation, before whatever comes next. -/
theorem installing_claims {expect : Expectation} {α : Type} {k : AgentM α}
    {Q : α → World → Prop} (hemail : user.email ≠ "")
    (hk : Triple (Claimed user w₀) k Q fun _ => True) :
    Triple (fun w => w = w₀) (do
      write (Store.recordProvisionIntent user.bindingId user.email user.uuid)
      Adapter.ensureUser deps user expect
      write (Store.recordProvisioned user.bindingId user.email user.uuid)
      k) Q fun _ => True := by
  refine Triple.bind (S := fun _ => Elsewhere user.email w₀) ?_ fun _ => ?_
  · refine Triple.atomic (fun w a w' hw hrun => ⟨?_, True.intro⟩) fun _ _ => True.intro
    cases hrun
    subst hw
    refine ⟨fun email hne => ?_, fun _ _ => rfl, fun email uuid hnote => ?_⟩
    · simp only [Store.recordProvisionIntent, if_neg hemail]
      exact AList.lookup_insert_ne hne
    · simpa [Store.recordProvisionIntent, hemail] using hnote
  refine Triple.bind (S := fun _ w => Elsewhere user.email w₀ w ∧ Adapter.Carries user w) ?_
    fun _ => ?_
  · refine Triple.atWorld fun w₁ hw₁ => ?_
    refine (Adapter.ensureUser_spec w₁).conseq (fun _ hw => hw) ?_ fun _ _ => True.intro
    rintro _ w ⟨hinstalled, hcarries⟩
    refine ⟨⟨?_, fun email hne => ?_, ?_⟩, hcarries⟩
    · rw [hinstalled.store]
      exact hw₁.claims
    · exact (hinstalled.others email hne).trans (hw₁.accounts email hne)
    · rw [hinstalled.store]
      exact hw₁.notes
  refine Triple.bind (Triple.atomic (fun w a w' hw hrun => ⟨?_, True.intro⟩) fun _ _ =>
    True.intro) fun _ => hk
  cases hrun
  obtain ⟨helsewhere, hcarries⟩ := hw
  simp only [Store.recordProvisioned, if_neg hemail]
  refine ⟨⟨fun email hne => ?_, helsewhere.accounts, helsewhere.notes⟩, AList.lookup_insert _,
    hcarries⟩
  exact (AList.lookup_insert_ne hne).trans (helsewhere.claims email hne)

/-- Dropping the note of a claimed account establishes it. -/
theorem Claimed.established (h : Claimed user w₀ w) {s : Store}
    (hclaims : s.provisioned = w.store.provisioned)
    (hnote : s.pendingRemovals.lookup user.email = none) :
    Established user { w with store := s } where
  claim := by
    change s.provisioned.lookup user.email = _
    rw [hclaims]
    exact h.2.1
  note := hnote
  account := h.2.2

theorem installUser_established {expect : Expectation} (hemail : user.email ≠ "") :
    Triple (fun _ => True) (Processor.installUser deps user expect)
      (fun _ => Established user) fun _ => True := by
  refine Triple.bind Triple.trivial fun _ => Triple.bind Triple.trivial fun _ => ?_
  refine Triple.atWorld fun w₀ _ => installing_claims hemail ?_
  refine Triple.ite (fun hnone => absurd hnone (by simp)) fun _ => ?_
  refine Triple.atomic (fun w a w' hw hrun => ⟨?_, True.intro⟩) fun _ _ => True.intro
  cases hrun
  refine hw.established rfl ?_
  simp [Store.clearPendingRemoval, Table.lookup_eraseAll]

/-- The writes of an installation to the rows are those of its upsert. -/
theorem installUser_rows {s : Store} {expect : Expectation} :
    Triple (fun w => w.store.records = s.records) (Processor.installUser deps user expect)
      (fun _ w => ∃ s', Store.upsertDesiredUserTx user s = .ok s' ∧ w.store.rows = s'.rows)
      fun _ => True := by
  refine Triple.bind (S := fun _ w => ∃ s', Store.upsertDesiredUserTx user s = .ok s' ∧
    w.store.rows = s'.rows) ?_ fun _ => Triple.ofExists fun s' => Triple.lift fun hok => ?_
  · refine Triple.atomic (fun w a w' hw hrun => ⟨?_, True.intro⟩) fun _ _ => True.intro
    obtain ⟨t, hok, heq⟩ := map_eq_ok.1 hrun
    cases heq
    rw [Store.withEvidence_of_records hw, Store.upsertDesiredUserTx_withEvidence] at hok
    obtain ⟨s', hupsert, rfl⟩ := map_eq_ok.1 hok
    exact ⟨s', hupsert, rfl⟩
  · have hrows : RecordInv fun w => w.store.rows = s'.rows :=
      fun w w' h _ hw => (Store.rows_of_records h).trans hw
    have hinstall : InstallStable (fun w => w.store.rows = s'.rows) user :=
      fun w w' h _ hw => (Store.rows_of_records h).trans hw
    refine Triple.conseq (P := fun w => w.store.rows = s'.rows)
      (Q := fun _ w => w.store.rows = s'.rows) (E := fun w => w.store.rows = s'.rows) ?_
      (fun _ hw => hw) (fun _ w hw => ⟨s', hok, hw⟩) fun _ _ => True.intro
    refine Keeps.bind (Keeps.atomic fun w a w' hw hrun => ?_) fun _ => ?_
    · cases hrun
      exact hw
    refine Keeps.bind hrows.keeps_recordProvisionIntent fun _ => ?_
    refine Keeps.bind (hrows.keeps_ensureUser hinstall) fun _ => ?_
    exact Keeps.bind hrows.keeps_recordProvisioned fun _ => hrows.keeps_clearPendingRemoval

/-- `ensureUser` establishes the user it installs, after its one write of the rows. -/
theorem ensureUser_established {command : Command} {s : Store} {stored : Option DesiredUser}
    (hplan : Processor.planEnsure command s = .ok (some (stored, user))) :
    Triple (fun w => w.store = s) (Processor.ensureUser deps command)
      (fun _ w => Established user w ∧
        ∃ s', Store.upsertDesiredUserTx user s = .ok s' ∧ w.store.rows = s'.rows)
      fun _ => True := by
  have hemail := (Processor.validateUser_eq_ok (Processor.planEnsure_eq_ok hplan).2.2.1).email
  refine Triple.bindPeek fun w₀ hw₀ => ?_
  rw [hw₀, hplan]
  change Triple _ (Processor.installOver deps stored user) _ _
  have hrecords : RecordInv fun w => w.store.records = s.records := fun w w' h _ hw => h.trans hw
  have hkept : ∀ {α : Type} {p : AgentM α}, Keeps (fun w => w.store.records = s.records) p →
      Triple (fun w => w.store.records = s.records) p (fun _ w => w.store.records = s.records)
        fun _ => True := fun h => h.conseq (fun _ hw => hw) (fun _ _ hw => hw) fun _ _ => True.intro
  refine Triple.pre (P := fun w => w.store.records = s.records) ?_ fun w hw => by rw [hw, hw₀]
  refine Triple.bind (hkept hrecords.keeps_preflightCollision) fun expect => ?_
  refine Triple.bind (hkept hrecords.keeps_releaseStored) fun _ => ?_
  exact ((installUser_established hemail).and installUser_rows).conseq
    (fun _ hw => ⟨True.intro, hw⟩) (fun _ _ hw => hw) fun _ _ => True.intro

/-! ## Installing a list -/

/-- Users that pass `distinctFrom` differ from each other and from those it has passed. -/
theorem Processor.distinctFrom_distinct {seen : List DesiredUser}
    (h : distinctFrom seen users = .ok ()) : Store.Distinct users ∧ ∀ user ∈ users,
      ∀ other ∈ seen, other.bindingId ≠ user.bindingId ∧ other.email ≠ user.email := by
  induction users generalizing seen with
  | nil => exact ⟨⟨List.nodup_nil, List.nodup_nil⟩, fun _ hu => by cases hu⟩
  | cons user users ih =>
    unfold distinctFrom at h
    obtain ⟨_, -, h⟩ := bind_eq_ok.1 h
    by_cases hbinding : seen.any (·.bindingId = user.bindingId) = true
    · simp [hbinding] at h
    by_cases hemail : seen.any (·.email = user.email) = true
    · simp [hbinding, hemail] at h
    have hrest : distinctFrom (user :: seen) users = .ok () := by simpa [hbinding, hemail] using h
    obtain ⟨hdistinct, hseen⟩ := ih hrest
    refine ⟨⟨?_, ?_⟩, fun other hother held hheld => ?_⟩
    · refine List.nodup_cons.2 ⟨fun hin => ?_, hdistinct.bindings⟩
      obtain ⟨other, hother, heq⟩ := List.mem_map.1 hin
      exact (hseen other hother user List.mem_cons_self).1 heq.symm
    · refine List.nodup_cons.2 ⟨fun hin => ?_, hdistinct.emails⟩
      obtain ⟨other, hother, heq⟩ := List.mem_map.1 hin
      exact (hseen other hother user List.mem_cons_self).2 heq.symm
    · rcases List.mem_cons.1 hother with rfl | hother
      · simp only [List.any_eq_true, decide_eq_true_eq, not_exists, not_and] at hbinding hemail
        exact ⟨hbinding held hheld, hemail held hheld⟩
      · exact hseen other hother held (List.mem_cons_of_mem _ hheld)

theorem Processor.distinctBindings_distinct (h : distinctBindings users = .ok ()) :
    Store.Distinct users := (distinctFrom_distinct h).1

/-- Every note is for an address of a list. -/
def Noted (pending : List String) (w : World) : Prop :=
  ∀ email uuid, w.store.pendingRemovals.lookup email = some uuid → email ∈ pending

theorem noted_clearPendingRemoval {pending : List String} (emails : List String) :
    Keeps (Noted pending) (Processor.clearPendingRemoval emails) := by
  refine Keeps.ite (fun _ => Keeps.pure) fun _ => Keeps.atomic fun w a w' hw hrun => ?_
  cases hrun
  intro email uuid hnote
  simp only [Store.clearPendingRemoval, Table.lookup_eraseAll] at hnote
  split at hnote
  · cases hnote
  · exact hw email uuid hnote

theorem noted_releaseRenamed {pending : List String} {live : List LiveUser}
    {ours released : List String} {recorded : List DesiredUser} :
    Keeps (Noted pending) (Processor.releaseRenamed live ours recorded released user) := by
  unfold Processor.releaseRenamed
  split
  · exact Keeps.pure
  refine Keeps.ite (fun _ => Keeps.pure) fun _ => ?_
  refine Keeps.bind ?_ fun _ => Keeps.bind ?_ fun _ =>
    Keeps.bind (noted_clearPendingRemoval _) fun _ => Keeps.pure
  · refine Triple.atWorld fun w₀ hw₀ => ?_
    have hremoved : ∀ email w, Adapter.Removed email w₀ w → Noted pending w := by
      rintro email w (rfl | rfl) <;> exact hw₀
    exact (Adapter.removeUser_spec w₀).conseq (fun _ hw => hw) (fun _ w hw => hremoved _ w hw.1)
      (hremoved _)
  · refine Keeps.ite (fun _ => Keeps.pure) fun _ => Keeps.atomic fun w a w' hw hrun => ?_
    cases hrun
    exact hw

/-- The middle of a reconciliation: every note is still pending, and the enabled users that the
loop has passed are established and no longer pending. -/
structure Standing (users rest : List DesiredUser) (pending : List String) (w : World) : Prop where
  noted : Noted pending w
  established : ∀ user ∈ users, user.enabled = true → user ∉ rest →
    Established user w ∧ user.email ∉ pending

namespace Standing

variable {rest : List DesiredUser} {pending : List String} {x : DesiredUser}

/-- A step of another user. -/
theorem elsewhere {email : String} (h : Standing users rest pending w₀)
    (helsewhere : Elsewhere email w₀ w)
    (hne : ∀ user ∈ users, user.enabled = true → user ∉ rest → user.email ≠ email) :
    Standing users rest pending w where
  noted := fun email uuid hnote => h.noted email uuid (helsewhere.notes email uuid hnote)
  established := fun user hmem henabled hrest =>
    ⟨(h.established user hmem henabled hrest).1.elsewhere helsewhere (hne user hmem henabled hrest),
      (h.established user hmem henabled hrest).2⟩

/-- Dropping the note of the user that the loop is at ends its turn. -/
theorem clearPending (w₀ : World) (hdistinct : Store.Distinct users) (hx : x ∈ users)
    (hnotin : x ∉ rest) :
    Triple (fun w => Standing users (x :: rest) pending w ∧ (x.enabled = true → Claimed x w₀ w))
      (Processor.clearPending pending x.email) (Standing users rest) fun _ => True := by
  have hown : ∀ user ∈ users, user ≠ x → user.email ≠ x.email := fun user hmem hne heq =>
    hne (List.inj_on_of_nodup_map hdistinct.emails hmem hx heq)
  refine Triple.ite (fun _ => ?_) fun habsent => Triple.pure fun w hw => ?_
  · refine Triple.bind (S := fun _ => Standing users rest (pending.filter (· ≠ x.email))) ?_
      fun _ => Triple.pure fun _ hw => hw
    refine Triple.ite (fun hnone => absurd hnone (by simp)) fun _ => ?_
    refine Triple.atomic (fun w a w' hw hrun => ⟨?_, True.intro⟩) fun _ _ => True.intro
    cases hrun
    have hcleared : ∀ email, (Store.clearPendingRemoval [x.email] w.store).pendingRemovals.lookup
        email = if email = x.email then none else
        w.store.pendingRemovals.lookup email := fun email =>
      by simp [Store.clearPendingRemoval, Table.lookup_eraseAll]
    refine ⟨fun email uuid hnote => ?_, fun user hmem henabled hrest => ?_⟩
    · change (Store.clearPendingRemoval [x.email] w.store).pendingRemovals.lookup email = _ at hnote
      rw [hcleared] at hnote
      split at hnote
      · cases hnote
      · next hne => exact List.mem_filter.2 ⟨hw.1.noted email uuid hnote, by simpa using hne⟩
    · by_cases heq : user = x
      · subst heq
        exact ⟨(hw.2 henabled).established rfl (by rw [hcleared, if_pos rfl]), by simp⟩
      · obtain ⟨hestablished, hpending⟩ :=
          hw.1.established user hmem henabled (by simp [heq, hrest])
        refine ⟨hestablished.elsewhere ⟨fun _ _ => rfl, fun _ _ => rfl, fun email uuid hnote => ?_⟩
          (hown user hmem heq), fun hin => hpending (List.mem_filter.1 hin).1⟩
        change (Store.clearPendingRemoval [x.email] w.store).pendingRemovals.lookup email = _
          at hnote
        rw [hcleared] at hnote
        split at hnote
        · cases hnote
        · exact hnote
  · refine ⟨hw.1.noted, fun user hmem henabled hrest => ?_⟩
    by_cases heq : user = x
    · subst heq
      have hnotin : user.email ∉ pending := fun hin => habsent (List.contains_iff_mem.2 hin)
      refine ⟨(hw.2 henabled).established rfl ?_, hnotin⟩
      cases hnote : w.store.pendingRemovals.lookup user.email with
      | none => rfl
      | some uuid => exact absurd (hw.1.noted _ _ hnote) hnotin
    · exact hw.1.established user hmem henabled (by simp [heq, hrest])

theorem settleUser {live liveNow : List LiveUser} {ours : List String}
    (hdistinct : Store.Distinct users) (hvalid : ∀ user ∈ users, Processor.Valid user)
    (hsuffix : (x :: rest) <:+ users) :
    Triple (Standing users (x :: rest) pending)
      (Processor.settleUser deps live liveNow ours pending x) (Standing users rest)
      fun _ => True := by
  have hx : x ∈ users := hsuffix.subset List.mem_cons_self
  have hnotin : x ∉ rest := by
    have hnodup := (hdistinct.bindings.of_map _).sublist hsuffix.sublist
    exact (List.nodup_cons.1 hnodup).1
  have hne : ∀ user ∈ users, user.enabled = true → user ∉ x :: rest → user.email ≠ x.email := by
    intro user hmem _ hrest heq
    rw [List.inj_on_of_nodup_map hdistinct.emails hmem hx heq] at hrest
    exact hrest List.mem_cons_self
  refine Triple.atWorld fun w₀ hw₀ => Triple.ite (fun _ => ?_) fun hdisabled => ?_
  · refine installing_claims (hvalid x hx).email ((clearPending w₀ hdistinct hx hnotin).pre ?_)
    exact fun w hw => ⟨hw₀.elsewhere hw.1 hne, fun _ => hw⟩
  · refine Triple.ite (fun _ => Triple.pure ?_) fun _ => ?_
    · rintro w rfl
      refine ⟨hw₀.noted, fun user hmem henabled hrest => hw₀.established user hmem henabled ?_⟩
      rintro (_ | ⟨_, hin⟩)
      · exact hdisabled henabled
      · exact hrest hin
    · refine Triple.bind ((Adapter.removeUser_spec w₀).conseq (fun _ hw => hw) (fun _ _ hw => hw.1)
        fun _ _ => True.intro) fun _ => (clearPending w₀ hdistinct hx hnotin).pre ?_
      intro w hw
      exact ⟨hw₀.elsewhere (.of_removed hw) hne, fun henabled => absurd henabled hdisabled⟩

/-- An address that is retired belongs to no user. -/
theorem retireAccount {ours retired : List String} {account : LiveUser} :
    Triple
      (fun w => Standing users [] pending w ∧
        ∀ email ∈ retired, ∀ user ∈ users, user.email ≠ email)
      (Processor.retireAccount deps users ours retired account)
      (fun retired' w => Standing users [] pending w ∧
        ∀ email ∈ retired', ∀ user ∈ users, user.email ≠ email)
      fun _ => True := by
  refine Triple.ite (fun _ => Triple.pure fun _ hw => hw) fun hunnamed => ?_
  have hne : ∀ user ∈ users, user.email ≠ account.email := by simpa using hunnamed
  refine Triple.ite (fun _ => ?_) fun _ => Triple.pure fun _ hw => hw
  refine Triple.bind (S := fun _ w => Standing users [] pending w ∧
    ∀ email ∈ retired, ∀ user ∈ users, user.email ≠ email) ?_ fun _ => Triple.pure fun w hw => ?_
  · refine Triple.atWorld fun w₀ hw₀ => ?_
    refine (Adapter.removeUser_spec w₀).conseq (fun _ hw => hw) (fun _ w hw => ⟨?_, hw₀.2⟩)
      fun _ _ => True.intro
    have helsewhere : Elsewhere account.email w₀ w := .of_removed hw.1
    exact hw₀.1.elsewhere helsewhere fun user hmem _ _ => hne user hmem
  · refine ⟨hw.1, fun email hmem => ?_⟩
    rcases List.mem_append.1 hmem with hmem | hmem
    · exact hw.2 email hmem
    · obtain rfl : email = account.email := by simpa using hmem
      exact hne

end Standing

/-- What a reconciliation retires at its end is not at the address of an established user. -/
theorem forgetting_established {retired : List String} (hnotin : user.email ∉ retired) :
    Triple (Established user) (do
      Processor.clearPendingRemoval retired
      Processor.forgetProvisioned retired) (fun _ => Established user) fun _ => True := by
  refine Triple.bind (S := fun _ => Established user) ?_ fun _ => ?_
  · refine Triple.ite (fun _ => Triple.pure fun _ hw => hw) fun _ => ?_
    refine Triple.atomic (fun w a w' hw hrun => ⟨?_, True.intro⟩) fun _ _ => True.intro
    cases hrun
    refine ⟨hw.claim, ?_, hw.account⟩
    simp [Store.clearPendingRemoval, Table.lookup_eraseAll, hw.note]
  · refine Triple.ite (fun _ => Triple.pure fun _ hw => hw) fun _ => ?_
    refine Triple.atomic (fun w a w' hw hrun => ⟨?_, True.intro⟩) fun _ _ => True.intro
    cases hrun
    refine ⟨?_, hw.note, hw.account⟩
    simp [Store.forgetProvisioned, Table.lookup_eraseAll, hnotin, hw.claim]

/-- A reconciliation establishes every enabled user of its list. -/
theorem reconcile_established (hmem : user ∈ users) (henabled : user.enabled = true) :
    Triple (fun _ => True) (Processor.reconcile deps users)
      (fun _ w => Store.Distinct users ∧ Established user w) fun _ => True := by
  refine Triple.afterPeek fun ready => Triple.ite (fun _ => ?_) fun _ => ?_
  · refine (Triple.ensure fun _ _ => True.intro).post fun _ w hw => ?_
    rw [List.isEmpty_iff.1 hw.1] at hmem
    cases hmem
  refine Triple.bindLift (fun _ _ => True.intro) fun _ hchecked => ?_
  have hdistinct := Processor.distinctBindings_distinct hchecked
  have hvalid := Processor.distinctBindings_valid hchecked
  refine Triple.post (Q := fun _ => Established user) ?_ fun _ _ hw => ⟨hdistinct, hw⟩
  refine Triple.bind Triple.trivial fun live => Triple.afterPeek fun recorded => ?_
  refine Triple.bind Triple.trivial fun _ => Triple.afterPeek fun ours => ?_
  refine Triple.bind (S := fun pending => Noted pending) (Triple.peek fun w _ email uuid hnote =>
    List.mem_map.2 ⟨(email, uuid), Table.mem_pairs.2 hnote, rfl⟩) fun pending => ?_
  have hkept : ∀ {α : Type} {p : AgentM α}, Keeps (Noted pending) p →
      Triple (Noted pending) p (fun _ => Noted pending) fun _ => True :=
    fun h => h.conseq (fun _ hw => hw) (fun _ _ hw => hw) fun _ _ => True.intro
  refine Triple.bind (hkept (Keeps.forM fun other _ => ?_)) fun _ => ?_
  · exact Keeps.ite (fun _ => Keeps.pure) fun _ => Keeps.ensure
  refine Triple.bind (hkept (Keeps.foldlM fun _ other _ => noted_releaseRenamed)) fun released => ?_
  refine Triple.bind (S := fun _ => Standing users users pending) ?_ fun _ => ?_
  · refine Triple.atomic (fun w a w' hw hrun => ⟨?_, True.intro⟩) fun _ _ => True.intro
    obtain ⟨s', hok, heq⟩ := map_eq_ok.1 hrun
    cases heq
    have hsame : s'.pendingRemovals = w.store.pendingRemovals :=
      congrArg Prod.snd (Store.evidence_of_apart (Store.applyDesiredUsers_apart hok))
    refine ⟨fun email uuid hnote => hw email uuid ?_, fun _ hin _ hout => absurd hin hout⟩
    rw [← hsame]
    exact hnote
  refine Triple.bind (Triple.foldlM (J := fun rest pending => Standing users rest pending)
    fun x rest acc hsuffix => Standing.settleUser hdistinct hvalid hsuffix) fun stillPending => ?_
  refine Triple.bind (S := fun removed w => Standing users [] stillPending w ∧
      ∀ email ∈ removed, ∀ user ∈ users, user.email ≠ email) ?_ fun removed => ?_
  · refine Triple.pre (Triple.foldlM (J := fun _ removed w => Standing users [] stillPending w ∧
      ∀ email ∈ removed, ∀ user ∈ users, user.email ≠ email) fun _ _ _ _ =>
        Standing.retireAccount) fun w hw => ⟨hw, fun _ hin => by cases hin⟩
  refine Triple.atWorld fun w₁ hw₁ => ?_
  obtain ⟨hestablished, hsettled⟩ := hw₁.1.established user hmem henabled List.not_mem_nil
  refine (forgetting_established fun hin => ?_).pre fun w hw => hw ▸ hestablished
  rcases List.mem_append.1 hin with hin | hin
  · rcases List.mem_append.1 hin with hin | hin
    · exact hw₁.2 _ hin user hmem rfl
    · exact hsettled (List.mem_filter.1 hin).1
  · have hunnamed := (List.mem_filter.1 hin).2
    simp only [Bool.and_eq_true, Bool.not_eq_true', List.any_eq_false,
      decide_eq_true_eq] at hunnamed
    exact hunnamed.1 user hmem rfl

/-! ## The condition -/

/-- The text has no capital letter. -/
def spelledLower (uuid : String) : Bool := uuid.toList.all fun c => c.toLower = c

/-- Xray reports an identity as it is spelled if it is spelled in lower case. -/
theorem spelledLower_iff {uuid id : String} (hid : canonicalUUID uuid = some id) :
    spelledLower uuid = true ↔ canonicalUUID uuid = some uuid := by
  have hlower : id = String.ofList (uuid.toList.map Char.toLower) := by
    unfold canonicalUUID at hid
    split at hid
    · exact (Option.some.inj hid).symm
    · cases hid
  have hsame : uuid.toList.map Char.toLower = uuid.toList ↔ spelledLower uuid = true := by
    conv_lhs => rw [← List.map_id uuid.toList, List.map_map, List.map_inj_left]
    simp [spelledLower]
  rw [hid, Option.some.injEq, hlower, ← hsame]
  constructor
  · intro heq
    rw [heq, String.ofList_toList]
  · intro heq
    conv_rhs => rw [← heq]
    rw [String.toList_ofList]

theorem Established.ours_iff {s : Store} (h : Established user w) (hone : w.store.OneHolder)
    (hsits : w.store.Sits user ↔ s.takes user = true) :
    Ours user w ↔ spelledLower user.uuid = true ∧ s.takes user = true := by
  obtain ⟨id, -, hid, -⟩ := h.account
  rw [h.ours hone, hsits, spelledLower_iff hid]

/-- After `ensureUser` or a reconciliation has installed a user, the agent takes the live account
for its own and attributes its counters to the binding exactly if the identity was delivered in
lower case and the store takes the record. -/
theorem spelling_decides (deps : Deps) {s₀ : Store} (hrows : s₀.rows = ∅)
    (attempts : List (Store.Change × Bool)) :
    let s := attempts.foldl Store.Change.step s₀
    (∀ command stored user, Processor.planEnsure command s = .ok (some (stored, user)) →
      Triple (fun w => w.store = s) (Processor.ensureUser deps command)
        (fun _ w => Ours user w ↔ spelledLower user.uuid = true ∧ s.takes user = true)
        fun _ => True) ∧
    ∀ users, ∀ user ∈ users, user.enabled = true →
      Triple (fun w => w.store = s) (Processor.reconcile deps users)
        (fun _ w => Ours user w ↔ spelledLower user.uuid = true ∧ s.takes user = true)
        fun _ => True := by
  intro s
  have hone : s.OneHolder := Store.Change.oneHolder_run attempts hrows
  refine ⟨fun command stored user hplan => ?_, fun users user hmem henabled => ?_⟩
  · refine (ensureUser_established hplan).post fun _ w hw => ?_
    obtain ⟨hestablished, s', hok, hrows'⟩ := hw
    have hsits : w.store.Sits user ↔ s'.Sits user := by rw [Store.Sits, Store.Sits, hrows']
    exact hestablished.ours_iff ((hone.upsert hok).fewer (Store.Fewer.of_rows hrows'))
      (hsits.trans (Store.upsertDesiredUserTx_sits hok))
  · refine ((reconcile_established hmem henabled).and (reconcile_rows deps users s)).conseq
      (fun w hw => ⟨True.intro, by rw [hw]⟩) ?_ fun _ _ => True.intro
    rintro _ w ⟨⟨hdistinct, hestablished⟩, ⟨rfl, -⟩ | ⟨s', hok, hrecords⟩⟩
    · cases hmem
    have hrows' := Store.rows_of_records hrecords
    have hsits : w.store.Sits user ↔ s'.Sits user := by rw [Store.Sits, Store.Sits, hrows']
    exact hestablished.ours_iff ((hone.applyDesiredUsers hok).fewer (Store.Fewer.of_rows hrows'))
      (hsits.trans (Store.applyDesiredUsers_sits hdistinct hok hmem))

theorem spelling_decides_lower :
    let w := finalWorld (Processor.reconcile {} [HandBack.user "0" "x" 1]) {} []
    Ours (HandBack.user "0" "x" 1) w := by
  intro w
  have hok : result? (Processor.reconcile {} [HandBack.user "0" "x" 1]) {} [] = some () := by
    decide +kernel
  have hours := ((spelling_decides {} (rfl : ({} : Store).rows = ∅) []).2
    [HandBack.user "0" "x" 1] _ List.mem_cons_self rfl).of_result (w := {}) rfl hok
  exact hours.2 (by decide +kernel)

open Spelling in
/-- The command is completed, and Xray runs the account.  The agent does not own it, and a sample
leaves its counters out. -/
theorem upper_case_is_foreign :
    let w := World.run {} {} [adopt, ensure upper []]
    (w.store.completedCommand "ensure").isSome = true ∧
      w.xray.accounts.lookup "b@x" = some ⟨lower, "", .agent⟩ ∧
      "b@x" ∉ Processor.ownershipMap w.xray.liveUsers w.store ∧
      Runner.attributable w.xray.liveUsers w.store.listDesiredUsers ⟨"b@x", 5, 5⟩ = false := by
  decide +kernel

end ChordV.Agent
