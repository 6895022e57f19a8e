import ChordV.Agent.NoOrphan

/-!
# The accounts of the panel

An inbound belongs to a panel, and the agent shares it.  With both switches off the agent
never removes or replaces an account it did not install.

* `Untouched P w` fixes the accounts of the panel as the function `P`, and says that no
  evidence at the address of such an account names it.  The fact that an address has no
  account of the panel is then a fact about `P`, which no later action can change.
* Every removal and every install of the agent happens at an address that it owns or that
  is empty, and both give `P email = none`.
* `upheld_untouched` collects the operations, and `panel_accounts_survive` is the statement
  about runs.  The panel may add, remove and replace accounts between two operations, with
  identities that the records of the agent do not name.
-/

namespace ChordV.Agent

open Lib Fallible

variable {w : World} {deps : Deps}

/-! ## Untouched accounts -/

/-- The account of the panel at an address. -/
def Xray.panelAt (x : Xray) (email : String) : Option Account :=
  (x.accounts.lookup email).filter (·.origin = .panel)

/-- The row has an identity, and none of its identities belongs to the panel's account at
the address. -/
def Apart (P : String → Option Account) (email : String) (row : Provisioned) : Prop :=
  row.uuid ≠ "" ∧ ∀ account, P email = some account →
    row.uuid ≠ account.uuid ∧ row.nextUuid ≠ account.uuid

/-- The accounts of the panel are `P`, and nothing the agent recorded names one of them. -/
structure Untouched (P : String → Option Account) (w : World) : Prop where
  panel : ∀ email, w.xray.panelAt email = P email
  uuids : ∀ email account, P email = some account → account.uuid ≠ ""
  rows : ∀ email row, w.store.provisioned.lookup email = some row → Apart P email row
  notes : ∀ email uuid, w.store.pendingRemovals.lookup email = some uuid →
    uuid ≠ "" ∧ ∀ account, P email = some account → uuid ≠ account.uuid

variable {P : String → Option Account}

theorem Apart.of_vacant {email : String} {row : Provisioned} (hvacant : P email = none)
    (huuid : row.uuid ≠ "") : Apart P email row :=
  ⟨huuid, fun account h => by simp [hvacant] at h⟩

/-- Settling does not touch Xray. -/
theorem keeps_resolveIntents_xray {live : List LiveUser} (x : Xray) :
    Keeps (fun w => w.xray = x) (Processor.resolveIntents live) := by
  have hwrite : ∀ f, Keeps (fun w => w.xray = x) (write f) := by
    intro f
    refine Keeps.atomic fun w a w' hw hrun => ?_
    cases hrun
    exact hw
  refine Keeps.bind ?_ fun _ => Keeps.bind Keeps.peek fun intents => ?_
  · refine Keeps.bind Keeps.peek fun claims => Keeps.forM fun p _ => ?_
    unfold Processor.settleClaim
    split
    · exact Keeps.pure
    refine Keeps.ite (fun _ => Keeps.pure) fun _ => Keeps.ite (fun _ => hwrite _) fun _ => ?_
    exact Keeps.ite (fun _ => hwrite _) fun _ => Keeps.pure
  · refine Keeps.bind (Keeps.forM fun p _ => ?_) fun _ => keeps_forget_xray (fun y => y = x) _
    unfold Processor.resolveIntent
    split
    · exact Keeps.pure
    · exact Keeps.ite (fun _ => Keeps.pure) fun _ => hwrite _

/-- A note is an old one, or one of those to be recorded. -/
theorem Store.lookup_recordPendingRemoval {claims : List (String × String)} {s : Store}
    {email uuid : String}
    (h : (s.recordPendingRemoval claims).pendingRemovals.lookup email = some uuid) :
    s.pendingRemovals.lookup email = some uuid ∨ (email, uuid) ∈ claims := by
  refine List.foldlRecOn (motive := fun notes : Table String String =>
    notes.lookup email = some uuid → s.pendingRemovals.lookup email = some uuid ∨
      (email, uuid) ∈ claims) _ _ .inl ?_ h
  intro notes ih claim hclaim hlookup
  split at hlookup
  · exact ih hlookup
  · rw [Table.lookup_insert_ite] at hlookup
    split at hlookup
    · next heq =>
      cases hlookup
      exact .inr (heq ▸ hclaim)
    · exact ih hlookup

theorem Processor.mem_droppedClaims {users : List DesiredUser} {s : Store} {email uuid : String}
    (h : (email, uuid) ∈ Processor.droppedClaims users s) :
    ∃ row, s.provisioned.lookup email = some row ∧ row.uuid = uuid := by
  obtain ⟨user, -, hclaim⟩ := List.mem_filterMap.1 h
  split at hclaim
  · cases hclaim
  · obtain ⟨row, hrow, heq⟩ := Option.map_eq_some_iff.1 hclaim
    cases heq
    exact ⟨row, (Option.filter_eq_some_iff.1 hrow).1, rfl⟩

namespace Untouched

theorem frame : EvidenceInv (Untouched P) := by
  intro w w' hevidence haccounts h
  have hprovisioned : w'.store.provisioned = w.store.provisioned := congrArg Prod.fst hevidence
  have hpending : w'.store.pendingRemovals = w.store.pendingRemovals :=
    congrArg Prod.snd hevidence
  exact { panel := by simpa [Xray.panelAt, haccounts] using h.panel
          uuids := h.uuids
          rows := hprovisioned ▸ h.rows
          notes := hpending ▸ h.notes }

/-! ### Addresses without an account of the panel -/

theorem lookup_of_panel (h : Untouched P w) {email : String} {account : Account}
    (hpanel : P email = some account) : w.xray.accounts.lookup email = some account := by
  have heq := h.panel email
  rw [hpanel, Xray.panelAt, Option.filter_eq_some_iff] at heq
  exact heq.1

/-- An address that a reading does not show. -/
theorem vacant_of_absent (h : Untouched P w) {email : String}
    (habsent : Processor.liveAt w.xray.liveUsers email = none) : P email = none := by
  cases hpanel : P email with
  | none => rfl
  | some account => simp [Processor.liveAt_liveUsers, h.lookup_of_panel hpanel] at habsent

/-- An address whose claim stands: the identities of the claim are not those of the panel. -/
theorem vacant_of_stands (h : Untouched P w) {email : String} {claimed : List String}
    (hstands : Processor.claimStands
      ((Processor.liveAt w.xray.liveUsers email).map (·.uuid)) claimed = true)
    (hnonempty : claimed.all (· = "") = false)
    (hclaimed : ∀ account, P email = some account → account.uuid ∉ claimed) :
    P email = none := by
  cases hpanel : P email with
  | none => rfl
  | some account =>
    simp only [Processor.liveAt_liveUsers, h.lookup_of_panel hpanel, Option.map_some,
      Account.toLive_uuid, Processor.claimStands, hnonempty, Bool.or_false, Bool.or_eq_true,
      decide_eq_true_eq, List.any_eq_true, Bool.and_eq_true] at hstands
    rcases hstands with hempty | ⟨candidate, hmem, -, rfl⟩
    · exact absurd hempty (h.uuids email account hpanel)
    · exact absurd hmem (hclaimed account hpanel)

theorem vacant_of_row (h : Untouched P w) {email : String} {row : Provisioned}
    (hrow : w.store.provisioned.lookup email = some row)
    (hstands : Processor.claimStands
      ((Processor.liveAt w.xray.liveUsers email).map (·.uuid)) [row.uuid, row.nextUuid] = true) :
    P email = none := by
  obtain ⟨huuid, hapart⟩ := h.rows email row hrow
  refine h.vacant_of_stands hstands (by simp [huuid]) fun account hpanel hmem => ?_
  obtain ⟨hcurrent, hnext⟩ := hapart account hpanel
  simp [hcurrent.symm, hnext.symm] at hmem

theorem vacant_of_note (h : Untouched P w) {email uuid : String}
    (hnote : w.store.pendingRemovals.lookup email = some uuid)
    (hstands : Processor.claimStands
      ((Processor.liveAt w.xray.liveUsers email).map (·.uuid)) [uuid] = true) :
    P email = none := by
  obtain ⟨huuid, hapart⟩ := h.notes email uuid hnote
  refine h.vacant_of_stands hstands (by simp [huuid]) fun account hpanel hmem => ?_
  exact hapart account hpanel (List.mem_singleton.1 hmem).symm

/-- An address in the ownership map. -/
theorem vacant_of_ours (h : Untouched P w) {email : String}
    (hours : (Processor.ownershipMap w.xray.liveUsers w.store).contains email = true) :
    P email = none := by
  rcases List.mem_append.1 (List.contains_iff_mem.1 hours) with hmem | hmem
  · obtain ⟨⟨email, row⟩, hfilter, rfl⟩ := List.mem_map.1 hmem
    obtain ⟨hclaim, hstands⟩ := List.mem_filter.1 hfilter
    exact h.vacant_of_row (Table.mem_pairs.1 (List.mem_filter.1 hclaim).1) hstands
  · obtain ⟨⟨email, uuid⟩, hfilter, rfl⟩ := List.mem_map.1 hmem
    obtain ⟨hnote, hstands⟩ := List.mem_filter.1 hfilter
    exact h.vacant_of_note (Table.mem_pairs.1 hnote) hstands

/-- `owns` only accepts an address without an account of the panel. -/
theorem owns_vacant {email : String} :
    Triple (Untouched P) (Processor.owns email)
      (fun owned w => Untouched P w ∧ (owned = true → P email = none)) (Untouched P) := by
  refine Triple.bindPeek fun w₀ hw₀ => ?_
  split
  · refine Triple.pure ?_
    rintro w rfl
    exact ⟨hw₀, fun h => by cases h⟩
  · next candidates hsome =>
    refine Triple.bind (Adapter.listUsers_spec.conseq (fun _ hw => hw) (fun _ _ hw => hw)
      fun w hw => hw ▸ hw₀) fun live => Triple.pure ?_
    rintro w ⟨rfl, rfl⟩
    refine ⟨hw₀, fun hstands => ?_⟩
    unfold Processor.claimedIdentities at hsome
    split at hsome
    · next claim hclaim =>
      cases hsome
      exact hw₀.vacant_of_row (Option.filter_eq_some_iff.1 hclaim).1 hstands
    · obtain ⟨uuid, hnote, rfl⟩ := Option.map_eq_some_iff.1 hsome
      exact hw₀.vacant_of_note hnote hstands

/-! ### Actions -/

/-- A change of the evidence that records nothing about the panel. -/
theorem of_store {s : Store} (h : Untouched P w)
    (hrows : ∀ email row, s.provisioned.lookup email = some row → Apart P email row)
    (hnotes : ∀ email uuid, s.pendingRemovals.lookup email = some uuid →
      w.store.pendingRemovals.lookup email = some uuid) :
    Untouched P { w with store := s } where
  panel := h.panel
  uuids := h.uuids
  rows := hrows
  notes := fun email uuid hlookup => h.notes email uuid (hnotes email uuid hlookup)

/-- A change of the accounts at an address without an account of the panel. -/
theorem of_xray {w' : World} (h : Untouched P w) (hstore : w'.store = w.store) {email : String}
    (hvacant : P email = none)
    (hothers : ∀ email', email' ≠ email →
      w'.xray.accounts.lookup email' = w.xray.accounts.lookup email')
    (hhere : ∀ account, w'.xray.accounts.lookup email = some account → account.origin = .agent) :
    Untouched P w' where
  panel := by
    intro email'
    by_cases heq : email' = email
    · subst heq
      rw [hvacant, Xray.panelAt, Option.filter_eq_none_iff]
      intro account hlookup
      simp [hhere account hlookup]
    · rw [Xray.panelAt, hothers email' heq]
      exact h.panel email'
  uuids := h.uuids
  rows := hstore ▸ h.rows
  notes := hstore ▸ h.notes

theorem agent_of_vacant (h : Untouched P w) {email : String} (hvacant : P email = none)
    {account : Account} (hlookup : w.xray.accounts.lookup email = some account) :
    account.origin = .agent := by
  have hpanel := h.panel email
  rw [hvacant, Xray.panelAt, hlookup, Option.filter_eq_none_iff] at hpanel
  cases horigin : account.origin with
  | agent => rfl
  | panel => exact absurd (decide_eq_true horigin) (hpanel account rfl)

theorem keeps_removeUser {email : String} {expect : Expectation} (hvacant : P email = none) :
    Keeps (Untouched P) (Adapter.removeUser email expect) := by
  have hremoved : ∀ w₀ w, Untouched P w₀ → Adapter.Removed email w₀ w → Untouched P w := by
    rintro w₀ w hw₀ (rfl | rfl)
    · exact hw₀
    · refine hw₀.of_xray rfl hvacant (fun email' hne => ?_) fun account hlookup => ?_
      · simp [Xray.lookup_remove, hne]
      · simp [Xray.lookup_remove] at hlookup
  refine Triple.atWorld fun w₀ hw₀ => ?_
  exact (Adapter.removeUser_spec w₀).conseq (fun _ hw => hw)
    (fun _ w hw => hremoved w₀ w hw₀ hw.1) fun w hw => hremoved w₀ w hw₀ hw

theorem keeps_ensureUser {user : DesiredUser} {expect : Expectation}
    (hvacant : P user.email = none) :
    Keeps (Untouched P) (Adapter.ensureUser deps user expect) := by
  have hinstalled : ∀ w₀ w, Untouched P w₀ → Adapter.Installed user w₀ w → Untouched P w := by
    intro w₀ w hw₀ hw
    refine hw₀.of_xray hw.store hvacant hw.others fun account hlookup => ?_
    rcases hw.here with hsame | hnone | ⟨id, -, hnew⟩
    · exact hw₀.agent_of_vacant hvacant (hsame ▸ hlookup)
    · simp [hnone] at hlookup
    · rw [hnew, Option.some.injEq] at hlookup
      rw [← hlookup]
  refine Triple.atWorld fun w₀ hw₀ => ?_
  exact (Adapter.ensureUser_spec w₀).conseq (fun _ hw => hw)
    (fun _ w hw => hinstalled w₀ w hw₀ hw.1) fun w hw => hinstalled w₀ w hw₀ hw

/-- A write of one provisioned row. -/
theorem keeps_writeRow {f : Store → Store} {e : String}
    (hrows : ∀ s email row, (f s).provisioned.lookup email = some row →
      (email = e ∧ Apart P e row) ∨ s.provisioned.lookup email = some row)
    (hnotes : ∀ s, (f s).pendingRemovals = s.pendingRemovals) :
    Keeps (Untouched P) (write f) := by
  refine Keeps.atomic fun w a w' hw hrun => ?_
  cases hrun
  refine hw.of_store (fun email row hlookup => ?_) fun email uuid hlookup =>
    hnotes w.store ▸ hlookup
  rcases hrows w.store email row hlookup with ⟨rfl, hapart⟩ | hstored
  · exact hapart
  · exact hw.rows email row hstored

theorem keeps_recordProvisioned {bindingId email uuid : String}
    (hapart : Apart P email ⟨bindingId, true, uuid, ""⟩) :
    Keeps (Untouched P) (write (Store.recordProvisioned bindingId email uuid)) := by
  refine keeps_writeRow (e := email) (fun s email' row hlookup => ?_) fun s => ?_
  · unfold Store.recordProvisioned at hlookup
    split at hlookup
    · exact .inr hlookup
    · rw [Table.lookup_insert_ite] at hlookup
      split at hlookup
      · next heq =>
        cases hlookup
        exact .inl ⟨heq, hapart⟩
      · exact .inr hlookup
  · unfold Store.recordProvisioned
    split <;> rfl

theorem keeps_recordProvisionIntent {bindingId email uuid : String} (hvacant : P email = none)
    (huuid : uuid ≠ "") :
    Keeps (Untouched P) (write (Store.recordProvisionIntent bindingId email uuid)) := by
  refine Keeps.atomic fun w a w' hw hrun => ?_
  cases hrun
  refine hw.of_store (fun email' row hlookup => ?_) fun email' uuid' hlookup => ?_
  · unfold Store.recordProvisionIntent at hlookup
    split at hlookup
    · exact hw.rows email' row hlookup
    rw [Table.lookup_insert_ite] at hlookup
    split at hlookup
    · next heq =>
      subst heq
      refine .of_vacant hvacant ?_
      cases hlookup
      split
      · exact huuid
      · next old hold =>
        unfold Store.intentOver
        split
        · exact (hw.rows _ old hold).1
        · exact huuid
    · exact hw.rows email' row hlookup
  · unfold Store.recordProvisionIntent at hlookup
    split at hlookup <;> exact hlookup

theorem keeps_forgetProvisioned {emails : List String} :
    Keeps (Untouched P) (Processor.forgetProvisioned emails) := by
  refine Keeps.ite (fun _ => Keeps.pure) fun _ => ?_
  refine Keeps.atomic fun w a w' hw hrun => ?_
  cases hrun
  refine hw.of_store (fun email row hlookup => hw.rows email row ?_) fun _ _ h => h
  rw [Store.forgetProvisioned, Table.lookup_eraseAll] at hlookup
  split at hlookup
  · cases hlookup
  · exact hlookup

theorem keeps_clearPendingRemoval {emails : List String} :
    Keeps (Untouched P) (Processor.clearPendingRemoval emails) := by
  refine Keeps.ite (fun _ => Keeps.pure) fun _ => ?_
  refine Keeps.atomic fun w a w' hw hrun => ?_
  cases hrun
  refine hw.of_store hw.rows fun email uuid hlookup => ?_
  rw [Store.clearPendingRemoval, Table.lookup_eraseAll] at hlookup
  split at hlookup
  · cases hlookup
  · exact hlookup

theorem keeps_settleRotation {email uuid : String} (huuid : uuid ≠ "")
    (hapart : ∀ account, P email = some account → uuid ≠ account.uuid)
    (hnonempty : ∀ account, P email = some account → account.uuid ≠ "") :
    Keeps (Untouched P) (write (Store.settleRotation email uuid)) := by
  refine keeps_writeRow (e := email) (fun s email' row hlookup => ?_) fun _ => rfl
  rw [Store.settleRotation, Table.lookup_modify] at hlookup
  split at hlookup
  · next heq =>
    obtain ⟨old, -, rfl⟩ := Option.map_eq_some_iff.1 hlookup
    exact .inl ⟨heq, huuid, fun account h => ⟨hapart account h, (hnonempty account h).symm⟩⟩
  · exact .inr hlookup

/-- Settling only moves identities that the rows already have. -/
theorem keeps_resolveIntents {live : List LiveUser} :
    Keeps (Untouched P) (Processor.resolveIntents live) := by
  refine Keeps.bind ?_ fun _ => ?_
  · refine Triple.bindPeek fun w₀ hw₀ => ?_
    refine Triple.pre (P := Untouched P) (Keeps.forM fun p hp => ?_) fun w hw => hw ▸ hw₀
    obtain ⟨hcurrent, hapart⟩ := hw₀.rows p.1 p.2
      (Table.mem_pairs.1 (List.mem_filter.1 hp).1)
    unfold Processor.settleClaim
    split
    · exact Keeps.pure
    refine Keeps.ite (fun _ => Keeps.pure) fun hknown => ?_
    refine Keeps.ite (fun _ => ?_) fun _ => Keeps.ite (fun _ => ?_) fun _ => Keeps.pure
    · exact keeps_settleRotation (fun h => hknown (.inl h)) (fun account h => (hapart account h).2)
        (hw₀.uuids p.1)
    · exact keeps_settleRotation hcurrent (fun account h => (hapart account h).1) (hw₀.uuids p.1)
  · refine Triple.bindPeek fun w₀ hw₀ => ?_
    refine Triple.pre (P := Untouched P) ?_ fun w hw => hw ▸ hw₀
    refine Keeps.bind (Keeps.forM fun p hp => ?_) fun _ => keeps_forgetProvisioned
    obtain ⟨hcurrent, hapart⟩ := hw₀.rows p.1 p.2
      (Table.mem_pairs.1 (List.mem_filter.1 hp).1)
    unfold Processor.resolveIntent
    split
    · exact Keeps.pure
    refine Keeps.ite (fun _ => Keeps.pure) fun _ => keeps_recordProvisioned ⟨hcurrent, ?_⟩
    exact fun account h => ⟨(hapart account h).1, (hw₀.uuids p.1 account h).symm⟩

/-- A reading that is settled still shows what lives. -/
theorem reading_settled {α : Type} {k : List LiveUser → AgentM α} {Q : α → World → Prop}
    (hk : ∀ x : Xray, Triple (fun w => Untouched P w ∧ w.xray = x) (k x.liveUsers) Q
      (Untouched P)) :
    Triple (Untouched P) (do
      let live ← Adapter.listUsers
      Processor.resolveIntents live
      k live) Q (Untouched P) := by
  refine Triple.atWorld fun w₀ hw₀ => ?_
  refine Triple.bind (Adapter.listUsers_spec.conseq (fun _ hw => hw) (fun _ _ hw => hw)
    fun w hw => hw ▸ hw₀) fun live => ?_
  refine Triple.pre (P := fun w => live = w₀.xray.liveUsers ∧ w = w₀) (Triple.lift ?_)
    fun w hw => ⟨hw.1 ▸ hw.2, hw.1⟩
  rintro rfl
  refine Triple.bind (S := fun _ w => Untouched P w ∧ w.xray = w₀.xray) ?_ fun _ => hk w₀.xray
  refine Triple.pre (keeps_resolveIntents.and (keeps_resolveIntents_xray w₀.xray)) ?_ |>.conseq
    (fun _ hw => hw) (fun _ _ hw => hw) fun _ hw => hw.1
  rintro w rfl
  exact ⟨hw₀, rfl⟩

end Untouched

/-! ## The operations -/

namespace Untouched

/-- An installation at an address without an account of the panel, before whatever comes
next. -/
theorem keeps_installing {user : DesiredUser} {expect : Expectation} (hvalid : Processor.Valid user)
    (hvacant : P user.email = none) {α : Type} {k : AgentM α} {Q : α → World → Prop}
    (hk : Triple (Untouched P) k Q (Untouched P)) :
    Triple (Untouched P) (do
      write (Store.recordProvisionIntent user.bindingId user.email user.uuid)
      Adapter.ensureUser deps user expect
      write (Store.recordProvisioned user.bindingId user.email user.uuid)
      k) Q (Untouched P) := by
  refine Triple.bind (keeps_recordProvisionIntent hvacant hvalid.uuid) fun _ => ?_
  refine Triple.bind (keeps_ensureUser hvacant) fun _ => ?_
  exact Triple.bind (keeps_recordProvisioned (.of_vacant hvacant hvalid.uuid)) fun _ => hk

theorem releaseStored_untouched {stored : Option DesiredUser} {user : DesiredUser} :
    Keeps (Untouched P) (Processor.releaseStored stored user) := by
  unfold Processor.releaseStored
  split
  · exact Keeps.pure
  refine Keeps.ite (fun _ => Keeps.pure) fun _ => ?_
  refine Triple.bind owns_vacant fun owned => ?_
  refine Triple.ite (fun howned => ?_) fun _ => Triple.pure fun _ hw => hw.1
  refine Triple.pre (P := fun w => P _ = none ∧ Untouched P w) (Triple.lift fun hvacant => ?_)
    fun w hw => ⟨hw.2 howned, hw.1⟩
  refine Keeps.bind RecordInv.keeps_claimedExpectation fun expect => ?_
  refine Keeps.bind (keeps_removeUser hvacant) fun _ => ?_
  exact Keeps.bind keeps_forgetProvisioned fun _ => keeps_clearPendingRemoval

variable (hadopt : deps.adoptExistingAccounts = false)
include hadopt

theorem uninstallOwned_untouched {email : String} :
    Keeps (Untouched P) (Processor.uninstallOwned deps email) := by
  refine reading_settled fun x => Triple.atWorld fun w₀ hw₀ => ?_
  obtain ⟨huntouched, rfl⟩ := hw₀
  refine Triple.pre (P := Untouched P) ?_ fun w hw => hw ▸ huntouched
  refine Triple.bind owns_vacant fun owned => ?_
  refine Triple.ite (fun _ => Triple.pure fun _ hw => hw.1) fun hallowed => ?_
  refine Triple.pre (P := fun w => P email = none ∧ Untouched P w) (Triple.lift fun hvacant => ?_)
    fun w hw => ⟨?_, hw.1⟩
  · exact keeps_removeUser hvacant
  cases howned : owned with
  | true => exact hw.2 howned
  | false =>
    simp only [howned, hadopt, Bool.not_false, Bool.and_self, Bool.true_and,
      Option.isSome_iff_ne_none, ne_eq, not_not] at hallowed
    exact huntouched.vacant_of_absent hallowed

theorem preflightCollision_vacant {user : DesiredUser} :
    Triple (Untouched P) (Processor.preflightCollision deps user)
      (fun _ w => P user.email = none ∧ Untouched P w) (Untouched P) := by
  refine reading_settled fun x => Triple.atWorld fun w₀ hw₀ => ?_
  obtain ⟨huntouched, rfl⟩ := hw₀
  refine Triple.pre (P := Untouched P) ?_ fun w hw => hw ▸ huntouched
  refine Triple.bind owns_vacant fun owned => ?_
  split
  · next habsent => exact Triple.pure fun w hw => ⟨huntouched.vacant_of_absent habsent, hw.1⟩
  · cases owned with
    | true => exact Triple.pure fun w hw => ⟨hw.2 rfl, hw.1⟩
    | false =>
      refine Triple.bind (S := fun _ w => P user.email = none ∧ Untouched P w) ?_ fun _ =>
        Triple.pure fun _ hw => hw
      refine (Triple.ensure fun _ hw => hw.1).post fun _ w hw => ?_
      simp [hadopt] at hw

theorem installOver_untouched {stored : Option DesiredUser} {user : DesiredUser}
    (hvalid : Processor.Valid user) :
    Keeps (Untouched P) (Processor.installOver deps stored user) := by
  refine Triple.bind (preflightCollision_vacant hadopt) fun expect => Triple.lift fun hvacant => ?_
  refine Keeps.bind releaseStored_untouched fun _ => ?_
  refine Keeps.bind (frame.keeps_transact fun _ _ h =>
    Store.evidence_of_apart (Store.upsertDesiredUserTx_apart h)) fun _ => ?_
  refine Keeps.bind (frame.keeps_write fun _ => rfl) fun _ => ?_
  exact keeps_installing hvalid hvacant keeps_clearPendingRemoval

theorem terminalUser_untouched {payload : UserPayload} {target : Nat} {remove : Bool} :
    Keeps (Untouched P) (Processor.terminalUser deps payload target remove) := by
  have hterminal : ∀ b e, Keeps (Untouched P) (transact (Store.applyTerminal b target e remove)) :=
    fun b e => frame.keeps_transact fun _ _ h => Store.evidence_of_apart
      (Store.applyTerminal_apart h)
  have hretire : ∀ b e, Keeps (Untouched P) (Processor.retireBinding b target e remove) :=
    fun b e => Keeps.ite (fun _ => Keeps.pure) fun _ => hterminal b e
  refine Keeps.bind Keeps.peek fun plan => Keeps.bind Keeps.liftExcept fun plan => ?_
  split
  · exact Keeps.pure
  · exact hterminal _ _
  · refine Keeps.bind (uninstallOwned_untouched hadopt) fun _ => ?_
    split
    · refine Keeps.bind keeps_forgetProvisioned fun _ => ?_
      exact Keeps.bind keeps_clearPendingRemoval fun _ => hretire _ _
    · exact hretire _ _

omit hadopt

/-! ### The passes of a reconciliation -/

section Passes

variable {live : List LiveUser} {ours : List String} {users : List DesiredUser}
  (hours : ∀ email, ours.contains email = true → P email = none)
  (habsent : ∀ email, Processor.liveAt live email = none → P email = none)

include hours in
theorem releaseRenamed_vacant {recorded : List DesiredUser} {released : List String}
    {user : DesiredUser} :
    Triple (fun w => (∀ email ∈ released, P email = none) ∧ Untouched P w)
      (Processor.releaseRenamed live ours recorded released user)
      (fun released' w => (∀ email ∈ released', P email = none) ∧ Untouched P w)
      (Untouched P) := by
  refine Triple.lift fun hreleased => ?_
  unfold Processor.releaseRenamed
  split
  · exact Triple.pure fun _ hw => ⟨hreleased, hw⟩
  · next previous _ =>
    refine Triple.ite (fun _ => Triple.pure fun _ hw => ⟨hreleased, hw⟩) fun hrenamed => ?_
    have hvacant : P previous.email = none := by
      simp only [Bool.or_eq_true, not_or, Bool.not_eq_true'] at hrenamed
      exact hours _ (by simpa using hrenamed.2)
    refine Triple.bind (keeps_removeUser hvacant) fun _ => ?_
    refine Triple.bind keeps_forgetProvisioned fun _ => ?_
    refine Triple.bind keeps_clearPendingRemoval fun _ => Triple.pure fun _ hw => ⟨?_, hw⟩
    intro email hmem
    rcases List.mem_cons.1 hmem with rfl | hmem
    · exact hvacant
    · exact hreleased email hmem

theorem keeps_clearPending {pending : List String} {email : String} :
    Keeps (Untouched P) (Processor.clearPending pending email) :=
  Keeps.ite (fun _ => Keeps.bind keeps_clearPendingRemoval fun _ => Keeps.pure) fun _ => Keeps.pure

include hours in
theorem retireAccount_untouched (hunknown : deps.removeUnknownUsers = false)
    {retired : List String} {account : LiveUser} :
    Keeps (Untouched P) (Processor.retireAccount deps users ours retired account) := by
  refine Keeps.ite (fun _ => Keeps.pure) fun _ => Keeps.ite (fun hretired => ?_) fun _ => Keeps.pure
  have hvacant := hours account.email (by simpa [hunknown] using hretired)
  exact Keeps.bind (keeps_removeUser hvacant) fun _ => Keeps.pure

include hadopt hours habsent in
/-- Every enabled user goes to an address without an account of the panel, or the
reconciliation stops at the preflight. -/
theorem preflight_vacant :
    Triple (Untouched P) (users.forM (Processor.preflightUser deps live ours))
      (fun _ w => (∀ user ∈ users, user.enabled = true → P user.email = none) ∧ Untouched P w)
      (Untouched P) := by
  refine Triple.conseq (Triple.forM (J := fun rest w => (∀ user ∈ users, user.enabled = true →
    user ∈ rest ∨ P user.email = none) ∧ Untouched P w)
      fun user rest _ => Triple.lift fun hdone => ?_)
    (fun w hw => ⟨fun user hu _ => .inl hu, hw⟩)
    (fun _ w hw => ⟨fun user hu he => (hw.1 user hu he).resolve_left List.not_mem_nil, hw.2⟩)
    fun _ hw => hw
  refine Triple.ite (fun hskip => Triple.pure fun w hw => ⟨fun user' hu he => ?_, hw⟩) fun _ => ?_
  · refine (hdone user' hu he).elim (fun hmem => ?_) .inr
    rcases List.mem_cons.1 hmem with rfl | hrest
    · simp only [he, Bool.not_true, Bool.false_or, Bool.or_eq_true, Option.isNone_iff_eq_none]
        at hskip
      exact .inr (hskip.elim (habsent _) (hours _))
    · exact .inl hrest
  · refine (Triple.ensure fun _ hw => hw).post fun _ w hw => ?_
    simp [hadopt] at hw

include hadopt hours in
theorem settleUser_untouched {liveNow : List LiveUser} {pending : List String}
    {user : DesiredUser} (hvalid : Processor.Valid user)
    (henabled : user.enabled = true → P user.email = none)
    (hnow : Processor.liveAt liveNow user.email = none → P user.email = none) :
    Keeps (Untouched P) (Processor.settleUser deps live liveNow ours pending user) := by
  refine Keeps.ite (fun he => ?_) fun _ => Keeps.ite (fun _ => Keeps.pure) fun hallowed => ?_
  · exact keeps_installing hvalid (henabled he) keeps_clearPending
  · have hvacant : P user.email = none := by
      have howned : (Processor.liveAt liveNow user.email).isSome = true →
          user.email ∈ ours := by simpa [hadopt] using hallowed
      cases hlive : Processor.liveAt liveNow user.email with
      | none => exact hnow hlive
      | some account => exact hours _ (List.contains_iff_mem.2 (howned (by rw [hlive]; rfl)))
    exact Keeps.bind (keeps_removeUser hvacant) fun _ => keeps_clearPending

end Passes

include hadopt in
theorem reconcile_untouched (hunknown : deps.removeUnknownUsers = false)
    {users : List DesiredUser} : Keeps (Untouched P) (Processor.reconcile deps users) := by
  refine Keeps.bind Keeps.peek fun ready => Keeps.ite (fun _ => Keeps.ensure) fun _ => ?_
  refine Triple.bindLift (fun _ hw => hw) fun _ hdistinct => ?_
  have hvalid := Processor.distinctBindings_valid hdistinct
  refine Triple.atWorld fun w₀ hw₀ => ?_
  refine Triple.bind (Adapter.listUsers_spec.conseq (fun _ hw => hw) (fun _ _ hw => hw)
    fun w hw => hw ▸ hw₀) fun live => Triple.afterPeek fun recorded => ?_
  refine Triple.pre (P := fun w => live = w₀.xray.liveUsers ∧ w = w₀) (Triple.lift ?_)
    fun w hw => ⟨hw.1 ▸ hw.2, hw.1⟩
  rintro rfl
  refine Triple.bind (S := fun _ w => Untouched P w ∧ w.xray = w₀.xray) ?_ fun _ => ?_
  · refine (keeps_resolveIntents.and (keeps_resolveIntents_xray w₀.xray)).conseq ?_
      (fun _ _ hw => hw) fun _ hw => hw.1
    rintro w rfl
    exact ⟨hw₀, rfl⟩
  refine Triple.bindPeek fun w₁ hw₁ => ?_
  obtain ⟨hw₁, hxray⟩ := hw₁
  have hours : ∀ email, (Processor.ownershipMap w₀.xray.liveUsers w₁.store).contains email = true →
      P email = none := fun email h => hw₁.vacant_of_ours (hxray ▸ h)
  have habsent : ∀ email, Processor.liveAt w₀.xray.liveUsers email = none → P email = none :=
    fun email h => hw₁.vacant_of_absent (hxray ▸ h)
  refine Triple.pre (P := Untouched P) (Triple.afterPeek fun pending => ?_) fun w hw => hw ▸ hw₁
  refine Triple.bind (preflight_vacant hadopt hours habsent) fun _ => Triple.lift fun henabled => ?_
  refine Triple.bind (S := fun released w => (∀ email ∈ released, P email = none) ∧
      Untouched P w) ?_ fun released => Triple.lift fun hreleased => ?_
  · exact Triple.pre (Triple.foldlM (J := fun _ released w => (∀ email ∈ released,
      P email = none) ∧ Untouched P w) fun _ _ _ _ => releaseRenamed_vacant hours)
      fun w hw => ⟨fun _ hmem => absurd hmem List.not_mem_nil, hw⟩
  -- An address that is missing from the shortened reading was empty or was released.
  have hnow : ∀ email, Processor.liveAt (w₀.xray.liveUsers.filter fun account =>
      !released.contains account.email) email = none → P email = none := by
    intro email hnone
    by_cases hmem : email ∈ released
    · exact hreleased email hmem
    · refine habsent email (List.find?_eq_none.2 fun account haccount heq => ?_)
      have hemail : account.email = email := of_decide_eq_true heq
      refine List.find?_eq_none.1 hnone account (List.mem_filter.2 ⟨haccount, ?_⟩) heq
      simpa [hemail] using hmem
  refine Keeps.bind (frame.keeps_transact fun _ _ h =>
    Store.evidence_of_apart (Store.applyDesiredUsers_apart h)) fun _ => ?_
  refine Keeps.bind (Keeps.foldlM fun pending user hu => ?_) fun pending => ?_
  · exact settleUser_untouched hadopt hours (hvalid user hu) (henabled user hu) (hnow _)
  refine Keeps.bind (Keeps.foldlM fun _ _ _ => retireAccount_untouched hours hunknown) fun _ => ?_
  exact Keeps.bind keeps_clearPendingRemoval fun _ => keeps_forgetProvisioned

/-- The notes of dropped bindings carry identities of the rows. -/
theorem remember_untouched {users : List DesiredUser} :
    Keeps (Untouched P) (Processor.rememberDroppedOwnership users) := by
  refine Triple.bindPeek fun w₀ hw₀ => ?_
  refine Triple.pre (P := Untouched P) ?_ fun w hw => hw ▸ hw₀
  refine Keeps.ite (fun _ => Keeps.pure) fun _ => Keeps.atomic fun w a w' hw hrun => ?_
  cases hrun
  refine { panel := hw.panel, uuids := hw.uuids, rows := hw.rows, notes := ?_ }
  intro email uuid hlookup
  rcases Store.lookup_recordPendingRemoval hlookup with hold | hdropped
  · exact hw.notes email uuid hold
  · obtain ⟨row, hrow, rfl⟩ := Processor.mem_droppedClaims hdropped
    obtain ⟨huuid, hapart⟩ := hw₀.rows email row hrow
    exact ⟨huuid, fun account hpanel => (hapart account hpanel).1⟩

theorem exhausted_untouched {emails : List String} :
    Keeps (Untouched P) (Processor.uninstallExhausted emails) := by
  refine Keeps.ite (fun _ => Keeps.pure) fun _ => ?_
  refine Triple.bind Adapter.listUsers_spec fun live => Triple.bindPeek fun w₀ hw₀ => ?_
  obtain ⟨hw₀, rfl⟩ := hw₀
  refine Triple.pre (P := Untouched P) (Keeps.forM fun email _ => ?_) fun w hw => hw ▸ hw₀
  exact Keeps.ite (fun hours => keeps_removeUser (hw₀.vacant_of_ours hours)) fun _ => Keeps.pure

end Untouched

/-! ## Runs -/

/-- Every operation of the agent leaves the accounts of the panel alone. -/
theorem upheld_untouched (hunknown : deps.removeUnknownUsers = false)
    (hadopt : deps.adoptExistingAccounts = false) :
    Upheld deps (fun _ => True) (Untouched P) where
  frame := Untouched.frame
  reconcile := fun _ _ => Untouched.reconcile_untouched hadopt hunknown
  remember := fun _ => Untouched.remember_untouched
  exhausted := fun _ => Untouched.exhausted_untouched
  install := fun _ _ _ hvalid => Untouched.installOver_untouched hadopt hvalid
  terminal := fun _ _ _ => Untouched.terminalUser_untouched hadopt

/-- What the panel adds has an identity, and the records at the address do not name it. -/
def Label.Foreign (s : Store) : Label → Prop
  | .panelAdd email uuid _ => canonicalUUID uuid = some uuid ∧ ¬s.recognises email uuid
  | _ => True

/-- Every account that the panel adds in the run is foreign at that moment. -/
def PanelForeign (deps : Deps) : World → List Step → Prop
  | _, [] => True
  | w, step :: steps => step.1.Foreign w.store ∧ PanelForeign deps (World.step deps w step) steps

/-- The accounts of the panel are as they are, and no record names one. -/
def Respected (w : World) : Prop := Untouched w.xray.panelAt w

theorem Respected.of_untouched (h : Untouched P w) : Respected w := by
  have heq : w.xray.panelAt = P := funext h.panel
  rw [Respected, heq]
  exact h

/-- A step of the agent leaves the accounts of the panel alone. -/
theorem Respected.step_agent (hunknown : deps.removeUnknownUsers = false)
    (hadopt : deps.adoptExistingAccounts = false) (hw : Respected w) (step : Step)
    (hagent : step.1.outside = false) : Untouched w.xray.panelAt (World.step deps w step) := by
  refine ((upheld_untouched hunknown hadopt).step_keeps ⟨fun _ _ _ => trivial, hw⟩ step ?_ ?_).2
  · obtain ⟨label, fates⟩ := step
    cases label with
    | command command reading => exact ⟨fun _ => trivial, fun _ _ _ _ _ => trivial⟩
    | _ => simp [Label.Carries]
  · simp [hagent]

/-- A step of the panel or of Xray keeps the records apart from the accounts of the panel. -/
theorem Respected.step_outside (hw : Respected w) (step : Step) (houtside : step.1.outside = true)
    (hforeign : step.1.Foreign w.store) : Respected (World.step deps w step) := by
  -- It is enough to look at the accounts of the panel after the step.
  have hof : ∀ x : Xray, (∀ email account, x.panelAt email = some account →
      w.xray.panelAt email = some account ∨
        (account.uuid ≠ "" ∧ ¬w.store.recognises email account.uuid)) →
      Respected { w with xray := x } := by
    intro x hx
    refine ⟨fun _ => rfl, fun email account hpanel => ?_, fun email row hrow => ?_,
      fun email uuid hnote => ?_⟩
    · exact (hx email account hpanel).elim (hw.uuids email account) fun h => h.1
    · refine ⟨(hw.rows email row hrow).1, fun account hpanel => ?_⟩
      rcases hx email account hpanel with hold | ⟨-, hnot⟩
      · exact (hw.rows email row hrow).2 account hold
      · exact ⟨fun h => hnot (.inl ⟨row, hrow, .inl h⟩), fun h => hnot (.inl ⟨row, hrow, .inr h⟩)⟩
    · refine ⟨(hw.notes email uuid hnote).1, fun account hpanel => ?_⟩
      rcases hx email account hpanel with hold | ⟨-, hnot⟩
      · exact (hw.notes email uuid hnote).2 account hold
      · exact fun h => hnot (.inr (h ▸ hnote))
  obtain ⟨label, fates⟩ := step
  cases label with
  | panelAdd email uuid flow =>
    refine hof _ fun email' account hpanel => ?_
    rw [Xray.panelAt, Table.lookup_insert_ite] at hpanel
    split at hpanel
    · next heq =>
      subst heq
      have haccount : (⟨uuid, flow, .panel⟩ : Account) = account := by
        simpa [Option.filter] using hpanel
      rw [← haccount]
      exact .inr ⟨canonicalUUID_ne_empty hforeign.1, hforeign.2⟩
    · exact .inl hpanel
  | panelRemove email =>
    refine hof _ fun email' account hpanel => .inl ?_
    rw [Xray.panelAt, Table.lookup_erase_ite] at hpanel
    split at hpanel
    · simp at hpanel
    · exact hpanel
  | xrayRestart kept =>
    refine hof _ fun email account hpanel => .inl ?_
    rw [Xray.panelAt, World.keepAccounts, Table.lookup_eraseAll] at hpanel
    split at hpanel
    · simp at hpanel
    · exact hpanel
  | inbound ready otherEmails => exact hof _ fun _ _ hpanel => .inl hpanel
  | _ => cases houtside

theorem Respected.run (hunknown : deps.removeUnknownUsers = false)
    (hadopt : deps.adoptExistingAccounts = false) (hw : Respected w) (steps : List Step)
    (hforeign : PanelForeign deps w steps) : Respected (World.run deps w steps) := by
  induction steps generalizing w with
  | nil => exact hw
  | cons step steps ih =>
    refine ih ?_ hforeign.2
    cases houtside : step.1.outside with
    | true => exact hw.step_outside step houtside hforeign.1
    | false => exact .of_untouched (hw.step_agent hunknown hadopt step houtside)

/-- **Panel safety.**  With both switches off, in every run from a store without evidence in
which the panel adds, replaces and removes accounts, and in which every step may lose an
answer or die at any action, no step of the agent removes or overwrites an account that it
did not install.  The identities of the panel are canonical, and those it adds are not in
the records of the agent. -/
theorem panel_accounts_survive (hunknown : deps.removeUnknownUsers = false)
    (hadopt : deps.adoptExistingAccounts = false) {w₀ : World}
    (hrows : w₀.store.provisioned = ∅) (hnotes : w₀.store.pendingRemovals = ∅)
    (haccounts : ∀ email account, w₀.xray.accounts.lookup email = some account →
      canonicalUUID account.uuid = some account.uuid)
    (steps : List Step) (hforeign : PanelForeign deps w₀ steps)
    (step : Step) (hagent : step.1.outside = false) :
    let w := World.run deps w₀ steps
    ∀ email account, w.xray.accounts.lookup email = some account → account.origin = .panel →
      (World.step deps w step).xray.accounts.lookup email = some account := by
  intro w email account hlookup horigin
  have hstart : Respected w₀ := by
    refine ⟨fun _ => rfl, fun email account hpanel => ?_, fun email row hrow => ?_,
      fun email uuid hnote => ?_⟩
    · obtain ⟨hfound, -⟩ := Option.filter_eq_some_iff.1 hpanel
      exact canonicalUUID_ne_empty (haccounts email account hfound)
    · rw [hrows] at hrow
      cases hrow
    · rw [hnotes] at hnote
      cases hnote
  have hw : Respected w := hstart.run hunknown hadopt steps hforeign
  have hpanel : w.xray.panelAt email = some account :=
    Option.filter_eq_some_iff.2 ⟨hlookup, by simpa using horigin⟩
  exact (hw.step_agent hunknown hadopt step hagent).lookup_of_panel hpanel

/-- An identity of the panel. -/
def Spelling.other : String := "0000000b-0000-4000-8000-000000000000"

open Spelling in
/-- The panel replaces the account of a user, and the removal of that user leaves the
replacement alone. -/
theorem panel_accounts_survive_replaced :
    (World.step {} (World.run {} {} [adopt, ensure lower [], (.panelAdd "b@x" other "", [])])
      remove).xray.accounts.lookup "b@x" = some ⟨other, "", .panel⟩ := by
  have hforeign : PanelForeign {} {} [adopt, ensure lower [], (.panelAdd "b@x" other "", [])] :=
    ⟨trivial, trivial, ⟨by decide +kernel, by decide +kernel⟩, trivial⟩
  have hlive : (World.run {} {} [adopt, ensure lower [],
      (.panelAdd "b@x" other "", [])]).xray.accounts.lookup "b@x" =
        some ⟨other, "", .panel⟩ := by decide +kernel
  have hempty : ∀ email account, ({} : World).xray.accounts.lookup email = some account →
      canonicalUUID account.uuid = some account.uuid := fun _ _ h => by cases h
  exact @panel_accounts_survive {} rfl rfl {} rfl rfl hempty _ hforeign remove rfl "b@x" _ hlive rfl

end ChordV.Agent
