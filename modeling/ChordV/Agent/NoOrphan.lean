import ChordV.Agent.Evidence

/-!
# No account without evidence

Every live account that the agent installed is named by the provisioned row at its
address, through every crash between two actions.

* `Backed R w` says that the row at the address of every account of the agent is in the
  relation `R` to the account.  `Evident` is the invariant of the whole system: the row
  names the identity, as the current one or as the next one of an owned row.  `Sure` is
  what holds after the rotations and intents were settled against a reading: the row is
  owned and its current identity is the live one.
* `resolveIntents_sure` turns the first into the second, and every install and every
  removal of evidence starts from the second.
* `upheld_evident` collects the operations, and `installed_accounts_are_named` is the
  statement about runs.

An identity in upper case is recorded as it was delivered and reported by Xray in lower
case, so the evidence does not name it.  The statement is therefore about instructions
with canonical identities, and `upper_case_is_orphaned` is a run without them.
-/

namespace ChordV.Agent

open Lib Fallible

variable {w : World} {deps : Deps}

/-! ## Accounts and rows -/

/-- The row at the address of every account of the agent is in the relation `R` to it. -/
def Backed (R : String → Account → Provisioned → Prop) (w : World) : Prop :=
  ∀ email account, w.xray.accounts.lookup email = some account → account.origin = .agent →
    account.uuid ≠ "" ∧ email ≠ "" ∧
      ∃ row, w.store.provisioned.lookup email = some row ∧ R email account row

/-- The row names the identity of the account. -/
def Names (account : Account) (row : Provisioned) : Prop :=
  row.uuid = account.uuid ∨ (row.owned = true ∧ row.nextUuid = account.uuid)

/-- The invariant of the system. -/
def Evident : World → Prop := Backed fun _ => Names

/-- Every account of the agent is owned under its live identity. -/
def Sure : World → Prop :=
  Backed fun _ account row => row.owned = true ∧ row.uuid = account.uuid

theorem Sure.evident (h : Sure w) : Evident w := by
  intro email account hlookup horigin
  obtain ⟨huuid, hemail, row, hrow, -, hsame⟩ := h email account hlookup horigin
  exact ⟨huuid, hemail, row, hrow, .inl hsame⟩

namespace Backed

variable {R : String → Account → Provisioned → Prop}

theorem frame : EvidenceInv (Backed R) := by
  intro w w' hevidence haccounts h email account hlookup horigin
  have hprovisioned : w'.store.provisioned = w.store.provisioned := congrArg Prod.fst hevidence
  rw [hprovisioned]
  exact h email account (haccounts ▸ hlookup) horigin

/-- Fewer accounts need less evidence. -/
theorem of_fewer {w' : World} (h : Backed R w)
    (hstore : w'.store.provisioned = w.store.provisioned)
    (hfewer : ∀ email, w'.xray.accounts.lookup email = w.xray.accounts.lookup email ∨
      w'.xray.accounts.lookup email = none) : Backed R w' := by
  intro email account hlookup horigin
  rcases hfewer email with heq | heq
  · rw [hstore]
    exact h email account (heq ▸ hlookup) horigin
  · simp [heq] at hlookup

/-- Evidence at an address without an account of the agent is not needed. -/
theorem of_unneeded {s : Store} (h : Backed R w)
    (hother : ∀ email account, w.xray.accounts.lookup email = some account →
      account.origin = .agent → s.provisioned.lookup email = w.store.provisioned.lookup email) :
    Backed R { w with store := s } := by
  intro email account hlookup horigin
  obtain ⟨huuid, hemail, row, hrow, hR⟩ := h email account hlookup horigin
  exact ⟨huuid, hemail, row, (hother email account hlookup horigin).trans hrow, hR⟩

theorem keeps_write {f : Store → Store} (hf : ∀ s, (f s).provisioned = s.provisioned) :
    Keeps (Backed R) (write f) := by
  refine Keeps.atomic fun w a w' hw hrun => ?_
  cases hrun
  exact hw.of_unneeded fun email _ _ _ => by rw [hf]

theorem keeps_clearPendingRemoval {emails : List String} :
    Keeps (Backed R) (Processor.clearPendingRemoval emails) :=
  Keeps.ite (fun _ => Keeps.pure) fun _ => keeps_write fun _ => rfl

end Backed

theorem fewer_of_removed {email : String} {w₀ w : World} (h : Adapter.Removed email w₀ w)
    (email' : String) : w.xray.accounts.lookup email' = w₀.xray.accounts.lookup email' ∨
      w.xray.accounts.lookup email' = none := by
  rcases h with rfl | rfl
  · exact .inl rfl
  · rw [Xray.lookup_remove]
    split
    · exact .inr rfl
    · exact .inl rfl

/-- A statement that fewer accounts cannot break. -/
def Shrinking (I : World → Prop) : Prop :=
  ∀ w w' : World, w'.store = w.store →
    (∀ email, w'.xray.accounts.lookup email = w.xray.accounts.lookup email ∨
      w'.xray.accounts.lookup email = none) → I w → I w'

theorem Backed.shrinking {R : String → Account → Provisioned → Prop} : Shrinking (Backed R) :=
  fun _ _ hstore hfewer h => h.of_fewer (by rw [hstore]) hfewer

/-- A removal keeps a shrinking statement and leaves the address empty. -/
theorem Shrinking.removeUser {I : World → Prop} (hI : Shrinking I) {email : String}
    {expect : Expectation} :
    Triple I (Adapter.removeUser email expect)
      (fun _ w => I w ∧ w.xray.accounts.lookup email = none) I := by
  have hremoved : ∀ w₀ w, I w₀ → Adapter.Removed email w₀ w → I w := by
    intro w₀ w hw h
    refine hI w₀ w ?_ (fewer_of_removed h) hw
    rcases h with rfl | rfl <;> rfl
  refine Triple.atWorld fun w₀ hw₀ => ?_
  exact (Adapter.removeUser_spec w₀).conseq (fun _ h => h)
    (fun _ w h => ⟨hremoved w₀ w hw₀ h.1, h.2⟩) fun w h => hremoved w₀ w hw₀ h

/-- Forgetting an address without an account of the agent. -/
theorem Backed.keeps_forget {R : String → Account → Provisioned → Prop} {emails : List String} :
    Triple (fun w => Backed R w ∧ ∀ email ∈ emails, ∀ account,
        w.xray.accounts.lookup email = some account → account.origin ≠ .agent)
      (Processor.forgetProvisioned emails) (fun _ => Backed R) (Backed R) := by
  refine Triple.ite (fun _ => Triple.pure fun _ hw => hw.1) fun _ => ?_
  refine Triple.atomic (fun w a w' hw hrun => ?_) fun _ hw => hw.1
  cases hrun
  have hforget : Backed R { w with store := w.store.forgetProvisioned emails } := by
    refine hw.1.of_unneeded fun email account hlookup horigin => ?_
    rw [Store.forgetProvisioned, Table.lookup_eraseAll, if_neg]
    exact fun hmem => hw.2 email hmem account hlookup horigin
  exact ⟨hforget, hforget⟩

/-- Forgetting does not touch Xray. -/
theorem keeps_forget_xray (X : Xray → Prop) (emails : List String) :
    Keeps (fun w => X w.xray) (Processor.forgetProvisioned emails) := by
  refine Keeps.ite (fun _ => Keeps.pure) fun _ => Keeps.atomic fun w a w' hw hrun => ?_
  cases hrun
  exact hw

/-! ## Settling rotations and intents -/

theorem Processor.liveAt_liveUsers (x : Xray) (email : String) :
    Processor.liveAt x.liveUsers email = (x.accounts.lookup email).map (·.toLive email) :=
  x.find?_liveUsers email

/-- The evidence in the middle of a loop that settles some rows: every row is settled, or
still to come and evident. -/
def Settling (settled : Account → Provisioned → Prop) (live : List LiveUser)
    (rest : List (String × Provisioned)) (w : World) : Prop :=
  w.xray.liveUsers = live ∧ Backed (fun email account row => settled account row ∨
    ((email, row) ∈ rest ∧ Names account row)) w

/-- A reading shows the account at an address. -/
theorem liveAt_of_lookup {live : List LiveUser} {email : String} {account : Account}
    (hlive : w.xray.liveUsers = live) (h : w.xray.accounts.lookup email = some account) :
    Processor.liveAt live email = some (account.toLive email) := by
  rw [← hlive, Processor.liveAt_liveUsers, h, Option.map_some]

/-- A write to one row settles it, if what it writes is settled for the live account. -/
theorem Settling.write {settled : Account → Provisioned → Prop} {live : List LiveUser}
    {p : String × Provisioned} {rest : List (String × Provisioned)} {s : Store}
    (h : Settling settled live (p :: rest) w)
    (hother : ∀ email, email ≠ p.1 →
      s.provisioned.lookup email = w.store.provisioned.lookup email)
    (hhere : ∀ account row, w.xray.accounts.lookup p.1 = some account → account.origin = .agent →
      p.1 ≠ "" → w.store.provisioned.lookup p.1 = some row →
      ∃ row', s.provisioned.lookup p.1 = some row' ∧ settled account row') :
    Settling settled live rest { w with store := s } := by
  refine ⟨h.1, fun email account hlookup horigin => ?_⟩
  obtain ⟨huuid, hemail, row, hrow, hsettled⟩ := h.2 email account hlookup horigin
  by_cases heq : email = p.1
  · subst heq
    obtain ⟨row', hrow', hsettled'⟩ := hhere account row hlookup horigin hemail hrow
    exact ⟨huuid, hemail, row', hrow', .inl hsettled'⟩
  · refine ⟨huuid, hemail, row, (hother email heq).trans hrow, hsettled.imp_right fun hcome => ?_⟩
    refine ⟨(List.mem_cons.1 hcome.1).resolve_left ?_, hcome.2⟩
    rintro rfl
    exact heq rfl

/-- No write is needed when the row at hand settles itself. -/
theorem Settling.skip {settled : Account → Provisioned → Prop} {live : List LiveUser}
    {p : String × Provisioned} {rest : List (String × Provisioned)}
    (h : Settling settled live (p :: rest) w)
    (hhere : ∀ account, w.xray.accounts.lookup p.1 = some account → account.origin = .agent →
      account.uuid ≠ "" → Names account p.2 → settled account p.2) :
    Settling settled live rest w := by
  refine ⟨h.1, fun email account hlookup horigin => ?_⟩
  obtain ⟨huuid, hemail, row, hrow, hsettled⟩ := h.2 email account hlookup horigin
  refine ⟨huuid, hemail, row, hrow, ?_⟩
  rcases hsettled with hsettled | ⟨hmem, hnames⟩
  · exact .inl hsettled
  rcases List.mem_cons.1 hmem with hhead | hrest
  · subst hhead
    exact .inl (hhere account hlookup horigin huuid hnames)
  · exact .inr ⟨hrest, hnames⟩

theorem Settling.evident {settled : Account → Provisioned → Prop} {live : List LiveUser}
    {rest : List (String × Provisioned)} (h : Settling settled live rest w)
    (hsettled : ∀ account row, settled account row → Names account row) : Evident w := by
  intro email account hlookup horigin
  obtain ⟨huuid, hemail, row, hrow, hnames⟩ := h.2 email account hlookup horigin
  exact ⟨huuid, hemail, row, hrow, hnames.elim (hsettled account row) fun hcome => hcome.2⟩

/-- The current identity of the row is the live one. -/
def Matches (account : Account) (row : Provisioned) : Prop := row.uuid = account.uuid

theorem settleClaim_settling {live : List LiveUser} {p : String × Provisioned}
    {rest : List (String × Provisioned)} :
    Triple (Settling Matches live (p :: rest)) (Processor.settleClaim live p)
      (fun _ => Settling Matches live rest) Evident := by
  have hwrite : ∀ account : LiveUser, Processor.liveAt live p.1 = some account →
      Triple (Settling Matches live (p :: rest)) (write (Store.settleRotation p.1 account.uuid))
        (fun _ => Settling Matches live rest) Evident := by
    intro account hfound
    refine Triple.atomic (fun w a w' hw hrun => ?_) fun _ hw => hw.evident fun _ _ h => .inl h
    cases hrun
    have hsettled : Settling Matches live rest
        { w with store := w.store.settleRotation p.1 account.uuid } := by
      refine hw.write (fun email hne => Table.lookup_modify_ne _ _ hne) ?_
      intro present row hpresent _ _ hrow
      have hsame := liveAt_of_lookup hw.1 hpresent
      obtain rfl : account = present.toLive p.1 := by simpa [hfound] using hsame
      exact ⟨{ row with uuid := present.uuid, nextUuid := "" },
        by simp [Store.settleRotation, hrow], rfl⟩
    exact ⟨hsettled, hsettled.evident fun _ _ h => .inl h⟩
  unfold Processor.settleClaim
  split
  · next hnone =>
    refine Triple.pure fun w hw => hw.skip fun present hpresent _ _ _ => ?_
    simp [liveAt_of_lookup hw.1 hpresent] at hnone
  · next account hfound =>
    have hsame : ∀ w, Settling Matches live (p :: rest) w → ∀ present,
        w.xray.accounts.lookup p.1 = some present → account.uuid = present.uuid := by
      intro w hw present hpresent
      have := hfound.symm.trans (liveAt_of_lookup hw.1 hpresent)
      simp only [Option.some.injEq] at this
      rw [this, Account.toLive_uuid]
    refine Triple.ite (fun hunknown => Triple.pure fun w hw => ?_) fun hknown => ?_
    · refine hw.skip fun present hpresent _ huuid hnames => hnames.resolve_right ?_
      rintro ⟨-, hnext⟩
      rw [hsame w hw present hpresent, ← hnext] at hunknown
      exact huuid (hnext ▸ hunknown.elim id id)
    refine Triple.ite (fun hnext => hnext ▸ hwrite account hfound) fun hnotNext => ?_
    refine Triple.ite (fun hcurrent => hcurrent ▸ hwrite account hfound) fun _ => ?_
    refine Triple.pure fun w hw => hw.skip fun present hpresent _ _ hnames => ?_
    refine hnames.resolve_right fun hnames => hnotNext ?_
    rw [hsame w hw present hpresent, hnames.2]

/-- The row is owned under the live identity. -/
def Owns (account : Account) (row : Provisioned) : Prop :=
  row.owned = true ∧ row.uuid = account.uuid

theorem resolveIntent_settling {live : List LiveUser} {p : String × Provisioned}
    {rest : List (String × Provisioned)} (hintent : p.2.owned = false) :
    Triple (Settling Owns live (p :: rest)) (Processor.resolveIntent live p)
      (fun _ => Settling Owns live rest) Evident := by
  have howns : ∀ account row, Owns account row → Names account row := fun _ _ h => .inl h.2
  unfold Processor.resolveIntent
  split
  · next hnone =>
    refine Triple.pure fun w hw => hw.skip fun present hpresent _ _ _ => ?_
    simp [liveAt_of_lookup hw.1 hpresent] at hnone
  · next account hfound =>
    have hsame : ∀ w, Settling Owns live (p :: rest) w → ∀ present,
        w.xray.accounts.lookup p.1 = some present → account.uuid = present.uuid := by
      intro w hw present hpresent
      have := hfound.symm.trans (liveAt_of_lookup hw.1 hpresent)
      simp only [Option.some.injEq] at this
      rw [this, Account.toLive_uuid]
    refine Triple.ite (fun hother => Triple.pure fun w hw => ?_) fun hmatch => ?_
    · -- An intent only names the identity it was written for.
      refine hw.skip fun present hpresent _ huuid hnames => absurd hother ?_
      have hcurrent : p.2.uuid = present.uuid :=
        hnames.resolve_right fun h => by simp [hintent] at h
      simp [hsame w hw present hpresent, hcurrent, huuid]
    · refine Triple.atomic (fun w a w' hw hrun => ?_) fun _ hw => hw.evident howns
      cases hrun
      have hsettled : Settling Owns live rest
          { w with store := w.store.recordProvisioned p.2.bindingId p.1 p.2.uuid } := by
        refine hw.write (fun email hne => ?_) ?_
        · unfold Store.recordProvisioned
          split
          · rfl
          · exact AList.lookup_insert_ne hne
        · intro present row hpresent _ hemail _
          refine ⟨⟨p.2.bindingId, true, p.2.uuid, ""⟩, ?_, rfl, ?_⟩
          · simp [Store.recordProvisioned, hemail]
          · rw [← hsame w hw present hpresent]
            simp only [not_or, not_not] at hmatch
            exact hmatch.2.2.symm
      exact ⟨hsettled, hsettled.evident howns⟩

/-- Settling rotations and intents against an accurate reading makes every account of the
agent owned under its live identity. -/
theorem resolveIntents_sure {live : List LiveUser} :
    Triple (fun w => Evident w ∧ w.xray.liveUsers = live) (Processor.resolveIntents live)
      (fun _ w => Sure w ∧ w.xray.liveUsers = live) Evident := by
  have hmatches : ∀ account row, Matches account row → Names account row := fun _ _ h => .inl h
  have howns : ∀ account row, Owns account row → Names account row := fun _ _ h => .inl h.2
  refine Triple.bind (S := fun _ => Settling Matches live []) ?_ fun _ => ?_
  · refine Triple.bindPeek fun w₀ hw₀ => ?_
    refine Triple.pre (Triple.forM fun p rest _ => settleClaim_settling) ?_
    rintro w rfl
    refine ⟨hw₀.2, fun email account hlookup horigin => ?_⟩
    obtain ⟨huuid, hemail, row, hrow, hnames⟩ := hw₀.1 email account hlookup horigin
    refine ⟨huuid, hemail, row, hrow, ?_⟩
    rcases hnames with hsame | hnext
    · exact .inl hsame
    · refine .inr ⟨List.mem_filter.2 ⟨Table.mem_pairs.2 hrow, hnext.1⟩, .inr hnext⟩
  refine Triple.bindPeek fun w₁ hw₁ => ?_
  refine Triple.bind (S := fun _ => Settling Owns live []) ?_ fun _ => ?_
  · refine Triple.pre (Triple.forM fun p rest hp => ?_) (P := Settling Owns live
      w₁.store.provisionIntents) ?_
    · have hmem := hp.subset List.mem_cons_self
      exact resolveIntent_settling (by simpa using (List.mem_filter.1 hmem).2)
    rintro w rfl
    refine ⟨hw₁.1, fun email account hlookup horigin => ?_⟩
    obtain ⟨huuid, hemail, row, hrow, hsettled⟩ := hw₁.2 email account hlookup horigin
    have hsame : row.uuid = account.uuid := by
      rcases hsettled with hsame | ⟨hmem, -⟩
      · exact hsame
      · cases hmem
    refine ⟨huuid, hemail, row, hrow, ?_⟩
    cases howned : row.owned with
    | true => exact .inl ⟨howned, hsame⟩
    | false =>
      exact .inr ⟨List.mem_filter.2 ⟨Table.mem_pairs.2 hrow, by simp [howned]⟩, .inl hsame⟩
  · have hforget := (Backed.keeps_forget (R := fun _ => Owns)).and
      (keeps_forget_xray (fun x => x.liveUsers = live) ((w₁.store.provisionIntents.filter fun p =>
        (Processor.liveAt live p.1).isNone).map Prod.fst))
    refine hforget.conseq (fun w hw => ⟨⟨?_, ?_⟩, hw.1⟩) (fun _ _ hw => hw) fun _ hw => ?_
    · intro email account hlookup horigin
      obtain ⟨huuid, hemail, row, hrow, hsettled⟩ := hw.2 email account hlookup horigin
      refine ⟨huuid, hemail, row, hrow, hsettled.resolve_right ?_⟩
      rintro ⟨hmem, -⟩
      cases hmem
    · intro email hmem account hlookup
      obtain ⟨p, hp, rfl⟩ := List.mem_map.1 hmem
      have hnone := (List.mem_filter.1 hp).2
      simp [liveAt_of_lookup hw.1 hlookup] at hnone
    · exact Sure.evident hw.1

/-! ## Ownership -/

/-- Nothing of the agent lives at the address. -/
def Clear (email : String) (w : World) : Prop :=
  ∀ account, w.xray.accounts.lookup email = some account → account.origin ≠ .agent

theorem Clear.of_none {email : String} (h : w.xray.accounts.lookup email = none) :
    Clear email w := by
  intro account hlookup
  simp [h] at hlookup

theorem Store.claimOn_eq_some {s : Store} {email : String} {row : Provisioned}
    (hrow : s.provisioned.lookup email = some row) (howned : row.owned = true) :
    s.claimOn email = some row := by
  simp [Store.claimOn, hrow, Option.filter, howned]

/-- Once every account of the agent is owned, an address it does not own is clear. -/
theorem owns_sure {email : String} :
    Triple Sure (Processor.owns email) (fun owned w => Sure w ∧ (owned = false → Clear email w))
      Evident := by
  refine Triple.bindPeek fun w₀ hw₀ => ?_
  split
  · next hnone =>
    refine Triple.pure ?_
    rintro w rfl
    refine ⟨hw₀, fun _ account hlookup horigin => ?_⟩
    obtain ⟨-, -, row, hrow, howned, -⟩ := hw₀ email account hlookup horigin
    simp [Processor.claimedIdentities, Store.claimOn_eq_some hrow howned] at hnone
  · next candidates hsome =>
    refine Triple.bind (Adapter.listUsers_spec.conseq (fun _ hw => hw) (fun _ _ hw => hw)
      fun w hw => hw ▸ hw₀.evident) fun live => Triple.pure ?_
    rintro w ⟨rfl, rfl⟩
    refine ⟨hw₀, fun hrefused account hlookup horigin => ?_⟩
    obtain ⟨huuid, -, row, hrow, howned, hsame⟩ := hw₀ email account hlookup horigin
    simp only [Processor.claimedIdentities, Store.claimOn_eq_some hrow howned,
      Option.some.injEq] at hsome
    subst hsome
    simp [Processor.claimStands, Processor.liveAt_liveUsers, hlookup, hsame, huuid] at hrefused

/-! ## Installing -/

/-- An identity that Xray reports as it is recorded, if it can be installed at all. -/
def Canonical (uuid : String) : Prop := ∀ id, canonicalUUID uuid = some id → id = uuid

/-- The row at the address of the user names the identity that is about to be installed. -/
def Announced (user : DesiredUser) (w : World) : Prop :=
  ∃ row, w.store.provisioned.lookup user.email = some row ∧
    (row.uuid = user.uuid ∨ (row.owned = true ∧ row.nextUuid = user.uuid))

theorem recordProvisionIntent_sure {user : DesiredUser} (hemail : user.email ≠ "") {x : Xray} :
    Triple (fun w => Sure w ∧ w.xray = x)
      (write (Store.recordProvisionIntent user.bindingId user.email user.uuid))
      (fun _ w => (Sure w ∧ Announced user w) ∧ w.xray = x) Evident := by
  refine Triple.atomic (fun w a w' hw hrun => ?_) fun _ hw => hw.1.evident
  cases hrun
  have hsure : Sure { w with
      store := w.store.recordProvisionIntent user.bindingId user.email user.uuid } := by
    intro email account hlookup horigin
    obtain ⟨huuid, hne, row, hfound, howned, hsame⟩ := hw.1 email account hlookup horigin
    refine ⟨huuid, hne, ?_⟩
    by_cases heq : email = user.email
    · subst heq
      refine ⟨Store.intentOver row user.bindingId user.uuid, ?_, ?_, ?_⟩
      · simp [Store.recordProvisionIntent, hemail, hfound]
      · simp [Store.intentOver, howned]
      · simp [Store.intentOver, howned, hsame]
    · refine ⟨row, ?_, howned, hsame⟩
      simp only [Store.recordProvisionIntent, if_neg hemail, AList.lookup_insert_ne heq]
      exact hfound
  refine ⟨⟨⟨hsure, ?_⟩, hw.2⟩, hsure.evident⟩
  cases hfound : w.store.provisioned.lookup user.email with
  | none =>
    refine ⟨⟨user.bindingId, false, user.uuid, ""⟩, ?_, .inl rfl⟩
    simp [Store.recordProvisionIntent, hemail, hfound]
  | some row =>
    refine ⟨Store.intentOver row user.bindingId user.uuid, ?_, ?_⟩
    · simp [Store.recordProvisionIntent, hemail, hfound]
    unfold Store.intentOver
    split
    · next howned =>
      by_cases hsame : row.uuid = user.uuid
      · exact .inl hsame
      · exact .inr ⟨howned, by simp [hsame]⟩
    · exact .inl rfl

/-- An announced installation leaves evidence wherever it stops. -/
theorem Announced.installed {user : DesiredUser} {w' : World} (hcanonical : Canonical user.uuid)
    (hvalid : Processor.Valid user) (hsure : Sure w) (h : Announced user w)
    (hinstalled : Adapter.Installed user w w') : Evident w' := by
  intro email account hlookup horigin
  rw [hinstalled.store]
  by_cases heq : email = user.email
  · subst heq
    rcases hinstalled.here with hsame | hnone | ⟨id, hid, hnew⟩
    · exact hsure.evident _ account (hsame ▸ hlookup) horigin
    · simp [hnone] at hlookup
    · obtain rfl : id = user.uuid := hcanonical id hid
      obtain rfl : (⟨user.uuid, user.flow, .agent⟩ : Account) = account := by
        simpa [hnew] using hlookup
      obtain ⟨row, hrow, hnames⟩ := h
      exact ⟨hvalid.uuid, hvalid.email, row, hrow, hnames⟩
  · rw [hinstalled.others email heq] at hlookup
    exact hsure.evident email account hlookup horigin

/-- The three actions of an installation, the intent, Xray and the claim, before whatever
comes next. -/
theorem installing_sure {user : DesiredUser} {expect : Expectation} {α : Type} {k : AgentM α}
    {Q : α → World → Prop} (hcanonical : Canonical user.uuid) (hvalid : Processor.Valid user)
    {x : Xray}
    (hk : Triple (fun w => Sure w ∧ ∀ email, email ≠ user.email →
      w.xray.accounts.lookup email = x.accounts.lookup email) k Q Evident) :
    Triple (fun w => Sure w ∧ w.xray = x) (do
      write (Store.recordProvisionIntent user.bindingId user.email user.uuid)
      Adapter.ensureUser deps user expect
      write (Store.recordProvisioned user.bindingId user.email user.uuid)
      k) Q Evident := by
  refine Triple.bind (recordProvisionIntent_sure hvalid.email) fun _ => ?_
  refine Triple.bind (S := fun _ w => Adapter.Carries user w ∧ Evident w ∧ ∀ email,
      email ≠ user.email → w.xray.accounts.lookup email = x.accounts.lookup email ∧
        ∀ account, w.xray.accounts.lookup email = some account → account.origin = .agent →
          ∃ row, w.store.provisioned.lookup email = some row ∧ row.owned = true ∧
            row.uuid = account.uuid) ?_ fun _ => ?_
  · refine Triple.atWorld fun w₁ hw₁ => ?_
    obtain ⟨⟨hsure, hannounced⟩, rfl⟩ := hw₁
    refine (Adapter.ensureUser_spec w₁).conseq (fun _ hw => hw) ?_ fun w hw =>
      hannounced.installed hcanonical hvalid hsure hw
    rintro _ w ⟨hinstalled, hcarries⟩
    refine ⟨hcarries, hannounced.installed hcanonical hvalid hsure hinstalled, fun email hne => ?_⟩
    refine ⟨hinstalled.others email hne, fun account hlookup horigin => ?_⟩
    rw [hinstalled.others email hne] at hlookup
    rw [hinstalled.store]
    exact (hsure email account hlookup horigin).2.2
  · refine Triple.bind (Triple.atomic (fun w a w' hw hrun => ?_) fun _ hw => hw.2.1) fun _ => hk
    cases hrun
    obtain ⟨⟨id, present, hid, hpresent, hsame⟩, hevident, hothers⟩ := hw
    obtain rfl : id = user.uuid := hcanonical id hid
    have hsure : Sure { w with
        store := w.store.recordProvisioned user.bindingId user.email user.uuid } := by
      intro email account hlookup horigin
      obtain ⟨huuid, hne, -⟩ := hevident email account hlookup horigin
      refine ⟨huuid, hne, ?_⟩
      by_cases heq : email = user.email
      · subst heq
        refine ⟨⟨user.bindingId, true, user.uuid, ""⟩, ?_, rfl, ?_⟩
        · simp [Store.recordProvisioned, hvalid.email]
        · obtain rfl : present = account := by simpa [hpresent] using hlookup
          exact hsame.symm
      · obtain ⟨row, hrow, howned, hsame⟩ := (hothers email heq).2 account hlookup horigin
        refine ⟨row, ?_, howned, hsame⟩
        simp only [Store.recordProvisioned, if_neg hvalid.email, AList.lookup_insert_ne heq]
        exact hrow
    exact ⟨⟨hsure, fun email hne => (hothers email hne).1⟩, hsure.evident⟩

/-- Uninstall what is left at an address, then forget it. -/
theorem releasing_sure {I : World → Prop} (hI : Shrinking I) (hevident : ∀ w, I w → Evident w)
    (hforget : ∀ email, Triple (fun w => I w ∧ w.xray.accounts.lookup email = none)
      (Processor.forgetProvisioned [email]) (fun _ => I) Evident)
    {email : String} {expect : Expectation} {α : Type} {k : AgentM α} {Q : α → World → Prop}
    (hk : Triple I k Q Evident) :
    Triple I (do
      Adapter.removeUser email expect
      Processor.forgetProvisioned [email]
      k) Q Evident := by
  refine Triple.bind (hI.removeUser.conseq (fun _ hw => hw) (fun _ _ hw => hw) hevident) fun _ => ?_
  exact Triple.bind (hforget email) fun _ => hk

theorem forget_sure {email : String} :
    Triple (fun w => Sure w ∧ w.xray.accounts.lookup email = none)
      (Processor.forgetProvisioned [email]) (fun _ => Sure) Evident := by
  refine Backed.keeps_forget.conseq (fun w hw => ⟨hw.1, ?_⟩) (fun _ _ hw => hw) fun _ =>
    Sure.evident
  intro email' hmem
  obtain rfl : email' = email := by simpa using hmem
  exact Clear.of_none hw.2

theorem releaseStored_sure {stored : Option DesiredUser} {user : DesiredUser} :
    Triple Sure (Processor.releaseStored stored user) (fun _ => Sure) Evident := by
  unfold Processor.releaseStored
  split
  · exact Triple.pure fun _ hw => hw
  · next previous =>
    refine Triple.ite (fun _ => Triple.pure fun _ hw => hw) fun _ => ?_
    refine Triple.bind (S := fun _ => Sure) (owns_sure.post fun _ _ hw => hw.1) fun owned => ?_
    refine Triple.ite (fun _ => ?_) fun _ => Triple.pure fun _ hw => hw
    refine Triple.bind (S := fun _ => Sure) (RecordInv.keeps_claimedExpectation.conseq
      (fun _ hw => hw) (fun _ _ hw => hw) fun _ => Sure.evident) fun expect => ?_
    refine releasing_sure Backed.shrinking (fun _ => Sure.evident) (fun _ => forget_sure) ?_
    exact Backed.keeps_clearPendingRemoval.conseq (fun _ hw => hw) (fun _ _ hw => hw) fun _ =>
      Sure.evident

theorem installOver_evident {stored : Option DesiredUser} {user : DesiredUser}
    (hcanonical : Canonical user.uuid) (hvalid : Processor.Valid user) :
    Keeps Evident (Processor.installOver deps stored user) := by
  have hsure : ∀ {α : Type} {p : AgentM α}, Keeps Sure p →
      Triple Sure p (fun _ => Sure) Evident :=
    fun h => h.conseq (fun _ hw => hw) (fun _ _ hw => hw) fun _ => Sure.evident
  refine Triple.bind (S := fun _ => Sure) ?_ fun expect => ?_
  · refine Triple.bind Adapter.listUsers_spec fun live => ?_
    refine Triple.bind (resolveIntents_sure.pre fun w hw => ⟨hw.1, hw.2.symm⟩) fun _ => ?_
    refine Triple.bind (owns_sure.conseq (fun _ hw => hw.1) (fun _ _ hw => hw.1) fun _ hw => hw)
      fun owned => ?_
    split
    · exact Triple.pure fun _ hw => hw
    · refine hsure (Keeps.ite (fun _ => ?_) fun _ => Keeps.pure)
      exact Keeps.bind Keeps.ensure fun _ => Keeps.pure
  refine Triple.bind releaseStored_sure fun _ => ?_
  refine Triple.bind (hsure (Backed.frame.keeps_transact fun _ _ h =>
    Store.evidence_of_apart (Store.upsertDesiredUserTx_apart h))) fun _ => ?_
  refine Triple.bind (hsure (Backed.frame.keeps_write fun _ => rfl)) fun _ => ?_
  refine Triple.atWorld fun w₀ hw₀ => ?_
  refine (installing_sure (x := w₀.xray) (Q := fun _ => Evident) hcanonical hvalid ?_).pre ?_
  · exact Backed.keeps_clearPendingRemoval.pre fun _ hw => hw.1.evident
  · rintro w rfl
    exact ⟨hw₀, rfl⟩

/-! ## Terminal commands -/

theorem uninstallOwned_clear {email : String} :
    Triple Evident (Processor.uninstallOwned deps email) (fun _ w => Evident w ∧ Clear email w)
      Evident := by
  refine Triple.bind Adapter.listUsers_spec fun live => ?_
  refine Triple.bind (resolveIntents_sure.pre fun w hw => ⟨hw.1, hw.2.symm⟩) fun _ => ?_
  refine Triple.bind (owns_sure.pre fun _ hw => hw.1) fun owned => ?_
  refine Triple.ite (fun hrefused => Triple.pure fun w hw => ?_) fun _ => ?_
  · have hnot : owned = false := by
      simp only [Bool.and_eq_true, Bool.not_eq_true'] at hrefused
      exact hrefused.1.1
    exact ⟨hw.1.evident, hw.2 hnot⟩
  · refine Shrinking.removeUser Backed.shrinking |>.conseq (fun _ hw => hw.1.evident)
      (fun _ w hw => ⟨hw.1, Clear.of_none hw.2⟩) fun _ hw => hw

theorem terminalUser_evident {payload : UserPayload} {target : Nat} {remove : Bool} :
    Keeps Evident (Processor.terminalUser deps payload target remove) := by
  have hterminal : ∀ b e, Keeps Evident (transact (Store.applyTerminal b target e remove)) :=
    fun b e => Backed.frame.keeps_transact fun _ _ h =>
      Store.evidence_of_apart (Store.applyTerminal_apart h)
  have hretire : ∀ b e, Keeps Evident (Processor.retireBinding b target e remove) :=
    fun b e => Keeps.ite (fun _ => Keeps.pure) fun _ => hterminal b e
  refine Keeps.bind Keeps.peek fun plan => Keeps.bind Keeps.liftExcept fun plan => ?_
  split
  · exact Keeps.pure
  · exact hterminal _ _
  · next bindingId email =>
    refine Triple.bind uninstallOwned_clear fun _ => ?_
    split
    · refine Triple.bind (Backed.keeps_forget.pre fun w hw => ⟨hw.1, ?_⟩) fun _ => ?_
      · intro email' hmem
        obtain rfl : email' = email := by simpa using hmem
        exact hw.2
      · exact Keeps.bind Backed.keeps_clearPendingRemoval fun _ => hretire _ _
    · exact (hretire _ _).pre fun _ hw => hw.1

/-! ## Reconciliation -/

/-- Every account was there when the reading was taken, or was installed since for one of
the users, whose note is then dropped. -/
def Accounted (live : List LiveUser) (users : List DesiredUser) (pending : List String)
    (w : World) : Prop :=
  ∀ email account, w.xray.accounts.lookup email = some account →
    (Processor.liveAt live email).isSome = true ∨
      (email ∉ pending ∧ users.any (·.email = email) = true)

/-- The invariant of the passes of a reconciliation. -/
def Reckoned (live : List LiveUser) (users : List DesiredUser) (pending : List String)
    (w : World) : Prop := Sure w ∧ Accounted live users pending w

namespace Reckoned

variable {live : List LiveUser} {users : List DesiredUser} {pending : List String}

theorem evident (h : Reckoned live users pending w) : Evident w := h.1.evident

theorem of_reading (hsure : Sure w) (hlive : w.xray.liveUsers = live) :
    Reckoned live users pending w := by
  refine ⟨hsure, fun email account hlookup => .inl ?_⟩
  rw [liveAt_of_lookup hlive hlookup]
  rfl

theorem shrinking : Shrinking (Reckoned live users pending) := by
  intro w w' hstore hfewer h
  refine ⟨Backed.shrinking w w' hstore hfewer h.1, fun email account hlookup => ?_⟩
  rcases hfewer email with heq | heq
  · exact h.2 email account (heq ▸ hlookup)
  · simp [heq] at hlookup

/-- Programs that only write evidence they may write keep the accounts. -/
theorem of_sure {α : Type} {p : AgentM α} (hsure : Triple Sure p (fun _ => Sure) Evident)
    (hxray : ∀ x, Keeps (fun w => w.xray = x) p) :
    Triple (Reckoned live users pending) p (fun _ => Reckoned live users pending) Evident := by
  refine Triple.atWorld fun w₀ hw₀ => ?_
  refine (hsure.and (hxray w₀.xray)).conseq ?_ (fun _ w hw => ?_) fun _ hw => hw.1
  · rintro w rfl
    exact ⟨hw₀.1, rfl⟩
  · exact ⟨hw.1, fun email account hlookup => hw₀.2 email account (hw.2 ▸ hlookup)⟩

theorem keeps_clearPendingRemoval {emails : List String} :
    Triple (Reckoned live users pending) (Processor.clearPendingRemoval emails)
      (fun _ => Reckoned live users pending) Evident :=
  of_sure (Backed.keeps_clearPendingRemoval.conseq (fun _ hw => hw) (fun _ _ hw => hw)
    fun _ => Sure.evident) fun _ => Keeps.ite (fun _ => Keeps.pure) fun _ =>
      Keeps.atomic fun _ _ _ hw hrun => by cases hrun; exact hw

theorem clearPending {email : String} :
    Triple (fun w => Sure w ∧ ∀ email' account, w.xray.accounts.lookup email' = some account →
        (Processor.liveAt live email').isSome = true ∨
          ((email' = email ∨ email' ∉ pending) ∧ users.any (·.email = email') = true))
      (Processor.clearPending pending email)
      (fun pending' => Reckoned live users pending') Evident := by
  refine Triple.ite (fun _ => ?_) fun habsent => Triple.pure fun w hw => ⟨hw.1, ?_⟩
  · refine Triple.bind (S := fun _ => Reckoned live users (pending.filter (· ≠ email))) ?_
      fun _ => Triple.pure fun _ hw => hw
    refine keeps_clearPendingRemoval.pre fun w hw => ⟨hw.1, fun email' account hlookup => ?_⟩
    refine (hw.2 email' account hlookup).imp_right fun hnew => ⟨fun hmem => ?_, hnew.2⟩
    obtain ⟨hpending, hne⟩ := List.mem_filter.1 hmem
    exact hnew.1.elim (by simpa using hne) fun h => h hpending
  · intro email' account hlookup
    refine (hw.2 email' account hlookup).imp_right fun hnew => ⟨?_, hnew.2⟩
    rintro hmem
    exact hnew.1.elim (fun heq => habsent (List.contains_iff_mem.2 (heq ▸ hmem))) fun h => h hmem

theorem releaseRenamed {ours : List String} {recorded : List DesiredUser} {released : List String}
    {user : DesiredUser} :
    Triple (Reckoned live users pending)
      (Processor.releaseRenamed live ours recorded released user)
      (fun _ => Reckoned live users pending) Evident := by
  unfold Processor.releaseRenamed
  split
  · exact Triple.pure fun _ hw => hw
  · next previous =>
    refine Triple.ite (fun _ => Triple.pure fun _ hw => hw) fun _ => ?_
    refine releasing_sure shrinking (fun _ => evident) (fun email => ?_) ?_
    · refine Triple.atWorld fun w₀ hw₀ => ?_
      have hkept := keeps_forget_xray (fun x => x = w₀.xray) [email]
      refine (forget_sure.and hkept).conseq (fun w hw => ?_) (fun _ w hw => ?_)
        fun _ hw => hw.1
      · subst hw
        exact ⟨⟨hw₀.1.1, hw₀.2⟩, rfl⟩
      · exact ⟨hw.1, fun email' account hlookup => hw₀.1.2 email' account (hw.2 ▸ hlookup)⟩
    · exact Triple.bind keeps_clearPendingRemoval fun _ => Triple.pure fun _ hw => hw

theorem settleUser {liveNow : List LiveUser} {ours : List String} {user : DesiredUser}
    (hcanonical : Canonical user.uuid) (hvalid : Processor.Valid user) (hmem : user ∈ users) :
    Triple (Reckoned live users pending)
      (Processor.settleUser deps live liveNow ours pending user)
      (fun pending' => Reckoned live users pending') Evident := by
  refine Triple.ite (fun _ => ?_) fun _ => ?_
  · refine Triple.atWorld fun w₀ hw₀ => ?_
    refine (installing_sure (x := w₀.xray) hcanonical hvalid (clearPending.pre ?_)).pre ?_
    · rintro w ⟨hsure, hothers⟩
      refine ⟨hsure, fun email account hlookup => ?_⟩
      by_cases heq : email = user.email
      · exact .inr ⟨.inl heq, List.any_eq_true.2 ⟨user, hmem, by simp [heq]⟩⟩
      · rw [hothers email heq] at hlookup
        exact (hw₀.2 email account hlookup).imp_right fun h => ⟨.inr h.1, h.2⟩
    · rintro w rfl
      exact ⟨hw₀.1, rfl⟩
  · refine Triple.ite (fun _ => Triple.pure fun _ hw => hw) fun _ => ?_
    refine Triple.bind (shrinking.removeUser.conseq (fun _ hw => hw) (fun _ _ hw => hw.1)
      fun _ => evident) fun _ => clearPending.pre fun w hw =>
        ⟨hw.1, fun email account hlookup => ?_⟩
    exact (hw.2 email account hlookup).imp_right fun h => ⟨.inr h.1, h.2⟩

/-- The retired addresses are empty. -/
theorem retireAccount {ours retired : List String} {account : LiveUser} :
    Triple (fun w => Reckoned live users pending w ∧
        ∀ email ∈ retired, w.xray.accounts.lookup email = none)
      (Processor.retireAccount deps users ours retired account)
      (fun retired' w => Reckoned live users pending w ∧
        ∀ email ∈ retired', w.xray.accounts.lookup email = none) Evident := by
  have hshrinking : Shrinking fun w => Reckoned live users pending w ∧
      ∀ email ∈ retired, w.xray.accounts.lookup email = none := by
    intro w w' hstore hfewer h
    refine ⟨shrinking w w' hstore hfewer h.1, fun email hmem => ?_⟩
    exact (hfewer email).elim (fun heq => heq.trans (h.2 email hmem)) id
  refine Triple.ite (fun _ => Triple.pure fun _ hw => hw) fun _ => ?_
  refine Triple.ite (fun _ => ?_) fun _ => Triple.pure fun _ hw => hw
  refine Triple.bind (hshrinking.removeUser.conseq (fun _ hw => hw) (fun _ _ hw => hw)
    fun _ hw => hw.1.evident) fun _ => Triple.pure fun w hw => ⟨hw.1.1, fun email hmem => ?_⟩
  rcases List.mem_append.1 hmem with hmem | hmem
  · exact hw.1.2 email hmem
  · obtain rfl : email = account.email := by simpa using hmem
    exact hw.2

end Reckoned

theorem reconcile_evident {users : List DesiredUser}
    (hcanonical : ∀ user ∈ users, Canonical user.uuid) :
    Keeps Evident (Processor.reconcile deps users) := by
  refine Keeps.bind Keeps.peek fun ready => Keeps.ite (fun _ => Keeps.ensure) fun _ => ?_
  refine Triple.bindLift (fun _ hw => hw) fun _ hdistinct => ?_
  have hvalid := Processor.distinctBindings_valid hdistinct
  refine Triple.bind Adapter.listUsers_spec fun live => Triple.afterPeek fun recorded => ?_
  refine Triple.bind (resolveIntents_sure.pre fun w hw => ⟨hw.1, hw.2.symm⟩) fun _ => ?_
  refine Triple.afterPeek fun ours => Triple.afterPeek fun pending => ?_
  refine Triple.pre (P := Reckoned live users pending) ?_
    fun w hw => Reckoned.of_reading hw.1 hw.2
  have hkeeps : ∀ {α : Type} {p : AgentM α}, Keeps (Reckoned live users pending) p →
      Triple (Reckoned live users pending) p (fun _ => Reckoned live users pending) Evident :=
    fun h => h.conseq (fun _ hw => hw) (fun _ _ hw => hw) fun _ hw => hw.evident
  refine Triple.bind (hkeeps (Keeps.forM fun user _ => ?_)) fun _ => ?_
  · exact Keeps.ite (fun _ => Keeps.pure) fun _ => Keeps.ensure
  refine Triple.bind (S := fun _ => Reckoned live users pending)
    (Triple.foldlM (J := fun _ _ => Reckoned live users pending) fun _ _ _ _ =>
      Reckoned.releaseRenamed) fun released => ?_
  have happly : Keeps (Reckoned live users pending) (transact (Store.applyDesiredUsers users)) := by
    refine Keeps.and (Backed.frame.keeps_transact fun _ _ h =>
      Store.evidence_of_apart (Store.applyDesiredUsers_apart h)) ?_
    refine Keeps.atomic fun w a w' hw hrun => ?_
    obtain ⟨s', -, heq⟩ := map_eq_ok.1 hrun
    cases heq
    exact hw
  refine Triple.bind (hkeeps happly) fun _ => ?_
  refine Triple.bind (S := fun pending => Reckoned live users pending)
    (Triple.foldlM (J := fun _ pending => Reckoned live users pending) fun user _ _ hsuffix => ?_)
    fun pending => ?_
  · have hmem : user ∈ users := hsuffix.subset List.mem_cons_self
    exact Reckoned.settleUser (hcanonical user hmem) (hvalid user hmem) hmem
  refine Triple.bind (S := fun removed w => Reckoned live users pending w ∧
      ∀ email ∈ removed, w.xray.accounts.lookup email = none) ?_ fun removed => ?_
  · refine Triple.pre (Triple.foldlM (J := fun _ removed w => Reckoned live users pending w ∧
      ∀ email ∈ removed, w.xray.accounts.lookup email = none) fun _ _ _ _ =>
        Reckoned.retireAccount) fun w hw => ⟨hw, fun _ hmem => by cases hmem⟩
  -- Nothing of the agent lives at a retired address: it was uninstalled, or it was not there
  -- when the reading was taken and no user claimed it since.
  refine Triple.pre (P := fun w => Evident w ∧ ∀ email ∈ removed ++
      pending.filter (fun email => (Processor.liveAt live email).isNone) ++
      ours.filter (fun email => !users.any (·.email = email) &&
        (Processor.liveAt live email).isNone), Clear email w) ?_ fun w hw => ⟨hw.1.evident, ?_⟩
  · refine Triple.bind (S := fun _ w => Evident w ∧ _) ?_ fun _ => Backed.keeps_forget
    refine Triple.ite (fun _ => Triple.pure fun _ hw => hw) fun _ => ?_
    refine Triple.atomic (fun w a w' hw hrun => ?_) fun _ hw => hw.1
    cases hrun
    exact ⟨⟨hw.1.of_unneeded fun _ _ _ _ => rfl, hw.2⟩, hw.1.of_unneeded fun _ _ _ _ => rfl⟩
  · intro email hmem
    rcases List.mem_append.1 hmem with hmem | hmem
    · rcases List.mem_append.1 hmem with hmem | hmem
      · exact Clear.of_none (hw.2 email hmem)
      · obtain ⟨hpending, hgone⟩ := List.mem_filter.1 hmem
        intro account hlookup
        rcases hw.1.2 email account hlookup with hread | hnew
        · simp_all
        · exact absurd hpending hnew.1
    · obtain ⟨-, hgone⟩ := List.mem_filter.1 hmem
      intro account hlookup
      rcases hw.1.2 email account hlookup with hread | hnew
      · simp_all
      · simp [hnew.2] at hgone

/-! ## Runs -/

/-- Every operation of the agent keeps the evidence, if the identities are canonical. -/
theorem upheld_evident : Upheld deps Canonical Evident where
  frame := Backed.frame
  reconcile := fun _ hcanonical => reconcile_evident hcanonical
  remember := fun users => by
    refine Keeps.bind Keeps.peek fun dropped => Keeps.ite (fun _ => Keeps.pure) fun _ => ?_
    exact Backed.keeps_write fun _ => rfl
  exhausted := fun emails => by
    refine Keeps.ite (fun _ => Keeps.pure) fun _ => ?_
    refine Triple.bind (Adapter.listUsers_spec.post fun _ _ hw => hw.1) fun live => ?_
    refine Keeps.bind Keeps.peek fun ours => Keeps.forM fun email _ => ?_
    refine Keeps.ite (fun _ => ?_) fun _ => Keeps.pure
    exact (Shrinking.removeUser Backed.shrinking).post fun _ _ hw => hw.1
  install := fun _ _ hcanonical hvalid => installOver_evident hcanonical hvalid
  terminal := fun _ _ _ => terminalUser_evident

/-- What the panel and Xray do leaves no account of the agent without evidence. -/
theorem Evident.step_outside (h : Evident w) (step : Step) (houtside : step.1.outside = true) :
    Evident (World.step deps w step) := by
  obtain ⟨label, fates⟩ := step
  cases label with
  | panelAdd email uuid flow =>
    intro email' account hlookup horigin
    by_cases heq : email' = email
    · subst heq
      have : (⟨uuid, flow, .panel⟩ : Account) = account := by
        simpa [World.step] using hlookup
      simp [← this] at horigin
    · refine h email' account ?_ horigin
      simpa [World.step, AList.lookup_insert_ne heq] using hlookup
  | panelRemove email =>
    refine h.of_fewer rfl fun email' => ?_
    simp only [World.step, Table.lookup_erase_ite]
    split
    · exact .inr rfl
    · exact .inl rfl
  | xrayRestart kept =>
    refine h.of_fewer rfl fun email => ?_
    simp only [World.step, World.keepAccounts, Table.lookup_eraseAll]
    split
    · exact .inr rfl
    · exact .inl rfl
  | inbound ready otherEmails => exact h
  | _ => cases houtside

/-- **No orphaned account.**  From a fresh store, in every run of commands, refreshes,
samples, acknowledgements, restarts and outside changes in which every step may lose an
answer or die at any action, every live account that the agent installed is named by a
provisioned row or a pending note, if the identities of the instructions are canonical. -/
theorem installed_accounts_are_named {w₀ : World} (hrows : w₀.store.rows = ∅)
    (haccounts : ∀ email account, w₀.xray.accounts.lookup email = some account →
      account.origin = .panel)
    (steps : List Step) (hsteps : ∀ step ∈ steps, step.1.Carries Canonical) :
    let w := World.run deps w₀ steps
    ∀ email account, w.xray.accounts.lookup email = some account → account.origin = .agent →
      w.store.recognises email account.uuid := by
  have hstart : GoodRows Canonical w₀ ∧ Evident w₀ := by
    refine ⟨fun b row hlookup => ?_, fun email account hlookup horigin => ?_⟩
    · rw [hrows] at hlookup
      cases hlookup
    · rw [haccounts email account hlookup] at horigin
      cases horigin
  have hend : GoodRows Canonical (World.run deps w₀ steps) ∧
      Evident (World.run deps w₀ steps) := by
    refine List.foldlRecOn (motive := fun w => GoodRows Canonical w ∧ Evident w) _ _ hstart ?_
    intro w hw step hstep
    exact upheld_evident.step_keeps hw step (hsteps step hstep) (hw.2.step_outside step)
  intro w email account hlookup horigin
  obtain ⟨-, -, row, hrow, hnames⟩ := hend.2 email account hlookup horigin
  exact .inl ⟨row, hrow, hnames.imp_right fun h => h.2⟩

/-! ## An identity in upper case -/

namespace Spelling

/-- A UUID in lower case. -/
def lower : String := "0000000a-0000-4000-8000-000000000000"

/-- The same UUID in upper case. -/
def upper : String := "0000000A-0000-4000-8000-000000000000"

/-- The control plane hands the node the direct track. -/
def adopt : Step :=
  (.command { commandId := "adopt", type := .reconcileUsers, targetRevision := some 1
              payload := { users := .items [], controlMode := .mode .directPrimary } } {}, [])

/-- Enables the user under this UUID. -/
def ensure (uuid : String) (fates : List Fate) : Step :=
  (.command { commandId := "ensure", type := .ensureUser, targetRevision := some 2
              payload := { bindingId := "b", email := "b@x", uuid
                           quotaRemainingBytes := some (some 9) } } {}, fates)

/-- Removes the user. -/
def remove : Step :=
  (.command { commandId := "remove", type := .removeUser, targetRevision := some 3
              payload := { bindingId := "b" } } {}, [])

end Spelling

open Spelling in
/-- The process dies after Xray installed the account and before the claim is written, and
another one starts: the intent names the account. -/
theorem installed_accounts_are_named_crashed :
    let w := World.run {} {} [adopt, ensure lower (List.replicate 10 .run ++ [.die]),
      (.restart "second", [])]
    w.xray.accounts.lookup "b@x" = some ⟨lower, "", .agent⟩ ∧
      w.store.recognises "b@x" lower := by
  have hlower : Canonical lower := by
    have hspelled : canonicalUUID lower = some lower := by decide +kernel
    intro id hid
    exact Option.some.inj (hid.symm.trans hspelled)
  have hlive : (World.run {} {} [adopt, ensure lower (List.replicate 10 .run ++ [.die]),
      (.restart "second", [])]).xray.accounts.lookup "b@x" = some ⟨lower, "", .agent⟩ := by
    decide +kernel
  refine ⟨hlive, installed_accounts_are_named rfl (fun _ _ h => by cases h) _ ?_ "b@x" _ hlive rfl⟩
  intro step hstep
  simp only [List.mem_cons, List.not_mem_nil, or_false] at hstep
  rcases hstep with rfl | rfl | rfl
  · exact ⟨fun h => absurd rfl h, fun payloads payload hitems hmem => by cases hitems; cases hmem⟩
  · exact ⟨fun _ => hlower, fun payloads payload hitems => by cases hitems⟩
  · trivial

open Spelling in
/-- The identity is recorded in upper case and reported in lower case.  The removal of the
user takes the account for a foreign one, leaves it running, and forgets the row. -/
theorem upper_case_is_orphaned :
    let w := World.run {} {} [adopt, ensure upper [], remove]
    w.xray.accounts.lookup "b@x" = some ⟨lower, "", .agent⟩ ∧
      ¬w.store.recognises "b@x" lower := by
  decide +kernel

end ChordV.Agent
