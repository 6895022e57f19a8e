import ChordV.Agent.Xray

/-!
# What the adapter does to the inbound

One specification for each call of the adapter.  A call is described by the worlds it
can leave behind, whichever way it ends, so the callers never look into it again.

* `liveAt_liveUsers` reads the account list as a lookup.
* `Removed` and `removeUser_spec` are the removal of one account.
* `Installed` and `ensureUser_spec` are the installation of one account.  An
  installation that replaces an account removes it first, so a stop in the middle
  leaves the address empty.

The installs of the log are what the statements about reinstalled accounts count.
-/

namespace ChordV.Agent

open Lib

/-! ## The account list -/

/-- An account as the list reports it. -/
def Account.toLive (email : String) (account : Account) : LiveUser :=
  { email, uuid := account.uuid, flow := account.flow }

@[simp] theorem Account.toLive_email (email : String) (account : Account) :
    (account.toLive email).email = email := rfl

@[simp] theorem Account.toLive_uuid (email : String) (account : Account) :
    (account.toLive email).uuid = account.uuid := rfl

theorem Xray.mem_liveUsers {x : Xray} {user : LiveUser} :
    user ∈ x.liveUsers ↔
      ∃ account, x.accounts.lookup user.email = some account ∧
        account.toLive user.email = user := by
  unfold Xray.liveUsers
  rw [List.mem_insertionSort, List.mem_map]
  constructor
  · rintro ⟨⟨email, account⟩, hmem, rfl⟩
    exact ⟨account, Table.mem_pairs.1 hmem, rfl⟩
  · rintro ⟨account, hlookup, heq⟩
    exact ⟨(user.email, account), Table.mem_pairs.2 hlookup, heq⟩

/-- A search of the list by address is a lookup. -/
theorem Xray.find?_liveUsers (x : Xray) (email : String) :
    x.liveUsers.find? (·.email = email) = (x.accounts.lookup email).map (·.toLive email) := by
  cases hfind : x.liveUsers.find? (·.email = email) with
  | none =>
    cases hlookup : x.accounts.lookup email with
    | none => rfl
    | some account =>
      have hmem : account.toLive email ∈ x.liveUsers := mem_liveUsers.2 ⟨account, hlookup, rfl⟩
      have := List.find?_eq_none.1 hfind _ hmem
      simp at this
  | some user =>
    have hemail : user.email = email := by simpa using List.find?_some hfind
    obtain ⟨account, hlookup, heq⟩ := mem_liveUsers.1 (List.mem_of_find?_eq_some hfind)
    subst hemail
    rw [hlookup, Option.map_some, heq]

/-! ## The installs of the log -/

/-- The event is an installation. -/
def XrayEvent.isAdded : XrayEvent → Bool
  | .added .. => true
  | .removed .. => false

/-- The installations the agent made, in order. -/
def Xray.installs (x : Xray) : List XrayEvent := x.log.filter XrayEvent.isAdded

@[simp] theorem Xray.installs_remove (x : Xray) (email : String) :
    (x.remove email).installs = x.installs := by
  unfold Xray.remove
  cases x.accounts.lookup email with
  | none => rfl
  | some account => simp [installs, XrayEvent.isAdded]

@[simp] theorem Xray.installs_add (x : Xray) (user : DesiredUser) (uuid : String) :
    (x.add user uuid).installs = x.installs ++ [.added user.bindingId user.email uuid] := by
  simp [installs, add, XrayEvent.isAdded]

theorem Xray.lookup_remove (x : Xray) (email email' : String) :
    (x.remove email).accounts.lookup email' =
      if email' = email then none else x.accounts.lookup email' := by
  unfold Xray.remove
  cases h : x.accounts.lookup email with
  | none =>
    by_cases heq : email' = email
    · rw [if_pos heq, heq]
      exact h
    · rw [if_neg heq]
  | some account => exact Table.lookup_erase_ite _ _ _

theorem Xray.lookup_add (x : Xray) (user : DesiredUser) (uuid email : String) :
    (x.add user uuid).accounts.lookup email =
      if email = user.email then some ⟨uuid, user.flow, .agent⟩ else x.accounts.lookup email :=
  Table.lookup_insert_ite _ _ _ _

namespace Adapter

variable {P : World → Prop} {email : String} {expect : Expectation}

/-! ## Reading -/

theorem listUsers_spec :
    Triple P listUsers (fun live w => P w ∧ live = w.xray.liveUsers) P := by
  refine Triple.atomic ?_ fun _ hw => hw
  intro w live w' hw hrun
  split at hrun
  · cases hrun
    exact ⟨⟨hw, rfl⟩, hw⟩
  · cases hrun

theorem uniqueCounterEmails_spec {emails : List String} :
    Triple P (uniqueCounterEmails emails) (fun _ => P) P := by
  refine Triple.atomic ?_ fun _ hw => hw
  intro w a w' hw hrun
  split at hrun
  · cases hrun
  · cases hrun
    exact ⟨hw, hw⟩

theorem uniqueIdentity_spec {deps : Deps} {id : String} :
    Triple P (uniqueIdentity deps email id) (fun _ => P) P := by
  refine Triple.bind listUsers_spec fun users => ?_
  refine Triple.bind (Triple.ensure fun _ hw => hw.1) fun _ => ?_
  exact (Triple.ensure fun _ hw => hw.2.1).post fun _ _ hw => hw.2.2.1

/-- What the account found at an address tells about the inbound. -/
def Found (email : String) (w : World) : Option LiveUser → Prop
  | none => w.xray.accounts.lookup email = none
  | some user =>
    ∃ account, w.xray.accounts.lookup email = some account ∧ user = account.toLive email

theorem observed_spec :
    Triple P (observed email expect) (fun found w => P w ∧ Found email w found) P := by
  refine Triple.bind listUsers_spec fun users => ?_
  split
  · next hnone =>
    refine Triple.pure fun w hw => ⟨hw.1, ?_⟩
    cases hlookup : w.xray.accounts.lookup email with
    | none => exact hlookup
    | some account =>
      have hmem : account.toLive email ∈ users :=
        hw.2 ▸ Xray.mem_liveUsers.2 ⟨account, hlookup, rfl⟩
      have := List.find?_eq_none.1 hnone _ hmem
      simp [equalFold_refl] at this
  · next user hsome =>
    refine Triple.ite (fun _ => Triple.fail fun _ hw => hw.1) fun hemail => ?_
    refine Triple.ite (fun _ => Triple.fail fun _ hw => hw.1) fun _ => ?_
    refine Triple.pure fun w hw => ⟨hw.1, ?_⟩
    have hmem : user ∈ w.xray.liveUsers := hw.2 ▸ List.mem_of_find?_eq_some hsome
    obtain ⟨account, hlookup, heq⟩ := Xray.mem_liveUsers.1 hmem
    obtain rfl : email = user.email := by simpa using hemail
    exact ⟨account, hlookup, heq.symm⟩

/-! ## Removing -/

/-- The worlds that a removal of one account can leave behind. -/
def Removed (email : String) (w₀ w : World) : Prop :=
  w = w₀ ∨ w = { w₀ with xray := w₀.xray.remove email }

/-- A removal that returns has left the address empty. -/
theorem removeUser_spec (w₀ : World) :
    Triple (fun w => w = w₀) (removeUser email expect)
      (fun _ w => Removed email w₀ w ∧ w.xray.accounts.lookup email = none)
      (Removed email w₀) := by
  refine Triple.bind (Triple.ensure fun _ hw => .inl hw) fun _ => Triple.lift fun _ => ?_
  refine Triple.bind (observed_spec.conseq (fun _ hw => hw) (fun _ _ hw => hw)
    fun _ hw => Or.inl hw) fun found => ?_
  cases found with
  | none => exact Triple.pure fun w hw => ⟨.inl hw.1, hw.2⟩
  | some user =>
    refine Triple.atomic ?_ fun _ hw => .inl hw.1
    rintro w a w' ⟨rfl, -⟩ hrun
    cases hrun
    refine ⟨⟨.inr rfl, ?_⟩, .inr rfl⟩
    simp [Xray.lookup_remove]

/-! ## Installing -/

/-- The worlds that an installation can leave behind: only the inbound changed, only at
the address of the user, and the account there is the old one, none, or the new one. -/
structure Installed (user : DesiredUser) (w₀ w : World) : Prop where
  store : w.store = w₀.store
  runner : w.runner = w₀.runner
  others : ∀ email, email ≠ user.email →
    w.xray.accounts.lookup email = w₀.xray.accounts.lookup email
  here : w.xray.accounts.lookup user.email = w₀.xray.accounts.lookup user.email ∨
    w.xray.accounts.lookup user.email = none ∨
    ∃ id, canonicalUUID user.uuid = some id ∧
      w.xray.accounts.lookup user.email = some ⟨id, user.flow, .agent⟩
  installs : w.xray.installs = w₀.xray.installs ∨
    ∃ id, w.xray.installs = w₀.xray.installs ++ [.added user.bindingId user.email id]

namespace Installed

variable {user : DesiredUser} {w₀ w : World}

theorem refl : Installed user w₀ w₀ :=
  { store := rfl, runner := rfl, others := fun _ _ => rfl, here := .inl rfl, installs := .inl rfl }

theorem of_removed (h : Removed user.email w₀ w) : Installed user w₀ w := by
  rcases h with rfl | rfl
  · exact refl
  · exact {
      store := rfl
      runner := rfl
      others := fun e he => by simp [Xray.lookup_remove, he]
      here := .inr (.inl (by simp [Xray.lookup_remove]))
      installs := .inl (by simp) }

theorem of_removed_add {id : String} (h : Removed user.email w₀ w)
    (hid : canonicalUUID user.uuid = some id) :
    Installed user w₀ { w with xray := w.xray.add user id } := by
  have hr := of_removed h
  refine {
    store := hr.store
    runner := hr.runner
    others := fun e he => by simpa [Xray.lookup_add, he] using hr.others e he
    here := .inr (.inr ⟨id, hid, by simp [Xray.lookup_add]⟩)
    installs := .inr ⟨id, ?_⟩ }
  rcases h with rfl | rfl <;> simp

end Installed

/-- The address carries the identity of the user. -/
def Carries (user : DesiredUser) (w : World) : Prop :=
  ∃ id account, canonicalUUID user.uuid = some id ∧
    w.xray.accounts.lookup user.email = some account ∧ account.uuid = id

/-- The last two calls of an installation. -/
private theorem addAbsent_spec {user : DesiredUser} {id : String} {w₀ : World}
    (hid : canonicalUUID user.uuid = some id) :
    Triple (Removed user.email w₀)
      (do let _ ← observed user.email { absent := true }; alterInbound (Xray.add user id))
      (fun _ w => Installed user w₀ w ∧ Carries user w) (Installed user w₀) := by
  refine Triple.bind (observed_spec.conseq (fun _ hw => hw) (fun _ _ hw => hw.1)
    fun _ hw => .of_removed hw) fun _ => ?_
  refine Triple.atomic ?_ fun _ hw => .of_removed hw
  intro w a w' hw hrun
  cases hrun
  refine ⟨⟨.of_removed_add hw hid, id, ⟨id, user.flow, .agent⟩, hid, ?_, rfl⟩,
    .of_removed_add hw hid⟩
  simp [Xray.lookup_add]

/-- An installation that returns has left the identity of the user at the address. -/
theorem ensureUser_spec {deps : Deps} {user : DesiredUser} (w₀ : World) :
    Triple (fun w => w = w₀) (ensureUser deps user expect)
      (fun _ w => Installed user w₀ w ∧ Carries user w) (Installed user w₀) := by
  have hrefl : ∀ w, w = w₀ → Installed user w₀ w := by
    rintro w rfl
    exact .refl
  refine Triple.bind (Triple.ensure hrefl) fun _ => Triple.lift fun _ => ?_
  split
  · exact Triple.fail hrefl
  · next id hid =>
    refine Triple.bind (Triple.ensure hrefl) fun _ => Triple.lift fun _ => ?_
    refine Triple.bind (uniqueCounterEmails_spec.conseq (fun _ hw => hw) (fun _ _ hw => hw) hrefl)
      fun _ => ?_
    refine Triple.bind (observed_spec.conseq (fun _ hw => hw) (fun _ _ hw => hw) hrefl)
      fun existing => ?_
    refine Triple.bind (uniqueIdentity_spec.conseq (fun _ hw => hw) (fun _ _ hw => hw)
      fun w hw => hrefl w hw.1) fun _ => ?_
    cases existing with
    | none => exact (addAbsent_spec hid).pre fun w hw => .inl hw.1
    | some found =>
      refine Triple.ite (fun hsame => Triple.pure ?_) fun _ => ?_
      · rintro w ⟨rfl, account, hlookup, rfl⟩
        exact ⟨.refl, id, account, hid, hlookup, of_decide_eq_true (Bool.and_eq_true_iff.1 hsame).1⟩
      · refine Triple.bind (S := fun _ => Removed user.email w₀) ?_ fun _ => addAbsent_spec hid
        exact (removeUser_spec w₀).conseq (fun _ hw => hw.1) (fun _ _ hw => hw.1)
          fun _ hw => .of_removed hw

end Adapter

end ChordV.Agent
