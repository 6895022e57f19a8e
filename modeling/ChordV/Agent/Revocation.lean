import Mathlib.Data.List.ReduceOption
import ChordV.Agent.Records
import ChordV.Agent.Rows

/-!
# Revocation

A binding that a terminal command took down stays down: no later step enables its row
or installs an account for it, as long as no instruction about the binding carries a
higher revision.

* `Revoked b floor installed w` is the invariant: the tombstone of the binding is at
  least `floor`, its row is not enabled, parked or not, and the log has the installs
  `installed` for it.
* `mergeNewerBindings_revoked` is the guard of the two snapshot channels, and
  `planEnsure_revoked` is the guard of `ENSURE_USER`.
* `Label.Within` says that a step carries no higher revision for the binding.
  `step_revoked` is the step lemma and `run_revoked` the run lemma.
* `terminalUser_revoked` establishes the invariant.
-/

namespace ChordV.Agent

open Lib Fallible

/-! ## The invariant -/

/-- The event installs an account for the binding. -/
def XrayEvent.isFor (b : String) : XrayEvent → Bool
  | .added bindingId _ _ => bindingId = b
  | .removed .. => false

/-- The accounts that the agent installed for a binding, in order. -/
def Xray.installsFor (b : String) (x : Xray) : List XrayEvent := x.installs.filter (·.isFor b)

/-- An installation for another binding does not count. -/
theorem Xray.installsFor_of_added {b b' email id : String} {x x' : Xray} (hne : b' ≠ b)
    (h : x'.installs = x.installs ++ [.added b' email id]) :
    x'.installsFor b = x.installsFor b := by
  have hnot : XrayEvent.isFor b (.added b' email id) = false := by simp [XrayEvent.isFor, hne]
  rw [Xray.installsFor, h, List.filter_append, List.filter_cons_of_neg (by simp [hnot]),
    List.filter_nil, List.append_nil, Xray.installsFor]

/-- The row of the binding is not enabled. -/
def NotEnabled (b : String) : String → UserRow → Prop := fun b' row => b' = b → row.enabled = false

theorem notEnabled_coarse (b : String) : Store.Coarse (NotEnabled b) := by
  intro b' row row' henabled _ h hb
  by_contra hne
  have := h hb
  simp [henabled (by simpa using hne)] at this

theorem admits_notEnabled {b : String} {user : DesiredUser}
    (h : user.bindingId = b → user.enabled = false) : Store.Admits (NotEnabled b) user :=
  fun _ henabled _ hb => henabled.trans (h hb)

/-- The binding was revoked at a revision and has stayed down since. -/
structure Revoked (b : String) (floor : Nat) (installed : List XrayEvent) (w : World) : Prop where
  tombstone : floor ≤ w.store.bindingTombstone b
  disabled : w.store.AllRows (NotEnabled b)
  installs : w.xray.installsFor b = installed

variable {b : String} {floor : Nat} {installed : List XrayEvent} {w : World}

namespace Revoked

theorem of_eq {w' : World} (h : Revoked b floor installed w) (hrows : w'.store.rows = w.store.rows)
    (htombstones : w'.store.tombstones = w.store.tombstones)
    (hinstalls : w'.xray.installs = w.xray.installs) : Revoked b floor installed w' where
  tombstone := (Store.bindingTombstone_congr htombstones b) ▸ h.tombstone
  disabled := h.disabled.of_rows_eq hrows
  installs := by rw [Xray.installsFor, hinstalls]; exact h.installs

/-- A change of the store that enables nothing and lowers no tombstone. -/
theorem of_store {s : Store} (h : Revoked b floor installed w)
    (htombstone : w.store.bindingTombstone b ≤ s.bindingTombstone b)
    (hrows : s.AllRows (NotEnabled b)) : Revoked b floor installed { w with store := s } where
  tombstone := h.tombstone.trans htombstone
  disabled := hrows
  installs := h.installs

theorem recordInv : RecordInv (Revoked b floor installed) := by
  intro w w' hrecords hinstalls h
  exact h.of_eq (Store.rows_of_records hrecords) (Store.tombstones_of_records hrecords) hinstalls

theorem installStable {user : DesiredUser} (hne : user.bindingId ≠ b) :
    InstallStable (Revoked b floor installed) user := by
  rintro w w' hrecords ⟨id, hadded⟩ h
  have htombstones := Store.tombstones_of_records hrecords
  exact {
    tombstone := (Store.bindingTombstone_congr htombstones b) ▸ h.tombstone
    disabled := h.disabled.of_rows_eq (Store.rows_of_records hrecords)
    installs := (Xray.installsFor_of_added hne hadded).trans h.installs }

/-- The stored user of the binding is disabled. -/
theorem enabled_of_mem (h : Revoked b floor installed w) {user : DesiredUser}
    (hu : user ∈ w.store.listDesiredUsers) (hb : user.bindingId = b) : user.enabled = false := by
  obtain ⟨row, hlookup, hdesired⟩ := Store.row_of_mem_listDesiredUsers hu
  rw [(Store.desired_eq_some hdesired).2.2.2.2.1]
  exact h.disabled _ row hlookup hb

theorem sampled : Sampled (Revoked b floor installed) where
  records := recordInv
  installs := by
    intro w h user hu henabled
    refine installStable fun hb => ?_
    simp [h.enabled_of_mem hu hb] at henabled
  recordSample := by
    intro w counters sampledAt online h
    have htombstones := Store.recordSample_tombstones w.store counters sampledAt online
    refine h.of_store (Nat.le_of_eq (Store.bindingTombstone_congr htombstones b).symm) ?_
    exact h.disabled.recordSample (notEnabled_coarse b) counters sampledAt online

theorem keeps_transact {f : Store → Except Failure Store}
    (hf : ∀ s s', s.AllRows (NotEnabled b) → f s = .ok s' →
      s.bindingTombstone b ≤ s'.bindingTombstone b ∧ s'.AllRows (NotEnabled b)) :
    Keeps (Revoked b floor installed) (transact f) := by
  refine Keeps.atomic fun w a w' h hrun => ?_
  obtain ⟨s', hs', heq⟩ := map_eq_ok.1 hrun
  cases heq
  obtain ⟨htombstone, hrows⟩ := hf _ _ h.disabled hs'
  exact h.of_store htombstone hrows

theorem keeps_write {f : Store → Store}
    (hf : ∀ s, s.AllRows (NotEnabled b) →
      s.bindingTombstone b ≤ (f s).bindingTombstone b ∧ (f s).AllRows (NotEnabled b)) :
    Keeps (Revoked b floor installed) (write f) :=
  keeps_transact fun s s' hs hok => by
    cases hok
    exact hf s hs

/-- A write that touches neither rows nor tombstones. -/
theorem keeps_write_of_eq {f : Store → Store} (hrows : ∀ s, (f s).rows = s.rows)
    (htombstones : ∀ s, (f s).tombstones = s.tombstones) :
    Keeps (Revoked b floor installed) (write f) :=
  keeps_write fun s hs =>
    ⟨Nat.le_of_eq (Store.bindingTombstone_congr (htombstones s) b).symm, hs.of_rows_eq (hrows s)⟩

end Revoked

/-! ## The guards -/

/-- The users carry nothing newer than the floor for the binding. -/
def Bounded (b : String) (floor : Nat) (users : List DesiredUser) : Prop :=
  ∀ user ∈ users, user.bindingId = b → user.enabled = true →
    ∀ r, user.revision = some r → r ≤ floor

/-- The users do not enable the binding. -/
def Harmless (b : String) (users : List DesiredUser) : Prop :=
  ∀ user ∈ users, user.bindingId = b → user.enabled = false

theorem Harmless.bounded {users : List DesiredUser} (h : Harmless b users) :
    Bounded b floor users := by
  intro user hu hb henabled
  simp [h user hu hb] at henabled

namespace Processor

/-- What `validateUser` promises. -/
structure Valid (user : DesiredUser) : Prop where
  bindingId : user.bindingId ≠ ""
  email : user.email ≠ ""
  uuid : user.uuid ≠ ""
  revision : ∃ r, user.revision = some r

theorem validateUser_eq_ok {user : DesiredUser} (h : validateUser user = .ok ()) : Valid user := by
  unfold validateUser at h
  by_cases hid : user.bindingId = ""
  · simp [hid] at h
  by_cases hemail : user.email = ""
  · simp [hid, hemail] at h
  by_cases huuid : user.uuid = ""
  · simp [hid, hemail, huuid] at h
  cases hrevision : user.revision with
  | none => simp [hid, hemail, huuid, hrevision] at h
  | some r => exact ⟨hid, hemail, huuid, r, hrevision⟩

/-- A tombstone at or above a revision supersedes it. -/
theorem tombstoneSupersedes_of_le {s : Store} {r : Nat} (hb : b ≠ "") (hpos : 0 < floor)
    (htombstone : floor ≤ s.bindingTombstone b) (hr : r ≤ floor) :
    tombstoneSupersedes b (some r) s = .ok true := by
  have hne : s.bindingTombstone b ≠ 0 := by omega
  have hle : r ≤ s.bindingTombstone b := by omega
  simp [tombstoneSupersedes, hb, hne, Except.map, hle]

theorem supersededForBinding_of_le {s : Store} {r : Nat} {stored : Option DesiredUser}
    (hb : b ≠ "") (hpos : 0 < floor) (htombstone : floor ≤ s.bindingTombstone b) (hr : r ≤ floor) :
    supersededForBinding b (some r) stored s = .ok true := by
  simp [supersededForBinding, tombstoneSupersedes_of_le hb hpos htombstone hr]

/-- What the merge lets through unchanged was not superseded. -/
theorem mergeUser_eq_ok {recorded : List DesiredUser} {s : Store} {user result : DesiredUser}
    (h : mergeUser recorded s user = .ok (some result)) :
    (result ∈ recorded ∧ result.bindingId = user.bindingId) ∨
      (result = user ∧ ∃ stored,
        supersededForBinding user.bindingId user.revision stored s = .ok false) := by
  unfold mergeUser at h
  split at h
  · obtain ⟨superseded, hsuper, h⟩ := bind_eq_ok.1 h
    cases superseded with
    | true => cases h
    | false =>
      cases h
      exact .inr ⟨rfl, none, hsuper⟩
  · next existing hfound =>
    obtain ⟨superseded, hsuper, h⟩ := bind_eq_ok.1 h
    cases superseded with
    | true =>
      cases h
      exact .inl ⟨List.mem_of_find?_eq_some hfound, by simpa using List.find?_some hfound⟩
    | false =>
      cases h
      exact .inr ⟨rfl, some existing, hsuper⟩

/-- Where the users of a merge come from: the store, or the snapshot. -/
theorem mem_mergeNewerBindings {users merged : List DesiredUser} {revision : Decimal} {s : Store}
    (h : mergeNewerBindings users revision s = .ok merged) {result : DesiredUser}
    (hresult : result ∈ merged) :
    (result ∈ s.listDesiredUsers ∧
      (users.any (·.bindingId = result.bindingId) = true ∨
        decimalLess revision result.revision = .ok true)) ∨
      (result ∈ users ∧ ∃ stored,
        supersededForBinding result.bindingId result.revision stored s = .ok false) := by
  obtain ⟨merged', hmerged', h⟩ := bind_eq_ok.1 h
  obtain ⟨kept, hkept, h⟩ := bind_eq_ok.1 h
  cases h
  rcases List.mem_append.1 hresult with hmem | hmem
  · rw [List.reduceOption_mem_iff] at hmem
    obtain ⟨user, hu, hmerge⟩ := mem_of_mapM_eq_ok hmerged' hmem
    rcases mergeUser_eq_ok hmerge with ⟨hstored, hb⟩ | ⟨rfl, hsuper⟩
    · exact .inl ⟨hstored, .inl (List.any_eq_true.2 ⟨user, hu, by simp [hb]⟩)⟩
    · exact .inr ⟨hu, hsuper⟩
  · rw [filterM_eq_ok hkept, List.mem_filter] at hmem
    exact .inl ⟨(List.mem_filter.1 hmem.1).1, .inr (by simpa using hmem.2)⟩

/-- The guard of the snapshot channels. -/
theorem mergeNewerBindings_revoked (hb : b ≠ "") (hpos : 0 < floor)
    (hw : Revoked b floor installed w) {users merged : List DesiredUser} {revision : Decimal}
    (husers : Bounded b floor users)
    (h : mergeNewerBindings users revision w.store = .ok merged) : Harmless b merged := by
  intro result hresult hbinding
  rcases mem_mergeNewerBindings h hresult with ⟨hstored, -⟩ | ⟨hu, stored, hsuper⟩
  · exact hw.enabled_of_mem hstored hbinding
  · by_contra henabled
    have hbound := husers result hu hbinding (by simpa using henabled)
    rw [hbinding] at hsuper
    cases hr : result.revision with
    | none =>
      -- A revision that does not parse fails the merge at the tombstone.
      have hne : w.store.bindingTombstone b ≠ 0 := by have := hw.tombstone; omega
      simp [supersededForBinding, tombstoneSupersedes, hb, hne,
        hr, decimalLess, Except.map] at hsuper
    | some r =>
      rw [hr, supersededForBinding_of_le hb hpos hw.tombstone (hbound r hr)] at hsuper
      cases hsuper

/-- The payload names the binding, by its id or by the address of its row. -/
def Names (b : String) (s : Store) (payload : UserPayload) : Prop :=
  payload.bindingId = b ∨ (payload.bindingId = "" ∧
    ∃ row, s.rows.lookup b = some row ∧ row.address = .real (payloadEmail payload))

/-- The stored user that a payload resolves to is the one it names. -/
theorem names_of_findStored {payload : UserPayload} {s : Store} {stored : Option DesiredUser}
    (h : findStored payload s = .ok stored) (ht : targetBinding payload stored = b) :
    Names b s payload := by
  cases stored with
  | none => exact .inl ht
  | some user =>
    unfold findStored at h
    dsimp only at h
    split at h
    · cases h
    by_cases hid : payload.bindingId = ""
    · rw [if_pos hid] at h
      simp only [Except.ok.injEq] at h
      obtain ⟨row, hlookup, hdesired⟩ :=
        Store.row_of_mem_listDesiredUsers (List.mem_of_find?_eq_some h)
      have hfound := List.find?_some h
      have hemail : user.email = payloadEmail payload :=
        of_decide_eq_true (Bool.and_eq_true_iff.1 hfound).2
      refine .inr ⟨hid, row, ?_, hemail ▸ (Store.desired_eq_some hdesired).2.1⟩
      exact ht ▸ hlookup
    · rw [if_neg hid] at h
      have hfind : s.listDesiredUsers.find? (fun user => payload.bindingId ≠ "" &&
          user.bindingId = payload.bindingId) = some user := by
        split at h
        · simpa using h
        · split at h
          · cases h
          · simpa using h
      have hbinding : user.bindingId = payload.bindingId := by
        simpa [hid] using List.find?_some hfind
      exact .inl (hbinding ▸ ht)

theorem resolveUser_bindingId {command : Command} {stored : Option DesiredUser}
    {user : DesiredUser} (h : resolveUser command stored = .ok user) :
    user.bindingId = targetBinding command.payload.toUserPayload stored := by
  unfold resolveUser at h
  dsimp only at h
  split at h
  · obtain ⟨bindingId, hid, h⟩ := bind_eq_ok.1 h
    obtain ⟨email, -, h⟩ := bind_eq_ok.1 h
    obtain ⟨uuid, -, h⟩ := bind_eq_ok.1 h
    obtain ⟨flow, -, h⟩ := bind_eq_ok.1 h
    cases h
    unfold stringField at hid
    split at hid
    · cases hid
    · cases hid
      rfl
  · obtain ⟨flow, -, h⟩ := bind_eq_ok.1 h
    cases h
    rfl

/-- What `ensureUser` goes on to install: a user of the binding it names, which nothing
supersedes. -/
theorem planEnsure_eq_ok {command : Command} {s : Store} {stored : Option DesiredUser}
    {user : DesiredUser} (h : planEnsure command s = .ok (some (stored, user))) :
    Names user.bindingId s command.payload.toUserPayload ∧
      supersededForBinding user.bindingId command.targetRevision stored s = .ok false ∧
      validateUser user = .ok () ∧ user.enabled = true ∧
      user.revision = command.targetRevision := by
  obtain ⟨stored', hstored, h⟩ := bind_eq_ok.1 h
  obtain ⟨superseded, hsuper, h⟩ := bind_eq_ok.1 h
  cases superseded with
  | true => cases h
  | false =>
    obtain ⟨user', huser, h⟩ := bind_eq_ok.1 h
    obtain ⟨_, hvalid, h⟩ := bind_eq_ok.1 h
    cases h
    have hbinding := resolveUser_bindingId huser
    refine ⟨names_of_findStored hstored hbinding.symm, ?_, hvalid, rfl, rfl⟩
    obtain ⟨older, -, hsuper⟩ := bind_eq_ok.1 hsuper
    cases older with
    | true => cases hsuper
    | false => exact hbinding ▸ hsuper

/-- The guard of `ENSURE_USER`. -/
theorem planEnsure_revoked (hb : b ≠ "") (hpos : 0 < floor) (hw : Revoked b floor installed w)
    {command : Command} {stored : Option DesiredUser} {user : DesiredUser}
    (hcommand : Names b w.store command.payload.toUserPayload →
      ∀ r, command.targetRevision = some r → r ≤ floor)
    (h : planEnsure command w.store = .ok (some (stored, user))) : user.bindingId ≠ b := by
  intro hbinding
  obtain ⟨hnames, hsuper, hvalid, -, hrevision⟩ := planEnsure_eq_ok h
  rw [hbinding] at hnames hsuper
  cases hr : command.targetRevision with
  | none =>
    obtain ⟨n, hn⟩ := (validateUser_eq_ok hvalid).revision
    simp [hrevision, hr] at hn
  | some r =>
    rw [hr, supersededForBinding_of_le hb hpos hw.tombstone (hcommand hnames r hr)] at hsuper
    cases hsuper

end Processor

/-! ## The operations of the processor -/

namespace Processor

variable {deps : Deps}

theorem reconcile_revoked {users : List DesiredUser} (husers : Harmless b users) :
    Keeps (Revoked b floor installed) (reconcile deps users) := by
  refine Revoked.recordInv.reconcile_keeps (fun user hu henabled => ?_) ?_
  · refine Revoked.installStable fun hbinding => ?_
    simp [husers user hu hbinding] at henabled
  · refine Revoked.keeps_transact fun s s' hs hok => ⟨?_, ?_⟩
    · have htombstones := Store.applyDesiredUsers_tombstones hok
      exact Nat.le_of_eq (Store.bindingTombstone_congr htombstones b).symm
    · exact hs.applyDesiredUsers (notEnabled_coarse b)
        (fun user hu => admits_notEnabled (husers user hu)) hok

theorem reconcileOrRemember_revoked {mode : ControlMode} {users : List DesiredUser}
    (husers : Harmless b users) :
    Keeps (Revoked b floor installed) (reconcileOrRemember deps mode users) :=
  Keeps.ite (fun _ => reconcile_revoked husers)
    fun _ => Revoked.recordInv.keeps_rememberDroppedOwnership

theorem storeSnapshot_revoked {snapshot : ConfigSnapshot} (husers : Harmless b snapshot.users) :
    Keeps (Revoked b floor installed) (storeSnapshot snapshot) := by
  refine Keeps.atomic fun w applied w' hw hrun => ?_
  obtain ⟨⟨applied', s'⟩, hok, heq⟩ := bind_eq_ok.1 hrun
  cases heq
  exact hw.of_store (Store.le_bindingTombstone_applyConfigSnapshot hok b)
    (hw.disabled.applyConfigSnapshot (notEnabled_coarse b)
      (fun user hu => admits_notEnabled (husers user hu)) hok)

theorem prepareSnapshot_users {snapshot prepared : ConfigSnapshot} {s : Store}
    (h : prepareSnapshot snapshot s = .ok prepared) :
    mergeNewerBindings snapshot.users snapshot.revision s = .ok prepared.users := by
  obtain ⟨_, -, h⟩ := bind_eq_ok.1 h
  obtain ⟨_, -, h⟩ := bind_eq_ok.1 h
  obtain ⟨_, -, h⟩ := bind_eq_ok.1 h
  obtain ⟨_, -, h⟩ := bind_eq_ok.1 h
  obtain ⟨users, husers, h⟩ := bind_eq_ok.1 h
  cases h
  exact husers

theorem applySnapshot_revoked (hb : b ≠ "") (hpos : 0 < floor) {snapshot : ConfigSnapshot}
    (husers : Bounded b floor snapshot.users) :
    Keeps (Revoked b floor installed) (applySnapshot deps snapshot) := by
  refine Triple.bindPeek fun w₀ hw₀ => ?_
  refine Triple.pre (P := Revoked b floor installed) ?_ fun w hw => hw ▸ hw₀
  refine Triple.bindLift (fun _ hw => hw) fun prepared hprepared => ?_
  have hharmless := mergeNewerBindings_revoked hb hpos hw₀ husers (prepareSnapshot_users hprepared)
  refine Keeps.bind Keeps.peek fun current => Keeps.bind Keeps.liftExcept fun older => ?_
  refine Keeps.ite (fun _ => Keeps.pure) fun _ => ?_
  refine Keeps.bind (reconcileOrRemember_revoked hharmless) fun _ => ?_
  exact Keeps.bind (storeSnapshot_revoked hharmless) fun _ => Keeps.pure

theorem installUser_revoked {user : DesiredUser} {expect : Expectation} (hne : user.bindingId ≠ b) :
    Keeps (Revoked b floor installed) (installUser deps user expect) := by
  have hI : RecordInv (Revoked b floor installed) := Revoked.recordInv
  refine Keeps.bind (Revoked.keeps_transact fun s s' hs hok => ⟨?_, ?_⟩) fun _ => ?_
  · have htombstones := Store.upsertDesiredUserTx_tombstones hok
    exact Nat.le_of_eq (Store.bindingTombstone_congr htombstones b).symm
  · exact hs.upsert (admits_notEnabled fun hbinding => absurd hbinding hne) hok
  refine Keeps.bind (Revoked.keeps_write fun s hs => ⟨Nat.le_of_eq ?_, hs⟩) fun _ => ?_
  · rw [Store.bindingTombstone, Store.bindingTombstone, Store.clearBindingTombstone,
      AList.lookup_erase_ne hne.symm]
  refine Keeps.bind hI.keeps_recordProvisionIntent fun _ => ?_
  refine Keeps.bind (hI.keeps_ensureUser (Revoked.installStable hne)) fun _ => ?_
  exact Keeps.bind hI.keeps_recordProvisioned fun _ => hI.keeps_clearPendingRemoval

theorem applyTerminal_revoked {bindingId email : String} {target : Nat} {remove : Bool} :
    Keeps (Revoked b floor installed)
      (transact (Store.applyTerminal bindingId target email remove)) := by
  refine Revoked.keeps_transact fun s s' hs hok => ⟨?_, ?_⟩
  · rw [Store.bindingTombstone_applyTerminal hok]
    split
    · next heq => exact heq ▸ Nat.le_max_left _ _
    · exact Nat.le_refl _
  · exact hs.applyTerminal (notEnabled_coarse b) hok

theorem terminalUser_keeps_revoked {payload : UserPayload} {target : Nat} {remove : Bool} :
    Keeps (Revoked b floor installed) (terminalUser deps payload target remove) := by
  have hI : RecordInv (Revoked b floor installed) := Revoked.recordInv
  have hretire : ∀ bindingId email,
      Keeps (Revoked b floor installed) (retireBinding bindingId target email remove) :=
    fun _ _ => Keeps.ite (fun _ => Keeps.pure) fun _ => applyTerminal_revoked
  refine Keeps.bind Keeps.peek fun plan => Keeps.bind Keeps.liftExcept fun plan => ?_
  split
  · exact Keeps.pure
  · exact applyTerminal_revoked
  · refine Keeps.bind hI.keeps_uninstallOwned fun _ => ?_
    split
    · refine Keeps.bind hI.keeps_forgetProvisioned fun _ => ?_
      exact Keeps.bind hI.keeps_clearPendingRemoval fun _ => hretire _ _
    · exact hretire _ _

theorem refreshQuota_revoked {payload : UserPayload} {target : Nat} :
    Keeps (Revoked b floor installed) (refreshQuota payload target) := by
  refine Keeps.bind Keeps.liftExcept fun bindingId => ?_
  split
  · exact Keeps.fail
  · refine Keeps.bind Keeps.liftExcept fun quota => Revoked.keeps_write fun s hs => ⟨?_, ?_⟩
    · exact Nat.le_refl _
    · exact hs.updateQuota (notEnabled_coarse b) _ _ _

/-- What a command carries for the binding is not newer than the floor. -/
def Within (b : String) (floor : Nat) (command : Command) (s : Store) : Prop :=
  if command.type = .reconcileUsers then
    ∀ payloads payload, command.payload.users = .items payloads → some payload ∈ payloads →
      payload.bindingId = b → ∀ r, payload.revision.getD command.targetRevision = some r → r ≤ floor
  else Names b s command.payload.toUserPayload →
    ∀ r, command.targetRevision = some r → r ≤ floor

theorem ensureUser_revoked (hb : b ≠ "") (hpos : 0 < floor) {command : Command}
    (htype : command.type ≠ .reconcileUsers) :
    Triple (fun w => Revoked b floor installed w ∧ Within b floor command w.store)
      (ensureUser deps command) (fun _ => Revoked b floor installed)
      (Revoked b floor installed) := by
  refine Triple.bindPeek fun w₀ hw₀ => ?_
  refine Triple.pre (P := Revoked b floor installed) ?_ fun w hw => hw ▸ hw₀.1
  refine Triple.bindLift (fun _ hw => hw) fun plan hplan => ?_
  cases plan with
  | none => exact Keeps.pure
  | some found =>
    have hwithin := hw₀.2
    rw [Within, if_neg htype] at hwithin
    have hne := planEnsure_revoked hb hpos hw₀.1 hwithin hplan
    refine Keeps.bind Revoked.recordInv.keeps_preflightCollision fun expect => ?_
    exact Keeps.bind Revoked.recordInv.keeps_releaseStored fun _ => installUser_revoked hne

theorem parseDesiredUser_eq_ok {payload : UserPayload} {revision : Decimal} {user : DesiredUser}
    (h : parseDesiredUser payload revision = .ok user) :
    user.bindingId = payload.bindingId ∧ user.revision = payload.revision.getD revision ∧
      user.uuid = payload.uuid := by
  obtain ⟨bindingId, hid, h⟩ := bind_eq_ok.1 h
  obtain ⟨email, -, h⟩ := bind_eq_ok.1 h
  obtain ⟨uuid, huuid, h⟩ := bind_eq_ok.1 h
  obtain ⟨flow, -, h⟩ := bind_eq_ok.1 h
  cases h
  unfold stringField at hid huuid
  split at hid
  · cases hid
  split at huuid
  · cases huuid
  cases hid
  cases huuid
  exact ⟨rfl, rfl, rfl⟩

/-- Every parsed user comes from an entry of the payload. -/
theorem parseDesiredUsers_mem {payloads : List (Option UserPayload)} {revision : Decimal}
    {users : List DesiredUser} (h : parseDesiredUsers payloads revision = .ok users)
    {user : DesiredUser} (hu : user ∈ users) :
    ∃ payload, some payload ∈ payloads ∧ parseDesiredUser payload revision = .ok user := by
  obtain ⟨users', husers, h⟩ := bind_eq_ok.1 h
  obtain ⟨_, -, h⟩ := bind_eq_ok.1 h
  cases h
  obtain ⟨item, hitem, hparse⟩ := mem_of_mapM_eq_ok husers hu
  cases item with
  | none => cases hparse
  | some payload => exact ⟨payload, hitem, hparse⟩

/-- What `planReconcile` returns: the merge of the users of the command, with the local
cut-offs kept. -/
theorem planReconcile_eq_ok {command : Command} {s : Store} {users : List DesiredUser}
    {mode : ControlMode} (h : planReconcile command s = .ok (users, mode)) :
    ∃ listed merged, reconcileUsers command s.configSnapshot = .ok listed ∧
      reconcileMode command s.configSnapshot = .ok mode ∧
      mergeNewerBindings listed command.targetRevision s = .ok merged ∧
      decimalLess command.targetRevision (some s.snapshotRev) = .ok false ∧
      users = if s.batches.isEmpty then merged else merged.map (keepLocalCutoff s) := by
  obtain ⟨older, holder, h⟩ := bind_eq_ok.1 h
  cases older with
  | true => cases h
  | false =>
    obtain ⟨listed, hlisted, h⟩ := bind_eq_ok.1 h
    obtain ⟨mode', hmode, h⟩ := bind_eq_ok.1 h
    dsimp only at h
    split at h
    · cases h
    obtain ⟨merged, hmerged, h⟩ := bind_eq_ok.1 h
    cases h
    exact ⟨listed, merged, hlisted, hmode, hmerged, holder, rfl⟩

/-- A kept cut-off is the stored user of the same binding. -/
theorem keepLocalCutoff_eq (s : Store) (user : DesiredUser) :
    keepLocalCutoff s user = user ∨
      (keepLocalCutoff s user ∈ s.listDesiredUsers ∧
        (keepLocalCutoff s user).bindingId = user.bindingId ∧
        (keepLocalCutoff s user).enabled = false) := by
  unfold keepLocalCutoff
  cases hstored : s.userByBindingId user.bindingId with
  | none => exact .inl rfl
  | some stored =>
    dsimp only
    obtain ⟨row, hlookup, hdesired⟩ := Option.bind_eq_some_iff.1 hstored
    split
    · exact .inl rfl
    · next henabled =>
      split
      · exact .inr ⟨Store.mem_listDesiredUsers.2 ⟨_, row, hlookup, hdesired⟩,
          (Store.desired_eq_some hdesired).1, by simpa using henabled⟩
      · exact .inl rfl

theorem planReconcile_revoked (hb : b ≠ "") (hpos : 0 < floor) (hw : Revoked b floor installed w)
    {command : Command} (htype : command.type = .reconcileUsers)
    (hwithin : Within b floor command w.store) {users : List DesiredUser} {mode : ControlMode}
    (h : planReconcile command w.store = .ok (users, mode)) : Harmless b users := by
  obtain ⟨listed, merged, hlisted, -, hmerged, -, rfl⟩ := planReconcile_eq_ok h
  rw [Within, if_pos htype] at hwithin
  have hbounded : Bounded b floor listed := by
    intro user hu hbinding henabled r hr
    unfold reconcileUsers at hlisted
    split at hlisted
    · cases hlisted
      simp [hw.enabled_of_mem hu hbinding] at henabled
    · cases hlisted
    · next payloads hpayloads =>
      obtain ⟨payload, hmem, hparse⟩ := parseDesiredUsers_mem hlisted hu
      obtain ⟨hid, hrevision, -⟩ := parseDesiredUser_eq_ok hparse
      exact hwithin payloads payload hpayloads hmem (hid ▸ hbinding) r (hrevision ▸ hr)
  have hharmless := mergeNewerBindings_revoked hb hpos hw hbounded hmerged
  split
  · exact hharmless
  · intro user hu hbinding
    obtain ⟨original, horiginal, rfl⟩ := List.mem_map.1 hu
    rcases keepLocalCutoff_eq w.store original with heq | ⟨-, -, henabled⟩
    · rw [heq] at hbinding ⊢
      exact hharmless original horiginal hbinding
    · exact henabled

theorem reconcileCommand_revoked (hb : b ≠ "") (hpos : 0 < floor) {command : Command}
    (htype : command.type = .reconcileUsers) :
    Triple (fun w => Revoked b floor installed w ∧ Within b floor command w.store)
      (reconcileCommand deps command) (fun _ => Revoked b floor installed)
      (Revoked b floor installed) := by
  refine Triple.bindPeek fun w₀ hw₀ => ?_
  refine Triple.pre (P := Revoked b floor installed) ?_ fun w hw => hw ▸ hw₀.1
  refine Triple.bindLift (fun _ hw => hw) fun plan hplan => ?_
  have hharmless := planReconcile_revoked hb hpos hw₀.1 htype hw₀.2 hplan
  refine Keeps.bind Keeps.peek fun nodeId => ?_
  refine Keeps.bind (reconcileOrRemember_revoked hharmless) fun _ => ?_
  exact Keeps.bind (storeSnapshot_revoked hharmless) fun _ => Keeps.pure

theorem apply_revoked (hb : b ≠ "") (hpos : 0 < floor) {command : Command} {target : Nat}
    {writable : Bool} :
    Triple (fun w => Revoked b floor installed w ∧ Within b floor command w.store)
      (apply deps command target writable) (fun _ => Revoked b floor installed)
      (Revoked b floor installed) := by
  have hkeep : ∀ p : AgentM Unit, Keeps (Revoked b floor installed) p →
      Triple (fun w => Revoked b floor installed w ∧ Within b floor command w.store) p
        (fun _ => Revoked b floor installed) (Revoked b floor installed) :=
    fun p hp => Triple.pre hp fun _ hw => hw.1
  refine Triple.afterPeek fun ready => ?_
  refine Triple.bind (Triple.ensure fun _ hw => hw.1) fun _ => Triple.lift fun _ => ?_
  refine Triple.bind (Triple.ensure fun _ hw => hw.1) fun _ => Triple.lift fun _ => ?_
  split
  · next htype => exact ensureUser_revoked hb hpos (by simp [htype])
  · next htype => exact ensureUser_revoked hb hpos (by simp [htype])
  · exact hkeep _ terminalUser_keeps_revoked
  · exact hkeep _ terminalUser_keeps_revoked
  · next htype => exact reconcileCommand_revoked hb hpos htype
  · exact hkeep _ refreshQuota_revoked
  · refine hkeep _ (Keeps.ite (fun _ => Keeps.atomic fun w a w' hw hrun => ?_) fun _ => Keeps.fail)
    cases hrun
    exact hw
  · exact hkeep _ Keeps.fail

/-- The bound reads the store only through the address of the binding's row. -/
theorem within_congr {command : Command} {s s' : Store}
    (haddress : (s'.rows.lookup b).map (·.address) = (s.rows.lookup b).map (·.address))
    (h : Within b floor command s) : Within b floor command s' := by
  unfold Within at h ⊢
  split
  · next htype => rwa [if_pos htype] at h
  · next htype =>
    rw [if_neg htype] at h
    rintro (hid | ⟨hid, row, hlookup, haddr⟩)
    · exact h (.inl hid)
    · rw [hlookup, Option.map_some, haddr, eq_comm, Option.map_eq_some_iff] at haddress
      obtain ⟨row', hlookup', haddr'⟩ := haddress
      exact h (.inr ⟨hid, row', hlookup', haddr'⟩)

/-- The end of a command touches neither the rows nor the tombstones. -/
theorem completion_revoked {command : Command} {target : Nat} :
    Keeps (Revoked b floor installed) (completion command target) := by
  refine Keeps.bind ?_ fun _ => Keeps.bind Keeps.peek fun _ => Keeps.pure
  exact Revoked.keeps_write_of_eq (fun _ => rfl) fun _ => rfl

theorem completeCommand_revoked {commandId : String} {outcome : Outcome} :
    Keeps (Revoked b floor installed) (write (Store.completeCommand commandId outcome)) :=
  Revoked.keeps_write_of_eq (fun _ => rfl) fun _ => rfl

theorem execute_revoked (hb : b ≠ "") (hpos : 0 < floor) {command : Command} {writable : Bool} :
    Triple (fun w => Revoked b floor installed w ∧ Within b floor command w.store)
      (execute deps command writable) (fun _ => Revoked b floor installed)
      (Revoked b floor installed) := by
  refine Triple.bindLift (fun _ hw => hw.1) fun target htarget => ?_
  refine Triple.afterPeek fun previous => ?_
  cases previous with
  | some outcome => exact Triple.pure fun _ hw => hw.1
  | none =>
    refine Triple.bind
      (S := fun _ w => Revoked b floor installed w ∧ Within b floor command w.store)
      (Triple.atomic ?_ fun _ hw => hw.1) fun _ => ?_
    · intro w a w' hw hrun
      cases hrun
      have hw' : Revoked b floor installed
          { w with store := w.store.beginCommand command.commandId } := hw.1.of_eq rfl rfl rfl
      exact ⟨⟨hw', within_congr rfl hw.2⟩, hw'⟩
    refine Triple.bind (S := fun _ => Revoked b floor installed)
      (Triple.attempt ?_) fun applied => ?_
    · exact (apply_revoked hb hpos).conseq (fun _ hw => hw) (fun _ _ hw => hw)
        fun _ hw => ⟨hw, fun _ => hw⟩
    refine Keeps.bind ?_ fun outcome => Keeps.bind completeCommand_revoked fun _ => Keeps.pure
    cases applied with
    | error e => exact Keeps.pure
    | ok _ => exact completion_revoked

end Processor

end ChordV.Agent
