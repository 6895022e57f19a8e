import ChordV.Agent.Handoff
import ChordV.Agent.Snapshots

/-!
# Merging a snapshot with the stored rows

* `Merged` is the merge of a list, user by user: what each user becomes, and which stored users
  are added.
* `mergeNewerBindings_again` says that a merged list merges to itself, and
  `applySnapshot_prepared` that a snapshot may be prepared before it is applied.
* `merge_keeps_the_newer` puts together what a merge yields.
-/

namespace ChordV.Agent

open Lib Fallible

/-! ## The stored users -/

namespace Store

variable {s : Store}

theorem nodup_bindings (s : Store) : (s.listDesiredUsers.map (·.bindingId)).Nodup := by
  have hsorted : (s.listDesiredUsers.map (·.bindingId)).Perm
      ((s.rows.pairs.filterMap fun p => desired p.1 p.2).map (·.bindingId)) :=
    (List.perm_insertionSort _ _).map _
  refine hsorted.nodup_iff.2 (List.Nodup.sublist ?_ s.rows.nodup_keys)
  generalize s.rows.pairs = pairs
  induction pairs with
  | nil => exact .slnil
  | cons p pairs ih =>
    rw [List.filterMap_cons, List.map_cons]
    cases hdesired : desired p.1 p.2 with
    | none => exact ih.cons _
    | some user =>
      have hb := (desired_eq_some hdesired).1
      rw [List.map_cons, hb]
      exact ih.cons_cons _

theorem userByBindingId_of_mem {user : DesiredUser} (h : user ∈ s.listDesiredUsers) :
    s.userByBindingId user.bindingId = some user := by
  obtain ⟨row, hrow, hdesired⟩ := row_of_mem_listDesiredUsers h
  unfold userByBindingId
  rw [hrow]
  exact hdesired

theorem mem_of_userByBindingId {b : String} {user : DesiredUser}
    (h : s.userByBindingId b = some user) : user ∈ s.listDesiredUsers ∧ user.bindingId = b := by
  obtain ⟨row, hrow, hdesired⟩ := Option.bind_eq_some_iff.1 h
  exact ⟨mem_listDesiredUsers.2 ⟨b, row, hrow, hdesired⟩, (desired_eq_some hdesired).1⟩

end Store

namespace Processor

variable {s : Store} {user result : DesiredUser} {users merged : List DesiredUser}
  {revision : Decimal}

/-! ## The parts of a merge -/

/-- Everything the merge makes of one user. -/
theorem mergeUser_cases {r : Option DesiredUser}
    (h : mergeUser s.listDesiredUsers s user = .ok r) : ∃ superseded,
      supersededForBinding user.bindingId user.revision (s.userByBindingId user.bindingId) s =
        .ok superseded ∧
      r = if superseded then s.userByBindingId user.bindingId else some user := by
  unfold mergeUser at h
  rw [Store.find?_listDesiredUsers] at h
  cases hheld : s.userByBindingId user.bindingId with
  | none =>
    rw [hheld] at h
    obtain ⟨superseded, hsuper, h⟩ := bind_eq_ok.1 h
    refine ⟨superseded, hsuper, ?_⟩
    cases superseded <;> cases h <;> rfl
  | some held =>
    rw [hheld] at h
    obtain ⟨superseded, hsuper, h⟩ := bind_eq_ok.1 h
    refine ⟨superseded, hsuper, ?_⟩
    cases superseded <;> cases h <;> rfl

/-- The list of a merge: what each user became, and the stored users that were added. -/
structure Merged (users : List DesiredUser) (revision : Decimal) (s : Store)
    (carried : List (Option DesiredUser)) (kept : List DesiredUser) : Prop where
  outputs : List.Forall₂ (fun user r => mergeUser s.listDesiredUsers s user = .ok r) users carried
  mem_kept : ∀ user, user ∈ kept ↔ user ∈ s.listDesiredUsers ∧
    Store.omittedBy users user.bindingId = true ∧ decimalLess revision user.revision = .ok true
  tested : ∀ user ∈ s.listDesiredUsers, Store.omittedBy users user.bindingId = true →
    ∃ newer, decimalLess revision user.revision = .ok newer
  sublist : kept.Sublist s.listDesiredUsers

theorem mergeNewerBindings_cases (hok : mergeNewerBindings users revision s = .ok merged) :
    ∃ carried kept, merged = carried.reduceOption ++ kept ∧
      Merged users revision s carried kept := by
  obtain ⟨carried, hcarried, hok⟩ := bind_eq_ok.1 hok
  obtain ⟨kept, hkept, hok⟩ := bind_eq_ok.1 hok
  cases hok
  refine ⟨carried, kept, rfl, mapM_eq_ok hcarried, fun user => ?_, fun user hmem homitted => ?_, ?_⟩
  · rw [filterM_eq_ok hkept, List.mem_filter, List.mem_filter, accepted_eq_true, and_assoc]
    rfl
  · exact filterM_tested hkept (List.mem_filter.2 ⟨hmem, homitted⟩)
  · rw [filterM_eq_ok hkept]
    exact List.filter_sublist.trans List.filter_sublist

theorem mergeUser_bindingId (h : mergeUser s.listDesiredUsers s user = .ok (some result)) :
    result.bindingId = user.bindingId := by
  rcases mergeUser_eq_ok h with ⟨-, hb⟩ | ⟨rfl, -⟩
  · exact hb
  · rfl

/-- The merge does not change a user that it yields. -/
theorem mergeUser_again (h : mergeUser s.listDesiredUsers s user = .ok (some result)) :
    mergeUser s.listDesiredUsers s result = .ok (some result) := by
  obtain ⟨superseded, -, hresult⟩ := mergeUser_cases h
  cases superseded with
  | true =>
    have hheld : s.userByBindingId user.bindingId = some result := hresult.symm
    exact mergeUser_of_stored ((Store.mem_of_userByBindingId hheld).2 ▸ hheld)
  | false =>
    obtain rfl : result = user := Option.some.inj hresult
    exact h

namespace Merged

variable {carried : List (Option DesiredUser)} {kept : List DesiredUser}

theorem of_mem (h : Merged users revision s carried kept)
    (hmem : result ∈ carried.reduceOption ++ kept) :
    (∃ user ∈ users, mergeUser s.listDesiredUsers s user = .ok (some result)) ∨ result ∈ kept := by
  refine (List.mem_append.1 hmem).imp_left fun hcarried => ?_
  have hmem' := List.reduceOption_mem_iff.1 hcarried
  have hpairs := h.outputs
  clear hmem hcarried h
  induction hpairs with
  | nil => cases hmem'
  | cons hhead _ ih =>
    rcases List.mem_cons.1 hmem' with rfl | hmem'
    · exact ⟨_, List.mem_cons_self, hhead⟩
    · obtain ⟨user, hu, hmerge⟩ := ih hmem'
      exact ⟨user, List.mem_cons_of_mem _ hu, hmerge⟩

/-- Every user has an output. -/
theorem exists_output (h : Merged users revision s carried kept) (hu : user ∈ users) :
    ∃ r ∈ carried, mergeUser s.listDesiredUsers s user = .ok r := by
  have hpairs := h.outputs
  clear h
  induction hpairs with
  | nil => cases hu
  | @cons _ r _ _ hhead _ ih =>
    rcases List.mem_cons.1 hu with rfl | hu
    · exact ⟨r, List.mem_cons_self, hhead⟩
    · obtain ⟨r', hr', hmerge⟩ := ih hu
      exact ⟨r', List.mem_cons_of_mem _ hr', hmerge⟩

/-- Each binding of the merged list is named once. -/
theorem nodup_bindings (h : Merged users revision s carried kept)
    (hbindings : (users.map (·.bindingId)).Nodup) :
    ((carried.reduceOption ++ kept).map (·.bindingId)).Nodup := by
  have hsublist : (carried.reduceOption.map (·.bindingId)).Sublist (users.map (·.bindingId)) := by
    have hpairs := h.outputs
    clear h hbindings
    induction hpairs with
    | nil => exact .slnil
    | @cons user r _ _ hhead _ ih =>
      cases r with
      | none => exact ih.cons _
      | some result =>
        rw [List.reduceOption_cons_of_some, List.map_cons, List.map_cons, mergeUser_bindingId hhead]
        exact ih.cons_cons _
  rw [List.map_append, List.nodup_append]
  refine ⟨hbindings.sublist hsublist, s.nodup_bindings.sublist (h.sublist.map _), ?_⟩
  intro b hb b' hb' heq
  obtain ⟨user, hu, rfl⟩ := List.mem_map.1 (hsublist.subset hb)
  obtain ⟨held, hheld, rfl⟩ := List.mem_map.1 hb'
  have homitted := ((h.mem_kept held).1 hheld).2.1
  rw [← heq, Store.not_omittedBy hu] at homitted
  cases homitted

/-- What the merged list omits is not newer than the snapshot. -/
theorem omitted (h : Merged users revision s carried kept) {held : DesiredUser}
    (hheld : held ∈ s.listDesiredUsers)
    (homitted : Store.omittedBy (carried.reduceOption ++ kept) held.bindingId = true) :
    decimalLess revision held.revision = .ok false := by
  have hnot : ∀ other ∈ carried.reduceOption ++ kept, other.bindingId ≠ held.bindingId := by
    simpa only [Store.omittedBy, Bool.not_eq_true', List.any_eq_false, decide_eq_true_eq]
      using homitted
  by_cases hnamed : Store.omittedBy users held.bindingId = true
  · obtain ⟨newer, hnewer⟩ := h.tested held hheld hnamed
    cases newer with
    | false => exact hnewer
    | true =>
      have hkept := (h.mem_kept held).2 ⟨hheld, hnamed, hnewer⟩
      exact absurd rfl (hnot held (List.mem_append_right _ hkept))
  · -- The list names the binding, so the merge yields the stored user or the one of the list.
    obtain ⟨user, hu, hb⟩ : ∃ user ∈ users, user.bindingId = held.bindingId := by
      simpa [Store.omittedBy] using hnamed
    obtain ⟨r, hr, hmerge⟩ := h.exists_output hu
    obtain ⟨superseded, -, houtput⟩ := mergeUser_cases hmerge
    rw [hb, Store.userByBindingId_of_mem hheld] at houtput
    obtain ⟨result, rfl⟩ : ∃ result, r = some result := by
      rw [houtput]
      cases superseded <;> exact ⟨_, rfl⟩
    have hmem := List.mem_append_left kept (List.reduceOption_mem_iff.2 hr)
    exact absurd ((mergeUser_bindingId hmerge).trans hb) (hnot result hmem)

end Merged

/-- A merged list merges to itself. -/
theorem mergeNewerBindings_again (hok : mergeNewerBindings users revision s = .ok merged) :
    mergeNewerBindings merged revision s = .ok merged := by
  obtain ⟨carried, kept, rfl, h⟩ := mergeNewerBindings_cases hok
  have hsame : ∀ user ∈ carried.reduceOption ++ kept,
      mergeUser s.listDesiredUsers s user = .ok (some user) := by
    intro user hmem
    rcases h.of_mem hmem with ⟨original, -, hmerge⟩ | hkept
    · exact mergeUser_again hmerge
    · exact mergeUser_of_stored (Store.userByBindingId_of_mem ((h.mem_kept user).1 hkept).1)
  have hnone : ∀ held ∈ s.listDesiredUsers.filter
      fun user => !(carried.reduceOption ++ kept).any (·.bindingId = user.bindingId),
      decimalLess revision held.revision = .ok ((fun _ => false) held) := by
    intro held hheld
    obtain ⟨hmem, homitted⟩ := List.mem_filter.1 hheld
    exact h.omitted hmem homitted
  unfold mergeNewerBindings
  dsimp only
  rw [mapM_of_ok hsame, ok_bind, filterM_of_ok hnone, ok_bind, List.filter_false]
  simp [List.reduceOption]

/-! ## What a merge yields -/

/-- A record of the merged list is not older than the stored user of its binding. -/
theorem le_of_mem_merged (hok : mergeNewerBindings users revision s = .ok merged)
    (hmem : result ∈ merged) {held : DesiredUser}
    (hheld : s.userByBindingId result.bindingId = some held) :
    decimalLess result.revision held.revision = .ok false := by
  obtain ⟨row, -, hdesired⟩ := Option.bind_eq_some_iff.1 hheld
  have hrevision := (Store.desired_matches hdesired).revision
  have hsame : result = held → decimalLess result.revision held.revision = .ok false := by
    rintro rfl
    simp [hrevision]
  obtain ⟨carried, kept, rfl, h⟩ := mergeNewerBindings_cases hok
  rcases h.of_mem hmem with ⟨user, -, hmerge⟩ | hkept
  · obtain ⟨superseded, hsuper, hresult⟩ := mergeUser_cases hmerge
    have hb := mergeUser_bindingId hmerge
    cases superseded with
    | true => exact hsame (Option.some.inj (hresult.trans (hb ▸ hheld)))
    | false =>
      obtain rfl : result = user := Option.some.inj hresult
      rw [hheld] at hsuper
      obtain ⟨closed, -, hsuper⟩ := bind_eq_ok.1 hsuper
      cases closed with
      | true => cases hsuper
      | false =>
        obtain ⟨older, holder, hsuper⟩ := bind_eq_ok.1 hsuper
        cases older with
        | true => cases hsuper
        | false => exact holder
  · have hstored := Store.userByBindingId_of_mem ((h.mem_kept result).1 hkept).1
    exact hsame (Option.some.inj (hstored.symm.trans hheld))

/-- A record at or below the tombstone of its binding, or at or below a disabled stored user. -/
def Closed (s : Store) (b : String) (revision : Nat) : Prop :=
  (s.bindingTombstone b ≠ 0 ∧ revision ≤ s.bindingTombstone b) ∨
    ∃ held n, s.userByBindingId b = some held ∧ held.enabled = false ∧ held.revision = some n ∧
      revision ≤ n

theorem Closed.superseded {b : String} {n : Nat} (h : Closed s b n) (hb : b ≠ "") :
    supersededForBinding b (some n) (s.userByBindingId b) s = .ok true := by
  rcases h with ⟨hpos, hle⟩ | ⟨held, m, hheld, hdisabled, hm, hle⟩
  · exact supersededForBinding_of_le hb (by omega) (Nat.le_refl _) hle
  · rw [hheld]
    unfold supersededForBinding tombstoneSupersedes
    rcases Nat.lt_or_eq_of_le hle with hlt | rfl
    · by_cases hnone : b = "" ∨ s.bindingTombstone b = 0
      · simp [hnone, hm, hlt]
      · by_cases hfloor : s.bindingTombstone b < n
        · simp [hnone, hfloor, hm, hlt, Except.map]
        · simp [hnone, hfloor, Except.map]
    · by_cases hnone : b = "" ∨ s.bindingTombstone b = 0
      · simp [hnone, hm, hdisabled]
      · by_cases hfloor : s.bindingTombstone b < n
        · simp [hnone, hfloor, hm, hdisabled, Except.map]
        · simp [hnone, hfloor, Except.map]

/-- For a closed record the merge yields the stored user of the binding or nothing. -/
theorem closed_of_mem_merged (hok : mergeNewerBindings users revision s = .ok merged)
    (hbindings : (users.map (·.bindingId)).Nodup) (hu : user ∈ users) (hb : user.bindingId ≠ "")
    {n : Nat} (hrevision : user.revision = some n) (hclosed : Closed s user.bindingId n)
    (hmem : result ∈ merged) (hsame : result.bindingId = user.bindingId) :
    s.userByBindingId user.bindingId = some result := by
  obtain ⟨carried, kept, rfl, h⟩ := mergeNewerBindings_cases hok
  rcases h.of_mem hmem with ⟨other, hother, hmerge⟩ | hkept
  · have hbinding := (mergeUser_bindingId hmerge).symm.trans hsame
    obtain rfl : other = user := List.inj_on_of_nodup_map hbindings hother hu hbinding
    obtain ⟨superseded, hsuper, hresult⟩ := mergeUser_cases hmerge
    rw [hrevision, hclosed.superseded hb] at hsuper
    cases hsuper
    exact hresult.symm
  · have homitted := ((h.mem_kept result).1 hkept).2.1
    rw [hsame, Store.not_omittedBy hu] at homitted
    cases homitted

/-- Where a record of the merged list comes from. -/
theorem origin_of_mem_merged (hok : mergeNewerBindings users revision s = .ok merged)
    (hmem : result ∈ merged) : result ∈ users ∨ result ∈ s.listDesiredUsers :=
  (mem_mergeNewerBindings hok hmem).elim (fun h => .inr h.1) fun h => .inl h.1

/-- Two records at one address are a record of the snapshot and a stored one. -/
theorem shared_of_mem_merged (hok : mergeNewerBindings users revision s = .ok merged)
    (hemails : (users.map (·.email)).Nodup) (hone : s.OneHolder) {other : DesiredUser}
    (hmem : result ∈ merged) (hother : other ∈ merged) (hemail : result.email = other.email)
    (hne : result ≠ other) : (result ∈ users ∧ other ∈ s.listDesiredUsers) ∨
      (other ∈ users ∧ result ∈ s.listDesiredUsers) := by
  rcases origin_of_mem_merged hok hmem, origin_of_mem_merged hok hother with
    ⟨hu | hs, hu' | hs'⟩
  · exact absurd (List.inj_on_of_nodup_map hemails hu hu' hemail) hne
  · exact .inl ⟨hu, hs'⟩
  · exact .inr ⟨hu', hs⟩
  · -- The column is unique, so two stored users at one address are one.
    obtain ⟨row, hrow, hdesired⟩ := Store.row_of_mem_listDesiredUsers hs
    obtain ⟨row', hrow', hdesired'⟩ := Store.row_of_mem_listDesiredUsers hs'
    have haddress := (Store.desired_eq_some hdesired).2.1
    have haddress' := (Store.desired_eq_some hdesired').2.1
    rw [← hemail] at haddress'
    have hb := hone _ _ _ _ _ hrow hrow' haddress haddress'
    rw [hb, hrow'] at hrow
    cases hrow
    rw [hb, hdesired'] at hdesired
    exact absurd (Option.some.inj hdesired).symm hne

/-- A list with an address twice is refused before anything happens. -/
theorem reconcile_refuses (deps : Deps) (hshared : ¬(users.map (·.email)).Nodup) {w : World}
    (hready : w.xray.inboundReady = true) (fates : List Fate) :
    ∃ e, reconcile deps users ⟨w, fates⟩ = .error (.err e) ⟨w, fates⟩ := by
  cases hdistinct : distinctBindings users with
  | ok _ => exact absurd (distinctBindings_nodup hdistinct).2 hshared
  | error e =>
    refine ⟨e, ?_⟩
    unfold reconcile
    rw [Prog.bind_ok (Prog.peek_ok hready), hdistinct]
    rfl

/-! ## Preparing a snapshot first -/

theorem prepareSnapshot_again {snapshot prepared : ConfigSnapshot}
    (hok : prepareSnapshot snapshot s = .ok prepared)
    (hdistinct : distinctBindings prepared.users = .ok ())
    (hflows : ∀ user ∈ prepared.users, user.flow = flowNone ∨ user.flow = flowVision) :
    prepareSnapshot prepared s = .ok prepared := by
  unfold prepareSnapshot at hok ⊢
  obtain ⟨_, hnode, hok⟩ := bind_eq_ok.1 hok
  obtain ⟨_, hrevision, hok⟩ := bind_eq_ok.1 hok
  obtain ⟨_, -, hok⟩ := bind_eq_ok.1 hok
  obtain ⟨_, -, hok⟩ := bind_eq_ok.1 hok
  obtain ⟨merged, hmerge, hok⟩ := bind_eq_ok.1 hok
  cases hok
  have hflowsOk : require (∀ user ∈ merged, user.flow = flowNone ∨ user.flow = flowVision)
      Failure.badFlow = .ok () := require_eq_ok.2 hflows
  rw [hnode, ok_bind, hrevision, ok_bind, hdistinct, ok_bind, hflowsOk, ok_bind,
    mergeNewerBindings_again hmerge]
  rfl

/-- A snapshot may be prepared before it is applied, if what it became passes the checks of a
snapshot. -/
theorem applySnapshot_prepared (deps : Deps) {snapshot prepared : ConfigSnapshot} {w : World}
    (hok : prepareSnapshot snapshot w.store = .ok prepared)
    (hdistinct : distinctBindings prepared.users = .ok ())
    (hflows : ∀ user ∈ prepared.users, user.flow = flowNone ∨ user.flow = flowVision)
    (fates : List Fate) :
    applySnapshot deps prepared ⟨w, fates⟩ = applySnapshot deps snapshot ⟨w, fates⟩ := by
  have hread : ∀ other : ConfigSnapshot, prepareSnapshot other w.store = .ok prepared →
      (readStore (prepareSnapshot other)) ⟨w, fates⟩ = .ok (.ok prepared) ⟨w, fates⟩ :=
    fun other hother => Prog.peek_ok hother
  unfold applySnapshot
  rw [Prog.bind_ok (hread prepared (prepareSnapshot_again hok hdistinct hflows)),
    Prog.bind_ok (hread snapshot hok)]

/-- What the merge of a list with distinct bindings yields.  No record is older than the stored user
of its binding.  For a closed record of the list it is the stored user or nothing, and a disabled
stored user stays disabled.  Each binding is named once.  An address can be named by a record of the
list and a stored one, and then the reconciliation refuses the whole list.  Merging again changes
nothing, so a snapshot that passes the checks may be prepared before it is applied. -/
theorem merge_keeps_the_newer (hbindings : (users.map (·.bindingId)).Nodup)
    (hok : mergeNewerBindings users revision s = .ok merged) :
    (∀ record ∈ merged, ∀ row email, s.rows.lookup record.bindingId = some row →
        row.address = .real email → ∃ n, record.revision = some n ∧ row.revision ≤ n) ∧
      (∀ user ∈ users, ∀ n, user.bindingId ≠ "" → user.revision = some n →
        Closed s user.bindingId n → ∀ record ∈ merged, record.bindingId = user.bindingId →
          s.userByBindingId user.bindingId = some record ∧ (record.enabled = true →
            s.bindingTombstone user.bindingId ≠ 0 ∧ n ≤ s.bindingTombstone user.bindingId)) ∧
      (merged.map (·.bindingId)).Nodup ∧
      (s.OneHolder → (users.map (·.email)).Nodup → ∀ record ∈ merged, ∀ other ∈ merged,
        record.email = other.email → record ≠ other →
          (record ∈ users ∧ other ∈ s.listDesiredUsers) ∨
            (other ∈ users ∧ record ∈ s.listDesiredUsers)) ∧
      (¬(merged.map (·.email)).Nodup → ∀ deps w fates, w.xray.inboundReady = true →
        ∃ e, reconcile deps merged ⟨w, fates⟩ = .error (.err e) ⟨w, fates⟩) ∧
      mergeNewerBindings merged revision s = .ok merged ∧
      ∀ deps snapshot prepared w fates, w.store = s → prepareSnapshot snapshot s = .ok prepared →
        distinctBindings prepared.users = .ok () →
        (∀ user ∈ prepared.users, user.flow = flowNone ∨ user.flow = flowVision) →
          applySnapshot deps prepared ⟨w, fates⟩ = applySnapshot deps snapshot ⟨w, fates⟩ := by
  refine ⟨?_, ?_, ?_, ?_, ?_, mergeNewerBindings_again hok, ?_⟩
  · intro record hmem row email hrow haddress
    obtain ⟨held, hdesired⟩ : ∃ held, Store.desired record.bindingId row = some held := by
      unfold Store.desired
      rw [haddress]
      exact ⟨_, rfl⟩
    have hheld : s.userByBindingId record.bindingId = some held := by
      unfold Store.userByBindingId
      rw [hrow]
      exact hdesired
    have hle := le_of_mem_merged hok hmem hheld
    rw [(Store.desired_matches hdesired).revision] at hle
    exact decimalLess_eq_false.1 hle
  · intro user hu n hb hrevision hclosed record hmem hsame
    have hheld := closed_of_mem_merged hok hbindings hu hb hrevision hclosed hmem hsame
    refine ⟨hheld, fun henabled => hclosed.resolve_right ?_⟩
    rintro ⟨held, m, hheld', hdisabled, -, -⟩
    obtain rfl := Option.some.inj (hheld.symm.trans hheld')
    rw [hdisabled] at henabled
    cases henabled
  · obtain ⟨carried, kept, rfl, h⟩ := mergeNewerBindings_cases hok
    exact h.nodup_bindings hbindings
  · exact fun hone hemails record hmem other hother =>
      shared_of_mem_merged hok hemails hone hmem hother
  · exact fun hshared deps w fates hready => reconcile_refuses deps hshared hready fates
  · rintro deps snapshot prepared w fates rfl hprepared hdistinct hflows
    exact applySnapshot_prepared deps hprepared hdistinct hflows fates

/-! ## Three merges -/

namespace MergeExample

/-- A user of a list. -/
def listed (bindingId email : String) (revision : Nat) : DesiredUser :=
  { bindingId, email, uuid := "u", revision := some revision, quotaRemainingBytes := some 9
    offlineAllowanceBytes := some (some 0) }

/-- An enabled row. -/
def row (address : Address) (revision : Nat) : UserRow :=
  { address, uuid := "u", flow := flowNone, enabled := true, revision
    quotaRemaining := 9, offlineAllowance := 0 }

/-- A store with a parked row. -/
def parked : Store := { rows := (∅ : Table String UserRow).insert "a" (row (.parked "x") 9) }

/-- A row whose revision is above its tombstone. -/
def above : Store :=
  { rows := (∅ : Table String UserRow).insert "a" (row (.real "x") 7)
    tombstones := (∅ : Table String Tombstone).insert "a" ⟨5, ""⟩ }

/-- The address is held by another binding. -/
def newer : Store := { rows := (∅ : Table String UserRow).insert "b" (row (.real "x") 9) }

end MergeExample

open MergeExample in
theorem merge_keeps_the_newer_added :
    mergeNewerBindings [listed "a" "x" 3, listed "b" "x" 9] (some 5) newer =
      .ok [listed "a" "x" 3, listed "b" "x" 9] :=
  (merge_keeps_the_newer (by decide : ([listed "a" "x" 3].map (·.bindingId)).Nodup)
    (by rfl : mergeNewerBindings [listed "a" "x" 3] (some 5) newer =
      .ok [listed "a" "x" 3, listed "b" "x" 9])).2.2.2.2.2.1

open MergeExample in
/-- A parked row is not read, the stored user wins over a closed record, and an address is named
twice. -/
theorem merge_yields_older_enabled_shared :
    (mergeNewerBindings [listed "a" "x" 3] (some 5) parked = .ok [listed "a" "x" 3] ∧
        (parked.rows.lookup "a").map (·.revision) = some 9) ∧
      (mergeNewerBindings [listed "a" "x" 4] (some 8) above = .ok [listed "a" "x" 7] ∧
        above.bindingTombstone "a" = 5) ∧
      mergeNewerBindings [listed "a" "x" 3] (some 5) newer =
        .ok [listed "a" "x" 3, listed "b" "x" 9] :=
  ⟨⟨by rfl, by decide⟩, ⟨by rfl, by decide⟩, by rfl⟩

end Processor

end ChordV.Agent
