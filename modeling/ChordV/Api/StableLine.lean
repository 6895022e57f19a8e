import ChordV.Api.ReleaseSteps

/-!
# Promotion keeps the stable line in order

* `Orderly` says of a step that it changes the channel of a published release only by
  promoting it, and that a release it promotes is above every other published stable release
  of its platform.
* `InLine` is the invariant.  A request that holds the line lock has checked something about
  the published line, and until it commits only withdrawals and deletions touch that line:
  `Effect.calm` for the steps without the lock, and the lock for the others.
* `stable_line_in_order` is the result for all runs.
-/

namespace ChordV.Api.Releases

open Lib Lib.Machine Versions

variable {s s' : Store} {e : Event}

/-! ## The property -/

/-- The event is the commit of a promotion that changes its release. -/
def Store.Promotes (s : Store) (e : Event) (releaseId : Nat) : Prop :=
  ∃ call now platform current verified release,
    e = .commit call now ∧
    s.calls.lookup call = some (.holding platform releaseId (.promote current) verified) ∧
    s.releases.lookup releaseId = some release ∧
    release.channel = .beta ∧ release.status = .published

/-- A step keeps the published line in order. -/
structure Orderly (s : Store) (e : Event) : Prop where
  channel : ∀ releaseId before after, s.releases.lookup releaseId = some before →
    (step s e).releases.lookup releaseId = some after → before.status = .published →
    after.channel ≠ before.channel →
    before.channel = .beta ∧ after.channel = .stable ∧ s.Promotes e releaseId
  highest : ∀ releaseId, s.Promotes e releaseId → ∃ promoted,
    (step s e).releases.lookup releaseId = some promoted ∧
    promoted.channel = .stable ∧ promoted.status = .published ∧
    ∀ otherId other, otherId ≠ releaseId → (step s e).releases.lookup otherId = some other →
      other.platform = promoted.platform → other.channel = .stable →
      other.status = .published →
      compareSemver promoted.version.1 other.version.1 = .ok .gt

/-! ## The invariant -/

/-- A task fits the release that it is for, as long as that is there. -/
def Store.TaskSound (s : Store) (releaseId : Nat) : Task → Prop
  | .edit data => ∀ release, s.releases.lookup releaseId = some release →
      data.MinimumBelow release.version
  | .promote current => ∀ release, s.releases.lookup releaseId = some release →
      release.version = current.version ∧ release.platform = current.platform

/-- What the check under the line lock has found is still so. -/
def Store.Checked (s : Store) (platform : Platform) (releaseId : Nat) : Task → Prop
  | .edit data => ∀ nextChannel, data.channel = some nextChannel → ∀ release,
      s.releases.lookup releaseId = some release →
      release.channel = nextChannel ∨ release.status = .draft
  | .promote current => ∀ otherId other, s.releases.lookup otherId = some other →
      other.platform = platform → other.channel = .stable → other.status = .published →
      precedence other.version.semver current.version.semver = .lt

/-- What holds of a request between two of its statements. -/
def Store.CallSound (s : Store) (call : Nat) : Call → Prop
  | .publishing releaseId data _ => releaseId < s.nextId ∧ s.TaskSound releaseId (.edit data)
  | .waiting releaseId task _ => releaseId < s.nextId ∧ s.TaskSound releaseId task
  | .holding platform releaseId task _ =>
    releaseId < s.nextId ∧ s.TaskSound releaseId task ∧
      s.lineLocks.lookup platform = some call ∧
      (∀ release, s.releases.lookup releaseId = some release → release.platform = platform) ∧
      s.Checked platform releaseId task
  | _ => True

/-- What holds between any two steps. -/
structure InLine (s : Store) : Prop where
  drawn : s.Drawn
  minimum : ∀ releaseId release, s.releases.lookup releaseId = some release →
    release.MinimumKept
  calls : ∀ call c, s.calls.lookup call = some c → s.CallSound call c

/-! ## What a step leaves of it -/

theorem Store.TaskSound.carry {releaseId : Nat} {task : Task} (h : s.TaskSound releaseId task)
    (hcarried : Carried s s') (hid : releaseId < s.nextId) : s'.TaskSound releaseId task := by
  cases task with
  | edit data =>
    intro release' hrow
    obtain ⟨release, hrow, -, hversion⟩ := hcarried.rows releaseId release' hrow hid
    exact hversion ▸ h release hrow
  | promote current =>
    intro release' hrow
    obtain ⟨release, hrow, hplatform, hversion⟩ := hcarried.rows releaseId release' hrow hid
    obtain ⟨hv, hp⟩ := h release hrow
    exact ⟨hversion.trans hv, hplatform.trans hp⟩

/-- On a platform, rows are new and unpublished, or as before, or withdrawn. -/
def Calm (s s' : Store) (platform : Platform) : Prop :=
  ∀ releaseId release', s'.releases.lookup releaseId = some release' →
    release'.platform = platform →
    (s.nextId ≤ releaseId ∧ release'.status ≠ .published) ∨
      ∃ release, s.releases.lookup releaseId = some release ∧
        release'.platform = release.platform ∧ release'.version = release.version ∧
        release'.channel = release.channel ∧
        (release'.status = release.status ∨ release'.status = .draft)

theorem Calm.of_eq {platform : Platform} (h : s'.releases = s.releases) : Calm s s' platform :=
  fun _ release' hrow _ => .inr ⟨release', h ▸ hrow, rfl, rfl, rfl, .inl rfl⟩

theorem Store.Checked.calm {platform : Platform} {releaseId : Nat} {task : Task}
    (h : s.Checked platform releaseId task) (hcalm : Calm s s' platform)
    (hid : releaseId < s.nextId)
    (hplatform : ∀ release, s'.releases.lookup releaseId = some release →
      release.platform = platform) : s'.Checked platform releaseId task := by
  cases task with
  | edit data =>
    intro nextChannel hnext release' hrow
    obtain ⟨hnew, -⟩ | ⟨release, hbefore, -, -, hchannel, hstatus⟩ :=
      hcalm releaseId release' hrow (hplatform release' hrow)
    · exact absurd hid (Nat.not_lt.2 hnew)
    · obtain hc | hdraft := h nextChannel hnext release hbefore
      · exact .inl (hchannel.trans hc)
      · exact .inr (hstatus.elim (fun heq => heq.trans hdraft) id)
  | promote current =>
    intro otherId other' hrow hp hstable hpublished
    obtain ⟨-, hnot⟩ | ⟨other, hbefore, hplatform, hversion, hchannel, hstatus⟩ :=
      hcalm otherId other' hrow hp
    · exact absurd hpublished hnot
    · have hbeforePublished : other.status = .published := by
        obtain heq | hdraft := hstatus
        · exact heq.symm.trans hpublished
        · exact absurd (hdraft.symm.trans hpublished) (by decide)
      exact hversion ▸ h otherId other hbefore (hplatform.symm.trans hp)
        (hchannel.symm.trans hstable) hbeforePublished

/-- Without the line lock of a platform, a step raises nothing on it. -/
theorem Effect.calm (h : Effect s e s') (hline : InLine s) (platform : Platform) :
    Calm s s' platform ∨ ∃ call releaseId task verified,
      s.calls.lookup call = some (.holding platform releaseId task verified) ∧
      s'.calls.lookup call = Option.none := by
  cases h with
  | none | opened | reopened | verified | ended | locked | aborted => exact .inl (.of_eq rfl)
  | wrote _ _ _ hwrite => exact .inl (.of_eq hwrite.releases)
  | created hstatus | createdWith _ hstatus =>
    refine .inl fun id release' hrow _ => ?_
    rw [Table.lookup_insert_ite] at hrow
    split_ifs at hrow with hid
    · obtain rfl := Option.some.inj hrow
      exact .inl ⟨hid.ge, hstatus⟩
    · exact .inr ⟨release', hrow, rfl, rfl, rfl, .inl rfl⟩
  | @committed call now releaseId platform' task verified he hcall =>
    by_cases hsame : platform' = platform
    · exact .inr ⟨call, releaseId, task, verified, hsame ▸ hcall, AList.lookup_erase _ _⟩
    · refine .inl fun id release' hrow hp => ?_
      rw [Table.lookup_modify] at hrow
      split_ifs at hrow with hid
      · obtain ⟨release, hbefore, rfl⟩ := Option.map_eq_some_iff.1 hrow
        obtain ⟨-, -, -, hplatform, -⟩ := hline.calls call _ hcall
        rw [Task.write_platform] at hp
        exact absurd ((hplatform release hbefore).symm.trans hp) hsame
      · exact .inr ⟨release', hrow, rfl, rfl, rfl, .inl rfl⟩
  | unpublished =>
    refine .inl fun id release' hrow _ => ?_
    rw [Table.lookup_modify] at hrow
    split_ifs at hrow with hid
    · obtain ⟨release, hbefore, rfl⟩ := Option.map_eq_some_iff.1 hrow
      exact .inr ⟨release, hid ▸ hbefore, rfl, rfl, rfl, .inr rfl⟩
    · exact .inr ⟨release', hrow, rfl, rfl, rfl, .inl rfl⟩
  | deleted =>
    refine .inl fun id release' hrow _ => ?_
    rw [Table.lookup_erase_ite] at hrow
    split_ifs at hrow
    exact .inr ⟨release', hrow, rfl, rfl, rfl, .inl rfl⟩

/-- A request that goes on keeps its line lock. -/
theorem Effect.lineLocks (h : Effect s e s') (hline : InLine s) {id : Nat} {c : Call}
    {platform : Platform} (hlock : s.lineLocks.lookup platform = some id)
    (hafter : s'.calls.lookup id = some c) : s'.lineLocks.lookup platform = some id := by
  cases h with
  | none | opened | reopened | verified | ended | created | createdWith | unpublished | deleted =>
    exact hlock
  | wrote _ _ _ hwrite => exact (congrArg _ hwrite.lineLocks).trans hlock
  | locked _ _ hfree =>
    refine (AList.lookup_insert_ne ?_).trans hlock
    rintro rfl
    cases hfree.symm.trans hlock
  | committed _ hcall | aborted hcall =>
    refine (AList.lookup_erase_ne ?_).trans hlock
    rintro rfl
    obtain ⟨-, -, hheld, -⟩ := hline.calls _ _ hcall
    obtain rfl := Option.some.inj (hheld.symm.trans hlock)
    cases (AList.lookup_erase _ _).symm.trans hafter

/-- What is known of a request that a step leaves as it is. -/
theorem InLine.keep (hline : InLine s) (h : Effect s e s') {id : Nat} {c : Call}
    (hbefore : s.calls.lookup id = some c) (hafter : s'.calls.lookup id = some c) :
    s'.CallSound id c := by
  have hsound := hline.calls id c hbefore
  have hcarried := h.carried
  cases c with
  | publishing releaseId data publishedAt =>
    exact ⟨hsound.1.trans_le hcarried.nextId, hsound.2.carry hcarried hsound.1⟩
  | waiting releaseId task verified =>
    exact ⟨hsound.1.trans_le hcarried.nextId, hsound.2.carry hcarried hsound.1⟩
  | holding platform releaseId task verified =>
    obtain ⟨hid, htask, hlock, hplatform, hchecked⟩ := hsound
    have hplatform' : ∀ release', s'.releases.lookup releaseId = some release' →
        release'.platform = platform := by
      intro release' hrow
      obtain ⟨release, hrow, heq, -⟩ := hcarried.rows releaseId release' hrow hid
      exact heq.trans (hplatform release hrow)
    have hcalm : Calm s s' platform := by
      obtain hcalm | ⟨call, _, _, _, hcall, hended⟩ := h.calm hline platform
      · exact hcalm
      · obtain ⟨-, -, hheld, -⟩ := hline.calls call _ hcall
        obtain rfl := Option.some.inj (hheld.symm.trans hlock)
        cases hended.symm.trans hafter
    exact ⟨hid.trans_le hcarried.nextId, htask.carry hcarried hid, h.lineLocks hline hlock hafter,
      hplatform', hchecked.calm hcalm hid hplatform'⟩
  | _ => trivial

/-- A request passes its first check. -/
theorem Opened.callSound {call : Nat} {c : Call} (hline : InLine s) (h : Opened s c) :
    (s.setCall call c).CallSound call c := by
  cases h with
  | publishing _ hrow hminimum =>
    refine ⟨hline.drawn.releases _ _ hrow, fun release hrow' => ?_⟩
    obtain rfl := Option.some.inj (hrow.symm.trans hrow')
    exact hminimum
  | edit hrow hminimum =>
    refine ⟨hline.drawn.releases _ _ hrow, fun release hrow' => ?_⟩
    obtain rfl := Option.some.inj (hrow.symm.trans hrow')
    exact hminimum
  | promote hrow =>
    refine ⟨hline.drawn.releases _ _ hrow, fun release hrow' => ?_⟩
    obtain rfl := Option.some.inj (hrow.symm.trans hrow')
    exact ⟨rfl, rfl⟩
  | _ => trivial

/-- The check under the line lock of a release's platform. -/
theorem Store.checked_of_checkTask {releaseId : Nat} {task : Task} {persisted : Release}
    (hrow : s.releases.lookup releaseId = some persisted) (hsound : s.TaskSound releaseId task)
    (hcheck : s.checkTask persisted task = .ok ()) :
    s.Checked persisted.platform releaseId task := by
  cases task with
  | edit data =>
    intro nextChannel hnext release hrow'
    obtain rfl := Option.some.inj (hrow.symm.trans hrow')
    simp only [checkTask, hnext] at hcheck
    split_ifs at hcheck with hswitch
    by_contra hno
    push Not at hno
    exact hswitch hno
  | promote current =>
    intro otherId other hother hplatform hstable hpublished
    obtain ⟨-, hp⟩ := hsound persisted hrow
    have hmem : other.version ∈ s.stableVersions current.platform := by
      refine List.mem_map.2 ⟨(otherId, other),
        List.mem_filter.2 ⟨Table.mem_pairs.2 hother, ?_⟩, rfl⟩
      simp [hplatform, hp, hstable, hpublished]
    simp only [checkTask] at hcheck
    split at hcheck
    · rename_i hnone
      rw [eq_nil_of_latest hnone] at hmem
      cases hmem
    · rename_i newest hnewest
      split_ifs at hcheck with hge
      have hbelow := le_latest hnewest hmem
      have hlt : precedence newest.semver current.version.semver = .lt := by
        cases hp : precedence newest.semver current.version.semver <;> simp_all
      exact Std.TransCmp.lt_of_isLE_of_lt hbelow hlt

theorem InLine.effect (hline : InLine s) (h : Effect s e s') : InLine s' := by
  refine ⟨h.drawn hline.drawn, ?_, ?_⟩
  · intro id release' hrow
    cases h with
    | none | opened | reopened | verified | ended | locked | aborted =>
      exact hline.minimum id release' hrow
    | wrote _ _ _ hwrite => exact hline.minimum id release' (hwrite.releases ▸ hrow)
    | created _ hminimum | createdWith _ _ hminimum =>
      rw [Table.lookup_insert_ite] at hrow
      split_ifs at hrow
      · obtain rfl := Option.some.inj hrow
        exact hminimum
      · exact hline.minimum id release' hrow
    | @committed call now releaseId platform task verified he hcall =>
      rw [Table.lookup_modify] at hrow
      split_ifs at hrow with hid
      · obtain ⟨release, hbefore, rfl⟩ := Option.map_eq_some_iff.1 hrow
        have hkept := hline.minimum releaseId release hbefore
        obtain ⟨-, htask, -⟩ := hline.calls call _ hcall
        cases task with
        | edit data =>
          cases hm : data.minimumVersion with
          | none => simpa [Release.MinimumKept, Task.write, Edit.apply, hm] using hkept
          | some m =>
            have hbelow := htask release hbefore m hm
            simpa [Release.MinimumKept, Task.write, Edit.apply, hm] using hbelow
        | promote current =>
          unfold Task.write
          split_ifs <;> exact hkept
      · exact hline.minimum id release' hrow
    | unpublished =>
      rw [Table.lookup_modify] at hrow
      split_ifs at hrow with hid
      · obtain ⟨release, hbefore, rfl⟩ := Option.map_eq_some_iff.1 hrow
        exact hline.minimum _ release hbefore
      · exact hline.minimum id release' hrow
    | deleted =>
      rw [Table.lookup_erase_ite] at hrow
      split_ifs at hrow
      exact hline.minimum id release' hrow
  · intro id c hafter
    by_cases hbefore : s.calls.lookup id = some c
    · exact hline.keep h hbefore hafter
    · cases h with
      | none | created | createdWith => exact absurd hafter hbefore
      | wrote _ _ _ hwrite =>
        exact absurd (hwrite.calls ▸ Table.lookup_of_erase hafter) hbefore
      | ended | committed | aborted | unpublished | deleted =>
        exact absurd (Table.lookup_of_erase hafter) hbefore
      | opened _ hc =>
        obtain ⟨rfl, rfl⟩ | hc' := Table.lookup_of_insert hafter
        · exact hc.callSound hline
        · exact absurd hc' hbefore
      | reopened =>
        obtain ⟨rfl, rfl⟩ | hc' := Table.lookup_of_insert hafter
        · trivial
        · exact absurd (Table.lookup_of_erase hc') hbefore
      | verified _ hcall hrow =>
        obtain ⟨rfl, rfl⟩ | hc' := Table.lookup_of_insert hafter
        · refine ⟨hline.drawn.releases _ _ hrow, fun release hrow' => ?_⟩
          obtain ⟨-, rfl⟩ | ⟨time, hpublishing⟩ := hcall
          · intro m hm
            cases hm
          · exact (hline.calls _ _ hpublishing).2 release hrow'
        · exact absurd hc' hbefore
      | locked hcall hrow _ hcheck =>
        obtain ⟨rfl, rfl⟩ | hc' := Table.lookup_of_insert hafter
        · obtain ⟨hid, htask⟩ := hline.calls _ _ hcall
          refine ⟨hid, htask, AList.lookup_insert _, fun release hrow' => ?_,
            Store.checked_of_checkTask hrow htask hcheck⟩
          obtain rfl := Option.some.inj (hrow.symm.trans hrow')
          rfl
        · exact absurd hc' hbefore

/-! ## The result -/

/-- What a commit leaves of the rows. -/
theorem step_commit {call now releaseId : Nat} {platform : Platform} {task : Task}
    {verified : Option Verified}
    (hcall : s.calls.lookup call = some (.holding platform releaseId task verified)) :
    (step s (.commit call now)).releases = s.releases.modify releaseId (task.write now) := by
  simp [step, Event.call, hcall, Store.advance, Store.commit]

/-- Only a promotion changes the channel of a published release. -/
theorem Effect.channel (h : Effect s e s') (hline : InLine s) {releaseId : Nat}
    {before after : Release} (hbefore : s.releases.lookup releaseId = some before)
    (hafter : s'.releases.lookup releaseId = some after) (hpublished : before.status = .published)
    (hchannel : after.channel ≠ before.channel) :
    before.channel = .beta ∧ after.channel = .stable ∧ s.Promotes e releaseId := by
  have hkept : s.releases.lookup releaseId = some after → False := by
    intro hsame
    obtain rfl := Option.some.inj (hbefore.symm.trans hsame)
    exact hchannel rfl
  cases h with
  | none | opened | reopened | verified | ended | locked | aborted => exact (hkept hafter).elim
  | wrote _ _ _ hwrite => exact (hkept (hwrite.releases ▸ hafter)).elim
  | created | createdWith =>
    rw [AList.lookup_insert_ne (hline.drawn.releases _ _ hbefore).ne] at hafter
    exact (hkept hafter).elim
  | deleted => exact (hkept (Table.lookup_of_erase hafter)).elim
  | unpublished =>
    rw [Table.lookup_modify] at hafter
    split_ifs at hafter with hid
    · obtain ⟨release, hrow, rfl⟩ := Option.map_eq_some_iff.1 hafter
      obtain rfl := Option.some.inj (hbefore.symm.trans (hid ▸ hrow))
      exact absurd rfl hchannel
    · exact (hkept hafter).elim
  | @committed call now id platform task verified he hcall =>
    rw [Table.lookup_modify] at hafter
    split_ifs at hafter with hid
    · obtain ⟨release, hrow, rfl⟩ := Option.map_eq_some_iff.1 hafter
      subst hid
      obtain rfl := Option.some.inj (hbefore.symm.trans hrow)
      obtain ⟨-, -, -, -, hchecked⟩ := hline.calls call _ hcall
      cases task with
      | edit data =>
        -- The channel was checked against the persisted row, which is no draft.
        cases hnext : data.channel with
        | none => simp [Task.write, Edit.apply, hnext] at hchannel
        | some nextChannel =>
          obtain hsame | hdraft := hchecked nextChannel hnext before hbefore
          · simp [Task.write, Edit.apply, hnext, hsame] at hchannel
          · cases hpublished.symm.trans hdraft
      | promote current =>
        by_cases hbeta : before.channel = .beta ∧ before.status = .published
        · exact ⟨hbeta.1, by simp [Task.write, hbeta],
            call, now, platform, current, verified, before, he, hcall, hbefore, hbeta⟩
        · simp [Task.write, hbeta] at hchannel
    · exact (hkept hafter).elim

/-- A promotion raises the published stable line of its platform. -/
theorem InLine.highest (hline : InLine s) {releaseId : Nat} (hpromotes : s.Promotes e releaseId) :
    ∃ promoted, (step s e).releases.lookup releaseId = some promoted ∧
      promoted.channel = .stable ∧ promoted.status = .published ∧
      ∀ otherId other, otherId ≠ releaseId → (step s e).releases.lookup otherId = some other →
        other.platform = promoted.platform → other.channel = .stable →
        other.status = .published →
        compareSemver promoted.version.1 other.version.1 = .ok .gt := by
  obtain ⟨call, now, platform, current, verified, release, rfl, hcall, hrow, hbeta,
    hpublished⟩ := hpromotes
  obtain ⟨-, htask, -, hplatform, hchecked⟩ := hline.calls call _ hcall
  have hreleases := @step_commit s call now _ _ _ _ hcall
  have hpromoted : (step s (.commit call now)).releases.lookup releaseId =
      some { release with channel := .stable, publishedAt := some now } := by
    rw [hreleases, Table.lookup_modify_self, hrow]
    simp [Task.write, hbeta, hpublished]
  refine ⟨_, hpromoted, rfl, hpublished, fun otherId other hne hother hp hstable hpub => ?_⟩
  rw [hreleases, Table.lookup_modify_ne _ _ hne] at hother
  have hlower := hchecked otherId other hother (hp.trans (hplatform release hrow)) hstable hpub
  rw [Version.compareSemver, (htask release hrow).1, precedence_swap, hlower]
  rfl

theorem inLine_start : InLine start where
  drawn := ⟨fun _ _ h => (by cases h), fun _ _ h => (by cases h)⟩
  minimum := fun _ _ h => by cases h
  calls := fun _ _ h => by cases h

theorem InLine.step (hline : InLine s) (e : Event) : InLine (step s e) :=
  hline.effect (step_effect hline.drawn e)

/-- In every run, each step keeps the published line in order, and no minimum version is above
its version. -/
theorem stable_line_in_order (events : List Event) :
    Meets step Orderly start events ∧
      ∀ releaseId release, (run step start events).releases.lookup releaseId = some release →
        compareSemver release.minimumVersion.1 release.version.1 ≠ .ok .gt := by
  constructor
  · exact meets_of_keeps (I := InLine) (fun _ e hline => hline.step e)
      (fun _ e hline => ⟨fun _ _ _ => (step_effect hline.drawn e).channel hline,
        fun _ => hline.highest⟩) inLine_start events
  · intro releaseId release hrow heq
    have hline := run_keeps (I := InLine) (fun _ e hline => hline.step e) inLine_start events
    rw [Version.compareSemver] at heq
    exact hline.minimum releaseId release hrow (Except.ok.inj heq)

end ChordV.Api.Releases
