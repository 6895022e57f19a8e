import ChordV.Lib.Machine
import ChordV.Api.RuntimeVersionSteps

/-!
# The active version and the one before it

`Dated` is about the times of the activations: the version that the latest one has replaced was
published after all others but the active one, so it is the one that `pruneVersions` protects.
`delivered_versions_survive` is about every run.
-/

namespace ChordV.Api.RuntimeVersions

open Lib

variable {s s' : State} {tx : Tx} {id now : Nat}

/-- Of the versions that are not active this one was published last, and it is still ready. -/
def Latest (s : State) (id : Nat) : Prop :=
  (s.versions id).Ready ∧ ∃ published, (s.versions id).publishedAt = some published ∧
    ∀ other t, other ≠ id → s.activeVersionId ≠ some other →
      (s.versions other).publishedAt = some t → t < published

/-- What the times of a transaction rest on while it has the lock. -/
def Tx.Timely (s : State) : Tx → Prop
  | .activate _ now _ => ∀ last, s.lastActivation = some last → last < now
  | .remove true _ ids => ∀ id, s.replaced = some id → id ∈ ids → (s.versions id).row = none
  | .save _ _ | .remove false _ _ => True

/-- Nothing was published after the last activation. -/
structure Dated (s : State) : Prop where
  bounded : ∀ id t, (s.versions id).publishedAt = some t →
    ∃ last, s.lastActivation = some last ∧ t ≤ last ∧ (s.activeVersionId ≠ some id → t < last)
  active : ∀ id, s.activeVersionId = some id →
    (s.versions id).publishedAt = s.lastActivation ∧ s.lastActivation ≠ none
  replaced : ∀ id, s.replaced = some id → id < s.fresh ∧ s.activeVersionId ≠ some id ∧
    ((s.versions id).row = none ∨ Latest s id)
  lock : ∀ tx, s.lock = some tx → tx.Timely s

/-- A step that activates no version.  Of a version that was there before it keeps the time, or
the row is gone. -/
structure Unpublished (s s' : State) : Prop where
  published : ∀ id t, (s'.versions id).publishedAt = some t → (s.versions id).publishedAt = some t
  active : ∀ id, s.activeVersionId = some id →
    (s'.versions id).publishedAt = (s.versions id).publishedAt
  old : ∀ id, id < s.fresh → (s'.versions id).row = none ∨
    (s.versions id).row ≠ none ∧
      (s'.versions id).publishedAt = (s.versions id).publishedAt ∧
      ((s.versions id).Ready → (s'.versions id).Ready)
  fresh : s.fresh ≤ s'.fresh
  activeVersionId : s'.activeVersionId = s.activeVersionId
  replaced : s'.replaced = s.replaced
  lastActivation : s'.lastActivation = s.lastActivation

theorem Dated.of_unpublished (h : Dated s) (hsame : Unpublished s s')
    (hlock : ∀ tx, s'.lock = some tx → tx.Timely s') : Dated s' := by
  refine ⟨fun id t ht => ?_, fun id hid => ?_, fun id hid => ?_, hlock⟩
  · rw [hsame.activeVersionId, hsame.lastActivation]
    exact h.bounded id t (hsame.published id t ht)
  · rw [hsame.activeVersionId] at hid
    rw [hsame.active id hid, hsame.lastActivation]
    exact h.active id hid
  · rw [hsame.replaced] at hid
    have ⟨hgiven, hinactive, hlatest⟩ := h.replaced id hid
    rw [hsame.activeVersionId]
    refine ⟨Nat.lt_of_lt_of_le hgiven hsame.fresh, hinactive, ?_⟩
    cases hsame.old id hgiven with
    | inl hgone => exact .inl hgone
    | inr hkept =>
      have ⟨hrow, htime, hready⟩ := hkept
      obtain ⟨hwas, published, hpublished, hothers⟩ := hlatest.resolve_left hrow
      refine .inr ⟨hready hwas, published, htime.trans hpublished, fun other t hne hother ht => ?_⟩
      rw [hsame.activeVersionId] at hother
      exact hothers other t hne hother (hsame.published other t ht)

theorem Quiet.unpublished (h : Sound s) (hquiet : Quiet s s') : Unpublished s s' where
  published id t ht := (hquiet.versions id).published.symm.trans ht
  active id _ := (hquiet.versions id).published
  old id _ := by
    cases hrow : (s.versions id).row with
    | none => exact .inl ((hquiet.versions id).row_none hrow)
    | some row =>
      refine .inr ⟨by simp, (hquiet.versions id).published, ?_⟩
      exact (hquiet.versions id).ready (h.ok id)
  fresh := Nat.le_of_eq hquiet.fresh.symm
  activeVersionId := hquiet.activeVersionId
  replaced := hquiet.replaced
  lastActivation := hquiet.lastActivation

theorem Dated.of_quiet (hdated : Dated s) (h : Sound s) (hquiet : Quiet s s') : Dated s' := by
  refine hdated.of_unpublished (hquiet.unpublished h) (fun tx htx => ?_)
  rw [hquiet.lock] at htx
  have htimely := hdated.lock tx htx
  cases tx with
  | save policy created => trivial
  | activate id now retentionMs =>
    rw [Tx.Timely, hquiet.lastActivation]
    exact htimely
  | remove followed clampTo ids =>
    cases followed with
    | false => trivial
    | true =>
      intro id hid hmem
      rw [hquiet.replaced] at hid
      exact (hquiet.versions id).row_none (htimely id hid hmem)

theorem publishedAt_update {v : Version} {f : Row → Row}
    (hf : ∀ row, (f row).publishedAt = row.publishedAt) :
    (v.update f).publishedAt = v.publishedAt := by
  unfold Version.publishedAt Version.update
  cases v.row with
  | none => rfl
  | some row => exact hf row

theorem publishedAt_of_none {v : Version} (hrow : v.row = none) : v.publishedAt = none := by
  rw [Version.publishedAt, hrow, Option.bind_none]

/-! ### The version before the active one is not expired -/

theorem publishedLater_iff {a b : Nat × Row} :
    publishedLater a b = true ↔ b.2.publishedAt.getD 0 ≤ a.2.publishedAt.getD 0 :=
  decide_eq_true_iff

theorem publishedLater_trans (a b c : Nat × Row) (hab : publishedLater a b = true)
    (hbc : publishedLater b c = true) : publishedLater a c = true := by
  rw [publishedLater_iff] at *
  exact Nat.le_trans hbc hab

theorem publishedLater_total (a b : Nat × Row) :
    (publishedLater a b || publishedLater b a) = true := by
  rw [Bool.or_eq_true, publishedLater_iff, publishedLater_iff]
  exact Nat.le_total ..

/-- The first of the sorted rows was published last. -/
theorem head?_mergeSort {rows : List (Nat × Row)} {x : Nat × Row} (hx : x ∈ rows) :
    ∃ y, (rows.mergeSort publishedLater).head? = some y ∧ y ∈ rows ∧
      x.2.publishedAt.getD 0 ≤ y.2.publishedAt.getD 0 := by
  have hmem : x ∈ rows.mergeSort publishedLater := List.mem_mergeSort.2 hx
  have hsorted := List.pairwise_mergeSort publishedLater_trans publishedLater_total rows
  cases hlist : rows.mergeSort publishedLater with
  | nil =>
    rw [hlist] at hmem
    cases hmem
  | cons y rest =>
    rw [hlist] at hmem hsorted
    refine ⟨y, rfl, List.mem_mergeSort.1 (hlist ▸ List.mem_cons_self), ?_⟩
    cases List.mem_cons.1 hmem with
    | inl heq => exact Nat.le_of_eq (by rw [heq])
    | inr hrest => exact publishedLater_iff.1 ((List.pairwise_cons.1 hsorted).1 x hrest)

theorem previousVersion_eq {rows : List (Nat × Row)} {activeVersionId : Option Nat} {row : Row}
    {published : Nat} (hmem : (id, row) ∈ rows) (hready : row.status = .ready)
    (hinactive : activeVersionId ≠ some id) (hpublished : row.publishedAt = some published)
    (hothers : ∀ x ∈ rows, x.1 ≠ id → activeVersionId ≠ some x.1 →
      ∀ t, x.2.publishedAt = some t → t < published) :
    previousVersion rows activeVersionId = some id := by
  have hcandidate : (id, row) ∈ rows.filter fun x =>
      x.2.status == .ready && some x.1 != activeVersionId && x.2.publishedAt.isSome := by
    refine List.mem_filter.2 ⟨hmem, ?_⟩
    simp [hready, hpublished, Ne.symm hinactive]
  obtain ⟨y, hhead, hy, hle⟩ := head?_mergeSort hcandidate
  have ⟨hyrows, hyfits⟩ := List.mem_filter.1 hy
  simp only [Bool.and_eq_true, bne_iff_ne, ne_eq, Option.isSome_iff_exists] at hyfits
  obtain ⟨⟨-, hyinactive⟩, t, ht⟩ := hyfits
  have heq : y.1 = id := by
    by_contra hne
    have hlt := hothers y hyrows hne (Ne.symm hyinactive) t ht
    rw [hpublished, ht, Option.getD_some, Option.getD_some] at hle
    omega
  show Option.map _ (List.mergeSort _ _).head? = _
  rw [hhead, Option.map_some, heq]

theorem mem_prunedRows {order : List Nat} {x : Nat × Row} (hx : x ∈ s.prunedRows order now) :
    ∃ row, s.row x.1 = some row ∧ x.2.status = row.status ∧
      x.2.publishedAt = row.publishedAt := by
  obtain ⟨y, hy, rfl⟩ := List.mem_map.1 hx
  exact ⟨y.2, (mem_of_mem_rowsIn hy).2, clampRow_status .., clampRow_publishedAt ..⟩

/-- The version that the latest activation replaced is the one that `pruneVersions` protects. -/
theorem previousVersion_prunedRows {order : List Nat} (hid : id ∈ order)
    (hinactive : s.activeVersionId ≠ some id) (h : Latest s id) (now : Nat) :
    previousVersion (s.prunedRows order now) s.activeVersionId = some id := by
  obtain ⟨⟨row, hrow, hready⟩, published, hpublished, hothers⟩ := h
  have hmem : (id, row) ∈ s.rowsIn order :=
    List.mem_filterMap.2 ⟨id, hid, by rw [State.row, hrow, Option.map_some]⟩
  have htime : row.publishedAt = some published := by
    rw [← hpublished, Version.publishedAt, hrow, Option.bind_some]
  refine previousVersion_eq (List.mem_map.2 ⟨_, hmem, rfl⟩) ((clampRow_status ..).trans hready)
    hinactive ((clampRow_publishedAt ..).trans htime) (fun x hx hne hother t ht => ?_)
  obtain ⟨row', hrow', -, hsame⟩ := mem_prunedRows hx
  refine hothers x.1 t hne hother ?_
  show (s.row x.1).bind _ = _
  rw [hrow', Option.bind_some, ← hsame, ht]

theorem pruneVersions_timely (h : Dated s) {order : List Nat}
    (htx : s.pruneVersions order now = some tx) : tx.Timely s := by
  obtain ⟨hperm, ⟨clampTo, rfl⟩ | rfl⟩ := pruneVersions_eq_some htx
  · intro id hid hexpired
    have ⟨hgiven, hinactive, hlatest⟩ := h.replaced id hid
    cases hlatest with
    | inl hgone => exact hgone
    | inr hlatest =>
      have horder : id ∈ order := hperm.mem_iff.2 (List.mem_range.2 hgiven)
      have hprevious := previousVersion_prunedRows horder hinactive hlatest now
      exact absurd hexpired (not_mem_expired (.inr hprevious) now 200)
  · trivial

/-! ### The steps -/

theorem Tx.Saves.timely (h : tx.Saves s) : tx.Timely s := by
  obtain ⟨-, policy, created, rfl⟩ := h
  trivial

theorem Dated.begin (h : Dated s) {tx? : Option Tx}
    (htimely : ∀ tx, tx? = some tx → tx.Timely s) : Dated (s.begin tx?) := by
  unfold State.begin
  split
  · refine ⟨h.bounded, h.active, h.replaced, fun tx htx => ?_⟩
    have htimely' := htimely tx htx
    cases tx with
    | save policy created => trivial
    | activate id now retentionMs => exact htimely'
    | remove followed clampTo ids => cases followed <;> exact htimely'
  · exact h

theorem save_unpublished (h : Sound s) {policy : Policy} {created : Option Row}
    (hsafe : Tx.Safe s (.save policy created)) :
    Unpublished s { s.save policy created with lock := none } := by
  have hactive : (s.save policy created).activeVersionId = s.activeVersionId := by
    rw [← hsafe.1]
    cases created <;> rfl
  cases created with
  | none =>
    refine ⟨fun id t ht => ht, fun id _ => rfl, fun id _ => ?_, Nat.le_refl _, hactive, rfl, rfl⟩
    cases hrow : (s.versions id).row with
    | none => exact .inl hrow
    | some row => exact .inr ⟨by simp, rfl, fun hready => hready⟩
  | some row =>
    have hother : ∀ id, id ≠ s.fresh → (s.save policy (some row)).versions id = s.versions id :=
      fun id hne => Function.update_of_ne hne ..
    have hnew : ((s.save policy (some row)).versions s.fresh).publishedAt = none := by
      rw [State.save_some, Function.update_self]
      exact (hsafe.2 row rfl).2
    refine ⟨fun id t ht => ?_, fun id hid => ?_, fun id hid => ?_, Nat.le_succ _, hactive, rfl,
      rfl⟩
    · by_cases heq : id = s.fresh
      · subst heq
        rw [show _ = none from hnew] at ht
        cases ht
      · exact (congrArg Version.publishedAt (hother id heq)).symm.trans ht
    · have ⟨_, hrow, _⟩ := h.active id hid
      have hgiven := h.lt_fresh hrow
      exact congrArg Version.publishedAt (hother id (by omega))
    · have hsame : (s.save policy (some row)).versions id = s.versions id :=
        hother id (by omega)
      show ((s.save policy (some row)).versions id).row = none ∨ _
      cases hrow : (s.versions id).row with
      | none => exact .inl (by rw [hsame, hrow])
      | some row' =>
        refine .inr ⟨by simp, congrArg Version.publishedAt hsame, fun hready => ?_⟩
        show ((s.save policy (some row)).versions id).Ready
        rw [hsame]
        exact hready

theorem remove_unpublished {followed : Bool} {clampTo : Option Nat} {ids : List Nat}
    (hsafe : Tx.Safe s (.remove followed clampTo ids)) :
    Unpublished s { s.remove clampTo ids with lock := none } := by
  have hkept : ∀ id, id ∉ ids →
      ((s.remove clampTo ids).versions id).publishedAt = (s.versions id).publishedAt := by
    intro id hid
    rw [remove_of_not_mem hid]
    exact publishedAt_update (clampRow_publishedAt s clampTo id)
  have hgone : ∀ id, id ∈ ids → ((s.remove clampTo ids).versions id).row = none := by
    intro id hid
    rw [remove_of_mem hid]
    rfl
  refine ⟨fun id t ht => ?_, fun id hid => hkept id (hsafe.2 id hid), fun id _ => ?_,
    Nat.le_refl _, rfl, rfl, rfl⟩
  · by_cases hmem : id ∈ ids
    · rw [show _ = none from publishedAt_of_none (hgone id hmem)] at ht
      cases ht
    · exact (hkept id hmem).symm.trans ht
  · by_cases hmem : id ∈ ids
    · exact .inl (hgone id hmem)
    · cases hrow : (s.versions id).row with
      | none =>
        left
        show ((s.remove clampTo ids).versions id).row = none
        rw [remove_of_not_mem hmem, Version.update, hrow, Option.map_none]
      | some row =>
        refine .inr ⟨by simp, hkept id hmem, fun hready => ?_⟩
        show ((s.remove clampTo ids).versions id).Ready
        rw [remove_of_not_mem hmem]
        exact hready.update (clampRow_status s clampTo id)

section Activation

variable {retentionMs : Nat}

theorem commitActivation_published (hready : (s.versions id).Ready) :
    ((s.commitActivation id now retentionMs).versions id).publishedAt = some now := by
  obtain ⟨row, hrow, -⟩ := hready
  rw [commitActivation_self, Version.publishedAt, Version.update, hrow]
  rfl

theorem commitActivation_published_of_ne {other : Nat} (hne : other ≠ id) :
    ((s.commitActivation id now retentionMs).versions other).publishedAt =
      (s.versions other).publishedAt := by
  obtain ⟨f, -, hpublished, hf⟩ := commitActivation_of_ne s hne now retentionMs
  rw [hf]
  exact publishedAt_update hpublished

/-- The version that was active is the latest of the others after an activation.  Where it is
active again, the one before it stays. -/
theorem commitActivation_latest {other : Nat}
    (hactive : (s.commitActivation id now retentionMs).activeVersionId = some id)
    (hne : other ≠ id) (hready : (s.versions other).Ready) {published : Nat}
    (hpublished : (s.versions other).publishedAt = some published)
    (hothers : ∀ x t, x ≠ other → x ≠ id → (s.versions x).publishedAt = some t → t < published) :
    Latest (s.commitActivation id now retentionMs) other := by
  obtain ⟨f, hstatus, -, hf⟩ := commitActivation_of_ne s hne now retentionMs
  refine ⟨?_, published, (commitActivation_published_of_ne hne).trans hpublished, ?_⟩
  · rw [hf]
    exact hready.update hstatus
  · intro x t hx hinactive ht
    rw [hactive] at hinactive
    have hxid : x ≠ id := by
      rintro rfl
      exact hinactive rfl
    rw [commitActivation_published_of_ne hxid] at ht
    exact hothers x t hx hxid ht

theorem Dated.commitActivation (hdated : Dated s) (h : Sound s)
    (hsafe : Tx.Safe s (.activate id now retentionMs))
    (htimely : Tx.Timely s (.activate id now retentionMs)) :
    Dated { s.commitActivation id now retentionMs with lock := none } := by
  have hactive := commitActivation_activeVersionId hsafe.2 id now retentionMs
  have hpublished : ((s.commitActivation id now retentionMs).versions id).publishedAt = some now :=
    commitActivation_published hsafe.1
  refine ⟨fun other t ht => ⟨now, rfl, ?_⟩, fun other hother => ?_, fun other hother => ?_,
    fun _ htx => by cases htx⟩
  · by_cases heq : other = id
    · subst heq
      have htime : some now = some t := hpublished.symm.trans ht
      cases htime
      exact ⟨Nat.le_refl _, fun hinactive => absurd hactive hinactive⟩
    · have hold : (s.versions other).publishedAt = some t :=
        (commitActivation_published_of_ne heq).symm.trans ht
      obtain ⟨last, hlast, hle, -⟩ := hdated.bounded other t hold
      have hlt := htimely last hlast
      exact ⟨by omega, fun _ => by omega⟩
  · have hid : some id = some other := hactive.symm.trans hother
    cases hid
    exact ⟨hpublished, fun hnone => by cases hnone⟩
  · have hreplaced : (if s.activeVersionId = some id then s.replaced else s.activeVersionId) =
        some other := hother
    have hinactive : ∀ x, x ≠ id →
        (s.commitActivation id now retentionMs).activeVersionId ≠ some x := by
      intro x hx heq
      rw [hactive, Option.some.injEq] at heq
      exact hx heq.symm
    split at hreplaced
    next hagain =>
      obtain ⟨hgiven, hother', hlatest⟩ := hdated.replaced other hreplaced
      have hne : other ≠ id := by
        rintro rfl
        exact hother' hagain
      refine ⟨hgiven, hinactive other hne, ?_⟩
      cases hlatest with
      | inl hgone =>
        left
        obtain ⟨f, -, -, hf⟩ := commitActivation_of_ne s hne now retentionMs
        show ((s.commitActivation id now retentionMs).versions other).row = none
        rw [hf, Version.update, hgone, Option.map_none]
      | inr hlatest =>
        obtain ⟨hready, published, htime, hothers⟩ := hlatest
        refine .inr (commitActivation_latest hactive hne hready htime fun x t hx hxid ht => ?_)
        refine hothers x t hx (fun heq => hxid ?_) ht
        exact Option.some.inj (heq.symm.trans hagain)
    next hnew =>
      have hready := h.active other hreplaced
      obtain ⟨_, hrow, -⟩ := h.active other hreplaced
      obtain ⟨htime, hsome⟩ := hdated.active other hreplaced
      obtain ⟨last, hlast⟩ := Option.ne_none_iff_exists'.1 hsome
      have hne : other ≠ id := by
        rintro rfl
        exact hnew hreplaced
      refine ⟨h.lt_fresh hrow, hinactive other hne, ?_⟩
      refine .inr (commitActivation_latest hactive hne hready (htime.trans hlast)
        fun x t hx _ ht => ?_)
      obtain ⟨last', hlast', -, hlt⟩ := hdated.bounded x t ht
      rw [hlast, Option.some.injEq] at hlast'
      rw [hlast']
      refine hlt fun heq => hx ?_
      exact Option.some.inj (heq.symm.trans hreplaced)

end Activation

theorem Dated.commit (hdated : Dated s) (h : Sound s) : Dated s.commit := by
  unfold State.commit
  split
  · exact hdated
  next policy created hlock =>
    exact hdated.of_unpublished (save_unpublished h (h.lock _ hlock)) fun _ htx => by cases htx
  next id now retentionMs hlock =>
    exact hdated.commitActivation h (h.lock _ hlock) (hdated.lock _ hlock)
  next followed clampTo ids hlock =>
    exact hdated.of_unpublished (remove_unpublished (h.lock _ hlock)) fun _ htx => by cases htx

/-- An activation comes later than the one before it. -/
def Increasing (s : State) : Event → Prop
  | .activate _ _ now => s.lastActivation.all (· < now)
  | _ => True

instance (s : State) (e : Event) : Decidable (Increasing s e) := by
  cases e <;> unfold Increasing <;> infer_instance

theorem Dated.step (hdated : Dated s) (h : Sound s) (e : Event) (hincreasing : Increasing s e) :
    Dated (step s e) := by
  cases e with
  | acquire input saved now => exact hdated.begin fun _ htx => (acquire_saves htx).timely
  | setAutoLatest enabled now => exact hdated.begin fun _ htx => (setAutoLatest_saves htx).timely
  | scheduleLatest now => exact hdated.begin fun _ htx => (scheduleLatest_saves htx).timely
  | activate id automatic now =>
    refine hdated.begin fun tx htx => ?_
    obtain ⟨-, -, rfl⟩ := activate_eq_some htx
    intro last hlast
    simpa [Increasing, hlast] using hincreasing
  | deleteVersion id now =>
    refine hdated.begin fun tx htx => ?_
    obtain ⟨-, -, rfl⟩ := deleteVersion_eq_some htx
    trivial
  | pruneVersions order now => exact hdated.begin fun _ => pruneVersions_timely hdated
  | commit => exact hdated.commit h
  | rollback => exact ⟨hdated.bounded, hdated.active, hdated.replaced, fun _ htx => by cases htx⟩
  | work id work => exact hdated.of_quiet h (quiet_work h id work)
  | takeJob cleaner id => exact hdated.of_quiet h (quiet_takeJob h cleaner id)
  | checkJob cleaner elsewhere => exact hdated.of_quiet h (quiet_checkJob h cleaner elsewhere)
  | unlinkJob cleaner => exact hdated.of_quiet h (quiet_unlinkJob h cleaner)
  | finishJob cleaner => exact hdated.of_quiet h (quiet_finishJob h cleaner)
  | failJob cleaner => exact hdated.of_quiet h (quiet_failJob h cleaner)

theorem dated_start (kind : Kind) (ios : Bool) : Dated { kind, ios } := by
  constructor
  · intro id t ht
    cases ht
  · intro id hid
    cases hid
  · intro id hid
    cases hid
  · intro tx htx
    cases htx

/-! ## Every run -/

/-- A version that can be delivered. -/
def State.InPlace (s : State) (id : Nat) : Prop :=
  ∃ row, s.row id = some row ∧ row.status = .ready ∧ (s.versions id).file = true

theorem Sound.inPlace (h : Sound s) (hready : (s.versions id).Ready) : s.InPlace id := by
  have ⟨row, hrow, hstatus⟩ := hready
  exact ⟨row, hrow, hstatus, hready.file (h.ok id)⟩

theorem sound_run (kind : Kind) (ios : Bool) (events : List Event) :
    Sound (Machine.run step { kind, ios } events) :=
  Machine.run_keeps (fun _ e h => h.step e) (sound_start kind ios) events

theorem dated_run {kind : Kind} {ios : Bool} {events : List Event}
    (h : Machine.Meets step Increasing { kind, ios } events) :
    Dated (Machine.run step { kind, ios } events) := by
  have hstep : ∀ s e, Sound s ∧ Dated s → Increasing s e →
      Sound (step s e) ∧ Dated (step s e) :=
    fun _ e hs hincreasing => ⟨hs.1.step e, hs.2.step hs.1 e hincreasing⟩
  exact (Machine.run_keeps_of_meets hstep ⟨sound_start kind ios, dated_start kind ios⟩ h).2

/-- The commit of a clean-up of a component that follows the latest version. -/
theorem commit_inPlace (h : Sound s) (hdated : Dated s) {clampTo : Option Nat} {ids : List Nat}
    (hlock : s.lock = some (.remove true clampTo ids)) (hreplaced : s.replaced = some id)
    (hrow : s.row id ≠ none) : s.commit.InPlace id := by
  have ⟨_, _, hlatest⟩ := hdated.replaced id hreplaced
  have hready := (hlatest.resolve_left hrow).1
  have hmem : id ∉ ids := fun hmem => hrow (hdated.lock _ hlock id hreplaced hmem)
  apply h.commit.inPlace
  have hcommit : s.commit.versions id = (s.remove clampTo ids).versions id := by
    rw [State.commit, hlock]
  rw [hcommit, remove_of_not_mem hmem]
  exact hready.update (clampRow_status s clampTo id)

/-- For every order of the steps, with activations at increasing times: the version that the
policy names is ready and its file is in place, and the commit of `pruneVersions` for a component
that follows the latest version leaves the version that the latest activation has replaced. -/
theorem delivered_versions_survive (kind : Kind) (ios : Bool) (events : List Event)
    (h : Machine.Meets step Increasing { kind, ios } events) :
    (∀ id, (Machine.run step { kind, ios } events).activeVersionId = some id →
      (Machine.run step { kind, ios } events).InPlace id) ∧
    (∀ clampTo ids id,
      (Machine.run step { kind, ios } events).lock = some (.remove true clampTo ids) →
      (Machine.run step { kind, ios } events).replaced = some id →
      (Machine.run step { kind, ios } events).row id ≠ none →
      (Machine.run step { kind, ios } events).commit.InPlace id) := by
  have hsound := sound_run kind ios events
  constructor
  · exact fun id hid => hsound.inPlace (hsound.active id hid)
  · exact fun _ _ id hlock hid hrow => commit_inPlace hsound (dated_run h) hlock hid hrow

/-- A source that is followed. -/
def sampleSource : SourceInput where
  sourceUrl := { href := "https://github.com/geo/geo/releases/latest/download/geo.dat"
                 latest := true }
  autoLatest := true

/-- A version is acquired, downloaded and activated. -/
def sampleDownload (id : Nat) (fileHash : String) (now : Nat) : List Event :=
  [.acquire sampleSource none now, .commit, .work id (.claim now),
    .work id (.place { fileHash, fileSizeBytes := 1 }), .work id .readPolicy,
    .work id .readActive, .work id (.settle now), .activate id true now, .commit, .work id .stop]

/-- Two downloads and a pruning. -/
def sampleEvents : List Event :=
  sampleDownload 0 "a" 1 ++ sampleDownload 1 "b" 2 ++ [.pruneVersions [0, 1] (3 * dayMs)]

theorem delivered_versions_survive_sample :
    (Machine.run step { kind := .geoip } sampleEvents).InPlace 1 ∧
      (Machine.run step { kind := .geoip } sampleEvents).commit.InPlace 0 := by
  have h := delivered_versions_survive .geoip false sampleEvents (by decide)
  obtain ⟨clampTo, ids, hlock⟩ := pruneVersions_followed
    (s := Machine.run step { kind := .geoip } (sampleDownload 0 "a" 1 ++ sampleDownload 1 "b" 2))
    [0, 1] (3 * dayMs) (by decide) (by decide) (by decide) (by decide)
  refine ⟨h.1 1 (by decide), h.2 clampTo ids 0 ?_ (by decide) (by decide)⟩
  rw [sampleEvents, Machine.run_append]
  exact hlock

end ChordV.Api.RuntimeVersions
