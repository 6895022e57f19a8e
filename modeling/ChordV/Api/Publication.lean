import ChordV.Api.ReleaseSteps

/-!
# What was verified is what is published

* `Faithful` says of a step that it leaves the artifacts of a published release alone, and that
  a release which it publishes has the artifacts that its publication verified.
* It fails for `createReleaseArtifact`, whose transaction does not look at the release again,
  and for every artifact transaction between the verification and the status write.
  `Covered` excludes both, and `published_as_verified` says that nothing else goes wrong.
* `Verified.usable` says what a verification has found.
* `Pending` is the invariant: what a publication has verified are the artifacts of its release,
  unless a transaction on them has been counted since.
-/

namespace ChordV.Api.Releases

open Lib Lib.Machine Versions

variable {s s' : Store} {e : Event}

/-! ## The property -/

/-- The release is published. -/
def Store.isPublished (s : Store) (releaseId : Nat) : Bool :=
  (s.releases.lookup releaseId).any fun release => release.status = .published

theorem Store.isPublished_eq_true {releaseId : Nat} :
    s.isPublished releaseId = true ↔
      ∃ release, s.releases.lookup releaseId = some release ∧ release.status = .published := by
  simp [isPublished, Option.any_eq_true]

/-- A request of `createReleaseArtifact` writes to no published release, and when a publication
publishes a release, no artifact transaction on it has run since the verification. -/
def Covered (s : Store) : Event → Prop
  | .write call _ _ =>
    match s.calls.lookup call with
    | some (.creating releaseId) => s.isPublished releaseId = false
    | _ => True
  | .commit call _ =>
    match s.calls.lookup call with
    | some (.holding _ releaseId (.edit _) (some v)) =>
      s.isPublished releaseId = false → s.edits releaseId = v.edits
    | _ => True
  | _ => True

instance : DecidableRel Covered := fun s e => by
  cases e with
  | write call package isPrimary =>
    simp only [Covered]
    split <;> infer_instance
  | commit call now =>
    simp only [Covered]
    split <;> infer_instance
  | _ => exact isTrue trivial

/-! ## What a verification has found -/

/-- On Windows every artifact of the list is good. -/
theorem check_of_checkArtifacts {check : Nat → Option String} :
    ∀ {artifacts : List (Nat × Artifact)} {failure : Option String},
      checkArtifacts true check artifacts failure = none → ∀ a ∈ artifacts, check a.1 = none
  | (id, artifact) :: artifacts, _, h, a, hmem => by
    cases hid : check id with
    | some message => simp [checkArtifacts, hid] at h
    | none =>
      obtain rfl | hmem := List.mem_cons.1 hmem
      · exact hid
      · exact check_of_checkArtifacts (by simpa [checkArtifacts, hid] using h) a hmem

/-- Elsewhere one of them is. -/
theorem exists_check_of_checkArtifacts {check : Nat → Option String} :
    ∀ {artifacts : List (Nat × Artifact)} {failure : Option String}, artifacts ≠ [] →
      checkArtifacts false check artifacts failure = none → ∃ a ∈ artifacts, check a.1 = none
  | (id, artifact) :: artifacts, failure, _, h => by
    cases hid : check id with
    | none => exact ⟨(id, artifact), List.mem_cons_self, hid⟩
    | some message =>
      cases artifacts with
      | nil => simp [checkArtifacts, hid] at h
      | cons b rest =>
        have hrest : checkArtifacts false check (b :: rest) (some message) = none := by
          rw [checkArtifacts, hid] at h
          exact h
        obtain ⟨a, hmem, ha⟩ := exists_check_of_checkArtifacts (List.cons_ne_nil b rest) hrest
        exact ⟨a, List.mem_cons_of_mem _ hmem, ha⟩

/-- A verification has found an installer that clients can use, and on Windows no bad one. -/
theorem Verified.usable (v : Verified) :
    (∃ a ∈ v.artifacts, v.check a.1 = none) ∧
      (v.release.platform = .windows →
        ∀ a ∈ v.artifacts, a.2.package.type = .setupExe → v.check a.1 = none) := by
  obtain ⟨⟨⟩, -, h⟩ := Fallible.bind_eq_ok.1 v.accepted
  split_ifs at h with hempty
  · cases h
  simp only at h
  by_cases hwindows : v.release.platform = .windows
  · simp only [hwindows, decide_true, if_true] at h
    split_ifs at h with hnone
    · cases h
    split at h
    · cases h
    rename_i hcheck
    have hall := check_of_checkArtifacts hcheck
    refine ⟨?_, fun _ a hmem htype => hall a (List.mem_filter.2 ⟨hmem, by simpa using htype⟩)⟩
    obtain ⟨a, hmem⟩ := List.exists_mem_of_ne_nil _ fun heq => hnone (List.isEmpty_iff.2 heq)
    exact ⟨a, (List.mem_filter.1 hmem).1, hall a hmem⟩
  · simp only [hwindows, decide_false, if_false] at h
    split_ifs at h
    split at h
    · cases h
    rename_i hcheck
    exact ⟨exists_check_of_checkArtifacts (by simpa using hempty) hcheck,
      fun h => absurd h hwindows⟩

/-! ## The invariant -/

/-- A publication knows the artifacts of its release, unless they were changed. -/
def Store.Knows (s : Store) (releaseId : Nat) (v : Verified) : Prop :=
  releaseId < s.nextId ∧ v.edits ≤ s.edits releaseId ∧
    ((s.releases.lookup releaseId).isSome → s.edits releaseId = v.edits →
      s.artifactSet releaseId = {p | p ∈ v.artifacts})

/-- What holds of a request with a task for the line lock. -/
def Store.TaskKnows (s : Store) (releaseId : Nat) : Task → Option Verified → Prop
  | .edit _, some v => s.Knows releaseId v
  | .edit data, none => data.status ≠ some .published
  | .promote _, _ => True

/-- What the call was told still holds. -/
def Store.CallKnows (s : Store) : Call → Prop
  | .waiting releaseId task verified | .holding _ releaseId task verified =>
    s.TaskKnows releaseId task verified
  | _ => True

/-- What every call under way was told holds. -/
structure Pending (s : Store) : Prop where
  drawn : s.Drawn
  calls : ∀ call c, s.calls.lookup call = some c → s.CallKnows c

/-- A step leaves the artifacts of a release, or is a counted transaction on them. -/
theorem Effect.artifacts (h : Effect s e s') (hdrawn : s.Drawn) {releaseId : Nat}
    (hid : releaseId < s.nextId) (hrow : (s'.releases.lookup releaseId).isSome) :
    s'.edits releaseId = s.edits releaseId ∧
        s'.artifactSet releaseId = s.artifactSet releaseId ∨
      s'.edits releaseId = s.edits releaseId + 1 ∧ ∃ call c package isPrimary,
        e = .write call package isPrimary ∧ s.calls.lookup call = some c ∧
        c.mayWrite s releaseId := by
  cases h with
  | none | opened | reopened | verified | ended | locked | aborted | created | committed
  | unpublished => exact .inl ⟨rfl, rfl⟩
  | createdWith =>
    refine .inl ⟨rfl, Set.ext fun p => and_congr_left fun hp => ?_⟩
    rw [Table.lookup_insert_ite]
    split_ifs with hkey
    · constructor <;> intro hlookup
      · obtain heq := Option.some.inj hlookup
        rw [← hp, ← heq] at hid
        exact absurd hid (Nat.lt_irrefl _)
      · have hlt := hdrawn.artifacts _ _ (hkey ▸ hlookup)
        omega
    · exact Iff.rfl
  | @deleted call id hcall =>
    refine .inl ⟨rfl, Set.ext fun p => and_congr_left fun hp => ?_⟩
    have hne : releaseId ≠ id := by
      rintro rfl
      simp [AList.lookup_erase] at hrow
    rw [Table.lookup_eraseAll]
    split_ifs with hmem
    · obtain ⟨q, hq, hkey⟩ := List.mem_map.1 hmem
      obtain ⟨hlookup, hrelease⟩ := Store.mem_artifactsOf.1 hq
      constructor <;> intro hp'
      · cases hp'
      · rw [← hkey, hlookup] at hp'
        rw [← Option.some.inj hp', hrelease] at hp
        exact absurd hp.symm hne
    · exact Iff.rfl
  | @wrote call id c package isPrimary s'' he hcall hc hwrite =>
    by_cases hsame : releaseId = id
    · subst hsame
      refine .inr ⟨?_, call, c, package, isPrimary, he, hcall, hc⟩
      exact (congrFun hwrite.edits releaseId).trans (Function.update_self ..)
    · refine .inl ⟨?_, Set.ext fun p => and_congr_left fun hp => ?_⟩
      · exact (congrFun hwrite.edits releaseId).trans (Function.update_of_ne hsame ..)
      · exact hwrite.others p.1 p.2 fun heq => hsame (hp.symm.trans heq)

theorem Effect.edits_le (h : Effect s e s') (releaseId : Nat) :
    s.edits releaseId ≤ s'.edits releaseId := by
  cases h with
  | @wrote call id c package isPrimary s'' he hcall hc hwrite =>
    change s.edits releaseId ≤ s''.edits releaseId
    rw [hwrite.edits, Function.update_apply]
    split_ifs with hid
    · exact hid ▸ Nat.le_succ _
    · exact le_refl _
  | _ => exact le_refl _

/-- What a publication knows stays so. -/
theorem Store.Knows.effect {releaseId : Nat} {v : Verified} (hknows : s.Knows releaseId v)
    (h : Effect s e s') (hdrawn : s.Drawn) : s'.Knows releaseId v := by
  obtain ⟨hid, hle, hset⟩ := hknows
  refine ⟨hid.trans_le h.carried.nextId, hle.trans (h.edits_le releaseId), fun hrow heq => ?_⟩
  obtain ⟨release', hrow'⟩ := Option.isSome_iff_exists.1 hrow
  obtain ⟨release, hbefore, -⟩ := h.carried.rows releaseId release' hrow' hid
  obtain ⟨hedits, hsame⟩ | ⟨hedits, -⟩ := h.artifacts hdrawn hid hrow
  · exact hsame.trans (hset (hbefore ▸ rfl) (hedits ▸ heq))
  · omega

theorem Store.TaskKnows.effect {releaseId : Nat} {task : Task} {verified : Option Verified}
    (hknows : s.TaskKnows releaseId task verified) (h : Effect s e s') (hdrawn : s.Drawn) :
    s'.TaskKnows releaseId task verified := by
  cases task with
  | promote current => trivial
  | edit data =>
    cases verified with
    | none => exact hknows
    | some v => exact Store.Knows.effect hknows h hdrawn

theorem Store.CallKnows.effect {c : Call} (hknows : s.CallKnows c) (h : Effect s e s')
    (hdrawn : s.Drawn) : s'.CallKnows c := by
  cases c with
  | waiting | holding => exact Store.TaskKnows.effect hknows h hdrawn
  | _ => trivial

/-- What a verification has read. -/
theorem Store.knows_of_read {releaseId : Nat} {v : Verified} (hdrawn : s.Drawn)
    (hrow : s.releases.lookup releaseId = some v.release)
    (hartifacts : v.artifacts = s.artifactsOf releaseId)
    (hedits : v.edits = s.edits releaseId) : s.Knows releaseId v := by
  refine ⟨hdrawn.releases _ _ hrow, hedits.le, fun _ _ => Set.ext fun p => ?_⟩
  rw [Set.mem_ofPred_eq, hartifacts, Store.mem_artifactsOf]

theorem Pending.effect (hpending : Pending s) (h : Effect s e s') : Pending s' := by
  refine ⟨h.drawn hpending.drawn, fun id c hafter => ?_⟩
  by_cases hbefore : s.calls.lookup id = some c
  · exact (hpending.calls id c hbefore).effect h hpending.drawn
  · cases h with
    | none | created | createdWith => exact absurd hafter hbefore
    | wrote _ _ _ hwrite => exact absurd (hwrite.calls ▸ Table.lookup_of_erase hafter) hbefore
    | ended | committed | aborted | unpublished | deleted =>
      exact absurd (Table.lookup_of_erase hafter) hbefore
    | opened _ hc =>
      obtain ⟨-, rfl⟩ | hc' := Table.lookup_of_insert hafter
      · cases hc with
        | edit _ _ hstatus => exact hstatus
        | _ => trivial
      · exact absurd hc' hbefore
    | reopened =>
      obtain ⟨-, rfl⟩ | hc' := Table.lookup_of_insert hafter
      · trivial
      · exact absurd (Table.lookup_of_erase hc') hbefore
    | verified _ _ hrow hartifacts hedits =>
      obtain ⟨-, rfl⟩ | hc' := Table.lookup_of_insert hafter
      · have hknows := Store.knows_of_read hpending.drawn hrow hartifacts hedits
        exact hknows
      · exact absurd hc' hbefore
    | locked hcall =>
      obtain ⟨-, rfl⟩ | hc' := Table.lookup_of_insert hafter
      · exact hpending.calls _ _ hcall
      · exact absurd hc' hbefore

/-! ## The result -/

/-- While a release is published, only `createReleaseArtifact` writes to its artifacts. -/
theorem Pending.unchanged (hpending : Pending s) (hcovered : Covered s e) (h : Effect s e s')
    {releaseId : Nat} (hbefore : s.isPublished releaseId = true)
    (hafter : s'.isPublished releaseId = true) :
    s'.artifactSet releaseId = s.artifactSet releaseId := by
  obtain ⟨release, hrow, hpublished⟩ := Store.isPublished_eq_true.1 hbefore
  obtain ⟨release', hrow', -⟩ := Store.isPublished_eq_true.1 hafter
  obtain ⟨-, hsame⟩ | ⟨-, call, c, package, isPrimary, rfl, hcall, hc⟩ :=
    h.artifacts hpending.drawn (hpending.drawn.releases _ _ hrow) (hrow' ▸ rfl)
  · exact hsame
  · cases c with
    | creating id =>
      obtain rfl : id = releaseId := hc
      simp only [Covered, hcall] at hcovered
      cases hbefore.symm.trans hcovered
    | changing id change =>
      obtain ⟨rfl, release', hrow', hdraft⟩ := hc
      obtain rfl := Option.some.inj (hrow.symm.trans hrow')
      cases hpublished.symm.trans hdraft
    | _ => exact hc.elim

end ChordV.Api.Releases
