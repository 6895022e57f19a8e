import ChordV.Api.Releases

/-!
# What a step of the release center does

* `Effect` lists the changes that a step can make, each with what the program has checked for
  it, and `step_effect` says that there are no others.
* `ArtifactWrite` is what the artifact transactions have in common: they leave releases, locks
  and the artifacts of other releases as they are.
-/

namespace ChordV.Api.Releases

open Lib Lib.Machine Versions

/-! ## Rows -/

/-- The minimum version of a release is not above its version. -/
def Release.MinimumKept (release : Release) : Prop :=
  precedence release.minimumVersion.semver release.version.semver ≠ .gt

/-- The minimum version that an edit writes is not above the version. -/
def Edit.MinimumBelow (data : Edit) (version : Version) : Prop :=
  ∀ minimumVersion, data.minimumVersion = some minimumVersion →
    precedence minimumVersion.semver version.semver ≠ .gt

theorem assertMinimum_eq_ok {version minimumVersion : Version} :
    assertMinimumVersionNotAboveRelease version minimumVersion = .ok () ↔
      precedence minimumVersion.semver version.semver ≠ .gt := by
  simp [assertMinimumVersionNotAboveRelease]

/-- What `createRelease` inserts. -/
theorem CreateReleaseInput.of_release {input : CreateReleaseInput} {release : Release}
    (h : input.release = .ok release) : release.status ≠ .published ∧ release.MinimumKept := by
  unfold CreateReleaseInput.release at h
  split_ifs at h with hpublished
  · cases h
  obtain ⟨version, -, h⟩ := Fallible.bind_eq_ok.1 h
  obtain ⟨minimumVersion, -, h⟩ := Fallible.bind_eq_ok.1 h
  obtain ⟨⟨⟩, hminimum, h⟩ := Fallible.bind_eq_ok.1 h
  obtain rfl := Except.ok.inj h
  exact ⟨hpublished, assertMinimum_eq_ok.1 hminimum⟩

/-- What `updateRelease` prepares to write. -/
theorem UpdateReleaseInput.of_baseData {input : UpdateReleaseInput} {current : Release}
    {data : Edit} (h : input.baseData current = .ok data) :
    data.MinimumBelow current.version ∧ data.status = none := by
  obtain ⟨⟨⟩, -, h⟩ := Fallible.bind_eq_ok.1 h
  obtain ⟨next, -, h⟩ := Fallible.bind_eq_ok.1 h
  obtain ⟨⟨⟩, hminimum, h⟩ := Fallible.bind_eq_ok.1 h
  obtain rfl := Except.ok.inj h
  refine ⟨fun minimumVersion hmap => ?_, rfl⟩
  obtain ⟨-, -, rfl⟩ := Option.map_eq_some_iff.1 hmap
  exact assertMinimum_eq_ok.1 hminimum

theorem eq_nil_of_latest {versions : List Version} (h : latest versions = none) :
    versions = [] := by
  have hlength := congrArg List.length (List.head?_eq_none_iff.1 h)
  rwa [List.length_mergeSort, List.length_nil, List.length_eq_zero_iff] at hlength

/-- The newest version is not below any of the list. -/
theorem le_latest {versions : List Version} {newest : Version}
    (h : latest versions = some newest) {version : Version} (hmem : version ∈ versions) :
    (precedence version.semver newest.semver).isLE = true := by
  unfold latest at h
  have htrans : ∀ a b c : Version, (precedence b.semver a.semver).isLE = true →
      (precedence c.semver b.semver).isLE = true → (precedence c.semver a.semver).isLE = true :=
    fun a b c hab hbc => Std.TransCmp.isLE_trans hbc hab
  have htotal : ∀ a b : Version, ((precedence b.semver a.semver).isLE ||
      (precedence a.semver b.semver).isLE) = true := by
    intro a b
    rw [precedence_swap a.semver]
    cases precedence b.semver a.semver <;> rfl
  have hsorted := List.pairwise_mergeSort htrans htotal versions
  obtain ⟨rest, hcons⟩ : ∃ rest, versions.mergeSort
      (fun left right => (precedence right.semver left.semver).isLE) = newest :: rest :=
    List.head?_eq_some_iff.1 h
  rw [hcons] at hsorted
  have hin : version ∈ newest :: rest := hcons ▸ List.mem_mergeSort.2 hmem
  obtain rfl | hin := List.mem_cons.1 hin
  · rw [precedence_self]
    rfl
  · exact (List.pairwise_cons.1 hsorted).1 version hin

/-! ## Artifact transactions -/

namespace Store

variable {s s' : Store}

/-- The artifacts of a release. -/
def artifactSet (s : Store) (releaseId : Nat) : Set (Nat × Artifact) :=
  {p | s.artifacts.lookup p.1 = some p.2 ∧ p.2.releaseId = releaseId}

theorem mem_artifactsOf {releaseId : Nat} {p : Nat × Artifact} :
    p ∈ s.artifactsOf releaseId ↔ p ∈ s.artifactSet releaseId := by
  rw [artifactsOf, List.mem_insertionSort, List.mem_filter, decide_eq_true_eq]
  exact and_congr_left' Table.mem_pairs

/-- Every row has an id from the counter. -/
structure Drawn (s : Store) : Prop where
  releases : ∀ id release, s.releases.lookup id = some release → id < s.nextId
  artifacts : ∀ id artifact, s.artifacts.lookup id = some artifact → id < s.nextId

/-- An artifact transaction of a release. -/
structure ArtifactWrite (s s' : Store) (releaseId : Nat) : Prop where
  releases : s'.releases = s.releases
  lineLocks : s'.lineLocks = s.lineLocks
  calls : s'.calls = s.calls
  nextId : s.nextId ≤ s'.nextId
  drawn : ∀ id artifact, s'.artifacts.lookup id = some artifact → id < s'.nextId
  edits : s'.edits = Function.update s.edits releaseId (s.edits releaseId + 1)
  others : ∀ id artifact, artifact.releaseId ≠ releaseId →
    (s'.artifacts.lookup id = some artifact ↔ s.artifacts.lookup id = some artifact)

theorem lookup_clearPrimary (s : Store) (releaseId : Nat) (isPrimary : Option Bool) (id : Nat) :
    (s.clearPrimary releaseId isPrimary).lookup id = s.artifacts.lookup id ∨
      ∃ a, s.artifacts.lookup id = some a ∧ a.releaseId = releaseId ∧
        (s.clearPrimary releaseId isPrimary).lookup id = some { a with isPrimary := false } := by
  unfold clearPrimary
  split_ifs
  · rw [Table.lookup_updateWhere]
    cases ha : s.artifacts.lookup id with
    | none => exact .inl rfl
    | some a =>
      by_cases hr : a.releaseId = releaseId
      · exact .inr ⟨a, rfl, hr, by simp [hr]⟩
      · exact .inl (by simp [hr])
  · exact .inl rfl

theorem clearPrimary_drawn (hdrawn : s.Drawn) {releaseId id : Nat} {isPrimary : Option Bool}
    {artifact : Artifact} (h : (s.clearPrimary releaseId isPrimary).lookup id = some artifact) :
    id < s.nextId := by
  obtain heq | ⟨a, ha, -, -⟩ := lookup_clearPrimary s releaseId isPrimary id
  · exact hdrawn.artifacts id artifact (heq ▸ h)
  · exact hdrawn.artifacts id a ha

theorem clearPrimary_others {releaseId id : Nat} (isPrimary : Option Bool) {artifact : Artifact}
    (hother : artifact.releaseId ≠ releaseId) :
    (s.clearPrimary releaseId isPrimary).lookup id = some artifact ↔
      s.artifacts.lookup id = some artifact := by
  obtain heq | ⟨a, ha, hr, heq⟩ := lookup_clearPrimary s releaseId isPrimary id
  · rw [heq]
  · rw [heq, ha]
    constructor <;> intro h <;> obtain rfl := Option.some.inj h <;> exact absurd hr hother

theorem insertArtifact_write (hdrawn : s.Drawn) (releaseId : Nat) (package : Package)
    (isPrimary : Option Bool) :
    ArtifactWrite s (s.insertArtifact releaseId package isPrimary) releaseId where
  releases := rfl
  lineLocks := rfl
  calls := rfl
  nextId := Nat.le_succ _
  edits := rfl
  drawn := by
    intro id artifact h
    rw [insertArtifact, Table.lookup_insert_ite] at h
    split_ifs at h with hid
    · exact hid ▸ Nat.lt_succ_self _
    · exact Nat.lt_succ_of_lt (clearPrimary_drawn hdrawn h)
  others := by
    intro id artifact hother
    rw [insertArtifact, Table.lookup_insert_ite]
    split_ifs with hid
    · constructor
      · intro h
        obtain rfl := Option.some.inj h
        exact absurd rfl hother
      · intro h
        exact absurd (hdrawn.artifacts id artifact h) (hid ▸ Nat.lt_irrefl _)
    · exact clearPrimary_others isPrimary hother

theorem replaceArtifact_write (hdrawn : s.Drawn) {releaseId artifactId : Nat} {current : Artifact}
    (hcurrent : s.artifacts.lookup artifactId = some current)
    (hrelease : current.releaseId = releaseId) (package : Package) (isPrimary : Option Bool) :
    ArtifactWrite s (s.replaceArtifact releaseId artifactId current package isPrimary)
      releaseId where
  releases := rfl
  lineLocks := rfl
  calls := rfl
  nextId := le_refl _
  edits := rfl
  drawn := by
    intro id artifact h
    rw [replaceArtifact, Table.lookup_insert_ite] at h
    split_ifs at h with hid
    · exact hdrawn.artifacts id current (hid ▸ hcurrent)
    · exact clearPrimary_drawn hdrawn h
  others := by
    intro id artifact hother
    rw [replaceArtifact, Table.lookup_insert_ite]
    split_ifs with hid
    · rw [hid, hcurrent]
      constructor <;> intro h <;> obtain rfl := Option.some.inj h
      · exact absurd rfl hother
      · exact absurd hrelease hother
    · exact clearPrimary_others isPrimary hother

/-- A deletion erases one row of the release and may mark another. -/
theorem deleteArtifact_write (hdrawn : s.Drawn) {releaseId artifactId : Nat} {current : Artifact}
    (hcurrent : s.artifacts.lookup artifactId = some current)
    (hrelease : current.releaseId = releaseId) :
    ArtifactWrite s (s.deleteArtifact releaseId artifactId current) releaseId := by
  have hlookup : ∀ id, (s.deleteArtifact releaseId artifactId current).artifacts.lookup id =
        (s.artifacts.erase artifactId).lookup id ∨
      ∃ a, s.artifacts.lookup id = some a ∧ a.releaseId = releaseId ∧
        (s.deleteArtifact releaseId artifactId current).artifacts.lookup id =
          some { a with isPrimary := true } := by
    intro id
    simp only [deleteArtifact, edited]
    split_ifs
    · split
      · rename_i next hnext
        have hmem := List.mem_of_mem_head? hnext
        obtain ⟨hin, hne⟩ := List.mem_filter.1 hmem
        obtain ⟨hrow, hr⟩ := mem_artifactsOf.1 hin
        rw [Table.lookup_modify]
        split_ifs with hid
        · refine .inr ⟨next.2, hid ▸ hrow, hr, ?_⟩
          rw [AList.lookup_erase_ne (by simpa using hne), hrow]
          rfl
        · exact .inl rfl
      · exact .inl rfl
    · exact .inl rfl
  refine ⟨rfl, rfl, rfl, le_refl _, ?_, rfl, ?_⟩
  · intro id artifact h
    obtain heq | ⟨a, ha, -, -⟩ := hlookup id
    · rw [heq, Table.lookup_erase_ite] at h
      split_ifs at h
      exact hdrawn.artifacts id artifact h
    · exact hdrawn.artifacts id a ha
  · intro id artifact hother
    obtain heq | ⟨a, ha, hr, heq⟩ := hlookup id
    · rw [heq, Table.lookup_erase_ite]
      split_ifs with hid
      · rw [hid, hcurrent]
        constructor
        · intro h
          cases h
        · intro h
          obtain rfl := Option.some.inj h
          exact absurd hrelease hother
      · exact Iff.rfl
    · rw [heq, ha]
      constructor <;> intro h <;> obtain rfl := Option.some.inj h <;> exact absurd hr hother

theorem artifact_eq_some {releaseId artifactId : Nat} {current : Artifact}
    (h : s.artifact releaseId artifactId = some current) :
    s.artifacts.lookup artifactId = some current ∧ current.releaseId = releaseId := by
  simpa [artifact, Option.filter_eq_some_iff] using h

/-- A transaction under the lock of the release writes its artifacts, or nothing. -/
theorem change_write (hdrawn : s.Drawn) (releaseId : Nat) (package : Package)
    (isPrimary : Option Bool) (c : Change) :
    s.change releaseId package isPrimary c = s ∨
      ArtifactWrite s (s.change releaseId package isPrimary c) releaseId := by
  cases c with
  | update artifactId | replace artifactId =>
    cases hcurrent : s.artifact releaseId artifactId with
    | none => exact .inl (by simp only [change, hcurrent])
    | some current =>
      obtain ⟨hrow, hrelease⟩ := artifact_eq_some hcurrent
      simp only [change, hcurrent]
      exact .inr (replaceArtifact_write hdrawn hrow hrelease package isPrimary)
  | upload =>
    cases hfind : (s.artifactsOf releaseId).find? fun a =>
        package.duplicates a.2.package with
    | none =>
      simp only [change, hfind]
      exact .inr (insertArtifact_write hdrawn releaseId package isPrimary)
    | some duplicate =>
      obtain ⟨hrow, hrelease⟩ := mem_artifactsOf.1 (List.mem_of_find?_eq_some hfind)
      simp only [change, hfind]
      exact .inr (replaceArtifact_write hdrawn hrow hrelease package isPrimary)
  | delete artifactId =>
    cases hcurrent : s.artifact releaseId artifactId with
    | none => exact .inl (by simp only [change, hcurrent])
    | some current =>
      obtain ⟨hrow, hrelease⟩ := artifact_eq_some hcurrent
      simp only [change, hcurrent]
      exact .inr (deleteArtifact_write hdrawn hrow hrelease)

end Store

/-! ## Steps -/

/-- What a request has checked when its first statement lets it go on. -/
inductive Opened (s : Store) : Call → Prop where
  | publishing {releaseId : Nat} {data : Edit} {current : Release} (publishedAt : Option Nat)
      (hrow : s.releases.lookup releaseId = some current)
      (hminimum : data.MinimumBelow current.version) :
      Opened s (.publishing releaseId data publishedAt)
  | edit {releaseId : Nat} {data : Edit} {current : Release}
      (hrow : s.releases.lookup releaseId = some current)
      (hminimum : data.MinimumBelow current.version) (hstatus : data.status ≠ some .published) :
      Opened s (.waiting releaseId (.edit data) none)
  | promote {releaseId : Nat} {current : Release}
      (hrow : s.releases.lookup releaseId = some current) :
      Opened s (.waiting releaseId (.promote current) none)
  | unpublishing (releaseId : Nat) : Opened s (.unpublishing releaseId)
  | deleting (releaseId : Nat) : Opened s (.deleting releaseId)
  | creating (releaseId : Nat) : Opened s (.creating releaseId)
  | changing (releaseId : Nat) (c : Change) : Opened s (.changing releaseId c)
  | reusing (releaseId : Nat) (artifactId : Option Nat) : Opened s (.reusing releaseId artifactId)

/-- Whether the request is a transaction on the artifacts of a release that may run: the one of
`createReleaseArtifact`, or another one on a draft. -/
def Call.mayWrite (s : Store) (releaseId : Nat) : Call → Prop
  | .creating r => r = releaseId
  | .changing r _ =>
    r = releaseId ∧ ∃ release, s.releases.lookup r = some release ∧ release.status = .draft
  | _ => False

/-- Whether the request holds a line lock. -/
def Call.isHolding : Call → Bool
  | .holding _ _ _ _ => true
  | _ => false

/-- The changes that an event can make. -/
inductive Effect (s : Store) (e : Event) : Store → Prop where
  | none : Effect s e s
  | created {release : Release} (hstatus : release.status ≠ .published)
      (hminimum : release.MinimumKept) :
      Effect s e
        { s with releases := s.releases.insert s.nextId release, nextId := s.nextId + 1 }
  | createdWith {release : Release} (package : Package) (hstatus : release.status ≠ .published)
      (hminimum : release.MinimumKept) :
      Effect s e
        { s with
          releases := s.releases.insert s.nextId release
          artifacts := s.artifacts.insert (s.nextId + 1)
            { releaseId := s.nextId, isPrimary := true, package }
          nextId := s.nextId + 2 }
  | opened {call : Nat} {c : Call} (hfree : s.calls.lookup call = none) (hc : Opened s c) :
      Effect s e (s.setCall call c)
  | reopened {call releaseId : Nat} {artifactId : Option Nat} (c : Change)
      (hcall : s.calls.lookup call = some (.reusing releaseId artifactId)) :
      Effect s e ((s.endCall call).setCall call (.changing releaseId c))
  | verified {call releaseId : Nat} {data : Edit} {v : Verified} (publishedAt : Nat)
      (hcall : s.calls.lookup call = none ∧ data = {} ∨
        ∃ time, s.calls.lookup call = some (.publishing releaseId data time))
      (hrow : s.releases.lookup releaseId = some v.release)
      (hartifacts : v.artifacts = s.artifactsOf releaseId)
      (hedits : v.edits = s.edits releaseId) :
      Effect s e (s.setCall call (.waiting releaseId
        (.edit { data with status := some .published, publishedAt := some (some publishedAt) })
        (some v)))
  | ended {call : Nat} (hidle : ∀ c, s.calls.lookup call = some c → c.isHolding = false) :
      Effect s e (s.endCall call)
  | locked {call releaseId : Nat} {task : Task} {verified : Option Verified} {persisted : Release}
      (hcall : s.calls.lookup call = some (.waiting releaseId task verified))
      (hrow : s.releases.lookup releaseId = some persisted)
      (hfree : s.lineLocks.lookup persisted.platform = Option.none)
      (hcheck : s.checkTask persisted task = .ok ()) :
      Effect s e
        { s with
          lineLocks := s.lineLocks.insert persisted.platform call
          calls := s.calls.insert call (.holding persisted.platform releaseId task verified) }
  | committed {call now releaseId : Nat} {platform : Platform} {task : Task}
      {verified : Option Verified} (he : e = .commit call now)
      (hcall : s.calls.lookup call = some (.holding platform releaseId task verified)) :
      Effect s e
        { s with
          releases := s.releases.modify releaseId (Task.write task now)
          lineLocks := s.lineLocks.erase platform
          calls := s.calls.erase call }
  | unpublished {call releaseId : Nat}
      (hcall : s.calls.lookup call = some (.unpublishing releaseId)) :
      Effect s e
        { s with
          releases := s.releases.modify releaseId Release.unpublish
          calls := s.calls.erase call }
  | deleted {call releaseId : Nat} (hcall : s.calls.lookup call = some (.deleting releaseId)) :
      Effect s e
        { s with
          releases := s.releases.erase releaseId
          artifacts := s.artifacts.eraseAll ((s.artifactsOf releaseId).map Prod.fst)
          calls := s.calls.erase call }
  | wrote {call releaseId : Nat} {c : Call} {package : Package} {isPrimary : Option Bool}
      {s' : Store} (he : e = .write call package isPrimary)
      (hcall : s.calls.lookup call = some c) (hc : c.mayWrite s releaseId)
      (hwrite : s.ArtifactWrite s' releaseId) : Effect s e (s'.endCall call)
  | aborted {call releaseId : Nat} {platform : Platform} {task : Task}
      {verified : Option Verified}
      (hcall : s.calls.lookup call = some (.holding platform releaseId task verified)) :
      Effect s e
        { s with lineLocks := s.lineLocks.erase platform, calls := s.calls.erase call }

namespace Store

variable {s : Store} {e : Event}

theorem createRelease_effect (input : CreateReleaseInput) : Effect s e (s.createRelease input) := by
  unfold createRelease
  split
  · exact .none
  · rename_i release hrelease
    obtain ⟨hstatus, hminimum⟩ := CreateReleaseInput.of_release hrelease
    split_ifs
    · exact .none
    · split
      · exact .created hstatus hminimum
      · exact .createdWith _ hstatus hminimum

theorem updateRelease_effect {call : Nat} (hfree : s.calls.lookup call = none) (releaseId : Nat)
    (input : UpdateReleaseInput) : Effect s e (s.updateRelease call releaseId input) := by
  unfold updateRelease
  split
  · exact .none
  rename_i current hrow
  split
  · exact .none
  rename_i data hdata
  obtain ⟨hminimum, hstatus⟩ := UpdateReleaseInput.of_baseData hdata
  split
  · exact .opened hfree (.publishing _ hrow hminimum)
  · exact .opened hfree (.edit hrow hminimum (by simp))
  · split_ifs
    · exact .none
    · exact .opened hfree (.edit hrow hminimum (by simp [hstatus]))

theorem verify_effect {call releaseId : Nat} {data : Edit} {publishedAt : Option Nat}
    (hcall : s.calls.lookup call = none ∧ data = {} ∨
      ∃ time, s.calls.lookup call = some (.publishing releaseId data time))
    (check : Nat → Option String) (now : Nat) :
    Effect s e (s.verify call releaseId data publishedAt check now) := by
  have hidle : ∀ c, s.calls.lookup call = some c → c.isHolding = false := by
    obtain ⟨hnone, -⟩ | ⟨time, hsome⟩ := hcall
    · intro c hc
      cases hnone ▸ hc
    · intro c hc
      obtain rfl := Option.some.inj (hsome.symm.trans hc)
      rfl
  unfold verify
  split
  · exact .ended hidle
  rename_i release hrow
  split
  · exact .ended hidle
  rename_i h
  exact .verified _ hcall hrow rfl rfl

theorem readRelease_effect {call : Nat} (hfree : s.calls.lookup call = none) (releaseId : Nat)
    (assert : Release → Except Exception Unit) {c : Call} (hc : Opened s c) :
    Effect s e (s.readRelease releaseId assert call c) := by
  unfold readRelease
  split
  · exact .none
  split
  · exact .none
  · exact .opened hfree hc

theorem begin_effect {call : Nat} (hfree : s.calls.lookup call = none)
    (he : e.call = some call) : Effect s e (s.begin e) := by
  cases e with
  | updateRelease _ releaseId input =>
    obtain rfl := Option.some.inj he
    exact updateRelease_effect hfree releaseId input
  | publishRelease _ releaseId publishedAt check now =>
    obtain rfl := Option.some.inj he
    exact verify_effect (.inl ⟨hfree, rfl⟩) check now
  | promoteRelease _ releaseId =>
    obtain rfl := Option.some.inj he
    simp only [begin, promoteRelease]
    split
    · exact .none
    rename_i hrow
    split_ifs
    · exact .opened hfree (.promote hrow)
    · exact .none
  | unpublishRelease _ releaseId =>
    obtain rfl := Option.some.inj he
    exact readRelease_effect hfree releaseId _ (.unpublishing releaseId)
  | deleteRelease _ releaseId =>
    obtain rfl := Option.some.inj he
    exact readRelease_effect hfree releaseId _ (.deleting releaseId)
  | createReleaseArtifact _ releaseId =>
    obtain rfl := Option.some.inj he
    exact readRelease_effect hfree releaseId _ (.creating releaseId)
  | changeReleaseArtifact _ releaseId c =>
    obtain rfl := Option.some.inj he
    simp only [begin, readArtifact]
    split_ifs
    · exact readRelease_effect hfree releaseId _ (.changing releaseId c)
    · exact .none
  | reuseReleaseArtifact _ releaseId sourceArtifactId artifactId =>
    obtain rfl := Option.some.inj he
    simp only [begin, reuseReleaseArtifact]
    split
    · split
      · exact .none
      split_ifs
      · exact .opened hfree (.reusing releaseId artifactId)
      · exact .none
    · exact .none
  | createRelease _ | verify _ _ _ | reuse _ | lock _ | commit _ _ | write _ _ _ | abort _ =>
    exact .none

theorem lock_effect {call releaseId : Nat} {task : Task} {verified : Option Verified}
    (hcall : s.calls.lookup call = some (.waiting releaseId task verified)) :
    Effect s e (s.lock call releaseId task verified) := by
  have hidle : ∀ c, s.calls.lookup call = some c → c.isHolding = false := by
    intro c hc
    obtain rfl := Option.some.inj (hcall.symm.trans hc)
    rfl
  unfold lock
  split
  · exact .ended hidle
  rename_i persisted hrow
  split_ifs with htaken
  · exact .none
  split
  · exact .ended hidle
  rename_i hcheck
  exact .locked hcall hrow (by simpa using htaken) hcheck

theorem commit_effect {call now : Nat} {c : Call} (hcall : s.calls.lookup call = some c)
    (he : e = .commit call now) : Effect s e (s.commit call now c) := by
  cases c with
  | holding platform releaseId task verified => exact .committed he hcall
  | unpublishing releaseId => exact .unpublished hcall
  | deleting releaseId =>
    have hidle : ∀ c, s.calls.lookup call = some c → c.isHolding = false := by
      intro c hc
      obtain rfl := Option.some.inj (hcall.symm.trans hc)
      rfl
    simp only [commit]
    split
    · exact .ended hidle
    split
    · exact .ended hidle
    · exact .deleted hcall
  | _ => exact .none

/-- The transaction of an artifact request runs, or the request ends without it. -/
theorem write_effect (hdrawn : s.Drawn) {call : Nat} {c : Call}
    (hcall : s.calls.lookup call = some c) {package : Package} {isPrimary : Option Bool}
    (he : e = .write call package isPrimary) :
    Effect s e (s.write call package isPrimary c) := by
  cases c with
  | creating releaseId =>
    simp only [write]
    split
    · refine .ended fun c hc => ?_
      obtain rfl := Option.some.inj (hcall.symm.trans hc)
      rfl
    · exact .wrote he hcall rfl (insertArtifact_write hdrawn releaseId package isPrimary)
  | changing releaseId c =>
    have hended : Effect s e (s.endCall call) := .ended fun c hc => by
      obtain rfl := Option.some.inj (hcall.symm.trans hc)
      rfl
    simp only [write, changeLocked]
    split
    · exact hended
    rename_i release hrow
    cases hcheck : assertReleaseArtifactsMutable release with
    | error _ => exact hended
    | ok _ =>
      have hdraft : release.status = .draft := by
        by_contra hne
        simp [assertReleaseArtifactsMutable, hne] at hcheck
      obtain heq | hwrite := change_write hdrawn releaseId package isPrimary c
      · simpa only [heq] using hended
      · exact .wrote he hcall ⟨rfl, release, hrow, hdraft⟩ hwrite
  | _ => exact .none

theorem advance_effect (hdrawn : s.Drawn) {call : Nat} {c : Call}
    (hcall : s.calls.lookup call = some c) (he : e.call = some call) :
    Effect s e (s.advance call c e) := by
  cases e with
  | verify _ check now =>
    obtain rfl := Option.some.inj he
    cases c with
    | publishing releaseId data publishedAt => exact verify_effect (.inr ⟨_, hcall⟩) check now
    | _ => exact .none
  | lock _ =>
    obtain rfl := Option.some.inj he
    cases c with
    | waiting releaseId task verified => exact lock_effect hcall
    | _ => exact .none
  | reuse call =>
    obtain rfl := Option.some.inj he
    cases c with
    | reusing releaseId artifactId =>
      have hended : Effect s (.reuse call) (s.endCall call) := .ended fun c hc => by
        obtain rfl := Option.some.inj (hcall.symm.trans hc)
        rfl
      simp only [advance, readArtifact, readRelease]
      split_ifs
      · split
        · exact hended
        split
        · exact hended
        · exact .reopened _ hcall
      · exact hended
    | _ => exact .none
  | commit _ now =>
    obtain rfl := Option.some.inj he
    exact commit_effect hcall rfl
  | write _ package isPrimary =>
    obtain rfl := Option.some.inj he
    exact write_effect hdrawn hcall rfl
  | abort _ =>
    obtain rfl := Option.some.inj he
    cases c with
    | holding platform releaseId task verified => exact .aborted hcall
    | _ =>
      refine .ended fun c hc => ?_
      obtain rfl := Option.some.inj (hcall.symm.trans hc)
      rfl
  | createRelease _ | updateRelease _ _ _ | publishRelease _ _ _ _ _ | promoteRelease _ _
  | unpublishRelease _ _ | deleteRelease _ _ | createReleaseArtifact _ _
  | changeReleaseArtifact _ _ _ | reuseReleaseArtifact _ _ _ _ => exact .none

end Store

open Store in
/-- An event makes one of the changes of `Effect`. -/
theorem step_effect {s : Store} (hdrawn : s.Drawn) (e : Event) : Effect s e (step s e) := by
  unfold step
  split
  · exact createRelease_effect _
  split
  · exact .none
  rename_i call he
  split
  · rename_i hfree
    exact begin_effect hfree he
  · rename_i c hcall
    exact advance_effect hdrawn hcall he

/-! ## What a step leaves -/

@[simp] theorem Task.write_platform (task : Task) (now : Nat) (release : Release) :
    (task.write now release).platform = release.platform := by
  cases task with
  | edit data => rfl
  | promote current =>
    unfold write
    split_ifs <;> rfl

@[simp] theorem Task.write_version (task : Task) (now : Nat) (release : Release) :
    (task.write now release).version = release.version := by
  cases task with
  | edit data => rfl
  | promote current =>
    unfold write
    split_ifs <;> rfl

variable {s s' : Store} {e : Event}

/-- The rows of releases keep their platform and version, and new ones take new ids. -/
structure Carried (s s' : Store) : Prop where
  nextId : s.nextId ≤ s'.nextId
  rows : ∀ releaseId release', s'.releases.lookup releaseId = some release' →
    releaseId < s.nextId → ∃ release, s.releases.lookup releaseId = some release ∧
      release'.platform = release.platform ∧ release'.version = release.version

theorem Carried.of_eq (hreleases : s'.releases = s.releases) (hnextId : s.nextId ≤ s'.nextId) :
    Carried s s' :=
  ⟨hnextId, fun _ release' h _ => ⟨release', hreleases ▸ h, rfl, rfl⟩⟩

/-- An update of one row that keeps its platform and version. -/
theorem Carried.of_modify {releaseId : Nat} {f : Release → Release}
    (hf : ∀ r, (f r).platform = r.platform ∧ (f r).version = r.version)
    (hreleases : s'.releases = s.releases.modify releaseId f) (hnextId : s.nextId ≤ s'.nextId) :
    Carried s s' := by
  refine ⟨hnextId, fun id release' h _ => ?_⟩
  rw [hreleases, Table.lookup_modify] at h
  split_ifs at h with hid
  · obtain ⟨release, hrow, rfl⟩ := Option.map_eq_some_iff.1 h
    exact ⟨release, hid ▸ hrow, hf release⟩
  · exact ⟨release', h, rfl, rfl⟩

theorem Carried.of_insert {release : Release} (hnextId : s.nextId ≤ s'.nextId)
    (hreleases : s'.releases = s.releases.insert s.nextId release) : Carried s s' := by
  refine ⟨hnextId, fun id release' h hlt => ?_⟩
  rw [hreleases, AList.lookup_insert_ne hlt.ne] at h
  exact ⟨release', h, rfl, rfl⟩

theorem Effect.carried (h : Effect s e s') : Carried s s' := by
  cases h with
  | none | opened | reopened | verified | ended | locked | aborted =>
    exact .of_eq rfl (le_refl _)
  | wrote _ _ _ hwrite => exact .of_eq hwrite.releases hwrite.nextId
  | created => exact .of_insert (Nat.le_succ _) rfl
  | createdWith => exact .of_insert (Nat.le_add_right _ 2) rfl
  | @committed _ now _ _ task =>
    exact .of_modify (f := task.write now) (fun r => ⟨by simp, by simp⟩) rfl (le_refl _)
  | unpublished => exact .of_modify (f := Release.unpublish) (fun _ => ⟨rfl, rfl⟩) rfl (le_refl _)
  | deleted =>
    refine ⟨le_refl _, fun id release' hrow _ => ?_⟩
    rw [Table.lookup_erase_ite] at hrow
    split_ifs at hrow
    exact ⟨release', hrow, rfl, rfl⟩

theorem Effect.drawn (h : Effect s e s') (hdrawn : s.Drawn) : s'.Drawn := by
  have hreleases : ∀ id release, s'.releases.lookup id = some release → id < s'.nextId := by
    intro id release hrow
    by_cases hlt : id < s.nextId
    · exact hlt.trans_le h.carried.nextId
    · -- Only a creation writes a row with a new id.
      cases h with
      | created | createdWith =>
        rw [Table.lookup_insert_ite] at hrow
        split_ifs at hrow with hid
        · simp [hid]
        · exact absurd (hdrawn.releases id release hrow) hlt
      | none | opened | reopened | verified | ended | locked | aborted =>
        exact hdrawn.releases id release hrow
      | wrote _ _ _ hwrite =>
        exact absurd (hdrawn.releases id release (hwrite.releases ▸ hrow)) hlt
      | committed | unpublished =>
        rw [Table.lookup_modify] at hrow
        split_ifs at hrow with hid
        · obtain ⟨row, hrow, -⟩ := Option.map_eq_some_iff.1 hrow
          exact hdrawn.releases id row (hid ▸ hrow)
        · exact hdrawn.releases id release hrow
      | deleted =>
        rw [Table.lookup_erase_ite] at hrow
        split_ifs at hrow
        exact hdrawn.releases id release hrow
  refine ⟨hreleases, ?_⟩
  cases h with
  | none | opened | reopened | verified | ended | locked | aborted | committed | unpublished =>
    exact hdrawn.artifacts
  | created => exact fun id artifact hrow => Nat.lt_succ_of_lt (hdrawn.artifacts id artifact hrow)
  | createdWith =>
    intro id artifact hrow
    rw [Table.lookup_insert_ite] at hrow
    split_ifs at hrow with hid
    · simp [hid]
    · exact (hdrawn.artifacts id artifact hrow).trans_le (Nat.le_add_right _ 2)
  | wrote _ _ _ hwrite => exact hwrite.drawn
  | deleted =>
    intro id artifact hrow
    rw [Table.lookup_eraseAll] at hrow
    split_ifs at hrow
    exact hdrawn.artifacts id artifact hrow

end ChordV.Api.Releases
