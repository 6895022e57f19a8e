import ChordV.Api.ClientArtifacts
import ChordV.Api.VersionPrecedence
import Mathlib.Order.Basic

/-!
# The update check of a client

`checkClientUpdate` of `release-center.service.ts` on the rows of the database.

* `consider` is the body of the loop over the candidates: it refuses, goes on to the next
  candidate, or answers.
* Versions are compared by the preorder of `precedence`.  `required` is the version that a
  release has to reach for a client, and `Passes` says that the loop does not skip a release.
* `passes_again` and `skipped_again`: after the client has installed a release that passes, that
  release still passes and those before it are still skipped.
* `update_settles` puts them together.
-/

namespace ChordV.Api.ClientUpdates

open Lib Lib.Js Releases Versions

/-! ## The check -/

/-- What is read of a `Release`. -/
structure ReleaseRow where
  platform : Platform
  channel : Channel
  status : Status
  version : Version
  minimumVersion : Version
  forceUpgrade : Bool
  publishedAt : Option Int
  artifacts : List ArtifactRow

/-- What a client sends. -/
structure Input where
  currentVersion : Text
  currentBuild : Option Nat := none
  platform : Platform
  channel : Channel
  artifactType : Option ArtifactType := none
  clientMirrorPrefix : Option Text := none

/-- Why a client has to update. -/
inductive UpdateRequirement where
  | optional
  | requiredMinimum
  | requiredRelease
deriving DecidableEq, Repr

/-- What a client is told. -/
structure Result where
  hasUpdate : Bool := false
  forceUpgrade : Bool := false
  blockedByMinimumVersion : Bool := false
  forcedByRelease : Bool := false
  updateRequirement : UpdateRequirement := .optional
  latestVersion : Text
  minimumVersion : Text
  latestBuild : Option Nat := none
  deliveryMode : DeliveryMode
  downloadUrl : Option Text := none
deriving DecidableEq, Repr

/-- Beta testers see both channels. -/
def releaseChannelsVisibleTo : Channel → List Channel
  | .beta => [.stable, .beta]
  | .stable => [.stable]

/-- The arguments of `sort` are in order: newest version first, and then the latest publication. -/
def inOrder (left right : ReleaseRow) : Bool :=
  match precedence right.version.semver left.version.semver with
  | .lt => true
  | .gt => false
  | .eq => right.publishedAt.getD 0 ≤ left.publishedAt.getD 0

/-- The published releases that the channel sees, newest first. -/
def findPublishedReleaseCandidates (rows : List ReleaseRow) (channel : Channel)
    (platform : Platform) : List ReleaseRow :=
  (rows.filter fun row => (releaseChannelsVisibleTo channel).contains row.channel &&
    row.status == .published && row.platform == platform).mergeSort inOrder

/-- How an artifact of this type is delivered if nothing else is set. -/
def defaultDeliveryModeForArtifact : ArtifactType → DeliveryMode
  | .zip => .desktopFullReplace
  | .apk => .apkDownload
  | .external | .ipa => .externalDownload
  | _ => .desktopInstallerDownload

/-- How a platform is served if there is no artifact. -/
def defaultDeliveryModeForPlatform : Platform → DeliveryMode
  | .android => .apkDownload
  | .ios => .externalDownload
  | .windows => .desktopFullReplace
  | .macos => .desktopInstallerDownload

/-- Windows clients are offered the installer first. -/
def preferredArtifactType (input : Input) : Option ArtifactType :=
  if input.platform = .windows then some .setupExe else input.artifactType

/-- The artifact of a release for this client. -/
def artifactFor (server : Server) (input : Input) (release : ReleaseRow) : Option ArtifactRow :=
  pickClientUsableArtifact server release.artifacts input.platform (preferredArtifactType input)
    input.clientMirrorPrefix

/-- Old Windows clients get the installer as an external download. -/
def deliveredBy (input : Input) (artifact : ArtifactRow) : DeliveryMode :=
  if input.platform = .windows ∧ input.artifactType ≠ some .setupExe then .externalDownload
  else artifact.deliveryMode

/-- The minimum version is not above the release. -/
def minimumKept (release : ReleaseRow) : Bool :=
  (precedence release.minimumVersion.semver release.version.semver).isLE

/-- The newest stable release with a valid minimum version. -/
def findStableLine (releases : List ReleaseRow) : Option ReleaseRow :=
  releases.find? fun release => release.channel == .stable && minimumKept release

/-- Whose minimum applies: a stable release has its own. -/
def requirementSource (stableLine : Option ReleaseRow) (release : ReleaseRow) :
    Option ReleaseRow :=
  if release.channel = .stable then some release else stableLine

/-- The client reports its build, and the one of the release is newer. -/
def newerBuild (input : Input) (latestBuild : Option Nat) : Bool :=
  input.currentBuild.any fun current => 0 < current && latestBuild.any (current < ·)

/-- What the loop computes from the source of a requirement. -/
structure Requirement where
  minimumVersion : Text
  mustUpgrade : Bool
  forcedByRelease : Bool
  requiredVersion : Option Text

/-- Whether the client has to update, and why. -/
def readRequirement (input : Input) (source : Option ReleaseRow) :
    Except Exception Requirement := do
  let minimumVersion := (source.map fun s => s.minimumVersion.1).getD input.currentVersion
  let mustUpgrade := (← compareSemver input.currentVersion minimumVersion) == .lt
  let forcedByRelease ← match source with
    | some s =>
      if s.forceUpgrade then do
        let comparison ← compareSemver s.version.1 input.currentVersion
        pure (comparison == .gt)
      else pure false
    | none => pure false
  return { minimumVersion, mustUpgrade, forcedByRelease
           requiredVersion :=
             if forcedByRelease then source.map fun s => s.version.1
             else if mustUpgrade then some minimumVersion else none }

/-- `requiredVersion && compareSemver(version, requiredVersion) < 0`. -/
def isBelow (version : Version) : Option Text → Except Exception Bool
  | some requiredVersion => do
    let comparison ← compareSemver version.1 requiredVersion
    return comparison == .lt
  | none => return false

/-- The body of the loop.  It returns `none` for `continue`. -/
def consider (server : Server) (input : Input) (stableLine : Option ReleaseRow)
    (release : ReleaseRow) : Except Exception (Option Result) := do
  if !minimumKept release then return none
  let { minimumVersion, mustUpgrade, forcedByRelease, requiredVersion } ←
    readRequirement input (requirementSource stableLine release)
  if ← isBelow release.version requiredVersion then return none
  match artifactFor server input release with
  | none => return none
  | some artifact =>
    let latestVersionComparison ← compareSemver release.version.1 input.currentVersion
    let latestBuild := parseArtifactBuildNumber artifact
    let newer := latestVersionComparison == .eq && newerBuild input latestBuild
    let deliveryMode := deliveredBy input artifact
    if latestVersionComparison != .gt && !mustUpgrade && !newer then
      return some
        { latestVersion := input.currentVersion, minimumVersion, latestBuild, deliveryMode }
    else
      return some
        { hasUpdate := latestVersionComparison == .gt || newer
          forceUpgrade := mustUpgrade || forcedByRelease
          blockedByMinimumVersion := mustUpgrade
          forcedByRelease
          updateRequirement :=
            if mustUpgrade then .requiredMinimum
            else if forcedByRelease then .requiredRelease else .optional
          latestVersion := release.version.1
          minimumVersion, latestBuild, deliveryMode
          downloadUrl := some artifact.downloadUrl }

/-- The loop: the first candidate that answers. -/
def firstAnswer (server : Server) (input : Input) (stableLine : Option ReleaseRow) :
    List ReleaseRow → Except Exception (Option Result)
  | [] => return none
  | release :: releases => do
    match ← consider server input stableLine release with
    | some result => return some result
    | none => firstAnswer server input stableLine releases

/-- The answer to a client. -/
def checkClientUpdate (server : Server) (rows : List ReleaseRow) (input : Input) :
    Except Exception Result := do
  let releases := findPublishedReleaseCandidates rows input.channel input.platform
  match releases with
  | [] =>
    return { latestVersion := input.currentVersion, minimumVersion := input.currentVersion
             deliveryMode := .none }
  | latestPublishedRelease :: _ =>
    match ← firstAnswer server input (findStableLine releases) releases with
    | some result => return result
    | none =>
      return { latestVersion := input.currentVersion
               minimumVersion := latestPublishedRelease.minimumVersion.1
               deliveryMode :=
                 ((preferredArtifactType input).map defaultDeliveryModeForArtifact).getD
                   (defaultDeliveryModeForPlatform input.platform) }

/-! ## The order of versions -/

/-- Versions are ordered by their precedence. -/
instance : Preorder Semver where
  le a b := (precedence a b).isLE = true
  lt a b := precedence a b = .lt
  le_refl a := by rw [precedence_self]; rfl
  le_trans a b c := Std.TransCmp.isLE_trans
  lt_iff_le_not_ge a b := by
    rw [precedence_swap b a]
    cases precedence a b <;> decide

theorem lt_def {a b : Semver} : a < b ↔ precedence a b = .lt := Iff.rfl

theorem le_def {a b : Semver} : a ≤ b ↔ (precedence a b).isLE = true := Iff.rfl

instance : DecidableLT Semver := fun a b => inferInstanceAs (Decidable (precedence a b = .lt))

instance : DecidableLE Semver :=
  fun a b => inferInstanceAs (Decidable ((precedence a b).isLE = true))

theorem not_lt_semver {a b : Semver} : ¬ a < b ↔ b ≤ a := by
  rw [lt_def, le_def, precedence_swap b a]
  cases precedence a b <;> decide

theorem precedence_eq_gt {a b : Semver} : precedence a b = .gt ↔ b < a := by
  rw [lt_def, precedence_swap b a]
  cases precedence a b <;> decide

/-! ## What a release has to reach -/

/-- The version that the source of the requirement asks a client for. -/
def required (current : Semver) (source : ReleaseRow) : Option Semver :=
  if source.forceUpgrade = true ∧ current < source.version.semver then some source.version.semver
  else if current < source.minimumVersion.semver then some source.minimumVersion.semver
  else none

/-- The loop does not skip the release. -/
structure Passes (server : Server) (input : Input) (stableLine : Option ReleaseRow)
    (current : Semver) (release : ReleaseRow) : Prop where
  minimum : release.minimumVersion.semver ≤ release.version.semver
  reaches : ∀ source ∈ requirementSource stableLine release,
    ∀ version ∈ required current source, version ≤ release.version.semver
  usable : (artifactFor server input release).isSome

section

variable {current : Semver} {source release : ReleaseRow} {stableLine : Option ReleaseRow}

theorem required_cases {version : Semver} (h : version ∈ required current source) :
    current < version ∧
      (version = source.version.semver ∧ source.forceUpgrade = true ∨
        version = source.minimumVersion.semver) := by
  unfold required at h
  split_ifs at h with hforced hminimum
  · obtain rfl := Option.some.inj h
    exact ⟨hforced.2, .inl ⟨rfl, hforced.1⟩⟩
  · obtain rfl := Option.some.inj h
    exact ⟨hminimum, .inr rfl⟩
  · cases h

/-- Every requirement is within the one that the loop asks for. -/
theorem le_required (hminimum : source.minimumVersion.semver ≤ source.version.semver)
    (h : source.forceUpgrade = true ∧ current < source.version.semver ∨
      current < source.minimumVersion.semver) :
    ∃ version ∈ required current source,
      (source.forceUpgrade = true ∧ current < source.version.semver →
        source.version.semver ≤ version) ∧
      source.minimumVersion.semver ≤ version := by
  unfold required
  split_ifs with hforced hbelow
  · exact ⟨_, rfl, fun _ => le_refl _, hminimum⟩
  · exact ⟨_, rfl, fun hf => absurd hf hforced, le_refl _⟩
  · exact absurd h (not_or.2 ⟨hforced, hbelow⟩)

theorem minimumKept_iff : minimumKept release = true ↔
    release.minimumVersion.semver ≤ release.version.semver := Iff.rfl

theorem minimum_of_findStableLine {releases : List ReleaseRow}
    (h : findStableLine releases = some source) :
    source.minimumVersion.semver ≤ source.version.semver := by
  have hfound := List.find?_some h
  simp only [Bool.and_eq_true] at hfound
  exact hfound.2

/-- The source of a requirement has a valid minimum version. -/
theorem minimum_of_source {releases : List ReleaseRow}
    (hrelease : release.minimumVersion.semver ≤ release.version.semver)
    (h : source ∈ requirementSource (findStableLine releases) release) :
    source.minimumVersion.semver ≤ source.version.semver := by
  unfold requirementSource at h
  split_ifs at h with hchannel
  · obtain rfl := Option.some.inj h
    exact hrelease
  · exact minimum_of_findStableLine h

/-- A client that has installed a release is asked for nothing more by its requirement. -/
theorem required_again {server : Server} {input : Input} {releases : List ReleaseRow}
    (h : Passes server input (findStableLine releases) current release)
    (hle : current ≤ release.version.semver)
    (hsource : source ∈ requirementSource (findStableLine releases) release) :
    required release.version.semver source = none := by
  by_contra hne
  obtain ⟨version, hversion⟩ := Option.ne_none_iff_exists'.1 hne
  obtain ⟨habove, hcases⟩ := required_cases hversion
  have hminimum := minimum_of_source h.minimum hsource
  have hcurrent : current < version := lt_of_le_of_lt hle habove
  have hasked : source.forceUpgrade = true ∧ current < source.version.semver ∨
      current < source.minimumVersion.semver := by
    obtain ⟨rfl, hforce⟩ | rfl := hcases
    · exact .inl ⟨hforce, hcurrent⟩
    · exact .inr hcurrent
  obtain ⟨asked, hmem, hversionLe, hminimumLe⟩ := le_required hminimum hasked
  have hreach : asked ≤ release.version.semver := h.reaches source hsource asked hmem
  have hle' : version ≤ asked := by
    obtain ⟨rfl, hforce⟩ | rfl := hcases
    · exact hversionLe ⟨hforce, hcurrent⟩
    · exact hminimumLe
  exact absurd (hle'.trans hreach) (not_le_of_gt habove)

/-- What a client at or below a release may install, a client of any version may. -/
theorem Passes.any_client {server : Server} {input : Input} {releases : List ReleaseRow}
    {installed : Semver}
    (h : Passes server input (findStableLine releases) installed release)
    (hle : installed ≤ release.version.semver) (current : Semver) :
    Passes server input (findStableLine releases) current release where
  minimum := h.minimum
  usable := h.usable
  reaches source hsource version hversion := by
    by_contra hno
    have hbelow : installed < version :=
      lt_of_le_of_lt hle (by_contra fun hge => hno (not_lt_semver.1 hge))
    obtain ⟨-, hcases⟩ := required_cases hversion
    have hminimum := minimum_of_source h.minimum hsource
    obtain ⟨rfl, hforce⟩ | rfl := hcases
    · obtain ⟨asked, hmem, hversionLe, -⟩ := le_required hminimum (.inl ⟨hforce, hbelow⟩)
      exact hno ((hversionLe ⟨hforce, hbelow⟩).trans (h.reaches source hsource asked hmem))
    · obtain ⟨asked, hmem, -, hminimumLe⟩ := le_required hminimum (.inr hbelow)
      exact hno (hminimumLe.trans (h.reaches source hsource asked hmem))

end

/-! ## The answers of the loop -/

/-- What the loop answers for a release that passes. -/
def answer (input : Input) (source : Option ReleaseRow) (current : Semver) (release : ReleaseRow)
    (artifact : ArtifactRow) : Result :=
  let minimumVersion := (source.map fun s => s.minimumVersion.1).getD input.currentVersion
  let mustUpgrade := source.any fun s => current < s.minimumVersion.semver
  let forcedByRelease := source.any fun s => s.forceUpgrade && current < s.version.semver
  let latestBuild := parseArtifactBuildNumber artifact
  let newer := precedence release.version.semver current == .eq && newerBuild input latestBuild
  if precedence release.version.semver current != .gt && !mustUpgrade && !newer then
    { latestVersion := input.currentVersion, minimumVersion, latestBuild
      deliveryMode := deliveredBy input artifact }
  else
    { hasUpdate := precedence release.version.semver current == .gt || newer
      forceUpgrade := mustUpgrade || forcedByRelease
      blockedByMinimumVersion := mustUpgrade
      forcedByRelease
      updateRequirement :=
        if mustUpgrade then .requiredMinimum
        else if forcedByRelease then .requiredRelease else .optional
      latestVersion := release.version.1
      minimumVersion, latestBuild
      deliveryMode := deliveredBy input artifact
      downloadUrl := some artifact.downloadUrl }

section

variable {server : Server} {input : Input} {stableLine : Option ReleaseRow} {current : Semver}

/-- The requirement, and which versions are below it. -/
theorem readRequirement_eq (hcurrent : parseSemver input.currentVersion = .ok current)
    (source : Option ReleaseRow) :
    ∃ requiredVersion,
      readRequirement input source = .ok
        { minimumVersion := (source.map fun s => s.minimumVersion.1).getD input.currentVersion
          mustUpgrade := source.any fun s => current < s.minimumVersion.semver
          forcedByRelease := source.any fun s => s.forceUpgrade && current < s.version.semver
          requiredVersion } ∧
      ∀ version : Version, ∃ below, isBelow version requiredVersion = .ok below ∧
        (below = true ↔ ∃ s ∈ source, ∃ asked ∈ required current s, version.semver < asked) := by
  have hcompare : ∀ v : Version, compareSemver input.currentVersion v.1 =
      .ok (precedence current v.semver) := fun v => compareSemver_eq hcurrent v.parseSemver
  have hcompare' : ∀ v : Version, compareSemver v.1 input.currentVersion =
      .ok (precedence v.semver current) := fun v => compareSemver_eq v.parseSemver hcurrent
  cases source with
  | none =>
    refine ⟨none, ?_, fun version => ⟨false, rfl, by simp⟩⟩
    simp [readRequirement, compareSemver_eq hcurrent hcurrent, precedence_self]
  | some s =>
    have hmust : (precedence current s.minimumVersion.semver == .lt) =
        decide (current < s.minimumVersion.semver) := by
      rw [Bool.beq_eq_decide_eq]
      rfl
    have hforced : (precedence s.version.semver current == .gt) =
        decide (current < s.version.semver) := by
      rw [Bool.beq_eq_decide_eq, decide_eq_decide, precedence_eq_gt]
    have hbelow : ∀ version asked : Version, ∃ below, isBelow version (some asked.1) = .ok below ∧
        (below = true ↔ version.semver < asked.semver) := fun version asked =>
      ⟨precedence version.semver asked.semver == .lt,
        by simp [isBelow, version.compareSemver asked], by simp [lt_def]⟩
    refine ⟨if s.forceUpgrade = true ∧ current < s.version.semver then some s.version.1
      else if current < s.minimumVersion.semver then some s.minimumVersion.1 else none, ?_, ?_⟩
    · cases hforce : s.forceUpgrade <;>
        simp [readRequirement, hcompare, hcompare', hmust, hforced, hforce, precedence_eq_gt,
          ← lt_def]
    · intro version
      simp only [Option.mem_def, Option.some.injEq, exists_eq_left', required]
      split_ifs
      · simpa using hbelow version s.version
      · simpa using hbelow version s.minimumVersion
      · exact ⟨false, rfl, by simp⟩

/-- A release that does not pass is skipped, and one that passes is answered. -/
theorem consider_eq (hcurrent : parseSemver input.currentVersion = .ok current)
    (release : ReleaseRow) :
    (¬ Passes server input stableLine current release →
      consider server input stableLine release = .ok none) ∧
    (Passes server input stableLine current release →
      ∃ artifact, artifactFor server input release = some artifact ∧
        consider server input stableLine release =
          .ok (some
            (answer input (requirementSource stableLine release) current release artifact))) := by
  obtain ⟨requiredVersion, hread, hisBelow⟩ :=
    readRequirement_eq hcurrent (requirementSource stableLine release)
  obtain ⟨below, hbelow, hiff⟩ := hisBelow release.version
  have hcompare : compareSemver release.version.1 input.currentVersion =
      .ok (precedence release.version.semver current) :=
    compareSemver_eq release.version.parseSemver hcurrent
  constructor
  · intro hfails
    cases hminimum : minimumKept release with
    | false => simp [consider, hminimum]
    | true =>
      cases below with
      | true => simp [consider, hminimum, hread, hbelow]
      | false =>
        have hnone : artifactFor server input release = none := by
          by_contra hsome
          refine hfails ⟨minimumKept_iff.1 hminimum, fun s hs asked hasked => ?_,
            Option.isSome_iff_ne_none.2 hsome⟩
          exact not_lt_semver.1 fun hlt => absurd (hiff.2 ⟨s, hs, asked, hasked, hlt⟩) (by decide)
        simp [consider, hminimum, hread, hbelow, hnone]
  · intro hpasses
    obtain ⟨artifact, hartifact⟩ := Option.isSome_iff_exists.1 hpasses.usable
    have hminimum := minimumKept_iff.2 hpasses.minimum
    have hreaches : below = false := by
      rw [Bool.eq_false_iff, ne_eq, hiff]
      rintro ⟨s, hs, asked, hasked, hlt⟩
      exact absurd (hpasses.reaches s hs asked hasked) (not_le_of_gt hlt)
    subst hreaches
    refine ⟨artifact, hartifact, ?_⟩
    simp only [consider, hminimum, hread, hbelow, hartifact, hcompare, Fallible.ok_bind, answer]
    simp only [Bool.not_true, Bool.false_eq_true, if_false]
    split <;> rfl

/-- An answer needs a version that can be read. -/
theorem parse_of_consider {release : ReleaseRow} {result : Result}
    (h : consider server input stableLine release = .ok (some result)) :
    ∃ current, parseSemver input.currentVersion = .ok current := by
  unfold consider at h
  split_ifs at h with hminimum
  · cases h
  · obtain ⟨requirement, hread, -⟩ := Fallible.bind_eq_ok.1 h
    obtain ⟨o, hcompare, -⟩ := Fallible.bind_eq_ok.1 hread
    obtain ⟨current, -, hcurrent, -, -⟩ := compareSemver_eq_ok.1 hcompare
    exact ⟨current, hcurrent⟩

theorem parse_of_firstAnswer {releases : List ReleaseRow} {result : Result}
    (h : firstAnswer server input stableLine releases = .ok (some result)) :
    ∃ current, parseSemver input.currentVersion = .ok current := by
  induction releases with
  | nil => cases h
  | cons release releases ih =>
    obtain ⟨considered, hconsider, h⟩ := Fallible.bind_eq_ok.1 h
    cases considered with
    | some result' => exact parse_of_consider hconsider
    | none => exact ih h

/-- The loop answers for the first release that passes. -/
theorem firstAnswer_of_passes (hcurrent : parseSemver input.currentVersion = .ok current)
    {release : ReleaseRow} (after : List ReleaseRow)
    (hpasses : Passes server input stableLine current release) {before : List ReleaseRow}
    (hbefore : ∀ r ∈ before, ¬ Passes server input stableLine current r) :
    ∃ artifact, artifactFor server input release = some artifact ∧
      firstAnswer server input stableLine (before ++ release :: after) =
        .ok (some
          (answer input (requirementSource stableLine release) current release artifact)) := by
  induction before with
  | nil =>
    obtain ⟨artifact, hartifact, hconsider⟩ := (consider_eq hcurrent release).2 hpasses
    exact ⟨artifact, hartifact, by simp [firstAnswer, hconsider]⟩
  | cons r before ih =>
    obtain ⟨artifact, hartifact, hrest⟩ := ih fun x hx => hbefore x (List.mem_cons_of_mem _ hx)
    have hskip := (consider_eq hcurrent r).1 (hbefore r List.mem_cons_self)
    exact ⟨artifact, hartifact, by simp [firstAnswer, hskip, hrest]⟩

/-- An answer comes from the first release that passes. -/
theorem exists_of_firstAnswer (hcurrent : parseSemver input.currentVersion = .ok current)
    {releases : List ReleaseRow} {result : Result}
    (h : firstAnswer server input stableLine releases = .ok (some result)) :
    ∃ before release after artifact, releases = before ++ release :: after ∧
      (∀ r ∈ before, ¬ Passes server input stableLine current r) ∧
      Passes server input stableLine current release ∧
      artifactFor server input release = some artifact ∧
      result = answer input (requirementSource stableLine release) current release artifact := by
  induction releases with
  | nil => cases h
  | cons release releases ih =>
    by_cases hpasses : Passes server input stableLine current release
    · obtain ⟨artifact, hartifact, hconsider⟩ := (consider_eq hcurrent release).2 hpasses
      refine ⟨[], release, releases, artifact, rfl, by simp, hpasses, hartifact, ?_⟩
      simpa [firstAnswer, hconsider, eq_comm] using h
    · have hskip := (consider_eq hcurrent release).1 hpasses
      obtain ⟨before, release', after, artifact, rfl, hbefore, hrest⟩ :=
        ih (by simpa [firstAnswer, hskip] using h)
      refine ⟨release :: before, release', after, artifact, rfl, fun r hr => ?_, hrest⟩
      obtain rfl | hr := List.mem_cons.1 hr
      · exact hpasses
      · exact hbefore r hr

/-! ## What an answer says -/

variable {release : ReleaseRow} {artifact : ArtifactRow}

/-- A requirement of a release that passes is above the client and not above the release. -/
theorem lt_of_forced {releases : List ReleaseRow}
    (hpasses : Passes server input (findStableLine releases) current release)
    {source : ReleaseRow} (hsource : source ∈ requirementSource (findStableLine releases) release) :
    (source.forceUpgrade = true ∧ current < source.version.semver →
      source.version.semver ≤ release.version.semver) ∧
    (current < source.minimumVersion.semver →
      source.minimumVersion.semver ≤ release.version.semver) := by
  have hminimum := minimum_of_source hpasses.minimum hsource
  constructor
  · intro hforced
    obtain ⟨asked, hmem, hle, -⟩ := le_required hminimum (.inl hforced)
    exact (hle hforced).trans (hpasses.reaches source hsource asked hmem)
  · intro hbelow
    obtain ⟨asked, hmem, -, hle⟩ := le_required hminimum (.inr hbelow)
    exact hle.trans (hpasses.reaches source hsource asked hmem)

/-- An update is offered for a newer version, or for a newer build of the same version. -/
theorem answer_hasUpdate {source : Option ReleaseRow} :
    (answer input source current release artifact).hasUpdate = true ↔
      current < release.version.semver ∨ precedence release.version.semver current = .eq ∧
        newerBuild input (parseArtifactBuildNumber artifact) = true := by
  rw [← precedence_eq_gt]
  simp only [answer]
  split
  · rename_i hquiet
    simp only [Bool.and_eq_true, bne_iff_ne, Bool.not_eq_true', Bool.and_eq_false_iff,
      beq_eq_false_iff_ne, ne_eq] at hquiet
    obtain ⟨⟨hgt, -⟩, hnewer⟩ := hquiet
    simp only [Bool.false_eq_true, false_iff, not_or, not_and]
    exact ⟨hgt, fun heq => hnewer.elim (absurd heq) fun hfalse => by simp [hfalse]⟩
  · simp

theorem answer_latestVersion {source : Option ReleaseRow}
    (h : (answer input source current release artifact).hasUpdate = true) :
    (answer input source current release artifact).latestVersion = release.version.1 := by
  revert h
  simp only [answer]
  split
  · exact fun h => absurd h Bool.false_ne_true
  · exact fun _ => rfl

@[simp] theorem answer_latestBuild {source : Option ReleaseRow} :
    (answer input source current release artifact).latestBuild =
      parseArtifactBuildNumber artifact := by
  simp only [answer]
  split <;> rfl

/-- The requirements that an answer names. -/
theorem answer_requirements {source : Option ReleaseRow} :
    ((answer input source current release artifact).blockedByMinimumVersion = true →
      ∃ s ∈ source, current < s.minimumVersion.semver ∧
        (answer input source current release artifact).minimumVersion = s.minimumVersion.1) ∧
    ((answer input source current release artifact).forcedByRelease = true →
      ∃ s ∈ source, s.forceUpgrade = true ∧ current < s.version.semver) := by
  simp only [answer]
  split
  · simp
  · constructor
    · intro h
      obtain ⟨s, hs, hbelow⟩ := (Option.any_eq_true _ _).1 h
      exact ⟨s, hs, by simpa using hbelow, by simp [hs]⟩
    · intro h
      obtain ⟨s, hs, hforced⟩ := (Option.any_eq_true _ _).1 h
      exact ⟨s, hs, by simpa using hforced⟩

theorem answer_forceUpgrade {source : Option ReleaseRow} :
    (answer input source current release artifact).forceUpgrade =
      ((answer input source current release artifact).blockedByMinimumVersion ||
        (answer input source current release artifact).forcedByRelease) := by
  simp only [answer]
  split <;> rfl

/-- An answer that forces an update offers one. -/
theorem hasUpdate_of_forced {releases : List ReleaseRow}
    (hpasses : Passes server input (findStableLine releases) current release)
    (h : (answer input (requirementSource (findStableLine releases) release) current release
      artifact).forceUpgrade = true) :
    (answer input (requirementSource (findStableLine releases) release) current release
      artifact).hasUpdate = true := by
  rw [answer_forceUpgrade, Bool.or_eq_true] at h
  refine answer_hasUpdate.2 (.inl ?_)
  obtain h | h := h
  · obtain ⟨source, hsource, hbelow, -⟩ := answer_requirements.1 h
    exact lt_of_lt_of_le hbelow ((lt_of_forced hpasses hsource).2 hbelow)
  · obtain ⟨source, hsource, hforced⟩ := answer_requirements.2 h
    exact lt_of_lt_of_le hforced.2 ((lt_of_forced hpasses hsource).1 hforced)

end

/-! ## Candidates -/

/-- The comparison of `sort` with its arguments exchanged. -/
def compareRows (a b : ReleaseRow) : Ordering :=
  compareLex (fun a b : ReleaseRow => precedence a.version.semver b.version.semver)
    (compareOn fun row : ReleaseRow => row.publishedAt.getD 0) a b

instance : Std.TransCmp compareRows := by
  have hversion := transCmp_comap precedence fun row : ReleaseRow => row.version.semver
  unfold compareRows
  infer_instance

theorem inOrder_eq (left right : ReleaseRow) :
    inOrder left right = (compareRows right left).isLE := by
  simp only [inOrder, compareRows, compareLex, compareOn]
  cases precedence right.version.semver left.version.semver with
  | lt => rfl
  | gt => rfl
  | eq =>
    rw [Bool.eq_iff_iff]
    simp [Ordering.then, Std.isLE_compare]

/-- No candidate is above one before it. -/
theorem pairwise_candidates (rows : List ReleaseRow) (channel : Channel) (platform : Platform) :
    (findPublishedReleaseCandidates rows channel platform).Pairwise fun a b =>
      b.version.semver ≤ a.version.semver := by
  have htrans : ∀ a b c : ReleaseRow, inOrder a b = true → inOrder b c = true →
      inOrder a c = true := by
    intro a b c
    rw [inOrder_eq, inOrder_eq, inOrder_eq]
    exact fun hab hbc => Std.TransCmp.isLE_trans hbc hab
  have htotal : ∀ a b : ReleaseRow, (inOrder a b || inOrder b a) = true := by
    intro a b
    have hswap : compareRows a b = (compareRows b a).swap := Std.OrientedCmp.eq_swap
    rw [inOrder_eq, inOrder_eq, hswap]
    cases compareRows b a <;> rfl
  refine (List.pairwise_mergeSort htrans htotal _).imp fun {a b} hle => ?_
  rw [le_def]
  unfold inOrder at hle
  cases hprecedence : precedence b.version.semver a.version.semver with
  | gt => simp [hprecedence] at hle
  | lt | eq => rfl

/-- What an offered update has to be. -/
structure Offered (candidates : List ReleaseRow) (input : Input) (result : Result)
    (release : ReleaseRow) : Prop where
  mem : release ∈ candidates
  version : result.latestVersion = release.version.1
  newer : compareSemver result.latestVersion input.currentVersion = .ok .gt ∨
    compareSemver result.latestVersion input.currentVersion = .ok .eq ∧
      ∃ currentBuild latestBuild, input.currentBuild = some currentBuild ∧
        result.latestBuild = some latestBuild ∧ currentBuild < latestBuild
  minimum : result.blockedByMinimumVersion = true →
    AtLeast result.latestVersion result.minimumVersion
  forced : result.forcedByRelease = true →
    ∃ source ∈ requirementSource (findStableLine candidates) release,
      source.forceUpgrade = true ∧
      compareSemver source.version.1 input.currentVersion = .ok .gt ∧
      AtLeast result.latestVersion source.version.1

/-- The client after it has installed what it was offered. -/
def Input.installed (input : Input) (result : Result) (currentBuild : Option Nat) : Input :=
  { input with currentVersion := result.latestVersion, currentBuild }

theorem newerBuild_iff {input : Input} {latestBuild : Option Nat} :
    newerBuild input latestBuild = true ↔ ∃ current latest, input.currentBuild = some current ∧
      0 < current ∧ latestBuild = some latest ∧ current < latest := by
  cases hc : input.currentBuild <;> cases latestBuild <;> simp [newerBuild, hc]

/-! ## One update settles a client -/

section

variable {server : Server} {rows : List ReleaseRow} {input : Input} {result : Result}

/-- An answer that offers or forces something is the answer of the loop. -/
theorem exists_of_check (h : checkClientUpdate server rows input = .ok result)
    (hloud : result.hasUpdate = true ∨ result.forceUpgrade = true) :
    ∃ releases current before release after artifact,
      findPublishedReleaseCandidates rows input.channel input.platform = releases ∧
      parseSemver input.currentVersion = .ok current ∧
      releases = before ++ release :: after ∧
      (∀ r ∈ before, ¬ Passes server input (findStableLine releases) current r) ∧
      Passes server input (findStableLine releases) current release ∧
      artifactFor server input release = some artifact ∧
      result = answer input (requirementSource (findStableLine releases) release) current release
        artifact := by
  unfold checkClientUpdate at h
  cases hreleases : findPublishedReleaseCandidates rows input.channel input.platform with
  | nil =>
    rw [hreleases] at h
    obtain rfl := Except.ok.inj h
    simp at hloud
  | cons latest releases =>
    rw [hreleases] at h
    obtain ⟨found, hfirst, h⟩ := Fallible.bind_eq_ok.1 h
    cases found with
    | none =>
      obtain rfl := Except.ok.inj h
      simp at hloud
    | some found =>
      obtain rfl := Except.ok.inj h
      obtain ⟨current, hcurrent⟩ := parse_of_firstAnswer hfirst
      obtain ⟨before, release, after, artifact, hsplit, hrest⟩ :=
        exists_of_firstAnswer hcurrent hfirst
      exact ⟨_, current, before, release, after, artifact, rfl, hcurrent, hsplit, hrest⟩

/-- What the loop answers to a client that has installed the release it was offered. -/
theorem answer_again {releases : List ReleaseRow} {current : Semver} {release : ReleaseRow}
    {artifact : ArtifactRow} {build : Option Nat}
    (hpasses : Passes server input (findStableLine releases) current release)
    (hle : current ≤ release.version.semver)
    (hbuild : ∀ b, parseArtifactBuildNumber artifact = some b → build = some b) :
    let next := answer (input.installed result build)
      (requirementSource (findStableLine releases) release) release.version.semver release artifact
    next.hasUpdate = false ∧ next.forceUpgrade = false := by
  have hnone : ∀ source ∈ requirementSource (findStableLine releases) release,
      ¬ (source.forceUpgrade = true ∧ release.version.semver < source.version.semver ∨
        release.version.semver < source.minimumVersion.semver) := by
    intro source hsource hasked
    obtain ⟨asked, hmem, -⟩ := le_required (minimum_of_source hpasses.minimum hsource) hasked
    rw [required_again hpasses hle hsource] at hmem
    cases hmem
  refine ⟨Bool.eq_false_iff.2 fun hupdate => ?_, Bool.eq_false_iff.2 fun hforced => ?_⟩
  · obtain hlt | ⟨-, hnewer⟩ := answer_hasUpdate.1 hupdate
    · exact lt_irrefl _ hlt
    · obtain ⟨b, latest, hb, -, hlatest, hlt⟩ := newerBuild_iff.1 hnewer
      obtain rfl : latest = b := Option.some.inj ((hbuild latest hlatest).symm.trans hb)
      exact Nat.lt_irrefl _ hlt
  · rw [answer_forceUpgrade, Bool.or_eq_true] at hforced
    obtain hblocked | hforced := hforced
    · obtain ⟨source, hsource, hbelow, -⟩ := answer_requirements.1 hblocked
      exact hnone source hsource (.inr hbelow)
    · obtain ⟨source, hsource, hforced⟩ := answer_requirements.2 hforced
      exact hnone source hsource (.inl hforced)

/-- The offer of a release that passes. -/
theorem offered_of_answer {releases : List ReleaseRow} {current : Semver} {release : ReleaseRow}
    {artifact : ArtifactRow} (hcurrent : parseSemver input.currentVersion = .ok current)
    (hmem : release ∈ releases)
    (hpasses : Passes server input (findStableLine releases) current release)
    (hanswer : result = answer input (requirementSource (findStableLine releases) release) current
      release artifact)
    (hupdate : result.hasUpdate = true) : Offered releases input result release := by
  have hlatest : result.latestVersion = release.version.1 := by
    rw [hanswer] at hupdate ⊢
    exact answer_latestVersion hupdate
  have hcompare : ∀ v : Version, compareSemver v.1 input.currentVersion =
      .ok (precedence v.semver current) := fun v => compareSemver_eq v.parseSemver hcurrent
  have hatLeast : ∀ v : Version, v.semver ≤ release.version.semver →
      AtLeast result.latestVersion v.1 := by
    intro v hle
    refine ⟨_, hlatest ▸ release.version.compareSemver v, ?_⟩
    rw [precedence_swap, Ordering.isGE_swap]
    exact hle
  refine ⟨hmem, hlatest, ?_, fun hblocked => ?_, fun hforced => ?_⟩
  · rw [hlatest, hcompare]
    rw [hanswer] at hupdate
    obtain hlt | ⟨heq, hnewer⟩ := answer_hasUpdate.1 hupdate
    · exact .inl (congrArg _ (precedence_eq_gt.2 hlt))
    · obtain ⟨build, latest, hbuild, -, hlatestBuild, hlt⟩ := newerBuild_iff.1 hnewer
      refine .inr ⟨congrArg _ heq, build, latest, hbuild, ?_, hlt⟩
      rw [hanswer, answer_latestBuild, hlatestBuild]
  · rw [hanswer] at hblocked
    obtain ⟨source, hsource, hbelow, hminimum⟩ := answer_requirements.1 hblocked
    have hle := (lt_of_forced hpasses hsource).2 hbelow
    have hresult := hatLeast source.minimumVersion hle
    rwa [hanswer, hminimum, ← hanswer]
  · rw [hanswer] at hforced
    obtain ⟨source, hsource, hforce, hbelow⟩ := answer_requirements.2 hforced
    refine ⟨source, hsource, hforce, ?_, ?_⟩
    · rw [hcompare, precedence_eq_gt.2 hbelow]
    · exact hatLeast source.version ((lt_of_forced hpasses hsource).1 ⟨hforce, hbelow⟩)

/-- What a client that has installed the release passes over, it passed over before. -/
theorem check_again {releases before after : List ReleaseRow} {current : Semver}
    {release : ReleaseRow} {artifact : ArtifactRow} {build : Option Nat}
    (hreleases : findPublishedReleaseCandidates rows input.channel input.platform = releases)
    (hsplit : releases = before ++ release :: after)
    (hbefore : ∀ r ∈ before, ¬ Passes server input (findStableLine releases) current r)
    (hpasses : Passes server input (findStableLine releases) current release)
    (hle : current ≤ release.version.semver)
    (hlatest : result.latestVersion = release.version.1)
    (hartifact : artifactFor server input release = some artifact) :
    checkClientUpdate server rows (input.installed result build) =
      .ok (answer (input.installed result build)
        (requirementSource (findStableLine releases) release) release.version.semver release
        artifact) := by
  have hcurrent : parseSemver (input.installed result build).currentVersion =
      .ok release.version.semver := by
    rw [Input.installed, hlatest]
    exact release.version.parseSemver
  have hsorted := pairwise_candidates rows input.channel input.platform
  rw [hreleases, hsplit, List.pairwise_append] at hsorted
  have hpasses' : Passes server (input.installed result build) (findStableLine releases)
      release.version.semver release := by
    refine ⟨hpasses.minimum, fun source hsource asked hasked => ?_, hpasses.usable⟩
    rw [required_again hpasses hle hsource] at hasked
    cases hasked
  have hbefore' : ∀ r ∈ before, ¬ Passes server (input.installed result build)
      (findStableLine releases) release.version.semver r := by
    intro r hr hagain
    have hnotAbove := hsorted.2.2 r hr release List.mem_cons_self
    have hsame : Passes server input (findStableLine releases) release.version.semver r :=
      ⟨hagain.minimum, hagain.reaches, hagain.usable⟩
    exact hbefore r hr (hsame.any_client hnotAbove current)
  obtain ⟨artifact', hartifact', hfirst⟩ :=
    firstAnswer_of_passes hcurrent after hpasses' hbefore'
  obtain rfl : artifact = artifact' := Option.some.inj (hartifact.symm.trans hartifact')
  rw [← hsplit] at hfirst
  have hsame : findPublishedReleaseCandidates rows (input.installed result build).channel
      (input.installed result build).platform = releases := hreleases
  unfold checkClientUpdate
  rw [hsame]
  cases releases with
  | nil => simp at hsplit
  | cons latest rest => simp [hfirst]

/-- A forced update is offered, and an offered one settles the client: it is newer, it meets the
requirement that forces it, and a second check after its installation offers and forces nothing. -/
theorem update_settles (server : Server) (rows : List ReleaseRow) (input : Input) (result : Result)
    (h : checkClientUpdate server rows input = .ok result) :
    (result.forceUpgrade = true → result.hasUpdate = true) ∧
    (result.hasUpdate = true →
      (∃ release, Offered (findPublishedReleaseCandidates rows input.channel input.platform) input
        result release) ∧
      ∀ build, (∀ b, result.latestBuild = some b → build = some b) →
        ∃ next, checkClientUpdate server rows (input.installed result build) = .ok next ∧
          next.hasUpdate = false ∧ next.forceUpgrade = false) := by
  constructor
  · intro hforced
    obtain ⟨releases, current, before, release, after, artifact, -, -, -, -, hpasses, -, rfl⟩ :=
      exists_of_check h (.inr hforced)
    exact hasUpdate_of_forced hpasses hforced
  · intro hupdate
    obtain ⟨releases, current, before, release, after, artifact, hreleases, hcurrent, hsplit,
      hbefore, hpasses, hartifact, hanswer⟩ := exists_of_check h (.inl hupdate)
    have hmem : release ∈ releases := by simp [hsplit]
    have hoffered := offered_of_answer hcurrent hmem hpasses hanswer hupdate
    refine ⟨⟨release, hreleases ▸ hoffered⟩, fun build hbuild => ?_⟩
    have hle : current ≤ release.version.semver := by
      rw [hanswer] at hupdate
      obtain hlt | ⟨heq, -⟩ := answer_hasUpdate.1 hupdate
      · exact le_of_lt hlt
      · rw [le_def, precedence_swap, heq]
        rfl
    have hsameBuild : ∀ b, parseArtifactBuildNumber artifact = some b → build = some b := by
      intro b hb
      exact hbuild b (by rw [hanswer, answer_latestBuild, hb])
    exact ⟨_, check_again hreleases hsplit hbefore hpasses hle hoffered.version hartifact,
      answer_again hpasses hle hsameBuild⟩

end

/-- A published release of macOS that requires an update. -/
def exampleRelease (version minimumVersion : Version) : ReleaseRow where
  platform := .macos
  channel := .stable
  status := .published
  version := version
  minimumVersion := minimumVersion
  forceUpgrade := true
  publishedAt := none
  artifacts :=
    [{ id := "a".toList, uploaded := false, type := .dmg, deliveryMode := .desktopInstallerDownload
       downloadUrl := "https://host/App_build7.dmg".toList, fileSizeBytes := some 1 }]

/-- One release. -/
def exampleRows : List ReleaseRow :=
  [exampleRelease ⟨"1.1.0".toList, by decide +kernel⟩ ⟨"1.0.1".toList, by decide +kernel⟩]

/-- A client that is behind. -/
def exampleInput : Input where
  currentVersion := "1.0.0".toList
  platform := .macos
  channel := .stable

/-- It has to update. -/
def exampleResult : Result where
  hasUpdate := true
  forceUpgrade := true
  blockedByMinimumVersion := true
  forcedByRelease := true
  updateRequirement := .requiredMinimum
  latestVersion := "1.1.0".toList
  minimumVersion := "1.0.1".toList
  latestBuild := some 7
  deliveryMode := .desktopInstallerDownload
  downloadUrl := some "https://host/App_build7.dmg".toList

/-- A client of version 1.0.0 is sent to build 7 of version 1.1.0, and stays there. -/
theorem update_settles_macos :
    checkClientUpdate {} exampleRows exampleInput = .ok exampleResult ∧
      ∃ next, checkClientUpdate {} exampleRows (exampleInput.installed exampleResult (some 7)) =
        .ok next ∧ next.hasUpdate = false ∧ next.forceUpgrade = false := by
  have hcheck : checkClientUpdate {} exampleRows exampleInput = .ok exampleResult := by
    decide +kernel
  exact ⟨hcheck, ((update_settles {} exampleRows exampleInput exampleResult hcheck).2 rfl).2
    (some 7) fun b hb => hb⟩

end ChordV.Api.ClientUpdates
