import ChordV.Api.VersionPrecedence
import ChordV.Lib.Machine

/-!
# The floor of the signed update feed

`enforceSignedManifestFloor` of `system-update.service.ts` with what it calls, for a configured
state directory.

* `Server` is one process and the floor file.  The checks wait on `manifestFloorLock`, and the
  first of them is running.  `stage` says how far it is: reading, writing, or syncing.
* A step is one answer of the file system or a restart.  A write can fail before its rename, and
  it can fail after it, when the directory is not synced.  A restart loses the checks and keeps
  the file.
* `Ratchet` is the invariant.  `floor_holds` puts the three results together: the floor does not
  fall, no accepted version is below one accepted earlier, and a written floor is read back.
-/

namespace ChordV.Api.Versions

open Lib Lib.Js

/-! ## Canonical versions -/

/-- The longest version that is accepted. -/
def MAX_VERSION_LENGTH : Nat := 64

/-- `normalizeVersion`, for versions that are not too long. -/
def normalizeAcceptedVersion (value : Text) : Except Exception Text := do
  let normalized ← normalizeVersion value
  if MAX_VERSION_LENGTH < normalized.length then
    throw (.badRequest "版本号长度不能超过 64 个字符。")
  return normalized

/-- What `/^[^-]+-(.*)/` finds in what stands before the build. -/
def manifestPrerelease (version : Text) : Option Text :=
  let body := cut (· == '-') (withoutBuild version)
  if body.1.isEmpty then none else body.2

/-- `/^0\d+$/`. -/
def hasLeadingZero : Text → Bool
  | '0' :: digits => isDigits digits
  | _ => false

/-- The version is spelled as it is compared. -/
def assertCanonicalManifestVersion (version : Text) : Except Exception Unit := do
  let normalized ← normalizeAcceptedVersion version
  if normalized ≠ version then
    throw (.badRequest "签名清单版本必须使用规范 SemVer 格式。")
  if (manifestPrerelease version).any fun p => (p.splitOn '.').any hasLeadingZero then
    throw (.badRequest "签名清单的数字预发布标识不能包含前导零。")

/-! ## The check -/

/-- Why a check is refused. -/
inductive Refusal where
  | badRequest (message : String)
  | serviceUnavailable (message : String)
deriving DecidableEq, Repr

/-- What the service makes of an error of the comparison. -/
def Refusal.of : Exception → Refusal
  | .badRequest message | .notFound message | .conflict message => .badRequest message

/-- The file cannot be read. -/
def unreadableFloor : Refusal :=
  .serviceUnavailable "无法读取更新清单版本阈值，已拒绝检查，请修复状态文件。"

/-- The file holds no version. -/
def corruptFloor : Refusal :=
  .serviceUnavailable "更新清单版本阈值损坏，已拒绝检查，请修复状态文件。"

/-- The version is below the floor. -/
def replayed (version floor : Text) : Refusal :=
  .badRequest ("更新清单版本 v" ++ String.ofList version ++ " 低于已接受的最新版本 v" ++
    String.ofList floor ++ "，疑似回放/降级（加速镜像可能返回了过期清单），已拒绝。")

/-- The file cannot be written. -/
def notPersisted (cause : String) : Refusal :=
  .serviceUnavailable ("无法持久化更新清单版本阈值（状态卷可能不可写）：" ++ cause ++
    "。为防回放攻击已拒绝本次检查。")

/-- A failure of the directory sync that is no failure of a write. -/
def unsyncedDirectory (cause : String) : Refusal := .serviceUnavailable cause

/-- `enforceSignedManifestFloorLocked` up to its first write, for the contents of the file.  It
returns `higher`. -/
def compareWithFloor (version : Text) (file : Option Text) : Except Refusal Bool := do
  (assertCanonicalManifestVersion version).mapError Refusal.of
  match file with
  | none => return true
  | some contents =>
    let floor := trim contents
    match (do assertCanonicalManifestVersion floor; compareSemver version floor) with
    | .error _ => throw corruptFloor
    | .ok .lt => throw (replayed version floor)
    | .ok comparison => return comparison == .gt

/-- How far the running check is. -/
inductive Stage where
  /-- The lock is held and the file is not read yet. -/
  | locked
  /-- The version is higher, and `writeFileDurable` has not renamed its file yet. -/
  | higher
  /-- The new floor is in place, and its directory is not synced yet. -/
  | renamed
  /-- The version is as high as the floor, and its directory is not synced yet. -/
  | equal
deriving DecidableEq, Repr

/-- The file, the lock and what has been answered. -/
structure Server where
  /-- The contents of the floor file. -/
  file : Option Text := none
  /-- The versions of the checks on the lock, the running one first. -/
  checks : List Text := []
  stage : Stage := .locked
  /-- The settled checks, the last one first. -/
  settled : List (Text × Except Refusal Unit) := []
  /-- All that was ever written to the floor file. -/
  written : List Text := []

/-- What happens to the checks. -/
inductive Event where
  /-- `enforceSignedManifestFloor` is called. -/
  | check (version : Text)
  /-- The file is read, or reading fails with something else than `ENOENT`. -/
  | read (readable : Bool)
  /-- The temporary file is renamed over the floor. -/
  | rename
  /-- The write or the directory sync ends, with the text of its error. -/
  | settle (error : Option String)
  /-- The process ends and is started again. -/
  | restart
deriving DecidableEq, Repr

namespace Server

/-- The running check ends, and the next one gets the lock. -/
def finish (s : Server) (version : Text) (rest : List Text) (result : Except Refusal Unit) :
    Server :=
  { s with checks := rest, stage := .locked, settled := (version, result) :: s.settled }

/-- The start of `enforceSignedManifestFloorLocked`. -/
def read (s : Server) (version : Text) (rest : List Text) (readable : Bool) : Server :=
  match compareWithFloor version (if readable then s.file else none) with
  | .error refusal => s.finish version rest (.error refusal)
  | .ok higher =>
    if readable then { s with stage := if higher then .higher else .equal }
    else s.finish version rest (.error unreadableFloor)

/-- One step of the running check, a new check or a restart. -/
def step (s : Server) : Event → Server
  | .check version => { s with checks := s.checks ++ [version] }
  | .restart => { s with checks := [], stage := .locked }
  | .read readable =>
    match s.checks, s.stage with
    | version :: rest, .locked => s.read version rest readable
    | _, _ => s
  | .rename =>
    match s.checks, s.stage with
    | version :: _, .higher =>
      { s with file := some version, stage := .renamed, written := version :: s.written }
    | _, _ => s
  | .settle error =>
    match s.checks, s.stage, error with
    | version :: rest, .higher, some cause =>
      s.finish version rest (.error (notPersisted cause))
    | version :: rest, .renamed, some cause =>
      s.finish version rest (.error (notPersisted cause))
    | version :: rest, .equal, some cause =>
      s.finish version rest (.error (unsyncedDirectory cause))
    | version :: rest, .renamed, none => s.finish version rest (.ok ())
    | version :: rest, .equal, none => s.finish version rest (.ok ())
    | _, _, _ => s

/-- The versions of the accepted checks, the last one first. -/
def accepted (s : Server) : List Text :=
  s.settled.filterMap fun check => if check.2.isOk then some check.1 else none

end Server

/-! ## What a check compares -/

/-- A canonical version is its own normal form. -/
theorem normalizeVersion_of_canonical {version : Text}
    (h : assertCanonicalManifestVersion version = .ok ()) :
    normalizeVersion version = .ok version := by
  obtain ⟨normalized, haccepted, h⟩ := Fallible.bind_eq_ok.1 h
  obtain ⟨normalized', hnormalize, haccepted⟩ := Fallible.bind_eq_ok.1 haccepted
  by_cases hlong : MAX_VERSION_LENGTH < normalized'.length
  · simp [hlong] at haccepted
  · obtain rfl : normalized' = normalized := by simpa [hlong] using haccepted
    by_cases hsame : normalized' = version
    · rwa [hsame] at hnormalize
    · simp [hsame] at h

theorem trim_of_canonical {version : Text} (h : assertCanonicalManifestVersion version = .ok ()) :
    trim version = version :=
  trim_of_normalizeVersion (normalizeVersion_of_canonical h)

/-- What a comparison that goes on says. -/
theorem compareWithFloor_eq_ok {version : Text} {file : Option Text} {higher : Bool}
    (h : compareWithFloor version file = .ok higher) :
    assertCanonicalManifestVersion version = .ok () ∧
      (∀ contents ∈ file, AtLeast version (trim contents)) ∧
      (higher = false → ∃ contents ∈ file, AtLeast (trim contents) version) := by
  obtain ⟨⟨⟩, hcanonical, h⟩ := Fallible.bind_eq_ok.1 h
  have hcanonical : assertCanonicalManifestVersion version = .ok () := by
    cases hc : assertCanonicalManifestVersion version with
    | ok u => rfl
    | error e => simp [hc, Except.mapError] at hcanonical
  refine ⟨hcanonical, ?_⟩
  cases file with
  | none =>
    obtain rfl : true = higher := by simpa using h
    simp
  | some contents =>
    simp only at h
    simp only [Option.mem_def, Option.some.injEq, forall_eq', exists_eq_left']
    cases hfloor : (do
        assertCanonicalManifestVersion (trim contents)
        compareSemver version (trim contents) : Except Exception Ordering) with
    | error e => simp [hfloor] at h
    | ok o =>
      obtain ⟨-, -, hcompare⟩ := Fallible.bind_eq_ok.1 hfloor
      cases o with
      | lt => simp [hfloor] at h
      | eq =>
        obtain ⟨l, r, hl, hr, heq⟩ := compareSemver_eq_ok.1 hcompare
        refine ⟨⟨.eq, hcompare, rfl⟩, fun _ => ⟨.eq, ?_, rfl⟩⟩
        rw [compareSemver_eq hr hl, precedence_swap, heq]
        rfl
      | gt =>
        obtain rfl : true = higher := by simpa [hfloor] using h
        exact ⟨⟨.gt, hcompare, rfl⟩, fun h => absurd h (by decide)⟩

/-! ## Steps -/

namespace Server

variable {s s' : Server}

/-- What a step can do. -/
inductive Move (s : Server) : Server → Prop
  | idle : Move s s
  | check (version : Text) : Move s { s with checks := s.checks ++ [version] }
  | restart : Move s { s with checks := [], stage := .locked }
  | compared {version : Text} {rest : List Text} {higher : Bool} : s.checks = version :: rest →
      s.stage = .locked → compareWithFloor version s.file = .ok higher →
      Move s { s with stage := if higher then .higher else .equal }
  | refused {version : Text} {rest : List Text} (refusal : Refusal) : s.checks = version :: rest →
      Move s (s.finish version rest (.error refusal))
  | renamed {version : Text} {rest : List Text} : s.checks = version :: rest → s.stage = .higher →
      Move s { s with file := some version, stage := .renamed, written := version :: s.written }
  | accepted {version : Text} {rest : List Text} : s.checks = version :: rest →
      s.stage = .renamed ∨ s.stage = .equal → Move s (s.finish version rest (.ok ()))

theorem read_move {version : Text} {rest : List Text} (hchecks : s.checks = version :: rest)
    (hstage : s.stage = .locked) (readable : Bool) :
    Move s (s.read version rest readable) := by
  cases readable with
  | true =>
    simp only [read, if_true]
    cases hcompare : compareWithFloor version s.file with
    | error refusal => exact .refused refusal hchecks
    | ok higher => exact .compared hchecks hstage hcompare
  | false =>
    simp only [read, Bool.false_eq_true, if_false]
    cases compareWithFloor version none with
    | error refusal => exact .refused refusal hchecks
    | ok higher => exact .refused unreadableFloor hchecks

theorem step_move (s : Server) (e : Event) : Move s (s.step e) := by
  cases e with
  | check version => exact .check version
  | restart => exact .restart
  | read readable =>
    simp only [step]
    split
    · exact read_move ‹_› ‹_› readable
    · exact .idle
  | rename =>
    simp only [step]
    split
    · exact .renamed ‹_› ‹_›
    · exact .idle
  | settle error =>
    simp only [step]
    split
    · exact .refused _ ‹_›
    · exact .refused _ ‹_›
    · exact .refused _ ‹_›
    · exact .accepted ‹_› (.inl ‹_›)
    · exact .accepted ‹_› (.inr ‹_›)
    · exact .idle

/-! ## The ratchet -/

/-- What the running check has found out. -/
def Stands (s : Server) : Prop :=
  match s.stage with
  | .locked => True
  | .higher => ∃ version rest, s.checks = version :: rest ∧
      compareWithFloor version s.file = .ok true
  | .renamed => ∃ version rest, s.checks = version :: rest ∧ s.file = some version ∧
      assertCanonicalManifestVersion version = .ok ()
  | .equal => ∃ version rest, s.checks = version :: rest ∧
      compareWithFloor version s.file = .ok false

/-- The floor only rises, and so do the accepted versions. -/
structure Ratchet (s : Server) : Prop where
  stands : s.Stands
  /-- The floor is not below an accepted version. -/
  covers : ∀ version ∈ s.accepted, ∃ contents ∈ s.file, AtLeast (trim contents) version
  /-- A later accepted version is not below an earlier one. -/
  sorted : s.accepted.Pairwise AtLeast
  written : ∀ version ∈ s.written, assertCanonicalManifestVersion version = .ok ()

/-- The running check is as high as the floor that it is about to be accepted with. -/
theorem Ratchet.running (h : s.Ratchet) {version : Text} {rest : List Text}
    (hchecks : s.checks = version :: rest) (hstage : s.stage = .renamed ∨ s.stage = .equal) :
    ∃ contents ∈ s.file, AtLeast version (trim contents) ∧ AtLeast (trim contents) version := by
  have hstands := h.stands
  unfold Stands at hstands
  obtain hstage | hstage := hstage
  · rw [hstage] at hstands
    obtain ⟨version', rest', hchecks', hfile, hcanonical⟩ := hstands
    obtain ⟨rfl, -⟩ := List.cons.inj (hchecks.symm.trans hchecks')
    have hself := isPrecedence.refl version ⟨version, normalizeVersion_of_canonical hcanonical⟩
    refine ⟨version, hfile, ?_⟩
    rw [trim_of_canonical hcanonical]
    exact ⟨⟨.eq, hself, rfl⟩, .eq, hself, rfl⟩
  · rw [hstage] at hstands
    obtain ⟨version', rest', hchecks', hcompare⟩ := hstands
    obtain ⟨rfl, -⟩ := List.cons.inj (hchecks.symm.trans hchecks')
    obtain ⟨-, habove, hbelow⟩ := compareWithFloor_eq_ok hcompare
    obtain ⟨contents, hfile, hbelow⟩ := hbelow rfl
    exact ⟨contents, hfile, habove contents hfile, hbelow⟩

/-- What the file names now is not below what it named before. -/
def NotBelow (before after : Option Text) : Prop :=
  ∀ a ∈ before, ∃ b ∈ after, b = a ∨ AtLeast (trim b) (trim a)

theorem NotBelow.refl (file : Option Text) : NotBelow file file :=
  fun a ha => ⟨a, ha, .inl rfl⟩

theorem NotBelow.trans {a b c : Option Text} (hab : NotBelow a b) (hbc : NotBelow b c) :
    NotBelow a c := by
  intro x hx
  obtain ⟨y, hy, hxy⟩ := hab x hx
  obtain ⟨z, hz, hyz⟩ := hbc y hy
  refine ⟨z, hz, ?_⟩
  obtain rfl | hxy := hxy
  · exact hyz
  · obtain rfl | hyz := hyz
    · exact .inr hxy
    · exact .inr (hyz.trans hxy)

theorem ratchet_init (file : Option Text) : Ratchet { file } where
  stands := trivial
  covers := by simp [accepted]
  sorted := List.Pairwise.nil
  written := by simp

/-- A check that joins the lock comes after the running one. -/
theorem Stands.check (h : s.Stands) (version : Text) :
    Stands { s with checks := s.checks ++ [version] } := by
  unfold Stands at h ⊢
  cases hstage : s.stage with
  | locked => trivial
  | higher =>
    rw [hstage] at h
    obtain ⟨running, rest, hchecks, hcompare⟩ := h
    exact ⟨running, rest ++ [version], by simp [hchecks], hcompare⟩
  | renamed =>
    rw [hstage] at h
    obtain ⟨running, rest, hchecks, hfile⟩ := h
    exact ⟨running, rest ++ [version], by simp [hchecks], hfile⟩
  | equal =>
    rw [hstage] at h
    obtain ⟨running, rest, hchecks, hcompare⟩ := h
    exact ⟨running, rest ++ [version], by simp [hchecks], hcompare⟩

/-- The version that is about to be written was compared with the floor. -/
theorem Ratchet.compared (h : s.Ratchet) {version : Text} {rest : List Text}
    (hchecks : s.checks = version :: rest) (hstage : s.stage = .higher) :
    assertCanonicalManifestVersion version = .ok () ∧
      ∀ contents ∈ s.file, AtLeast version (trim contents) := by
  have hstands := h.stands
  unfold Stands at hstands
  rw [hstage] at hstands
  obtain ⟨version', rest', hchecks', hcompare⟩ := hstands
  obtain ⟨rfl, -⟩ := List.cons.inj (hchecks.symm.trans hchecks')
  obtain ⟨hcanonical, habove, -⟩ := compareWithFloor_eq_ok hcompare
  exact ⟨hcanonical, habove⟩

/-- A step keeps the ratchet, and the floor does not fall. -/
theorem Move.ratchet (hmove : Move s s') (h : s.Ratchet) :
    s'.Ratchet ∧ NotBelow s.file s'.file := by
  cases hmove with
  | idle => exact ⟨h, .refl _⟩
  | check version => exact ⟨⟨h.stands.check version, h.covers, h.sorted, h.written⟩, .refl _⟩
  | restart => exact ⟨⟨trivial, h.covers, h.sorted, h.written⟩, .refl _⟩
  | @compared version rest higher hchecks hstage hcompare =>
    refine ⟨⟨?_, h.covers, h.sorted, h.written⟩, .refl _⟩
    cases higher with
    | true => exact ⟨version, rest, hchecks, hcompare⟩
    | false => exact ⟨version, rest, hchecks, hcompare⟩
  | refused refusal hchecks => exact ⟨⟨trivial, h.covers, h.sorted, h.written⟩, .refl _⟩
  | @renamed version rest hchecks hstage =>
    obtain ⟨hcanonical, habove⟩ := h.compared hchecks hstage
    have htrim := trim_of_canonical hcanonical
    refine ⟨⟨⟨version, rest, hchecks, rfl, hcanonical⟩, fun v hv => ?_, h.sorted, ?_⟩, ?_⟩
    · -- The new floor is above the old one, which covers what was accepted.
      obtain ⟨contents, hfile, hcover⟩ := h.covers v hv
      refine ⟨version, rfl, ?_⟩
      rw [htrim]
      exact (habove contents hfile).trans hcover
    · intro w hw
      obtain rfl | hw := List.mem_cons.1 hw
      · exact hcanonical
      · exact h.written w hw
    · exact fun contents hfile => ⟨version, rfl, .inr (htrim.symm ▸ habove contents hfile)⟩
  | @accepted version rest hchecks hstage =>
    obtain ⟨contents, hfile, habove, hbelow⟩ := h.running hchecks hstage
    refine ⟨⟨trivial, ?_, ?_, h.written⟩, .refl _⟩
    · intro v hv
      obtain rfl | hv := List.mem_cons.1 hv
      · exact ⟨contents, hfile, hbelow⟩
      · exact h.covers v hv
    · refine List.Pairwise.cons (fun v hv => ?_) h.sorted
      obtain ⟨contents', hfile', hcover⟩ := h.covers v hv
      obtain rfl : contents = contents' := Option.some.inj (hfile.symm.trans hfile')
      exact habove.trans hcover

/-! ## Runs -/

/-- A run keeps the ratchet. -/
theorem run_ratchet (h : s.Ratchet) (events : List Event) : (Machine.run step s events).Ratchet :=
  Machine.run_keeps (fun s e hs => ((s.step_move e).ratchet hs).1) h events

/-- The floor does not fall during a run. -/
theorem run_notBelow (h : s.Ratchet) (events : List Event) :
    NotBelow s.file (Machine.run step s events).file := by
  induction events generalizing s with
  | nil => exact .refl _
  | cons e events ih =>
    obtain ⟨hratchet, hfloor⟩ := (s.step_move e).ratchet h
    exact hfloor.trans (ih hratchet)

end Server

/-- A written floor is read back, and only a version below it is refused. -/
theorem compareWithFloor_of_written {version floor : Text}
    (hversion : assertCanonicalManifestVersion version = .ok ())
    (hfloor : assertCanonicalManifestVersion floor = .ok ()) :
    compareWithFloor version (some floor) ≠ .error corruptFloor := by
  have htrim := trim_of_canonical hfloor
  obtain ⟨v, hv⟩ := Accepted.parse ⟨version, normalizeVersion_of_canonical hversion⟩
  obtain ⟨w, hw⟩ := Accepted.parse ⟨floor, normalizeVersion_of_canonical hfloor⟩
  have hcompare := compareSemver_eq hv hw
  simp only [compareWithFloor, hversion, htrim, hfloor, hcompare, Except.mapError,
    Fallible.ok_bind]
  cases precedence v w <;> simp [replayed, corruptFloor]

/-- For every run from any floor file: the floor does not fall, the accepted versions rise, and
every written floor is valid when it is read back. -/
theorem floor_holds (file : Option Text) (events later : List Event) :
    Server.NotBelow (Machine.run Server.step { file } events).file
        (Machine.run Server.step { file } (events ++ later)).file ∧
      (Machine.run Server.step { file } events).accepted.Pairwise AtLeast ∧
      ∀ floor ∈ (Machine.run Server.step { file } events).written,
        assertCanonicalManifestVersion (trim floor) = .ok () ∧
        ∀ version, assertCanonicalManifestVersion version = .ok () →
          compareWithFloor version (some floor) ≠ .error corruptFloor := by
  have h := Server.run_ratchet (Server.ratchet_init file) events
  refine ⟨?_, h.sorted, fun floor hfloor => ?_⟩
  · rw [Machine.run_append]
    exact Server.run_notBelow h later
  · have hcanonical := h.written floor hfloor
    exact ⟨(trim_of_canonical hcanonical).symm ▸ hcanonical,
      fun version hversion => compareWithFloor_of_written hversion hcanonical⟩

end ChordV.Api.Versions
