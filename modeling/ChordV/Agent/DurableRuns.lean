import ChordV.Agent.Durable
import Mathlib.Data.List.Chain

/-!
# Durable files survive

What a run of `WriteFile` calls, failures, deaths of the process and losses of power leaves of a
file.

* `call_cases` and `triple_attempt` are the rules of one call of the system.
* `Kept` and `KeptFile` collect what the calls of `EnsureDir` and `WriteFile` have to keep, and
  `Kept.run` is the invariant rule of `WriteFile`.
* `triple_ensureDir` and `triple_run` say what a success means: the file and all directories are
  on the medium.  They rest on `triple_makeDirs`, by which a directory that is missing has
  nothing below it, and on `triple_sync`.

`file_is_never_torn` and `written_file_survives` are the results.
-/

namespace ChordV.Agent.Durable

open Lib

variable {β : Type}

/-! ## Rules -/

section Rules

variable {P E I : Disk β → Prop} {f : Disk β → Except IoError (Unit × Disk β)}

theorem mapError_eq_ok {d d' : Disk β} {u : Unit} (h : (f d).mapError Failure.io = .ok (u, d')) :
    f d = .ok ((), d') := by
  cases hf : f d with
  | error e =>
    rw [hf] at h
    cases h
  | ok r =>
    rw [hf] at h
    exact congrArg Except.ok (Except.ok.inj h)

/-- The ways in which a call ends. -/
theorem call_cases (s : Sched (Disk β)) :
    ∃ rest, (∃ d', f s.world = .ok ((), d') ∧
        (call f s = .ok () ⟨d', rest⟩ ∨ call f s = .error (.err (.io .other)) ⟨d', rest⟩)) ∨
      (∃ e, f s.world = .error e ∧ call f s = .error (.err (.io e)) ⟨s.world, rest⟩) ∨
      call f s = .error (.err (.io .other)) ⟨s.world, rest⟩ ∨
      call f s = .error .died ⟨s.world, rest⟩ := by
  obtain ⟨d, fates⟩ := s
  unfold call atomic perform
  rcases fates with _ | ⟨fate, rest⟩
  · refine ⟨[], ?_⟩
    cases hf : f d with
    | error e => exact Or.inr (Or.inl ⟨e, rfl, by simp [hf, Except.mapError]⟩)
    | ok r => exact Or.inl ⟨r.2, rfl, Or.inl (by simp [hf, Except.mapError])⟩
  · refine ⟨rest, ?_⟩
    cases fate with
    | refuse => exact Or.inr (Or.inr (Or.inl rfl))
    | die => exact Or.inr (Or.inr (Or.inr rfl))
    | run =>
      cases hf : f d with
      | error e => exact Or.inr (Or.inl ⟨e, rfl, by simp [hf, Except.mapError]⟩)
      | ok r => exact Or.inl ⟨r.2, rfl, Or.inl (by simp [hf, Except.mapError])⟩
    | lose =>
      cases hf : f d with
      | error e => exact Or.inr (Or.inl ⟨e, rfl, by simp [hf, Except.mapError]⟩)
      | ok r => exact Or.inl ⟨r.2, rfl, Or.inr (by simp [hf, Except.mapError])⟩

theorem keeps_call (h : ∀ d d', I d → f d = .ok ((), d') → I d') : Keeps I (call f) :=
  Keeps.atomic fun d _ d' hd hf => h d d' hd (mapError_eq_ok hf)

theorem triple_call {Q : Disk β → Prop} (h : ∀ d d', P d → f d = .ok ((), d') → Q d') :
    Triple P (call f) (fun _ => Q) fun _ => True :=
  Triple.atomic (fun d _ d' hd hf => ⟨h d d' hd (mapError_eq_ok hf), trivial⟩) fun _ _ => trivial

/-- A call whose error the program looks at. -/
theorem triple_attempt {Q : Except Failure Unit → Disk β → Prop}
    (hrun : ∀ d d', P d → f d = .ok ((), d') → Q (.ok ()) d' ∧ Q (.error (.io .other)) d')
    (herror : ∀ d e, P d → f d = .error e → Q (.error (.io e)) d)
    (hstay : ∀ d, P d → Q (.error (.io .other)) d ∧ E d) : Triple P (attempt (call f)) Q E := by
  intro s hs
  unfold attempt
  obtain ⟨rest, ⟨d', hf, hcall | hcall⟩ | ⟨e, hf, hcall⟩ | hcall | hcall⟩ :=
    call_cases (f := f) s <;> rw [hcall]
  · exact (hrun s.world d' hs hf).1
  · exact (hrun s.world d' hs hf).2
  · exact herror s.world e hs hf
  · exact (hstay s.world hs).1
  · exact (hstay s.world hs).2

/-- The paths go down step by step. -/
def Descends (paths : List Path) : Prop :=
  List.IsChain (fun above p => ∃ name, p = name :: above) paths

/-- What counts as missing is the directory and those above it, up to one that is there. -/
theorem triple_missingAncestors (directory : Path) :
    Triple P (missingAncestors directory) (fun missing d => (Descends missing ∧
      (missing = [] ∨ missing.getLast? = some directory) ∧ ∀ p ∈ missing, p <:+ directory) ∧ P d)
      P := by
  have hstat : ∀ p, Keeps P (attempt (call (Disk.stat p))) := by
    intro p
    refine Keeps.attempt (keeps_call fun d d' hd hstat => ?_)
    unfold Disk.stat at hstat
    split at hstat
    · rw [Except.ok.injEq, Prod.mk.injEq] at hstat
      exact hstat.2 ▸ hd
    · cases hstat
  induction directory with
  | nil =>
    refine Triple.bind (hstat []) fun r => ?_
    cases r with
    | ok _ => exact Triple.pure fun d hd => ⟨⟨List.IsChain.nil, Or.inl rfl, by simp⟩, hd⟩
    | error e =>
      exact Triple.pure fun d hd => ⟨⟨List.IsChain.singleton [], Or.inr rfl, by simp⟩, hd⟩
  | cons name above ih =>
    refine Triple.bind (hstat (name :: above)) fun r => ?_
    cases r with
    | ok _ => exact Triple.pure fun d hd => ⟨⟨List.IsChain.nil, Or.inl rfl, by simp⟩, hd⟩
    | error e =>
      refine Triple.bind ih fun missing => Triple.pure fun d hd => ?_
      obtain ⟨⟨hchain, hlast, hsuffix⟩, hd⟩ := hd
      refine ⟨⟨?_, Or.inr (by simp), fun p hp => ?_⟩, hd⟩
      · refine List.isChain_append.2 ⟨hchain, List.IsChain.singleton _, fun p hp q hq => ?_⟩
        obtain rfl : name :: above = q := by simpa using hq
        rcases hlast with rfl | hlast
        · cases hp
        · rw [hlast] at hp
          exact ⟨name, by rw [Option.mem_some.1 hp]⟩
      · rcases List.mem_append.1 hp with hp | hp
        · exact (hsuffix p hp).trans (List.suffix_cons name above)
        · exact List.mem_singleton.1 hp ▸ List.suffix_refl _

/-! ## Invariants of one call -/

/-- What the calls of `EnsureDir` keep.  `M` holds of the directories that were made. -/
structure Kept (I : Disk β → Prop) (M : Path → Prop) (umask : Nat) (directory : Path) : Prop where
  mkdir : ∀ p d d', p <:+ directory → I d → Disk.mkdir umask dirMode p d = .ok ((), d') →
    I d' ∧ M p
  chmod : ∀ p d d', M p → I d → Disk.chmod dirMode p d = .ok ((), d') → I d'
  syncDir : ∀ p d d', I d → Disk.syncDir p d = .ok ((), d') → I d'
  remove : ∀ p d d', M p → I d → Disk.remove p d = .ok ((), d') → I d'

variable {M : Path → Prop} {umask : Nat} {directory : Path}

theorem Kept.makeDirs (h : Kept I M umask directory) (rest made : List Path)
    (hrest : ∀ p ∈ rest, p <:+ directory) (hmade : ∀ p ∈ made, M p) :
    Triple I (makeDirs umask rest made) (fun r d => (∀ p ∈ r.1, M p) ∧ I d) I := by
  induction rest generalizing made with
  | nil => exact Triple.pure fun d hd => ⟨hmade, hd⟩
  | cons p rest ih =>
    have hnext : ∀ q ∈ rest, q <:+ directory := fun q hq => hrest q (List.mem_cons_of_mem p hq)
    refine Triple.bind (S := fun r d => (r = .ok () → M p) ∧ I d)
      (triple_attempt (fun d d' hd hmk => ?_) (fun d e hd _ => ⟨nofun, hd⟩)
        fun d hd => ⟨⟨nofun, hd⟩, hd⟩) fun r => ?_
    · obtain ⟨hd', hp⟩ := h.mkdir p d d' (hrest p List.mem_cons_self) hd hmk
      exact ⟨⟨fun _ => hp, hd'⟩, nofun, hd'⟩
    cases r with
    | ok u =>
      refine Triple.lift fun hp => ?_
      have hmade' : ∀ q ∈ made ++ [p], M q := by
        intro q hq
        rcases List.mem_append.1 hq with hq | hq
        · exact hmade q hq
        · exact List.mem_singleton.1 hq ▸ hp rfl
      refine Triple.bind (S := fun _ => I) (Keeps.attempt (keeps_call fun d d' hd hch =>
        h.chmod p d d' (hp rfl) hd hch)) fun r => ?_
      cases r with
      | ok u => exact ih (made ++ [p]) hnext hmade'
      | error e => exact Triple.pure fun d hd => ⟨hmade', hd⟩
    | error e =>
      refine Triple.lift fun _ => ?_
      exact Triple.ite (fun _ => ih made hnext hmade) fun _ => Triple.pure fun d hd => ⟨hmade, hd⟩

theorem Kept.rollback (h : Kept I M umask directory) {made : List Path} (hmade : ∀ p ∈ made, M p) :
    Keeps I (rollback made) := by
  refine Keeps.forM fun p hp => ?_
  refine Keeps.bind (Keeps.attempt (keeps_call fun d d' hd hrm => ?_)) fun _ => Keeps.pure
  exact h.remove p d d' (hmade p (List.mem_reverse.1 hp)) hd hrm

theorem Kept.syncParent (h : Kept I M umask directory) (parent : Path) :
    Keeps I (syncParent parent) := by
  refine Keeps.bind (Keeps.attempt (keeps_call (h.syncDir parent))) fun r => ?_
  rcases r with (e | ⟨_, e⟩) | _
  · exact Keeps.fail
  · exact Keeps.fail
  · exact Keeps.pure

theorem Kept.ensureDir (h : Kept I M umask directory) : Keeps I (ensureDir umask directory) := by
  refine Triple.bind (triple_missingAncestors directory) fun missing =>
    Triple.lift fun hmissing => ?_
  refine Triple.bind (h.makeDirs missing [] hmissing.2.2 (by simp)) fun r =>
    Triple.lift fun hmade => ?_
  obtain ⟨made, error⟩ := r
  cases error with
  | some e => exact Keeps.bind (h.rollback hmade) fun _ => Keeps.fail
  | none =>
    cases made with
    | nil => exact Keeps.pure
    | cons first made =>
      refine Keeps.bind (Keeps.attempt (Keeps.bind (Keeps.forM fun p _ => ?_) fun _ => ?_))
        fun r => ?_
      · exact keeps_call (h.syncDir p)
      · exact h.syncParent first.tail
      · cases r with
        | ok u => exact Keeps.pure
        | error e => exact Keeps.bind (h.rollback hmade) fun _ => Keeps.fail

/-- What the calls of `WriteFile` on its two names keep. -/
structure KeptFile (I : Disk β → Prop) (empty : β) (w : Write β) : Prop where
  create : ∀ d d', I d → Disk.create empty w.umask w.mode w.temporary d = .ok ((), d') → I d'
  change : ∀ d node node', I d → d.now w.temporary = some node →
    node'.contents.isNone = node.contents.isNone → I (d.change w.temporary node')
  rename : ∀ d d', I d → d.now w.temporary = some w.node →
    Disk.rename w.temporary w.file d = .ok ((), d') → I d'
  /-- The temporary file is removed by the call that created it. -/
  remove : ∀ d₁ d₂ d d', I d₁ → Disk.create empty w.umask w.mode w.temporary d₁ = .ok ((), d₂) →
    I d → Disk.remove w.temporary d = .ok ((), d') → I d'

variable {empty : β} {w : Write β}

theorem keeps_elsewhere : Keeps I (call Disk.elsewhere) := by
  refine keeps_call fun d d' hd h => ?_
  unfold Disk.elsewhere at h
  rw [Except.ok.injEq, Prod.mk.injEq] at h
  exact h.2 ▸ hd

/-- The temporary file changes in place. -/
theorem KeptFile.triple_change (h : KeptFile I empty w) {node : Node β} (node' : Node β)
    (hf : ∀ d d', d.now w.temporary = some node → f d = .ok ((), d') →
      d' = d.change w.temporary node')
    (hkind : node'.contents.isNone = node.contents.isNone) :
    Triple (fun d => I d ∧ d.now w.temporary = some node) (call f)
      (fun _ d => I d ∧ d.now w.temporary = some node') I := by
  refine Triple.atomic (fun d _ d' hd hd' => ?_) fun d hd => hd.1
  obtain ⟨hd, hnow⟩ := hd
  have hI := h.change d node node' hd hnow hkind
  rw [hf d d' hnow (mapError_eq_ok hd')]
  refine ⟨⟨hI, ?_⟩, hI⟩
  rw [Disk.now_change, if_pos rfl]

/-- The temporary file has its contents and its mode on the medium before it is renamed. -/
theorem KeptFile.triple_written (h : KeptFile I empty w) {Q R : Disk β → Prop}
    (hrename : ∀ d d', I d → d.now w.temporary = some w.node →
      Disk.rename w.temporary w.file d = .ok ((), d') → Q d')
    (hsync : ∀ d d', Q d → Disk.syncDir w.directory d = .ok ((), d') → R d')
    (hQ : ∀ d, Q d → I d) (hR : ∀ d, R d → I d) (mode : Nat) :
    Triple (fun d => I d ∧ d.now w.temporary = some ⟨some empty, mode, false⟩) w.replace
      (fun _ => R) I := by
  refine Triple.bind (h.triple_change ⟨some w.contents, mode, false⟩
    (fun d d' hnow hwrite => ?_) rfl) fun _ => ?_
  · obtain ⟨node, hnow', -, rfl⟩ := Disk.onFile_cases hwrite
    rw [hnow] at hnow'
    cases hnow'
    rfl
  refine Triple.bind (h.triple_change ⟨some w.contents, w.mode, false⟩
    (fun d d' hnow hchmod => ?_) rfl) fun _ => ?_
  · obtain ⟨node, hnow', rfl⟩ := Disk.chmod_cases hchmod
    rw [hnow] at hnow'
    cases hnow'
    rfl
  refine Triple.bind (h.triple_change w.node (fun d d' hnow hflush => ?_) rfl)
    fun _ => ?_
  · obtain ⟨node, hnow', -, rfl⟩ := Disk.onFile_cases hflush
    rw [hnow] at hnow'
    cases hnow'
    rfl
  refine Triple.bind (S := fun _ d => I d ∧ d.now w.temporary = some w.node)
    (keeps_elsewhere.conseq (fun _ hd => hd) (fun _ _ hd => hd) fun _ hd => hd.1) fun _ => ?_
  refine Triple.bind (S := fun _ => Q) (Triple.atomic (fun d _ d' hd hren => ?_) fun d hd => hd.1)
    fun _ => Triple.atomic (fun d _ d' hd hsyn => ?_) hQ
  · have hd' := hrename d d' hd.1 hd.2 (mapError_eq_ok hren)
    exact ⟨hd', hQ d' hd'⟩
  · have hd' := hsync d d' hd (mapError_eq_ok hsyn)
    exact ⟨hd', hR d' hd'⟩

theorem KeptFile.triple_rest (h : KeptFile I empty w) {Q R : Disk β → Prop}
    (hrename : ∀ d d', I d → d.now w.temporary = some w.node →
      Disk.rename w.temporary w.file d = .ok ((), d') → Q d')
    (hsync : ∀ d d', Q d → Disk.syncDir w.directory d = .ok ((), d') → R d')
    (hQ : ∀ d, Q d → I d) (hR : ∀ d, R d → I d) :
    Triple I (w.rest empty) (fun _ => R) I := by
  refine Triple.bind keeps_elsewhere fun _ => ?_
  refine Triple.bind (S := fun _ d => (∃ d₁ d₂, I d₁ ∧
        Disk.create empty w.umask w.mode w.temporary d₁ = .ok ((), d₂)) ∧
      I d ∧ d.now w.temporary = some ⟨some empty, Nat.ldiff w.mode w.umask, false⟩)
    (Triple.atomic (fun d _ d' hd hcreate => ?_) fun d hd => hd) fun _ =>
      Triple.lift fun ⟨d₁, d₂, hd₁, hcreated⟩ => ?_
  · have hd' := h.create d d' hd (mapError_eq_ok hcreate)
    refine ⟨⟨⟨d, d', hd, mapError_eq_ok hcreate⟩, hd', ?_⟩, hd'⟩
    obtain ⟨-, -, rfl⟩ := Disk.make_cases (mapError_eq_ok hcreate)
    rw [Disk.now_link, if_pos rfl]
  refine Triple.bind (S := fun r d => (r = .ok () → R d) ∧ I d)
    (Triple.attempt ((h.triple_written hrename hsync hQ hR _).conseq (fun _ hd => hd)
      (fun _ d hd => ⟨fun _ => hd, hR d hd⟩) fun d hd => ⟨hd, fun _ => ⟨nofun, hd⟩⟩)) fun r => ?_
  cases r with
  | ok u => exact Triple.pure fun d hd => hd.1 rfl
  | error e =>
    refine Triple.bind (S := fun _ => I) ((Keeps.attempt (keeps_call fun d d' =>
        h.remove d₁ d₂ d d' hd₁ hcreated)).pre fun d hd => hd.2)
      fun _ => Triple.fail fun d hd => hd

theorem Kept.run (h : Kept I M w.umask w.directory) (hfile : KeptFile I empty w) :
    Keeps I (w.run empty) :=
  Keeps.bind h.ensureDir fun _ => hfile.triple_rest hfile.rename (h.syncDir w.directory)
    (fun _ hd => hd) fun _ hd => hd

end Rules

/-! ## What a call leaves of a name -/

section Names

variable {empty : β} {w : Write β} {P : Option (Node β) → Prop} {file : Path}

/-- `WriteFile` uses the name for nothing but its own file. -/
theorem keeps_values (hP : Disk.Values.Files P) (hspares : ¬file <:+ w.directory)
    (htemporary : w.temporary ≠ file) (hwritten : w.file = file → P (some w.node)) :
    Keeps (Disk.Values P file) (w.run empty) := by
  refine Kept.run (M := fun p => file ≠ p) ⟨?_, ?_, ?_, ?_⟩ ⟨?_, ?_, ?_, ?_⟩
  · intro p d d' hp hd hmkdir
    have hne : file ≠ p := fun heq => hspares (heq ▸ hp)
    exact ⟨hd.make hne hmkdir, hne⟩
  · exact fun p d d' hne hd hchmod => hd.chmod hne hchmod
  · exact fun p d d' hd hsync => hd.syncDir hP hsync
  · exact fun p d d' hne hd hremove => hd.remove hne hremove
  · exact fun d d' hd hcreate => hd.make htemporary.symm hcreate
  · exact fun d node node' hd _ _ => hd.change_ne htemporary.symm
  · intro d d' hd hnow hrename
    exact hd.rename htemporary.symm (fun heq => hnow ▸ hwritten heq.symm) hrename
  · exact fun d₁ d₂ d d' _ _ hd hremove => hd.remove htemporary.symm hremove

/-- The directories of a file that is there stay. -/
theorem keeps_chain {name : String} {directory : Path} (hP : Disk.Values.Files P)
    (hnone : ¬P none) (hspares : ¬name :: directory <:+ w.directory)
    (htemporary : w.temporary ≠ name :: directory)
    (hwritten : w.file = name :: directory → P (some w.node)) :
    Keeps (fun d => Disk.Chain directory d ∧ Disk.Values P (name :: directory) d)
      (w.run empty) := by
  have hremove : ∀ p d d', name :: directory ≠ p →
      Disk.Chain directory d ∧ Disk.Values P (name :: directory) d →
      Disk.remove p d = .ok ((), d') →
      Disk.Chain directory d' ∧ Disk.Values P (name :: directory) d' := by
    rintro p d d' hne ⟨hchain, hvalues⟩ hremove
    refine ⟨Disk.Holds.remove hchain (fun hp => ?_) hremove, hvalues.remove hne hremove⟩
    by_cases heq : p = directory
    · rw [heq]
      refine Disk.occupied_of_now (List.cons_ne_nil name directory) ?_
      cases hnow : d.now (name :: directory) with
      | some node => rfl
      | none => exact absurd (hvalues none (hnow ▸ List.mem_cons_self)) hnone
    · exact hchain.occupied hp heq
  refine Kept.run (M := fun p => name :: directory ≠ p) ⟨?_, ?_, ?_, ?_⟩ ⟨?_, ?_, ?_, ?_⟩
  · intro p d d' hp hd hmkdir
    have hne : name :: directory ≠ p := fun heq => hspares (heq ▸ hp)
    exact ⟨⟨hd.1.make hmkdir, hd.2.make hne hmkdir⟩, hne⟩
  · exact fun p d d' hne hd hchmod => ⟨hd.1.chmod hchmod, hd.2.chmod hne hchmod⟩
  · exact fun p d d' hd hsync => ⟨hd.1.syncDir hsync, hd.2.syncDir hP hsync⟩
  · exact fun p d d' hne hd hrm => hremove p d d' hne hd hrm
  · exact fun d d' hd hcreate => ⟨hd.1.make hcreate, hd.2.make htemporary.symm hcreate⟩
  · exact fun d node node' hd hnow hkind =>
      ⟨hd.1.change hnow hkind, hd.2.change_ne htemporary.symm⟩
  · intro d d' hd hnow hrename
    exact ⟨hd.1.rename hrename,
      hd.2.rename htemporary.symm (fun heq => hnow ▸ hwritten heq.symm) hrename⟩
  · exact fun d₁ d₂ d d' _ _ hd hrm => hremove w.temporary d d' htemporary.symm hd hrm

/-- The directories that were there stay, and so do their names. -/
theorem keeps_directories (empty : β) (w : Write β) (d₀ : Disk β) :
    Keeps (fun d => Disk.Tree d ∧ Disk.Holds (fun p => d₀.isDir p = true) d) (w.run empty) := by
  have hold : ∀ {d : Disk β} {p}, Disk.Holds (fun p => d₀.isDir p = true) d → d.now p = none →
      d₀.isDir p = false := by
    intro d p hd hnone
    cases hdir : d₀.isDir p with
    | false => rfl
    | true =>
      have hthere := (hd p hdir).1
      rw [Disk.Holds.not_isDir_of_none hnone] at hthere
      cases hthere
  have hremove : ∀ {p} {d d' : Disk β}, p ≠ [] → d₀.isDir p = false →
      Disk.Tree d ∧ Disk.Holds (fun p => d₀.isDir p = true) d → Disk.remove p d = .ok ((), d') →
      Disk.Tree d' ∧ Disk.Holds (fun p => d₀.isDir p = true) d' := by
    intro p d d' hne hfree hd hrm
    refine ⟨hd.1.remove hne hrm, hd.2.remove (fun hp => ?_) hrm⟩
    rw [hfree] at hp
    cases hp
  refine Kept.run (M := fun p => p ≠ [] ∧ d₀.isDir p = false) ⟨?_, ?_, ?_, ?_⟩ ⟨?_, ?_, ?_, ?_⟩
  · intro p d d' _ hd hmkdir
    obtain ⟨hnone, habove, -⟩ := Disk.make_cases hmkdir
    refine ⟨⟨hd.1.make hmkdir, hd.2.make hmkdir⟩, ?_, hold hd.2 hnone⟩
    rintro rfl
    rw [List.tail_nil, Disk.Holds.not_isDir_of_none hnone] at habove
    cases habove
  · exact fun p d d' _ hd hchmod => ⟨hd.1.chmod hchmod, hd.2.chmod hchmod⟩
  · exact fun p d d' hd hsync => ⟨hd.1.syncDir hsync, hd.2.syncDir hsync⟩
  · exact fun p d d' hp hd hrm => hremove hp.1 hp.2 hd hrm
  · exact fun d d' hd hcreate => ⟨hd.1.make hcreate, hd.2.make hcreate⟩
  · exact fun d node node' hd hnow hkind => ⟨hd.1.change hnow hkind, hd.2.change hnow hkind⟩
  · exact fun d d' hd _ hrename => ⟨hd.1.rename hrename, hd.2.rename hrename⟩
  · intro d₁ d₂ d d' hd₁ hcreate hd hrm
    exact hremove (List.cons_ne_nil _ _) (hold hd₁.2 (Disk.make_cases hcreate).1) hd hrm

end Names

/-! ## A call that succeeds -/

section Success

variable {umask : Nat} {made rest : List Path}

/-- Only the directories that were made may be lost. -/
def Fresh (made : List Path) (d : Disk β) : Prop :=
  Disk.Tree d ∧ ∀ p, d.isDir p = true → (d.entry p).older = [] ∨ p ∈ made

theorem Fresh.change {d : Disk β} (h : Fresh made d) {p : Path} {node node' : Node β}
    (hnow : d.now p = some node) (hkind : node'.contents.isNone = node.contents.isNone) :
    Fresh made (d.change p node') := by
  refine ⟨h.1.change hnow hkind, fun q hq => ?_⟩
  rw [Disk.isDir_change hnow hkind] at hq
  rw [Disk.entry_change]
  split
  · next heq => rw [← heq]; exact h.2 q hq
  · exact h.2 q hq

theorem Fresh.mkdir {d d' : Disk β} (h : Fresh made d) {p : Path}
    (hd : Disk.mkdir umask dirMode p d = .ok ((), d')) : Fresh (made ++ [p]) d' := by
  refine ⟨h.1.make hd, fun q hq => ?_⟩
  obtain ⟨-, -, rfl⟩ := Disk.make_cases hd
  rw [Disk.isDir_link] at hq
  rw [Disk.entry_link]
  split at hq
  · next heq => exact Or.inr (by simp [heq])
  · next hne =>
    rw [if_neg hne]
    exact (h.2 q hq).imp_right fun hmem => List.mem_append_left _ hmem

theorem Descends.suffix {p : Path} (h : Descends (p :: rest)) :
    ∀ q ∈ rest, p <:+ q ∧ p.length < q.length := by
  induction rest generalizing p with
  | nil => simp
  | cons a rest ih =>
    obtain ⟨⟨name, rfl⟩, hrest⟩ := List.isChain_cons_cons.1 h
    intro q hq
    rcases List.mem_cons.1 hq with rfl | hq
    · exact ⟨List.suffix_cons name p, by simp⟩
    · obtain ⟨hsuffix, hlength⟩ := ih hrest q hq
      refine ⟨(List.suffix_cons name p).trans hsuffix, ?_⟩
      rw [List.length_cons] at hlength
      omega

theorem Descends.tail_mem {p q : Path} (h : Descends (p :: rest)) (hq : q ∈ rest) :
    q.tail ∈ p :: rest := by
  induction rest generalizing p with
  | nil => cases hq
  | cons a rest ih =>
    obtain ⟨⟨name, rfl⟩, hrest⟩ := List.isChain_cons_cons.1 h
    rcases List.mem_cons.1 hq with rfl | hq
    · exact List.mem_cons_self
    · exact List.mem_cons_of_mem p (ih hrest hq)

/-- Once a directory was missing, so is everything below it. -/
theorem triple_makeDirs (hdescends : Descends (made ++ rest)) :
    Triple (fun d : Disk β => Fresh made d ∧ (made ≠ [] → ∀ p ∈ rest, d.now p = none))
      (makeDirs umask rest made)
      (fun r d => r.2 = none → Descends r.1 ∧ Fresh r.1 d) fun _ => True := by
  induction rest generalizing made with
  | nil =>
    rw [List.append_nil] at hdescends
    exact Triple.pure fun d hd _ => ⟨hdescends, hd.1⟩
  | cons p rest ih =>
    have hbelow := Descends.suffix (List.isChain_append.1 hdescends).2.1
    have hnext : Descends (made ++ [p] ++ rest) := by
      rw [List.append_assoc]
      exact hdescends
    refine Triple.bind (S := fun r d =>
        (r = .ok () → Fresh (made ++ [p]) d ∧ d.now p ≠ none ∧ ∀ q ∈ rest, d.now q = none) ∧
        (r = .error (.io .alreadyExists) → made = [] ∧ Fresh made d))
      (triple_attempt (fun d d' hd hmkdir => ?_) (fun d e hd hmkdir => ?_) fun d hd =>
        ⟨⟨nofun, nofun⟩, trivial⟩) fun r => ?_
    · obtain ⟨hnone, -, heq⟩ := Disk.make_cases hmkdir
      refine ⟨⟨fun _ => ⟨hd.1.mkdir hmkdir, ?_, fun q hq => ?_⟩, nofun⟩, nofun, nofun⟩
      · rw [heq, Disk.now_link, if_pos rfl]
        nofun
      · obtain ⟨hsuffix, hlength⟩ := hbelow q hq
        have hne : q ≠ p := by
          rintro rfl
          omega
        rw [heq, Disk.now_link, if_neg hne]
        exact hd.1.1.none_below hnone hsuffix
    · refine ⟨nofun, fun he => ?_⟩
      have hsome : d.now p ≠ none := Disk.exists_of_make (by cases he; exact hmkdir)
      refine ⟨?_, hd.1⟩
      by_contra hmade
      exact hsome (hd.2 hmade p List.mem_cons_self)
    cases r with
    | ok u =>
      refine Triple.bind (S := fun r d =>
          r = .ok () → Fresh (made ++ [p]) d ∧ ∀ q ∈ rest, d.now q = none)
        (triple_attempt (fun d d' hd hchmod => ⟨fun _ => ?_, nofun⟩) (fun d e hd _ => nofun)
          fun d hd => ⟨nofun, trivial⟩) fun r => ?_
      · obtain ⟨hfresh, -, hnone⟩ := hd.1 rfl
        obtain ⟨node, hnow, rfl⟩ := Disk.chmod_cases hchmod
        refine ⟨hfresh.change hnow rfl, fun q hq => ?_⟩
        have hne : q ≠ p := by
          rintro rfl
          have hlength := (hbelow q hq).2
          omega
        rw [Disk.now_change, if_neg hne]
        exact hnone q hq
      cases r with
      | ok u => exact (ih hnext).pre fun d hd => ⟨(hd rfl).1, fun _ => (hd rfl).2⟩
      | error e => exact Triple.pure fun d _ => nofun
    | error e =>
      refine Triple.ite (fun he => ?_) fun _ => Triple.pure fun d _ => nofun
      refine Triple.atWorld fun d hd => ?_
      obtain ⟨rfl, hfresh⟩ := hd.2 (by rw [he])
      have hrest : Descends ([] ++ rest) := (List.isChain_append.1 hnext).2.1
      exact (ih hrest).pre fun _ heq => heq ▸ ⟨hfresh, fun hne =>
        absurd rfl hne⟩

/-- The flush of every new directory, and of the one above the first. -/
theorem triple_sync {first : Path} (hdescends : Descends (first :: made)) :
    Triple (Fresh (β := β) (first :: made))
      (do
        (first :: made).forM syncDir
        syncParent first.tail) (fun _ d => Disk.Tree d ∧ Disk.Firm d) fun _ => True := by
  have habove : ∀ p ∈ first :: made, p.tail ∈ first :: made ∨ p.tail = first.tail := by
    intro p hp
    rcases List.mem_cons.1 hp with rfl | hp
    · exact Or.inr rfl
    · exact Or.inl (hdescends.tail_mem hp)
  -- The names that are not yet on the medium are in directories still to be flushed.
  let J (rest : List Path) (d : Disk β) : Prop := Disk.Tree d ∧ ∀ p, d.isDir p = true →
    (d.entry p).older = [] ∨ p ≠ [] ∧ (p.tail ∈ rest ∨ p.tail = first.tail)
  have hstep : ∀ (q : Path) (rest : List Path) (d d' : Disk β), J (q :: rest) d →
      Disk.syncDir q d = .ok ((), d') → J rest d' := by
    intro q rest d d' hd hsync
    refine ⟨hd.1.syncDir hsync, fun p hp => ?_⟩
    rw [Disk.isDir_of_sync hsync] at hp
    rw [(Disk.syncDir_cases hsync).2 p]
    dsimp only
    split
    · exact Or.inl rfl
    · next hnot =>
      rcases hd.2 p hp with holder | ⟨hne, hmem | hfirst⟩
      · exact Or.inl holder
      · rcases List.mem_cons.1 hmem with heq | hmem
        · exact absurd ⟨hne, heq⟩ hnot
        · exact Or.inr ⟨hne, Or.inl hmem⟩
      · exact Or.inr ⟨hne, Or.inr hfirst⟩
  refine Triple.bind (S := fun _ => J []) ((Triple.forM (J := J) (E := fun _ => True)
    fun q rest _ => triple_call (hstep q rest)).pre fun d hd => ⟨hd.1, fun p hp => ?_⟩) fun _ => ?_
  · by_cases hne : p = []
    · subst hne
      exact Or.inl (hd.1.root [] (List.suffix_refl [])).2
    · exact (hd.2 p hp).imp_right fun hmem => ⟨hne, habove p hmem⟩
  · refine Triple.bind (S := fun r d => r = .ok () → Disk.Tree d ∧ Disk.Firm d)
      (triple_attempt (fun d d' hd hsync => ⟨fun _ => ?_, nofun⟩) (fun d e _ _ => nofun) fun d _ =>
        ⟨nofun, trivial⟩) fun r => ?_
    · refine ⟨hd.1.syncDir hsync, fun p hp => ?_⟩
      rw [Disk.isDir_of_sync hsync] at hp
      rw [(Disk.syncDir_cases hsync).2 p]
      dsimp only
      split
      · rfl
      · next hnot =>
        rcases hd.2 p hp with holder | ⟨hne, hmem | hfirst⟩
        · exact holder
        · cases hmem
        · exact absurd ⟨hne, hfirst⟩ hnot
    · rcases r with (e | ⟨_, e⟩) | _
      · exact Triple.fail fun _ _ => trivial
      · exact Triple.fail fun _ _ => trivial
      · exact Triple.pure fun d hd => hd rfl

/-- `EnsureDir` that succeeds leaves the names of all directories on the medium. -/
theorem triple_ensureDir (directory : Path) :
    Triple (fun d : Disk β => Disk.Tree d ∧ Disk.Firm d) (ensureDir umask directory)
      (fun _ d => Disk.Tree d ∧ Disk.Firm d) fun _ => True := by
  refine Triple.bind ((triple_missingAncestors directory).conseq (fun _ hd => hd) (fun _ _ hd => hd)
    fun _ _ => trivial) fun missing => Triple.lift fun hmissing => ?_
  have hdescends : Descends ([] ++ missing) := hmissing.1
  refine Triple.bind ((triple_makeDirs hdescends).pre fun d hd => ?_) fun r => ?_
  · exact ⟨⟨hd.1, fun p hp => Or.inl (hd.2 p hp)⟩, fun hne => absurd rfl hne⟩
  obtain ⟨made, error⟩ := r
  cases error with
  | some e =>
    exact Triple.bind (S := fun _ _ => True) Triple.trivial fun _ => Triple.fail fun _ _ => trivial
  | none =>
    cases made with
    | nil =>
      refine Triple.pure fun d hd => ?_
      obtain ⟨-, htree, hfresh⟩ := hd rfl
      exact ⟨htree, fun p hp => (hfresh p hp).resolve_right List.not_mem_nil⟩
    | cons first made =>
      refine Triple.atWorld fun d hd => ?_
      obtain ⟨hdown, hfresh⟩ := hd rfl
      refine Triple.bind (S := fun r d => r = .ok () → Disk.Tree d ∧ Disk.Firm d)
        (Triple.attempt ((triple_sync hdown).conseq (fun _ heq => heq ▸ hfresh)
          (fun _ d hd _ => hd) fun d _ => ⟨trivial, fun _ => nofun⟩)) fun r => ?_
      cases r with
      | ok u => exact Triple.pure fun d hd => hd rfl
      | error e =>
        exact Triple.bind (S := fun _ _ => True) Triple.trivial fun _ =>
          Triple.fail fun _ _ => trivial

theorem Write.temporary_ne (w : Write β) : w.temporary ≠ w.file := by
  intro heq
  have hlength := congrArg String.length (List.cons.inj heq).1
  simp only [String.length_append] at hlength
  have hdot : (".tmp." : String).length = 5 := by decide
  omega

/-- `WriteFile` that succeeds has its file on the medium, under directories that are there. -/
theorem triple_run (empty : β) (w : Write β) :
    Triple (fun d : Disk β => Disk.Tree d ∧ Disk.Firm d) (w.run empty)
      (fun _ d => (Disk.Tree d ∧ Disk.Firm d) ∧ d.entry w.file = ⟨some w.node, []⟩)
      fun _ => True := by
  refine Triple.bind (triple_ensureDir w.directory) fun _ => ?_
  have hfile : KeptFile (fun d : Disk β => Disk.Tree d ∧ Disk.Firm d) empty w := by
    refine ⟨?_, ?_, ?_, ?_⟩
    · exact fun d d' hd hcreate => ⟨hd.1.make hcreate, hd.2.create hcreate⟩
    · exact fun d node node' hd hnow hkind => ⟨hd.1.change hnow hkind, hd.2.change hnow hkind⟩
    · exact fun d d' hd _ hrename => ⟨hd.1.rename hrename, hd.2.rename hrename⟩
    · intro _ _ d d' _ _ hd hremove
      refine ⟨hd.1.remove (List.cons_ne_nil _ _) hremove, ?_⟩
      obtain ⟨node, -, -, rfl⟩ := Disk.remove_cases hremove
      exact hd.2.link rfl
  refine (hfile.triple_rest
    (Q := fun d => (Disk.Tree d ∧ Disk.Firm d) ∧ d.now w.file = some w.node)
    (R := fun d => (Disk.Tree d ∧ Disk.Firm d) ∧ d.entry w.file = ⟨some w.node, []⟩)
    (fun d d' hd hnow hrename => ?_) (fun d d' hd hsync => ?_) (fun d hd => hd.1)
    fun d hd => hd.1).conseq (fun _ hd => hd) (fun _ _ hd => hd) fun _ _ => trivial
  · refine ⟨hfile.rename d d' hd hnow hrename, ?_⟩
    obtain ⟨node, hnow', -, -, -, ⟨heq, -⟩ | ⟨-, rfl⟩⟩ := Disk.rename_cases hrename
    · exact absurd heq w.temporary_ne
    · rw [Disk.now_link, if_neg w.temporary_ne.symm, Disk.now_link, if_pos rfl, ← hnow', hnow]
  · refine ⟨⟨hd.1.1.syncDir hsync, hd.1.2.syncDir hsync⟩, ?_⟩
    have hne : w.file ≠ w.directory := by
      intro heq
      have hlength := congrArg List.length heq
      simp [Write.file] at hlength
    rw [(Disk.syncDir_cases hsync).2 w.file, if_neg hne, if_pos ⟨List.cons_ne_nil _ _, rfl⟩, hd.2]

end Success

/-! ## Runs -/

section Runs

variable {empty : β} {file : Path} {P : Option (Node β) → Prop}

/-- What an event does to a name that it spares. -/
def Writes (P : Option (Node β) → Prop) (file : Path) (events : List (Event β)) : Prop :=
  ∀ w ∈ writesTo file events, P (some w.node)

theorem Writes.head {e : Event β} {events : List (Event β)} (h : Writes P file (e :: events)) :
    Writes P file [e] ∧ Writes P file events := by
  have happend : writesTo file ([e] ++ events) = writesTo file [e] ++ writesTo file events :=
    List.filterMap_append
  rw [List.singleton_append] at happend
  unfold Writes at h
  rw [happend] at h
  exact ⟨fun w hw => h w (List.mem_append_left _ hw), fun w hw => h w (List.mem_append_right _ hw)⟩

theorem Writes.write {w : Write β} {fates : List Fate} (h : Writes P file [.write w fates])
    (hw : w.file = file) : P (some w.node) := by
  refine h w ?_
  simp [writesTo, hw]

/-- What every call that spares the name and every loss of power keep holds after a run. -/
theorem Writes.run (empty : β) {I : Disk β → Prop}
    (hwrite : ∀ w fates, (Event.write w fates).Spares file → (w.file = file → P (some w.node)) →
      Keeps I (Write.run empty w))
    (hloss : ∀ l d, I d → I (d.powerLoss l)) {events : List (Event β)}
    (hwrites : Writes P file events) (hspares : ∀ e ∈ events, e.Spares file) {d : Disk β}
    (h : I d) : I (Machine.run (step empty) d events) := by
  induction events generalizing d with
  | nil => exact h
  | cons e events ih =>
    obtain ⟨hfirst, hrest⟩ := hwrites.head
    refine ih hrest (fun e' he' => hspares e' (List.mem_cons_of_mem e he')) ?_
    cases e with
    | write w fates =>
      exact (hwrite w fates (hspares _ List.mem_cons_self) hfirst.write).finalWorld h fates
    | powerLoss l => exact hloss l d h

/-- Directories that are on the medium stay so, as long as failures roll back. -/
theorem firm_step {d : Disk β} (h : Disk.Tree d ∧ Disk.Firm d) (e : Event β)
    (he : RollsBack empty d e) : Disk.Tree (step empty d e) ∧ Disk.Firm (step empty d e) := by
  cases e with
  | write w fates =>
    rcases he with hok | hrolled
    · exact ((triple_run empty w).of_result h hok).1
    · obtain ⟨htree, hholds⟩ := (keeps_directories empty w d).finalWorld
        ⟨h.1, fun p hp => ⟨hp, h.2 p hp⟩⟩ fates
      exact ⟨htree, fun p hp => (hholds p (hrolled p hp)).2⟩
  | powerLoss l => exact ⟨h.1.powerLoss l, Disk.firm_powerLoss l d⟩

end Runs

/-! ## Results -/

/-- The file that a list of calls may have left. -/
def Left (writes : List (Write β)) (v : Option (Node β)) : Prop := ∃ w ∈ writes, v = some w.node

theorem Left.files (writes : List (Write β)) : Disk.Values.Files (Left writes) := by
  rintro node ⟨w, -, heq⟩
  rw [Option.some.inj heq]
  rfl

theorem Left.flushed (writes : List (Write β)) : Disk.Values.Flushed (Left writes) := by
  rintro node ⟨w, -, heq⟩
  rw [Option.some.inj heq]
  rfl

/-- A file is never torn: whatever fails, wherever the process dies and however often the power is
lost, it reads as before all calls, as one of them wrote it, or not at all. -/
theorem file_is_never_torn (empty : β) (d : Disk β) (file : Path) (old : Option (Node β))
    (events : List (Event β)) (hold : d.entry file = ⟨old, []⟩)
    (hfile : ∀ node, old = some node → node.flushed = true ∧ node.contents.isNone = false)
    (hspares : ∀ e ∈ events, e.Spares file) {v : Option (Node β)}
    (hread : (Machine.run (step empty) d events).MayRead file v) :
    v = none ∨ v = old ∨ Left (writesTo file events) v := by
  let P (v : Option (Node β)) : Prop := v = none ∨ v = old ∨ Left (writesTo file events) v
  have hfiles : Disk.Values.Files P := by
    rintro node (h | h | h)
    · cases h
    · exact (hfile node h.symm).2
    · exact Left.files _ node h
  have hflushed : Disk.Values.Flushed P := by
    rintro node (h | h | h)
    · cases h
    · exact (hfile node h.symm).1
    · exact Left.flushed _ node h
  have hstart : Disk.Values P file d := by
    intro v hv
    unfold Disk.now at hv
    rw [hold, List.mem_singleton] at hv
    exact Or.inr (Or.inl hv)
  have hwrites : Writes P file events := fun w hw => Or.inr (Or.inr ⟨w, hw, rfl⟩)
  have hrun := hwrites.run empty
    (fun w _ hw hnode => keeps_values hfiles hw.1 hw.2 hnode)
    (fun l d hd => hd.powerLoss hflushed (Or.inl rfl) l) hspares hstart
  rcases hread with rfl | ⟨l, rfl⟩
  · exact hrun.now
  · exact (hrun.powerLoss hflushed (Or.inl rfl) l).now

/-- A disk with nothing but its root. -/
def emptyDisk : Disk Nat := (⟨∅⟩ : Disk Nat).put [] ⟨some ⟨none, 0o755, true⟩, []⟩

/-- The secret of a registration, as a number. -/
def pendingSecret : Write Nat where
  name := "credentials.json.pending"
  directory := ["chordv-node-agent"]
  contents := 5
  mode := secretMode

theorem file_is_never_torn_killed :
    Left [pendingSecret] ((Machine.run (step 0) emptyDisk [.write pendingSecret
      (List.replicate 14 .run ++ [.die])]).now pendingSecret.file) ∧
    ∀ v, (Machine.run (step 0) emptyDisk [.write pendingSecret
        (List.replicate 14 .run ++ [.die])]).MayRead pendingSecret.file v →
      v = none ∨ v = none ∨ Left [pendingSecret] v :=
  ⟨⟨pendingSecret, List.mem_singleton_self _, by rfl⟩, fun _ hread =>
    file_is_never_torn 0 emptyDisk pendingSecret.file none _ (by rfl) nofun (fun e he => by
      rw [List.mem_singleton.1 he]
      exact ⟨by decide, pendingSecret.temporary_ne⟩) hread⟩

/-- A file that was written stays: after a call that succeeds it reads, now and after any loss of
power, as that call or a later one wrote it.  The calls before it have rolled back their
directories if they failed, so that the success of a retry means the same. -/
theorem written_file_survives (empty : β) (d : Disk β) (before after : List (Event β))
    (w : Write β) (fates : List Fate) (htree : Disk.Tree d) (hfirm : Disk.Firm d)
    (hrolled : Machine.Meets (step empty) (RollsBack empty) d before)
    (hok : result? (w.run empty) (Machine.run (step empty) d before) fates = some ())
    (hspares : ∀ e ∈ after, e.Spares w.file) {v : Option (Node β)}
    (hread : (Machine.run (step empty) d (before ++ .write w fates :: after)).MayRead w.file v) :
    Left (w :: writesTo w.file after) v := by
  let P := Left (w :: writesTo w.file after)
  have hready := Machine.run_keeps_of_meets
    (I := fun d : Disk β => Disk.Tree d ∧ Disk.Firm d) (fun _ e hd he => firm_step hd e he)
    ⟨htree, hfirm⟩ hrolled
  obtain ⟨⟨htree', hfirm'⟩, hentry⟩ := (triple_run empty w).of_result hready hok
  have hnow : (finalWorld (w.run empty) (Machine.run (step empty) d before) fates).now w.file =
      some w.node := congrArg Entry.now hentry
  have hchain := htree'.chain hfirm'
    (htree'.above w.name w.directory (Option.isSome_iff_exists.2 ⟨_, hnow⟩))
  have hstart : Disk.Values P w.file
      (finalWorld (w.run empty) (Machine.run (step empty) d before) fates) := by
    intro v hv
    unfold Disk.now at hv
    rw [hentry, List.mem_singleton] at hv
    exact ⟨w, List.mem_cons_self, hv⟩
  have hnone : ¬P none := by
    rintro ⟨x, -, heq⟩
    cases heq
  rw [Machine.run_append, Machine.run_cons] at hread
  have hwrites : Writes P w.file after := fun x hx => ⟨x, List.mem_cons_of_mem w hx, rfl⟩
  have hrun := hwrites.run empty
    (I := fun d => Disk.Chain w.directory d ∧ Disk.Values P w.file d)
    (fun x _ hx hnode => keeps_chain (Left.files _) hnone hx.1 hx.2 hnode)
    (fun l d hd => ⟨hd.1.powerLoss l, hd.2.powerLoss_of_chain (Left.flushed _) hd.1 l⟩)
    hspares ⟨hchain, hstart⟩
  rcases hread with rfl | ⟨l, rfl⟩
  · exact hrun.2.now
  · exact (hrun.2.powerLoss_of_chain (Left.flushed _) hrun.1 l).now

/-- The directory of the secret is made, but its mode cannot be set. -/
def refusedMode : List Fate := [.run, .run, .run, .refuse]

/-- The directory that the failed call made is taken back. -/
theorem rollsBack_refusedMode : RollsBack 0 emptyDisk (.write pendingSecret refusedMode) := by
  refine Or.inr fun p hp => ?_
  have hfinal : finalWorld (pendingSecret.run 0) emptyDisk refusedMode =
      (emptyDisk.link pendingSecret.directory
        (some ⟨none, Nat.ldiff dirMode pendingSecret.umask, false⟩)).link
          pendingSecret.directory none := rfl
  rw [hfinal] at hp
  unfold Disk.isDir at hp ⊢
  rw [Disk.now_link] at hp
  split at hp
  · cases hp
  next hne =>
    rwa [Disk.now_link, if_neg hne] at hp

/-- A call fails and takes its directory back.  The retry succeeds, and its file survives. -/
theorem written_file_survives_first :
    Left [pendingSecret] ((Machine.run (step 0) emptyDisk
      ([.write pendingSecret refusedMode] ++ .write pendingSecret [] ::
        [.powerLoss ⟨fun _ => 1, fun _ => 7, fun _ => 0⟩])).now pendingSecret.file) := by
  have htree : Disk.Tree emptyDisk := by
    refine ⟨fun q hq => ?_, fun a p hp => ?_⟩
    · obtain rfl := List.suffix_nil.1 hq
      exact ⟨by rfl, by rfl⟩
    · unfold emptyDisk Disk.now at hp
      rw [Disk.entry_put, if_neg (List.cons_ne_nil a p)] at hp
      cases hp
  have hfirm : Disk.Firm emptyDisk := by
    intro p _
    unfold emptyDisk
    rw [Disk.entry_put]
    split <;> rfl
  exact written_file_survives 0 emptyDisk [.write pendingSecret refusedMode]
    [.powerLoss ⟨fun _ => 1, fun _ => 7, fun _ => 0⟩] pendingSecret [] htree hfirm
    ⟨rollsBack_refusedMode, trivial⟩ (by rfl) (fun e he => List.mem_singleton.1 he ▸ trivial)
    (Or.inl rfl)

end ChordV.Agent.Durable
