import ChordV.Deploy.Fence

/-!
# An approved release is launched again

Once an operation is finalized, the loop forgets what kind it was.  Every later launch of the
approved version is an ordinary one, and an ordinary launch runs the migration script.  A
rollback had skipped it, because Prisma refuses a history with an unfinished failed migration.

* `calm` says which events can happen while the database, the releases and the health of the
  version stay as they are.  Writes can fail, the app can exit and the container can die.
* `Relaunches` is the purpose: after every exit and every start the loop launches the version
  and approves it.
* `refused` is the situation in which the script fails every time.
* `relaunches_iff` is the result about all runs.
-/

namespace ChordV.Deploy

open ChordV.Lib ChordV.Lib.Machine

/-! ## What can happen to an approved version -/

/-- The version passes the checks of the loop: its entries are there and it is ready. -/
structure World.Healthy (cfg : Config) (w : World) (version : Text) : Prop where
  complete : missingEntry cfg (w.releases version) = none
  ready : ready w version = true

/-- An ordinary launch runs the script of the version, and Prisma refuses the history. -/
def refused (cfg : Config) (w : World) (version : Text) : Bool :=
  cfg.runMigrate && (w.releases version).any (·.hasMigrate) && w.db.unfinished ≠ []

/-- The actions that only write to the state volume. -/
def Phase.records : Phase → Bool
  | .promote | .lastGood | .result | .approve | .clear => true
  | _ => false

/-- The events that leave the database, the releases and the health of the version alone.  The
script ends as Prisma decides: with an error if the history holds an unfinished migration, and
without one if every shipped migration is finished. -/
def calm (s : State) : Event → Bool
  | .done => s.proc.all fun p => p.phase ≠ .migrate || s.world.db.unfinished = []
  | .fails _ => s.proc.all fun p =>
    p.phase.records || (p.phase = .migrate && s.world.db.unfinished ≠ [])
  | .exits | .killed _ | .starts _ | .ticks _ => true
  | .stages _ | .recovers _ | .release _ _ | .database _ => false

/-- An action succeeds. -/
def Event.succeeds : Event → Bool
  | .done => true
  | _ => false

/-- An action succeeds or fails. -/
def Event.acts : Event → Bool
  | .done | .fails _ => true
  | _ => false

/-- The state after some calm events. -/
def CalmlyReaches (cfg : Config) (s s' : State) : Prop :=
  ∃ events, Meets (step cfg) (fun s e => calm s e = true) s events ∧ run (step cfg) s events = s'

/-- Whatever calm events have happened, the loop launches the version after an exit of the app
and after a start of the container, and a launch has approved the version as soon as eight
actions have succeeded. -/
structure Relaunches (cfg : Config) (s : State) (version : Text) : Prop where
  exits : ∀ s' g, CalmlyReaches cfg s s' → s'.proc = some ⟨.serving, g⟩ →
    (step cfg s' .exits).proc = some ⟨.promote, g⟩ ∧ g.version = version
  starts : ∀ s' seed, CalmlyReaches cfg s s' → s'.proc = none → ∃ g,
    (step cfg s' (.starts seed)).proc = some ⟨.promote, g⟩ ∧ g.version = version
  approves : ∀ s' g attempt, CalmlyReaches cfg s s' → s'.proc = some ⟨.promote, g⟩ →
    Meets (step cfg) (fun s e => calm s e = true) s' attempt → (∀ e ∈ attempt, e.acts = true) →
    8 ≤ attempt.countP (·.succeeds) →
    ∃ g newer, (run (step cfg) s' attempt).proc = some ⟨.serving, g⟩ ∧ g.version = version ∧
      (run (step cfg) s' attempt).world.log = newer ++ s'.world.log ∧ .approved version ∈ newer

/-! ## The version that a start finds -/

/-- What `resolve_start_version` looks for. -/
def World.isPlace (w : World) (v : Text) : Bool := v ≠ [] && (w.releases v).isSome

theorem World.isPlace_of_resolves {w : World} {version : Text}
    (h : resolveStartVersion w = some version) : w.isPlace version = true := by
  have hfound := List.find?_some h
  exact hfound

theorem resolveStartVersion_eq (w : World) : resolveStartVersion w =
    if w.isPlace w.desired then some w.desired
    else if w.isPlace w.current then some w.current
    else if w.isPlace w.lastGood then some w.lastGood else none := by
  have hlist : resolveStartVersion w = [w.desired, w.current, w.lastGood].find? w.isPlace := rfl
  rw [hlist]
  cases hd : w.isPlace w.desired with
  | true => simp [hd]
  | false =>
    cases hc : w.isPlace w.current with
    | true => simp [hd, hc]
    | false =>
      cases hl : w.isPlace w.lastGood with
      | true => simp [hd, hc, hl]
      | false => simp [hd, hc, hl]

/-- A version that is found stays found when it is written to one of the files. -/
theorem resolves_write {w : World} {version : Text} (h : resolveStartVersion w = some version) :
    resolveStartVersion (w.apply (.link version)) = some version ∧
    resolveStartVersion (w.apply (.desired version)) = some version ∧
    resolveStartVersion (w.apply (.lastGood version)) = some version := by
  have hplace := World.isPlace_of_resolves h
  have hsame : ∀ w' : World, w'.releases = w.releases → w'.isPlace = w.isPlace := by
    intro w' hrel
    funext v
    rw [World.isPlace, hrel, World.isPlace]
  rw [resolveStartVersion_eq] at h
  refine ⟨?_, ?_, ?_⟩
  · rw [resolveStartVersion_eq, hsame (w.apply (.link version)) rfl]
    simp only [World.apply, hplace]
    split at h
    · rwa [if_pos ‹_›]
    · rw [if_neg ‹_›]
      rfl
  · rw [resolveStartVersion_eq, hsame (w.apply (.desired version)) rfl]
    simp only [World.apply, hplace]
    rfl
  · rw [resolveStartVersion_eq, hsame (w.apply (.lastGood version)) rfl]
    simp only [World.apply, hplace]
    split at h
    · rwa [if_pos ‹_›]
    · rw [if_neg ‹_›]
      split at h
      · rwa [if_pos ‹_›]
      · rw [if_neg ‹_›]
        rfl

/-! ## The launches of an approved version -/

/-- The files and the surroundings of a version that is approved and not refused. -/
structure Kept (cfg : Config) (version : Text) (w : World) : Prop where
  pending : w.pending = none
  promoting : w.promoting = none
  healthy : w.Healthy cfg version
  accepted : refused cfg w version = false
  resolves : resolveStartVersion w = some version

/-- The actions that are left until the version serves. -/
def Phase.left : Phase → Option Nat
  | .promote => some 8
  | .migrate => some 7
  | .gate => some 6
  | .stabilize => some 5
  | .lastGood => some 4
  | .result => some 3
  | .approve => some 2
  | .clear => some 1
  | .serving => some 0
  | _ => none

/-- The variables of an ordinary launch. -/
structure Generation.Ordinary (version : Text) (g : Generation) : Prop where
  version : g.version = version
  op : g.op = []
  kind : g.kind = none
  promotion : g.promotion = false

/-- An ordinary launch with at most `n` actions left.  Where the script runs, Prisma accepts the
history. -/
structure Proc.Launches (version : Text) (w : World) (n : Nat) (p : Proc) : Prop where
  ordinary : p.gen.Ordinary version
  left : ∃ m, p.phase.left = some m ∧ m ≤ n
  script : p.phase = .migrate → w.db.unfinished = []

theorem Kept.frame {cfg : Config} {version : Text} {w w' : World} (h : Kept cfg version w)
    (hpending : w'.pending = w.pending) (hpromoting : w'.promoting = none)
    (hreleases : w'.releases = w.releases) (hdb : w'.db = w.db)
    (hresolves : resolveStartVersion w' = some version) : Kept cfg version w' where
  pending := hpending.trans h.pending
  promoting := hpromoting
  healthy := by
    refine ⟨hreleases ▸ h.healthy.complete, ?_⟩
    rw [ready, hreleases, hdb]
    exact h.healthy.ready
  accepted := by
    rw [refused, hreleases, hdb]
    exact h.accepted
  resolves := hresolves

/-- Every write of a launch keeps the files as they are. -/
theorem Kept.write {cfg : Config} {version : Text} {w₀ w : World} {p : Proc} {wr : Write} {n : Nat}
    (h : Kept cfg version w) (hp : p.Launches version w₀ n) (hdoes : Does cfg w₀ p wr) :
    Kept cfg version (w.apply wr) := by
  obtain ⟨hlink, hdesired, hlastGood⟩ := resolves_write h.resolves
  have hversion := hp.ordinary.version
  obtain ⟨m, hm, -⟩ := hp.left
  cases hdoes with
  | link g =>
    rw [show g.version = version from hversion]
    exact h.frame rfl h.promoting rfl rfl hlink
  | desired g =>
    rw [show g.version = version from hversion]
    exact h.frame rfl h.promoting rfl rfl hdesired
  | lastGood g =>
    rw [show g.version = version from hversion]
    exact h.frame rfl h.promoting rfl rfl hlastGood
  | clear g => exact h.frame rfl rfl rfl rfl h.resolves
  | previous | publish | approve => exact h.frame rfl h.promoting rfl rfl h.resolves
  | outcome g hop => exact absurd hp.ordinary.op hop
  | consume | forced | landing | terminal | dropPending | removePending | linkBack | desiredBack
  | discard | backup | pruneBackups | failure => cases hm

theorem Kept.writes {cfg : Config} {version : Text} {w : World} {p : Proc} {n : Nat}
    (h : Kept cfg version w) (hp : p.Launches version w n) (k : Nat) :
    Kept cfg version (w.applyAll ((p.phase.writes cfg p.gen w).take k)) := by
  refine applyAll_take_keeps (fun w' pre wr post hws _ hkept => ?_) h k
  have hmem : wr ∈ p.phase.writes cfg p.gen w := by
    rw [hws]
    simp
  exact hkept.write hp (does_of_mem_writes hmem)

/-- A launch that is under way since the log was `base`.  From the removal of the marker on the
version has been approved, unless the launch was that far already (`late`). -/
structure Underway (cfg : Config) (version : Text) (base : List Entry) (late : Prop) (n : Nat)
    (s : State) : Prop where
  kept : Kept cfg version s.world
  proc : ∃ p, s.proc = some p ∧ p.Launches version s.world n
  log : ∃ newer, s.world.log = newer ++ base ∧ ∀ p m, s.proc = some p → p.phase.left = some m →
    m ≤ 1 → late ∨ .approved version ∈ newer

theorem underway_go {cfg : Config} {version : Text} {base : List Entry} (newer : List Entry)
    {late : Prop} {phase : Phase} {g : Generation} {w : World}
    {m n : Nat} (hkept : Kept cfg version w)
    (hg : g.Ordinary version) (hleft : phase.left = some m) (hle : m ≤ n)
    (hscript : phase = .migrate → w.db.unfinished = []) (hlog : w.log = newer ++ base)
    (happroved : m ≤ 1 → late ∨ .approved version ∈ newer) :
    Underway cfg version base late n (go phase g w) := by
  refine ⟨hkept, ⟨⟨phase, g⟩, rfl, hg, ⟨m, hleft, hle⟩, hscript⟩, newer, hlog, ?_⟩
  intro p k hp hk hlate
  obtain rfl := Option.some.inj hp
  obtain rfl : m = k := Option.some.inj (hleft.symm.trans hk)
  exact happroved hlate

/-- Behind `atomic_promote` the release is complete, no snapshot is needed, and the script runs
only where Prisma accepts the history. -/
theorem afterPromote_underway {cfg : Config} {version : Text} {base newer : List Entry}
    {late : Prop} {g : Generation} {w : World} {n : Nat} (hkept : Kept cfg version w)
    (hg : g.Ordinary version) (hn : 7 ≤ n) (hlog : w.log = newer ++ base) :
    Underway cfg version base late n (afterPromote cfg g w) := by
  have hneeds : g.needsSnapshot = false := by
    simp [Generation.needsSnapshot, hg.promotion]
  have hskip : afterPromote cfg g w = enterMigrate cfg g w := by
    unfold afterPromote
    rw [hg.version, hkept.healthy.complete]
    exact if_neg (by simp [hneeds])
  rw [hskip, enterMigrate, hg.version]
  split
  case isTrue hcond =>
    have haccepted : w.db.unfinished = [] := by
      have := hkept.accepted
      simpa [refused, hcond.2.1, hcond.2.2] using this
    have hnote : Kept cfg version (w.note (.migrating version g.op)) :=
      hkept.frame rfl hkept.promoting rfl rfl hkept.resolves
    refine underway_go (.migrating version g.op :: newer) hnote hg rfl (by omega)
      (fun _ => haccepted) ?_ (fun hlate => by omega)
    show Entry.migrating version g.op :: w.log = _
    rw [hlog]
    rfl
  case isFalse =>
    exact underway_go newer hkept hg rfl (by omega) (fun h => by cases h) hlog
      fun hlate => by omega

/-- An action of a launch that succeeds. -/
theorem Underway.done {cfg : Config} {version : Text} {base : List Entry} {late : Prop} {n : Nat}
    {s : State} (h : Underway cfg version base late n s) :
    Underway cfg version base late (n - 1) (step cfg s .done) := by
  obtain ⟨w, proc⟩ := s
  obtain ⟨hkept, ⟨p, rfl, hp⟩, newer, hlog, happroved⟩ := h
  have hwrites := hkept.writes hp (p.phase.writes cfg p.gen w).length
  rw [List.take_length] at hwrites
  obtain ⟨phase, g⟩ := p
  obtain ⟨hg, ⟨m, hm, hle⟩, -⟩ := hp
  have happroved' := happroved ⟨phase, g⟩ m rfl hm
  simp only [step]
  cases phase with
  | promote =>
    obtain rfl := Option.some.inj hm
    exact afterPromote_underway hwrites hg (by omega) hlog
  | migrate =>
    obtain rfl := Option.some.inj hm
    exact underway_go newer hwrites hg rfl (by omega) (fun h => by cases h)
      hlog fun hlate => by omega
  | gate =>
    obtain rfl := Option.some.inj hm
    have hready : ready (w.applyAll (Phase.writes cfg g w .gate)) g.version = true := by
      rw [show g.version = version from hg.version]
      exact hkept.healthy.ready
    simp only [finish]
    rw [if_pos hready]
    exact underway_go newer hwrites hg rfl (by omega) (fun h => by cases h)
      hlog fun hlate => by omega
  | stabilize =>
    obtain rfl := Option.some.inj hm
    have hnote : Kept cfg version (w.note (.passed g.version g.op)) :=
      hkept.frame rfl hkept.promoting rfl rfl hkept.resolves
    refine underway_go (.passed g.version g.op :: newer) hnote hg rfl (by omega)
      (fun h => by cases h) ?_ fun hlate => by omega
    show Entry.passed g.version g.op :: w.log = _
    rw [show w.log = newer ++ base from hlog]
    rfl
  | lastGood =>
    obtain rfl := Option.some.inj hm
    refine underway_go newer hwrites hg rfl (by omega) (fun h => by cases h) ?_
      fun hlate => by omega
    simp only [Phase.writes]
    split
    · exact hlog
    · exact hlog
  | result =>
    obtain rfl := Option.some.inj hm
    refine underway_go newer hwrites hg rfl (by omega) (fun h => by cases h) ?_
      fun hlate => by omega
    have hnone : Phase.writes cfg g w .result = [] := if_neg (not_not.mpr hg.op)
    show (w.applyAll (Phase.writes cfg g w .result)).log = _
    rw [hnone]
    exact hlog
  | approve =>
    obtain rfl := Option.some.inj hm
    refine underway_go (.approved g.version :: newer) hwrites hg rfl (by omega)
      (fun h => by cases h) ?_ fun _ => ?_
    · show Entry.approved g.version :: w.log = _
      rw [show w.log = newer ++ base from hlog]
      rfl
    · rw [show g.version = version from hg.version]
      exact .inr List.mem_cons_self
  | clear =>
    obtain rfl := Option.some.inj hm
    have hreset : g.reset.Ordinary version := ⟨hg.version, rfl, rfl, rfl⟩
    exact underway_go newer hwrites hreset rfl (by omega) (fun h => by cases h) hlog
      fun _ => happroved' (by omega)
  | serving =>
    obtain rfl := Option.some.inj hm
    exact underway_go newer hwrites hg rfl (by omega) (fun h => by cases h) hlog
      fun _ => happroved' (by omega)
  | dropPending | consume | removePending | snapshot | stop | forceMarker | forceKill
  | rollbackMarker | rollbackPromote | discard | terminalMarker | terminalResult => cases hm

/-- Writes only add to the log. -/
theorem applyAll_log (w : World) (ws : List Write) :
    ∃ newer, (w.applyAll ws).log = newer ++ w.log := by
  induction ws generalizing w with
  | nil => exact ⟨[], rfl⟩
  | cons wr ws ih =>
    obtain ⟨newer, hnewer⟩ := ih (w.apply wr)
    have hone : ∃ more, (w.apply wr).log = more ++ w.log := by
      cases wr with
      | backup b => exact ⟨[.dumped b], rfl⟩
      | result r => exact ⟨[.result r], rfl⟩
      | approve version => exact ⟨[.approved version], rfl⟩
      | promoting | clearPromoting | removePending | link | desired | previous | lastGood
      | publish | discard | pruneBackups => exact ⟨[], rfl⟩
    obtain ⟨more, hmore⟩ := hone
    refine ⟨newer ++ more, ?_⟩
    rw [List.append_assoc, ← hmore]
    exact hnewer

/-- An action of a launch that fails calmly: a write failed, and the loop goes on without it or
repeats it. -/
theorem Underway.fails {cfg : Config} {version : Text} {base : List Entry} {late : Prop} {n : Nat}
    {s : State} (h : Underway cfg version base late n s) {k : Nat}
    (hcalm : calm s (.fails k) = true) :
    Underway cfg version base late n (step cfg s (.fails k)) := by
  obtain ⟨w, proc⟩ := s
  obtain ⟨hkept, ⟨p, rfl, hp⟩, newer, hlog, happroved⟩ := h
  have hwrites := hkept.writes hp k
  obtain ⟨more, hmore⟩ := applyAll_log w ((p.phase.writes cfg p.gen w).take k)
  obtain ⟨phase, g⟩ := p
  obtain ⟨hg, ⟨m, hm, hle⟩, hscript⟩ := hp
  have happroved' := happroved ⟨phase, g⟩ m rfl hm
  have hlog' : (w.applyAll ((Phase.writes cfg g w phase).take k)).log =
      (more ++ newer) ++ base := by
    rw [hmore, show w.log = newer ++ base from hlog, List.append_assoc]
  simp only [step]
  cases phase with
  | promote =>
    obtain rfl := Option.some.inj hm
    simp only [fallBack]
    rw [if_neg (by simp [show g.promotion = false from hg.promotion])]
    exact afterPromote_underway hwrites hg (by omega) hlog'
  | migrate =>
    have hunfinished : w.db.unfinished = [] := hscript rfl
    simp [calm, Phase.records, hunfinished] at hcalm
  | gate | stabilize | serving => simp [calm, Phase.records] at hcalm
  | lastGood | result | approve | clear =>
    exact underway_go (more ++ newer) hwrites hg hm hle (fun h => by cases h) hlog'
      fun hm' => (happroved' hm').imp_right (List.mem_append_right _)
  | dropPending | consume | removePending | snapshot | stop | forceMarker | forceKill
  | rollbackMarker | rollbackPromote | discard | terminalMarker | terminalResult => cases hm

/-- Eight successes lead from the top of the loop to the service. -/
theorem Underway.attempt {cfg : Config} {version : Text} {base : List Entry} {late : Prop} {n : Nat}
    {s : State} (h : Underway cfg version base late n s) {attempt : List Event}
    (hmeets : Meets (step cfg) (fun s e => calm s e = true) s attempt)
    (hacts : ∀ e ∈ attempt, e.acts = true) :
    Underway cfg version base late (n - attempt.countP (·.succeeds))
      (run (step cfg) s attempt) := by
  induction attempt generalizing s n with
  | nil => exact h
  | cons e attempt ih =>
    have hrest := fun e' he' => hacts e' (List.mem_cons_of_mem _ he')
    cases e with
    | done =>
      have hcount : (Event.done :: attempt).countP (·.succeeds) =
          attempt.countP (·.succeeds) + 1 := List.countP_cons_of_pos rfl
      rw [hcount, Nat.add_comm, ← Nat.sub_sub]
      exact ih h.done hmeets.2 hrest
    | fails k =>
      rw [List.countP_cons_of_neg Bool.false_ne_true]
      exact ih (h.fails hmeets.1) hmeets.2 hrest
    | exits | killed | starts | stages | recovers | release | database | ticks =>
      cases hacts _ List.mem_cons_self

/-! ## The history of an approved version -/

/-- The container is down, or it launches or serves the version. -/
structure Settled (cfg : Config) (version : Text) (s : State) : Prop where
  kept : Kept cfg version s.world
  proc : ∀ p, s.proc = some p → p.Launches version s.world 8

theorem Underway.settled {cfg : Config} {version : Text} {base : List Entry} {late : Prop} {n : Nat}
    {s : State} (h : Underway cfg version base late n s) (hn : n ≤ 8) : Settled cfg version s := by
  obtain ⟨hkept, ⟨p, hp, hlaunches⟩, -⟩ := h
  refine ⟨hkept, fun p' hp' => ?_⟩
  obtain rfl := Option.some.inj (hp.symm.trans hp')
  obtain ⟨m, hm, hle⟩ := hlaunches.left
  exact ⟨hlaunches.ordinary, ⟨m, hm, Nat.le_trans hle hn⟩, hlaunches.script⟩

theorem Settled.underway {cfg : Config} {version : Text} {s : State} (h : Settled cfg version s)
    {p : Proc} (hp : s.proc = some p) : Underway cfg version s.world.log True 8 s :=
  ⟨h.kept, ⟨p, hp, h.proc p hp⟩, [], rfl, fun _ _ _ _ _ => .inl trivial⟩

/-- The top of the loop. -/
theorem Kept.settled_go {cfg : Config} {version : Text} {w : World} {g : Generation}
    (h : Kept cfg version w) (hg : g.Ordinary version) :
    Settled cfg version (go .promote g w) := by
  refine ⟨h, fun p hp => ?_⟩
  obtain rfl := Option.some.inj hp
  exact ⟨hg, ⟨8, rfl, Nat.le_refl 8⟩, fun hphase => by cases hphase⟩

/-- A start finds the version. -/
theorem Kept.boot {cfg : Config} {version : Text} {w : World} (h : Kept cfg version w)
    (seed : Option Release) : ∃ g, Generation.Ordinary version g ∧
      Deploy.boot cfg w seed = go .promote g w := by
  simp only [Deploy.boot, h.promoting, h.pending, plainStart, h.resolves]
  exact ⟨_, ⟨rfl, rfl, rfl, rfl⟩, rfl⟩

/-- An exit of the app that serves. -/
theorem Kept.exits {cfg : Config} {version : Text} {w : World} (h : Kept cfg version w)
    (g : Generation) : appExit ⟨.serving, g⟩ w = go .promote g w := by
  simp only [appExit, h.pending]

theorem Settled.step {cfg : Config} {version : Text} {s : State} (h : Settled cfg version s)
    {e : Event} (hcalm : calm s e = true) : Settled cfg version (step cfg s e) := by
  obtain ⟨w, proc⟩ := s
  have hkept := h.kept
  cases proc with
  | none =>
    cases e with
    | done | fails | exits | killed => exact h
    | starts seed =>
      obtain ⟨g, hg, hboot⟩ := hkept.boot seed
      simp only [Deploy.step]
      rw [hboot]
      exact hkept.settled_go hg
    | ticks stamp =>
      exact ⟨hkept.frame rfl hkept.promoting rfl rfl hkept.resolves, fun p hp => by cases hp⟩
    | stages | recovers | release | database => cases hcalm
  | some p =>
    cases e with
    | done => exact (h.underway rfl).done.settled (by omega)
    | fails k => exact ((h.underway rfl).fails hcalm).settled (Nat.le_refl 8)
    | exits =>
      have hp := h.proc p rfl
      obtain ⟨phase, g⟩ := p
      simp only [Deploy.step]
      cases phase with
      | lastGood | result | approve | clear => exact hkept.settled_go hp.ordinary
      | serving =>
        rw [hkept.exits g]
        exact hkept.settled_go hp.ordinary
      | dropPending | consume | removePending | promote | snapshot | migrate | gate | stabilize
      | stop | forceMarker | forceKill | rollbackMarker | rollbackPromote | discard
      | terminalMarker | terminalResult => exact h
    | killed k => exact ⟨hkept.writes (h.proc p rfl) k, fun p hp => by cases hp⟩
    | starts seed => exact h
    | ticks stamp =>
      have hp := h.proc p rfl
      refine ⟨hkept.frame rfl hkept.promoting rfl rfl hkept.resolves, fun p' hp' => ?_⟩
      obtain rfl := Option.some.inj hp'
      exact ⟨hp.ordinary, hp.left, hp.script⟩
    | stages | recovers | release | database => cases hcalm

theorem Settled.reaches {cfg : Config} {version : Text} {s s' : State} (h : Settled cfg version s)
    (hs' : CalmlyReaches cfg s s') : Settled cfg version s' := by
  obtain ⟨events, hmeets, rfl⟩ := hs'
  exact run_keeps_of_meets (I := Settled cfg version) (fun _ _ hs hcalm => hs.step hcalm) h hmeets

/-- An approved version that is not refused is launched and approved again. -/
theorem Settled.relaunches {cfg : Config} {version : Text} {s : State} (h : Settled cfg version s) :
    Relaunches cfg s version where
  exits := by
    intro s' g hs' hproc
    have hset := h.reaches hs'
    refine ⟨?_, (hset.proc _ hproc).ordinary.version⟩
    simp only [Deploy.step, hproc]
    rw [hset.kept.exits g]
    rfl
  starts := by
    intro s' seed hs' hproc
    have hset := h.reaches hs'
    obtain ⟨g, hg, hboot⟩ := hset.kept.boot seed
    refine ⟨g, ?_, hg.version⟩
    simp only [Deploy.step, hproc]
    rw [hboot]
    rfl
  approves := by
    intro s' g attempt hs' hproc hmeets hacts hcount
    have hset := h.reaches hs'
    have hstart : Underway cfg version s'.world.log False 8 s' := by
      refine ⟨hset.kept, ⟨_, hproc, hset.proc _ hproc⟩, [], rfl, fun p m hp hm hlate => ?_⟩
      obtain rfl := Option.some.inj (hproc.symm.trans hp)
      obtain rfl := Option.some.inj hm
      omega
    obtain ⟨-, ⟨p, hp, hlaunches⟩, newer, hlog, happroved⟩ := hstart.attempt hmeets hacts
    obtain ⟨m, hm, hle⟩ := hlaunches.left
    obtain rfl : m = 0 := by omega
    obtain ⟨phase, g'⟩ := p
    have hphase : phase = .serving := by
      cases phase <;> first | rfl | cases hm
    obtain rfl := hphase
    exact ⟨g', newer, hp, hlaunches.ordinary.version, hlog,
      (happroved _ 0 hp rfl (Nat.zero_le 1)).resolve_left id⟩

/-! ## The files of an approved version -/

/-- The phases behind `atomic_promote`. -/
def Phase.isPlaced : Phase → Bool
  | .snapshot | .migrate | .gate | .stabilize | .stop | .forceMarker | .forceKill | .lastGood
  | .result | .approve | .clear => true
  | _ => false

/-- The phases behind `write_last_good`. -/
def Phase.isConfirmed : Phase → Bool
  | .result | .approve | .clear | .serving => true
  | _ => false

/-- What the files say about the version in memory.  An ordinary launch goes on when
`atomic_promote` fails, so only a promotion is sure of desired-version. -/
structure Proc.Recorded (w : World) (p : Proc) : Prop where
  desired : p.gen.promotion = true → p.phase.isPlaced = true → w.desired = p.gen.version
  lastGood : p.phase.isConfirmed = true → w.lastGood = p.gen.version

/-- The state after a decision. -/
def State.Recorded (s : State) : Prop := ∀ p, s.proc = some p → p.Recorded s.world

theorem recorded_down (w : World) : (down w).Recorded := fun p hp => by cases hp

theorem recorded_go {phase : Phase} {g : Generation} {w : World}
    (h : Proc.Recorded w ⟨phase, g⟩) : (go phase g w).Recorded := by
  intro p hp
  obtain rfl := Option.some.inj hp
  exact h

/-- A phase before both records. -/
theorem recorded_early {phase : Phase} (hplaced : phase.isPlaced = false)
    (hconfirmed : phase.isConfirmed = false) (g : Generation) (w : World) :
    (go phase g w).Recorded := by
  refine recorded_go ⟨fun _ hp => ?_, fun hc => ?_⟩
  · rw [show phase.isPlaced = true from hp] at hplaced
    cases hplaced
  · rw [show phase.isConfirmed = true from hc] at hconfirmed
    cases hconfirmed

theorem handleFailedPromotion_recorded (g : Generation) (w : World) (reason : Text)
    (o : Option Bool) : (handleFailedPromotion g w reason o).Recorded := by
  dsimp only [handleFailedPromotion]
  split
  · split
    · exact recorded_early rfl rfl _ _
    · split
      · exact recorded_early rfl rfl _ _
      · exact recorded_early rfl rfl _ _
  · exact recorded_early rfl rfl _ _

theorem enterMigrate_recorded {cfg : Config} {g : Generation} {w : World}
    (h : g.promotion = true → w.desired = g.version) : (enterMigrate cfg g w).Recorded := by
  unfold enterMigrate
  split
  · exact recorded_go ⟨fun hp _ => h hp, fun hc => by cases hc⟩
  · exact recorded_go ⟨fun hp _ => h hp, fun hc => by cases hc⟩

theorem afterPromote_recorded {cfg : Config} {g : Generation} {w : World}
    (h : g.promotion = true → w.desired = g.version) : (afterPromote cfg g w).Recorded := by
  unfold afterPromote
  split
  · split
    · exact handleFailedPromotion_recorded _ _ _ _
    · exact recorded_down w
  · split
    · exact recorded_go ⟨fun hp _ => h hp, fun hc => by cases hc⟩
    · exact enterMigrate_recorded h

theorem resume_recorded (g : Generation) (w : World) (failure reason : Text) :
    (resume g w failure reason).Recorded := by
  unfold resume
  split
  · exact recorded_early rfl rfl _ _
  · split
    · exact recorded_early rfl rfl _ _
    · exact recorded_early rfl rfl _ _

theorem consumePending_recorded (g : Generation) (w : World) (text : Text) :
    (consumePending g w text).Recorded := by
  unfold consumePending
  split
  · exact recorded_down w
  · exact recorded_early rfl rfl _ _

theorem Proc.Recorded.finish {cfg : Config} {w w' : World} {p : Proc}
    (hw' : w' = w.applyAll (p.phase.writes cfg p.gen w)) (h : p.Recorded w') :
    (finish cfg p w').Recorded := by
  obtain ⟨hdesired, hlastGood⟩ := h
  obtain ⟨phase, g⟩ := p
  cases phase with
  | dropPending failure reason => exact resume_recorded g w' failure reason
  | promote =>
    refine afterPromote_recorded fun _ => ?_
    rw [hw']
    rfl
  | snapshot =>
    simp only [Deploy.finish]
    split
    · exact handleFailedPromotion_recorded _ _ _ _
    · exact enterMigrate_recorded fun hp => hdesired hp rfl
  | migrate => exact recorded_go ⟨fun hp _ => hdesired hp rfl, fun hc => by cases hc⟩
  | gate =>
    simp only [Deploy.finish]
    split
    · exact recorded_go ⟨fun hp _ => hdesired hp rfl, fun hc => by cases hc⟩
    · exact recorded_go ⟨fun hp _ => hdesired hp rfl, fun hc => by cases hc⟩
  | stabilize => exact recorded_go ⟨fun hp _ => hdesired hp rfl, fun hc => by cases hc⟩
  | stop | forceKill => exact handleFailedPromotion_recorded _ _ _ _
  | forceMarker => exact recorded_go ⟨fun hp _ => hdesired hp rfl, fun hc => by cases hc⟩
  | terminalMarker attempted reason mig =>
    simp only [Deploy.finish]
    split
    · exact recorded_early rfl rfl _ _
    · exact recorded_down w'
  | terminalResult => exact recorded_down w'
  | lastGood =>
    refine recorded_go ⟨fun hp _ => hdesired hp rfl, fun _ => ?_⟩
    rw [hw']
    simp only [Phase.writes]
    split
    · rfl
    · rfl
  | result | approve =>
    exact recorded_go ⟨fun hp _ => hdesired hp rfl, fun _ => hlastGood rfl⟩
  | clear => exact recorded_go ⟨fun hp _ => by (cases hp), fun _ => hlastGood rfl⟩
  | serving => exact recorded_go ⟨hdesired, hlastGood⟩
  | consume | removePending | rollbackMarker | rollbackPromote | discard =>
    exact recorded_early rfl rfl _ _

theorem Proc.Recorded.fallBack {w : World} {p : Proc} (h : p.Recorded w) (cfg : Config) :
    (fallBack cfg p w).Recorded := by
  obtain ⟨hdesired, hlastGood⟩ := h
  obtain ⟨phase, g⟩ := p
  cases phase with
  | dropPending | removePending | forceMarker | forceKill => exact recorded_down w
  | promote =>
    simp only [Deploy.fallBack]
    split
    · exact handleFailedPromotion_recorded _ _ _ _
    case isFalse hidle => exact afterPromote_recorded fun hp => absurd hp hidle
  | snapshot | migrate => exact handleFailedPromotion_recorded _ _ _ _
  | gate | stabilize => exact recorded_go ⟨fun hp _ => hdesired hp rfl, fun hc => by cases hc⟩
  | stop =>
    simp only [Deploy.fallBack]
    split
    · exact recorded_go ⟨fun hp _ => hdesired hp rfl, fun hc => by cases hc⟩
    · exact recorded_go ⟨fun hp _ => hdesired hp rfl, fun hc => by cases hc⟩
  | rollbackMarker | rollbackPromote | discard => exact recorded_early rfl rfl _ _
  | consume | terminalMarker | terminalResult | lastGood | result | approve | clear | serving =>
    exact recorded_go ⟨hdesired, hlastGood⟩

theorem Proc.Recorded.appExit {w : World} {p : Proc} (h : p.Recorded w) :
    (appExit p w).Recorded := by
  obtain ⟨phase, g⟩ := p
  cases phase with
  | lastGood | result | approve | clear => exact recorded_early rfl rfl _ _
  | serving =>
    simp only [Deploy.appExit]
    split
    · exact consumePending_recorded _ _ _
    · exact recorded_early rfl rfl _ _
  | dropPending | consume | removePending | promote | snapshot | migrate | gate | stabilize | stop
  | forceMarker | forceKill | rollbackMarker | rollbackPromote | discard | terminalMarker
  | terminalResult => exact recorded_go h

theorem boot_recorded (cfg : Config) (w : World) (seed : Option Release) :
    (boot cfg w seed).Recorded := by
  unfold boot
  split
  · split
    · exact recorded_down w
    · split
      · exact resume_recorded _ _ _ _
      · split
        · exact recorded_down w
        · split
          · exact recorded_early rfl rfl _ _
          · exact recorded_down w
  · split
    · exact consumePending_recorded _ _ _
    · obtain ⟨version, w', hstart, -, -⟩ := plainStart_eq cfg w seed
      rw [hstart]
      exact recorded_early rfl rfl _ _

/-- The files follow the version in memory in every step. -/
theorem recorded_rule (cfg : Config) :
    StepRule cfg (fun _ _ => True) fun w proc => ∀ p, proc = some p → p.Recorded w where
  write := by
    intro w₀ w p wr e _ _ hdoes _ h p' hp'
    have hp := h p' hp'
    obtain rfl := Option.some.inj hp'
    cases hdoes with
    | desired | desiredBack => exact ⟨fun _ hc => by (cases hc), fun hc => by cases hc⟩
    | lastGood => exact ⟨hp.desired, fun hc => by cases hc⟩
    | consume | forced | landing | terminal | clear | dropPending | removePending | link
    | linkBack | discard | backup | pruneBackups | previous | publish | failure | outcome
    | approve => exact ⟨hp.desired, hp.lastGood⟩
  down := fun _ p hp => by cases hp
  finish := fun _ _ hw' h => (h _ rfl).finish hw'
  fallBack := fun _ _ _ _ h => (h _ rfl).fallBack cfg
  appExit := fun h => (h _ rfl).appExit
  boot := fun _ _ => boot_recorded cfg _ _
  stage := fun h _ _ _ p hp => ⟨(h p hp).desired, (h p hp).lastGood⟩
  recover := fun _ _ p hp => by cases hp
  release := fun _ _ h p hp => ⟨(h p hp).desired, (h p hp).lastGood⟩
  database := fun _ h p hp => ⟨(h p hp).desired, (h p hp).lastGood⟩
  ticks := fun _ h p hp => ⟨(h p hp).desired, (h p hp).lastGood⟩

theorem recorded_run (cfg : Config) (w : World) (events : List Event) :
    (run (step cfg) ⟨w, none⟩ events).Recorded :=
  run_keeps (I := State.Recorded)
    (fun s e hs => (recorded_rule cfg).step (s := s) e hs trivial) (recorded_down w) events

/-- A version that arrived by an operation is the one that a start finds. -/
theorem resolves_of_operation (cfg : Config) {w : World} {events : List Event} {s : State}
    (hrun : run (step cfg) ⟨w, none⟩ events = s) {g : Generation}
    (hproc : s.proc = some ⟨.clear, g⟩) (hprom : g.promotion = true) (hversion : g.version ≠ [])
    (hrelease : (s.world.releases g.version).isSome = true) :
    resolveStartVersion (step cfg s .done).world = some g.version := by
  have hrecorded := recorded_run cfg w events
  rw [hrun] at hrecorded
  have hdesired : s.world.desired = g.version := (hrecorded _ hproc).desired hprom rfl
  have hworld : (step cfg s .done).world = s.world.apply .clearPromoting := by
    simp only [step, hproc]
    rfl
  have hplace : s.world.isPlace s.world.desired = true := by
    rw [World.isPlace, hdesired, hrelease]
    simp [hversion]
  have hfound : resolveStartVersion s.world = some s.world.desired := by
    rw [resolveStartVersion_eq, if_pos hplace]
  rw [hworld, ← hdesired]
  exact hfound

/-! ## The retry branch -/

/-- The loop is at its top with a version that is refused. -/
structure Stuck (cfg : Config) (version : Text) (s : State) : Prop where
  complete : missingEntry cfg (s.world.releases version) = none
  refused : refused cfg s.world version = true
  proc : ∃ g, s.proc = some ⟨.promote, g⟩ ∧ g.Ordinary version

/-- One round of the retry branch: the script is started and ends with an error. -/
theorem Stuck.round {cfg : Config} {version : Text} {s : State} (h : Stuck cfg version s) :
    Meets (step cfg) (fun s e => calm s e = true) s [.done, .fails 0] ∧
      Stuck cfg version (run (step cfg) s [.done, .fails 0]) := by
  obtain ⟨w, proc⟩ := s
  obtain ⟨hcomplete, hrefused, g, rfl, hg⟩ := h
  have hparts : cfg.runMigrate = true ∧ (w.releases version).any (·.hasMigrate) = true ∧
      w.db.unfinished ≠ [] := by
    simpa [Deploy.refused, and_assoc] using hrefused
  have hneeds : g.needsSnapshot = false := by simp [Generation.needsSnapshot, hg.promotion]
  have hfirst : step cfg ⟨w, some ⟨.promote, g⟩⟩ .done = go .migrate g
      ((w.applyAll [.link g.version, .desired g.version]).note (.migrating g.version g.op)) := by
    show afterPromote cfg g (w.applyAll [.link g.version, .desired g.version]) = _
    unfold afterPromote
    rw [show missingEntry cfg ((w.applyAll [.link g.version, .desired g.version]).releases
      g.version) = none by rw [hg.version]; exact hcomplete]
    simp only [hneeds]
    have hstarts : g.kind ≠ some .rollback ∧ cfg.runMigrate = true ∧
        ((w.applyAll [.link g.version, .desired g.version]).releases g.version).any
          (·.hasMigrate) = true := by
      rw [hg.version, hg.kind]
      exact ⟨fun hkind => by (cases hkind), hparts.1, hparts.2.1⟩
    exact if_pos hstarts
  have hreset : g.reset.Ordinary version := ⟨hg.version, rfl, rfl, rfl⟩
  have hsecond : ∀ w' : World, step cfg (go .migrate g w') (.fails 0) =
      go .promote g.reset (w'.note (.failed g.version g.op)) := fun w' =>
    if_neg (by simp [hg.promotion])
  refine ⟨⟨rfl, ?_, trivial⟩, ?_⟩
  · rw [hfirst]
    exact decide_eq_true hparts.2.2
  · rw [run_cons, run_cons, run_nil, hfirst, hsecond]
    exact ⟨hcomplete, hrefused, g.reset, rfl, hreset⟩

/-- Some rounds of the retry branch. -/
def retries : Nat → List Event
  | 0 => []
  | n + 1 => .done :: .fails 0 :: retries n

theorem retries_spec (n : Nat) :
    (∀ e ∈ retries n, e.acts = true) ∧ (retries n).countP (·.succeeds) = n := by
  induction n with
  | zero => exact ⟨fun e he => by (cases he), rfl⟩
  | succ n ih =>
    refine ⟨fun e he => ?_, ?_⟩
    · rcases List.mem_cons.mp he with rfl | he
      · rfl
      · rcases List.mem_cons.mp he with rfl | he
        · rfl
        · exact ih.1 e he
    · show (Event.done :: .fails 0 :: retries n).countP (·.succeeds) = n + 1
      rw [List.countP_cons_of_pos rfl, List.countP_cons_of_neg Bool.false_ne_true, ih.2]

theorem Stuck.retries {cfg : Config} {version : Text} {s : State} (h : Stuck cfg version s)
    (n : Nat) : Meets (step cfg) (fun s e => calm s e = true) s (retries n) ∧
      Stuck cfg version (run (step cfg) s (Deploy.retries n)) := by
  induction n generalizing s with
  | zero => exact ⟨trivial, h⟩
  | succ n ih =>
    obtain ⟨⟨hfirst, hsecond, -⟩, hnext⟩ := h.round
    obtain ⟨hmeets, hstuck⟩ := ih hnext
    exact ⟨⟨hfirst, hsecond, hmeets⟩, hstuck⟩

/-- A version that is refused is not approved again. -/
theorem not_relaunches_of_refused {cfg : Config} {s : State} {g : Generation}
    (hproc : s.proc = some ⟨.serving, g⟩) (hg : g.Ordinary g.version)
    (hpending : s.world.pending = none) (hhealthy : s.world.Healthy cfg g.version)
    (hrefused : refused cfg s.world g.version = true) : ¬ Relaunches cfg s g.version := by
  intro h
  have hexit : step cfg s .exits = go .promote g s.world := by
    simp only [step, hproc, appExit, hpending]
  have hreach : CalmlyReaches cfg s (go .promote g s.world) :=
    ⟨[.exits], ⟨rfl, trivial⟩, hexit⟩
  have hstuck : Stuck cfg g.version (go .promote g s.world) :=
    ⟨hhealthy.complete, hrefused, g, rfl, hg⟩
  obtain ⟨hacts, hcount⟩ := retries_spec 8
  obtain ⟨hmeets, hend⟩ := hstuck.retries 8
  obtain ⟨g', newer, hserving, -⟩ :=
    h.approves _ g (retries 8) hreach rfl hmeets hacts (by omega)
  obtain ⟨g'', htop, -⟩ := hend.proc
  rw [hserving] at htop
  cases htop

/-- **An approved release can always be relaunched**, up to one condition.  In every state of
every run in which a healthy version serves and no journal is left, calm events lead to its
approval again after every exit and every start if and only if its ordinary launch is not
refused by the migration history and it is the version that a start finds. -/
theorem relaunches_iff (cfg : Config) {w : World} (hw : w.Tidy) {events : List Event} {s : State}
    (hrun : run (step cfg) ⟨w, none⟩ events = s) {g : Generation}
    (hproc : s.proc = some ⟨.serving, g⟩) (hversion : g.version ≠ [])
    (hpending : s.world.pending = none) (hhealthy : s.world.Healthy cfg g.version) :
    Relaunches cfg s g.version ↔ refused cfg s.world g.version = false ∧
      resolveStartVersion s.world = some g.version := by
  have hfenced : s.Fenced := by
    have htidy : State.Fenced ⟨w, none⟩ := hw
    rw [← hrun]
    exact fenced_run htidy events
  have hrecorded : s.Recorded := hrun ▸ recorded_run cfg w events
  rw [State.Fenced, hproc] at hfenced
  have hidle := hfenced.1.idle hfenced.2.1
  have hg : g.Ordinary g.version := ⟨rfl, hidle.op, hidle.kind, hfenced.2.1⟩
  constructor
  · intro h
    refine ⟨?_, ?_⟩
    · by_contra hrefused
      exact not_relaunches_of_refused hproc hg hpending hhealthy (by simpa using hrefused) h
    · -- The container is killed and started again.
      have hkill : step cfg s (.killed 0) = down s.world := by
        simp only [step, hproc]
        rfl
      obtain ⟨g', hstart, hsame⟩ := h.starts (down s.world) none
        ⟨[.killed 0], ⟨rfl, trivial⟩, hkill⟩ rfl
      have hplace : s.world.isPlace s.world.lastGood = true := by
        have hlast : s.world.lastGood = g.version := (hrecorded _ hproc).lastGood rfl
        have hsome : (s.world.releases g.version).isSome = true := by
          have hready := hhealthy.ready
          rw [ready] at hready
          exact Option.isSome_of_any hready
        rw [World.isPlace, hlast, hsome]
        simp [hversion]
      simp only [step, down, boot, show s.world.promoting = none from hidle.fence, hpending,
        plainStart] at hstart
      cases hfound : resolveStartVersion s.world with
      | some version =>
        simp only [hfound, go, Option.some.injEq, Proc.mk.injEq, true_and] at hstart
        rw [← hsame, ← hstart]
      | none =>
        have hnone := List.find?_eq_none.mp hfound s.world.lastGood (by simp [startCandidates])
        exact absurd hplace hnone
  · rintro ⟨haccepted, hresolves⟩
    refine Settled.relaunches ⟨⟨hpending, hidle.fence, hhealthy, haccepted, hresolves⟩, ?_⟩
    intro p hp
    obtain rfl := Option.some.inj (hproc.symm.trans hp)
    exact ⟨hg, ⟨0, rfl, Nat.zero_le 8⟩, fun hphase => by cases hphase⟩

/-- The variables of a version that serves. -/
def servingGeneration (version : Text) : Generation where
  version := version
  op := []
  kind := none
  promotion := false
  mig := false
  rollbackFrom := []
  rollbackReason := []

/-- The update passes and serves. -/
def updated : List Event :=
  [.starts none, .done, .done, .done, .database ⟨["init".toList, "add".toList], []⟩, .done, .done,
   .done, .done, .done, .done, .done]

/-- The state in which the update serves. -/
def updatedState : State :=
  run (step sampleConfig) ⟨sampleWorld (sampleUpdate "op".toList false), none⟩ updated

/-- The equivalence at a version that arrived by an update. -/
theorem relaunches_iff_updated : Relaunches sampleConfig updatedState "2.0.0".toList := by
  have htidy : (sampleWorld (sampleUpdate "op".toList false)).Tidy := sampleWorld_tidy (by decide)
  have hproc : updatedState.proc = some ⟨.serving, servingGeneration "2.0.0".toList⟩ := by
    decide +kernel
  have hhealthy : updatedState.world.Healthy sampleConfig "2.0.0".toList :=
    ⟨by decide +kernel, by decide +kernel⟩
  have hpending : updatedState.world.pending = none := by decide +kernel
  have hcondition : refused sampleConfig updatedState.world "2.0.0".toList = false ∧
      resolveStartVersion updatedState.world = some "2.0.0".toList := by decide +kernel
  have hrun : run (step sampleConfig) ⟨sampleWorld (sampleUpdate "op".toList false), none⟩ updated =
      updatedState := rfl
  exact (relaunches_iff sampleConfig htidy hrun hproc (by decide) hpending hhealthy).mpr hcondition

/-- The migration of the update fails and leaves an unfinished entry, and the first version is
restored without a migration. -/
def restoredAfterMigration : List Event :=
  [.starts none, .done, .done, .done, .done, .database ⟨["init".toList], ["add".toList]⟩, .fails 0,
   .done, .done, .done, .done, .done, .done, .done, .done, .done, .done]

/-- The state in which the first version serves again. -/
def restoredState : State :=
  run (step sampleConfig) ⟨sampleWorld (sampleUpdate "op".toList true), none⟩
    restoredAfterMigration

/-- An approved release cannot always be relaunched: every ordinary launch after the rollback
runs the script, and Prisma refuses it. -/
theorem restored_release_is_stuck : ¬ ∀ (cfg : Config) (w : World) (events : List Event)
    (s : State) (g : Generation), w.Tidy → run (step cfg) ⟨w, none⟩ events = s →
      s.proc = some ⟨.serving, g⟩ → g.version ≠ [] → s.world.pending = none →
      s.world.Healthy cfg g.version → Relaunches cfg s g.version := by
  intro h
  have htidy : (sampleWorld (sampleUpdate "op".toList true)).Tidy := sampleWorld_tidy (by decide)
  have hproc : restoredState.proc = some ⟨.serving, servingGeneration "1.0.0".toList⟩ := by
    decide +kernel
  have hhealthy : restoredState.world.Healthy sampleConfig "1.0.0".toList :=
    ⟨by decide +kernel, by decide +kernel⟩
  have hpending : restoredState.world.pending = none := by decide +kernel
  have hrefused : refused sampleConfig restoredState.world "1.0.0".toList = true := by
    decide +kernel
  have hrelaunches := h sampleConfig _ restoredAfterMigration restoredState _ htidy rfl hproc
    (by decide) hpending hhealthy
  exact not_relaunches_of_refused hproc ⟨rfl, rfl, rfl, rfl⟩ hpending hhealthy hrefused hrelaunches

end ChordV.Deploy
