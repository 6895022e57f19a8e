import ChordV.Deploy.Fence

/-!
# Truthful outcomes

Every operation asks for one version.  The results that the supervisor writes for it have to
tell what became of that version: `success` only for it and after it passed, `rolledback` only
for another version and after it failed, `failed` only for it, and nothing after `failed`.

* `requested` is the version that an operation asks for, `Justified` what a result has to be,
  and `Truthful` says that every result of a log is justified by what came before it.
* `Attributed` is the invariant on a version and its rollback origin.  It also says what the
  last-good files can hold while a rollback is under way.
* `outcomes_truthful` is the result about all runs.  Two branches of the source have to be
  left out (`misattributes`): the requested version passes after its own rollback marker could
  not be written, and a landing that was reached over a second rollback is given up.
-/

namespace ChordV.Deploy

open ChordV.Lib ChordV.Lib.Machine

/-! ## What a result has to be -/

/-- The version that an operation asks for. -/
def requested (log : List Entry) (op : Text) : Option Text := (request log op).map (·.version)

/-- A `failed` result has been written for the operation. -/
def Closed (log : List Entry) (op : Text) : Prop :=
  ∃ r ∈ results log, r.op = op ∧ r.status = .failed

/-- What a status says about the version of the result and the requested version. -/
def Status.Holds (log : List Entry) (op version requested : Text) : Status → Prop
  | .success => version = requested ∧ .passed requested op ∈ log
  | .rolledback => version ≠ requested ∧ .failed requested op ∈ log
  | .failed => version = requested

/-- A result that is true when it is written. -/
def Justified (log : List Entry) (r : Result) : Prop :=
  (∃ version, requested log r.op = some version ∧ r.status.Holds log r.op r.version version) ∧
    (r.status ≠ .failed → ¬ Closed log r.op)

/-- Every result was true when it was written. -/
def Truthful (log : List Entry) : Prop := EveryResult Justified log

theorem requested_mem {log : List Entry} {op version : Text}
    (h : requested log op = some version) :
    ∃ k ∈ stagedJournals log, k.operationId = op ∧ k.version = version := by
  simp only [requested, Option.map_eq_some_iff] at h
  obtain ⟨k, hk, hversion⟩ := h
  obtain ⟨hmem, hop⟩ := request_mem hk
  exact ⟨k, hmem, hop, hversion⟩

theorem requested_cons_staged (j : Journal) (log : List Entry) (op : Text) :
    requested (.staged j :: log) op =
      if j.operationId = op then some j.version else requested log op := by
  rw [requested, request_cons_staged]
  split
  · rfl
  · rfl

/-- A result is about an operation that has been staged. -/
theorem Truthful.staged {log : List Entry} (h : Truthful log) {r : Result}
    (hr : r ∈ results log) : ∃ k ∈ stagedJournals log, k.operationId = r.op := by
  obtain ⟨newer, older, hlog⟩ := List.append_of_mem (result_mem_of_mem_results hr)
  obtain ⟨⟨version, hversion, -⟩, -⟩ := h newer r older hlog
  obtain ⟨k, hk, hop, -⟩ := requested_mem hversion
  refine ⟨k, ?_, hop⟩
  rw [hlog, stagedJournals, List.filterMap_append]
  exact List.mem_append_right _ hk

/-! ## The invariant -/

/-- What a version and its rollback origin have to do with the requested version.  On the
first landing last-good is the landing or the requested version itself, so the second rollback
cannot return to it. -/
structure Attributed (w : World) (op target version rollbackFrom : Text) : Prop where
  same : rollbackFrom = [] → version = target
  failed : rollbackFrom ≠ [] → .failed target op ∈ w.log
  first : rollbackFrom = target → version = target ∨ w.lastGood = version ∨ w.lastGood = target
  later : rollbackFrom ≠ [] → rollbackFrom ≠ target →
    version ≠ target ∧ w.lastGood ≠ target ∧ w.previous ≠ target

/-- What a phase carries about the requested version. -/
def Phase.Tells (w : World) (g : Generation) (target : Text) : Phase → Prop
  | .rollbackMarker lg _ => Attributed w g.op target lg g.version ∧ lg ≠ target
  | .rollbackPromote lg _ | .discard lg _ =>
    Attributed w g.op target lg g.version ∧ ∀ j, w.loaded = some j → j.version = lg
  | .terminalMarker attempted _ _ => attempted = target
  | .terminalResult attempted _ _ =>
    attempted = target ∧ ∀ j, w.loaded = some j → j.failureVersion ≠ []
  | .lastGood | .result | .approve | .clear =>
    .passed g.version g.op ∈ w.log ∧ (g.rollbackFrom ≠ [] → g.version ≠ target)
  | _ => True

/-- What the supervisor in memory has to do with the requested version. -/
structure Proc.Truth (w : World) (p : Proc) (target : Text) : Prop where
  requested : requested w.log p.gen.op = some target
  attributed : Attributed w p.gen.op target p.gen.version p.gen.rollbackFrom
  tells : p.phase.Tells w p.gen target
  /-- A marker whose write was reported as failed can be on the disk already. -/
  journal : ∀ j, w.loaded = some j → p.gen.version = j.version ∨ p.gen.version = j.rollbackFrom
  closed : Closed w.log p.gen.op → p.phase.closing = true

/-- What the files and the log have to do with the requested versions. -/
structure World.Truth (w : World) : Prop where
  log : Truthful w.log
  loaded : ∀ j, w.loaded = some j → ∃ target, Deploy.requested w.log j.operationId = some target ∧
    Attributed w j.operationId target j.version j.rollbackFrom ∧
    (Closed w.log j.operationId → j.failureVersion ≠ [])
  staged : ∀ k, w.staged = some k → Deploy.requested w.log k.operationId = some k.version ∧
    ¬ Closed w.log k.operationId

/-- What holds in every state of a run without a misattribution. -/
structure Truth (w : World) (proc : Option Proc) : Prop where
  fenced : Fenced w proc
  world : w.Truth
  proc : ∀ p, proc = some p → p.gen.promotion = true → ∃ target, p.Truth w target

/-! ## Frames -/

/-- A later world with the same files and no further result. -/
structure World.Later (w w' : World) : Prop extends w.SameFiles w' where
  mem : ∀ e ∈ w.log, e ∈ w'.log
  results : results w'.log = results w.log
  truthful : Truthful w.log → Truthful w'.log

theorem World.Later.requested {w w' : World} (h : w.Later w') (op : Text) :
    requested w'.log op = requested w.log op := by
  rw [Deploy.requested, request, h.staged]
  rfl

theorem World.Later.closed {w w' : World} (h : w.Later w') {op : Text} :
    Closed w'.log op ↔ Closed w.log op := by
  rw [Closed, h.results, Closed]

theorem World.Later.loaded {w w' : World} (h : w.Later w') : w'.loaded = w.loaded := by
  rw [World.loaded, h.promoting, World.loaded]

theorem Attributed.frame {w w' : World} {op target version rollbackFrom : Text}
    (h : Attributed w op target version rollbackFrom) (hmem : ∀ e ∈ w.log, e ∈ w'.log)
    (hlast : w'.lastGood = w.lastGood) (hprevious : w'.previous = w.previous) :
    Attributed w' op target version rollbackFrom where
  same := h.same
  failed := fun hr => hmem _ (h.failed hr)
  first := by
    rw [hlast]
    exact h.first
  later := by
    rw [hlast, hprevious]
    exact h.later

theorem World.Later.attributed {w w' : World} (h : w.Later w')
    {op target version rollbackFrom : Text} (ha : Attributed w op target version rollbackFrom) :
    Attributed w' op target version rollbackFrom :=
  ha.frame h.mem h.lastGood h.previous

theorem World.Later.world {w w' : World} (h : w.Later w') (ht : w.Truth) : w'.Truth where
  log := h.truthful ht.log
  loaded := by
    intro j hj
    rw [h.loaded] at hj
    obtain ⟨target, hreq, ha, hclosed⟩ := ht.loaded j hj
    exact ⟨target, (h.requested _).trans hreq, h.attributed ha, fun hc => hclosed (h.closed.mp hc)⟩
  staged := by
    intro k hk
    rw [World.staged, h.pending] at hk
    rw [h.requested, h.closed]
    exact ht.staged k hk

theorem Phase.Tells.frame {w w' : World} {g : Generation} {target : Text} {phase : Phase}
    (h : phase.Tells w g target) (hmem : ∀ e ∈ w.log, e ∈ w'.log)
    (hlast : w'.lastGood = w.lastGood) (hprevious : w'.previous = w.previous)
    (hloaded : ∀ j, w'.loaded = some j → w.loaded = some j) : phase.Tells w' g target := by
  cases phase with
  | rollbackMarker lg mig => exact ⟨h.1.frame hmem hlast hprevious, h.2⟩
  | rollbackPromote lg mig | discard lg mig =>
    exact ⟨h.1.frame hmem hlast hprevious, fun j hj => h.2 j (hloaded j hj)⟩
  | terminalMarker attempted reason mig => exact h
  | terminalResult attempted reason mig => exact ⟨h.1, fun j hj => h.2 j (hloaded j hj)⟩
  | lastGood | result | approve | clear => exact ⟨hmem _ h.1, h.2⟩
  | dropPending | consume | removePending | promote | snapshot | migrate | gate | stabilize | stop
  | forceMarker | forceKill | serving => trivial

theorem World.Later.proc {w w' : World} (h : w.Later w') {p : Proc} {target : Text}
    (ht : p.Truth w target) : p.Truth w' target where
  requested := (h.requested _).trans ht.requested
  attributed := h.attributed ht.attributed
  tells := ht.tells.frame h.mem h.lastGood h.previous fun _ hj => h.loaded ▸ hj
  journal := by
    rw [h.loaded]
    exact ht.journal
  closed := fun hc => ht.closed (h.closed.mp hc)

/-- A change that the invariant does not see. -/
theorem Truth.frame {w w' : World} {proc : Option Proc} (ht : Truth w proc) (h : w.Later w') :
    Truth w' proc where
  fenced := ht.fenced.frame h.toSameFiles
  world := h.world ht.world
  proc := fun p hp hprom => by
    obtain ⟨target, htarget⟩ := ht.proc p hp hprom
    exact ⟨target, h.proc htarget⟩

theorem World.later_failed (w : World) (version op : Text) :
    w.Later (w.note (.failed version op)) :=
  ⟨⟨rfl, rfl, rfl, rfl, rfl, rfl, rfl⟩, fun _ h => List.mem_cons_of_mem _ h, rfl,
    fun h => h.cons rfl⟩

theorem World.later_migrating (w : World) (version op : Text) :
    w.Later (w.note (.migrating version op)) :=
  ⟨⟨rfl, rfl, rfl, rfl, rfl, rfl, rfl⟩, fun _ h => List.mem_cons_of_mem _ h, rfl,
    fun h => h.cons rfl⟩

theorem World.later_passed (w : World) (version op : Text) :
    w.Later (w.note (.passed version op)) :=
  ⟨⟨rfl, rfl, rfl, rfl, rfl, rfl, rfl⟩, fun _ h => List.mem_cons_of_mem _ h, rfl,
    fun h => h.cons rfl⟩

/-- A change that leaves the log and the last-good files, and can only remove a journal. -/
theorem Truth.shrink {w w' : World} {proc : Option Proc} (h : Truth w proc)
    (hfenced : Fenced w' proc) (hlog : w'.log = w.log) (hlast : w'.lastGood = w.lastGood)
    (hprevious : w'.previous = w.previous)
    (hloaded : ∀ j, w'.loaded = some j → w.loaded = some j)
    (hstaged : ∀ k, w'.staged = some k → w.staged = some k) : Truth w' proc := by
  have hmem : ∀ e ∈ w.log, e ∈ w'.log := fun e he => hlog ▸ he
  refine ⟨hfenced, ⟨hlog ▸ h.world.log, fun j hj => ?_, fun k hk => ?_⟩, fun p hp hprom => ?_⟩
  · rw [hlog]
    obtain ⟨target, hreq, ha, hclosed⟩ := h.world.loaded j (hloaded j hj)
    exact ⟨target, hreq, ha.frame hmem hlast hprevious, hclosed⟩
  · rw [hlog]
    exact h.world.staged k (hstaged k hk)
  · obtain ⟨target, ht⟩ := h.proc p hp hprom
    exact ⟨target, hlog ▸ ht.requested, ht.attributed.frame hmem hlast hprevious,
      ht.tells.frame hmem hlast hprevious hloaded, fun j hj => ht.journal j (hloaded j hj),
      hlog ▸ ht.closed⟩

/-! ## The writes -/

/-- A commit of a marker that is attributed as the generation is. -/
theorem Truth.commit {w : World} {p : Proc} {j : Journal} (h : Truth w (some p))
    (hfenced : Fenced (w.apply (.promoting j)) (some p)) (hprom : p.gen.promotion = true)
    (hplain : j.Plain) (hop : j.operationId = p.gen.op)
    (hversion : p.gen.version = j.version ∨ p.gen.version = j.rollbackFrom)
    (hattr : ∀ target, p.Truth w target →
      Attributed w p.gen.op target j.version j.rollbackFrom ∧
      (Closed w.log p.gen.op → j.failureVersion ≠ []) ∧
      p.phase.Tells (w.apply (.promoting j)) p.gen target) :
    Truth (w.apply (.promoting j)) (some p) := by
  obtain ⟨target, ht⟩ := h.proc p rfl hprom
  obtain ⟨ha, hclosed, htells⟩ := hattr target ht
  have hloaded : ∀ k, (w.apply (.promoting j)).loaded = some k → k = j := fun k hk =>
    eq_of_parseJournal_renderPromoting hplain hk
  refine ⟨hfenced, ⟨h.world.log, fun k hk => ?_, h.world.staged⟩, ?_⟩
  · rw [hloaded k hk, hop]
    exact ⟨target, ht.requested, ha.frame (fun _ he => he) rfl rfl, hclosed⟩
  · intro p' hp' _
    obtain rfl := Option.some.inj hp'
    refine ⟨target, ht.requested, ht.attributed.frame (fun _ he => he) rfl rfl, htells,
      fun k hk => ?_, ht.closed⟩
    rw [hloaded k hk]
    exact hversion

theorem Truth.write_promoting {cfg : Config} {w₀ w : World} {p : Proc} {j : Journal}
    (hdoes : Does cfg w₀ p (.promoting j)) (h : Truth w (some p)) :
    Truth (w.apply (.promoting j)) (some p) := by
  obtain ⟨hprom, hplain, hop⟩ := h.fenced.marker hdoes
  have hfenced := h.fenced.promoting hprom hplain hop
  have hfits := h.fenced.2.1
  have hactive := h.fenced.1.active hprom
  cases hdoes with
  | consume g =>
    refine h.commit hfenced hprom hplain rfl (.inl rfl) fun target ht => ⟨?_, fun hc => ?_, trivial⟩
    · have hroll : g.rollbackFrom = [] := hfits.2
      have hattr := ht.attributed
      rw [hroll] at hattr
      exact hattr
    · exact absurd (ht.closed hc) Bool.false_ne_true
  | forced g =>
    refine h.commit hfenced hprom hplain rfl (.inl rfl) fun target ht =>
      ⟨ht.attributed, fun hc => ?_, trivial⟩
    exact absurd (ht.closed hc) Bool.false_ne_true
  | landing g lg mig =>
    refine h.commit hfenced hprom hplain rfl (.inr rfl) fun target ht =>
      ⟨ht.tells.1, fun hc => ?_, ht.tells.1.frame (fun _ he => he) rfl rfl, ht.tells.2⟩
    exact absurd (ht.closed hc) Bool.false_ne_true
  | terminal g attempted reason mig =>
    refine h.commit hfenced hprom hplain rfl (.inl rfl) fun target ht =>
      ⟨ht.attributed, fun _ => ?_, ht.tells⟩
    show attempted ≠ []
    rw [hfits.2.1]
    exact hactive.attempted_ne_nil

theorem Truth.write_result {w : World} {p : Proc} {r : Result} (h : Truth w (some p))
    (hfenced : Fenced (w.apply (.result r)) (some p)) (hprom : p.gen.promotion = true)
    (hop : r.op = p.gen.op) (hjust : Justified w.log r)
    (hclosed : r.status = .failed → p.phase.closing = true ∧ p.gen.Alone w ∧
      ∀ j, w.loaded = some j → j.failureVersion ≠ []) :
    Truth (w.apply (.result r)) (some p) := by
  have hmem : ∀ e ∈ w.log, e ∈ (w.apply (.result r)).log := fun e he => List.mem_cons_of_mem _ he
  -- An operation is closed by this result or it was closed before.
  have hcases : ∀ {op}, Closed (w.apply (.result r)).log op →
      Closed w.log op ∨ op = r.op ∧ r.status = .failed := by
    rintro op ⟨r', hr', hop', hstatus⟩
    rcases List.mem_cons.mp hr' with rfl | hr'
    · exact .inr ⟨hop'.symm, hstatus⟩
    · exact .inl ⟨r', hr', hop', hstatus⟩
  obtain ⟨target, ht⟩ := h.proc p rfl hprom
  refine ⟨hfenced, ⟨h.world.log.cons_result hjust, fun j hj => ?_, fun k hk => ?_⟩, ?_⟩
  · obtain ⟨target', hreq, ha, hc⟩ := h.world.loaded j hj
    refine ⟨target', hreq, ha.frame hmem rfl rfl, fun hclosed' => ?_⟩
    rcases hcases hclosed' with hold | ⟨-, hstatus⟩
    · exact hc hold
    · exact (hclosed hstatus).2.2 j hj
  · obtain ⟨hreq, hopen⟩ := h.world.staged k hk
    refine ⟨hreq, fun hclosed' => ?_⟩
    rcases hcases hclosed' with hold | ⟨hkop, hstatus⟩
    · exact hopen hold
    · exact (hclosed hstatus).2.1 k hk (hkop.trans hop)
  · intro p' hp' _
    obtain rfl := Option.some.inj hp'
    refine ⟨target, ht.requested, ht.attributed.frame hmem rfl rfl,
      ht.tells.frame hmem rfl rfl (fun _ hj => hj), ht.journal, fun hclosed' => ?_⟩
    rcases hcases hclosed' with hold | ⟨-, hstatus⟩
    · exact ht.closed hold
    · exact (hclosed hstatus).1

/-- The result of a generation that passed is justified. -/
theorem Proc.Truth.outcome_justified {w : World} {g : Generation} {target : Text}
    (h : Proc.Truth w ⟨.result, g⟩ target) : Justified w.log g.outcome := by
  have hopen : ¬ Closed w.log g.op := fun hc => absurd (h.closed hc) Bool.false_ne_true
  unfold Generation.outcome
  split
  case isTrue hroll =>
    exact ⟨⟨target, h.requested, h.tells.2 hroll, h.attributed.failed hroll⟩, fun _ => hopen⟩
  case isFalse hroll =>
    have hversion := h.attributed.same (not_not.mp hroll)
    have hpassed := h.tells.1
    rw [hversion] at hpassed
    exact ⟨⟨target, h.requested, hversion, hpassed⟩, fun _ => hopen⟩

theorem Generation.outcome_op (g : Generation) : g.outcome.op = g.op := by
  unfold outcome
  split <;> rfl

theorem Generation.outcome_status_ne (g : Generation) : g.outcome.status ≠ .failed := by
  unfold outcome
  split <;> simp

/-- last-good is the version of the generation. -/
theorem Truth.write_lastGood {w : World} {g : Generation} (h : Truth w (some ⟨.lastGood, g⟩))
    (hfenced : Fenced (w.apply (.lastGood g.version)) (some ⟨.lastGood, g⟩)) :
    Truth (w.apply (.lastGood g.version)) (some ⟨.lastGood, g⟩) := by
  refine ⟨hfenced, ⟨h.world.log, fun j hj => ?_, h.world.staged⟩, fun p hp hprom => ?_⟩
  · obtain ⟨target, hreq, ha, hclosed⟩ := h.world.loaded j hj
    have hjournal : g.version = j.version ∨ g.version = j.rollbackFrom := by
      cases hprom : g.promotion with
      | true =>
        obtain ⟨_, ht⟩ := h.proc _ rfl hprom
        exact ht.journal j hj
      | false =>
        have hnone : w.promoting = none := (h.fenced.1.idle hprom).fence
        rw [World.loaded] at hj
        change w.promoting.bind _ = some j at hj
        rw [hnone] at hj
        cases hj
    refine ⟨target, hreq, ⟨ha.same, ha.failed, fun hfirst => ?_, fun hne hother => ?_⟩, hclosed⟩
    · rcases hjournal with hv | hv
      · exact .inr (.inl hv)
      · exact .inr (.inr (hv.trans hfirst))
    · obtain ⟨hver, -, hprev⟩ := ha.later hne hother
      refine ⟨hver, ?_, hprev⟩
      rcases hjournal with hv | hv
      · exact fun heq => hver (hv.symm.trans heq)
      · exact fun heq => hother (hv.symm.trans heq)
  · obtain rfl := Option.some.inj hp
    obtain ⟨target, ht⟩ := h.proc _ rfl hprom
    have ha := ht.attributed
    refine ⟨target, ht.requested, ⟨ha.same, ha.failed, fun _ => .inr (.inl rfl),
      fun hne hother => ?_⟩, ht.tells, ht.journal, ht.closed⟩
    obtain ⟨hver, -, hprev⟩ := ha.later hne hother
    exact ⟨hver, hver, hprev⟩

/-- The predecessor of last-good is kept. -/
theorem Truth.write_previous {w : World} {g : Generation} (h : Truth w (some ⟨.lastGood, g⟩))
    (hfenced : Fenced (w.apply (.previous w.lastGood)) (some ⟨.lastGood, g⟩)) :
    Truth (w.apply (.previous w.lastGood)) (some ⟨.lastGood, g⟩) := by
  have hattr : ∀ {op target version rollbackFrom : Text},
      Attributed w op target version rollbackFrom →
      Attributed (w.apply (.previous w.lastGood)) op target version rollbackFrom := by
    intro op target version rollbackFrom ha
    refine ⟨ha.same, ha.failed, ha.first, fun hne hother => ?_⟩
    obtain ⟨hver, hlast, -⟩ := ha.later hne hother
    exact ⟨hver, hlast, hlast⟩
  refine ⟨hfenced, ⟨h.world.log, fun j hj => ?_, h.world.staged⟩, fun p hp hprom => ?_⟩
  · obtain ⟨target, hreq, ha, hclosed⟩ := h.world.loaded j hj
    exact ⟨target, hreq, hattr ha, hclosed⟩
  · obtain rfl := Option.some.inj hp
    obtain ⟨target, ht⟩ := h.proc _ rfl hprom
    exact ⟨target, ht.requested, hattr ht.attributed, ht.tells, ht.journal, ht.closed⟩

theorem Truth.write {cfg : Config} {w₀ w : World} {p : Proc} {wr : Write}
    (h₀ : Truth w₀ (some p)) (hdoes : Does cfg w₀ p wr) (hleads : wr.leads = true → w = w₀)
    (h : Truth w (some p)) : Truth (w.apply wr) (some p) := by
  have hfenced := h₀.fenced.write hdoes h.fenced
  cases wr with
  | promoting j => exact h.write_promoting hdoes
  | clearPromoting =>
    refine h.shrink hfenced rfl rfl rfl (fun j hj => ?_) fun k hk => hk
    cases hj
  | removePending =>
    refine h.shrink hfenced rfl rfl rfl (fun j hj => hj) fun k hk => ?_
    cases hk
  | link | desired | publish | discard | pruneBackups =>
    exact h.shrink hfenced rfl rfl rfl (fun _ hj => hj) fun _ hk => hk
  | previous version =>
    obtain rfl := hleads rfl
    cases hdoes
    exact h.write_previous hfenced
  | lastGood version =>
    cases hdoes
    exact h.write_lastGood hfenced
  | backup | approve =>
    exact h.frame
      ⟨⟨rfl, rfl, rfl, rfl, rfl, rfl, rfl⟩, fun _ he => List.mem_cons_of_mem _ he, rfl,
        fun ht => ht.cons rfl⟩
  | result r =>
    cases hdoes with
    | failure g attempted reason mig =>
      obtain ⟨hg, hfits, halone⟩ := h.fenced
      obtain ⟨target, ht⟩ := h.proc _ rfl hfits.1
      exact h.write_result hfenced hfits.1 rfl
        ⟨⟨target, ht.requested, ht.tells.1⟩, fun hne => absurd rfl hne⟩
        fun _ => ⟨rfl, halone rfl, ht.tells.2⟩
    | outcome g hop =>
      have hprom : g.promotion = true := by
        by_contra hidle
        exact hop (h.fenced.1.idle (by simpa using hidle)).op
      obtain ⟨target, ht⟩ := h.proc _ rfl hprom
      exact h.write_result hfenced hprom g.outcome_op ht.outcome_justified
        fun hfailed => absurd hfailed g.outcome_status_ne

/-! ## The decisions -/

/-- The rollback origin is another version than the requested one. -/
def Generation.lostOrigin (log : List Entry) (g : Generation) : Bool :=
  g.rollbackFrom ≠ [] && requested log g.op ≠ some g.rollbackFrom

/-- The phase that records a terminal failure. -/
def Phase.givesUp : Phase → Bool
  | .terminalMarker _ _ _ => true
  | _ => false

/-- The supervisor gives up on a landing whose origin is not the requested version. -/
def State.givesUpLost (s : State) : Bool :=
  s.proc.any fun p => p.phase.givesUp && p.gen.lostOrigin s.world.log

/-- The state after a decision. -/
def State.Truth (s : State) : Prop := Deploy.Truth s.world s.proc

/-- What a generation has to do with the requested version while no failure is recorded. -/
structure Generation.Truth (w : World) (g : Generation) (target : Text) : Prop where
  requested : requested w.log g.op = some target
  attributed : Attributed w g.op target g.version g.rollbackFrom
  journal : ∀ j, w.loaded = some j → g.version = j.version ∨ g.version = j.rollbackFrom
  opened : ¬ Closed w.log g.op

theorem Proc.Truth.gen {w : World} {p : Proc} {target : Text} (h : p.Truth w target)
    (hopen : p.phase.closing = false) : p.gen.Truth w target where
  requested := h.requested
  attributed := h.attributed
  journal := h.journal
  opened := fun hc => by
    rw [h.closed hc] at hopen
    cases hopen

theorem Generation.Truth.frame {w w' : World} (h : w.Later w') {g : Generation} {target : Text}
    (hg : g.Truth w target) : g.Truth w' target where
  requested := (h.requested _).trans hg.requested
  attributed := h.attributed hg.attributed
  journal := by
    rw [h.loaded]
    exact hg.journal
  opened := fun hc => hg.opened (h.closed.mp hc)

theorem truth_go {phase : Phase} {g : Generation} {w : World} (hf : (go phase g w).Fenced)
    (hw : w.Truth)
    (hg : g.promotion = true → ∃ target, g.Truth w target ∧ phase.Tells w g target) :
    (go phase g w).Truth := by
  refine ⟨hf, hw, fun p hp hprom => ?_⟩
  obtain rfl := Option.some.inj hp
  obtain ⟨target, ht, htells⟩ := hg hprom
  exact ⟨target, ht.requested, ht.attributed, htells, ht.journal, fun hc => absurd hc ht.opened⟩

/-- A phase that says nothing about the requested version. -/
theorem truth_go_silent {phase : Phase} {g : Generation} {w : World} (hf : (go phase g w).Fenced)
    (hw : w.Truth) (hg : g.promotion = true → ∃ target, g.Truth w target)
    (hsilent : ∀ target, phase.Tells w g target) : (go phase g w).Truth := by
  refine truth_go hf hw fun hp => ?_
  obtain ⟨target, ht⟩ := hg hp
  exact ⟨target, ht, hsilent target⟩

/-- The version that is given up is the requested one unless the origin is lost. -/
theorem Generation.Truth.attempted {w : World} {g : Generation} {target : Text}
    (h : g.Truth w target) (hlost : g.lostOrigin w.log = false) :
    orElse g.rollbackFrom g.version = target := by
  unfold orElse
  split
  case isTrue hroll => exact h.attributed.same hroll
  case isFalse hroll =>
    have hreq : Deploy.requested w.log g.op = some g.rollbackFrom := by
      by_contra hne
      simp [lostOrigin, hroll, hne] at hlost
    exact Option.some.inj (hreq.symm.trans h.requested)

/-- After the failure of a version that was not asked for, the last-good files do not name the
requested one, so the next rollback cannot return to it. -/
theorem Generation.Truth.files_ne_target {w : World} {g : Generation} {target lg : Text}
    (h : g.Truth w target) (hlg : fallbackVersion g w = some lg) (hother : g.version ≠ target) :
    w.lastGood ≠ target ∧ w.previous ≠ target := by
  obtain ⟨hlg, hroll, -⟩ := fallbackVersion_spec hlg
  have hne : g.rollbackFrom ≠ [] := fun hnil => hother (h.attributed.same hnil)
  by_cases hfirst : g.rollbackFrom = target
  · rcases h.attributed.first hfirst with hv | hlast | hlast
    · exact absurd hv hother
    · rw [if_pos hlast] at hlg
      rw [hlg, hfirst] at hroll
      exact ⟨fun heq => hother (hlast.symm.trans heq), hroll⟩
    · rw [if_neg (fun heq => hother (heq.symm.trans hlast))] at hlg
      exact absurd (hlg.trans (hlast.trans hfirst.symm)) hroll
  · exact (h.attributed.later hne hfirst).2

/-- What the rollback to `lg` has to do with the requested version. -/
theorem Generation.Truth.fallback {w : World} {g : Generation} {target lg : Text}
    (h : g.Truth w target) (hne : g.version ≠ []) (hfailed : .failed g.version g.op ∈ w.log)
    (hlg : fallbackVersion g w = some lg) :
    Attributed w g.op target g.version g.version ∧ Attributed w g.op target lg g.version ∧
      lg ≠ target := by
  obtain ⟨hchoice, -, -, hversion, -⟩ := fallbackVersion_spec hlg
  by_cases htarget : g.version = target
  · have hfailed' : .failed target g.op ∈ w.log := htarget ▸ hfailed
    refine ⟨⟨fun _ => htarget, fun _ => hfailed', fun _ => .inl htarget,
      fun _ hother => absurd htarget hother⟩, ⟨fun hnil => absurd hnil hne, fun _ => hfailed',
      fun _ => ?_, fun _ hother => absurd htarget hother⟩, htarget ▸ hversion⟩
    by_cases hlast : w.lastGood = g.version
    · exact .inr (.inr (hlast.trans htarget))
    · rw [if_neg hlast] at hchoice
      exact .inr (.inl hchoice.symm)
  · have hroll : g.rollbackFrom ≠ [] := fun hnil => htarget (h.attributed.same hnil)
    have hfailed' := h.attributed.failed hroll
    obtain ⟨hlast, hprevious⟩ := h.files_ne_target hlg htarget
    have hlg' : lg ≠ target := by
      rw [hchoice]
      split
      · exact hprevious
      · exact hlast
    exact ⟨⟨fun hnil => absurd hnil hne, fun _ => hfailed', fun heq => absurd heq htarget,
      fun _ _ => ⟨htarget, hlast, hprevious⟩⟩, ⟨fun hnil => absurd hnil hne, fun _ => hfailed',
      fun heq => absurd heq htarget, fun _ _ => ⟨hlg', hlast, hprevious⟩⟩, hlg'⟩

theorem handleFailedPromotion_truth {w : World} {g : Generation} {reason : Text}
    {o : Option Bool} (hfen : g.Fenced w) (hf : (handleFailedPromotion g w reason o).Fenced)
    (hw : w.Truth) (hg : g.promotion = true → ∃ target, g.Truth w target)
    (hgive : (handleFailedPromotion g w reason o).givesUpLost = false) :
    (handleFailedPromotion g w reason o).Truth := by
  have hlater := w.later_failed g.version g.op
  have hw' := hlater.world hw
  unfold handleFailedPromotion at hf hgive ⊢
  by_cases hp : g.promotion = true
  · rw [if_pos hp] at hf hgive ⊢
    obtain ⟨target, ht⟩ := hg hp
    have ht' := ht.frame hlater
    have hactive := hfen.active hp
    by_cases hkind : g.kind = some .restart
    · rw [if_pos hkind] at hf ⊢
      refine truth_go hf hw' fun _ => ⟨target, ht', ?_⟩
      exact ht.attributed.same (hactive.restart hkind)
    · rw [if_neg hkind] at hf hgive ⊢
      cases hlg : fallbackVersion g (w.note (.failed g.version g.op)) with
      | some lg =>
        simp only [hlg] at hf ⊢
        obtain ⟨hself, hland, hne⟩ :=
          ht'.fallback (ne_nil_of_safeVersion hactive.version) List.mem_cons_self hlg
        exact truth_go hf hw' fun _ =>
          ⟨target, ⟨ht'.requested, hself, ht'.journal, ht'.opened⟩, hland, hne⟩
      | none =>
        simp only [hlg] at hf hgive ⊢
        exact truth_go hf hw' fun _ => ⟨target, ht', ht'.attempted hgive⟩
  · rw [if_neg hp] at hf ⊢
    exact truth_go hf hw' fun hreset => by cases hreset

theorem enterMigrate_truth {cfg : Config} {w : World} {g : Generation}
    (hf : (enterMigrate cfg g w).Fenced) (hw : w.Truth)
    (hg : g.promotion = true → ∃ target, g.Truth w target) : (enterMigrate cfg g w).Truth := by
  unfold enterMigrate at hf ⊢
  split at hf
  case isTrue hcond =>
    rw [if_pos hcond]
    have hlater := w.later_migrating g.version g.op
    refine truth_go_silent hf (hlater.world hw) (fun hp => ?_) fun _ => trivial
    obtain ⟨target, ht⟩ := hg hp
    exact ⟨target, ht.frame hlater⟩
  case isFalse hcond =>
    rw [if_neg hcond]
    exact truth_go_silent hf hw hg fun _ => trivial

theorem afterPromote_truth {cfg : Config} {w : World} {g : Generation} (hfen : g.Fenced w)
    (hf : (afterPromote cfg g w).Fenced) (hw : w.Truth)
    (hg : g.promotion = true → ∃ target, g.Truth w target)
    (hgive : (afterPromote cfg g w).givesUpLost = false) : (afterPromote cfg g w).Truth := by
  unfold afterPromote at hf hgive ⊢
  cases hmissing : missingEntry cfg (w.releases g.version) with
  | some entry =>
    simp only [hmissing] at hf hgive ⊢
    by_cases hp : g.promotion = true
    · rw [if_pos hp] at hf hgive ⊢
      exact handleFailedPromotion_truth hfen hf hw hg hgive
    · rw [if_neg hp] at hf ⊢
      exact ⟨hf, hw, fun p hp => by cases hp⟩
  | none =>
    simp only [hmissing] at hf ⊢
    by_cases hneeds : g.needsSnapshot = true
    · rw [if_pos hneeds] at hf ⊢
      exact truth_go_silent hf hw hg fun _ => trivial
    · rw [if_neg hneeds] at hf ⊢
      exact enterMigrate_truth hf hw hg

theorem resume_truth {w : World} {g : Generation} {failure reason : Text}
    (hf : (resume g w failure reason).Fenced) (hw : w.Truth)
    (hfits : (Phase.dropPending failure reason).Fits g)
    (hg : ∃ target, Proc.Truth w ⟨.dropPending failure reason, g⟩ target)
    (hgive : (resume g w failure reason).givesUpLost = false) :
    (resume g w failure reason).Truth := by
  obtain ⟨target, ht⟩ := hg
  unfold resume at hf hgive ⊢
  by_cases hfailure : failure ≠ []
  · rw [if_pos hfailure] at hf hgive ⊢
    refine ⟨hf, hw, fun p hp _ => ?_⟩
    obtain rfl := Option.some.inj hp
    refine ⟨target, ht.requested, ht.attributed, ?_, ht.journal, fun _ => rfl⟩
    show failure = target
    rw [hfits.2.1 hfailure]
    unfold orElse
    split
    case isTrue hroll => exact ht.attributed.same hroll
    case isFalse hroll =>
      have hreq : requested w.log g.op = some g.rollbackFrom := by
        by_contra hne
        have hlost : g.lostOrigin w.log = false := hgive
        simp [Generation.lostOrigin, hroll, hne] at hlost
      exact Option.some.inj (hreq.symm.trans ht.requested)
  · have hopen : (Phase.dropPending failure reason).closing = false := by
      simpa [Phase.closing] using hfailure
    have hgen : g.Truth w target := ht.gen hopen
    rw [if_neg hfailure] at hf hgive ⊢
    by_cases hrelease : (w.releases g.version).isSome = true
    · rw [if_pos hrelease] at hf ⊢
      exact truth_go_silent hf hw (fun _ => ⟨target, hgen⟩) fun _ => trivial
    · rw [if_neg hrelease] at hf hgive ⊢
      exact truth_go hf hw fun _ => ⟨target, hgen, hgen.attempted hgive⟩

theorem consumePending_truth {w : World} {g : Generation} {text : Text}
    (hf : (consumePending g w text).Fenced) (hw : w.Truth) (hpending : w.pending = some text)
    (hroll : g.rollbackFrom = []) (hfence : w.promoting = none) :
    (consumePending g w text).Truth := by
  unfold consumePending at hf ⊢
  cases hparse : parseJournal .pending text with
  | none =>
    simp only [hparse] at hf ⊢
    exact ⟨hf, hw, fun p hp => by cases hp⟩
  | some k =>
    simp only [hparse] at hf ⊢
    have hstaged : w.staged = some k := by
      rw [World.staged, hpending]
      exact hparse
    have hloaded : w.loaded = none := by
      rw [World.loaded, hfence]
      rfl
    have hkop := ne_nil_of_safeVersion (accepted_of_parseJournal hparse).version
    obtain ⟨hreq, hopen⟩ := hw.staged k hstaged
    refine truth_go_silent hf hw (fun _ => ⟨k.version, hreq, ⟨fun _ => rfl, fun hne => ?_,
      fun heq => ?_, fun hne => ?_⟩, fun j hj => ?_, hopen⟩) fun _ => trivial
    · exact absurd hroll hne
    · exact .inl rfl
    · exact absurd hroll hne
    · rw [hloaded] at hj
      cases hj

/-! ## The step and the run -/

/-- The requested version passes although its own rollback marker could not be written. -/
def State.passesUnmarked (s : State) : Bool :=
  s.proc.any fun p => p.phase = .stabilize && p.gen.promotion &&
    p.gen.rollbackFrom = p.gen.version &&
    requested s.world.log p.gen.op = some p.gen.version

/-- The two branches that attribute the outcome to the wrong version. -/
def misattributes (cfg : Config) (s : State) : Event → Bool
  | .done => s.passesUnmarked || (step cfg s .done).givesUpLost
  | e => (step cfg s e).givesUpLost

theorem givesUpLost_of_misattributes {cfg : Config} {s : State} {e : Event}
    (h : misattributes cfg s e = false) : (step cfg s e).givesUpLost = false := by
  cases e with
  | done => exact (Bool.or_eq_false_iff.mp h).2
  | fails | exits | killed | starts | stages | recovers | release | database | ticks => exact h

/-- A generation that passes is the requested version only when it is not a landing. -/
theorem Proc.Truth.passed {w : World} {g : Generation} {target : Text}
    (h : Proc.Truth w ⟨.stabilize, g⟩ target) (hp : g.promotion = true)
    (hpass : State.passesUnmarked ⟨w, some ⟨.stabilize, g⟩⟩ = false) :
    g.rollbackFrom ≠ [] → g.version ≠ target := by
  intro hroll hversion
  subst hversion
  by_cases hfrom : g.rollbackFrom = g.version
  · have hreq := h.requested
    simp [State.passesUnmarked, hp, hfrom] at hpass
    exact hpass hreq
  · exact (h.attributed.later hroll hfrom).1 rfl

/-- The generation of an open phase. -/
theorem Truth.gen {w : World} {p : Proc} (h : Truth w (some p)) (hopen : p.phase.closing = false)
    (hp : p.gen.promotion = true) : ∃ target, p.gen.Truth w target := by
  obtain ⟨target, ht⟩ := h.proc p rfl hp
  exact ⟨target, ht.gen hopen⟩

theorem truth_down {w : World} (hf : (down w).Fenced) (hw : w.Truth) : (down w).Truth :=
  ⟨hf, hw, fun p hp => by cases hp⟩

/-- A phase that carries on what the phase before it knew. -/
theorem Truth.carry {w : World} {phase phase' : Phase} {g : Generation}
    (h : Truth w (some ⟨phase, g⟩)) (hf : (go phase' g w).Fenced) (hopen : phase.closing = false)
    (hcarry : ∀ target, phase.Tells w g target → phase'.Tells w g target) :
    (go phase' g w).Truth := by
  refine truth_go hf h.world fun hp => ?_
  obtain ⟨target, ht⟩ := h.proc _ rfl hp
  exact ⟨target, ht.gen hopen, hcarry target ht.tells⟩

/-- The landing takes over the operation. -/
theorem Truth.land {w : World} {g : Generation} {lg : Text} {mig : Bool}
    (h : Truth w (some ⟨.discard lg mig, g⟩))
    (hf : (go .promote
      { g with version := lg, kind := some .rollback, promotion := true, mig } w).Fenced) :
    (go .promote
      { g with version := lg, kind := some .rollback, promotion := true, mig } w).Truth := by
  have hfits := h.fenced.2.1
  obtain ⟨target, ht⟩ := h.proc _ rfl hfits.1
  have hattr := ht.tells.1
  rw [← show g.rollbackFrom = g.version from hfits.2.2.2] at hattr
  refine truth_go hf h.world fun _ => ⟨target, ⟨ht.requested, hattr, fun j hj => ?_,
    (ht.gen rfl).opened⟩, trivial⟩
  exact .inl (ht.tells.2 j hj).symm

theorem Truth.finish {cfg : Config} {w w' : World} {p : Proc}
    (hw' : w' = w.applyAll (p.phase.writes cfg p.gen w)) (h : Truth w' (some p))
    (hpass : State.passesUnmarked ⟨w, some p⟩ = false)
    (hgive : (finish cfg p w').givesUpLost = false) : (finish cfg p w').Truth := by
  have hf := h.fenced.finish hw'
  have hfen := h.fenced.1
  have hfits := h.fenced.2.1
  obtain ⟨phase, g⟩ := p
  cases phase with
  | dropPending failure reason => exact resume_truth hf h.world hfits (h.proc _ rfl hfits.1) hgive
  | consume => exact h.carry hf rfl fun _ _ => trivial
  | removePending => exact h.carry hf rfl fun _ _ => trivial
  | promote => exact afterPromote_truth hfen hf h.world (h.gen rfl) hgive
  | snapshot =>
    simp only [Deploy.finish] at hf hgive ⊢
    split at hf
    case isTrue hkeep =>
      rw [if_pos hkeep] at hgive ⊢
      exact handleFailedPromotion_truth hfen hf h.world (h.gen rfl) hgive
    case isFalse hkeep =>
      rw [if_neg hkeep]
      exact enterMigrate_truth hf h.world (h.gen rfl)
  | migrate => exact h.carry hf rfl fun _ _ => trivial
  | gate =>
    simp only [Deploy.finish] at hf ⊢
    split at hf
    case isTrue hready =>
      rw [if_pos hready]
      exact h.carry hf rfl fun _ _ => trivial
    case isFalse hready =>
      rw [if_neg hready]
      exact h.carry hf rfl fun _ _ => trivial
  | stabilize =>
    have hlater := w'.later_passed g.version g.op
    refine truth_go hf (hlater.world h.world) fun hp => ?_
    obtain ⟨target, ht⟩ := h.proc _ rfl hp
    have hwrites : w' = w := hw'
    rw [← hwrites] at hpass
    exact ⟨target, (ht.gen rfl).frame hlater, List.mem_cons_self, ht.passed hp hpass⟩
  | stop | forceKill => exact handleFailedPromotion_truth hfen hf h.world (h.gen rfl) hgive
  | forceMarker => exact h.carry hf rfl fun _ _ => trivial
  | rollbackMarker lg mig =>
    -- The marker of the landing is what the next start would read.
    obtain ⟨-, hplain, -⟩ := h.fenced.marker (.landing g lg mig : Does cfg w _ _)
    refine h.carry hf rfl fun target htells => ⟨htells.1, fun j hj => ?_⟩
    rw [hw'] at hj
    rw [eq_of_parseJournal_renderPromoting hplain hj]
  | rollbackPromote lg mig => exact h.carry hf rfl fun _ htells => htells
  | discard lg mig => exact h.land hf
  | terminalMarker attempted reason mig =>
    obtain ⟨-, hplain, -⟩ := h.fenced.marker (.terminal g attempted reason mig : Does cfg w _ _)
    obtain ⟨target, ht⟩ := h.proc _ rfl hfits.1
    have hne : attempted ≠ [] := by
      rw [hfits.2.1]
      exact (hfen.active hfits.1).attempted_ne_nil
    simp only [Deploy.finish] at hf ⊢
    split at hf
    case isTrue hop =>
      rw [if_pos hop]
      refine ⟨hf, h.world, fun p hp _ => ?_⟩
      obtain rfl := Option.some.inj hp
      refine ⟨target, ht.requested, ht.attributed, ⟨ht.tells, fun j hj => ?_⟩, ht.journal,
        fun _ => rfl⟩
      change w'.loaded = some j at hj
      rw [hw'] at hj
      rw [eq_of_parseJournal_renderPromoting hplain hj]
      exact hne
    case isFalse hop =>
      rw [if_neg hop]
      exact truth_down hf h.world
  | terminalResult attempted reason mig => exact truth_down hf h.world
  | lastGood => exact h.carry hf rfl fun _ htells => htells
  | result => exact h.carry hf rfl fun _ htells => htells
  | approve => exact h.carry hf rfl fun _ htells => htells
  | clear => exact truth_go hf h.world fun hreset => by cases hreset
  | serving => exact h

theorem Truth.fallBack {cfg : Config} {w : World} {p : Proc} (h : Truth w (some p))
    (hgive : (fallBack cfg p w).givesUpLost = false) : (fallBack cfg p w).Truth := by
  have hf := h.fenced.fallBack cfg
  have hfen := h.fenced.1
  obtain ⟨phase, g⟩ := p
  cases phase with
  | dropPending failure reason => exact truth_down hf h.world
  | removePending | forceMarker | forceKill => exact truth_down hf h.world
  | promote =>
    simp only [Deploy.fallBack] at hf hgive ⊢
    split at hf
    case isTrue hp =>
      rw [if_pos hp] at hgive ⊢
      exact handleFailedPromotion_truth hfen hf h.world (h.gen rfl) hgive
    case isFalse hp =>
      rw [if_neg hp] at hgive ⊢
      exact afterPromote_truth hfen hf h.world (h.gen rfl) hgive
  | snapshot | migrate => exact handleFailedPromotion_truth hfen hf h.world (h.gen rfl) hgive
  | gate => exact h.carry hf rfl fun _ _ => trivial
  | stabilize => exact h.carry hf rfl fun _ _ => trivial
  | stop =>
    simp only [Deploy.fallBack] at hf ⊢
    split at hf
    case isTrue hp =>
      rw [if_pos hp]
      exact h.carry hf rfl fun _ _ => trivial
    case isFalse hp =>
      rw [if_neg hp]
      exact h.carry hf rfl fun _ _ => trivial
  | rollbackMarker lg mig => exact h.carry hf rfl fun _ _ => trivial
  | rollbackPromote lg mig => exact h.carry hf rfl fun _ htells => htells
  | discard lg mig => exact h.land hf
  | consume | terminalMarker | terminalResult | lastGood | result | approve | clear | serving =>
    exact h

theorem Truth.appExit {w : World} {p : Proc} (h : Truth w (some p)) : (appExit p w).Truth := by
  have hf := h.fenced.appExit
  obtain ⟨phase, g⟩ := p
  cases phase with
  | lastGood => exact h.carry hf rfl fun _ _ => trivial
  | result => exact h.carry hf rfl fun _ _ => trivial
  | approve => exact h.carry hf rfl fun _ _ => trivial
  | clear => exact h.carry hf rfl fun _ _ => trivial
  | serving =>
    have hidle := h.fenced.1.idle h.fenced.2.1
    simp only [Deploy.appExit] at hf ⊢
    cases hpending : w.pending with
    | some text =>
      simp only [hpending] at hf ⊢
      exact consumePending_truth hf h.world hpending hidle.rollbackFrom hidle.fence
    | none =>
      simp only [hpending] at hf ⊢
      exact h.carry hf rfl fun _ _ => trivial
  | dropPending | consume | removePending | promote | snapshot | migrate | gate | stabilize | stop
  | forceMarker | forceKill | rollbackMarker | rollbackPromote | discard | terminalMarker
  | terminalResult => exact h

/-- A journal that is loaded gives a generation with the same attribution. -/
theorem World.Truth.generation {w : World} (h : w.Truth) {j : Journal} (hj : w.loaded = some j) :
    ∃ target, Proc.Truth w ⟨.dropPending j.failureVersion j.failureReason, j.generation⟩
      target := by
  obtain ⟨target, hreq, hattr, hclosed⟩ := h.loaded j hj
  refine ⟨target, hreq, hattr, trivial, fun k hk => ?_, fun hc => ?_⟩
  · rw [hj] at hk
    rw [← Option.some.inj hk]
    exact .inl rfl
  · simpa [Phase.closing] using hclosed hc

theorem boot_truth {cfg : Config} {w : World} {seed : Option Release} (htidy : w.Tidy)
    (hw : w.Truth) (hgive : (boot cfg w seed).givesUpLost = false) :
    (boot cfg w seed).Truth := by
  have hf := htidy.boot cfg seed
  cases hpromoting : w.promoting with
  | none =>
    cases hpending : w.pending with
    | none =>
      simp only [boot, hpromoting, hpending] at hf ⊢
      obtain ⟨version, w', hstart, -, releases, rfl⟩ := plainStart_eq cfg w seed
      rw [hstart] at hf ⊢
      have hlater : w.Later { w with releases } :=
        ⟨⟨rfl, rfl, rfl, rfl, rfl, rfl, rfl⟩, fun _ he => he, rfl, id⟩
      exact truth_go hf (hlater.world hw) fun hp => by cases hp
    | some text =>
      simp only [boot, hpromoting, hpending] at hf ⊢
      exact consumePending_truth hf hw hpending rfl hpromoting
  | some text =>
    simp only [boot, hpromoting] at hf hgive ⊢
    cases hparse : parseJournal .promoting text with
    | none =>
      simp only [hparse] at hf ⊢
      exact truth_down hf hw
    | some j =>
      have hloaded : w.loaded = some j := by
        rw [World.loaded, hpromoting]
        exact hparse
      have hgen := hw.generation hloaded
      have hfits := (htidy.generation hloaded).2
      simp only [hparse] at hf hgive ⊢
      cases hpending : w.pending with
      | none =>
        simp only [hpending] at hf hgive ⊢
        exact resume_truth hf hw hfits hgen hgive
      | some text' =>
        simp only [hpending] at hf ⊢
        cases hparse' : parseJournal .pending text' with
        | none =>
          simp only [hparse'] at hf ⊢
          exact truth_down hf hw
        | some k =>
          simp only [hparse'] at hf ⊢
          split at hf
          case isTrue hsame =>
            rw [if_pos hsame]
            exact ⟨hf, hw, fun p hp _ => by
              obtain rfl := Option.some.inj hp
              exact hgen⟩
          case isFalse hsame =>
            rw [if_neg hsame]
            exact truth_down hf hw

/-- A new operation has no result yet. -/
theorem World.Truth.stage {w : World} (h : w.Truth) {text : Text} {j : Journal}
    (hnew : newOperation w text = some j) :
    (∀ op target, requested w.log op = some target →
      requested (w.stage text j).log op = some target) ∧ ¬ Closed w.log j.operationId := by
  obtain ⟨-, hfresh⟩ := newOperation_spec hnew
  constructor
  · intro op target hreq
    obtain ⟨k, hk, hop, -⟩ := requested_mem hreq
    show requested (.staged j :: w.log) op = some target
    rw [requested_cons_staged, if_neg (fun heq => hfresh k hk (hop.trans heq.symm))]
    exact hreq
  · rintro ⟨r, hr, hop, -⟩
    obtain ⟨k, hk, hkop⟩ := h.log.staged hr
    exact hfresh k hk (hkop.trans hop)

theorem Truth.stage {w w' : World} {proc : Option Proc} (h : Truth w proc) {text : Text}
    {j : Journal} (hnew : newOperation w text = some j) (hfenced : Fenced w' proc)
    (hlog : w'.log = (w.stage text j).log) (hpending : w'.pending = some text)
    (hlast : w'.lastGood = w.lastGood) (hprevious : w'.previous = w.previous)
    (hloaded : ∀ k, w'.loaded = some k → w.loaded = some k) : Truth w' proc := by
  obtain ⟨hreq, hopen⟩ := h.world.stage hnew
  have hmem : ∀ e ∈ w.log, e ∈ w'.log := fun e he => by
    rw [hlog]
    exact List.mem_cons_of_mem _ he
  refine ⟨hfenced, ⟨?_, fun k hk => ?_, fun k hk => ?_⟩, fun p hp hprom => ?_⟩
  · rw [hlog]
    exact h.world.log.cons rfl
  · obtain ⟨target, htarget, ha, hclosed⟩ := h.world.loaded k (hloaded k hk)
    rw [hlog]
    exact ⟨target, hreq _ _ htarget, ha.frame hmem hlast hprevious, hclosed⟩
  · rw [World.staged, hpending] at hk
    obtain rfl : k = j := Option.some.inj (hk.symm.trans (newOperation_spec hnew).1)
    rw [hlog]
    refine ⟨?_, hopen⟩
    show requested (.staged k :: w.log) k.operationId = some k.version
    rw [requested_cons_staged, if_pos rfl]
  · obtain ⟨target, ht⟩ := h.proc p hp hprom
    refine ⟨target, ?_, ht.attributed.frame hmem hlast hprevious,
      ht.tells.frame hmem hlast hprevious hloaded, fun k hk => ht.journal k (hloaded k hk), ?_⟩
    · rw [hlog]
      exact hreq _ _ ht.requested
    · rw [hlog]
      exact ht.closed

/-- The invariant is kept by every step without a misattribution. -/
theorem truth_rule (cfg : Config) :
    StepRule cfg (fun s e => misattributes cfg s e = false) Truth where
  write := fun h₀ _ hdoes hleads h => h₀.write hdoes hleads h
  down := fun h => ⟨h.fenced.tidy, h.world, fun p hp => by cases hp⟩
  finish := by
    rintro w w' p - hC rfl h
    have hpass := (Bool.or_eq_false_iff.mp hC).1
    exact h.finish rfl hpass (givesUpLost_of_misattributes hC)
  fallBack := by
    rintro w w' p n - hC rfl h
    exact h.fallBack (givesUpLost_of_misattributes hC)
  appExit := fun h => h.appExit
  boot := fun h hC => boot_truth h.fenced h.world (givesUpLost_of_misattributes hC)
  stage := fun h hnew _ _ =>
    h.stage hnew (h.fenced.stage hnew) rfl rfl rfl rfl fun _ hk => hk
  recover := fun h hnew =>
    h.stage hnew ((fenced_rule cfg).recover h.fenced hnew) rfl rfl rfl rfl fun k hk => by cases hk
  release := fun version r h =>
    h.shrink ((fenced_rule cfg).release version r h.fenced) rfl rfl rfl (fun _ hj => hj)
      fun _ hk => hk
  database := fun db h =>
    h.shrink ((fenced_rule cfg).database db h.fenced) rfl rfl rfl (fun _ hj => hj) fun _ hk => hk
  ticks := fun stamp h =>
    h.shrink ((fenced_rule cfg).ticks stamp h.fenced) rfl rfl rfl (fun _ hj => hj) fun _ hk => hk

/-- A world that a run starts from.  No result has been written, a pending journal is what was
staged, and a promoting journal is one that the supervisor left for the operation: the
requested version itself, or a landing after its failure. -/
structure Initial (w : World) : Prop where
  tidy : w.Tidy
  results : results w.log = []
  staged : ∀ k, w.staged = some k → requested w.log k.operationId = some k.version
  loaded : ∀ j, w.loaded = some j → ∃ target, requested w.log j.operationId = some target ∧
    Attributed w j.operationId target j.version j.rollbackFrom

theorem Initial.truth {w : World} (h : Initial w) : Truth w none := by
  have hopen : ∀ op, ¬ Closed w.log op := by
    rintro op ⟨r, hr, -⟩
    rw [h.results] at hr
    cases hr
  refine ⟨h.tidy, ⟨everyResult_of_results_eq_nil h.results, fun j hj => ?_, fun k hk => ?_⟩,
    fun p hp => by cases hp⟩
  · obtain ⟨target, hreq, hattr⟩ := h.loaded j hj
    exact ⟨target, hreq, hattr, fun hc => absurd hc (hopen _)⟩
  · exact ⟨h.staged k hk, hopen _⟩

/-- **Truthful outcomes.**  In every run from a valid journal, with kills between any two
writes, failing writes and arbitrary outcomes of every action, in which the requested version
does not pass after its own rollback marker failed and no landing with a lost origin is given
up, every result that was ever written is true: `success` and `failed` name the requested
version, `success` comes after it passed, `rolledback` names another version and comes after
the requested one failed, and nothing follows a `failed`. -/
theorem outcomes_truthful (cfg : Config) {w : World} (hw : Initial w) {events : List Event}
    (h : Meets (step cfg) (fun s e => misattributes cfg s e = false) ⟨w, none⟩ events) :
    Truthful (run (step cfg) ⟨w, none⟩ events).world.log := by
  have hrun := run_keeps_of_meets (I := State.Truth)
    (fun s e hs hC => (truth_rule cfg).step (s := s) e hs hC) (s := ⟨w, none⟩) hw.truth h
  exact hrun.world.log

theorem sampleWorld_initial {j : Journal} (h : j.Accepted .pending) : Initial (sampleWorld j) where
  tidy := sampleWorld_tidy h
  results := rfl
  staged := by
    intro k hk
    have hparse : parseJournal .pending (renderPromoting j) = some j := by
      rw [parseJournal_renderPromoting h.plain, if_pos h]
    obtain rfl : k = j := Option.some.inj (hk.symm.trans hparse)
    show requested [.staged k] k.operationId = some k.version
    rw [requested_cons_staged, if_pos rfl]
  loaded := fun j hj => by cases hj

/-- The update fails its gate and the first version is restored. -/
def restored : List Event :=
  [.starts none, .done, .done, .done, .done, .fails 0, .done, .done, .done, .done, .done, .done,
   .done, .done, .done]

/-- The run theorem at the run of a rollback, which ends with a result. -/
theorem outcomes_truthful_restored :
    (results (run (step sampleConfig) ⟨sampleWorld (sampleUpdate "op".toList false), none⟩
        restored).world.log).map (fun r => (r.status, r.version)) =
      [(.rolledback, "1.0.0".toList)] ∧
    Truthful (run (step sampleConfig) ⟨sampleWorld (sampleUpdate "op".toList false), none⟩
        restored).world.log := by
  have hmeets : Meets (step sampleConfig) (fun s e => misattributes sampleConfig s e = false)
      ⟨sampleWorld (sampleUpdate "op".toList false), none⟩ restored := by decide +kernel
  have hinit : Initial (sampleWorld (sampleUpdate "op".toList false)) :=
    sampleWorld_initial (by decide)
  have htrue := outcomes_truthful sampleConfig hinit hmeets
  exact And.intro (by decide +kernel) htrue

/-- The update fails its gate, its rollback marker cannot be written, and the second attempt
passes. -/
def recovered : List Event :=
  [.database ⟨["init".toList, "add".toList], []⟩, .starts none, .done, .done, .done, .done,
   .fails 0, .done, .fails 0, .done, .done, .done, .done, .done, .done]

/-- What the run above has recorded when the result is written. -/
theorem recovered_log :
    (run (step sampleConfig) ⟨sampleWorld (sampleUpdate "op".toList false), none⟩
      recovered).world.log =
    [.result ⟨"op".toList, .rolledback, "2.0.0".toList,
      gateReason ++ "（原版本 ".toList ++ "2.0.0".toList ++ "）".toList, false⟩,
     .passed "2.0.0".toList "op".toList, .migrating "2.0.0".toList "op".toList,
     .failed "2.0.0".toList "op".toList, .migrating "2.0.0".toList "op".toList,
     .staged (sampleUpdate "op".toList false)] := by
  decide +kernel

/-- The outcome is not always truthful: the requested version passed, and the result says that
it was rolled back to itself. -/
theorem outcomes_not_truthful : ¬ ∀ (cfg : Config) (w : World) (events : List Event), Initial w →
    Truthful (run (step cfg) ⟨w, none⟩ events).world.log := by
  intro h
  have hinit : Initial (sampleWorld (sampleUpdate "op".toList false)) :=
    sampleWorld_initial (by decide)
  have htrue := h sampleConfig _ recovered hinit
  rw [recovered_log] at htrue
  obtain ⟨⟨target, hreq, hne, -⟩, -⟩ := htrue [] _ _ rfl
  have htarget : target = "2.0.0".toList := by
    have hval : requested [.passed "2.0.0".toList "op".toList,
        .migrating "2.0.0".toList "op".toList, .failed "2.0.0".toList "op".toList,
        .migrating "2.0.0".toList "op".toList, .staged (sampleUpdate "op".toList false)]
        "op".toList = some "2.0.0".toList := by decide
    exact Option.some.inj (hreq.symm.trans hval)
  exact hne htarget.symm

end ChordV.Deploy
