import ChordV.Deploy.Fence

/-!
# The markers that the supervisor commits

Every promoting.json is written by the template of `write_promoting` from variables that
different places of the loop have set, and read back by `parse_journal`, which checks
relations between the fields.  The two agree except in one situation: a rollback marker could
not be written, so `GEN_ROLLBACK_FROM` names the version that the loop goes on with, and that
version is then given up or has to be stopped by force.

* `Proc.pinned` is that situation.
* `accepted_iff_not_pinned` is the agreement for one commit.
* `marker_read_back_iff` is the result about all runs: a committed marker is read back as it
  was written exactly when the supervisor is not pinned, and a run that is never pinned leaves
  no marker that blocks the recovery.
-/

namespace ChordV.Deploy

open ChordV.Lib ChordV.Lib.Machine

/-- The phases that commit a marker with a failure in it. -/
def Phase.isRecovery : Phase → Bool
  | .forceMarker | .terminalMarker _ _ _ => true
  | _ => false

/-- The supervisor is about to commit a recovery marker of a version that is its own rollback
origin. -/
def Proc.pinned (p : Proc) : Bool := p.phase.isRecovery && p.gen.rollbackFrom = p.gen.version

/-- The same of a state. -/
def State.pinned (s : State) : Bool := s.proc.any Proc.pinned

/-- promoting.json is missing or can be read. -/
def World.Loads (w : World) : Prop := w.promoting = none ∨ w.loaded.isSome = true

/-- A marker with a failure is accepted unless it pins the version. -/
theorem Generation.Active.recovery_accepted_iff {w : World} {g : Generation} (h : g.Active w)
    (mig : Bool) {reason : Text} (hne : reason ≠ []) (hsafe : safeReason reason = true) :
    Journal.Accepted .promoting { g.marker with
      migrationApplied := mig
      rollbackFrom := g.rollbackFrom
      failureVersion := orElse g.rollbackFrom g.version
      failureReason := reason } ↔ g.rollbackFrom ≠ g.version := by
  have hversion := ne_nil_of_safeVersion h.version
  have hfailure : safeVersion (orElse g.rollbackFrom g.version) = true := by
    unfold orElse
    split
    · exact h.version
    case isFalse hroll => exact (h.origin.resolve_left hroll).1
  constructor
  · intro hacc heq
    have hroll : g.rollbackFrom ≠ [] := heq ▸ hversion
    exact (hacc.rollback hroll).2.2 heq
  · intro hdiff
    refine ⟨h.version, h.op, h.kind, fun hroll => ?_, fun _ => ⟨hfailure, rfl⟩, ?_, hsafe,
      fun hsource => by cases hsource⟩
    · obtain ⟨hs, ho⟩ := h.origin.resolve_left hroll
      exact ⟨hs, ho.resolve_left hdiff, hdiff⟩
    · exact ⟨fun hf => absurd hf (ne_nil_of_safeVersion hfailure), fun hr => absurd hr hne⟩

/-- A commit is accepted by the reader exactly when the supervisor is not pinned. -/
theorem accepted_iff_not_pinned {cfg : Config} {w w' : World} {p : Proc} {j : Journal}
    (h : Fenced w (some p)) (hdoes : Does cfg w' p (.promoting j)) :
    j.Accepted .promoting ↔ p.pinned = false := by
  obtain ⟨hg, hfits, -⟩ := h
  cases hdoes with
  | consume g =>
    have hactive := hg.active hfits.1
    refine iff_of_true ?_ rfl
    exact ⟨hactive.version, hactive.op, hactive.kind, fun hr => absurd rfl hr,
      fun hf => absurd rfl hf, Iff.rfl, rfl, fun hsource => by cases hsource⟩
  | landing g lg mig =>
    have hactive := hg.active hfits.1
    refine iff_of_true ?_ rfl
    exact ⟨hfits.2.1, hactive.op, rfl, fun _ => ⟨hactive.version, rfl, hfits.2.2.1.symm⟩,
      fun hf => absurd rfl hf, Iff.rfl, rfl, fun hsource => by cases hsource⟩
  | forced g =>
    have hiff := (hg.active hfits).recovery_accepted_iff g.mig
      (show forcedReason ≠ [] by decide) (by decide)
    refine hiff.trans ?_
    simp [Proc.pinned, Phase.isRecovery]
  | terminal g attempted reason mig =>
    have hiff := (hg.active hfits.1).recovery_accepted_iff mig hfits.2.2.1 hfits.2.2.2
    rw [← hfits.2.1] at hiff
    refine hiff.trans ?_
    simp [Proc.pinned, Phase.isRecovery]

/-- A run that is never pinned keeps promoting.json readable. -/
theorem loads_rule (cfg : Config) :
    StepRule cfg (fun s _ => s.pinned = false)
      fun w proc => Fenced w proc ∧ w.Loads := by
  have hkeep : ∀ {w : World} {s : State}, s.Fenced → s.world.promoting = w.promoting → w.Loads →
      s.Fenced ∧ s.world.Loads := by
    intro w s hs hpromoting hloads
    refine ⟨hs, ?_⟩
    rw [World.Loads, World.loaded, hpromoting]
    exact hloads
  refine
    { write := ?_, down := ?_, finish := ?_, fallBack := ?_, appExit := ?_, boot := ?_, stage := ?_,
      recover := ?_, release := ?_, database := ?_, ticks := ?_ }
  · rintro w₀ w p wr e ⟨h₀, -⟩ hC hdoes - ⟨h, hloads⟩
    refine ⟨h₀.write hdoes h, ?_⟩
    cases wr with
    | promoting j =>
      obtain ⟨-, hplain, -⟩ := h₀.marker hdoes
      have hacc := (accepted_iff_not_pinned h₀ hdoes).mpr hC
      refine .inr ?_
      show (parseJournal .promoting (renderPromoting j)).isSome = true
      rw [parseJournal_renderPromoting hplain, if_pos hacc]
      rfl
    | clearPromoting => exact .inl rfl
    | removePending | link | desired | previous | lastGood | publish | discard | backup
    | pruneBackups | result | approve => exact hloads
  · exact fun h => ⟨h.1.tidy, h.2⟩
  · exact fun _ _ hw' h => hkeep (h.1.finish hw') (decides_finish cfg _ _).promoting h.2
  · exact fun _ _ _ _ h => hkeep (h.1.fallBack cfg) (decides_fallBack cfg _ _).promoting h.2
  · exact fun h => hkeep h.1.appExit (decides_appExit _ _).promoting h.2
  · exact fun h _ => hkeep (World.Tidy.boot h.1 cfg _) (decides_boot cfg _ _).promoting h.2
  · exact fun h hnew _ _ => ⟨h.1.stage hnew, h.2⟩
  · exact fun h hnew => ⟨(fenced_rule cfg).recover h.1 hnew, .inl rfl⟩
  · exact fun version r h => ⟨(fenced_rule cfg).release version r h.1, h.2⟩
  · exact fun db h => ⟨(fenced_rule cfg).database db h.1, h.2⟩
  · exact fun stamp h => ⟨(fenced_rule cfg).ticks stamp h.1, h.2⟩

/-- **Writer and reader agree.**  In every state of every run, a marker that is committed is
read back with exactly the fields that were written if and only if the supervisor is not
pinned.  In a run that is never pinned every start finds a journal that it can read. -/
theorem marker_read_back_iff (cfg : Config) {w : World} (hw : w.Tidy) (events : List Event) :
    (∀ p j, (run (step cfg) ⟨w, none⟩ events).proc = some p →
      .promoting j ∈ p.phase.writes cfg p.gen (run (step cfg) ⟨w, none⟩ events).world →
      (parseJournal .promoting (renderPromoting j) = some j ↔ p.pinned = false)) ∧
    (w.Loads → Meets (step cfg) (fun s _ => s.pinned = false) ⟨w, none⟩ events →
      (run (step cfg) ⟨w, none⟩ events).world.Loads) := by
  have hs : State.Fenced ⟨w, none⟩ := hw
  constructor
  · intro p j hp hj
    have hfenced : Fenced (run (step cfg) ⟨w, none⟩ events).world
        (run (step cfg) ⟨w, none⟩ events).proc := fenced_run hs events
    rw [hp] at hfenced
    have hdoes := does_of_mem_writes hj
    obtain ⟨-, hplain, -⟩ := hfenced.marker hdoes
    rw [parseJournal_renderPromoting hplain, ← accepted_iff_not_pinned hfenced hdoes]
    exact ite_eq_left_iff.trans (by simp)
  · intro hloads hmeets
    have hrun := run_keeps_of_meets (I := fun s : State => Fenced s.world s.proc ∧ s.world.Loads)
      (fun s e h hC => (loads_rule cfg).step (s := s) e h hC) (s := ⟨w, none⟩) ⟨hw, hloads⟩ hmeets
    exact hrun.2

/-- The update fails, its rollback marker cannot be written, and the second attempt hangs. -/
def hungUpdate : List Event :=
  [.starts none, .done, .done, .done, .done, .fails 0, .done, .fails 0, .done, .done, .fails 0,
   .fails 0]

/-- The state in which the marker of the forced stop is about to be committed. -/
def hungState : State :=
  run (step sampleConfig) ⟨sampleWorld (sampleUpdate "op".toList false), none⟩ hungUpdate

/-- The marker of the forced stop. -/
def hungMarker : Journal where
  version := "2.0.0".toList
  operationId := "op".toList
  kind := some .update
  migrationApplied := false
  rollbackFrom := "2.0.0".toList
  failureVersion := "2.0.0".toList
  failureReason := forcedReason

/-- A marker that `write_promoting` commits is not always read back: the run above commits one
that the reader rejects. -/
theorem marker_not_read_back : ¬ ∀ (cfg : Config) (w : World) (events : List Event) (p : Proc)
    (j : Journal), w.Tidy → w.Loads → (run (step cfg) ⟨w, none⟩ events).proc = some p →
      .promoting j ∈ p.phase.writes cfg p.gen (run (step cfg) ⟨w, none⟩ events).world →
      parseJournal .promoting (renderPromoting j) = some j := by
  intro h
  have hrun : hungState.proc = some ⟨.forceMarker,
      { version := "2.0.0".toList, op := "op".toList, kind := some .update, promotion := true,
        mig := false, rollbackFrom := "2.0.0".toList, rollbackReason := gateReason }⟩ := by
    decide +kernel
  have hread := h sampleConfig (sampleWorld (sampleUpdate "op".toList false)) hungUpdate _
    hungMarker (sampleWorld_tidy (by decide)) (.inl rfl) hrun (List.mem_singleton_self _)
  exact absurd hread (by decide +kernel)

/-- An update that fails and lands on the first version. -/
def landedUpdate : List Event :=
  [.starts none, .done, .done, .done, .done, .fails 0, .done, .done, .done, .done, .done, .done]

/-- The run theorem at the run of a rollback. -/
theorem marker_read_back_iff_landed :
    Meets (step sampleConfig) (fun s _ => s.pinned = false)
        ⟨sampleWorld (sampleUpdate "op".toList false), none⟩ landedUpdate ∧
      (run (step sampleConfig) ⟨sampleWorld (sampleUpdate "op".toList false), none⟩
        landedUpdate).world.Loads := by
  have hmeets : Meets (step sampleConfig) (fun s _ => s.pinned = false)
      ⟨sampleWorld (sampleUpdate "op".toList false), none⟩ landedUpdate := by decide +kernel
  exact ⟨hmeets, (marker_read_back_iff sampleConfig (sampleWorld_tidy (by decide))
    landedUpdate).2 (.inl rfl) hmeets⟩

end ChordV.Deploy
