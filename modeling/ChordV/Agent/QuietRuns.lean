import ChordV.Agent.Records

/-!
# Runs without instructions

A step is quiet when it carries no instruction of the control plane: a sample, an
acknowledgement, a restart of the agent or of Xray, a change the panel makes.  The
repairs of the runner are quiet steps, since they work on what is stored.

`Quiet deps I` is what a statement needs to survive the quiet steps of the agent, one
field for each store write, and `Quiet.step_keeps` is the rule.
-/

namespace ChordV.Agent

open Lib

variable {I : World → Prop} {w : World} {deps : Deps}

/-- A step of the agent keeps what its program keeps, if a death cannot break it. -/
theorem World.operate_keeps {α : Type} {P : World → Prop} {p : AgentM α}
    (hp : Triple P p (fun _ => I) I) (hdead : ∀ w r, I w → I { w with runner := r })
    (fates : List Fate) (hw : P w) : I (operate p fates w) := by
  have h := hp ⟨w, fates⟩ hw
  unfold operate
  cases hr : p ⟨w, fates⟩ with
  | ok a s =>
    rw [hr] at h
    exact h
  | error e s =>
    rw [hr] at h
    cases e with
    | err e => exact h
    | died => exact hdead _ _ h

theorem World.ifAlive_keeps {f : World → World} (hw : I w) (hf : I (f w)) : I (w.ifAlive f) := by
  unfold ifAlive
  split
  · exact hf
  · exact hw

/-- The step carries no instruction of the control plane. -/
def Label.quiet : Label → Bool
  | .command .. => false
  | .refresh _ response _ => response.isNone
  | .start _ response _ => response.isNone
  | _ => true

/-- The step is taken by the panel or by Xray, and not by the agent. -/
def Label.outside : Label → Bool
  | .panelAdd .. => true
  | .panelRemove .. => true
  | .xrayRestart .. => true
  | .inbound .. => true
  | _ => false

/-- What a statement needs to survive the quiet steps of the agent. -/
structure Quiet (deps : Deps) (I : World → Prop) : Prop extends Repairs deps I where
  ackThrough : ∀ w bootId through, I w →
    I { w with store := (w.store.ackThrough bootId through).2 }
  backfill : ∀ w, I w → I { w with store := w.store.backfillSnapshotRevision }
  recoverRow : ∀ w bindingId, I w → I { w with store := w.store.recoverParkedRow bindingId }
  initializeBoot : ∀ w bootId, I w → I { w with store := w.store.initializeBoot bootId }

/-- Nothing outside the agent touches the records or the log. -/
theorem RecordInv.step_outside (hI : RecordInv I) (hw : I w) (step : Step)
    (houtside : step.1.outside = true) : I (World.step deps w step) := by
  obtain ⟨label, fates⟩ := step
  cases label with
  | panelAdd email uuid flow => exact hI w _ rfl rfl hw
  | panelRemove email => exact hI w _ rfl rfl hw
  | xrayRestart kept => exact hI w _ rfl rfl hw
  | inbound ready otherEmails => exact hI w _ rfl rfl hw
  | _ => cases houtside

namespace Quiet

variable (hI : Quiet deps I)
include hI

omit hI in
theorem keeps_write {f : Store → Store} (hf : ∀ w, I w → I { w with store := f w.store }) :
    Keeps I (write f) := by
  refine Keeps.atomic fun w a w' hw hrun => ?_
  cases hrun
  exact hf w hw

theorem keeps_ack {bootId : String} {through : Nat} : Keeps I (Runner.ack bootId through) := by
  have hupdate : ∀ f, Keeps I (Runner.update f) := fun f => hI.keeps_update
  refine Keeps.bind (Keeps.atomic fun w a w' hw hrun => ?_) fun removed => ?_
  · cases hrun
    exact hI.ackThrough w bootId through hw
  · split
    · exact Keeps.bind (hupdate _) fun _ => hupdate _
    · exact hupdate _

theorem keeps_boot {bootId : String} : Keeps I (Runner.boot bootId) := by
  refine Keeps.bind (Keeps.bind (keeps_write hI.backfill) fun _ => ?_) fun _ => ?_
  · refine Keeps.bind Keeps.peek fun parked => Keeps.bind (Keeps.forM fun b _ => ?_) fun _ => ?_
    · exact keeps_write fun w hw => hI.recoverRow w b hw
    · exact keeps_write fun w hw => hI.initializeBoot w bootId hw
  · exact Keeps.bind hI.keeps_update fun _ => hI.keeps_syncCurrent

theorem keeps_startChecks {reading : Reading} : Keeps I (Runner.startChecks deps reading) := by
  refine Keeps.bind (Keeps.attempt hI.keeps_checkXray) fun r => ?_
  cases r with
  | error e => exact Keeps.pure
  | ok _ => exact Keeps.bind (Keeps.attempt hI.keeps_detectXrayRestart) fun _ => Keeps.pure

/-- A start keeps what its refresh keeps. -/
theorem keeps_start {reading : Reading} {epoch : Nat} {response : Option ConfigSnapshot}
    (hrefresh : Keeps I (Runner.refreshConfig deps reading epoch response)) :
    Keeps I (Runner.start deps reading epoch response) := by
  refine Keeps.bind (Keeps.attempt hrefresh) fun r => ?_
  cases r with
  | ok _ => exact hI.keeps_startChecks
  | error e =>
    refine Keeps.bind Keeps.peek fun revision => ?_
    exact Keeps.ite (fun _ => Keeps.fail) fun _ => hI.keeps_startChecks

theorem keeps_refreshConfig_none {reading : Reading} {epoch : Nat} :
    Keeps I (Runner.refreshConfig deps reading epoch none) :=
  Keeps.bind hI.keeps_update fun _ => Keeps.fail

/-- The rule of a quiet step: the agent keeps the statement if the outside does. -/
theorem step_keeps (hw : I w) (step : Step) (hquiet : step.1.quiet = true)
    (houtside : step.1.outside = true → I (World.step deps w step)) :
    I (World.step deps w step) := by
  obtain ⟨label, fates⟩ := step
  cases label with
  | command command reading => cases hquiet
  | refresh epoch response reading =>
    obtain rfl := Option.isNone_iff_eq_none.1 hquiet
    exact World.ifAlive_keeps hw
      (World.operate_keeps hI.keeps_refreshConfig_none hI.volatile fates hw)
  | start epoch response reading =>
    obtain rfl := Option.isNone_iff_eq_none.1 hquiet
    exact World.ifAlive_keeps hw
      (World.operate_keeps (hI.keeps_start hI.keeps_refreshConfig_none) hI.volatile fates hw)
  | sample reading =>
    exact World.ifAlive_keeps hw (World.operate_keeps hI.sample_keeps hI.volatile fates hw)
  | ack bootId through =>
    exact World.ifAlive_keeps hw (World.operate_keeps hI.keeps_ack hI.volatile fates hw)
  | restart bootId =>
    exact World.operate_keeps hI.keeps_boot hI.volatile fates (hI.volatile _ _ hw)
  | backendOffline => exact hI.volatile w _ hw
  | _ => exact houtside rfl

/-- The rule of a run of quiet steps, for a statement about the records. -/
theorem run_keeps (hrecords : RecordInv I) (hw : I w) (steps : List Step)
    (hquiet : ∀ step ∈ steps, step.1.quiet = true) : I (World.run deps w steps) := by
  induction steps generalizing w with
  | nil => exact hw
  | cons step steps ih =>
    refine ih (hI.step_keeps hw step (hquiet step List.mem_cons_self)
      (hrecords.step_outside hw step)) ?_
    exact fun s hs => hquiet s (List.mem_cons_of_mem _ hs)

end Quiet

end ChordV.Agent
