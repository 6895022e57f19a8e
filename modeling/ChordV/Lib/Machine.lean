import Mathlib.Tactic.Common

/-!
# Machines that take one event at a time

A machine is a step function on states.  The environment chooses the events, so a run is a
list of events, and a statement about all lists is a statement about all interleavings and
all failures that the events describe.

* `run` folds the step function over a list of events.
* `Meets` says that every step of a run meets a condition on the state before it and its
  event.
* `run_keeps` and `run_keeps_of_meets` are the two invariant rules: for all runs, and for the
  runs whose steps meet a condition.

Nothing here is about a particular machine.
-/

namespace ChordV.Lib.Machine

variable {σ ε : Type} (step : σ → ε → σ)

/-- The state after a list of events. -/
def run (s : σ) (events : List ε) : σ := events.foldl step s

/-- Every step of the run meets `C`. -/
def Meets (C : σ → ε → Prop) : σ → List ε → Prop
  | _, [] => True
  | s, e :: events => C s e ∧ Meets C (step s e) events

instance Meets.decidable (C : σ → ε → Prop) [∀ s e, Decidable (C s e)] :
    ∀ (s : σ) (events : List ε), Decidable (Meets step C s events)
  | _, [] => isTrue trivial
  | s, e :: events =>
    have := Meets.decidable C (step s e) events
    inferInstanceAs (Decidable (C s e ∧ Meets step C (step s e) events))

variable {step} {I : σ → Prop} {C : σ → ε → Prop}

@[simp] theorem run_nil (s : σ) : run step s [] = s := rfl

@[simp] theorem run_cons (s : σ) (e : ε) (events : List ε) :
    run step s (e :: events) = run step (step s e) events := rfl

theorem run_append (s : σ) (es es' : List ε) :
    run step s (es ++ es') = run step (run step s es) es' :=
  List.foldl_append

theorem meets_append {s : σ} {es es' : List ε} :
    Meets step C s (es ++ es') ↔ Meets step C s es ∧ Meets step C (run step s es) es' := by
  induction es generalizing s with
  | nil => simp [Meets]
  | cons e es ih => simp [Meets, ih, and_assoc]

/-- Two conditions that agree in all states of an invariant are met by the same runs. -/
theorem meets_congr {C' : σ → ε → Prop} (hstep : ∀ s e, I s → I (step s e))
    (hiff : ∀ s e, I s → (C s e ↔ C' s e)) {s : σ} (hs : I s) (events : List ε) :
    Meets step C s events ↔ Meets step C' s events := by
  induction events generalizing s with
  | nil => exact Iff.rfl
  | cons e events ih => exact and_congr (hiff s e hs) (ih (hstep s e hs))

/-- Two conditions that agree in all states of an invariant are met by the same runs, also where
the invariant needs the second of them. -/
theorem meets_congr_of_meets {C' : σ → ε → Prop} (hstep : ∀ s e, I s → C' s e → I (step s e))
    (hiff : ∀ s e, I s → (C s e ↔ C' s e)) {s : σ} (hs : I s) (events : List ε) :
    Meets step C s events ↔ Meets step C' s events := by
  induction events generalizing s with
  | nil => exact Iff.rfl
  | cons e events ih =>
    exact and_congr_left_iff.2 (fun _ => hiff s e hs) |>.trans
      (and_congr_right fun hC => ih (hstep s e hs hC))

/-- What every step keeps, every run keeps. -/
theorem run_keeps (hstep : ∀ s e, I s → I (step s e)) {s : σ} (hs : I s) (events : List ε) :
    I (run step s events) := by
  induction events generalizing s with
  | nil => exact hs
  | cons e events ih => exact ih (hstep s e hs)

/-- A condition that the invariant turns into another. -/
theorem meets_imp {C' : σ → ε → Prop} (hstep : ∀ s e, I s → C s e → I (step s e))
    (himp : ∀ s e, I s → C s e → C' s e) {s : σ} (hs : I s) {events : List ε}
    (h : Meets step C s events) : Meets step C' s events := by
  induction events generalizing s with
  | nil => trivial
  | cons e events ih => exact ⟨himp s e hs h.1, ih (hstep s e hs h.1) h.2⟩

/-- What holds of every step from a state of an invariant is met by every run. -/
theorem meets_of_keeps (hstep : ∀ s e, I s → I (step s e)) (hmeets : ∀ s e, I s → C s e) {s : σ}
    (hs : I s) (events : List ε) : Meets step C s events := by
  induction events generalizing s with
  | nil => trivial
  | cons e events ih => exact ⟨hmeets s e hs, ih (hstep s e hs)⟩

/-- What every step that meets a condition keeps, every run of such steps keeps. -/
theorem run_keeps_of_meets (hstep : ∀ s e, I s → C s e → I (step s e)) {s : σ} (hs : I s)
    {events : List ε} (h : Meets step C s events) : I (run step s events) := by
  induction events generalizing s with
  | nil => exact hs
  | cons e events ih => exact ih (hstep s e hs h.1) h.2

end ChordV.Lib.Machine
