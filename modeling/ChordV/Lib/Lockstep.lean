import ChordV.Lib.Program

/-!
# Two runs of one program

A program that is run twice, in worlds that are related, with the same fates.

* `SameOutcome` and `SameResult` say that two runs end alike, in related worlds.
* `Respects` says this of all related worlds.  The rules follow the constructors of a program.
* `Respects.finalWorld` and `Respects.outcome` are what it says of a whole run.

Nothing here is about a particular world.
-/

namespace ChordV.Lib

variable {ε σ α β : Type} (R : σ → σ → Prop)

/-- How a program ends: what it returns, or why it stops. -/
def outcome (p : Prog ε σ α) (w : σ) (fates : List Fate) : Except (Stop ε) α :=
  match p ⟨w, fates⟩ with
  | .ok a _ => .ok a
  | .error e _ => .error e

/-- Two outcomes of an action that are alike. -/
def SameOutcome : Except ε (α × σ) → Except ε (α × σ) → Prop
  | .ok (a, w), .ok (b, v) => a = b ∧ R w v
  | .error e, .error e' => e = e'
  | _, _ => False

/-- Two results of a program that are alike. -/
def SameResult : EStateM.Result (Stop ε) (Sched σ) α → EStateM.Result (Stop ε) (Sched σ) α → Prop
  | .ok a s, .ok b t => a = b ∧ R s.world t.world ∧ s.fates = t.fates
  | .error e s, .error e' t => e = e' ∧ R s.world t.world ∧ s.fates = t.fates
  | _, _ => False

/-- Related worlds and the same fates give the same result. -/
def Respects (p : Prog ε σ α) : Prop :=
  ∀ ⦃w v⦄ (fates : List Fate), R w v → SameResult R (p ⟨w, fates⟩) (p ⟨v, fates⟩)

variable {R} {p : Prog ε σ α}

/-- Two actions that go on alike end alike. -/
theorem SameOutcome.bind {x y : Except ε (α × σ)} {f g : α × σ → Except ε (β × σ)}
    (h : SameOutcome R x y) (hf : ∀ a w v, R w v → SameOutcome R (f (a, w)) (g (a, v))) :
    SameOutcome R (x >>= f) (y >>= g) := by
  cases x <;> cases y
  · exact h
  · exact h.elim
  · exact h.elim
  · next p q =>
    obtain ⟨a, w⟩ := p
    obtain ⟨b, v⟩ := q
    obtain ⟨rfl, hR⟩ := h
    exact hf a w v hR

namespace Respects

theorem pure (a : α) : Respects R (Pure.pure a : Prog ε σ α) :=
  fun _ _ _ h => ⟨rfl, h, rfl⟩

theorem fail (e : ε) : Respects R (Lib.fail e : Prog ε σ α) :=
  fun _ _ _ h => ⟨rfl, h, rfl⟩

theorem ensure (c : Bool) (e : ε) : Respects R (Lib.ensure c e : Prog ε σ Unit) := by
  cases c
  · exact fail e
  · exact pure ()

theorem bind {f : α → Prog ε σ β} (hp : Respects R p) (hf : ∀ a, Respects R (f a)) :
    Respects R (p >>= f) := by
  intro w v fates h
  have hsame := hp fates h
  show SameResult R (EStateM.bind p f ⟨w, fates⟩) (EStateM.bind p f ⟨v, fates⟩)
  unfold EStateM.bind
  cases hw : p ⟨w, fates⟩ <;> cases hv : p ⟨v, fates⟩ <;> rw [hw, hv] at hsame
  · next a s b t =>
    obtain ⟨rfl, hR, hfates⟩ := hsame
    cases s
    cases t
    subst hfates
    exact hf a _ hR
  · exact hsame.elim
  · exact hsame.elim
  · exact hsame

theorem attempt (hp : Respects R p) : Respects R (Lib.attempt p) := by
  intro w v fates h
  have hsame := hp fates h
  unfold Lib.attempt
  cases hw : p ⟨w, fates⟩ <;> cases hv : p ⟨v, fates⟩ <;> rw [hw, hv] at hsame
  · obtain ⟨rfl, hR⟩ := hsame
    exact ⟨rfl, hR⟩
  · exact hsame.elim
  · exact hsame.elim
  · next e s e' t =>
    obtain ⟨rfl, hR⟩ := hsame
    cases e with
    | err e => exact ⟨rfl, hR⟩
    | died => exact ⟨rfl, hR⟩

theorem perform {f : σ → Except ε (α × σ)} {w v : σ} (hf : SameOutcome R (f w) (f v)) (h : R w v)
    (fates : List Fate) : SameResult R (Lib.perform f w fates) (Lib.perform f v fates) := by
  unfold Lib.perform
  cases hw : f w <;> cases hv : f v <;> rw [hw, hv] at hf
  · exact ⟨congrArg Stop.err hf, h, rfl⟩
  · exact hf.elim
  · exact hf.elim
  · exact ⟨hf.1, hf.2, rfl⟩

/-- An action that respects the relation, whatever its fate is. -/
theorem atomic {f : σ → Except ε (α × σ)} (lost : ε)
    (hf : ∀ w v, R w v → SameOutcome R (f w) (f v)) : Respects R (Lib.atomic lost f) := by
  intro w v fates h
  unfold Lib.atomic
  cases fates with
  | nil => exact perform (hf w v h) h []
  | cons fate rest =>
    cases fate with
    | run => exact perform (hf w v h) h rest
    | refuse => exact ⟨rfl, h, rfl⟩
    | die => exact ⟨rfl, h, rfl⟩
    | lose =>
      have hsame := hf w v h
      dsimp only
      cases hw : f w <;> cases hv : f v <;> rw [hw, hv] at hsame
      · exact ⟨congrArg Stop.err hsame, h, rfl⟩
      · exact hsame.elim
      · exact hsame.elim
      · exact ⟨rfl, hsame.2, rfl⟩

/-- The worlds that the two runs leave are related. -/
theorem finalWorld (hp : Respects R p) {w v : σ} (h : R w v) (fates : List Fate) :
    R (Lib.finalWorld p w fates) (Lib.finalWorld p v fates) := by
  have hsame := hp fates h
  unfold Lib.finalWorld
  cases hw : p ⟨w, fates⟩ <;> cases hv : p ⟨v, fates⟩ <;> rw [hw, hv] at hsame
  · exact hsame.2.1
  · exact hsame.elim
  · exact hsame.elim
  · exact hsame.2.1

/-- The two runs return the same, or stop with the same error. -/
theorem outcome (hp : Respects R p) {w v : σ} (h : R w v) (fates : List Fate) :
    Lib.outcome p w fates = Lib.outcome p v fates := by
  have hsame := hp fates h
  unfold Lib.outcome
  cases hw : p ⟨w, fates⟩ <;> cases hv : p ⟨v, fates⟩ <;> rw [hw, hv] at hsame
  · exact congrArg Except.ok hsame.1
  · exact hsame.elim
  · exact hsame.elim
  · exact congrArg Except.error hsame.1

end Respects

end ChordV.Lib
