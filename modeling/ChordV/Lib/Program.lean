import Mathlib.Tactic.Common

/-!
# Programs that can fail or die between two actions

A program here is a sequence of atomic actions on a world `σ`: durable writes and
calls to another process.  The environment decides the fate of each action.  The
action runs, or it is refused, or it runs and its answer is lost, or the process
dies before it.  The fates are a list that the program consumes, so one program
and one list of fates give one result, and a statement about all lists of fates is
a statement about all failures and all crash points.

* `Prog ε σ α` is the program type.  It keeps the world when it stops early.
* `atomic` is one action, and `surely` is one that cannot be refused.  `peek` is a read
  that cannot fail, and `attempt` turns an error into a value.  A death is never turned
  into a value.
* `Triple P p Q E` is the partial-correctness statement: from a world in `P`, a
  program that returns `a` ends in `Q a`, and a program that stops early ends in
  `E`.  The rules below it follow the constructors of a program.
* `Ends P p Q D` tells an error from a death: `Q` holds of the value or of the error that
  the program ends with, and `D` of the world it dies in.
* `Triple.forM` and `Triple.foldlM` are the loop rules.  Their invariant reads the
  part of the list that is still to come.

Nothing here is about a particular world.
-/

namespace ChordV.Lib

/-- What the environment does to one atomic action. -/
inductive Fate where
  /-- The action runs and its answer arrives. -/
  | run
  /-- The action does not run, and the caller gets an error. -/
  | refuse
  /-- The action runs, and the caller gets an error all the same. -/
  | lose
  /-- The process dies before the action. -/
  | die
  deriving DecidableEq, Repr

/-- Why a program stops early. -/
inductive Stop (ε : Type) where
  | err (e : ε)
  | died
  deriving DecidableEq, Repr

/-- A world together with the fates of the actions to come.  After the last fate
every action runs. -/
structure Sched (σ : Type) where
  world : σ
  fates : List Fate

/-- A program over the world `σ` with errors `ε`. -/
abbrev Prog (ε σ : Type) := EStateM (Stop ε) (Sched σ)

variable {ε σ α β γ : Type}

/-! ## The primitives -/

/-- The outcome of an action that does run. -/
def perform (f : σ → Except ε (α × σ)) (w : σ) (fates : List Fate) :
    EStateM.Result (Stop ε) (Sched σ) α :=
  match f w with
  | .error e => .error (.err e) ⟨w, fates⟩
  | .ok (a, w') => .ok a ⟨w', fates⟩

/-- One atomic action.  `f` is what it does when it runs: a rejected action leaves
the world alone.  `lost` is the error of an action whose answer never arrives. -/
def atomic (lost : ε) (f : σ → Except ε (α × σ)) : Prog ε σ α := fun s =>
  match s.fates with
  | [] => perform f s.world []
  | .run :: rest => perform f s.world rest
  | .refuse :: rest => .error (.err lost) ⟨s.world, rest⟩
  | .die :: rest => .error .died ⟨s.world, rest⟩
  | .lose :: rest =>
    match f s.world with
    | .error e => .error (.err e) ⟨s.world, rest⟩
    | .ok (_, w') => .error (.err lost) ⟨w', rest⟩

/-- An action that is never refused: it runs, or the process dies before it. -/
def surely (f : σ → σ) : Prog ε σ Unit := fun s =>
  match s.fates with
  | [] => .ok () ⟨f s.world, []⟩
  | .die :: rest => .error .died ⟨s.world, rest⟩
  | _ :: rest => .ok () ⟨f s.world, rest⟩

/-- A read that cannot fail. -/
def peek (f : σ → α) : Prog ε σ α := fun s => .ok (f s.world) s

/-- A change of volatile memory: it cannot fail, and no crash point precedes it. -/
def poke (f : σ → σ) : Prog ε σ Unit := fun s => .ok () ⟨f s.world, s.fates⟩

/-- Stop with an error. -/
def fail (e : ε) : Prog ε σ α := fun s => .error (.err e) s

/-- Stop with an error unless the condition holds. -/
def ensure (c : Bool) (e : ε) : Prog ε σ Unit := if c then pure () else fail e

/-- A pure computation that may fail. -/
def liftExcept : Except ε α → Prog ε σ α
  | .ok a => pure a
  | .error e => fail e

/-- Run a program and turn its error into a value.  A death stays a death. -/
def attempt (p : Prog ε σ α) : Prog ε σ (Except ε α) := fun s =>
  match p s with
  | .ok a s' => .ok (.ok a) s'
  | .error (.err e) s' => .ok (.error e) s'
  | .error .died s' => .error .died s'

/-- The world a program ends in, whichever way it ends. -/
def finalWorld (p : Prog ε σ α) (w : σ) (fates : List Fate) : σ :=
  match p ⟨w, fates⟩ with
  | .ok _ s => s.world
  | .error _ s => s.world

/-- The value a program returns, if it returns one. -/
def result? (p : Prog ε σ α) (w : σ) (fates : List Fate) : Option α :=
  match p ⟨w, fates⟩ with
  | .ok a _ => some a
  | .error _ _ => none

/-! ## Triples -/

/-- From a world in `P`, the program `p` returns into `Q` or stops early in `E`. -/
def Triple (P : σ → Prop) (p : Prog ε σ α) (Q : α → σ → Prop) (E : σ → Prop) : Prop :=
  ∀ s : Sched σ, P s.world →
    match p s with
    | .ok a s' => Q a s'.world
    | .error _ s' => E s'.world

/-- A program that keeps `I`, however it ends. -/
def Keeps (I : σ → Prop) (p : Prog ε σ α) : Prop := Triple I p (fun _ => I) I

namespace Triple

variable {P P' R : σ → Prop} {Q Q' : α → σ → Prop} {E E' : σ → Prop}
  {p : Prog ε σ α} {f : α → Prog ε σ β}

theorem conseq (h : Triple P p Q E) (hP : ∀ w, P' w → P w)
    (hQ : ∀ a w, Q a w → Q' a w) (hE : ∀ w, E w → E' w) : Triple P' p Q' E' := by
  intro s hs
  have hp := h s (hP _ hs)
  cases hr : p s with
  | ok a s' => rw [hr] at hp; exact hQ _ _ hp
  | error e s' => rw [hr] at hp; exact hE _ hp

theorem pre (h : Triple P p Q E) (hP : ∀ w, P' w → P w) : Triple P' p Q E :=
  h.conseq hP (fun _ _ hq => hq) (fun _ he => he)

theorem post (h : Triple P p Q E) (hQ : ∀ a w, Q a w → Q' a w) : Triple P p Q' E :=
  h.conseq (fun _ hp => hp) hQ (fun _ he => he)

/-- Every program ends somewhere. -/
theorem trivial : Triple P p (fun _ _ => True) fun _ => True := by
  intro s _
  cases p s <;> exact True.intro

/-- Two statements about one program hold together. -/
theorem and {Q' : α → σ → Prop} (h : Triple P p Q E) (h' : Triple P' p Q' E') :
    Triple (fun w => P w ∧ P' w) p (fun a w => Q a w ∧ Q' a w) fun w => E w ∧ E' w := by
  intro s hs
  have hp := h s hs.1
  have hp' := h' s hs.2
  cases hr : p s <;> rw [hr] at hp hp' <;> exact ⟨hp, hp'⟩

theorem pure {a : α} (h : ∀ w, P w → Q a w) : Triple P (Pure.pure a : Prog ε σ α) Q E :=
  fun s hs => h s.world hs

theorem fail {e : ε} (h : ∀ w, P w → E w) : Triple P (Lib.fail e : Prog ε σ α) Q E :=
  fun s hs => h s.world hs

theorem bind {S : α → σ → Prop} {Q : β → σ → Prop} (hp : Triple P p S E)
    (hf : ∀ a, Triple (S a) (f a) Q E) : Triple P (p >>= f) Q E := by
  intro s hs
  have h := hp s hs
  change match EStateM.bind p f s with | .ok a s' => Q a s'.world | .error _ s' => E s'.world
  cases hr : p s with
  | ok a s' =>
    rw [hr] at h
    have h' := hf a s' h
    simpa [EStateM.bind, hr] using h'
  | error e s' =>
    rw [hr] at h
    simpa [EStateM.bind, hr] using h

theorem ite {c : Prop} [Decidable c] {q : Prog ε σ α} (ht : c → Triple P p Q E)
    (hf : ¬c → Triple P q Q E) : Triple P (if c then p else q) Q E := by
  split
  · exact ht ‹_›
  · exact hf ‹_›

/-- A fact that does not read the world moves in front of the triple. -/
theorem lift {φ : Prop} (h : φ → Triple P p Q E) : Triple (fun w => φ ∧ P w) p Q E :=
  fun s hs => h hs.1 s hs.2

/-- A fact about the starting world that is used only there. -/
theorem ofExists {ι : Type} {F : ι → σ → Prop} (h : ∀ i, Triple (F i) p Q E) :
    Triple (fun w => ∃ i, F i w) p Q E := by
  rintro s ⟨i, hi⟩
  exact h i s hi

/-- The world a program starts in can be given a name. -/
theorem atWorld (h : ∀ w₀, P w₀ → Triple (fun w => w = w₀) p Q E) : Triple P p Q E :=
  fun s hs => h s.world hs s rfl

theorem peek {g : σ → α} (h : ∀ w, P w → Q (g w) w) : Triple P (Lib.peek g : Prog ε σ α) Q E :=
  fun s hs => h s.world hs

theorem poke {g : σ → σ} {Q : Unit → σ → Prop} (h : ∀ w, P w → Q () (g w)) :
    Triple P (Lib.poke g : Prog ε σ Unit) Q E :=
  fun s hs => h s.world hs

theorem ensure {c : Bool} {e : ε} (hE : ∀ w, P w → E w) :
    Triple P (Lib.ensure c e : Prog ε σ Unit) (fun _ w => c = true ∧ P w) E := by
  cases c with
  | true => exact Triple.pure fun _ hw => ⟨rfl, hw⟩
  | false => exact Triple.fail hE

theorem liftExcept {r : Except ε α} (hE : ∀ w, P w → E w) :
    Triple P (Lib.liftExcept r : Prog ε σ α) (fun a w => r = .ok a ∧ P w) E := by
  cases r with
  | ok a => exact Triple.pure fun _ hw => ⟨rfl, hw⟩
  | error e => exact Triple.fail hE

/-- A read names the world it reads. -/
theorem bindPeek {g : σ → α} {Q : β → σ → Prop}
    (h : ∀ w₀, P w₀ → Triple (fun w => w = w₀) (f (g w₀)) Q E) :
    Triple P (Lib.peek g >>= f) Q E :=
  fun s hs => h s.world hs s rfl

/-- A read whose value does not matter. -/
theorem afterPeek {g : σ → α} {Q : β → σ → Prop} (h : ∀ a, Triple P (f a) Q E) :
    Triple P (Lib.peek g >>= f) Q E :=
  fun s hs => h (g s.world) s hs

/-- A pure computation that may fail names its result. -/
theorem bindLift {r : Except ε α} {Q : β → σ → Prop} (hE : ∀ w, P w → E w)
    (h : ∀ a, r = .ok a → Triple P (f a) Q E) : Triple P (Lib.liftExcept r >>= f) Q E :=
  Triple.bind (Triple.liftExcept hE) fun a => Triple.lift (h a)

/-- The rule of one atomic action: what holds after it runs, whether or not its
answer arrives, and what holds when it does not run. -/
theorem atomic {lost : ε} {g : σ → Except ε (α × σ)}
    (hrun : ∀ w a w', P w → g w = .ok (a, w') → Q a w' ∧ E w')
    (hstay : ∀ w, P w → E w) : Triple P (Lib.atomic lost g) Q E := by
  intro s hs
  have hperform : ∀ rest, match perform g s.world rest with
      | .ok a s' => Q a s'.world | .error _ s' => E s'.world := by
    intro rest
    unfold perform
    cases hg : g s.world with
    | error e => exact hstay _ hs
    | ok r => exact (hrun _ r.1 r.2 hs hg).1
  unfold Lib.atomic
  rcases s.fates with _ | ⟨fate, rest⟩
  · exact hperform []
  · cases fate with
    | run => exact hperform rest
    | refuse => exact hstay _ hs
    | die => exact hstay _ hs
    | lose =>
      dsimp only
      cases hg : g s.world with
      | error e => exact hstay _ hs
      | ok r => exact (hrun _ r.1 r.2 hs hg).2

theorem attempt {Q : Except ε α → σ → Prop}
    (h : Triple P p (fun a => Q (.ok a)) (fun w => E w ∧ ∀ e, Q (.error e) w)) :
    Triple P (Lib.attempt p) Q E := by
  intro s hs
  have hp := h s hs
  unfold Lib.attempt
  cases hr : p s with
  | ok a s' => rw [hr] at hp; exact hp
  | error e s' =>
    rw [hr] at hp
    cases e with
    | err e => exact hp.2 e
    | died => exact hp.1

/-- The loop rule: `J` reads the part of the list still to come. -/
theorem forM {xs : List α} {body : α → Prog ε σ PUnit} {J : List α → σ → Prop}
    (h : ∀ x rest, (x :: rest) <:+ xs →
      Triple (J (x :: rest)) (body x) (fun _ => J rest) E) :
    Triple (J xs) (xs.forM body) (fun _ => J []) E := by
  induction xs with
  | nil => exact Triple.pure fun _ hw => hw
  | cons x xs ih =>
    refine Triple.bind (h x xs (List.suffix_refl _)) fun _ => ih ?_
    intro y rest hy
    exact h y rest (hy.trans (List.suffix_cons x xs))

/-- The loop rule for an accumulator. -/
theorem foldlM {xs : List α} {step : β → α → Prog ε σ β} {init : β}
    {J : List α → β → σ → Prop}
    (h : ∀ x rest acc, (x :: rest) <:+ xs →
      Triple (J (x :: rest) acc) (step acc x) (J rest) E) :
    Triple (J xs init) (xs.foldlM step init) (J []) E := by
  induction xs generalizing init with
  | nil => exact Triple.pure fun _ hw => hw
  | cons x xs ih =>
    refine Triple.bind (h x xs init (List.suffix_refl _)) fun acc => ih ?_
    intro y rest acc' hy
    exact h y rest acc' (hy.trans (List.suffix_cons x xs))

/-- A triple whose two postconditions agree bounds the final world. -/
theorem finalWorld (h : Triple P p (fun _ => R) R) {w : σ} (hw : P w) (fates : List Fate) :
    R (Lib.finalWorld p w fates) := by
  have hp := h ⟨w, fates⟩ hw
  unfold Lib.finalWorld
  cases hr : p ⟨w, fates⟩ <;> rw [hr] at hp <;> exact hp

/-- What a program that returns leaves behind. -/
theorem of_result (h : Triple P p Q E) {w : σ} (hw : P w) {fates : List Fate} {a : α}
    (ha : Lib.result? p w fates = some a) : Q a (Lib.finalWorld p w fates) := by
  have hp := h ⟨w, fates⟩ hw
  unfold Lib.result? at ha
  unfold Lib.finalWorld
  cases hr : p ⟨w, fates⟩ with
  | ok b s =>
    rw [hr] at hp ha
    simp only [Option.some.injEq] at ha
    subst ha
    exact hp
  | error e s =>
    rw [hr] at ha
    simp at ha

end Triple

namespace Keeps

variable {I : σ → Prop} {p : Prog ε σ α} {f : α → Prog ε σ β}

theorem and {J : σ → Prop} (h : Keeps I p) (h' : Keeps J p) : Keeps (fun w => I w ∧ J w) p :=
  Triple.and h h'

/-- A program that keeps two statements keeps their disjunction. -/
theorem or {J : σ → Prop} (h : Keeps I p) (h' : Keeps J p) : Keeps (fun w => I w ∨ J w) p := by
  have hleft : Triple I p (fun _ w => I w ∨ J w) fun w => I w ∨ J w :=
    h.conseq (fun _ hw => hw) (fun _ _ hw => .inl hw) fun _ hw => .inl hw
  have hright : Triple J p (fun _ w => I w ∨ J w) fun w => I w ∨ J w :=
    h'.conseq (fun _ hw => hw) (fun _ _ hw => .inr hw) fun _ hw => .inr hw
  exact fun s hs => hs.elim (hleft s) (hright s)

theorem bind (hp : Keeps I p) (hf : ∀ a, Keeps I (f a)) : Keeps I (p >>= f) :=
  Triple.bind hp hf

theorem pure {a : α} : Keeps I (Pure.pure a : Prog ε σ α) := Triple.pure fun _ h => h

theorem fail {e : ε} : Keeps I (Lib.fail e : Prog ε σ α) := Triple.fail fun _ h => h

theorem peek {g : σ → α} : Keeps I (Lib.peek g : Prog ε σ α) := Triple.peek fun _ h => h

theorem ensure {c : Bool} {e : ε} : Keeps I (Lib.ensure c e : Prog ε σ Unit) :=
  (Triple.ensure fun _ h => h).post fun _ _ h => h.2

theorem liftExcept {r : Except ε α} : Keeps I (Lib.liftExcept r : Prog ε σ α) :=
  (Triple.liftExcept fun _ h => h).post fun _ _ h => h.2

theorem poke {g : σ → σ} (h : ∀ w, I w → I (g w)) : Keeps I (Lib.poke g : Prog ε σ Unit) :=
  Triple.poke h

theorem atomic {lost : ε} {g : σ → Except ε (α × σ)}
    (h : ∀ w a w', I w → g w = .ok (a, w') → I w') : Keeps I (Lib.atomic lost g) :=
  Triple.atomic (fun w a w' hw hg => ⟨h w a w' hw hg, h w a w' hw hg⟩) fun _ hw => hw

theorem attempt (h : Keeps I p) : Keeps I (Lib.attempt p) :=
  Triple.attempt (h.conseq (fun _ hw => hw) (fun _ _ hw => hw) fun _ hw => ⟨hw, fun _ => hw⟩)

theorem forM {xs : List α} {body : α → Prog ε σ PUnit} (h : ∀ x ∈ xs, Keeps I (body x)) :
    Keeps I (xs.forM body) :=
  Triple.forM (J := fun _ => I) fun x _ hx => h x (hx.subset List.mem_cons_self)

theorem foldlM {xs : List α} {step : β → α → Prog ε σ β} {init : β}
    (h : ∀ acc, ∀ x ∈ xs, Keeps I (step acc x)) : Keeps I (xs.foldlM step init) :=
  Triple.foldlM (J := fun _ _ => I) fun x _ acc hx => h acc x (hx.subset List.mem_cons_self)

theorem ite {c : Prop} [Decidable c] {q : Prog ε σ α} (ht : c → Keeps I p)
    (hf : ¬c → Keeps I q) : Keeps I (if c then p else q) :=
  Triple.ite ht hf

end Keeps

/-! ## Errors and deaths told apart -/

/-- From a world in `P`, the program `p` ends with a result in `Q`, be it a value or an error, or
it dies in `D`. -/
def Ends (P : σ → Prop) (p : Prog ε σ α) (Q : Except ε α → σ → Prop) (D : σ → Prop) : Prop :=
  ∀ s : Sched σ, P s.world →
    match p s with
    | .ok a s' => Q (.ok a) s'.world
    | .error (.err e) s' => Q (.error e) s'.world
    | .error .died s' => D s'.world

namespace Ends

variable {P S : σ → Prop} {Q Q' : Except ε α → σ → Prop} {D : σ → Prop} {p : Prog ε σ α}
  {f : α → Prog ε σ β} {R : Except ε β → σ → Prop}

theorem conseq {D' : σ → Prop} (h : Ends P p Q D) (hP : ∀ w, S w → P w)
    (hQ : ∀ r w, Q r w → Q' r w) (hD : ∀ w, D w → D' w) : Ends S p Q' D' := by
  intro s hs
  have hp := h s (hP _ hs)
  cases hr : p s with
  | ok a s' => rw [hr] at hp; exact hQ _ _ hp
  | error e s' =>
    rw [hr] at hp
    cases e with
    | err e => exact hQ _ _ hp
    | died => exact hD _ hp

theorem pure {a : α} (h : ∀ w, P w → Q (.ok a) w) : Ends P (Pure.pure a : Prog ε σ α) Q D :=
  fun s hs => h s.world hs

theorem fail {e : ε} (h : ∀ w, P w → Q (.error e) w) : Ends P (Lib.fail e : Prog ε σ α) Q D :=
  fun s hs => h s.world hs

/-- The world a program starts in can be given a name. -/
theorem atWorld (h : ∀ w₀, P w₀ → Ends (fun w => w = w₀) p Q D) : Ends P p Q D :=
  fun s hs => h s.world hs s rfl

/-- What follows a program: the second part starts from the values of the first. -/
theorem bind {M : Except ε α → σ → Prop} (hp : Ends P p M D)
    (hf : ∀ a, Ends (M (.ok a)) (f a) R D) (he : ∀ e w, M (.error e) w → R (.error e) w) :
    Ends P (p >>= f) R D := by
  intro s hs
  have h := hp s hs
  change match EStateM.bind p f s with
    | .ok a s' => R (.ok a) s'.world
    | .error (.err e) s' => R (.error e) s'.world
    | .error .died s' => D s'.world
  cases hr : p s with
  | ok a s' =>
    rw [hr] at h
    simpa [EStateM.bind, hr] using hf a s' h
  | error e s' =>
    rw [hr] at h
    cases e with
    | err e => simpa [EStateM.bind, hr] using he e _ h
    | died => simpa [EStateM.bind, hr] using h

/-- A program whose error is a value. -/
theorem bindAttempt {M : Except ε α → σ → Prop} {f : Except ε α → Prog ε σ β} (hp : Ends P p M D)
    (hf : ∀ r, Ends (M r) (f r) R D) : Ends P (Lib.attempt p >>= f) R D := by
  refine bind (M := fun r w => ∃ r', r = .ok r' ∧ M r' w) ?_ ?_ ?_
  · intro s hs
    have h := hp s hs
    unfold Lib.attempt
    cases hr : p s with
    | ok a s' => rw [hr] at h; exact ⟨_, rfl, h⟩
    | error e s' =>
      rw [hr] at h
      cases e with
      | err e => exact ⟨_, rfl, h⟩
      | died => exact h
  · rintro r s ⟨r', heq, hr'⟩
    obtain rfl := Except.ok.inj heq
    exact hf r s hr'
  · rintro e w ⟨r', heq, -⟩
    cases heq

/-- A read names the world it reads. -/
theorem bindPeek {g : σ → α} (h : ∀ w₀, P w₀ → Ends (fun w => w = w₀) (f (g w₀)) R D) :
    Ends P (Lib.peek g >>= f) R D :=
  fun s hs => h s.world hs s rfl

theorem bindPoke {g : σ → σ} {f : Unit → Prog ε σ β} (hg : ∀ w, P w → S (g w))
    (h : Ends S (f ()) R D) : Ends P (Lib.poke g >>= f) R D :=
  fun s hs => h ⟨g s.world, s.fates⟩ (hg s.world hs)

/-- A pure computation that may fail names its result. -/
theorem bindLift {r : Except ε α} (he : ∀ e w, r = .error e → P w → R (.error e) w)
    (h : ∀ a, r = .ok a → Ends P (f a) R D) : Ends P (Lib.liftExcept r >>= f) R D := by
  cases r with
  | ok a => exact h a rfl
  | error e => exact fun s hs => he e s.world rfl hs

theorem bindEnsure {c : Bool} {e : ε} {f : Unit → Prog ε σ β}
    (he : ∀ w, c = false → P w → R (.error e) w) (h : c = true → Ends P (f ()) R D) :
    Ends P (Lib.ensure c e >>= f) R D := by
  cases c with
  | true => exact h rfl
  | false => exact fun s hs => he s.world rfl hs

/-- An action that is never refused. -/
theorem surely {g : σ → σ} {Q : Except ε Unit → σ → Prop} (hdie : ∀ w, P w → D w)
    (hrun : ∀ w, P w → Q (.ok ()) (g w)) : Ends P (Lib.surely g : Prog ε σ Unit) Q D := by
  intro s hs
  unfold Lib.surely
  rcases s.fates with _ | ⟨fate, rest⟩
  · exact hrun _ hs
  · cases fate with
    | die => exact hdie _ hs
    | run | refuse | lose => exact hrun _ hs

theorem bindSurely {g : σ → σ} {f : Unit → Prog ε σ β} (hdie : ∀ w, P w → D w)
    (hg : ∀ w, P w → S (g w)) (h : Ends S (f ()) R D) : Ends P (Lib.surely g >>= f) R D := by
  refine bind (M := fun r w => r = .ok () ∧ S w) ?_ (fun _ => ?_) ?_
  · exact surely hdie fun w hw => ⟨rfl, hg w hw⟩
  · exact fun s hs => h s hs.2
  · rintro e w ⟨heq, -⟩
    cases heq

end Ends

/-! ## Single runs -/

namespace Prog

variable {p : Prog ε σ α} {f : α → Prog ε σ β} {s s' : Sched σ} {a : α} {b : β}

/-- A run goes on from where its first part returned. -/
theorem bind_ok (h : p s = .ok a s') : (p >>= f) s = f a s' := by
  change EStateM.bind p f s = f a s'
  rw [EStateM.bind, h]

theorem bind_error {e : Stop ε} (h : p s = .error e s') : (p >>= f) s = .error e s' := by
  change EStateM.bind p f s = .error e s'
  rw [EStateM.bind, h]

theorem peek_ok {g : σ → α} (h : g s.world = a) : (Lib.peek g : Prog ε σ α) s = .ok a s := by
  change EStateM.Result.ok (g s.world) s = _
  rw [h]

/-- A run that returns went through a return of its first part. -/
theorem bind_eq_ok : (p >>= f) s = .ok b s' ↔ ∃ a t, p s = .ok a t ∧ f a t = .ok b s' := by
  cases h : p s with
  | ok a t =>
    rw [bind_ok h]
    simp only [EStateM.Result.ok.injEq]
    constructor
    · exact fun hf => ⟨a, t, ⟨rfl, rfl⟩, hf⟩
    · rintro ⟨_, _, ⟨rfl, rfl⟩, hf⟩
      exact hf
  | error e t => simp [bind_error h]

theorem ensure_eq_ok {c : Bool} {e : ε} {u : Unit} :
    (Lib.ensure c e : Prog ε σ Unit) s = .ok u s' ↔ c = true ∧ s' = s := by
  cases c <;> simp [Lib.ensure, Lib.fail, Pure.pure, EStateM.pure, eq_comm]

theorem attempt_congr {q : Prog ε σ α} (h : p s = q s') : Lib.attempt p s = Lib.attempt q s' := by
  unfold Lib.attempt
  rw [h]

theorem bind_congr {q : Prog ε σ α} (h : p s = q s') : (p >>= f) s = (q >>= f) s' := by
  change EStateM.bind p f s = EStateM.bind q f s'
  unfold EStateM.bind
  rw [h]

end Prog

end ChordV.Lib
