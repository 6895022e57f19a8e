import Mathlib.Tactic.Common

/-!
# Computations that may fail

What a fallible computation that succeeded says about its parts, for the bind and for
the three list traversals.

* `bind_eq_ok` takes a bind apart, and `require` is a guard.
* `filterM_eq_ok` and `filterM_of_ok` read a fallible filter as a plain one.
* `mapM_eq_ok` pairs each input with its output.
* `foldlM_induct` carries an invariant through a fold that succeeded, and `foldlM_rel` a
  relation between two folds.  `foldlM_map` is about two folds whose states a function relates.
-/

namespace ChordV.Lib.Fallible

variable {ε α β : Type}

@[simp] theorem ok_bind (a : α) (f : α → Except ε β) : (Except.ok a >>= f) = f a := rfl

@[simp] theorem error_bind (e : ε) (f : α → Except ε β) :
    ((Except.error e : Except ε α) >>= f) = .error e := rfl

@[simp] theorem pure_eq_ok (a : α) : (pure a : Except ε α) = .ok a := rfl

@[simp] theorem throw_eq_error (e : ε) : (throw e : Except ε α) = .error e := rfl

theorem bind_eq_ok {x : Except ε α} {f : α → Except ε β} {b : β} :
    (x >>= f) = .ok b ↔ ∃ a, x = .ok a ∧ f a = .ok b := by
  cases x with
  | error e => simp
  | ok a => simp

theorem map_eq_ok {x : Except ε α} {f : α → β} {b : β} :
    x.map f = .ok b ↔ ∃ a, x = .ok a ∧ f a = b := by
  cases x with
  | error e => simp [Except.map]
  | ok a => simp [Except.map]

theorem except_map_bind {γ : Type} {x : Except ε α} {f : α → Except ε β} {g : β → γ} :
    (x >>= f).map g = x >>= fun a => (f a).map g := by
  cases x <;> rfl

/-- Two computations go on alike from what the first part returned. -/
theorem bind_congr {x : Except ε α} {f g : α → Except ε β} (h : ∀ a, x = .ok a → f a = g a) :
    (x >>= f) = x >>= g := by
  cases x with
  | error e => rfl
  | ok a => exact h a rfl

/-- Stop with an error unless the condition holds. -/
def require (c : Prop) [Decidable c] (e : ε) : Except ε Unit := if c then .ok () else .error e

@[simp] theorem require_eq_ok {c : Prop} [Decidable c] {e : ε} {u : Unit} :
    require c e = .ok u ↔ c := by
  unfold require
  split <;> simp_all

/-- What comes after a check that holds. -/
theorem require_bind {c : Prop} [Decidable c] (h : c) (e : ε) (f : Unit → Except ε β) :
    (require c e >>= f) = f () := by
  rw [require, if_pos h, ok_bind]

/-- A loop of checks ends well exactly if each of them does. -/
theorem forM_eq_ok {check : α → Except ε Unit} {xs : List α} :
    xs.forM check = .ok () ↔ ∀ x ∈ xs, check x = .ok () := by
  induction xs with
  | nil => exact ⟨fun _ => by simp, fun _ => rfl⟩
  | cons x xs ih =>
    change (check x >>= fun _ => xs.forM check) = .ok () ↔ _
    rw [bind_eq_ok, List.forall_mem_cons, ← ih]
    exact ⟨fun ⟨_, hx, hxs⟩ => ⟨hx, hxs⟩, fun ⟨hx, hxs⟩ => ⟨(), hx, hxs⟩⟩

/-- The test succeeded and accepted. -/
def accepted (p : α → Except ε Bool) (a : α) : Bool :=
  match p a with
  | .ok b => b
  | .error _ => false

@[simp] theorem accepted_eq_true {p : α → Except ε Bool} {a : α} :
    accepted p a = true ↔ p a = .ok true := by
  unfold accepted
  cases p a <;> simp

private theorem filterAuxM_eq_ok {p : α → Except ε Bool} {xs acc ys : List α}
    (h : xs.filterAuxM p acc = .ok ys) : ys = (xs.filter (accepted p)).reverse ++ acc := by
  induction xs generalizing acc with
  | nil =>
    cases h
    rfl
  | cons x xs ih =>
    rw [List.filterAuxM, bind_eq_ok] at h
    obtain ⟨b, hb, h⟩ := h
    rw [ih h]
    cases b <;> simp [accepted, hb]

/-- A fallible filter that succeeds is the filter of the accepted elements. -/
theorem filterM_eq_ok {p : α → Except ε Bool} {xs ys : List α} (h : xs.filterM p = .ok ys) :
    ys = xs.filter (accepted p) := by
  rw [List.filterM, bind_eq_ok] at h
  obtain ⟨zs, hzs, h⟩ := h
  cases h
  simp [filterAuxM_eq_ok hzs]

private theorem filterAuxM_of_ok {p : α → Except ε Bool} {q : α → Bool} {xs acc : List α}
    (h : ∀ x ∈ xs, p x = .ok (q x)) :
    xs.filterAuxM p acc = .ok ((xs.filter q).reverse ++ acc) := by
  induction xs generalizing acc with
  | nil => rfl
  | cons x xs ih =>
    rw [List.filterAuxM, h x List.mem_cons_self, ok_bind,
      ih fun y hy => h y (List.mem_cons_of_mem _ hy)]
    cases hq : q x <;> simp [hq]

theorem filterM_of_ok {p : α → Except ε Bool} {q : α → Bool} {xs : List α}
    (h : ∀ x ∈ xs, p x = .ok (q x)) : xs.filterM p = .ok (xs.filter q) := by
  rw [List.filterM, filterAuxM_of_ok h]
  simp

/-- A fallible filter that succeeds has tested every element. -/
theorem filterM_tested {p : α → Except ε Bool} {xs ys : List α} (h : xs.filterM p = .ok ys) {x : α}
    (hx : x ∈ xs) : ∃ b, p x = .ok b := by
  have haux : ∀ (xs acc ys : List α), xs.filterAuxM p acc = .ok ys →
      ∀ x ∈ xs, ∃ b, p x = .ok b := by
    intro xs
    induction xs with
    | nil => exact fun _ _ _ x hx => by cases hx
    | cons y xs ih =>
      intro acc ys h x hx
      rw [List.filterAuxM, bind_eq_ok] at h
      obtain ⟨b, hb, h⟩ := h
      rcases List.mem_cons.1 hx with rfl | hx
      · exact ⟨b, hb⟩
      · exact ih _ ys h x hx
  rw [List.filterM, bind_eq_ok] at h
  obtain ⟨zs, hzs, -⟩ := h
  exact haux xs [] zs hzs x hx

/-- A traversal that succeeds pairs each input with its output. -/
theorem mapM_eq_ok {f : α → Except ε β} {xs : List α} {ys : List β} (h : xs.mapM f = .ok ys) :
    List.Forall₂ (fun x y => f x = .ok y) xs ys := by
  induction xs generalizing ys with
  | nil =>
    cases h
    exact .nil
  | cons x xs ih =>
    rw [List.mapM_cons, bind_eq_ok] at h
    obtain ⟨y, hy, h⟩ := h
    obtain ⟨zs, hzs, h⟩ := bind_eq_ok.1 h
    cases h
    exact .cons hy (ih hzs)

/-- Every output of a traversal has an input. -/
theorem mem_of_mapM_eq_ok {f : α → Except ε β} {xs : List α} {ys : List β}
    (h : xs.mapM f = .ok ys) {y : β} (hy : y ∈ ys) : ∃ x ∈ xs, f x = .ok y := by
  have hpairs := mapM_eq_ok h
  clear h
  induction hpairs with
  | nil => cases hy
  | cons hhead _ ih =>
    rcases List.mem_cons.1 hy with rfl | hy
    · exact ⟨_, List.mem_cons_self, hhead⟩
    · obtain ⟨x, hx, hf⟩ := ih hy
      exact ⟨x, List.mem_cons_of_mem _ hx, hf⟩

theorem mapM_tested {f : α → Except ε β} {xs : List α} {ys : List β} (h : xs.mapM f = .ok ys)
    {x : α} (hx : x ∈ xs) : ∃ y, f x = .ok y := by
  have hpairs := mapM_eq_ok h
  clear h
  induction hpairs with
  | nil => cases hx
  | cons hhead _ ih =>
    rcases List.mem_cons.1 hx with rfl | hx
    · exact ⟨_, hhead⟩
    · exact ih hx

/-- A traversal of inputs that all succeed. -/
theorem mapM_of_ok {f : α → Except ε β} {g : α → β} {xs : List α} (h : ∀ x ∈ xs, f x = .ok (g x)) :
    xs.mapM f = .ok (xs.map g) := by
  induction xs with
  | nil => rfl
  | cons x xs ih =>
    rw [List.mapM_cons, h x List.mem_cons_self, ok_bind,
      ih fun y hy => h y (List.mem_cons_of_mem _ hy)]
    rfl

/-- An invariant of every successful step is an invariant of a successful fold. -/
theorem foldlM_induct {f : β → α → Except ε β} {I : β → Prop} {xs : List α} {b b' : β}
    (hstep : ∀ c x c', x ∈ xs → I c → f c x = .ok c' → I c') (hb : I b)
    (h : xs.foldlM f b = .ok b') : I b' := by
  induction xs generalizing b with
  | nil =>
    cases h
    exact hb
  | cons x xs ih =>
    rw [List.foldlM_cons, bind_eq_ok] at h
    obtain ⟨c, hc, h⟩ := h
    exact ih (fun c x c' hx => hstep c x c' (List.mem_cons_of_mem _ hx))
      (hstep b x c List.mem_cons_self hb hc) h

/-- A relation between two states that every step keeps is kept by a fold that succeeded, and
the other fold succeeds too. -/
theorem foldlM_rel {γ : Type} {f : β → α → Except ε β} {g : γ → α → Except ε γ} {R : β → γ → Prop}
    {xs : List α} {b b' : β} {c : γ}
    (hstep : ∀ b x c b', R b c → f b x = .ok b' → ∃ c', g c x = .ok c' ∧ R b' c') (hR : R b c)
    (h : xs.foldlM f b = .ok b') : ∃ c', xs.foldlM g c = .ok c' ∧ R b' c' := by
  induction xs generalizing b c with
  | nil =>
    cases h
    exact ⟨c, rfl, hR⟩
  | cons x xs ih =>
    rw [List.foldlM_cons, bind_eq_ok] at h
    obtain ⟨b₁, hb₁, h⟩ := h
    obtain ⟨c₁, hc₁, hR₁⟩ := hstep b x c b₁ hR hb₁
    obtain ⟨c', hc', hR'⟩ := ih hR₁ h
    refine ⟨c', ?_, hR'⟩
    rw [List.foldlM_cons, hc₁]
    exact hc'

/-- A fold through a function of the state. -/
theorem foldlM_map {γ : Type} {f : β → α → Except ε β} {g : γ → α → Except ε γ} {m : β → γ}
    (hstep : ∀ b x, g (m b) x = (f b x).map m) (xs : List α) (b : β) :
    xs.foldlM g (m b) = (xs.foldlM f b).map m := by
  induction xs generalizing b with
  | nil => rfl
  | cons x xs ih =>
    rw [List.foldlM_cons, List.foldlM_cons, hstep, except_map_bind]
    cases f b x with
    | error e => rfl
    | ok b' => exact ih b'

end ChordV.Lib.Fallible
