import Mathlib.Data.List.AList

/-!
# Keyed tables

A table of a database with a primary key, as a Mathlib `AList` whose value type does
not depend on the key.  This file adds the three things the association list does
not have: the rows as a list of pairs, the update of one row or of several in place,
and the removal of several rows.  Each comes with the lemma that says what a lookup reads
afterwards, and so do a sequence of insertions and a sequence of updates.
-/

namespace ChordV.Lib

/-- A table with primary key `κ` and rows `α`. -/
abbrev Table (κ α : Type) := AList (fun _ : κ => α)

namespace Table

variable {κ α : Type} [DecidableEq κ]

/-- The rows with their keys. -/
def pairs (t : Table κ α) : List (κ × α) := t.entries.map fun e => (e.1, e.2)

theorem mem_pairs {t : Table κ α} {k : κ} {a : α} :
    (k, a) ∈ t.pairs ↔ t.lookup k = some a := by
  rw [← Option.mem_def, AList.mem_lookup_iff]
  constructor
  · intro h
    obtain ⟨e, he, heq⟩ := List.mem_map.1 h
    obtain ⟨k', a'⟩ := e
    simp only [Prod.mk.injEq] at heq
    obtain ⟨rfl, rfl⟩ := heq
    exact he
  · intro h
    exact List.mem_map.2 ⟨_, h, rfl⟩

omit [DecidableEq κ] in
theorem nodup_keys (t : Table κ α) : (t.pairs.map Prod.fst).Nodup := by
  have h := t.nodupKeys
  rw [List.NodupKeys] at h
  have heq : t.pairs.map Prod.fst = t.entries.keys := by
    simp [pairs, List.keys, Function.comp_def]
  rw [heq]
  exact h

theorem lookup_erase_ite (t : Table κ α) (k k' : κ) :
    (t.erase k).lookup k' = if k' = k then none else t.lookup k' := by
  split
  · next h => rw [h, AList.lookup_erase]
  · next h => exact AList.lookup_erase_ne h

theorem lookup_insert_ite (t : Table κ α) (k k' : κ) (a : α) :
    (t.insert k a).lookup k' = if k' = k then some a else t.lookup k' := by
  split
  · next h => rw [h, AList.lookup_insert]
  · next h => exact AList.lookup_insert_ne h

/-- A row that an erasure leaves was there before. -/
theorem lookup_of_erase {t : Table κ α} {k k' : κ} {a : α}
    (h : (t.erase k).lookup k' = some a) : t.lookup k' = some a := by
  rw [lookup_erase_ite] at h
  split at h
  · cases h
  · exact h

/-- A row after an insertion is the new one, or was there before. -/
theorem lookup_of_insert {t : Table κ α} {k k' : κ} {a b : α}
    (h : (t.insert k a).lookup k' = some b) : k' = k ∧ a = b ∨ t.lookup k' = some b := by
  rw [lookup_insert_ite] at h
  split at h
  · next hk => exact .inl ⟨hk, Option.some.inj h⟩
  · exact .inr h

/-- Update the row of `k`, if there is one. -/
def modify (t : Table κ α) (k : κ) (f : α → α) : Table κ α :=
  match t.lookup k with
  | some a => t.insert k (f a)
  | none => t

theorem lookup_modify (t : Table κ α) (k k' : κ) (f : α → α) :
    (t.modify k f).lookup k' = if k' = k then (t.lookup k).map f else t.lookup k' := by
  by_cases hk : k' = k
  · subst hk
    cases h : t.lookup k' with
    | none => simp [modify, h]
    | some a => simp [modify, h]
  · cases h : t.lookup k with
    | none => simp [modify, h, hk]
    | some a => simp [modify, h, hk, AList.lookup_insert_ne hk]

@[simp] theorem lookup_modify_self (t : Table κ α) (k : κ) (f : α → α) :
    (t.modify k f).lookup k = (t.lookup k).map f := by
  rw [lookup_modify, if_pos rfl]

theorem lookup_modify_ne (t : Table κ α) {k k' : κ} (f : α → α) (h : k' ≠ k) :
    (t.modify k f).lookup k' = t.lookup k' := by
  rw [lookup_modify, if_neg h]

/-- Several rows are written one after the other.  All that go to `k` are the same. -/
theorem lookup_foldl_insert {β : Type} {f : β → κ} {g : β → α} {k : κ} {a : α} :
    ∀ (xs : List β) (t : Table κ α), (∀ x ∈ xs, f x = k → g x = a) →
      (xs.foldl (fun t x => t.insert (f x) (g x)) t).lookup k =
        if ∃ x ∈ xs, f x = k then some a else t.lookup k
  | [], t, _ => by simp
  | x :: xs, t, h => by
    rw [List.foldl_cons, lookup_foldl_insert xs _ fun y hy => h y (List.mem_cons_of_mem _ hy),
      lookup_insert_ite]
    by_cases hxs : ∃ y ∈ xs, f y = k
    · rw [if_pos hxs, if_pos (hxs.imp fun y hy => ⟨List.mem_cons_of_mem _ hy.1, hy.2⟩)]
    · rw [if_neg hxs]
      by_cases hx : f x = k
      · rw [if_pos hx.symm, if_pos ⟨x, List.mem_cons_self, hx⟩, h x List.mem_cons_self hx]
      · rw [if_neg (Ne.symm hx), if_neg]
        rintro ⟨y, hy, hfy⟩
        rcases List.mem_cons.1 hy with rfl | hy
        · exact hx hfy
        · exact hxs ⟨y, hy, hfy⟩

/-- Several rows are updated one after the other.  All updates of `k` do the same, and doing
it twice is doing it once. -/
theorem lookup_foldl_modify {β : Type} {f : β → κ} {g : β → α → α} {k : κ} {u : α → α}
    (hu : ∀ a, u (u a) = u a) :
    ∀ (xs : List β) (t : Table κ α), (∀ x ∈ xs, f x = k → g x = u) →
      (xs.foldl (fun t x => t.modify (f x) (g x)) t).lookup k =
        if ∃ x ∈ xs, f x = k then (t.lookup k).map u else t.lookup k
  | [], t, _ => by simp
  | x :: xs, t, h => by
    rw [List.foldl_cons, lookup_foldl_modify hu xs _ fun y hy => h y (List.mem_cons_of_mem _ hy),
      lookup_modify]
    by_cases hx : f x = k
    · have hall : ∃ y ∈ x :: xs, f y = k := ⟨x, List.mem_cons_self, hx⟩
      rw [if_pos hx.symm, h x List.mem_cons_self hx, if_pos hall, hx]
      split
      · rw [Option.map_map]
        exact congrArg (fun v => (t.lookup k).map v) (funext hu)
      · rfl
    · rw [if_neg (Ne.symm hx)]
      have hiff : (∃ y ∈ x :: xs, f y = k) ↔ ∃ y ∈ xs, f y = k := by simp [hx]
      simp only [hiff]

/-- Update all rows that meet a condition. -/
def updateWhere (t : Table κ α) (p : κ → α → Bool) (f : α → α) : Table κ α where
  entries := t.entries.map (Sigma.map id fun k a => if p k a then f a else a)
  nodupKeys := by
    have h := t.nodupKeys
    rw [List.NodupKeys] at h ⊢
    simpa [List.keys, Function.comp_def, Sigma.map] using h

theorem lookup_updateWhere (t : Table κ α) (p : κ → α → Bool) (f : α → α) (k : κ) :
    (t.updateWhere p f).lookup k = (t.lookup k).map fun a => if p k a then f a else a :=
  List.dlookup_map₂ k

omit [DecidableEq κ] in
/-- The table with every row replaced by another. -/
def mapRows {β : Type} (t : Table κ α) (f : κ → α → β) : Table κ β where
  entries := t.entries.map (Sigma.map id f)
  nodupKeys := by
    have h := t.nodupKeys
    rw [List.NodupKeys] at h ⊢
    simpa [List.keys, Function.comp_def, Sigma.map] using h

theorem lookup_mapRows {β : Type} (t : Table κ α) (f : κ → α → β) (k : κ) :
    (t.mapRows f).lookup k = (t.lookup k).map (f k) :=
  List.dlookup_map₂ k

omit [DecidableEq κ] in
theorem pairs_mapRows {β : Type} (t : Table κ α) (f : κ → α → β) :
    (t.mapRows f).pairs = t.pairs.map fun p => (p.1, f p.1 p.2) := by
  simp [pairs, mapRows, Sigma.map, Function.comp_def]

theorem mapRows_insert {β : Type} (t : Table κ α) (f : κ → α → β) (k : κ) (a : α) :
    mapRows (t.insert k a) f = (t.mapRows f).insert k (f k a) := by
  let g : (Sigma fun _ : κ => α) → Sigma fun _ : κ => β := Sigma.map id f
  have herase : ∀ entries : List (Sigma fun _ : κ => α),
      (entries.kerase k).map g = (entries.map g).kerase k := by
    intro entries
    induction entries with
    | nil => rfl
    | cons e entries ih =>
      by_cases hk : k = e.1
      · subst hk
        simp [g, Sigma.map]
      · rw [List.kerase_cons_ne hk, List.map_cons, List.map_cons, List.kerase_cons_ne (s := g e) hk,
          ih]
  ext1
  change (⟨k, a⟩ :: t.entries.kerase k).map g = _
  rw [List.map_cons, herase]
  rfl

theorem mapRows_modify {β : Type} (t : Table κ α) (f : κ → α → β) {k : κ} {g : α → α} {g' : β → β}
    (hg : ∀ a, t.lookup k = some a → f k (g a) = g' (f k a)) :
    (t.modify k g).mapRows f = (t.mapRows f).modify k g' := by
  unfold modify
  rw [lookup_mapRows]
  cases h : t.lookup k with
  | none => rfl
  | some a => exact (mapRows_insert t f k (g a)).trans (by rw [hg a h]; rfl)

/-- Remove the rows of all the given keys. -/
def eraseAll (t : Table κ α) (ks : List κ) : Table κ α := ks.foldl (fun t k => t.erase k) t

theorem lookup_eraseAll (t : Table κ α) (ks : List κ) (k : κ) :
    (t.eraseAll ks).lookup k = if k ∈ ks then none else t.lookup k := by
  induction ks generalizing t with
  | nil => simp [eraseAll]
  | cons x xs ih =>
    change (eraseAll (t.erase x) xs).lookup k = _
    rw [ih, lookup_erase_ite]
    by_cases hx : k = x <;> by_cases hxs : k ∈ xs <;> simp [hx, hxs]

end Table

end ChordV.Lib
