import Mathlib.Data.List.Nodup
import Mathlib.Data.List.Infix
import Mathlib.Data.List.TakeWhile
import Mathlib.Tactic.Common

/-!
# A log that keeps its last entries

A log keeps at most `cap` entries, and a reader asks for what follows the last key it has.

* `push` appends an entry and drops the oldest ones, and `keepLast` is what remains of a whole log.
* `resume` is what a reader gets: the entries after its key, or all of them if the log does not have
  the key.
* `since` counts the entries after a key.
* `resume_keepLast`: with one entry for each key, a reader that is at most `cap` entries behind gets
  exactly what it misses.

Nothing here is about a particular log.
-/

namespace ChordV.Lib.ReplayLog

variable {α κ : Type} [DecidableEq κ] (cap : Nat) (key : α → κ)

/-- What is kept of a log. -/
def keepLast (log : List α) : List α := log.drop (log.length - cap)

/-- One more entry, and the oldest ones dropped. -/
def push (kept : List α) (a : α) : List α := keepLast cap (kept ++ [a])

/-- What follows the first entry with the key. -/
def resume (k : κ) (kept : List α) : List α :=
  match kept.findIdx? fun a => key a = k with
  | some index => kept.drop (index + 1)
  | none => kept

/-- The number of entries after the last one with the key. -/
def since (k : κ) (log : List α) : Nat := (log.reverse.takeWhile fun a => key a ≠ k).length

variable {cap key}

theorem keepLast_suffix (log : List α) : keepLast cap log <:+ log := List.drop_suffix _ _

theorem keepLast_of_le {log : List α} (h : log.length ≤ cap) : keepLast cap log = log := by
  rw [keepLast, Nat.sub_eq_zero_of_le h, List.drop_zero]

/-- The kept part of a log keeps a short end of it. -/
theorem keepLast_append {before after : List α} (h : after.length ≤ cap) :
    keepLast cap (before ++ after) = keepLast (cap - after.length) before ++ after := by
  rw [keepLast, keepLast, List.length_append, List.drop_append]
  congr 1
  · congr 1
    omega
  · rw [show before.length + after.length - cap - before.length = 0 by omega, List.drop_zero]

/-- Pushing keeps the last entries of the whole log. -/
theorem push_keepLast (log : List α) (a : α) :
    push cap (keepLast cap log) a = keepLast cap (log ++ [a]) := by
  cases cap with
  | zero => simp [push, keepLast]
  | succ cap =>
    rw [push, keepLast_append (by simp), keepLast_append (by simp)]
    congr 1
    rw [keepLast, keepLast, keepLast, List.drop_drop, List.length_drop]
    congr 1
    simp only [List.length_singleton]
    omega

theorem resume_of_not_mem {k : κ} {kept : List α} (h : k ∉ kept.map key) :
    resume key k kept = kept := by
  have hnone : kept.findIdx? (fun a => key a = k) = none := by
    rw [List.findIdx?_eq_none_iff]
    intro a ha
    rw [decide_eq_false_iff_not]
    rintro rfl
    exact h (List.mem_map_of_mem ha)
  rw [resume, hnone]

theorem resume_suffix (k : κ) (kept : List α) : resume key k kept <:+ kept := by
  unfold resume
  split
  · exact List.drop_suffix _ _
  · exact List.suffix_refl _

theorem resume_append {before after : List α} {a : α} (h : key a ∉ before.map key) :
    resume key (key a) (before ++ a :: after) = after := by
  have hsome : (before ++ a :: after).findIdx? (fun b => key b = key a) = some before.length := by
    rw [List.findIdx?_append, List.findIdx?_eq_none_iff.2, List.findIdx?_cons]
    · simp
    · intro b hb
      rw [decide_eq_false_iff_not]
      intro heq
      exact h (heq ▸ List.mem_map_of_mem hb)
  rw [resume, hsome]
  dsimp only
  rw [← List.drop_drop, List.drop_left]
  rfl

/-- A reader that is not too far behind gets exactly what it misses. -/
theorem resume_keepLast {before after : List α} {a : α}
    (hnodup : ((before ++ a :: after).map key).Nodup) (hcap : after.length ≤ cap) :
    resume key (key a) (keepLast cap (before ++ a :: after)) = after := by
  rw [List.map_append, List.map_cons, List.nodup_append] at hnodup
  obtain ⟨-, hafter, hdisjoint⟩ := hnodup
  by_cases hlt : after.length < cap
  · rw [keepLast_append (by rw [List.length_cons]; omega), resume_append]
    intro hmem
    obtain ⟨b, hb, heq⟩ := List.mem_map.1 hmem
    exact hdisjoint _ (List.mem_map_of_mem ((keepLast_suffix before).mem hb)) _
      List.mem_cons_self heq
  · rw [List.append_cons, keepLast_append hcap, show cap - after.length = 0 by omega]
    rw [keepLast, Nat.sub_zero, List.drop_length, List.nil_append]
    exact resume_of_not_mem (List.nodup_cons.1 hafter).1

theorem since_append {before after : List α} {a : α} (h : key a ∉ after.map key) :
    since key (key a) (before ++ a :: after) = after.length := by
  have hall : ∀ b ∈ after.reverse, decide (key b ≠ key a) = true := by
    intro b hb
    rw [decide_eq_true_iff]
    intro heq
    exact h (heq ▸ List.mem_map_of_mem (List.mem_reverse.1 hb))
  rw [since, List.reverse_append, List.reverse_cons, List.append_assoc,
    List.takeWhile_append_of_pos hall]
  simp

theorem since_of_not_mem {k : κ} {log : List α} (h : k ∉ log.map key) :
    since key k log = log.length := by
  have hall : ∀ b ∈ log.reverse, decide (key b ≠ k) = true := by
    intro b hb
    rw [decide_eq_true_iff]
    rintro rfl
    exact h (List.mem_map_of_mem (List.mem_reverse.1 hb))
  rw [since, List.takeWhile_eq_self_iff.2 hall, List.length_reverse]

end ChordV.Lib.ReplayLog
