import Mathlib.Data.List.Induction
import ChordV.Agent.Rows

/-!
# Metering in the Node agent

`recordSample` of `apps/node-agent/src/store.ts`.  The Go agent may be rolled back to the Node agent
on the same data directory, so the two stores have the same tables, and the model of the Go store
serves both.  The Node agent sends a sample for every user it reads, and the Go agent leaves out the
ones that repeat what the control plane has.

* `recordCounter_eq`: the two agents fold a reading into a row alike.
* `recordSample_level`: after a call the rows are the same, and so are the users to disable.
* `passed_foldl`: the Go agent sends the samples of the Node agent that are not idle.
-/

namespace ChordV.NodeAgent

open Lib Agent Agent.Store

/-! ## The transaction -/

/-- One counter of `recordSample`: the new columns, the sample, and whether the user is disabled. -/
def recordCounter (bindingId : String) (row : UserRow) (counter : AbsoluteCounter)
    (backendOnline : Bool) : UserRow × UsageSample × Bool :=
  let initialized := row.counterInitialized
  let rolledBack := initialized &&
    (decide (counter.uplinkBytes < row.uplink) || decide (counter.downlinkBytes < row.downlink))
  let generation := row.generation + if rolledBack then 1 else 0
  let deltaUp := if !initialized then 0
    else if rolledBack then counter.uplinkBytes else counter.uplinkBytes - row.uplink
  let deltaDown := if !initialized then 0
    else if rolledBack then counter.downlinkBytes else counter.downlinkBytes - row.downlink
  let delta := deltaUp + deltaDown
  let quota := row.quotaRemaining
  let nextQuota := if quota > delta then quota - delta else 0
  let nextOffline := if backendOnline then 0 else row.offlineUsed + delta
  let shouldDisable :=
    decide (nextQuota = 0) || (!backendOnline && decide (nextOffline ≥ row.offlineAllowance))
  ({ row with
      generation, counterInitialized := true
      uplink := counter.uplinkBytes, downlink := counter.downlinkBytes
      quotaRemaining := nextQuota, offlineUsed := nextOffline, enabled := !shouldDisable },
    { bindingId, counterGeneration := generation
      uplinkBytes := counter.uplinkBytes, downlinkBytes := counter.downlinkBytes
      uplinkDeltaBytes := deltaUp, downlinkDeltaBytes := deltaDown },
    shouldDisable)

/-- One round of the loop: every user that is read gets a sample. -/
def recordOne (backendOnline : Bool) (t : Tick) (counter : AbsoluteCounter) : Tick :=
  match t.store.userByEmail counter.email with
  | none => t
  | some (bindingId, row) =>
    if !row.enabled then t
    else
      let (row', sample, shouldDisable) := recordCounter bindingId row counter backendOnline
      { store := { t.store with rows := t.store.rows.insert bindingId row' }
        samples := t.samples ++ [sample]
        disable := if shouldDisable then t.disable ++ [counter.email] else t.disable }

/-- `recordSample`: the batch, the users to disable, and the new store. -/
def recordSample (counters : List AbsoluteCounter) (sampledAt : Nat) (backendOnline : Bool)
    (s : Store) : (Option UsageBatch × List String) × Store :=
  let tick := counters.foldl (recordOne backendOnline) { store := s }
  let (batch, s) := cutBatch tick.samples sampledAt tick.store
  ((batch, tick.disable), s)

/-! ## The two agents -/

theorem recordCounter_eq (bindingId : String) (row : UserRow) (counter : AbsoluteCounter)
    (online : Bool) : recordCounter bindingId row counter online =
      ((foldCounter bindingId row counter online).row,
        (foldCounter bindingId row counter online).sample,
        (foldCounter bindingId row counter online).shouldDisable) := by
  have hquota : ∀ quota delta : Nat,
      (if quota > delta then quota - delta else 0) = quota - delta := by
    intro quota delta
    split <;> omega
  have hgeneration : ∀ rolled : Bool, (row.generation + if rolled = true then 1 else 0) =
      if rolled = true then row.generation + 1 else row.generation := by
    intro rolled
    cases rolled <;> rfl
  unfold recordCounter foldCounter counterDelta rolledBack
  simp only [hquota, hgeneration, Bool.decide_or, ge_iff_le]
  cases row.counterInitialized with
  | false => rfl
  | true =>
    simp only [Bool.not_true, Bool.false_eq_true, if_false, Bool.true_and]
    split <;> rfl

/-- Two passes over the same rows that have disabled the same users. -/
structure Level (t t' : Tick) : Prop where
  rows : t'.store.rows = t.store.rows
  disable : t'.disable = t.disable

theorem userByEmail_congr {s s' : Store} (h : s'.rows = s.rows) (email : String) :
    s'.userByEmail email = s.userByEmail email := by
  unfold userByEmail
  rw [h]

theorem Level.step {t t' : Tick} (h : Level t t') (online : Bool) (counter : AbsoluteCounter) :
    Level (foldOne online t counter) (recordOne online t' counter) := by
  unfold foldOne recordOne
  rw [userByEmail_congr h.rows]
  cases t.store.userByEmail counter.email with
  | none => exact h
  | some found =>
    obtain ⟨bindingId, row⟩ := found
    simp only [recordCounter_eq]
    split
    · exact h
    · exact ⟨by simp only [h.rows], by simp only [h.disable]⟩

theorem Level.foldl {t t' : Tick} (h : Level t t') (online : Bool)
    (counters : List AbsoluteCounter) :
    Level (counters.foldl (foldOne online) t) (counters.foldl (recordOne online) t') := by
  induction counters generalizing t t' with
  | nil => exact h
  | cons counter counters ih => exact ih (h.step online counter)

theorem cutBatch_rows (samples : List UsageSample) (sampledAt : Nat) (s : Store) :
    (cutBatch samples sampledAt s).2.rows = s.rows := by
  unfold cutBatch
  split <;> rfl

/-- After a call the two agents have the same rows, and they disable the same users. -/
theorem recordSample_level {s s' : Store} (h : s'.rows = s.rows) (counters : List AbsoluteCounter)
    (sampledAt : Nat) (online : Bool) :
    (recordSample counters sampledAt online s').2.rows =
        (s.recordSample counters sampledAt online).2.rows ∧
      (recordSample counters sampledAt online s').1.2 =
        (s.recordSample counters sampledAt online).1.2 := by
  have hstart : Level { store := s } { store := s' } := ⟨h, rfl⟩
  have hlevel := hstart.foldl online counters
  refine ⟨?_, hlevel.disable⟩
  unfold recordSample Store.recordSample
  simp only [cutBatch_rows]
  exact hlevel.rows

/-! ## The samples of a call -/

/-- A sample that repeats the counters of a row. -/
def repeats (sample : UsageSample) (row : UserRow) : Bool :=
  row.counterInitialized && decide (sample.counterGeneration = row.generation) &&
    decide (sample.uplinkBytes = row.uplink ∧ sample.downlinkBytes = row.downlink)

/-- A sample of a user that did not move. -/
def idle (rows : Table String UserRow) (sample : UsageSample) : Bool :=
  (rows.lookup sample.bindingId).any (repeats sample)

/-- The Go agent leaves out what repeats the row. -/
theorem emit_eq (bindingId : String) (row : UserRow) (counter : AbsoluteCounter) (online : Bool) :
    (foldCounter bindingId row counter online).emit =
      !repeats (foldCounter bindingId row counter online).sample row := by
  unfold foldCounter counterDelta repeats rolledBack
  cases row.counterInitialized with
  | false => rfl
  | true =>
    by_cases hback : counter.uplinkBytes < row.uplink ∨ counter.downlinkBytes < row.downlink
    · simp [hback]
    · simp only [hback, decide_false, Bool.and_false, Bool.false_eq_true, if_false, Bool.not_true,
        Bool.or_false, Bool.false_or, Bool.true_and, decide_true]
      rw [← decide_not, decide_eq_decide]
      omega

/-- What a pass over some counters has read and written.  `rows` are the rows before it. -/
structure Passed (rows : Table String UserRow) (counters : List AbsoluteCounter) (t : Tick) :
    Prop where
  bindingIds : (t.samples.map (·.bindingId)).Nodup
  read : ∀ sample ∈ t.samples, ∃ row row', ∃ counter ∈ counters,
    rows.lookup sample.bindingId = some row ∧ row.address = .real counter.email ∧
      row.enabled = true ∧ t.store.rows.lookup sample.bindingId = some row' ∧
      row'.address = row.address ∧ repeats sample row' = true
  other : ∀ b, (∀ sample ∈ t.samples, sample.bindingId ≠ b) →
    t.store.rows.lookup b = rows.lookup b

theorem repeats_sample (bindingId : String) (row : UserRow) (counter : AbsoluteCounter)
    (online : Bool) : repeats (foldCounter bindingId row counter online).sample
      (foldCounter bindingId row counter online).row = true := by
  simp [repeats, foldCounter]

/-- The addresses of a call differ, so a counter reads a row that the pass has not written. -/
theorem Passed.fresh {rows : Table String UserRow} {counters : List AbsoluteCounter} {t : Tick}
    (h : Passed rows counters t) {counter : AbsoluteCounter}
    (hfresh : ∀ c ∈ counters, c.email ≠ counter.email) {b : String} {row : UserRow}
    (hfound : t.store.userByEmail counter.email = some (b, row)) :
    (∀ sample ∈ t.samples, sample.bindingId ≠ b) ∧ rows.lookup b = some row ∧
      row.address = .real counter.email := by
  obtain ⟨hlookup, haddress⟩ := lookup_of_userByEmail hfound
  have hnew : ∀ sample ∈ t.samples, sample.bindingId ≠ b := by
    rintro sample hsample rfl
    obtain ⟨row₀, row', c, hc, -, hreal, -, hrow', hsame, -⟩ := h.read sample hsample
    rw [hlookup] at hrow'
    cases hrow'
    rw [haddress, hreal] at hsame
    exact hfresh c hc (by injection hsame with hemail; exact hemail.symm)
  exact ⟨hnew, by rw [← h.other b hnew, hlookup], haddress⟩

theorem Passed.step {rows : Table String UserRow} {counters : List AbsoluteCounter} {t : Tick}
    (h : Passed rows counters t) {counter : AbsoluteCounter}
    (hfresh : ∀ c ∈ counters, c.email ≠ counter.email) (online : Bool) :
    Passed rows (counters ++ [counter]) (recordOne online t counter) := by
  have hkeep : Passed rows (counters ++ [counter]) t :=
    ⟨h.bindingIds, fun sample hsample => by
      obtain ⟨row, row', c, hc, hrest⟩ := h.read sample hsample
      exact ⟨row, row', c, List.mem_append_left _ hc, hrest⟩, h.other⟩
  unfold recordOne
  cases hfound : t.store.userByEmail counter.email with
  | none => exact hkeep
  | some found =>
    obtain ⟨b, row⟩ := found
    obtain ⟨hnew, hrow, haddress⟩ := h.fresh hfresh hfound
    simp only [recordCounter_eq]
    split
    · exact hkeep
    next henabled =>
    have hid : (foldCounter b row counter online).sample.bindingId = b := rfl
    refine ⟨?_, fun sample hsample => ?_, fun b' hb' => ?_⟩
    · rw [List.map_append, List.map_singleton, hid]
      refine h.bindingIds.append (List.nodup_singleton b) ?_
      simp only [List.disjoint_singleton, List.mem_map, not_exists, not_and]
      exact hnew
    · obtain hsample | hsample := List.mem_append.1 hsample
      · obtain ⟨row₀, row', c, hc, hread, hreal, hon, hrow', hrest⟩ := h.read sample hsample
        refine ⟨row₀, row', c, List.mem_append_left _ hc, hread, hreal, hon, ?_, hrest⟩
        rw [AList.lookup_insert_ne (hnew sample hsample), hrow']
      · obtain rfl := List.mem_singleton.1 hsample
        exact ⟨row, _, counter, List.mem_append_right _ (List.mem_singleton_self _), hrow, haddress,
          by simpa using henabled, AList.lookup_insert _, rfl, repeats_sample ..⟩
    · have hne : b' ≠ b := by
        rintro rfl
        exact hb' _ (List.mem_append_right _ (List.mem_singleton_self _)) hid
      rw [AList.lookup_insert_ne hne]
      exact h.other b' fun sample hsample => hb' sample (List.mem_append_left _ hsample)

/-- The Go agent sends the samples of the Node agent that are not idle. -/
theorem Passed.samples {rows : Table String UserRow} {counters : List AbsoluteCounter} {t t' : Tick}
    (h : Passed rows counters t') {counter : AbsoluteCounter}
    (hfresh : ∀ c ∈ counters, c.email ≠ counter.email) (hlevel : Level t t')
    (hsamples : t.samples = t'.samples.filter fun sample => !idle rows sample) (online : Bool) :
    (foldOne online t counter).samples =
      (recordOne online t' counter).samples.filter fun sample => !idle rows sample := by
  unfold foldOne recordOne
  rw [← userByEmail_congr hlevel.rows]
  cases hfound : t'.store.userByEmail counter.email with
  | none => exact hsamples
  | some found =>
    obtain ⟨b, row⟩ := found
    obtain ⟨-, hrow, -⟩ := h.fresh hfresh hfound
    simp only [recordCounter_eq]
    split
    · exact hsamples
    have hidle : idle rows (foldCounter b row counter online).sample =
        repeats (foldCounter b row counter online).sample row := by
      unfold idle
      rw [show (foldCounter b row counter online).sample.bindingId = b from rfl, hrow,
        Option.any_some]
    rw [List.filter_append, ← hsamples, List.filter_singleton, hidle, emit_eq]
    cases repeats (foldCounter b row counter online).sample row <;> simp

theorem passed_foldl (s : Store) {s' : Store} (hrows : s'.rows = s.rows)
    {counters : List AbsoluteCounter} (hemails : (counters.map (·.email)).Nodup) (online : Bool) :
    Passed s.rows counters (counters.foldl (recordOne online) { store := s' }) ∧
      (counters.foldl (foldOne online) { store := s }).samples =
        (counters.foldl (recordOne online) { store := s' }).samples.filter
          fun sample => !idle s.rows sample := by
  induction counters using List.reverseRecOn with
  | nil => exact ⟨⟨List.nodup_nil, nofun, fun _ _ => by rw [← hrows]; rfl⟩, rfl⟩
  | append_singleton counters counter ih =>
    rw [List.map_append, List.nodup_append] at hemails
    obtain ⟨hearlier, -, hdisjoint⟩ := hemails
    obtain ⟨hpassed, hsamples⟩ := ih hearlier
    have hfresh : ∀ c ∈ counters, c.email ≠ counter.email := fun c hc =>
      hdisjoint c.email (List.mem_map_of_mem hc) counter.email (by simp)
    have hstart : Level { store := s } { store := s' } := ⟨hrows, rfl⟩
    have hlevel := hstart.foldl online counters
    simp only [List.foldl_append, List.foldl_cons, List.foldl_nil]
    exact ⟨hpassed.step hfresh online, hpassed.samples hfresh hlevel hsamples online⟩

end ChordV.NodeAgent
