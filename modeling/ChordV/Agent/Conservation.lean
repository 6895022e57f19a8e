import ChordV.Agent.Metered
import Mathlib.Algebra.BigOperators.Group.List.Basic
import Mathlib.Algebra.Ring.Nat
import Mathlib.Algebra.Group.Prod

/-!
# What is metered is billed

The deltas of the batches against the readings of one row.

* `billed` and `resets` are what a list of readings is worth, from the last reading before it.
  `counted` are the readings up to the first that exhausts a `Balance`.
* `meter` is the row after some readings.  A row is not read any more once it is disabled, and
  `meterOne_enabled` says that this is when its balance is exhausted.  `meter_quota`,
  `meter_generation` and `charged_eq_billed` say what the row makes of the counted readings.
* `recordSample_meters` is one sample and `sample_run` a run of samples, each committed or rolled
  back.  `metering_conserves` puts the two together.
-/

namespace ChordV.Agent

open Lib

/-! ## What readings are worth -/

/-- Uplink and downlink bytes. -/
abbrev Bytes := Nat × Nat

/-- A direction went down. -/
def wentDown (last now : Bytes) : Bool := decide (now.1 < last.1 ∨ now.2 < last.2)

/-- What a reading adds: nothing if it is the first one, all of it if a direction went down, and
the difference otherwise. -/
def growth (last : Option Bytes) (now : Bytes) : Bytes :=
  match last with
  | none => 0
  | some last => if wentDown last now then now else (now.1 - last.1, now.2 - last.2)

/-- What successive readings add. -/
def billed (last : Option Bytes) : List Bytes → Bytes
  | [] => 0
  | now :: rest => growth last now + billed (some now) rest

/-- How often a direction went down. -/
def resets (last : Option Bytes) : List Bytes → Nat
  | [] => 0
  | now :: rest => (if last.any (wentDown · now) then 1 else 0) + resets (some now) rest

/-- A reading of an account, and whether the backend was there. -/
abbrev Sighting := AbsoluteCounter × Bool

/-- The figures of a reading. -/
def figures (r : Sighting) : Bytes := (r.1.uplinkBytes, r.1.downlinkBytes)

/-- What an account has left: the reading that the next one is compared with, the quota, and the
bytes that it was served since the backend was last there. -/
structure Balance where
  last : Option Bytes
  quota : Nat
  offlineUsed : Nat
  deriving DecidableEq, Repr

/-- The balance after a reading. -/
def Balance.after (balance : Balance) (r : Sighting) : Balance where
  last := some (figures r)
  quota :=
    balance.quota - ((growth balance.last (figures r)).1 + (growth balance.last (figures r)).2)
  offlineUsed :=
    if r.2 then 0
    else balance.offlineUsed +
      ((growth balance.last (figures r)).1 + (growth balance.last (figures r)).2)

/-- The reading uses up the quota, or finds the backend away and the allowance used up. -/
def Balance.exhaustedBy (balance : Balance) (allowance : Nat) (r : Sighting) : Bool :=
  (balance.after r).quota = 0 || !r.2 && decide (allowance ≤ (balance.after r).offlineUsed)

/-- The readings up to the first one that exhausts the balance. -/
def untilExhausted (allowance : Nat) : Balance → List Sighting → List Sighting
  | _, [] => []
  | balance, r :: rs =>
    if balance.exhaustedBy allowance r then [r]
    else r :: untilExhausted allowance (balance.after r) rs

/-- A reading exhausts the balance. -/
def exhausts (allowance : Nat) : Balance → List Sighting → Bool
  | _, [] => false
  | balance, r :: rs =>
    balance.exhaustedBy allowance r || exhausts allowance (balance.after r) rs

namespace Store

/-! ## One row -/

/-- The reading that the row remembers. -/
def baseline (row : UserRow) : Option Bytes :=
  if row.counterInitialized then some (row.uplink, row.downlink) else none

/-- What the row has left. -/
def balance (row : UserRow) : Balance := ⟨baseline row, row.quotaRemaining, row.offlineUsed⟩

/-- The readings that count: none if the row is disabled, and otherwise those up to the first one
that exhausts it. -/
def counted (row : UserRow) (rs : List Sighting) : List Sighting :=
  if row.enabled then untilExhausted row.offlineAllowance (balance row) rs else []

/-- What a reading makes of the row. -/
def meterOne (b : String) (row : UserRow) (r : Sighting) : UserRow :=
  if row.enabled then (foldCounter b row r.1 r.2).row else row

/-- What readings make of the row. -/
def meter (b : String) (row : UserRow) (rs : List Sighting) : UserRow :=
  rs.foldl (meterOne b) row

/-- The deltas that the row yields. -/
def charged (b : String) : UserRow → List Sighting → Bytes
  | _, [] => 0
  | row, r :: rs =>
    (if row.enabled then counterDelta row r.1 else 0) + charged b (meterOne b row r) rs

variable {b : String} {row : UserRow} {r : Sighting}
  {rs rs' : List Sighting}

@[simp] theorem meterOne_address : (meterOne b row r).address = row.address := by
  unfold meterOne
  split <;> rfl

@[simp] theorem meter_address : (meter b row rs).address = row.address := by
  induction rs generalizing row with
  | nil => rfl
  | cons r rs ih => exact ih.trans meterOne_address

theorem meter_append : meter b row (rs ++ rs') = meter b (meter b row rs) rs' :=
  List.foldl_append

theorem charged_append :
    charged b row (rs ++ rs') = charged b row rs + charged b (meter b row rs) rs' := by
  induction rs generalizing row with
  | nil => simp [charged, meter]
  | cons r rs ih =>
    rw [List.cons_append, charged, charged, ih, add_assoc]
    rfl

/-- A disabled row is not read. -/
theorem meter_of_disabled (h : row.enabled = false) : meter b row rs = row := by
  induction rs with
  | nil => rfl
  | cons r rs ih =>
    have hsame : meterOne b row r = row := by simp [meterOne, h]
    change meter b (meterOne b row r) rs = row
    rw [hsame, ih]

theorem charged_of_disabled (h : row.enabled = false) : charged b row rs = 0 := by
  induction rs with
  | nil => rfl
  | cons r rs ih =>
    have hsame : meterOne b row r = row := by simp [meterOne, h]
    rw [charged, hsame, ih]
    simp [h]

/-- The delta of a reading is its growth over the remembered one. -/
theorem counterDelta_eq (row : UserRow) (r : Sighting) :
    counterDelta row r.1 = growth (baseline row) (figures r) := by
  unfold counterDelta baseline growth rolledBack figures
  cases row.counterInitialized with
  | false => rfl
  | true => simp [wentDown]

theorem meterOne_enabled (h : row.enabled = true) :
    balance (meterOne b row r) = (balance row).after r ∧
      (meterOne b row r).offlineAllowance = row.offlineAllowance ∧
      (meterOne b row r).enabled = !(balance row).exhaustedBy row.offlineAllowance r ∧
      (meterOne b row r).generation =
        row.generation + if (baseline row).any (wentDown · (figures r)) then 1 else 0 := by
  have hquota : (foldCounter b row r.1 r.2).row.quotaRemaining = ((balance row).after r).quota := by
    rw [Balance.after, balance, ← counterDelta_eq]
    rfl
  have hoffline : (foldCounter b row r.1 r.2).row.offlineUsed =
      ((balance row).after r).offlineUsed := by
    rw [Balance.after, balance, ← counterDelta_eq]
    rfl
  unfold meterOne
  rw [if_pos h]
  refine ⟨?_, rfl, ?_, ?_⟩
  · rw [balance, hquota, hoffline]
    rfl
  · rw [Balance.exhaustedBy, ← hquota, ← hoffline]
    rfl
  · unfold foldCounter rolledBack baseline figures
    cases row.counterInitialized with
    | false => rfl
    | true =>
      by_cases hdown : r.1.uplinkBytes < row.uplink ∨ r.1.downlinkBytes < row.downlink
      · simp [wentDown, hdown]
      · simp [wentDown, hdown]

theorem counted_of_disabled (h : row.enabled = false) : counted row rs = [] := by
  rw [counted, h]
  rfl

/-- An enabled row counts the next reading, and goes on if it is enabled after it. -/
theorem counted_cons (b : String) (h : row.enabled = true) :
    counted row (r :: rs) = r :: counted (meterOne b row r) rs := by
  obtain ⟨hbalance, hallowance, henabled, -⟩ := meterOne_enabled (b := b) (r := r) h
  rw [counted, if_pos h, untilExhausted, counted, hbalance, hallowance, henabled]
  cases (balance row).exhaustedBy row.offlineAllowance r with
  | true => rfl
  | false => rfl

/-- The counted readings are a first part of the readings, and all of them if the row is enabled
after them. -/
theorem untilExhausted_isPrefix (allowance : Nat) (balance : Balance) (rs : List Sighting) :
    untilExhausted allowance balance rs <+: rs := by
  induction rs generalizing balance with
  | nil => exact List.prefix_rfl
  | cons r rs ih =>
    rw [untilExhausted]
    split
    · exact (List.prefix_cons_inj r).2 List.nil_prefix
    · exact (List.prefix_cons_inj r).2 (ih _)

theorem counted_isPrefix : counted row rs <+: rs := by
  rw [counted]
  split
  · exact untilExhausted_isPrefix _ _ _
  · exact List.nil_prefix

theorem counted_eq (b : String) (h : (meter b row rs).enabled = true) : counted row rs = rs := by
  induction rs generalizing row with
  | nil =>
    rw [counted]
    split
    · rfl
    · rfl
  | cons r rs ih =>
    cases henabled : row.enabled with
    | false =>
      rw [meter_of_disabled henabled, henabled] at h
      cases h
    | true => rw [counted_cons b henabled, ih h]

/-- A row is disabled by the readings that exhaust it, and by no others. -/
theorem meter_enabled : (meter b row rs).enabled =
    (row.enabled && !exhausts row.offlineAllowance (balance row) rs) := by
  induction rs generalizing row with
  | nil => simp [meter, exhausts]
  | cons r rs ih =>
    cases henabled : row.enabled with
    | false => rw [meter_of_disabled henabled, henabled, Bool.false_and]
    | true =>
      obtain ⟨hbalance, hallowance, hafter, -⟩ := meterOne_enabled (b := b) (r := r) henabled
      change (meter b (meterOne b row r) rs).enabled = _
      rw [ih, hbalance, hallowance, hafter, exhausts, Bool.true_and, Bool.not_or]

theorem baseline_meterOne (h : row.enabled = true) :
    baseline (meterOne b row r) = some (figures r) :=
  congrArg Balance.last (meterOne_enabled h).1

theorem quota_meterOne (h : row.enabled = true) : (meterOne b row r).quotaRemaining =
    row.quotaRemaining - ((counterDelta row r.1).1 + (counterDelta row r.1).2) := by
  rw [counterDelta_eq]
  exact congrArg Balance.quota (meterOne_enabled h).1

/-- The deltas of the row are what the counted readings add. -/
theorem charged_eq_billed :
    charged b row rs = billed (baseline row) ((counted row rs).map figures) := by
  induction rs generalizing row with
  | nil =>
    rw [counted]
    split
    · rfl
    · rfl
  | cons r rs ih =>
    cases henabled : row.enabled with
    | false => rw [charged_of_disabled henabled, counted_of_disabled henabled]; rfl
    | true =>
      rw [charged, if_pos henabled, counted_cons b henabled, List.map_cons, billed, ih,
        baseline_meterOne henabled, counterDelta_eq]

/-- The quota loses what they add, down to zero. -/
theorem meter_quota : (meter b row rs).quotaRemaining =
    row.quotaRemaining - ((charged b row rs).1 + (charged b row rs).2) := by
  induction rs generalizing row with
  | nil => rfl
  | cons r rs ih =>
    cases henabled : row.enabled with
    | false => rw [meter_of_disabled henabled, charged_of_disabled henabled]; rfl
    | true =>
      change (meter b (meterOne b row r) rs).quotaRemaining = _
      rw [ih, quota_meterOne henabled, charged, if_pos henabled, Prod.fst_add, Prod.snd_add]
      omega

/-- The generation counts the times a direction went down. -/
theorem meter_generation : (meter b row rs).generation =
    row.generation + resets (baseline row) ((counted row rs).map figures) := by
  induction rs generalizing row with
  | nil =>
    rw [counted]
    split
    · rfl
    · rfl
  | cons r rs ih =>
    cases henabled : row.enabled with
    | false => rw [meter_of_disabled henabled, counted_of_disabled henabled]; rfl
    | true =>
      change (meter b (meterOne b row r) rs).generation = _
      obtain ⟨-, -, -, hgeneration⟩ := meterOne_enabled (b := b) (r := r) henabled
      rw [ih, hgeneration, baseline_meterOne henabled, counted_cons b henabled, List.map_cons,
        resets, add_assoc]

/-! ## One sample -/

/-- The deltas of a binding in some samples. -/
def deltasOf (b : String) (samples : List UsageSample) : Bytes :=
  ((samples.filter (·.bindingId = b)).map fun sample =>
    (sample.uplinkDeltaBytes, sample.downlinkDeltaBytes)).sum

/-- The deltas of a binding in some batches. -/
def emitted (b : String) (batches : List UsageBatch) : Bytes :=
  deltasOf b (batches.flatMap (·.samples))

/-- The readings of an address in a sample. -/
def sightings (email : String) (counters : List AbsoluteCounter) (online : Bool) : List Sighting :=
  (counters.filter (·.email = email)).map (·, online)

theorem deltasOf_append (b : String) (xs ys : List UsageSample) :
    deltasOf b (xs ++ ys) = deltasOf b xs + deltasOf b ys := by
  simp [deltasOf]

theorem emitted_append (b : String) (xs ys : List UsageBatch) :
    emitted b (xs ++ ys) = emitted b xs + emitted b ys := by
  simp [emitted, deltasOf_append]

theorem sightings_cons (email : String) (counter : AbsoluteCounter) (cs : List AbsoluteCounter)
    (online : Bool) :
    sightings email (counter :: cs) online =
      sightings email [counter] online ++ sightings email cs online := by
  unfold sightings
  rw [← List.map_append, ← List.filter_append]
  rfl

/-- A reading whose sample is suppressed adds nothing. -/
theorem counterDelta_of_suppressed {counter : AbsoluteCounter} {online : Bool}
    (h : (foldCounter b row counter online).emit = false) : counterDelta row counter = 0 := by
  have hparts : 0 = (counterDelta row counter).1 + (counterDelta row counter).2 := by
    simp only [foldCounter, Bool.or_eq_false_iff, decide_eq_false_iff_not] at h
    omega
  exact Prod.ext (by simp; omega) (by simp; omega)

/-- What one counter does to the row of a binding and to its deltas. -/
structure Metered (b : String) (row : UserRow) (rs : List Sighting) (t t' : Tick) : Prop where
  stored : t'.store.rows.lookup b = some (meter b row rs)
  one : t'.store.OneHolder
  batches : t'.store.batches = t.store.batches
  deltas : deltasOf b t'.samples = deltasOf b t.samples + charged b row rs

theorem foldOne_meters {email : String} {t : Tick} (hone : t.store.OneHolder)
    (hrow : t.store.rows.lookup b = some row) (haddress : row.address = .real email)
    (counter : AbsoluteCounter) (online : Bool) :
    Metered b row (sightings email [counter] online) t (foldOne online t counter) := by
  have hfewer : Fewer t.store (foldOne online t counter).store := by
    rcases foldOne_store online t counter with heq | ⟨b', row', hrow', -, -, heq⟩ <;> rw [heq]
    · exact fun _ _ h => h
    · exact Fewer.insert hrow' rfl
  have hone' := hone.fewer hfewer
  by_cases hemail : counter.email = email
  · -- The counter is found by its address, and the address has one holder.
    have hfound : t.store.userByEmail counter.email = some (b, row) := by
      obtain ⟨⟨b', row'⟩, hfound⟩ : ∃ p, t.store.userByEmail counter.email = some p :=
        Option.isSome_iff_exists.1
          (List.find?_isSome.2 ⟨(b, row), Table.mem_pairs.2 hrow, by simp [haddress, hemail]⟩)
      obtain ⟨hrow', haddress'⟩ := lookup_of_userByEmail hfound
      obtain rfl := hone _ _ _ _ _ hrow' hrow haddress' (hemail ▸ haddress)
      rw [hfound, Option.some.inj (hrow'.symm.trans hrow)]
    have hsight : sightings email [counter] online = [(counter, online)] := by
      simp [sightings, hemail]
    rw [hsight]
    unfold foldOne at hone' ⊢
    rw [hfound] at hone' ⊢
    cases henabled : row.enabled with
    | false =>
      have hsame : meter b row [(counter, online)] = row := meter_of_disabled henabled
      refine ⟨?_, ?_, ?_, ?_⟩
      · simpa [henabled, hsame] using hrow
      · simpa [henabled] using hone
      · simp [henabled]
      · simp [henabled, charged_of_disabled henabled]
    | true =>
      simp only [henabled, Bool.not_true, Bool.false_eq_true, if_false] at hone' ⊢
      have hmeter : meter b row [(counter, online)] = (foldCounter b row counter online).row := by
        simp [meter, meterOne, henabled]
      have hcharged : charged b row [(counter, online)] = counterDelta row counter := by
        simp [charged, henabled]
      refine ⟨?_, hone', rfl, ?_⟩
      · rw [hmeter]
        exact AList.lookup_insert _
      · rw [hcharged]
        dsimp only
        split
        · rw [deltasOf_append]
          refine congrArg _ ?_
          simp [deltasOf, foldCounter]
        · next hsuppressed =>
          rw [counterDelta_of_suppressed (by simpa using hsuppressed), add_zero]
  · have hsight : sightings email [counter] online = [] := by simp [sightings, hemail]
    rw [hsight]
    unfold foldOne at hone' ⊢
    cases hfound : t.store.userByEmail counter.email with
    | none => exact ⟨hrow, hone, rfl, (add_zero _).symm⟩
    | some found =>
      obtain ⟨b', row'⟩ := found
      rw [hfound] at hone'
      obtain ⟨hrow', haddress'⟩ := lookup_of_userByEmail hfound
      have hb : b ≠ b' := by
        rintro rfl
        rw [hrow] at hrow'
        cases hrow'
        exact hemail (Address.real.inj (haddress'.symm.trans haddress))
      dsimp only at hone' ⊢
      split
      · exact ⟨hrow, hone, rfl, (add_zero _).symm⟩
      · next henabled =>
        rw [if_neg henabled] at hone'
        refine ⟨?_, hone', rfl, ?_⟩
        · exact (AList.lookup_insert_ne hb).trans hrow
        · dsimp only
          split
          · rw [deltasOf_append]
            refine congrArg _ ?_
            simp [deltasOf, foldCounter, hb.symm, charged]
          · exact (add_zero _).symm

/-- The counters of a sample, one after the other. -/
theorem foldl_meters {email : String} (online : Bool) (counters : List AbsoluteCounter) {t : Tick}
    (hone : t.store.OneHolder) (hrow : t.store.rows.lookup b = some row)
    (haddress : row.address = .real email) :
    Metered b row (sightings email counters online) t
      (counters.foldl (foldOne online) t) := by
  induction counters generalizing t row with
  | nil => exact ⟨hrow, hone, rfl, (add_zero _).symm⟩
  | cons counter counters ih =>
    have hhead := foldOne_meters hone hrow haddress counter online
    have hrest := ih hhead.one hhead.stored (meter_address.trans haddress)
    rw [sightings_cons, List.foldl_cons]
    refine ⟨?_, hrest.one, hrest.batches.trans hhead.batches, ?_⟩
    · rw [meter_append]
      exact hrest.stored
    · rw [hrest.deltas, hhead.deltas, charged_append, add_assoc]

/-- A sample meters its readings, and its batch has the deltas. -/
theorem recordSample_meters {s : Store} {email : String} (hone : s.OneHolder)
    (hrow : s.rows.lookup b = some row) (haddress : row.address = .real email)
    (counters : List AbsoluteCounter) (sampledAt : Nat) (online : Bool) :
    let s' := (s.recordSample counters sampledAt online).2
    s'.OneHolder ∧ s'.rows.lookup b = some (meter b row (sightings email counters online)) ∧
      ∃ cut, s'.batches = s.batches ++ cut ∧
        emitted b cut = charged b row (sightings email counters online) := by
  have hmetered := foldl_meters (t := { store := s }) online counters hone hrow haddress
  have hdeltas : deltasOf b (counters.foldl (foldOne online) { store := s }).samples =
      charged b row (sightings email counters online) :=
    hmetered.deltas.trans (zero_add _)
  unfold recordSample cutBatch
  dsimp only
  split
  · next hempty =>
    rw [List.isEmpty_iff.1 hempty] at hdeltas
    exact ⟨hmetered.one, hmetered.stored, [], by simp [hmetered.batches], hdeltas⟩
  · refine ⟨hmetered.one.fewer (Fewer.of_rows rfl), hmetered.stored, [_],
      congrArg (· ++ _) hmetered.batches, ?_⟩
    simp only [emitted, List.flatMap_cons, List.flatMap_nil, List.append_nil]
    exact hdeltas

/-! ## Runs of samples -/

/-- A call of `RecordSample`, which is committed or rolled back. -/
structure SampleCall where
  counters : List AbsoluteCounter
  sampledAt : Nat
  online : Bool
  committed : Bool
  deriving DecidableEq, Repr

/-- The store after a call. -/
def SampleCall.step (s : Store) (c : SampleCall) : Store :=
  Change.step s (.recordSample c.counters c.sampledAt c.online, c.committed)

/-- The readings of an address in the calls that were committed. -/
def sighted (email : String) (calls : List SampleCall) : List Sighting :=
  (calls.filter (·.committed)).flatMap fun c => sightings email c.counters c.online

theorem sample_run {s : Store} {email : String} (hone : s.OneHolder)
    (hrow : s.rows.lookup b = some row) (haddress : row.address = .real email)
    (calls : List SampleCall) :
    let s' := calls.foldl SampleCall.step s
    s'.rows.lookup b = some (meter b row (sighted email calls)) ∧
      ∃ cut, s'.batches = s.batches ++ cut ∧
        emitted b cut = charged b row (sighted email calls) := by
  induction calls generalizing s row with
  | nil => exact ⟨hrow, [], (List.append_nil _).symm, rfl⟩
  | cons c calls ih =>
    cases hcommitted : c.committed with
    | false =>
      have hstep : c.step s = s := by simp [SampleCall.step, Change.step, hcommitted]
      have hsighted : sighted email (c :: calls) = sighted email calls := by
        simp [sighted, hcommitted]
      rw [hsighted, List.foldl_cons, hstep]
      exact ih hone hrow haddress
    | true =>
      have hstep : c.step s = (s.recordSample c.counters c.sampledAt c.online).2 := by
        simp [SampleCall.step, Change.step, hcommitted, Change.apply, Except.toOption]
      have hsighted : sighted email (c :: calls) =
          sightings email c.counters c.online ++ sighted email calls := by
        simp [sighted, hcommitted]
      obtain ⟨hone', hrow', cut, hcut, hemitted⟩ :=
        recordSample_meters hone hrow haddress c.counters c.sampledAt c.online
      obtain ⟨hrest, cut', hcut', hemitted'⟩ := ih hone' hrow' (meter_address.trans haddress)
      rw [hsighted, List.foldl_cons, hstep, meter_append, charged_append]
      refine ⟨hrest, cut ++ cut', ?_, ?_⟩
      · rw [hcut', hcut, List.append_assoc]
      · rw [emitted_append, hemitted, hemitted']

/-- The calls meter an enabled row up to the first reading that exhausts its quota or, with the
backend away, its offline allowance: the deltas of its batches are what these readings add, the
quota loses as much, and the generation counts the times a direction went down.  The row is
enabled after the calls if and only if it was before and no reading exhausted it. -/
theorem metering_conserves {s : Store} {email : String} (hone : s.OneHolder)
    (hrow : s.rows.lookup b = some row) (haddress : row.address = .real email)
    (calls : List SampleCall) :
    let s' := calls.foldl SampleCall.step s
    let readings := counted row (sighted email calls)
    let total := billed (baseline row) (readings.map figures)
    readings <+: sighted email calls ∧
      ∃ row' cut, s'.rows.lookup b = some row' ∧ s'.batches = s.batches ++ cut ∧
        emitted b cut = total ∧
        row'.quotaRemaining = row.quotaRemaining - (total.1 + total.2) ∧
        row'.generation = row.generation + resets (baseline row) (readings.map figures) ∧
        (row'.enabled = true → readings = sighted email calls) ∧
        (row'.enabled = true ↔ row.enabled = true ∧
          exhausts row.offlineAllowance (balance row) (sighted email calls) = false) := by
  intro s' readings total
  obtain ⟨hrow', cut, hcut, hemitted⟩ := sample_run hone hrow haddress calls
  have htotal : charged b row (sighted email calls) = total := charged_eq_billed
  refine ⟨counted_isPrefix, meter b row (sighted email calls), cut, hrow', hcut,
    hemitted.trans htotal, ?_, meter_generation, counted_eq b, ?_⟩
  · rw [← htotal]
    exact meter_quota
  · rw [meter_enabled]
    simp

/-! ## A quota that runs out -/

namespace Quota

/-- A row without a baseline. -/
def fresh : UserRow :=
  { address := .real "x", uuid := "u", flow := flowNone, enabled := true, revision := 1
    quotaRemaining := 10, offlineAllowance := 0 }

/-- A store with this one row. -/
def store (row : UserRow) : Store := { rows := (∅ : Table String UserRow).insert "a" row }

/-- A reading of the row, which arrives or is rolled back. -/
def reads (uplink : Nat) (committed : Bool) : SampleCall :=
  { counters := [⟨"x", uplink, 0⟩], sampledAt := 0, online := true, committed }

theorem oneHolder (row : UserRow) : (store row).OneHolder := by
  intro b b' row' row'' email hrow hrow' _ _
  rcases Table.lookup_of_insert hrow with ⟨rfl, -⟩ | hnone
  · rcases Table.lookup_of_insert hrow' with ⟨rfl, -⟩ | hnone'
    · rfl
    · cases hnone'
  · cases hnone

end Quota

open Quota in
/-- A call that was rolled back is made again, and Xray starts its counter anew. -/
theorem metering_conserves_reset :
    let calls := [reads 40 true, reads 43 false, reads 43 true, reads 2 true]
    ∃ row' cut, (calls.foldl SampleCall.step (store fresh)).rows.lookup "a" = some row' ∧
      emitted "a" cut = (5, 0) ∧ row'.quotaRemaining = 5 ∧ row'.generation = 1 := by
  intro calls
  obtain ⟨-, row', cut, hrow', -, hemitted, hquota, hgeneration, -⟩ :=
    metering_conserves (oneHolder fresh) (rfl : (store fresh).rows.lookup "a" = some fresh)
      rfl calls
  exact ⟨row', cut, hrow', hemitted, hquota, hgeneration⟩

open Quota in
/-- The reading that exhausts the quota disables the row, and the one after it is not counted.  The
first reading of a row that has a baseline is counted. -/
theorem exhausted_row_is_not_metered :
    let calls := [reads 0 true, reads 20 true, reads 50 true]
    let counted := { fresh with counterInitialized := true, uplink := 10 }
    (emitted "a" (calls.foldl SampleCall.step (store fresh)).batches = (20, 0) ∧
      billed none ((sighted "x" calls).map figures) = (50, 0)) ∧
    emitted "a" ((reads 15 true).step (store counted)).batches = (5, 0) ∧
      billed none ((sighted "x" [reads 15 true]).map figures) = (0, 0) := by
  decide

end Store

end ChordV.Agent
