import ChordV.Api.TeamUsage

/-!
# The used bytes and the ledger of a team

* `difference` is what the used bytes of a subscription are above its ledger.
* `AddsUp` says what an operation may do to it, and `InStep` when the code does so:
  `team_usage_adds_up`.
* `team_usage_adds_up_below`: as long as less than 2^53 bytes are counted, only resets of a member
  can go wrong, and `trafficGbNumberToBytes_of_bytes` is why.
-/

namespace ChordV.Api.TeamUsage

open Lib Lib.Js

/-! ## What has to hold -/

/-- The bytes that the ledger has. -/
def TeamSubscription.recorded (s : TeamSubscription) : Nat := bytesOf s.ledger

/-- The used bytes above those of the ledger. -/
def difference (s : TeamSubscription) : Int := s.usedTrafficBytes - s.recorded

namespace Event

/-- An update that names the used figure. -/
def namesUsed : Event → Bool
  | .update _ (some _) _ _ _ => true
  | _ => false

/-- A reset of the whole team. -/
def isTeamReset : Event → Bool
  | .renew _ _ true _ => true
  | _ => false

/-- The member whose traffic is reset. -/
def member : Event → Option String
  | .resetTraffic userId _ _ _ => userId
  | _ => none

end Event

/-- The operation `e` has turned `s` into `s'` as it should. -/
structure AddsUp (s : TeamSubscription) (e : Event) (s' : TeamSubscription) : Prop where
  kept : e.namesUsed = false → e.isTeamReset = false → difference s' = difference s
  zero : e.isTeamReset = true → difference s' = 0
  member : ∀ userId, e.member = some userId →
    s'.usedTrafficBytes + bytesOf (s.ledger.filter (·.userId = userId)) = s.usedTrafficBytes ∧
      s'.ledger = s.ledger.filter (·.userId ≠ userId)

/-- The figures that an operation reads are in step. -/
def InStep (s : TeamSubscription) : Event → Prop
  | .batch _ samples => (∃ sample ∈ samples, 0 < sample.deltaBytes) → s.usedTrafficBytes = 0 →
      trafficGbNumberToBytes s.usedTrafficGb = 0
  | .resetTraffic .. => s.usedTrafficBytes = s.recorded
  | .update _ none _ _ _ => trafficGbNumberToBytes s.usedTrafficGb = s.usedTrafficBytes
  | _ => True

/-! ## One step -/

@[simp] theorem bytesOf_append (rows rows' : List Row) :
    bytesOf (rows ++ rows') = bytesOf rows + bytesOf rows' := by simp [bytesOf]

/-- The rows of a member and those of the others. -/
theorem bytesOf_filter (rows : List Row) (userId : String) :
    bytesOf (rows.filter (·.userId = userId)) + bytesOf (rows.filter (·.userId ≠ userId)) =
      bytesOf rows := by
  induction rows with
  | nil => rfl
  | cons row rows ih =>
    by_cases h : row.userId = userId <;>
      simp [bytesOf, h] at ih ⊢ <;> omega

/-- The rows that a batch adds have the bytes that it bills. -/
theorem bytesOf_rows {sampledAt : Nat} : ∀ {samples : List MemberSample} {rows : List Row},
    samples.mapM (·.row sampledAt) = some rows →
    bytesOf rows = (samples.map (·.deltaBytes)).sum
  | [], rows, h => by
    obtain rfl : rows = [] := by simpa using h.symm
    rfl
  | sample :: samples, rows, h => by
    rw [List.mapM_cons] at h
    simp only [MemberSample.row, Option.bind_eq_bind, Option.bind_eq_some_iff, Option.pure_def,
      Option.some.injEq] at h
    obtain ⟨row, ⟨gb, -, bytes, hbytes, rfl⟩, rows', hrows, rfl⟩ := h
    have ih := bytesOf_rows hrows
    simp only [bytesOf, List.map_cons, List.sum_cons] at ih ⊢
    rw [ih, column_eq_some hbytes]

/-- What an operation that commits does to the used bytes, their figure and the ledger. -/
inductive Effect (s s' : TeamSubscription) : Event → Prop where
  | billed {sampledAt : Nat} {samples : List MemberSample} {rows : List Row}
      (hbilled : ∃ sample ∈ samples, 0 < sample.deltaBytes)
      (hrows : (samples.filter (0 < ·.deltaBytes)).mapM (·.row sampledAt) = some rows)
      (hused : s'.usedTrafficBytes = s.currentUsedBytes + bytesOf rows)
      (hgb : trafficBytesToGbNumber s'.usedTrafficBytes = some s'.usedTrafficGb)
      (hledger : s'.ledger = s.ledger ++ rows) : Effect s s' (.batch sampledAt samples)
  | idle {sampledAt : Nat} {samples : List MemberSample}
      (hidle : ∀ sample ∈ samples, sample.deltaBytes = 0) (hsame : s' = s) :
      Effect s s' (.batch sampledAt samples)
  | memberReset {userId : String} {order : List Row} {now : Nat}
      (hledger : s'.ledger = s.ledger.filter (·.userId ≠ userId))
      (hused : s'.usedTrafficBytes = bytesOf s'.ledger)
      (hgb : sumGb (scanned order s'.ledger) = some s'.usedTrafficGb) :
      Effect s s' (.resetTraffic (some userId) true order now)
  | teamReset {totalTrafficGb : Option Double} {expireAt : Option Nat} {now : Nat}
      (hledger : s'.ledger = []) (hused : s'.usedTrafficBytes = 0)
      (hgb : s'.usedTrafficGb = .zero) : Effect s s' (.renew totalTrafficGb expireAt true now)
  | renewed {totalTrafficGb : Option Double} {expireAt : Option Nat} {now : Nat}
      (hused : s'.usedTrafficBytes = s.usedTrafficBytes)
      (hgb : s'.usedTrafficGb = s.usedTrafficGb) (hledger : s'.ledger = s.ledger) :
      Effect s s' (.renew totalTrafficGb expireAt false now)
  | planChanged {plan : Plan} {totalTrafficGb : Option Double} {expireAt : Option Nat} {now : Nat}
      (hused : s'.usedTrafficBytes = s.usedTrafficBytes)
      (hgb : s'.usedTrafficGb = s.usedTrafficGb) (hledger : s'.ledger = s.ledger) :
      Effect s s' (.changePlan plan totalTrafficGb expireAt now)
  | updated {totalTrafficGb usedTrafficGb : Option Double} {state : Option SubscriptionState}
      {expireAt : Option Nat} {now : Nat}
      (hgb : s'.usedTrafficGb = usedTrafficGb.getD s.usedTrafficGb)
      (hused : s'.usedTrafficBytes = trafficGbNumberToBytes s'.usedTrafficGb)
      (hledger : s'.ledger = s.ledger) :
      Effect s s' (.update totalTrafficGb usedTrafficGb state expireAt now)

theorem applyDirectBatch_effect {s s' : TeamSubscription} {sampledAt : Nat}
    {samples : List MemberSample} (h : applyDirectBatch sampledAt samples s = some s') :
    Effect s s' (.batch sampledAt samples) := by
  unfold applyDirectBatch at h
  simp only at h
  split_ifs at h with hempty
  · refine .idle (fun sample hsample => ?_) (Option.some.inj h).symm
    have hnone := List.filter_eq_nil_iff.1 (List.isEmpty_iff.1 hempty) sample hsample
    simpa using hnone
  · simp only [Option.bind_eq_bind, Option.bind_eq_some_iff, Option.pure_def,
      Option.some.injEq] at h
    obtain ⟨rows, hrows, total, -, used, hused, gb, hgb, remaining, -, rfl⟩ := h
    have hbytes := bytesOf_rows hrows
    refine .billed ?_ hrows (by rw [hbytes]; exact column_eq_some hused) ?_ rfl
    · rw [List.isEmpty_iff] at hempty
      obtain ⟨sample, hsample⟩ := List.exists_mem_of_ne_nil _ hempty
      obtain ⟨hsample, hpos⟩ := List.mem_filter.1 hsample
      exact ⟨sample, hsample, by simpa using hpos⟩
    · rw [column_eq_some hused]
      exact hgb

theorem resetSubscriptionTrafficCounters_effect {s s' : TeamSubscription}
    {targetUserId : Option String} {order : List Row} {totalTrafficGb : Option Double}
    {expireAt : Option Nat} {statePreference : Option SubscriptionState} {now : Nat}
    (h : resetSubscriptionTrafficCounters targetUserId order totalTrafficGb expireAt
      statePreference now s = some s') :
    match targetUserId with
    | some userId => s'.ledger = s.ledger.filter (·.userId ≠ userId) ∧
        s'.usedTrafficBytes = bytesOf s'.ledger ∧
        sumGb (scanned order s'.ledger) = some s'.usedTrafficGb
    | none => s'.ledger = [] ∧ s'.usedTrafficBytes = 0 ∧ s'.usedTrafficGb = .zero := by
  unfold resetSubscriptionTrafficCounters at h
  cases targetUserId with
  | none =>
    simp only [Option.isSome_none, Bool.false_eq_true, if_false, Option.bind_eq_bind,
      Option.bind_eq_some_iff, Option.pure_def, Option.some.injEq] at h
    obtain ⟨gb, rfl, used, hused, total, -, rfl⟩ := h
    exact ⟨rfl, column_eq_some hused, rfl⟩
  | some userId =>
    simp only [Option.isSome_some, if_true, Option.bind_eq_bind, Option.bind_eq_some_iff,
      Option.pure_def, Option.some.injEq] at h
    obtain ⟨gb, hgb, used, hused, total, -, rfl⟩ := h
    exact ⟨rfl, column_eq_some hused, hgb⟩

theorem apply_effect {s s' : TeamSubscription} {e : Event} (h : e.apply s = some s') :
    Effect s s' e := by
  cases e with
  | batch sampledAt samples => exact applyDirectBatch_effect h
  | resetTraffic userId isMember order now =>
    simp only [Event.apply, resetSubscriptionTraffic] at h
    cases userId with
    | none => cases h
    | some userId =>
      cases isMember with
      | false => cases h
      | true =>
        simp only [if_true] at h
        obtain ⟨hledger, hused, hgb⟩ := resetSubscriptionTrafficCounters_effect h
        exact .memberReset hledger hused hgb
  | renew totalTrafficGb expireAt reset now =>
    simp only [Event.apply, renewSubscription] at h
    cases reset with
    | true =>
      simp only [if_true] at h
      obtain ⟨hledger, hused, hgb⟩ := resetSubscriptionTrafficCounters_effect h
      exact .teamReset hledger hused hgb
    | false =>
      simp only [Bool.false_eq_true, if_false, Option.bind_eq_bind, Option.bind_eq_some_iff,
        Option.pure_def, Option.some.injEq] at h
      obtain ⟨total, -, rfl⟩ := h
      exact .renewed rfl rfl rfl
  | changePlan plan totalTrafficGb expireAt now =>
    simp only [Event.apply, changeSubscriptionPlan] at h
    split_ifs at h
    simp only [Option.bind_eq_bind, Option.bind_eq_some_iff, Option.pure_def,
      Option.some.injEq] at h
    obtain ⟨total, -, rfl⟩ := h
    exact .planChanged rfl rfl rfl
  | update totalTrafficGb usedTrafficGb state expireAt now =>
    simp only [Event.apply, updateSubscription, Option.bind_eq_bind, Option.bind_eq_some_iff,
      Option.pure_def, Option.some.injEq] at h
    obtain ⟨total, -, used, hused, rfl⟩ := h
    exact .updated rfl (column_eq_some hused) rfl

/-- An operation does as it should exactly if the figures that it reads are in step. -/
theorem addsUp_iff {s s' : TeamSubscription} {e : Event} (h : e.apply s = some s') :
    AddsUp s e s' ↔ InStep s e := by
  have hkept {e : Event} (hmember : e.member = none) (hteam : e.isTeamReset = false)
      (hdifference : e.namesUsed = false → difference s' = difference s) : AddsUp s e s' :=
    { kept := fun hnamed _ => hdifference hnamed
      zero := fun hreset => absurd hreset (by simp [hteam])
      member := fun _ huser => absurd huser (by simp [hmember]) }
  cases apply_effect h with
  | billed hbilled hrows hused hgb hledger =>
    simp only [InStep, hbilled, true_implies]
    constructor
    · intro hadds hzero
      have hdifference := hadds.kept rfl rfl
      simp only [difference, TeamSubscription.recorded, hused, hledger, bytesOf_append, hzero,
        TeamSubscription.currentUsedBytes, lt_irrefl, if_false] at hdifference
      omega
    · intro hstep
      refine hkept rfl rfl fun _ => ?_
      have hcurrent : s.currentUsedBytes = s.usedTrafficBytes := by
        unfold TeamSubscription.currentUsedBytes
        split_ifs with hpos
        · rfl
        · have hzero : s.usedTrafficBytes = 0 := by omega
          rw [hzero, hstep hzero]
      simp only [difference, TeamSubscription.recorded, hused, hledger, bytesOf_append, hcurrent]
      omega
  | idle hidle hsame =>
    refine iff_of_true (hkept rfl rfl fun _ => by rw [hsame]) ?_
    rintro ⟨sample, hsample, hpos⟩
    exact absurd (hidle sample hsample) (by omega)
  | @memberReset userId order now hledger hused hgb =>
    have hsplit := bytesOf_filter s.ledger userId
    rw [← hledger, ← hused] at hsplit
    simp only [InStep, TeamSubscription.recorded]
    constructor
    · intro hadds
      have hmember := (hadds.member userId rfl).1
      omega
    · intro hstep
      refine ⟨fun _ _ => ?_, fun hreset => ?_, fun _ huser => ?_⟩
      · simp only [difference, TeamSubscription.recorded, hused, hstep]
        omega
      · cases hreset
      · obtain rfl := Option.some.inj huser
        exact ⟨by omega, hledger⟩
  | teamReset hledger hused hgb =>
    refine iff_of_true ⟨fun _ hreset => absurd hreset (by simp [Event.isTeamReset]), fun _ => ?_,
      fun _ huser => ?_⟩ trivial
    · simp [difference, TeamSubscription.recorded, hledger, hused, bytesOf]
    · cases huser
  | renewed hused hgb hledger =>
    refine iff_of_true (hkept rfl rfl fun _ => ?_) trivial
    simp only [difference, TeamSubscription.recorded, hused, hledger]
  | planChanged hused hgb hledger =>
    refine iff_of_true (hkept rfl rfl fun _ => ?_) trivial
    simp only [difference, TeamSubscription.recorded, hused, hledger]
  | @updated totalTrafficGb usedTrafficGb state expireAt now hgb hused hledger =>
    cases usedTrafficGb with
    | some usedTrafficGb => exact iff_of_true (hkept rfl rfl fun hnamed => by cases hnamed) trivial
    | none =>
      simp only [Option.getD_none] at hgb
      rw [hgb] at hused
      simp only [InStep]
      constructor
      · intro hadds
        have hdifference := hadds.kept rfl rfl
        simp only [difference, TeamSubscription.recorded, hledger] at hdifference
        omega
      · intro hstep
        refine hkept rfl rfl fun _ => ?_
        simp only [difference, TeamSubscription.recorded, hledger, hused, hstep]

/-- In a run, every operation does as it should exactly if every one finds the figures that it
reads in step. -/
theorem team_usage_adds_up (s : TeamSubscription) (events : List Event) :
    Machine.Meets step (fun s e => ∀ s', e.apply s = some s' → AddsUp s e s') s events ↔
      Machine.Meets step (fun s e => (e.apply s).isSome → InStep s e) s events := by
  refine Machine.meets_congr (I := fun _ => True) (fun _ _ _ => trivial) (fun s e _ => ?_)
    trivial events
  constructor
  · intro h hsome
    obtain ⟨s', hs'⟩ := Option.isSome_iff_exists.1 hsome
    exact (addsUp_iff hs').1 (h s' hs')
  · intro h s' hs'
    exact (addsUp_iff hs').2 (h (by simp [hs']))

/-- A subscription of 100 GB that nobody has used. -/
def start : TeamSubscription :=
  { planId := "team", totalTrafficGb := (Double.ratio 100 1).getD .zero, usedTrafficGb := .zero
    remainingTrafficGb := (Double.ratio 100 1).getD .zero, totalTrafficBytes := 100 * gbInBytes
    usedTrafficBytes := 0, expireAt := 1000, state := .active, renewable := true }

/-- An administrator says that 10 GB are used, and a member uses 5 bytes. -/
def adjusting : List Event :=
  [.update none (Double.ratio 10 1) none none 1, .batch 2 [⟨"a", "node", 5⟩]]

/-- A reset of the member. -/
def resetting : Event := .resetTraffic (some "a") true [] 3

/-- The subscription after the adjustment. -/
def adjusted : TeamSubscription :=
  { start with
    usedTrafficGb := (Double.ratio 10 1).getD .zero
    remainingTrafficGb := start.totalTrafficGb.monus ((Double.ratio 10 1).getD .zero)
    usedTrafficBytes := 10 * gbInBytes }

theorem bytes_of_total : trafficGbNumberToBytes start.totalTrafficGb = 100 * gbInBytes :=
  trafficGbNumberToBytes_of_units (by decide) (by decide +kernel)

theorem step_start : step start (.update none (Double.ratio 10 1) none none 1) = adjusted := by
  have hused : trafficGbNumberToBytes ((Double.ratio 10 1).getD .zero) = 10 * gbInBytes :=
    trafficGbNumberToBytes_of_units (by decide) (by decide +kernel)
  have hgb : (Double.ratio 10 1).getD start.usedTrafficGb = (Double.ratio 10 1).getD .zero := rfl
  simp only [step, Event.apply, updateSubscription, Option.getD_none, hgb, bytes_of_total, hused]
  decide +kernel

/-- A reset of the member commits if the figures that it writes fit into their columns. -/
theorem resetting_commits {s : TeamSubscription} (hledger : s.ledger.filter (·.userId ≠ "a") = [])
    (htotal : s.totalTrafficGb = start.totalTrafficGb) : (resetting.apply s).isSome := by
  have hsum : sumGb (scanned [] []) = some .zero := rfl
  have hbytes : column (bytesOf []) = some 0 := rfl
  have hcolumn : column (100 * gbInBytes) = some (100 * gbInBytes) := rfl
  simp only [resetting, Event.apply, resetSubscriptionTraffic, resetSubscriptionTrafficCounters,
    if_true, Option.getD_none, Option.isSome_some, hledger, htotal, bytes_of_total, hsum, hbytes,
    hcolumn, Option.bind_eq_bind, Option.bind_some, Option.pure_def]

theorem adjusting_out_of_step :
    (resetting.apply (Machine.run step start adjusting)).isSome ∧
      (Machine.run step start adjusting).usedTrafficBytes ≠
        (Machine.run step start adjusting).recorded := by
  rw [adjusting, Machine.run_cons, Machine.run_cons, Machine.run_nil, step_start]
  exact ⟨resetting_commits (by decide +kernel) (by decide +kernel), by decide +kernel⟩

/-- A reset of the member then drops the 10 GB as well. -/
theorem adjusted_not_kept :
    ¬ ∀ (s : TeamSubscription) (events : List Event),
      Machine.Meets step (fun s e => ∀ s', e.apply s = some s' → AddsUp s e s') s events := by
  intro h
  obtain ⟨hcommits, hne⟩ := adjusting_out_of_step
  obtain ⟨-, hrun⟩ := Machine.meets_append.1 (h start (adjusting ++ [resetting]))
  generalize Machine.run step start adjusting = s at hcommits hne hrun
  obtain ⟨s', hs'⟩ := Option.isSome_iff_exists.1 hcommits
  exact hne ((addsUp_iff hs').1 (hrun.1 s' hs'))

/-! ## Below 2^53 bytes -/

/-- The figures stand for the bytes. -/
structure Figures (s : TeamSubscription) : Prop where
  used : trafficGbNumberToBytes s.usedTrafficGb = s.usedTrafficBytes
  rows : ∀ row ∈ s.ledger, trafficBytesToGbNumber row.usedTrafficBytes = some row.usedTrafficGb

/-- Less than 2^53 bytes are counted. -/
def Small (s : TeamSubscription) : Prop := s.usedTrafficBytes < 2 ^ 53 ∧ s.recorded < 2 ^ 53

theorem figure_of_mem_rows {sampledAt : Nat} : ∀ {samples : List MemberSample} {rows : List Row},
    samples.mapM (·.row sampledAt) = some rows →
    ∀ row ∈ rows, trafficBytesToGbNumber row.usedTrafficBytes = some row.usedTrafficGb
  | [], rows, h => by
    obtain rfl : rows = [] := by simpa using h.symm
    simp
  | sample :: samples, rows, h => by
    rw [List.mapM_cons] at h
    simp only [MemberSample.row, Option.bind_eq_bind, Option.bind_eq_some_iff, Option.pure_def,
      Option.some.injEq] at h
    obtain ⟨row, ⟨gb, hgb, bytes, hbytes, rfl⟩, rows', hrows, rfl⟩ := h
    intro row hrow
    obtain rfl | hrow := List.mem_cons.1 hrow
    · rw [column_eq_some hbytes]
      exact hgb
    · exact figure_of_mem_rows hrows row hrow

/-- The figures of some rows add up without rounding. -/
theorem units_of_sum {rows : List Row} {a : Nat} {sum total : Double}
    (hrows : ∀ row ∈ rows, trafficBytesToGbNumber row.usedTrafficBytes = some row.usedTrafficGb)
    (hsmall : a + bytesOf rows < 2 ^ 53) (hsum : sum.units = a * perByte)
    (h : rows.foldlM (fun sum row => sum.add row.usedTrafficGb) sum = some total) :
    total.units = (a + bytesOf rows) * perByte := by
  induction rows generalizing a sum with
  | nil =>
    rw [List.foldlM_nil] at h
    rw [← Option.some.inj h]
    exact hsum
  | cons row rows ih =>
    rw [List.foldlM_cons, Option.bind_eq_bind, Option.bind_eq_some_iff] at h
    obtain ⟨sum', hadd, h⟩ := h
    have hbytes : bytesOf (row :: rows) = row.usedTrafficBytes + bytesOf rows := by simp [bytesOf]
    rw [hbytes, ← Nat.add_assoc] at hsmall ⊢
    have hrow := units_of_bytes (by omega) (hrows row List.mem_cons_self)
    exact ih (fun row hrow => hrows row (List.mem_cons_of_mem _ hrow)) hsmall
      (units_of_add (by omega) hsum hrow hadd) h

theorem perm_scanned (order rows : List Row) : (scanned order rows).Perm rows := by
  unfold scanned
  split_ifs with h
  · exact List.isPerm_iff.1 h
  · exact .refl _

/-- What an operation leaves is in step, as long as the bytes are few enough. -/
theorem figures_of_effect {s s' : TeamSubscription} {e : Event} (h : Figures s)
    (hsmall : Small s') (heffect : Effect s s' e) : Figures s' := by
  cases heffect with
  | billed hbilled hrows hused hgb hledger =>
    refine ⟨trafficGbNumberToBytes_of_bytes hsmall.1 hgb, fun row hrow => ?_⟩
    rw [hledger] at hrow
    obtain hrow | hrow := List.mem_append.1 hrow
    · exact h.rows row hrow
    · exact figure_of_mem_rows hrows row hrow
  | idle hidle hsame => exact hsame ▸ h
  | @memberReset userId order now hledger hused hgb =>
    have hrows : ∀ row ∈ s'.ledger,
        trafficBytesToGbNumber row.usedTrafficBytes = some row.usedTrafficGb := by
      intro row hrow
      rw [hledger] at hrow
      exact h.rows row (List.mem_filter.1 hrow).1
    have hperm := perm_scanned order s'.ledger
    have hbytes : bytesOf (scanned order s'.ledger) = bytesOf s'.ledger :=
      (hperm.map Row.usedTrafficBytes).sum_eq
    refine ⟨trafficGbNumberToBytes_of_units hsmall.1 ?_, hrows⟩
    have hsum := units_of_sum (a := 0) (fun row hrow => hrows row (hperm.mem_iff.1 hrow))
      (by rw [hbytes, Nat.zero_add]; exact hsmall.2) (by simp [Double.zero]) hgb
    rw [hsum, hbytes, Nat.zero_add, hused]
  | teamReset hledger hused hgb =>
    refine ⟨by rw [hgb, hused]; rfl, fun row hrow => ?_⟩
    rw [hledger] at hrow
    cases hrow
  | renewed hused hgb hledger =>
    exact ⟨by rw [hgb, hused, h.used], by rw [hledger]; exact h.rows⟩
  | planChanged hused hgb hledger =>
    exact ⟨by rw [hgb, hused, h.used], by rw [hledger]; exact h.rows⟩
  | updated hgb hused hledger => exact ⟨hused.symm, by rw [hledger]; exact h.rows⟩

theorem figures_step {s : TeamSubscription} {e : Event} (h : Figures s)
    (hsmall : Small (step s e)) :
    Figures (step s e) := by
  unfold step at hsmall ⊢
  cases happly : e.apply s with
  | none => exact h
  | some s' =>
    rw [happly] at hsmall
    exact figures_of_effect h hsmall (apply_effect happly)

/-- As long as less than 2^53 bytes are counted, the usage adds up if every member that is reset
has the used bytes and the ledger in step. -/
theorem team_usage_adds_up_below {s : TeamSubscription} (hs : Figures s) {events : List Event}
    (h : Machine.Meets step (fun s e => Small (step s e) ∧
      (e.member.isSome → s.usedTrafficBytes = s.recorded)) s events) :
    Machine.Meets step (fun s e => ∀ s', e.apply s = some s' → AddsUp s e s') s events := by
  refine Machine.meets_imp (I := Figures) (fun s e hs hcond => figures_step hs hcond.1)
    (fun s e hs hcond s' hs' => (addsUp_iff hs').2 ?_) hs h
  cases e with
  | batch sampledAt samples =>
    intro _ hzero
    rw [hs.used, hzero]
  | resetTraffic userId isMember order now =>
    cases userId with
    | none => cases hs'
    | some userId => exact hcond.2 rfl
  | renew totalTrafficGb expireAt reset now => trivial
  | changePlan plan totalTrafficGb expireAt now => trivial
  | update totalTrafficGb usedTrafficGb state expireAt now =>
    cases usedTrafficGb with
    | none => exact hs.used
    | some usedTrafficGb => trivial

end ChordV.Api.TeamUsage
