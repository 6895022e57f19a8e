import ChordV.Api.IdleSamples
import ChordV.NodeAgent.Store

/-!
# The Go agent meters like the Node agent

Two stores start with the same rows and go through the same steps, one with the `RecordSample` of
the Go agent and one with that of the Node agent.  The control plane applies the batches of each in
order, until it rejects one.

* `run_level`: after every call the rows are the same, and so are the users to disable.
* `Ready` is the invariant of the two runs and the control plane.  It says that the control plane
  holds the counters of the users that can be read.
* `Ready.call` keeps it over a call, and `call_agrees` compares the two batches of the call.
* `idle_samples_change_no_accounting` puts the results together.

Without `Holds` the two agents are billed differently.  `idle_samples_are_billed` has a run for each
of its conditions.
-/

namespace ChordV.NodeAgent

open Lib Agent Agent.Store
open Api (Database TrafficSnapshot Binding BatchKey Application applyDirectBatch baselineOf Settled
  SameBooks Alike Uncut Accepts billedSamples movingEntries movingEntries_filter
  applyDirectBatch_accepts applyDirectBatch_keys settled_of_applied)

/-! ## Runs -/

/-- A step of both stores. -/
inductive Step where
  /-- A call, with the time and whether the backend is online. -/
  | sample (counters : List AbsoluteCounter) (sampledAt : Nat) (backendOnline : Bool)
  /-- The row of a user is written between two calls: the user is added, enabled again or
  changed. -/
  | place (bindingId : String) (row : UserRow)

/-- `RecordSample` of one of the agents. -/
abbrev Sampler :=
  List AbsoluteCounter → Nat → Bool → Store → (Option UsageBatch × List String) × Store

/-- The store after a run, and what the calls returned. -/
structure Trace where
  store : Store
  batches : List UsageBatch := []
  disabled : List (List String) := []

/-- A run of the sampler. -/
def run (sampler : Sampler) : List Step → Store → Trace
  | [], s => { store := s }
  | .sample counters sampledAt online :: rest, s =>
    let ((batch, disabled), s') := sampler counters sampledAt online s
    let trace := run sampler rest s'
    { trace with batches := batch.toList ++ trace.batches, disabled := disabled :: trace.disabled }
  | .place bindingId row :: rest, s =>
    run sampler rest { s with rows := s.rows.insert bindingId row }

theorem run_sample (sampler : Sampler) (counters : List AbsoluteCounter) (sampledAt : Nat)
    (online : Bool) (rest : List Step) (s : Store) :
    run sampler (.sample counters sampledAt online :: rest) s =
      let called := sampler counters sampledAt online s
      let trace := run sampler rest called.2
      { trace with
        batches := called.1.1.toList ++ trace.batches
        disabled := called.1.2 :: trace.disabled } := rfl

/-- The control plane applies some batches in order: whether it took them all, and its state. -/
def deliver (agentId nodeId : String) : List UsageBatch → Database → Bool × Database
  | [], api => (true, api)
  | batch :: rest, api =>
    match applyDirectBatch agentId ⟨nodeId, batch.bootId, batch.sequence⟩ batch.sampledAt
        batch.samples api with
    | .ok (_, api') => deliver agentId nodeId rest api'
    | .error _ => (false, api)

/-- In every run the two agents have the same rows and disable the same users, call by call. -/
theorem run_level (steps : List Step) {s s' : Store} (h : s'.rows = s.rows) :
    (run recordSample steps s').store.rows = (run Store.recordSample steps s).store.rows ∧
      (run recordSample steps s').disabled = (run Store.recordSample steps s).disabled := by
  induction steps generalizing s s' with
  | nil => exact ⟨h, rfl⟩
  | cons step rest ih =>
    cases step with
    | sample counters sampledAt online =>
      obtain ⟨hrows, hdisable⟩ := recordSample_level h counters sampledAt online
      obtain ⟨hrest, hdisabled⟩ := ih hrows
      rw [run_sample, run_sample]
      exact ⟨hrest, by simp only [hdisable, hdisabled]⟩
    | place bindingId row => exact ih (by simp only [h])

/-! ## What the control plane holds -/

/-- The counters of a row, as a snapshot has them. -/
def readingOf (row : UserRow) : TrafficSnapshot :=
  { uplinkBytes := row.uplink, downlinkBytes := row.downlink, counterGeneration := row.generation }

/-- The addresses of a call differ.  A row that is written has a new baseline, or the counters that
it had. -/
def Along : List Step → Store → Prop
  | [], _ => True
  | .sample counters sampledAt online :: rest, s =>
    (counters.map (·.email)).Nodup ∧ Along rest (s.recordSample counters sampledAt online).2
  | .place bindingId row :: rest, s =>
    (row.counterInitialized = true → ∃ old, s.rows.lookup bindingId = some old ∧
      old.counterInitialized = true ∧ readingOf row = readingOf old) ∧
      Along rest { s with rows := s.rows.insert bindingId row }

/-- A user that is enabled again in a run. -/
def Reenabled (steps : List Step) (bindingId : String) : Prop :=
  ∃ row, .place bindingId row ∈ steps ∧ row.enabled = true ∧ row.counterInitialized = true

/-- A user that is there at the start of a run or added in it. -/
def Named (s : Store) (steps : List Step) (bindingId : String) : Prop :=
  (∃ row, s.rows.lookup bindingId = some row) ∨ ∃ row, .place bindingId row ∈ steps

/-- What the control plane holds of the users of a run. -/
structure Holds (nodeId : String) (s : Store) (steps : List Step) (api : Database) : Prop where
  /-- The counters of every user with a baseline that is enabled, or is enabled again. -/
  settled : ∀ b row, s.rows.lookup b = some row → row.counterInitialized = true →
    row.enabled = true ∨ Reenabled steps b → ∃ binding, Settled api nodeId b (readingOf row) binding
  /-- No binding has a stored cutoff. -/
  uncut : ∀ b, Named s steps b → Uncut api b
  /-- No two bindings share a snapshot. -/
  sole : ∀ b, Named s steps b → ∀ binding, api.bindings.lookup b = some binding →
    api.Sole binding.snapshotKey

/-- The invariant of a run: `Holds` with the users fixed. -/
structure Ready (reenabled users : String → Prop) (nodeId : String) (rows : Table String UserRow)
    (api : Database) : Prop where
  settled : ∀ b row, rows.lookup b = some row → row.counterInitialized = true →
    row.enabled = true ∨ reenabled b → ∃ binding, Settled api nodeId b (readingOf row) binding
  named : ∀ b row, rows.lookup b = some row → users b
  uncut : ∀ b, users b → Uncut api b
  sole : ∀ b, users b → ∀ binding, api.bindings.lookup b = some binding →
    api.Sole binding.snapshotKey

section Ready

variable {reenabled users : String → Prop} {agentId nodeId : String}
  {rows rows' : Table String UserRow} {api api' goApi : Database} {counters : List AbsoluteCounter}
  {t : Tick} {key key' : BatchKey} {sampledAt : Nat} {applied : Application}

theorem baselineOf_of_repeats {sample : UsageSample} {row : UserRow}
    (h : repeats sample row = true) :
    row.counterInitialized = true ∧ baselineOf sample = readingOf row := by
  simp only [repeats, Bool.and_eq_true, decide_eq_true_eq] at h
  obtain ⟨⟨hinit, hgeneration⟩, huplink, hdownlink⟩ := h
  exact ⟨hinit, by simp only [baselineOf, readingOf, hgeneration, huplink, hdownlink]⟩

/-- The control plane has what an idle sample says. -/
theorem Ready.idle (h : Ready reenabled users nodeId rows api) (hpassed : Passed rows counters t)
    {sample : UsageSample} (hsample : sample ∈ t.samples)
    (hidle : NodeAgent.idle rows sample = true) :
    ∃ binding, Settled api nodeId sample.bindingId (baselineOf sample) binding := by
  obtain ⟨row, row', counter, -, hrow, -, henabled, -⟩ := hpassed.read sample hsample
  rw [NodeAgent.idle, hrow, Option.any_some] at hidle
  obtain ⟨hinit, hreading⟩ := baselineOf_of_repeats hidle
  rw [hreading]
  exact h.settled _ row hrow hinit (.inl henabled)

theorem Ready.uncut_sample (h : Ready reenabled users nodeId rows api)
    (hpassed : Passed rows counters t) {sample : UsageSample} (hsample : sample ∈ t.samples) :
    users sample.bindingId ∧ Uncut api sample.bindingId := by
  obtain ⟨row, row', counter, -, hrow, -⟩ := hpassed.read sample hsample
  exact ⟨h.named _ row hrow, h.uncut _ (h.named _ row hrow)⟩

/-- After a call the control plane holds the new counters. -/
theorem Ready.call (h : Ready reenabled users nodeId rows api) (hpassed : Passed rows counters t)
    (hnode : key.nodeId = nodeId)
    (hrun : applyDirectBatch agentId key sampledAt t.samples api = .ok (applied, api')) :
    Ready reenabled users nodeId t.store.rows api' := by
  have hkeys := applyDirectBatch_keys hrun
  refine ⟨fun b row hrow hinit hread => ?_, fun b row hrow => ?_, fun b hb => ?_,
    fun b hb binding' hbinding' => ?_⟩
  · by_cases hnamed : ∃ sample ∈ t.samples, sample.bindingId = b
    · obtain ⟨sample, hsample, rfl⟩ := hnamed
      obtain ⟨hin, huncut⟩ := h.uncut_sample hpassed hsample
      obtain ⟨_, row', _, -, -, -, -, hrow', -, hrepeats⟩ := hpassed.read sample hsample
      rw [hrow] at hrow'
      cases hrow'
      rw [← (baselineOf_of_repeats hrepeats).2, ← hnode]
      exact settled_of_applied hrun hsample huncut (h.sole _ hin)
    · have hother : ∀ sample ∈ t.samples, sample.bindingId ≠ b := fun sample hsample heq =>
        hnamed ⟨sample, hsample, heq⟩
      rw [hpassed.other b hother] at hrow
      obtain ⟨binding, hsettled⟩ := h.settled b row hrow hinit hread
      exact hsettled.keep (h.sole b (h.named b row hrow) binding hsettled.binding) hrun hother
  · by_cases hnamed : ∃ sample ∈ t.samples, sample.bindingId = b
    · obtain ⟨sample, hsample, rfl⟩ := hnamed
      exact (h.uncut_sample hpassed hsample).1
    · rw [hpassed.other b fun sample hsample heq => hnamed ⟨sample, hsample, heq⟩] at hrow
      exact h.named b row hrow
  · exact (h.uncut b hb).applyDirectBatch hrun
  · have hkey := hkeys b
    rw [hbinding', Option.map_some] at hkey
    obtain ⟨binding, hbinding, heq⟩ := Option.map_eq_some_iff.1 hkey.symm
    rw [← heq]
    exact (h.sole b hb binding hbinding).of_keys hkeys

theorem Ready.place (h : Ready reenabled users nodeId rows api) {b : String} {row : UserRow}
    (hnamed : users b)
    (hreenabled : row.enabled = true → row.counterInitialized = true → reenabled b)
    (hkept : row.counterInitialized = true → ∃ old, rows.lookup b = some old ∧
      old.counterInitialized = true ∧ readingOf row = readingOf old) :
    Ready reenabled users nodeId (rows.insert b row) api := by
  refine ⟨fun b' row' hrow' hinit hread => ?_, fun b' row' hrow' => ?_, h.uncut, h.sole⟩
  · rw [Table.lookup_insert_ite] at hrow'
    split at hrow'
    · next heq =>
      cases hrow'
      obtain ⟨old, hold, holdInit, hreading⟩ := hkept hinit
      rw [heq, hreading]
      refine h.settled b old hold holdInit (.inr ?_)
      obtain henabled | hreenable := hread
      · exact hreenabled henabled hinit
      · exact heq ▸ hreenable
    · exact h.settled b' row' hrow' hinit hread
  · rw [Table.lookup_insert_ite] at hrow'
    split at hrow'
    · next heq => exact heq ▸ hnamed
    · exact h.named b' row' hrow'

/-! ## The two batches of a call -/

/-- The entries that move are those of the samples that are not idle. -/
theorem Ready.movingEntries (h : Ready reenabled users nodeId rows api)
    (hpassed : Passed rows counters t) (halike : Alike api goApi) (hnode : key.nodeId = nodeId)
    (hnode' : key'.nodeId = nodeId) :
    Api.movingEntries goApi (billedSamples goApi key'
        (t.samples.filter fun sample => !NodeAgent.idle rows sample)) =
      Api.movingEntries api (billedSamples api key t.samples) := by
  have huncut : ∀ sample ∈ t.samples.filter (fun sample => !NodeAgent.idle rows sample),
      Uncut api sample.bindingId := fun sample hsample =>
    (h.uncut_sample hpassed (List.mem_of_mem_filter hsample)).2
  rw [halike.movingEntries (hnode'.trans hnode.symm) huncut]
  refine movingEntries_filter fun sample hsample hidle => ?_
  rw [hnode]
  exact h.idle hpassed hsample hidle

/-- The control plane takes the batch of the Node agent if and only if it takes the one of the Go
agent, and the accounts are the same. -/
theorem Ready.call_agrees (h : Ready reenabled users nodeId rows api)
    (hpassed : Passed rows counters t) (hbooks : SameBooks api goApi) (key key' : BatchKey)
    (hnode : key.nodeId = nodeId) (hnode' : key'.nodeId = nodeId) (agentId : String)
    (sampledAt : Nat) :
    (∃ applied api' applied' goApi',
      applyDirectBatch agentId key sampledAt t.samples api = .ok (applied, api') ∧
      applyDirectBatch agentId key' sampledAt
        (t.samples.filter fun sample => !NodeAgent.idle rows sample) goApi =
          .ok (applied', goApi') ∧
      SameBooks api' goApi') ∨
    (∃ error error', applyDirectBatch agentId key sampledAt t.samples api = .error error ∧
      applyDirectBatch agentId key' sampledAt
        (t.samples.filter fun sample => !NodeAgent.idle rows sample) goApi = .error error') := by
  have hmoving := h.movingEntries hpassed hbooks.toAlike hnode hnode'
  have haccepts : ∀ sample ∈ t.samples, Accepts goApi key' sample ↔ Accepts api key sample :=
    fun sample hsample => hbooks.toAlike.accepts (hnode'.trans hnode.symm)
      (h.uncut_sample hpassed hsample).2
  cases hrun : applyDirectBatch agentId key sampledAt t.samples api with
  | ok result =>
    obtain ⟨applied, api'⟩ := result
    obtain ⟨hnodup, htaken, -⟩ := applyDirectBatch_accepts hrun
    obtain ⟨applied', goApi', hgo, hbooks'⟩ := hbooks.applyDirectBatch (hnode'.trans hnode.symm)
      (hnodup.sublist (List.filter_sublist.map _))
      (fun sample hsample => (haccepts sample (List.mem_of_mem_filter hsample)).2
        (htaken sample (List.mem_of_mem_filter hsample))) hmoving hrun
    exact .inl ⟨applied, api', applied', goApi', rfl, hgo, hbooks'⟩
  | error error =>
    cases hgo : applyDirectBatch agentId key' sampledAt
      (t.samples.filter fun sample => !NodeAgent.idle rows sample) goApi with
    | error error' => exact .inr ⟨error, error', rfl, rfl⟩
    | ok result =>
      obtain ⟨applied', goApi'⟩ := result
      obtain ⟨-, htaken, -⟩ := applyDirectBatch_accepts hgo
      have htaken' : ∀ sample ∈ t.samples, Accepts api key sample := by
        intro sample hsample
        cases hidle : NodeAgent.idle rows sample with
        | true =>
          obtain ⟨binding, hsettled⟩ := h.idle hpassed hsample hidle
          rw [← hnode] at hsettled
          exact hsettled.accepts
        | false =>
          refine (haccepts sample hsample).1 (htaken sample (List.mem_filter.2 ⟨hsample, ?_⟩))
          simp [hidle]
      obtain ⟨applied, api', hts, -⟩ := hbooks.symm.applyDirectBatch (hnode.trans hnode'.symm)
        hpassed.bindingIds htaken' hmoving.symm hgo
      rw [hrun] at hts
      cases hts

end Ready

/-! ## Runs and deliveries -/

/-- A call without samples cuts no batch, and a batch without samples changes nothing. -/
theorem deliver_cutBatch (agentId nodeId : String) (samples : List UsageSample) (sampledAt : Nat)
    (s : Store) (rest : List UsageBatch) (api : Database) :
    deliver agentId nodeId ((cutBatch samples sampledAt s).1.toList ++ rest) api =
      match applyDirectBatch agentId ⟨nodeId, s.bootId, s.sequenceOf⟩ sampledAt samples api with
      | .ok (_, api') => deliver agentId nodeId rest api'
      | .error _ => (false, api) := by
  cases samples with
  | nil => rfl
  | cons sample samples => rfl

/-- The two agents keep the accounts of the control plane the same. -/
theorem deliver_agrees (agentId : String) {reenabled users : String → Prop} {nodeId : String}
    {steps : List Step} {s s' : Store} {api goApi : Database} (hrows : s'.rows = s.rows)
    (h : Ready reenabled users nodeId s.rows api) (hbooks : SameBooks api goApi)
    (halong : Along steps s)
    (hplaced : ∀ b row, .place b row ∈ steps →
      users b ∧ (row.enabled = true → row.counterInitialized = true → reenabled b)) :
    let go := deliver agentId nodeId (run Store.recordSample steps s).batches goApi
    let node := deliver agentId nodeId (run recordSample steps s').batches api
    go.1 = node.1 ∧ SameBooks node.2 go.2 := by
  induction steps generalizing s s' api goApi with
  | nil => exact ⟨rfl, hbooks⟩
  | cons step rest ih =>
    have hrest := fun b row hmem => hplaced b row (List.mem_cons_of_mem step hmem)
    cases step with
    | sample counters sampledAt online =>
      obtain ⟨hemails, halong⟩ := halong
      obtain ⟨hpassed, hsamples⟩ := passed_foldl s hrows hemails online
      have hlevel := (recordSample_level hrows counters sampledAt online).1
      rw [run_sample, run_sample]
      dsimp only [recordSample, Store.recordSample] at hlevel halong ⊢
      generalize counters.foldl (foldOne online) { store := s } = t at *
      generalize counters.foldl (recordOne online) { store := s' } = t' at *
      have hcall := h.call_agrees hpassed hbooks ⟨nodeId, t'.store.bootId, t'.store.sequenceOf⟩
        ⟨nodeId, t.store.bootId, t.store.sequenceOf⟩ rfl rfl agentId sampledAt
      rw [← hsamples] at hcall
      rw [deliver_cutBatch, deliver_cutBatch]
      obtain ⟨applied, api', applied', goApi', hnode, hgo, hbooks'⟩ | ⟨error, error', hnode, hgo⟩ :=
        hcall
      · rw [hnode, hgo]
        refine ih hlevel ?_ hbooks' halong hrest
        rw [← hlevel, cutBatch_rows]
        exact h.call hpassed rfl hnode
      · rw [hnode, hgo]
        exact ⟨rfl, hbooks⟩
    | place b row =>
      obtain ⟨hkept, halong⟩ := halong
      obtain ⟨hnamed, hreenabled⟩ := hplaced b row List.mem_cons_self
      exact ih (by simp only [hrows]) (h.place hnamed hreenabled hkept) hbooks halong hrest

/-- The two agents have the same rows after every call and disable the same users.  If the control
plane holds the counters of the users of the run, it takes the batches of both agents or rejects
one of each, and the accounts end the same: the bindings, the snapshots, the subscriptions and the
ledger. -/
theorem idle_samples_change_no_accounting (agentId nodeId : String) (s : Store)
    (steps : List Step) :
    let go := run Store.recordSample steps s
    let node := run recordSample steps s
    go.store.rows = node.store.rows ∧ go.disabled = node.disabled ∧
      ∀ api, Along steps s → Holds nodeId s steps api →
        (deliver agentId nodeId go.batches api).1 = (deliver agentId nodeId node.batches api).1 ∧
          SameBooks (deliver agentId nodeId node.batches api).2
            (deliver agentId nodeId go.batches api).2 := by
  obtain ⟨hrows, hdisabled⟩ := run_level steps (rfl : s.rows = s.rows)
  refine ⟨hrows.symm, hdisabled.symm, fun api halong hholds => ?_⟩
  have hready : Ready (Reenabled steps) (Named s steps) nodeId s.rows api :=
    ⟨hholds.settled, fun b row hrow => .inl ⟨row, hrow⟩, hholds.uncut, hholds.sole⟩
  exact deliver_agrees agentId rfl hready (.refl api) halong fun b row hmem =>
    ⟨.inr ⟨row, hmem⟩, fun henabled hinit => ⟨row, hmem, henabled, hinit⟩⟩

/-! ## Runs that are billed -/

/-- What the enabled users alone ask of the control plane. -/
def HoldsEnabled (nodeId : String) (s : Store) (api : Database) : Prop :=
  ∀ b row, s.rows.lookup b = some row → row.enabled = true → row.counterInitialized = true →
    ∃ binding, Settled api nodeId b (readingOf row) binding ∧ binding.status = .active

namespace Idle

/-- The rows as a table. -/
def tableOf {α : Type} (rows : List (String × α)) : Table String α :=
  rows.foldl (fun t p => t.insert p.1 p.2) ∅

theorem mem_of_tableOf {α : Type} {rows : List (String × α)} {b : String} {a : α}
    (h : (tableOf rows).lookup b = some a) : (b, a) ∈ rows := by
  refine List.foldlRecOn (motive := fun t : Table String α => t.lookup b = some a → (b, a) ∈ rows)
    rows _ (fun h => by simp at h) (fun t ih p hp h => ?_) h
  obtain ⟨rfl, rfl⟩ | h := Table.lookup_of_insert h
  · exact hp
  · exact ih h

/-- A user of the node. -/
def user (email : String) (uplink : Nat) : UserRow :=
  { address := .real email, uuid := "", flow := "", enabled := true, revision := 1
    quotaRemaining := 100, offlineAllowance := 100, counterInitialized := true, uplink }

/-- A sample with these readings. -/
def read (readings : List (String × Nat)) : Step :=
  .sample (readings.map fun p => { email := p.1, uplinkBytes := p.2, downlinkBytes := 0 }) 1 true

/-- A binding of the panel. -/
def binding (subscriptionId : String) (userId : Option String) (uplink : Nat) : Binding :=
  { subscriptionId, userId, nodeId := "n", panelClientEmail := "", panelClientId := ""
    lastUplinkBytes := uplink }

/-- A run of both agents and of a control plane that holds the last counters of its bindings. -/
structure Scenario where
  users : List (String × UserRow)
  bindings : List (String × Binding)
  steps : List Step

namespace Scenario

/-- The store of the agent. -/
def store (r : Scenario) : Store := { rows := tableOf r.users }

/-- The tables of the panel. -/
def api (r : Scenario) : Database :=
  { nodes := tableOf [("n", {})]
    bindings := tableOf r.bindings
    snapshots := r.bindings.foldl
      (fun t p => t.insert p.2.snapshotKey { uplinkBytes := p.2.lastUplinkBytes }) ∅
    subscriptions := tableOf
      [("s", { expireAt := 1000, totalTrafficBytes := 1000, usedTrafficBytes := 10 }),
        ("t", { expireAt := 1000, totalTrafficBytes := 1000, usedTrafficBytes := 10 })] }

/-- The used bytes of a subscription after the run of one agent. -/
def used (r : Scenario) (sampler : Sampler) (subscriptionId : String) : Option Nat :=
  let delivered := deliver "agent" "n" (run sampler r.steps r.store).batches r.api
  (delivered.2.subscriptions.lookup subscriptionId).map (·.usedTrafficBytes)

end Scenario

/-- A disabled user is enabled again.  The control plane has not seen its last six bytes. -/
def reenabled : Scenario where
  users := [("a", { user "a" 10 with enabled := false })]
  bindings := [("a", binding "s" (some "u") 4)]
  steps := [.place "a" (user "a" 10), read [("a", 10)]]

/-- Two users share a snapshot. -/
def shared : Scenario where
  users := [("a", user "a" 0), ("b", user "b" 0)]
  bindings := [("a", binding "s" none 0), ("b", binding "s" none 0)]
  steps := [read [("a", 5), ("b", 0)], read [("a", 5), ("b", 0)], read [("a", 9), ("b", 0)]]

/-- A user is added whose binding was disabled with a cutoff at the sequence 2. -/
def added : Scenario where
  users := [("a", user "a" 10)]
  bindings :=
    [("a", binding "s" (some "u") 10),
      ("b", { binding "t" (some "u") 0 with
        status := .disabled, directDisableWatermarks := some [⟨"boot", 2⟩] })]
  steps := [read [("a", 10)], .place "b" { user "b" 0 with counterInitialized := false },
    read [("a", 10), ("b", 3)], read [("a", 10), ("b", 7)]]

/-- One user is idle, and then moves. -/
def moved : Scenario where
  users := [("a", user "a" 10)]
  bindings := [("a", binding "s" (some "u") 10)]
  steps := [read [("a", 10)], read [("a", 15)]]

theorem settled_moved : Settled moved.api "n" "a" (readingOf (user "a" 10))
    (binding "s" (some "u") 10) :=
  ⟨rfl, rfl, rfl, .inl rfl, rfl, rfl, rfl⟩

theorem holdsEnabled_reenabled : HoldsEnabled "n" reenabled.store reenabled.api := by
  intro b row hrow henabled
  obtain ⟨rfl, rfl⟩ : b = "a" ∧ row = { user "a" 10 with enabled := false } := by
    simpa [reenabled] using mem_of_tableOf hrow
  cases henabled

theorem holdsEnabled_shared : HoldsEnabled "n" shared.store shared.api := by
  intro b row hrow _ _
  obtain ⟨rfl, rfl⟩ | ⟨rfl, rfl⟩ : b = "a" ∧ row = user "a" 0 ∨ b = "b" ∧ row = user "b" 0 := by
    simpa [shared] using mem_of_tableOf hrow
  · exact ⟨binding "s" none 0, ⟨rfl, rfl, rfl, .inl rfl, rfl, rfl, rfl⟩, rfl⟩
  · exact ⟨binding "s" none 0, ⟨rfl, rfl, rfl, .inl rfl, rfl, rfl, rfl⟩, rfl⟩

theorem holdsEnabled_added : HoldsEnabled "n" added.store added.api := by
  intro b row hrow _ _
  obtain ⟨rfl, rfl⟩ : b = "a" ∧ row = user "a" 10 := by
    simpa [added] using mem_of_tableOf hrow
  exact ⟨binding "s" (some "u") 10, ⟨rfl, rfl, rfl, .inl rfl, rfl, rfl, rfl⟩, rfl⟩

theorem along_reenabled : Along reenabled.steps reenabled.store :=
  ⟨fun _ => ⟨{ user "a" 10 with enabled := false }, rfl, rfl, rfl⟩, by decide, trivial⟩

theorem along_shared : Along shared.steps shared.store :=
  ⟨by decide, by decide, by decide, trivial⟩

theorem along_added : Along added.steps added.store :=
  ⟨by decide, nofun, by decide, by decide, trivial⟩

theorem along_moved : Along moved.steps moved.store :=
  ⟨by decide, by decide, trivial⟩

theorem holds_moved : Holds "n" moved.store moved.steps moved.api := by
  have hnamed : ∀ b, Named moved.store moved.steps b → b = "a" := by
    rintro b (⟨row, hrow⟩ | ⟨row, hrow⟩)
    · exact (by simpa [moved] using mem_of_tableOf hrow : b = "a" ∧ row = user "a" 10).1
    · simp [moved, read] at hrow
  have hbinding : ∀ id b, moved.api.bindings.lookup id = some b →
      id = "a" ∧ b = binding "s" (some "u") 10 := by
    intro id b hb
    simpa [moved] using mem_of_tableOf hb
  refine ⟨fun b row hrow _ _ => ?_, fun b _ b' hb => ?_, fun b _ b' hb => ?_⟩
  · obtain ⟨rfl, rfl⟩ : b = "a" ∧ row = user "a" 10 := by
      simpa [moved] using mem_of_tableOf hrow
    exact ⟨_, settled_moved⟩
  · obtain ⟨rfl, rfl⟩ := hbinding b b' hb
    exact .inl rfl
  · intro id b₁ id' b₂ h₁ h₂ _ _
    rw [(hbinding id b₁ h₁).1, (hbinding id' b₂ h₂).1]

end Idle

open Idle in
/-- The control plane holds the counters of the enabled users of each run, and the Go agent and the
Node agent are billed differently. -/
theorem idle_samples_are_billed :
    (Along reenabled.steps reenabled.store ∧ HoldsEnabled "n" reenabled.store reenabled.api ∧
      reenabled.used Store.recordSample "s" = some 10 ∧
      reenabled.used recordSample "s" = some 16) ∧
    (Along shared.steps shared.store ∧ HoldsEnabled "n" shared.store shared.api ∧
      shared.used Store.recordSample "s" = some 19 ∧ shared.used recordSample "s" = some 15) ∧
    (Along added.steps added.store ∧ HoldsEnabled "n" added.store added.api ∧
      added.used Store.recordSample "t" = some 17 ∧ added.used recordSample "t" = some 13) :=
  ⟨⟨along_reenabled, holdsEnabled_reenabled, by decide +kernel, by decide +kernel⟩,
    ⟨along_shared, holdsEnabled_shared, by decide +kernel, by decide +kernel⟩,
    ⟨along_added, holdsEnabled_added, by decide +kernel, by decide +kernel⟩⟩

open Idle in
/-- The Go agent sends one batch and the Node agent two, and both are billed five bytes. -/
theorem idle_samples_change_no_accounting_moved :
    SameBooks (deliver "agent" "n" (run recordSample moved.steps moved.store).batches moved.api).2
        (deliver "agent" "n" (run Store.recordSample moved.steps moved.store).batches
          moved.api).2 ∧
      (run Store.recordSample moved.steps moved.store).batches.length = 1 ∧
      (run recordSample moved.steps moved.store).batches.length = 2 ∧
      moved.used Store.recordSample "s" = some 15 ∧ moved.used recordSample "s" = some 15 := by
  refine ⟨?_, by decide +kernel, by decide +kernel, by decide +kernel, by decide +kernel⟩
  have h := idle_samples_change_no_accounting "agent" "n" moved.store moved.steps
  exact (h.2.2 moved.api along_moved holds_moved).2

end ChordV.NodeAgent
