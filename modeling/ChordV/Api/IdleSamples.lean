import ChordV.Api.BatchArithmetic
import ChordV.Api.Billing

/-!
# Samples that bill nothing

A sample that repeats the counters which the snapshot and the binding hold has a delta of zero and
writes nothing, so a batch with it does what the batch without it does.

* `SameBooks` says that two states have the same bindings, baselines, subscriptions and ledger.
* `movingEntries` are the entries of a batch that are billed or written.  Two batches with the same
  moving entries keep `SameBooks` (`SameBooks.applyDirectBatch`).
* `Settled` says that the control plane holds a reading of a binding.  A batch keeps it for the
  bindings it does not name (`Settled.keep`), and makes it true for the ones it does
  (`settled_of_applied`).
-/

namespace ChordV.Api

open Lib Fallible

/-! ## The books -/

/-- Two states with the same accounts. -/
structure SameBooks (s t : Database) : Prop extends Alike s t where
  ledger : t.ledger = s.ledger

namespace SameBooks

variable {s t : Database}

theorem refl (s : Database) : SameBooks s s := ⟨.refl s, rfl⟩

theorem symm (h : SameBooks s t) : SameBooks t s := ⟨h.toAlike.symm, h.ledger.symm⟩

theorem trans {u : Database} (h : SameBooks s t) (h' : SameBooks t u) : SameBooks s u :=
  ⟨h.toAlike.trans h'.toAlike, h'.ledger.trans h.ledger⟩

end SameBooks

/-! ## The end of a batch -/

/-- What `applyDirectBatch` does with the entries it billed and wrote.  `read` are the tables as the
batch found them. -/
def settleBilled (nodeId agentId : String) (sampledAt : Nat) (billed : List (Entry × Nat))
    (read written : Database) : Except ApiError (Application × Database) := do
  let (disabled, transitions, charged) ←
    chargeAll read sampledAt (billed.foldl addUsage []) written
  let charged := { charged with ledger := charged.ledger ++ billed.filterMap (ledgerRow sampledAt) }
  if disabled.isEmpty then return ({ transitions }, charged)
  let (commandAgentIds, s) ← disableDirectBindingsForSubscriptions nodeId agentId disabled charged
  return ({ transitions, commandAgentIds }, s)

section Settle

variable {s t s' : Database} {key : BatchKey} {samples : List UsageSample} {sampledAt : Nat}
  {agentId : String} {applied : Application}

theorem disableDirectBindings_ledger {currentNodeId currentAgentId : String}
    {disabled agentIds : List String}
    (h : disableDirectBindingsForSubscriptions currentNodeId currentAgentId disabled s =
      .ok (agentIds, s')) : s'.ledger = s.ledger :=
  disableDirectBindings_induct (I := fun t => t.ledger = s.ledger)
    (fun _ _ _ _ _ _ ht hnode => (disableOnNode_ledger hnode).trans ht) rfl h

theorem chargeAll_ledger {read : Database} {usages : List Usage} {disabled : List String}
    {transitions : List SubscriptionTransition}
    (h : chargeAll read sampledAt usages s = .ok (disabled, transitions, s')) :
    s'.ledger = s.ledger := by
  obtain ⟨⟨subscriptions, rfl, -⟩, -⟩ := chargeAll_eq_ok h
  rfl

/-- The end of a batch depends on the usages and on the rows of the ledger. -/
theorem SameBooks.settleBilled {read read' written written' : Database} (hread : Alike read read')
    (h : SameBooks written written') {nodeId : String} {billed billed' : List (Entry × Nat)}
    (husages : billed'.foldl addUsage [] = billed.foldl addUsage [])
    (hrows : billed'.filterMap (ledgerRow sampledAt) = billed.filterMap (ledgerRow sampledAt))
    (hrun : Api.settleBilled nodeId agentId sampledAt billed read written = .ok (applied, s')) :
    ∃ applied' t', Api.settleBilled nodeId agentId sampledAt billed' read' written' =
      .ok (applied', t') ∧ SameBooks s' t' := by
  unfold Api.settleBilled at hrun ⊢
  obtain ⟨⟨disabled, transitions, charged⟩, hcharge, hrun⟩ := bind_eq_ok.1 hrun
  obtain ⟨charged', hcharge', hcharged⟩ := Alike.chargeAll hread h.toAlike hcharge
  have hledger : charged'.ledger = charged.ledger := by
    rw [chargeAll_ledger hcharge', chargeAll_ledger hcharge, h.ledger]
  have hbooks : SameBooks
      { charged with ledger := charged.ledger ++ billed.filterMap (ledgerRow sampledAt) }
      { charged' with ledger := charged'.ledger ++ billed.filterMap (ledgerRow sampledAt) } :=
    ⟨⟨hcharged.nodes, hcharged.bindings, hcharged.snapshots, hcharged.subscriptions⟩,
      by simp only [hledger]⟩
  rw [husages, hrows, hcharge', ok_bind]
  dsimp only at hrun ⊢
  split at hrun
  · next hnone =>
    cases hrun
    rw [if_pos hnone]
    exact ⟨_, _, rfl, hbooks⟩
  next hsome =>
  rw [if_neg hsome]
  obtain ⟨⟨agentIds, s₁⟩, hdisable, hrun⟩ := bind_eq_ok.1 hrun
  cases hrun
  obtain ⟨agentIds', t', hdisable', h'⟩ := hbooks.toAlike.disableDirectBindings hdisable
  rw [hdisable']
  refine ⟨_, _, rfl, h', ?_⟩
  rw [disableDirectBindings_ledger hdisable', disableDirectBindings_ledger hdisable]
  exact hbooks.ledger

/-! ## The samples that a batch takes -/

/-- A batch can take a sample, or leave it out. -/
def Accepts (s : Database) (key : BatchKey) (sample : UsageSample) : Prop :=
  ∃ entry, prepareSample s key sample = .ok entry ∧
    ∀ e, entry = some e → ∃ delta, entryDelta s e = .ok delta

/-- The first passes of a batch succeed if every sample is taken. -/
theorem exists_billed (h : ∀ sample ∈ samples, Accepts s key sample) :
    ∃ entries skipped, prepareSamples s key samples = .ok (entries, skipped) ∧
      billEntries s entries = .ok (billedSamples s key samples) := by
  have hprepare : samples.mapM (fun sample => do
      let entry ← prepareSample s key sample
      return (sample.bindingId, entry)) = .ok (samples.map fun sample =>
        (sample.bindingId, (prepareSample s key sample).toOption.join)) := by
    refine mapM_of_ok fun sample hsample => ?_
    obtain ⟨entry, hentry, -⟩ := h sample hsample
    rw [hentry]
    rfl
  have hprepared : ∃ entries skipped, prepareSamples s key samples = .ok (entries, skipped) := by
    unfold prepareSamples
    rw [hprepare]
    exact ⟨_, _, rfl⟩
  obtain ⟨entries, skipped, hprepared⟩ := hprepared
  have hentries := prepareSamples_entries hprepared
  have hbill : billEntries s entries =
      .ok (entries.map fun e => (e, (entryDelta s e).toOption.getD 0)) := by
    refine mapM_of_ok fun e he => ?_
    rw [hentries] at he
    obtain ⟨sample, hsample, he⟩ := List.mem_filterMap.1 he
    obtain ⟨entry, hentry, hdelta⟩ := h sample hsample
    rw [hentry] at he
    obtain ⟨delta, hdelta⟩ := hdelta e he
    rw [hdelta]
    rfl
  exact ⟨entries, skipped, hprepared, by rw [hbill, ← billed_eq hprepared hbill]⟩

/-- A batch that passes has taken every sample. -/
theorem accepts_of_billed {entries : List Entry} {skipped : List String}
    {billed : List (Entry × Nat)} (hprepare : prepareSamples s key samples = .ok (entries, skipped))
    (hbill : billEntries s entries = .ok billed) : ∀ sample ∈ samples, Accepts s key sample := by
  have hentries := prepareSamples_entries hprepare
  obtain ⟨prepared, hprepared, -⟩ := bind_eq_ok.1 hprepare
  intro sample hsample
  obtain ⟨p, hp⟩ := mapM_tested hprepared hsample
  obtain ⟨entry, hentry, -⟩ := bind_eq_ok.1 hp
  refine ⟨entry, hentry, ?_⟩
  rintro e rfl
  have he : e ∈ entries := by
    rw [hentries]
    exact List.mem_filterMap.2 ⟨sample, hsample, by rw [hentry]; rfl⟩
  obtain ⟨hmap, hdeltas⟩ := billEntries_eq_ok hbill
  rw [← hmap] at he
  obtain ⟨q, hq, rfl⟩ := List.mem_map.1 he
  exact ⟨q.2, hdeltas q hq⟩

/-- What an accepted batch has passed. -/
theorem applyDirectBatch_accepts
    (h : applyDirectBatch agentId key sampledAt samples s = .ok (applied, s')) :
    (samples.map (·.bindingId)).Nodup ∧ (∀ sample ∈ samples, Accepts s key sample) ∧
      ∃ skipped applied₁ s₁, settleBilled key.nodeId agentId sampledAt (billedSamples s key samples)
        s (writeEntries key (billedSamples s key samples) skipped s) = .ok (applied₁, s₁) ∧
          SameBooks s₁ s' := by
  unfold applyDirectBatch at h
  split at h
  · next hempty =>
    cases h
    obtain rfl := List.isEmpty_iff.1 hempty
    exact ⟨List.nodup_nil, List.forall_mem_nil _, [], _, _, rfl,
      ⟨rfl, rfl, rfl, rfl⟩, (List.append_nil _).symm⟩
  obtain ⟨_, hnodup, h⟩ := bind_eq_ok.1 h
  obtain ⟨⟨entries, skipped⟩, hprepare, h⟩ := bind_eq_ok.1 h
  obtain ⟨billed, hbill, h⟩ := bind_eq_ok.1 h
  obtain rfl := billed_eq hprepare hbill
  exact ⟨require_eq_ok.1 hnodup, accepts_of_billed hprepare hbill,
    skipped, applied, s', h, .refl s'⟩

/-- A batch that passes is accepted if its end succeeds. -/
theorem applyDirectBatch_of_accepts (hnodup : (samples.map (·.bindingId)).Nodup)
    (haccepts : ∀ sample ∈ samples, Accepts s key sample)
    (hrun : ∀ skipped, ∃ applied₁ s₁, settleBilled key.nodeId agentId sampledAt
      (billedSamples s key samples) s (writeEntries key (billedSamples s key samples) skipped s) =
        .ok (applied₁, s₁) ∧ SameBooks t s₁) :
    ∃ applied s', applyDirectBatch agentId key sampledAt samples s = .ok (applied, s') ∧
      SameBooks t s' := by
  cases samples with
  | nil =>
    obtain ⟨applied₁, s₁, hsettle, hbooks⟩ := hrun []
    cases hsettle
    exact ⟨_, _, rfl, hbooks.trans ⟨⟨rfl, rfl, rfl, rfl⟩, (List.append_nil _).symm⟩⟩
  | cons sample samples =>
    obtain ⟨entries, skipped, hprepare, hbill⟩ := exists_billed haccepts
    obtain ⟨applied₁, s₁, hsettle, hbooks⟩ := hrun skipped
    refine ⟨applied₁, s₁, ?_, hbooks⟩
    have hrequire : require ((sample :: samples).map (·.bindingId)).Nodup
        ApiError.duplicateBinding = .ok () := require_eq_ok.2 hnodup
    unfold applyDirectBatch
    rw [if_neg (show ¬(sample :: samples).isEmpty = true from Bool.false_ne_true), hrequire]
    simp only [ok_bind, hprepare, hbill]
    exact hsettle

end Settle

/-! ## The entries that move -/

/-- An entry that is neither written nor billed. -/
def idleEntry (s : Database) (p : Entry × Nat) : Bool := p.1.unchanged s && decide (p.2 = 0)

/-- The entries that are written or billed. -/
def movingEntries (s : Database) (billed : List (Entry × Nat)) : List (Entry × Nat) :=
  billed.filter fun p => !idleEntry s p

section Moving

variable {s t s' : Database} {sampledAt : Nat}

theorem changedEntries_moving (s : Database) (billed : List (Entry × Nat)) :
    changedEntries s (movingEntries s billed) = changedEntries s billed := by
  unfold changedEntries movingEntries idleEntry
  rw [List.filter_filter]
  refine List.filter_congr fun p _ => ?_
  cases p.1.unchanged s <;> simp

theorem foldl_addUsage_moving (s : Database) (billed : List (Entry × Nat)) (usages : List Usage) :
    (movingEntries s billed).foldl addUsage usages = billed.foldl addUsage usages := by
  unfold movingEntries
  rw [List.foldl_filter]
  refine List.foldl_ext _ _ _ fun usages p _ => ?_
  split
  · rfl
  · next hidle =>
    simp only [idleEntry, Bool.not_eq_true', Bool.not_eq_false, Bool.and_eq_true,
      decide_eq_true_eq] at hidle
    simp [addUsage, hidle.2]

theorem ledgerRow_of_zero {p : Entry × Nat} (h : p.2 = 0) : ledgerRow sampledAt p = none := by
  unfold ledgerRow
  split
  · rw [if_pos h]
  · rfl

theorem filterMap_ledgerRow_moving (s : Database) (billed : List (Entry × Nat)) :
    (movingEntries s billed).filterMap (ledgerRow sampledAt) =
      billed.filterMap (ledgerRow sampledAt) := by
  unfold movingEntries
  rw [List.filterMap_filter]
  refine List.filterMap_congr fun p _ => ?_
  split
  · rfl
  · next hidle =>
    simp only [idleEntry, Bool.not_eq_true', Bool.not_eq_false, Bool.and_eq_true,
      decide_eq_true_eq] at hidle
    exact (ledgerRow_of_zero hidle.2).symm

theorem writeEntries_untouched (key : BatchKey) (billed : List (Entry × Nat))
    (skipped : List String) (s : Database) :
    (writeEntries key billed skipped s).nodes = s.nodes ∧
      (writeEntries key billed skipped s).ledger = s.ledger :=
  List.foldlRecOn (motive := fun t : Database => t.nodes = s.nodes ∧ t.ledger = s.ledger) _ _
    ⟨rfl, rfl⟩ fun _ ht _ _ => ht

theorem Alike.changedEntries (h : Alike s t) (billed : List (Entry × Nat)) :
    Api.changedEntries t billed = Api.changedEntries s billed := by
  unfold Api.changedEntries Entry.unchanged
  rw [h.snapshots]

theorem SameBooks.writeEntries (h : SameBooks s t) {billed billed' : List (Entry × Nat)}
    (hmoving : movingEntries t billed' = movingEntries s billed) (key key' : BatchKey)
    (skipped skipped' : List String) :
    SameBooks (Api.writeEntries key billed skipped s)
      (Api.writeEntries key' billed' skipped' t) := by
  have hchanged : Api.changedEntries t billed' = Api.changedEntries s billed := by
    rw [← changedEntries_moving t, hmoving, h.toAlike.changedEntries, changedEntries_moving]
  obtain ⟨hnodes, hledger⟩ := writeEntries_untouched key billed skipped s
  obtain ⟨hnodes', hledger'⟩ := writeEntries_untouched key' billed' skipped' t
  exact {
    nodes := by rw [hnodes, hnodes', h.nodes]
    bindings := by rw [writeEntries_bindings, writeEntries_bindings, hchanged, h.bindings]
    snapshots := by rw [writeEntries_snapshots, writeEntries_snapshots, hchanged, h.snapshots]
    subscriptions := by
      rw [writeEntries_subscriptions, writeEntries_subscriptions, h.subscriptions]
    ledger := by rw [hledger, hledger', h.ledger] }

/-- Two batches with the same moving entries do the same to the accounts. -/
theorem SameBooks.applyDirectBatch (h : SameBooks s t) {key key' : BatchKey}
    (hnode : key'.nodeId = key.nodeId) {samples samples' : List UsageSample} {agentId : String}
    (hnodup : (samples'.map (·.bindingId)).Nodup)
    (haccepts : ∀ sample ∈ samples', Accepts t key' sample)
    (hmoving : movingEntries t (billedSamples t key' samples') =
      movingEntries s (billedSamples s key samples)) {applied : Application}
    (hrun : applyDirectBatch agentId key sampledAt samples s = .ok (applied, s')) :
    ∃ applied' t', Api.applyDirectBatch agentId key' sampledAt samples' t = .ok (applied', t') ∧
      SameBooks s' t' := by
  obtain ⟨-, -, skipped, applied₁, s₁, hsettle, hbooks⟩ := applyDirectBatch_accepts hrun
  refine applyDirectBatch_of_accepts hnodup haccepts fun skipped' => ?_
  obtain ⟨applied', t', hsettle', hbooks'⟩ := SameBooks.settleBilled h.toAlike
    (h.writeEntries hmoving key key' skipped skipped')
    (by rw [← foldl_addUsage_moving t (billedSamples t key' samples'), hmoving,
      foldl_addUsage_moving])
    (by rw [← filterMap_ledgerRow_moving t (billedSamples t key' samples'), hmoving,
      filterMap_ledgerRow_moving]) hsettle
  exact ⟨applied', t', by rw [hnode]; exact hsettle', hbooks.symm.trans hbooks'⟩

end Moving

/-! ## Readings that the control plane holds -/

/-- No stored cutoff decides about the samples of a binding. -/
def Uncut (s : Database) (bindingId : String) : Prop :=
  ∀ b, s.bindings.lookup bindingId = some b → b.status = .active ∨ b.directDisableWatermarks = none

/-- The control plane holds a reading of a direct binding of a node: the snapshot and the last
counters are the reading, and metering takes its samples. -/
structure Settled (s : Database) (nodeId bindingId : String) (reading : TrafficSnapshot)
    (b : Binding) : Prop where
  binding : s.bindings.lookup bindingId = some b
  node : b.nodeId = nodeId
  direct : b.source = .direct
  taken : b.status = .active ∨
    (b.status = .disabled ∨ b.status = .deleted) ∧ b.directDisableWatermarks = none
  uplink : b.lastUplinkBytes = reading.uplinkBytes
  downlink : b.lastDownlinkBytes = reading.downlinkBytes
  snapshot : s.snapshots.lookup b.snapshotKey = some reading

section Settled

variable {s t s' : Database} {key : BatchKey} {sample : UsageSample} {samples : List UsageSample}
  {b : Binding}

theorem behindCutoff_of_none (h : b.directDisableWatermarks = none) (bootId : String)
    (sequence : Nat) : b.behindCutoff bootId sequence = false := by
  rw [Binding.behindCutoff, h]

/-- A sample that repeats the reading is taken, and bills and writes nothing. -/
theorem Settled.billedSample (h : Settled s key.nodeId sample.bindingId (baselineOf sample) b) :
    prepareSample s key sample = .ok (some ⟨sample, b⟩) ∧ entryDelta s ⟨sample, b⟩ = .ok 0 ∧
      idleEntry s (⟨sample, b⟩, 0) = true := by
  have hsnapshot : s.snapshots.lookup (Entry.snapshotKey ⟨sample, b⟩) = some (baselineOf sample) :=
    h.snapshot
  refine ⟨?_, ?_, ?_⟩
  · unfold prepareSample
    rw [h.binding]
    dsimp only
    rw [if_neg (by simp [h.node, h.direct])]
    obtain hactive | ⟨hoff, hnone⟩ := h.taken
    · rw [hactive]
    · obtain hoff | hoff := hoff <;> rw [hoff] <;> dsimp only <;>
        rw [behindCutoff_of_none hnone, if_neg Bool.false_ne_true]
  · unfold entryDelta
    rw [hsnapshot]
    simp [baselineOf]
  · unfold idleEntry Entry.unchanged
    rw [hsnapshot]
    simp [baselineOf, Entry.baseline, h.uplink, h.downlink]

theorem Settled.accepts (h : Settled s key.nodeId sample.bindingId (baselineOf sample) b) :
    Accepts s key sample := by
  obtain ⟨hprepare, hdelta, -⟩ := h.billedSample
  refine ⟨_, hprepare, fun e he => ?_⟩
  cases he
  exact ⟨0, hdelta⟩

/-- Leaving out samples that repeat their readings leaves the moving entries. -/
theorem movingEntries_filter {idle : UsageSample → Bool}
    (h : ∀ sample ∈ samples, idle sample = true →
      ∃ b, Settled s key.nodeId sample.bindingId (baselineOf sample) b) :
    movingEntries s (billedSamples s key (samples.filter fun sample => !idle sample)) =
      movingEntries s (billedSamples s key samples) := by
  induction samples with
  | nil => rfl
  | cons sample samples ih =>
    replace ih := ih fun other hother => h other (List.mem_cons_of_mem _ hother)
    unfold billedSamples at ih ⊢
    cases hidle : idle sample with
    | false =>
      rw [List.filter_cons_of_pos (by simp [hidle]), List.filterMap_cons, List.filterMap_cons]
      cases billedSample s key sample with
      | none => exact ih
      | some p =>
        unfold movingEntries at ih ⊢
        simp only [List.filter_cons]
        rw [ih]
    | true =>
      obtain ⟨b, hsettled⟩ := h sample List.mem_cons_self hidle
      obtain ⟨hprepare, hdelta, hquiet⟩ := hsettled.billedSample
      have hbilled : Api.billedSample s key sample = some (⟨sample, b⟩, 0) := by
        unfold Api.billedSample
        rw [hprepare]
        simp only [Except.toOption, Option.join_some, Option.bind_some, hdelta, Option.map_some]
      rw [List.filter_cons_of_neg (by simp [hidle]), ih, List.filterMap_cons, hbilled]
      unfold movingEntries
      rw [List.filter_cons_of_neg (by simp [hquiet])]

/-- Without a cutoff a sample is taken under every sequence. -/
theorem Uncut.prepareSample (h : Uncut s sample.bindingId) {key' : BatchKey}
    (hnode : key'.nodeId = key.nodeId) :
    prepareSample s key' sample = prepareSample s key sample := by
  unfold Api.prepareSample
  cases hb : s.bindings.lookup sample.bindingId with
  | none => rfl
  | some b =>
    dsimp only
    rw [hnode]
    obtain hactive | hnone := h b hb
    · rw [hactive]
    · rw [behindCutoff_of_none hnone, behindCutoff_of_none hnone]

theorem Alike.idleEntry (h : Alike s t) (p : Entry × Nat) :
    Api.idleEntry t p = Api.idleEntry s p := by
  unfold Api.idleEntry Entry.unchanged
  rw [h.snapshots]

/-- The same samples move the same entries, whatever the sequence of the batch. -/
theorem Alike.movingEntries (h : Alike s t) {key' : BatchKey} (hnode : key'.nodeId = key.nodeId)
    (huncut : ∀ sample ∈ samples, Uncut s sample.bindingId) :
    Api.movingEntries t (billedSamples t key' samples) =
      Api.movingEntries s (billedSamples s key samples) := by
  have hbilled : billedSamples t key' samples = billedSamples s key samples := by
    refine List.filterMap_congr fun sample hsample => ?_
    unfold Api.billedSample
    rw [h.prepareSample, (huncut sample hsample).prepareSample hnode]
    simp only [h.entryDelta]
  unfold Api.movingEntries
  rw [hbilled]
  simp only [h.idleEntry]

theorem Alike.accepts (h : Alike s t) {key' : BatchKey} (hnode : key'.nodeId = key.nodeId)
    (huncut : Uncut s sample.bindingId) : Accepts t key' sample ↔ Accepts s key sample := by
  unfold Accepts
  rw [h.prepareSample, huncut.prepareSample hnode]
  simp only [h.entryDelta]

end Settled

/-! ## Batches and readings -/

section Batch

variable {s s' : Database} {key : BatchKey} {samples : List UsageSample} {agentId : String}
  {sampledAt : Nat} {applied : Application}

theorem sample_mem_of_billed {p : Entry × Nat} (h : p ∈ billedSamples s key samples) :
    p.1.sample ∈ samples := by
  obtain ⟨sample, hsample, h⟩ := List.mem_filterMap.1 h
  obtain ⟨e, he, h⟩ := Option.bind_eq_some_iff.1 h
  obtain ⟨delta, -, rfl⟩ := Option.map_eq_some_iff.1 h
  cases hprepare : prepareSample s key sample with
  | error _ =>
    rw [hprepare] at he
    cases he
  | ok entry =>
    rw [hprepare] at he
    obtain rfl : entry = some e := he
    rw [(prepareSample_eq_some hprepare).1]
    exact hsample

/-- A sample that metering takes without a cutoff. -/
theorem taken_of_prepared {sample : UsageSample} {e : Entry}
    (h : prepareSample s key sample = .ok (some e)) (huncut : Uncut s sample.bindingId) :
    e.binding.status = .active ∨ (e.binding.status = .disabled ∨ e.binding.status = .deleted) ∧
      e.binding.directDisableWatermarks = none := by
  obtain ⟨-, hb, -, -⟩ := prepareSample_eq_some h
  obtain hactive | hnone := huncut _ hb
  · exact .inl hactive
  · cases hstatus : e.binding.status with
    | active => exact .inl rfl
    | disabled => exact .inr ⟨.inl rfl, hnone⟩
    | deleted => exact .inr ⟨.inr rfl, hnone⟩
    | other name =>
      unfold prepareSample at h
      rw [hb] at h
      dsimp only at h
      rw [hstatus] at h
      split at h <;> cases h

/-- The end of a batch charges, and disables bindings. -/
theorem settleBilled_eq_ok {nodeId : String} {billed : List (Entry × Nat)} {read written : Database}
    (h : settleBilled nodeId agentId sampledAt billed read written = .ok (applied, s')) :
    ∃ disabled subscriptions ledger agentIds,
      disableDirectBindingsForSubscriptions nodeId agentId disabled
        { written with subscriptions, ledger } = .ok (agentIds, s') := by
  obtain ⟨⟨disabled, transitions, charged⟩, hcharge, h⟩ := bind_eq_ok.1 h
  obtain ⟨⟨subscriptions, rfl, -⟩, -⟩ := chargeAll_eq_ok hcharge
  refine ⟨disabled, subscriptions, written.ledger ++ billed.filterMap (ledgerRow sampledAt), ?_⟩
  dsimp only at h
  split at h
  · next hnone =>
    cases h
    rw [List.isEmpty_iff] at hnone
    subst hnone
    exact ⟨[], disableDirectBindingsForSubscriptions_nil⟩
  · obtain ⟨⟨agentIds, s₁⟩, hdisable, h⟩ := bind_eq_ok.1 h
    cases h
    exact ⟨agentIds, hdisable⟩

/-- A binding is left as it is, or disabled. -/
def LeftOrDisabled (f : Binding → Binding) : Prop :=
  f = id ∨ ∃ revision, f = Binding.disabledAt revision

theorem LeftOrDisabled.snapshotKey {f : Binding → Binding} (h : LeftOrDisabled f) (b : Binding) :
    (f b).snapshotKey = b.snapshotKey := by
  obtain rfl | ⟨revision, rfl⟩ := h <;> rfl

/-- An accepted batch writes its entries and disables some bindings. -/
theorem exists_written
    (hrun : applyDirectBatch agentId key sampledAt samples s = .ok (applied, s')) :
    Batched s (billedSamples s key samples) ∧ ∃ skipped,
      s'.snapshots = (writeEntries key (billedSamples s key samples) skipped s).snapshots ∧
      ∀ id, ∃ f, LeftOrDisabled f ∧ s'.bindings.lookup id =
        ((writeEntries key (billedSamples s key samples) skipped s).bindings.lookup id).map f := by
  obtain ⟨hnodup, haccepts, skipped, applied₁, s₁, hsettle, hbooks⟩ := applyDirectBatch_accepts hrun
  obtain ⟨entries, skipped', hprepare, hbill⟩ := exists_billed haccepts
  obtain ⟨disabled, subscriptions, ledger, agentIds, hdisable⟩ := settleBilled_eq_ok hsettle
  refine ⟨.of_prepared hnodup hprepare hbill, skipped, ?_, fun id => ?_⟩
  · rw [hbooks.snapshots]
    exact (disableDirectBindings_quiet hdisable).snapshots
  · obtain ⟨hreached, hleft⟩ := disableDirectBindings_lookup hdisable id
    dsimp only at hreached hleft
    rw [hbooks.bindings]
    cases hb : (writeEntries key (billedSamples s key samples) skipped s).bindings.lookup id with
    | none =>
      refine ⟨_, .inl rfl, ?_⟩
      rw [hleft (by simp [hb]), hb, Option.map_none]
    | some b =>
      cases hdecide : b.reached disabled with
      | true =>
        obtain ⟨node, -, hdisabled⟩ := hreached b hb hdecide
        exact ⟨_, .inr ⟨_, rfl⟩, hdisabled⟩
      | false =>
        refine ⟨_, .inl rfl, ?_⟩
        rw [hleft (by simpa [hb] using hdecide), hb]
        rfl

/-- A batch keeps the keys of the bindings. -/
theorem applyDirectBatch_keys
    (hrun : applyDirectBatch agentId key sampledAt samples s = .ok (applied, s')) (id : String) :
    (s'.bindings.lookup id).map Binding.snapshotKey =
      (s.bindings.lookup id).map Binding.snapshotKey := by
  obtain ⟨-, skipped, -, hbindings⟩ := exists_written hrun
  obtain ⟨f, hf, hlookup⟩ := hbindings id
  rw [hlookup, Option.map_map, ← writeEntries_keys key (billedSamples s key samples) skipped s id]
  congr 1
  funext b
  exact hf.snapshotKey b

/-- What the batch writes to a binding are its counters. -/
theorem writeEntries_lookup {billed : List (Entry × Nat)} (skipped : List String) {id : String}
    {b' : Binding} (h : (writeEntries key billed skipped s).bindings.lookup id = some b') :
    ∃ b, s.bindings.lookup id = some b ∧ b'.nodeId = b.nodeId ∧ b'.source = b.source ∧
      b'.status = b.status ∧ b'.directDisableWatermarks = b.directDisableWatermarks := by
  have hall : ∀ b', (writeEntries key billed skipped s).bindings.lookup id = some b' →
      ∃ b, s.bindings.lookup id = some b ∧ b'.nodeId = b.nodeId ∧ b'.source = b.source ∧
        b'.status = b.status ∧ b'.directDisableWatermarks = b.directDisableWatermarks := by
    rw [writeEntries_bindings]
    refine List.foldlRecOn (motive := fun t : Table String Binding => ∀ b', t.lookup id = some b' →
      ∃ b, s.bindings.lookup id = some b ∧ b'.nodeId = b.nodeId ∧ b'.source = b.source ∧
        b'.status = b.status ∧ b'.directDisableWatermarks = b.directDisableWatermarks) _ _
      (fun b' h => ⟨b', h, rfl, rfl, rfl, rfl⟩) fun t ht p _ b' h => ?_
    rw [Table.lookup_modify] at h
    split at h
    · next heq =>
      obtain ⟨b₁, hb₁, rfl⟩ := Option.map_eq_some_iff.1 h
      exact ht b₁ (heq ▸ hb₁)
    · exact ht b' h
  exact hall b' h

theorem Uncut.applyDirectBatch {id : String} (h : Uncut s id)
    (hrun : applyDirectBatch agentId key sampledAt samples s = .ok (applied, s')) :
    Uncut s' id := by
  obtain ⟨-, skipped, -, hbindings⟩ := exists_written hrun
  intro b hb
  obtain ⟨f, hf, hlookup⟩ := hbindings id
  rw [hb] at hlookup
  obtain ⟨b₁, hb₁, rfl⟩ := Option.map_eq_some_iff.1 hlookup.symm
  obtain ⟨b₀, hb₀, -, -, hstatus, hwatermarks⟩ := writeEntries_lookup skipped hb₁
  obtain rfl | ⟨revision, rfl⟩ := hf
  · have hopen := h b₀ hb₀
    rw [← hstatus, ← hwatermarks] at hopen
    exact hopen
  · exact .inr rfl

/-- The control plane goes on holding a reading after the binding was left or disabled. -/
theorem Settled.left {id nodeId : String} {reading : TrafficSnapshot} {b : Binding}
    (h : Settled s nodeId id reading b) {f : Binding → Binding} (hf : LeftOrDisabled f)
    (hsnapshots : s'.snapshots = s.snapshots)
    (hlookup : s'.bindings.lookup id = (s.bindings.lookup id).map f) :
    Settled s' nodeId id reading (f b) := by
  have hbinding : s'.bindings.lookup id = some (f b) := by rw [hlookup, h.binding, Option.map_some]
  have hsnapshot : s'.snapshots.lookup (f b).snapshotKey = some reading := by
    rw [hf.snapshotKey, hsnapshots, h.snapshot]
  obtain rfl | ⟨revision, rfl⟩ := hf
  · exact ⟨hbinding, h.node, h.direct, h.taken, h.uplink, h.downlink, hsnapshot⟩
  · exact ⟨hbinding, h.node, h.direct, .inr ⟨.inl rfl, rfl⟩, h.uplink, h.downlink, hsnapshot⟩

/-- A batch keeps the readings of the bindings that it does not name. -/
theorem Settled.keep {id nodeId : String} {reading : TrafficSnapshot} {b : Binding}
    (h : Settled s nodeId id reading b) (hsole : s.Sole b.snapshotKey)
    (hrun : Api.applyDirectBatch agentId key sampledAt samples s = .ok (applied, s'))
    (hother : ∀ sample ∈ samples, sample.bindingId ≠ id) :
    ∃ b', Settled s' nodeId id reading b' := by
  obtain ⟨hbatched, skipped, hsnapshots, hbindings⟩ := exists_written hrun
  obtain ⟨f, hf, hlookup⟩ := hbindings id
  have hunnamed : ∀ p ∈ billedSamples s key samples, p.1.sample.bindingId ≠ id :=
    fun p hp => hother p.1.sample (sample_mem_of_billed hp)
  have habsent : ∀ p ∈ billedSamples s key samples, p.1.snapshotKey ≠ b.snapshotKey :=
    fun p hp heq =>
      hunnamed p hp (hsole _ _ _ _ (hbatched.bindings p hp).1 h.binding heq rfl)
  have hwritten : Settled (writeEntries key (billedSamples s key samples) skipped s) nodeId id
      reading b := by
    refine ⟨?_, h.node, h.direct, h.taken, h.uplink, h.downlink, ?_⟩
    · rw [writeEntries_unnamed key skipped hunnamed, h.binding]
    · rw [snapshot_of_absent habsent, h.snapshot]
  exact ⟨f b, hwritten.left hf hsnapshots hlookup⟩

/-- A batch makes the control plane hold the readings of its samples. -/
theorem settled_of_applied
    (hrun : applyDirectBatch agentId key sampledAt samples s = .ok (applied, s'))
    {sample : UsageSample} (hsample : sample ∈ samples) (huncut : Uncut s sample.bindingId)
    (hsole : ∀ b, s.bindings.lookup sample.bindingId = some b → s.Sole b.snapshotKey) :
    ∃ b, Settled s' key.nodeId sample.bindingId (baselineOf sample) b := by
  obtain ⟨hbatched, skipped, hsnapshots, hbindings⟩ := exists_written hrun
  obtain ⟨f, hf, hlookup⟩ := hbindings sample.bindingId
  obtain ⟨entry, hentry, hdelta⟩ := (applyDirectBatch_accepts hrun).2.1 sample hsample
  cases entry with
  | none =>
    obtain ⟨b, hb, -, -, hoff, hcut⟩ := prepareSample_eq_none hentry
    obtain hactive | hnone := huncut b hb
    · simp [hactive] at hoff
    · rw [behindCutoff_of_none hnone] at hcut
      cases hcut
  | some e =>
    obtain ⟨delta, hdelta⟩ := hdelta e rfl
    obtain ⟨rfl, hb, hnode, hdirect⟩ := prepareSample_eq_some hentry
    have hbilled : (e, delta) ∈ billedSamples s key samples := by
      refine List.mem_filterMap.2 ⟨e.sample, hsample, ?_⟩
      unfold billedSample
      rw [hentry]
      simp only [Except.toOption, Option.join_some, Option.bind_some, hdelta, Option.map_some]
    have hwritten : Settled (writeEntries key (billedSamples s key samples) skipped s) key.nodeId
        e.sample.bindingId (baselineOf e.sample) { e.binding with
          lastUplinkBytes := e.sample.uplinkBytes, lastDownlinkBytes := e.sample.downlinkBytes } :=
      { binding := hbatched.lookup_binding hbilled
        node := hnode
        direct := hdirect
        taken := taken_of_prepared hentry huncut
        uplink := rfl
        downlink := rfl
        snapshot := hbatched.lookup_snapshot (hsole _ hb) hbilled rfl }
    exact ⟨_, hwritten.left hf hsnapshots hlookup⟩

end Batch

end ChordV.Api
