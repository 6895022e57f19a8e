import Mathlib.Data.List.Chain
import ChordV.Api.Effects

/-!
# Baselines

The bytes a sample bills are its growth over a baseline, which is kept twice: in the traffic
snapshot of its key, and in the last counters of its binding.  Metering writes both.  An
activation and a traffic reset copy one to the other.

* `Quiet` says that a transaction leaves both copies alone.  All commands and all disables do.
* `Baseline` is the invariant of a key: both copies hold the last billed reading, and every
  billed sample grew over the one before it.
* A batch keeps it (`Baseline.writeEntries`), and so does a traffic reset
  (`Baseline.resetTraffic`), which writes back the reading that is there.
* The activation of a deleted binding writes zero and keeps the generation of the snapshot.
  `deleted_binding_is_billed_again` is a run that bills a reading twice, and
  `samples_bill_their_growth` is the statement about all runs without such an activation.
-/

namespace ChordV.Api

open Lib Fallible

/-! ## The billed samples of a key -/

/-- The sample that an event billed to a key, with its bytes. -/
def Event.billedTo (key : SnapshotKey) : Event → Option (UsageSample × Nat)
  | .billed _ key' sample delta => if key' = key then some (sample, delta) else none
  | _ => none

/-- The accepted samples of a key, in the order in which they were billed. -/
def Database.billedTo (s : Database) (key : SnapshotKey) : List (UsageSample × Nat) :=
  s.log.filterMap (Event.billedTo key)

/-- The second of two samples bills what it grew, if its counters went on. -/
def BillsGrowth (p q : UsageSample × Nat) : Prop :=
  p.1.counterGeneration = q.1.counterGeneration →
    p.1.uplinkBytes ≤ q.1.uplinkBytes → p.1.downlinkBytes ≤ q.1.downlinkBytes →
    q.2 = (q.1.uplinkBytes - p.1.uplinkBytes) + (q.1.downlinkBytes - p.1.downlinkBytes)

instance (p q : UsageSample × Nat) : Decidable (BillsGrowth p q) := by
  unfold BillsGrowth
  infer_instance

/-- The baseline that a sample leaves behind. -/
def baselineOf (sample : UsageSample) : TrafficSnapshot :=
  { uplinkBytes := sample.uplinkBytes, downlinkBytes := sample.downlinkBytes
    counterGeneration := sample.counterGeneration }

/-! ## Transactions that leave the baselines alone -/

/-- The key and the counters of a binding are the same, and it stays direct. -/
structure Binding.Continues (b b' : Binding) : Prop where
  key : b'.snapshotKey = b.snapshotKey
  uplink : b'.lastUplinkBytes = b.lastUplinkBytes
  downlink : b'.lastDownlinkBytes = b.lastDownlinkBytes
  direct : b.source = .direct → b'.source = .direct

theorem Binding.Continues.refl (b : Binding) : b.Continues b := ⟨rfl, rfl, rfl, id⟩

theorem Binding.Continues.trans {b b' b'' : Binding} (h : b.Continues b') (h' : b'.Continues b'') :
    b.Continues b'' :=
  ⟨h'.key.trans h.key, h'.uplink.trans h.uplink, h'.downlink.trans h.downlink, h'.direct ∘ h.direct⟩

/-- A change that leaves the baselines alone. -/
structure Quiet (s s' : Database) : Prop where
  snapshots : s'.snapshots = s.snapshots
  log : s'.log = s.log
  bindings : ∀ id, Option.Rel Binding.Continues (s.bindings.lookup id) (s'.bindings.lookup id)

namespace Quiet

variable {s s' s'' : Database}

theorem rel_refl : ∀ o : Option Binding, Option.Rel Binding.Continues o o
  | none => .none
  | some b => .some (.refl b)

theorem refl (s : Database) : Quiet s s := ⟨rfl, rfl, fun _ => rel_refl _⟩

theorem trans (h : Quiet s s') (h' : Quiet s' s'') : Quiet s s'' := by
  refine ⟨h'.snapshots.trans h.snapshots, h'.log.trans h.log, fun id => ?_⟩
  have hfirst := h.bindings id
  have hsecond := h'.bindings id
  revert hfirst hsecond
  cases s.bindings.lookup id <;> cases s'.bindings.lookup id <;> cases s''.bindings.lookup id <;>
    rintro ⟨⟩ ⟨⟩
  · exact .none
  · next hbb' hb'b'' => exact .some (hbb'.trans hb'b'')

/-- The other tables are free to change. -/
theorem of_eq (hsnapshots : s'.snapshots = s.snapshots) (hlog : s'.log = s.log)
    (hbindings : s'.bindings = s.bindings) : Quiet s s' :=
  ⟨hsnapshots, hlog, fun _ => hbindings ▸ rel_refl _⟩

theorem foldl {α : Type} {f : Database → α → Database} (hf : ∀ s x, Quiet s (f s x))
    (xs : List α) (s : Database) : Quiet s (xs.foldl f s) :=
  List.foldlRecOn (motive := fun t => Quiet s t) xs f (refl s) fun t ht x _ => ht.trans (hf t x)

/-- The update of a binding that keeps its counters. -/
theorem modify (s : Database) (id : String) {f : Binding → Binding}
    (hf : ∀ b : Binding, b.Continues (f b)) :
    Quiet s { s with bindings := s.bindings.modify id f } := by
  refine ⟨rfl, rfl, fun id' => ?_⟩
  rw [Table.lookup_modify]
  split
  · next heq =>
    rw [heq]
    cases s.bindings.lookup id with
    | none => exact .none
    | some b => exact .some (hf b)
  · exact rel_refl _

theorem insert {id : String} {b b' : Binding} (hb : s.bindings.lookup id = some b)
    (h : b.Continues b') : Quiet s { s with bindings := s.bindings.insert id b' } := by
  refine ⟨rfl, rfl, fun id' => ?_⟩
  rw [Table.lookup_insert_ite]
  split
  · next heq =>
    rw [heq, hb]
    exact .some h
  · exact rel_refl _

end Quiet

section Quiet

variable {s s' : Database}

theorem bumpRevision_quiet {nodeId : String} {revision : Nat}
    (h : bumpRevision nodeId s = .ok (revision, s')) : Quiet s s' := by
  obtain ⟨node, -, -, rfl⟩ := bumpRevision_eq_ok h
  exact .of_eq rfl rfl rfl

theorem autoDisable_quiet (nodeId agentId : String) (revision : Nat) (s : Database)
    (p : String × Binding) : Quiet s (autoDisable nodeId agentId revision s p) := by
  unfold autoDisable
  split
  · exact .refl s
  · exact .of_eq rfl rfl rfl

theorem disableAt_quiet (revision : Nat) (s : Database) (p : String × Binding) :
    Quiet s (disableAt revision s p) := Quiet.modify s p.1 fun _ => ⟨rfl, rfl, rfl, fun h => h⟩

theorem disableOnNode_quiet {currentNodeId currentAgentId nodeId : String}
    {bindings : List (String × Binding)} {agentIds : List String}
    (h : disableOnNode currentNodeId currentAgentId nodeId bindings s = .ok (agentIds, s')) :
    Quiet s s' := by
  obtain ⟨revision, s₁, hbump, hrest⟩ := disableOnNode_eq_ok h
  have hdisabled : Quiet s (bindings.foldl (disableAt revision) s₁) :=
    (bumpRevision_quiet hbump).trans
      (Quiet.foldl (disableAt_quiet revision) bindings s₁)
  rcases hrest with ⟨rfl, -⟩ | ⟨agentId, rfl, -⟩
  · exact hdisabled
  · exact hdisabled.trans (Quiet.foldl (autoDisable_quiet nodeId agentId revision) bindings _)

theorem disableDirectBindings_quiet {currentNodeId currentAgentId : String}
    {disabled agentIds : List String}
    (h : disableDirectBindingsForSubscriptions currentNodeId currentAgentId disabled s =
      .ok (agentIds, s')) : Quiet s s' :=
  disableDirectBindings_induct (I := fun t => Quiet s t)
    (fun _ _ _ _ _ _ ht hnode => ht.trans (disableOnNode_quiet hnode)) (.refl s) h

theorem queueDirectBindingCommand_quiet {type : CommandType} {payload : Binding → Agent.Payload}
    {bindingId : String} (h : queueDirectBindingCommand type payload bindingId s = .ok s') :
    Quiet s s' := by
  obtain ⟨binding, node, agentId, hbinding, -, -, rfl⟩ := queueDirectBindingCommand_eq_ok h
  have hcontinues : binding.Continues { binding with
      source := .direct, directRevision := node.agentConfigRevision + 1 } :=
    ⟨rfl, rfl, rfl, fun _ => rfl⟩
  exact (Quiet.insert hbinding hcontinues).trans (.of_eq rfl rfl rfl)

theorem queueAll_quiet {type : CommandType} {bindingIds : List String}
    (h : queueAll type bindingIds s = .ok s') : Quiet s s' :=
  foldlM_induct (I := fun t => Quiet s t)
    (fun _ _ _ _ ht hstep => ht.trans (queueDirectBindingCommand_quiet hstep)) (.refl s) h

theorem markBindings_quiet (status : BindingStatus) (old : List BindingStatus)
    (bindingIds : List String) (s : Database) : Quiet s (markBindings status old bindingIds s) := by
  refine ⟨rfl, rfl, fun id => ?_⟩
  rw [lookup_markBindings]
  split
  · cases s.bindings.lookup id with
    | none => exact .none
    | some b =>
      refine .some ?_
      unfold Binding.marked
      split
      · exact ⟨rfl, rfl, rfl, fun h => h⟩
      · exact .refl b
  · exact Quiet.rel_refl _

theorem recordWatermarks_quiet (nodeId : String) (job : Job) (watermarks : Option (List Watermark))
    (s : Database) : Quiet s (recordWatermarks nodeId job watermarks s) := by
  unfold recordWatermarks
  split
  · exact .refl s
  · split
    · refine Quiet.modify s _ fun b => ?_
      split
      · exact ⟨rfl, rfl, rfl, fun h => h⟩
      · exact .refl b
    · exact .refl s

end Quiet

/-! ## The invariant of a key -/

/-- At most one binding has the key, as the schema demands for a key with a user. -/
def Database.Sole (s : Database) (key : SnapshotKey) : Prop :=
  ∀ id b id' b', s.bindings.lookup id = some b → s.bindings.lookup id' = some b' →
    b.snapshotKey = key → b'.snapshotKey = key → id = id'

/-- Both copies of the baseline hold a reading. -/
structure Database.HoldsReading (s : Database) (key : SnapshotKey) (sample : UsageSample) :
    Prop where
  snapshot : s.snapshots.lookup key = some (baselineOf sample)
  binding : ∃ id b, s.bindings.lookup id = some b ∧ b.snapshotKey = key ∧ b.source = .direct ∧
    b.lastUplinkBytes = sample.uplinkBytes ∧ b.lastDownlinkBytes = sample.downlinkBytes

/-- The baseline of a key is its last billed reading. -/
structure Baseline (key : SnapshotKey) (s : Database) : Prop where
  sole : s.Sole key
  held : ∀ p, (s.billedTo key).getLast? = some p → s.HoldsReading key p.1
  growth : (s.billedTo key).IsChain BillsGrowth

section Baseline

variable {s s' : Database} {key : SnapshotKey}

theorem Database.Sole.of_keys (h : s.Sole key)
    (hkeys : ∀ id, (s'.bindings.lookup id).map Binding.snapshotKey =
      (s.bindings.lookup id).map Binding.snapshotKey) : s'.Sole key := by
  have hback : ∀ id b', s'.bindings.lookup id = some b' → b'.snapshotKey = key →
      ∃ b, s.bindings.lookup id = some b ∧ b.snapshotKey = key := by
    intro id b' hb' hkey
    have hmap := hkeys id
    rw [hb', Option.map_some, hkey] at hmap
    exact Option.map_eq_some_iff.1 hmap.symm
  intro id b₁ id' b₂ hb₁ hb₂ hkey₁ hkey₂
  obtain ⟨c₁, hc₁, hck₁⟩ := hback id b₁ hb₁ hkey₁
  obtain ⟨c₂, hc₂, hck₂⟩ := hback id' b₂ hb₂ hkey₂
  exact h id c₁ id' c₂ hc₁ hc₂ hck₁ hck₂

theorem Quiet.keys (h : Quiet s s') (id : String) :
    (s'.bindings.lookup id).map Binding.snapshotKey =
      (s.bindings.lookup id).map Binding.snapshotKey := by
  have hrel := h.bindings id
  revert hrel
  cases s.bindings.lookup id <;> cases s'.bindings.lookup id <;> rintro ⟨⟩
  · rfl
  · next hcontinues => simp [hcontinues.key]

theorem Database.HoldsReading.quiet {sample : UsageSample} (h : s.HoldsReading key sample)
    (hquiet : Quiet s s') : s'.HoldsReading key sample := by
  refine ⟨hquiet.snapshots ▸ h.snapshot, ?_⟩
  obtain ⟨id, b, hb, hkey, hdirect, huplink, hdownlink⟩ := h.binding
  have hrel := hquiet.bindings id
  rw [hb] at hrel
  obtain ⟨b', hb', hcontinues⟩ : ∃ b', s'.bindings.lookup id = some b' ∧ b.Continues b' := by
    cases hlookup : s'.bindings.lookup id with
    | none =>
      rw [hlookup] at hrel
      cases hrel
    | some b' =>
      rw [hlookup] at hrel
      cases hrel with
      | some hcontinues => exact ⟨b', rfl, hcontinues⟩
  exact ⟨id, b', hb', hcontinues.key.trans hkey, hcontinues.direct hdirect,
    hcontinues.uplink.trans huplink, hcontinues.downlink.trans hdownlink⟩

/-- A change that leaves the baselines alone keeps the invariant. -/
theorem Baseline.quiet (h : Baseline key s) (hquiet : Quiet s s') : Baseline key s' := by
  have hbilled : s'.billedTo key = s.billedTo key := by
    rw [Database.billedTo, hquiet.log, Database.billedTo]
  refine ⟨h.sole.of_keys hquiet.keys, fun p hp => ?_, hbilled ▸ h.growth⟩
  rw [hbilled] at hp
  exact (h.held p hp).quiet hquiet

/-- A snapshot is written.  If it is the one of the key, it held these counters before. -/
theorem Baseline.ensureTrafficSnapshotBaseline (h : Baseline key s) {key' : SnapshotKey}
    {uplinkBytes downlinkBytes : Nat} {replaceExisting : Bool}
    (hsame : key' = key → replaceExisting = true → ∀ current,
      s.snapshots.lookup key = some current → s.billedTo key ≠ [] →
      current.uplinkBytes = uplinkBytes ∧ current.downlinkBytes = downlinkBytes) :
    Baseline key
      (ensureTrafficSnapshotBaseline key' uplinkBytes downlinkBytes replaceExisting s) := by
  have hwrite : ∀ row, (key' = key → ∀ p, (s.billedTo key).getLast? = some p →
      row = baselineOf p.1) → Baseline key { s with snapshots := s.snapshots.insert key' row } := by
    refine fun row hrow => ⟨h.sole, fun p hp => ⟨?_, (h.held p hp).binding⟩, h.growth⟩
    rw [Table.lookup_insert_ite]
    split
    · next heq => rw [hrow heq.symm p hp]
    · exact (h.held p hp).snapshot
  unfold Api.ensureTrafficSnapshotBaseline
  split
  · next hnone =>
    refine hwrite _ fun heq p hp => ?_
    rw [heq, (h.held p hp).snapshot] at hnone
    cases hnone
  · next current hcurrent =>
    split
    · next hreplace =>
      refine hwrite _ fun heq p hp => ?_
      rw [heq] at hcurrent
      have hbilled : s.billedTo key ≠ [] := by
        rintro hnil
        rw [hnil] at hp
        cases hp
      obtain ⟨rfl, rfl⟩ := hsame heq hreplace current hcurrent hbilled
      rw [(h.held p hp).snapshot] at hcurrent
      exact (Option.some.inj hcurrent).symm
    · exact h

/-! ## Batches -/

/-- The changed entries of a batch. -/
def changedEntries (s : Database) (billed : List (Entry × Nat)) : List (Entry × Nat) :=
  billed.filter fun p => !p.1.unchanged s

theorem writeEntries_snapshots (batchKey : BatchKey) (billed : List (Entry × Nat))
    (skipped : List String) (s : Database) :
    (writeEntries batchKey billed skipped s).snapshots = (changedEntries s billed).foldl
      (fun t p => t.insert p.1.snapshotKey p.1.baseline) s.snapshots :=
  (List.foldl_hom Database.snapshots fun _ _ => rfl).symm

theorem writeEntries_bindings (batchKey : BatchKey) (billed : List (Entry × Nat))
    (skipped : List String) (s : Database) :
    (writeEntries batchKey billed skipped s).bindings = (changedEntries s billed).foldl
      (fun t p => t.modify p.1.sample.bindingId fun b => { b with
        lastUplinkBytes := p.1.sample.uplinkBytes, lastDownlinkBytes := p.1.sample.downlinkBytes })
      s.bindings :=
  (List.foldl_hom Database.bindings fun _ _ => rfl).symm

theorem writeEntries_billedTo (batchKey : BatchKey) (billed : List (Entry × Nat))
    (skipped : List String) (s : Database) (key : SnapshotKey) :
    (writeEntries batchKey billed skipped s).billedTo key = s.billedTo key ++
      (billed.filter (·.1.snapshotKey = key)).map fun p => (p.1.sample, p.2) := by
  have hlog : ((changedEntries s billed).foldl (fun t p => writeEntry p.1 t) s).log = s.log :=
    List.foldlRecOn (motive := fun t : Database => t.log = s.log) _ _ rfl fun _ ht _ _ => ht
  unfold Database.billedTo
  change List.filterMap _ (((changedEntries s billed).foldl (fun t p => writeEntry p.1 t) s).log ++
    _ ++ _) = _
  rw [hlog, List.filterMap_append, List.filterMap_append, List.append_assoc]
  congr 1
  rw [List.filterMap_map, List.filterMap_map]
  have hskipped : List.filterMap (Event.billedTo key ∘ fun bindingId =>
      .skipped bindingId (((s.bindings.lookup bindingId).map (·.directRevision)).getD 0) batchKey)
      skipped = [] := by
    simp [Function.comp_def, Event.billedTo]
  rw [hskipped, List.append_nil]
  clear hlog hskipped
  induction billed with
  | nil => rfl
  | cons p rest ih =>
    by_cases hkey : p.1.snapshotKey = key
    · simpa [Event.billedTo, hkey] using ih
    · simpa [Event.billedTo, hkey] using ih

/-- At most one element of a list is selected, if all selected ones have the same name and the
names differ. -/
theorem filter_eq_singleton {α β : Type} {f : α → β} {P : α → Bool} {xs : List α}
    (hnodup : (xs.map f).Nodup) (hsame : ∀ x ∈ xs, ∀ y ∈ xs, P x → P y → f x = f y) :
    xs.filter P = [] ∨ ∃ x, xs.filter P = [x] := by
  match hfilter : xs.filter P with
  | [] => exact .inl rfl
  | [x] => exact .inr ⟨x, rfl⟩
  | x :: y :: rest =>
    have hx := List.mem_filter.1 (hfilter ▸ List.mem_cons_self : x ∈ xs.filter P)
    have hy := List.mem_filter.1
      (hfilter ▸ List.mem_cons_of_mem x List.mem_cons_self : y ∈ xs.filter P)
    have hsublist : ((x :: y :: rest).map f).Nodup :=
      hnodup.sublist ((hfilter ▸ List.filter_sublist).map f)
    have hne : f x ≠ f y := by
      intro heq
      simp [heq] at hsublist
    exact absurd (hsame x hx.1 y hy.1 hx.2 hy.2) hne

theorem writeEntries_keys (batchKey : BatchKey) (billed : List (Entry × Nat))
    (skipped : List String) (s : Database) (id : String) :
    ((writeEntries batchKey billed skipped s).bindings.lookup id).map Binding.snapshotKey =
      (s.bindings.lookup id).map Binding.snapshotKey := by
  rw [writeEntries_bindings]
  refine List.foldlRecOn (motive := fun t : Table String Binding =>
    (t.lookup id).map Binding.snapshotKey = _) _ _ rfl fun t ht p _ => ?_
  rw [Table.lookup_modify]
  split
  · next heq =>
    rw [← ht, heq, Option.map_map]
    rfl
  · exact ht

/-- The entries of a batch with what they bill. -/
structure Batched (s : Database) (billed : List (Entry × Nat)) : Prop where
  bindingIds : (billed.map fun p => p.1.sample.bindingId).Nodup
  bindings : ∀ p ∈ billed, s.bindings.lookup p.1.sample.bindingId = some p.1.binding ∧
    p.1.binding.source = .direct
  deltas : ∀ p ∈ billed, entryDelta s p.1 = .ok p.2

theorem Batched.of_prepared {batchKey : BatchKey} {samples : List UsageSample}
    {entries : List Entry} {skipped : List String} {billed : List (Entry × Nat)}
    (hnodup : (samples.map (·.bindingId)).Nodup)
    (hprepare : prepareSamples s batchKey samples = .ok (entries, skipped))
    (hbill : billEntries s entries = .ok billed) : Batched s billed := by
  obtain ⟨hsublist, hentries, -⟩ := prepareSamples_eq_ok hprepare
  obtain ⟨rfl, hdeltas⟩ := billEntries_eq_ok hbill
  refine ⟨?_, fun p hp => ?_, hdeltas⟩
  · have hsub := hnodup.sublist (hsublist.map (·.bindingId))
    rw [List.map_map, List.map_map] at hsub
    exact hsub
  · have hentry := hentries p.1 (List.mem_map_of_mem hp)
    exact ⟨hentry.1, hentry.2.2⟩

section Batched

variable {billed : List (Entry × Nat)} {batchKey : BatchKey} {skipped : List String}

/-- Two entries of one key are the same one. -/
theorem Batched.eq_of_key (h : Batched s billed) (hsole : s.Sole key) {p q : Entry × Nat}
    (hp : p ∈ billed) (hq : q ∈ billed) (hpkey : p.1.snapshotKey = key)
    (hqkey : q.1.snapshotKey = key) : p = q :=
  List.inj_on_of_nodup_map h.bindingIds hp hq
    (hsole _ _ _ _ (h.bindings p hp).1 (h.bindings q hq).1 hpkey hqkey)

/-- After a batch the binding of every entry holds its reading. -/
theorem Batched.lookup_binding (h : Batched s billed) {p : Entry × Nat} (hp : p ∈ billed) :
    (writeEntries batchKey billed skipped s).bindings.lookup p.1.sample.bindingId =
      some { p.1.binding with
        lastUplinkBytes := p.1.sample.uplinkBytes
        lastDownlinkBytes := p.1.sample.downlinkBytes } := by
  have hsame : ∀ q ∈ changedEntries s billed, q.1.sample.bindingId = p.1.sample.bindingId → q = p :=
    fun q hq => List.inj_on_of_nodup_map h.bindingIds (List.mem_of_mem_filter hq) hp
  rw [writeEntries_bindings, Table.lookup_foldl_modify (k := p.1.sample.bindingId)
    (u := fun b : Binding => { b with
      lastUplinkBytes := p.1.sample.uplinkBytes
      lastDownlinkBytes := p.1.sample.downlinkBytes }) (fun _ => rfl) _ _
    fun q hq heq => by rw [hsame q hq heq], (h.bindings p hp).1]
  split
  · rfl
  · next hnone =>
    have hunchanged : p.1.unchanged s = true := by
      by_contra hchanged
      exact hnone ⟨p, List.mem_filter.2 ⟨hp, by simpa using hchanged⟩, rfl⟩
    simp only [Entry.unchanged, Bool.and_eq_true, decide_eq_true_eq] at hunchanged
    rw [← hunchanged.2.1, ← hunchanged.2.2]

/-- After a batch the snapshot of every entry holds its reading. -/
theorem Batched.lookup_snapshot (h : Batched s billed) (hsole : s.Sole key) {p : Entry × Nat}
    (hp : p ∈ billed) (hkey : p.1.snapshotKey = key) :
    (writeEntries batchKey billed skipped s).snapshots.lookup key = some p.1.baseline := by
  have hsame : ∀ q ∈ changedEntries s billed, q.1.snapshotKey = key → q.1.baseline = p.1.baseline :=
    fun q hq hqkey => by rw [h.eq_of_key hsole (List.mem_of_mem_filter hq) hp hqkey hkey]
  rw [writeEntries_snapshots, Table.lookup_foldl_insert _ _ hsame]
  split
  · rfl
  · next hnone =>
    have hunchanged : p.1.unchanged s = true := by
      by_contra hchanged
      exact hnone ⟨p, List.mem_filter.2 ⟨hp, by simpa using hchanged⟩, hkey⟩
    simp only [Entry.unchanged, Bool.and_eq_true, decide_eq_true_eq] at hunchanged
    rw [← hkey, hunchanged.1]

theorem snapshot_of_absent (h : ∀ p ∈ billed, p.1.snapshotKey ≠ key) :
    (writeEntries batchKey billed skipped s).snapshots.lookup key = s.snapshots.lookup key := by
  rw [writeEntries_snapshots]
  refine List.foldlRecOn (motive := fun t : Table SnapshotKey TrafficSnapshot =>
    t.lookup key = s.snapshots.lookup key) _ _ rfl fun t ht p hp => ?_
  rw [AList.lookup_insert_ne (h p (List.mem_of_mem_filter hp)).symm, ht]

/-- A batch without a sample of the key leaves its baseline alone. -/
theorem Batched.holdsReading_of_absent (h : Batched s billed) {sample : UsageSample}
    (hheld : s.HoldsReading key sample) (habsent : ∀ p ∈ billed, p.1.snapshotKey ≠ key) :
    (writeEntries batchKey billed skipped s).HoldsReading key sample := by
  refine ⟨by rw [snapshot_of_absent habsent, hheld.snapshot], ?_⟩
  obtain ⟨id, b, hb, hkey, hrest⟩ := hheld.binding
  refine ⟨id, b, ?_, hkey, hrest⟩
  have hother : ∀ p ∈ changedEntries s billed, p.1.sample.bindingId ≠ id := by
    rintro p hp rfl
    have hbinding := (h.bindings p (List.mem_of_mem_filter hp)).1
    rw [hb] at hbinding
    rw [Option.some.inj hbinding] at hkey
    exact habsent p (List.mem_of_mem_filter hp) hkey
  rw [writeEntries_bindings, Table.lookup_foldl_modify (k := id) (u := fun b => b) (fun _ => rfl)
    _ _ fun p hp heq => absurd heq (hother p hp), hb]
  exact ite_self _

/-- The sample of a key bills its growth over the last billed one. -/
theorem Batched.billsGrowth (h : Batched s billed) {p : Entry × Nat} (hp : p ∈ billed)
    (hkey : p.1.snapshotKey = key) {last : UsageSample × Nat}
    (hheld : s.HoldsReading key last.1) : BillsGrowth last (p.1.sample, p.2) := by
  intro hgeneration huplink hdownlink
  have hgrew : ¬(p.1.sample.uplinkBytes < last.1.uplinkBytes ∨
      p.1.sample.downlinkBytes < last.1.downlinkBytes) :=
    not_or.2 ⟨Nat.not_lt.2 huplink, Nat.not_lt.2 hdownlink⟩
  have hsnapshot : s.snapshots.lookup p.1.snapshotKey = some (baselineOf last.1) :=
    hkey ▸ hheld.snapshot
  have hdelta := h.deltas p hp
  unfold entryDelta at hdelta
  rw [hsnapshot] at hdelta
  dsimp only [baselineOf] at hdelta
  rw [if_pos hgeneration, if_neg hgrew] at hdelta
  exact (Except.ok.inj hdelta).symm

end Batched

/-- The samples of a batch are billed and written. -/
theorem Baseline.writeEntries (h : Baseline key s) {billed : List (Entry × Nat)}
    (hbatched : Batched s billed) (batchKey : BatchKey) (skipped : List String) :
    Baseline key (writeEntries batchKey billed skipped s) := by
  have hsole := h.sole.of_keys (writeEntries_keys batchKey billed skipped s)
  have hbilled := writeEntries_billedTo batchKey billed skipped s key
  rcases filter_eq_singleton (P := fun p => p.1.snapshotKey = key) hbatched.bindingIds
    (fun p hp q hq hpkey hqkey => by
      rw [hbatched.eq_of_key h.sole hp hq (of_decide_eq_true hpkey) (of_decide_eq_true hqkey)])
    with hnone | ⟨p, hone⟩
  · rw [hnone, List.map_nil, List.append_nil] at hbilled
    have habsent : ∀ p ∈ billed, p.1.snapshotKey ≠ key := by
      intro p hp hkey
      simpa [hkey] using List.filter_eq_nil_iff.1 hnone p hp
    refine ⟨hsole, fun last hlast => ?_, hbilled ▸ h.growth⟩
    rw [hbilled] at hlast
    exact hbatched.holdsReading_of_absent (h.held last hlast) habsent
  · rw [hone] at hbilled
    obtain ⟨hp, hkey⟩ := List.mem_filter.1 (hone ▸ List.mem_cons_self : p ∈ billed.filter _)
    replace hkey := of_decide_eq_true hkey
    refine ⟨hsole, fun last hlast => ?_, ?_⟩
    · rw [hbilled, List.map_singleton, List.getLast?_concat] at hlast
      cases hlast
      exact ⟨hbatched.lookup_snapshot h.sole hp hkey, _, _, hbatched.lookup_binding hp, hkey,
        (hbatched.bindings p hp).2, rfl, rfl⟩
    · rw [hbilled, List.map_singleton, List.isChain_append]
      refine ⟨h.growth, List.isChain_singleton _, fun last hlast next hnext => ?_⟩
      cases hnext
      exact hbatched.billsGrowth hp hkey (h.held last hlast)

/-- A batch keeps the baseline of every key. -/
theorem Baseline.applyDirectBatch (h : Baseline key s) {agentId : String} {batchKey : BatchKey}
    {sampledAt : Nat} {samples : List UsageSample} {applied : Application}
    (happly : applyDirectBatch agentId batchKey sampledAt samples s = .ok (applied, s')) :
    Baseline key s' := by
  rcases applyDirectBatch_eq_ok happly with rfl |
    ⟨entries, skipped, billed, disabled, subscriptions, ledger, agentIds, hnodup, hprepare, hbill,
      -, -, hdisable⟩
  · exact h
  have hbatched := Batched.of_prepared hnodup hprepare hbill
  refine (h.writeEntries hbatched batchKey skipped).quiet (Quiet.trans ?_
    (disableDirectBindings_quiet hdisable))
  exact .of_eq rfl rfl rfl

/-! ## Traffic resets -/

theorem ensureTrafficSnapshotBaseline_bindings (key' : SnapshotKey)
    (uplinkBytes downlinkBytes : Nat) (replaceExisting : Bool) (s : Database) :
    (ensureTrafficSnapshotBaseline key' uplinkBytes downlinkBytes replaceExisting s).bindings =
      s.bindings := by
  unfold ensureTrafficSnapshotBaseline
  split
  · rfl
  · split <;> rfl

theorem ensureTrafficSnapshotBaseline_log (key' : SnapshotKey) (uplinkBytes downlinkBytes : Nat)
    (replaceExisting : Bool) (s : Database) :
    (ensureTrafficSnapshotBaseline key' uplinkBytes downlinkBytes replaceExisting s).log =
      s.log := by
  unfold ensureTrafficSnapshotBaseline
  split
  · rfl
  · split <;> rfl

/-- The counters of a binding are overwritten.  If it is the one of the key, the reading stays. -/
theorem Baseline.setCounters (h : Baseline key s) (id : String) (uplinkBytes downlinkBytes : Nat)
    (hsame : ∀ b p, s.bindings.lookup id = some b → b.snapshotKey = key →
      (s.billedTo key).getLast? = some p →
      uplinkBytes = p.1.uplinkBytes ∧ downlinkBytes = p.1.downlinkBytes) :
    Baseline key { s with bindings := s.bindings.modify id fun b => { b with
      lastUplinkBytes := uplinkBytes, lastDownlinkBytes := downlinkBytes } } := by
  refine ⟨h.sole.of_keys fun id' => ?_, fun p hp => ⟨(h.held p hp).snapshot, ?_⟩, h.growth⟩
  · rw [Table.lookup_modify]
    split
    · next heq =>
      rw [heq, Option.map_map]
      rfl
    · rfl
  · obtain ⟨id', b, hb, hkey, hdirect, hcounters⟩ := (h.held p hp).binding
    by_cases heq : id' = id
    · subst heq
      refine ⟨id', { b with lastUplinkBytes := uplinkBytes, lastDownlinkBytes := downlinkBytes },
        ?_, hkey, hdirect, hsame b p hb hkey hp⟩
      rw [Table.lookup_modify_self, hb]
      rfl
    · exact ⟨id', b, by rw [Table.lookup_modify_ne _ _ heq, hb], hkey, hdirect, hcounters⟩

/-- The baselines of the bindings that a reset found are the readings that are there. -/
theorem Baseline.resetTraffic (h : Baseline key s) {subscriptionId : String}
    {userId : Option String} (hreset : resetTraffic subscriptionId userId s = .ok ((), s')) :
    Baseline key s' := by
  obtain ⟨ledger, subscriptions, rfl⟩ := resetTraffic_eq_ok hreset
  -- The rows were read before the loop, so the loop keeps the log and the keys of the bindings.
  have hloop : Baseline key ((bindingsOf s subscriptionId { userId } [.active, .disabled]).foldl
      persistBaseline s) := by
    refine (List.foldlRecOn (motive := fun t => Baseline key t ∧ t.log = s.log ∧
      ∀ id, (t.bindings.lookup id).map Binding.snapshotKey =
        (s.bindings.lookup id).map Binding.snapshotKey) _ _ ⟨h, rfl, fun _ => rfl⟩ ?_).1
    rintro t ⟨ht, hlog, hkeys⟩ ⟨id, b⟩ hmem
    have hb : s.bindings.lookup id = some b :=
      Table.mem_pairs.1 (List.mem_of_mem_filter hmem)
    have hbilled : t.billedTo key = s.billedTo key := by
      rw [Database.billedTo, hlog, Database.billedTo]
    -- The binding of a billed key is direct and holds the last reading.
    have hreading : ∀ p, b.snapshotKey = key → (t.billedTo key).getLast? = some p →
        b.source = .direct ∧ b.lastUplinkBytes = p.1.uplinkBytes ∧
          b.lastDownlinkBytes = p.1.downlinkBytes := by
      intro p hkey hp
      rw [hbilled] at hp
      obtain ⟨id', b', hb', hkey', hrest⟩ := (h.held p hp).binding
      obtain rfl := h.sole _ _ _ _ hb hb' hkey hkey'
      rw [hb] at hb'
      cases hb'
      exact hrest
    unfold Api.persistBaseline
    dsimp only
    split
    · exact ⟨ht, hlog, hkeys⟩
    refine ⟨Baseline.setCounters (ht.ensureTrafficSnapshotBaseline ?_) id _ _ ?_, ?_, ?_⟩
    · intro hkey _ current hcurrent hne
      obtain ⟨p, hp⟩ : ∃ p, (t.billedTo key).getLast? = some p :=
        ⟨_, List.getLast?_eq_getLast_of_ne_nil hne⟩
      obtain ⟨hdirect, huplink, hdownlink⟩ := hreading p hkey hp
      rw [(ht.held p hp).snapshot] at hcurrent
      cases hcurrent
      simp [hdirect, huplink, hdownlink, baselineOf]
    · intro b' p hb' hkey' hp
      rw [ensureTrafficSnapshotBaseline_bindings] at hb'
      rw [Database.billedTo, ensureTrafficSnapshotBaseline_log] at hp
      have hkey : b.snapshotKey = key := by
        have hmap := hkeys id
        rw [hb', hb] at hmap
        exact (Option.some.inj hmap).symm.trans hkey'
      obtain ⟨hdirect, hcounters⟩ := hreading p hkey hp
      simpa [hdirect] using hcounters
    · exact (ensureTrafficSnapshotBaseline_log ..).trans hlog
    · intro id'
      rw [← hkeys id', ensureTrafficSnapshotBaseline_bindings, Table.lookup_modify]
      split
      · next heq =>
        rw [heq, Option.map_map]
        rfl
      · rfl
  exact hloop.quiet (.of_eq rfl rfl rfl)

/-! ## Activations -/

/-- The request activates a deleted binding of the key that is settled and whose snapshot
shows a reading other than zero. -/
def Request.Reopens (key : SnapshotKey) (s : Database) : Request → Prop
  | .activate input => ∃ bindingId existing snapshot,
      findBinding input s = some (bindingId, existing) ∧ existing.snapshotKey = key ∧
      existing.status = .deleted ∧
      assertDirectTerminalWatermarksSettled bindingId existing s = .ok () ∧
      s.snapshots.lookup key = some snapshot ∧
      (snapshot.uplinkBytes ≠ 0 ∨ snapshot.downlinkBytes ≠ 0)
  | _ => False

theorem Binding.Continues.revive (input : Activation) (b : Binding) :
    b.Continues (input.revive b) :=
  ⟨rfl, rfl, rfl, fun _ => rfl⟩

/-- A new binding has a key that no other binding has. -/
theorem Baseline.insertBinding (h : Baseline key s) {id : String} {b : Binding}
    (hid : s.bindings.lookup id = none)
    (hfresh : ∀ id' b', s.bindings.lookup id' = some b' → b'.snapshotKey ≠ b.snapshotKey) :
    Baseline key { s with bindings := s.bindings.insert id b } := by
  refine ⟨?_, fun p hp => ⟨(h.held p hp).snapshot, ?_⟩, h.growth⟩
  · intro id₁ b₁ id₂ b₂ hb₁ hb₂ hkey₁ hkey₂
    rw [Table.lookup_insert_ite] at hb₁ hb₂
    split at hb₁ <;> split at hb₂
    · next heq₁ heq₂ => rw [heq₁, heq₂]
    · cases hb₁
      exact absurd (hkey₂.trans hkey₁.symm) (hfresh id₂ b₂ hb₂)
    · cases hb₂
      exact absurd (hkey₁.trans hkey₂.symm) (hfresh id₁ b₁ hb₁)
    · exact h.sole id₁ b₁ id₂ b₂ hb₁ hb₂ hkey₁ hkey₂
  · obtain ⟨id', b', hb', hrest⟩ := (h.held p hp).binding
    have hne : id' ≠ id := by
      rintro rfl
      rw [hid] at hb'
      cases hb'
    exact ⟨id', b', by rw [Table.lookup_insert_ite, if_neg hne, hb'], hrest⟩

theorem Baseline.ensurePanelClientBinding (h : Baseline key s) {input : Activation}
    (hopen : ¬(Request.activate input).Reopens key s)
    (hactivate : ensurePanelClientBinding input s = .ok ((), s')) : Baseline key s' := by
  rcases ensurePanelClientBinding_eq_ok hactivate with
    ⟨bindingId, existing, payload, hfind, hsettled, -, hqueue⟩ | ⟨payload, hfind, hfresh, -, hqueue⟩
  · obtain ⟨hexisting, -⟩ := findBinding_eq_some hfind
    refine Baseline.quiet ?_ (queueDirectBindingCommand_quiet hqueue)
    have hrevived := h.quiet (Quiet.insert hexisting (.revive input existing))
    unfold rebaseline
    split
    · next hdeleted =>
      refine hrevived.ensureTrafficSnapshotBaseline fun hkey _ current hcurrent _ => ?_
      rw [assertSettledBefore, if_pos (.inl hdeleted)] at hsettled
      by_contra hreading
      refine hopen ⟨bindingId, existing, current, hfind, hkey, hdeleted, hsettled, hcurrent, ?_⟩
      exact Decidable.not_and_iff_not_or_not.1 hreading
    · exact hrevived.ensureTrafficSnapshotBaseline fun _ hreplace => by cases hreplace
  · refine Baseline.quiet ?_ (queueDirectBindingCommand_quiet hqueue)
    refine Baseline.ensureTrafficSnapshotBaseline ?_ fun _ hreplace => by cases hreplace
    exact h.insertBinding hfresh fun _ _ hlookup => findBinding_eq_none hfind hlookup

/-! ## Runs -/

theorem Baseline.ingestTx (h : Baseline key s) {payloadHash : UsageBatch → String}
    {agentId : String} {batch : UsageBatch} {scan : Scan}
    (hingest : ingestTx payloadHash agentId batch s = .ok (scan, s')) : Baseline key s' := by
  obtain ⟨agent, s₁, s₂, -, -, hstore, hprocess, rfl⟩ := ingestTx_eq_ok hingest
  obtain ⟨batches, rfl⟩ := storeBatch_eq_ok hstore
  have hstored : Baseline key { s with batches } := h.quiet (.of_eq rfl rfl rfl)
  have hscanned : Baseline key s₂ := by
    refine processBatches_induct (I := Baseline key) ?_ hstored hprocess
    intro t t' batchKey stored applied _ _ _ ht haccount
    obtain ⟨⟨applied', t₁⟩, happly, haccount⟩ := bind_eq_ok.1 haccount
    cases haccount
    have ht₁ := ht.applyDirectBatch happly
    -- The event that accounts the batch bills nothing.
    have hbilled : ∀ batches, ({ t₁ with batches, log := t₁.log ++ [.accounted batchKey] } :
        Database).billedTo key = t₁.billedTo key := by
      simp [Database.billedTo, Event.billedTo]
    refine ⟨ht₁.sole, fun p hp => ?_, hbilled _ ▸ ht₁.growth⟩
    rw [hbilled] at hp
    exact ⟨(ht₁.held p hp).snapshot, (ht₁.held p hp).binding⟩
  exact hscanned.quiet (.of_eq rfl rfl rfl)

/-- A disable, a deletion and the boundary of a reset leave the baselines alone. -/
theorem queueAndMark_quiet {type : CommandType} {status : BindingStatus} {old : List BindingStatus}
    {ids : List String} (h : (do
      let t ← queueAll type ids s
      return ((), markBindings status old ids t)) = (.ok ((), s') : Except ApiError _)) :
    Quiet s s' := by
  obtain ⟨t, hqueue, h⟩ := bind_eq_ok.1 h
  cases h
  exact (queueAll_quiet hqueue).trans (markBindings_quiet status old ids t)

theorem completeCommand_quiet {agentId : String} {jobKey : JobKey} {result : CommandResult}
    (h : completeCommand agentId jobKey result s = .ok ((), s')) : Quiet s s' := by
  obtain ⟨agent, job, -, -, -, -, -, ⟨-, rfl⟩ | ⟨watermarks, -, rfl⟩⟩ := completeCommand_eq_ok h
  · exact .of_eq rfl rfl rfl
  · refine Quiet.trans ?_ (recordWatermarks_quiet agent.nodeId job watermarks _)
    exact .of_eq rfl rfl rfl

/-- Every request but an activation keeps the baseline. -/
theorem Baseline.preserved (payloadHash : UsageBatch → String) {request : Request}
    (hrequest : ∀ input, request ≠ .activate input) :
    request.Preserved payloadHash (Baseline key) := by
  cases request with
  | heartbeat agentId bootId =>
    intro _ s a s' h hrun
    obtain ⟨agent, next, -, -, -, rfl⟩ := heartbeat_eq_ok hrun
    exact h.quiet (.of_eq rfl rfl rfl)
  | upload agentId batch => exact fun _ _ s a s' h hrun => h.ingestTx hrun
  | complete agentId jobKey result =>
    exact fun s a s' h hrun => h.quiet (completeCommand_quiet hrun)
  | disable subscriptionId filter => exact fun s a s' h hrun => h.quiet (queueAndMark_quiet hrun)
  | delete subscriptionId filter => exact fun s a s' h hrun => h.quiet (queueAndMark_quiet hrun)
  | quiesce subscriptionId userId => exact fun s a s' h hrun => h.quiet (queueAndMark_quiet hrun)
  | activate input => exact absurd rfl (hrequest input)
  | reset subscriptionId userId => exact fun s a s' h hrun => h.resetTraffic hrun
  | cancelExhausted jobKey =>
    intro s a s' h hrun
    rcases cancelExhausted_eq_ok hrun with rfl | ⟨job, resolved, -, -, -, rfl⟩
    · exact h
    · exact h.quiet (.of_eq rfl rfl rfl)
  | claimDue jobKey =>
    intro s a s' h hrun
    rcases claimDue_eq_ok hrun with rfl | ⟨job, -, -, rfl⟩
    · exact h
    · exact h.quiet (.of_eq rfl rfl rfl)
  | createCredential nodeId agentId =>
    intro s a s' h hrun
    obtain ⟨-, agent, -, rfl⟩ := newAgent_eq_ok (createCredential_eq_ok hrun)
    exact h.quiet (.of_eq rfl rfl rfl)
  | revokeCredential nodeId agentId =>
    intro s a s' h hrun
    obtain ⟨agent, -, -, -, rfl⟩ := revokeCredential_eq_ok hrun
    exact h.quiet (.of_eq rfl rfl rfl)
  | register nodeId agentId bootId =>
    intro _ s a s' h hrun
    obtain ⟨-, agent, -, rfl⟩ := newAgent_eq_ok (registerAgent_eq_ok hrun)
    exact h.quiet (.of_eq rfl rfl rfl)
  | tick milliseconds => exact fun s h => h.quiet (.of_eq rfl rfl rfl)

/-- A request that does not reopen the key keeps its baseline. -/
theorem Baseline.step (payloadHash : UsageBatch → String) (h : Baseline key s) (step : Step)
    (hopen : ¬step.1.Reopens key s) : Baseline key (s.step payloadHash step) := by
  obtain ⟨request, fates⟩ := step
  by_cases hactivate : ∃ input, request = .activate input
  · obtain ⟨input, rfl⟩ := hactivate
    rcases finalWorld_silently (f := Api.ensurePanelClientBinding input)
      s fates with hsame | hcommit
    · rw [← hsame] at h
      exact h
    · exact h.ensurePanelClientBinding hopen hcommit
  · exact Database.step_preserved h _
      (Baseline.preserved payloadHash fun input heq => hactivate ⟨input, heq⟩)

end Baseline

/-- In every run that does not activate a deleted binding of the key over a reading, every
accepted sample of the key whose counters went on within one generation bills its growth over
the accepted sample before it, whatever disables, deletions, activations and traffic resets
stand between the two. -/
theorem samples_bill_their_growth (payloadHash : UsageBatch → String) (s : Database)
    (nodeId subscriptionId userId : String) (hlog : s.log = [])
    (hsole : s.Sole ⟨nodeId, subscriptionId, some userId⟩) (steps : List Step)
    (hsteps : s.Along payloadHash
      (fun t request => ¬request.Reopens ⟨nodeId, subscriptionId, some userId⟩ t) steps) :
    ((s.run payloadHash steps).billedTo ⟨nodeId, subscriptionId, some userId⟩).IsChain
      BillsGrowth := by
  have hnone : s.billedTo ⟨nodeId, subscriptionId, some userId⟩ = [] := by
    rw [Database.billedTo, hlog, List.filterMap_nil]
  have hstart : Baseline ⟨nodeId, subscriptionId, some userId⟩ s := by
    refine ⟨hsole, fun p hp => ?_, hnone ▸ List.isChain_nil⟩
    rw [hnone] at hp
    cases hp
  exact (Database.run_along (fun s step hs hopen => hs.step payloadHash step hopen) steps s hstart
    hsteps).growth

namespace Reactivation

/-- A node with one credential, and a subscription without a binding. -/
def start : Database :=
  { nodes := (∅ : Table String Node).insert "node" {}
    agents := (∅ : Table String NodeAgent).insert "agent" { nodeId := "node" }
    subscriptions := (∅ : Table String Subscription).insert "sub"
      { expireAt := 1000, totalTrafficBytes := 1000 } }

/-- A connect of the user. -/
def activation : Activation :=
  { nodeId := "node", subscriptionId := "sub", userId := "user", email := "u@x"
    newBindingId := "b", newClientId := "uuid" }

/-- A reading of the binding in the first generation. -/
def sample (uplinkBytes : Nat) : UsageSample :=
  { bindingId := "b", counterGeneration := 0, uplinkBytes, downlinkBytes := 0
    uplinkDeltaBytes := 0, downlinkDeltaBytes := 0 }

/-- An upload with one sample. -/
def upload (sequence uplinkBytes : Nat) : Step :=
  (.upload "agent" { bootId := "boot", sequence, sampledAt := 0, samples := [sample uplinkBytes] },
    [])

/-- The agent reports a terminal command with the first batch as its watermark. -/
def settle (type : CommandType) (revision : Nat) : Step :=
  (.complete "agent" (.agent type "b" revision) (.completed (some [⟨"boot", 1⟩])), [])

/-- Between two readings the traffic is reset: the binding is disabled, settled, and activated
again. -/
def reset : List Step :=
  [(.activate activation, []), upload 1 100, (.quiesce "sub" none, []), settle .disableUser 2,
    (.reset "sub" none, []), (.activate activation, []), upload 2 150]

/-- Between two readings the binding is deleted, settled, and activated again. -/
def reopened : List Step :=
  [(.activate activation, []), upload 1 100, (.delete "sub" {}, []), settle .removeUser 2,
    (.activate activation, []), upload 2 150]

theorem not_reopens {s : Database} {key : SnapshotKey}
    (h : (findBinding activation s).all fun p => p.2.status ≠ .deleted) :
    ¬(Request.activate activation).Reopens key s := by
  rintro ⟨bindingId, existing, snapshot, hfind, -, hdeleted, -⟩
  rw [hfind] at h
  simp [hdeleted] at h

end Reactivation

open Reactivation in
/-- Across a traffic reset the second reading bills fifty bytes. -/
theorem samples_bill_their_growth_reset :
    (start.run (fun _ => "") reset).billedTo ⟨"node", "sub", some "user"⟩ =
      [(sample 100, 100), (sample 150, 50)] ∧
    ((start.run (fun _ => "") reset).billedTo ⟨"node", "sub", some "user"⟩).IsChain
      BillsGrowth := by
  refine ⟨by decide +kernel, ?_⟩
  refine samples_bill_their_growth (fun _ => "") start "node" "sub" "user" rfl ?_ reset ?_
  · intro id b id' b' hb
    cases hb
  · exact ⟨not_reopens (by decide +kernel), id, id, id, id, not_reopens (by decide +kernel),
      id, trivial⟩

open Reactivation in
/-- The activation of the deleted binding writes zero over the reading and keeps its
generation, so the second reading is billed whole. -/
theorem deleted_binding_is_billed_again :
    (start.run (fun _ => "") reopened).billedTo ⟨"node", "sub", some "user"⟩ =
      [(sample 100, 100), (sample 150, 150)] ∧
    ¬((start.run (fun _ => "") reopened).billedTo ⟨"node", "sub", some "user"⟩).IsChain
      BillsGrowth := by
  decide +kernel

end ChordV.Api
