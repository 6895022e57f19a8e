import ChordV.Desktop.SessionStore

/-!
# Runs of the session store

`Core` is what the counters, the tickets and the history have to do with each other, and `Disk` is
what the file and the holder of the lock have to do with them.

* Every invalidation adds at least two to the epoch, so a ticket of an earlier login is never of
  the same login again.
* While the epoch is odd nothing is visible.  While it is even the file is what the history shows,
  unless a call has replaced the file and has not exchanged the epoch yet.
* `Sound` is what a commit knows of the history before it.
* `Alike` relates two stores that differ in a file that no read shows.
-/

namespace ChordV.Desktop.SessionStore

open Lib

variable {Value Hash : Type}

/-! ## Histories -/

section Histories

variable {history seen : History Value} {write : Write Value} {file : Option Value}

@[simp] theorem commits_nil : commits ([] : History Value) = [] := rfl

@[simp] theorem commits_invalidated : commits (.invalidated :: history) = commits history := rfl

@[simp] theorem commits_committed :
    commits (.committed write :: history) = write :: commits history := rfl

@[simp] theorem commits_cleared (k : Nat) : commits (.cleared k :: history) = commits history := rfl

theorem invalidations_append (later history : History Value) :
    invalidations (later ++ history) = invalidations later + invalidations history := by
  induction later with
  | nil => simp [invalidations]
  | cons entry later ih =>
    cases entry with
    | invalidated =>
      rw [List.cons_append, invalidations, invalidations, ih]
      omega
    | committed w => rw [List.cons_append, invalidations, invalidations, ih]
    | cleared k => rw [List.cons_append, invalidations, invalidations, ih]

theorem mem_commits_of_suffix (h : seen <:+ history) (hw : write ∈ commits seen) :
    write ∈ commits history := by
  obtain ⟨later, rfl⟩ := h
  rw [commits, List.filterMap_append]
  exact List.mem_append_right _ hw

theorem mem_plainSaves :
    write ∈ plainSaves history ↔ write ∈ commits history ∧ write.previous = none := by
  simp [plainSaves]

theorem rotatedOut_committed : rotatedOut (.committed write :: history) =
    write.previous.toList ++ rotatedOut history := by
  cases h : write.previous <;> simp [rotatedOut, h]

theorem newer_append (later since : History Value) : newer (later ++ since) since = later := by
  simp [newer]

end Histories

/-! ## What a commit knows -/

section Sound

variable (serde : Serde Value Hash) (file : Option Value)

/-- What holds of a write that is under way. -/
structure Sound (write : Write Value) (history : History Value) : Prop where
  born : write.ticket.born = invalidations history
  previous : ∀ previous, write.previous = some previous → visible file history = some previous
  fresh : ∀ old ∈ rotatedOut (.committed write :: history),
    serde.identity old ≠ serde.identity write.session
  newest : ∀ save ∈ plainSaves history, write.ticket.order < save.ticket.order →
    write.previous = some save.session

/-- Every commit knew the history before it, and every removal came before a commit. -/
def SoundHistory : History Value → Prop
  | [] => True
  | .invalidated :: history => SoundHistory history
  | .committed write :: history => Sound serde file write history ∧ SoundHistory history
  | .cleared k :: history =>
    (∀ write ∈ commits history, write.ticket.born ≤ k) ∧ SoundHistory history

variable {serde} {file} {history seen : History Value}

theorem SoundHistory.tail {entry : Entry Value} (h : SoundHistory serde file (entry :: history)) :
    SoundHistory serde file history := by
  cases entry with
  | invalidated => exact h
  | committed write => exact h.2
  | cleared k => exact h.2

theorem SoundHistory.of_suffix (h : SoundHistory serde file history) (hseen : seen <:+ history) :
    SoundHistory serde file seen := by
  obtain ⟨later, rfl⟩ := hseen
  induction later with
  | nil => exact h
  | cons entry later ih => exact ih h.tail

/-- A session that is visible again after an invalidation goes back to a save that was reserved
after it. -/
theorem SoundHistory.reserved {earlier : History Value} {session : Value}
    (h : SoundHistory serde file history) (hvisible : visible file history = some session)
    {later : History Value} (hsplit : history = later ++ .invalidated :: earlier) :
    ∃ write ∈ plainSaves later, invalidations earlier < write.ticket.born := by
  subst hsplit
  induction later generalizing session with
  | nil => cases hvisible
  | cons entry later ih =>
    cases entry with
    | invalidated => cases hvisible
    | cleared k =>
      obtain ⟨write, hwrite, hlt⟩ := ih h.2 hvisible
      exact ⟨write, hwrite, hlt⟩
    | committed w =>
      cases hprevious : w.previous with
      | none =>
        refine ⟨w, mem_plainSaves.2 ⟨by simp, hprevious⟩, ?_⟩
        rw [h.1.born, List.append_eq, invalidations_append, invalidations]
        omega
      | some previous =>
        obtain ⟨write, hwrite, hlt⟩ := ih h.2 (h.1.previous previous hprevious)
        rw [mem_plainSaves] at hwrite
        exact ⟨write, mem_plainSaves.2 ⟨by simp [hwrite.1], hwrite.2⟩, hlt⟩

/-- The visible session has no token that was rotated out. -/
theorem SoundHistory.retired {session old : Value} (h : SoundHistory serde file history)
    (hvisible : visible file history = some session) (hold : old ∈ rotatedOut history) :
    serde.identity old ≠ serde.identity session := by
  induction history with
  | nil => simp [rotatedOut] at hold
  | cons entry history ih =>
    cases entry with
    | invalidated => cases hvisible
    | committed w =>
      cases hvisible
      exact h.1.fresh old hold
    | cleared k => exact ih h.2 hvisible hold

/-- A commit knows no more invalidations than there are. -/
theorem SoundHistory.born_le {write : Write Value} (h : SoundHistory serde file history)
    (hwrite : write ∈ commits history) : write.ticket.born ≤ invalidations history := by
  induction history with
  | nil => cases hwrite
  | cons entry history ih =>
    cases entry with
    | invalidated => exact Nat.le_succ_of_le (ih h hwrite)
    | committed w =>
      rw [commits_committed, List.mem_cons] at hwrite
      cases hwrite with
      | inl hnew =>
        subst hnew
        exact Nat.le_of_eq h.1.born
      | inr hold => exact ih h.2 hold
    | cleared k => exact ih h.2 hwrite

theorem SoundHistory.newest {write : Write Value} {earlier : History Value}
    (h : SoundHistory serde file history) (hcurrent : current history = some (write, earlier)) :
    Sound serde file write earlier := by
  induction history with
  | nil => cases hcurrent
  | cons entry history ih =>
    cases entry with
    | invalidated => cases hcurrent
    | committed w =>
      cases hcurrent
      exact h.1
    | cleared k => exact ih h.2 hcurrent

theorem SoundHistory.cleared {later rest after before : History Value} {k : Nat}
    {write : Write Value} (h : SoundHistory serde file (later ++ .cleared k :: rest))
    (hrest : rest = after ++ .committed write :: before) : invalidations before ≤ k := by
  have hcleared := h.of_suffix (List.suffix_append later _)
  subst hrest
  have hcommit := hcleared.2.of_suffix (List.suffix_append after _)
  rw [← hcommit.1.born]
  exact hcleared.1 write (mem_commits_of_suffix (List.suffix_append after _) (by simp))

end Sound

/-! ## The counters -/

theorem or_one (n : Nat) : n ||| 1 = 2 * (n / 2) + 1 := by
  have hlow : n % 2 ||| 1 = 1 := by
    obtain h | h := Nat.mod_two_eq_zero_or_one n <;> rw [h] <;> rfl
  have hsplit : n = 2 ^ 1 * (n / 2) ||| n % 2 := by
    rw [← Nat.two_pow_add_eq_or_of_lt (Nat.mod_lt n (by decide))]
    omega
  calc n ||| 1 = 2 ^ 1 * (n / 2) ||| (n % 2 ||| 1) := by rw [← Nat.or_assoc, ← hsplit]
    _ = 2 * (n / 2) + 1 := by
      rw [hlow, ← Nat.two_pow_add_eq_or_of_lt (by decide)]

/-- The epoch after an invalidation. -/
theorem wrappingAdd_or_one (epoch : Nat) (h : epoch + 4 < 2 ^ 64) :
    (wrappingAdd epoch 2 ||| 1) % 2 = 1 ∧ epoch + 2 ≤ wrappingAdd epoch 2 ||| 1 ∧
      (wrappingAdd epoch 2 ||| 1) + 1 < 2 ^ 64 := by
  have hmod : (epoch + 2) % 2 ^ 64 = epoch + 2 := Nat.mod_eq_of_lt (by omega)
  rw [or_one, wrappingAdd, hmod]
  omega

theorem wrappingAdd_eq {n : Nat} (h : n + 1 < 2 ^ 64) : wrappingAdd n 1 = n + 1 :=
  Nat.mod_eq_of_lt h

section Runs

variable (serde : Serde Value Hash) (file : Option Value) (s : State Value Hash)

/-- An epoch that was loaded.  An invalidation since then has left it behind by two. -/
structure Issued (load : Load) : Prop where
  epoch : load.epoch ≤ s.epoch
  born : load.born ≤ s.invalidated.length
  old : load.born < s.invalidated.length → load.epoch + 2 ≤ s.epoch

/-- What holds of a read that has ended. -/
structure SoundRead (read : Read Value) : Prop where
  ticket : read.ticket ∈ s.tickets
  seen : read.seen <:+ s.history
  session : read.session = visible file read.seen
  even : read.session.isSome = true → read.ticket.epoch % 2 = 0
  earlier : ∀ write ∈ commits read.seen, write.ticket.order < read.ticket.order

/-- The counters, the tickets and the history. -/
structure Core : Prop where
  epoch : s.epoch + 1 < 2 ^ 64
  next : s.next < 2 ^ 64
  order : s.order ≤ s.next
  count : invalidations s.history = s.invalidated.length
  loaded : ∀ load ∈ s.loaded, Issued s load
  tickets : ∀ ticket ∈ s.tickets, Issued s ticket.toLoad ∧ ticket.order ≤ s.next
  returned : ∀ k value, s.invalidated[k]? = some value → value % 2 = 1 ∧ value ≤ s.epoch ∧
    ∀ write ∈ commits s.history, k < write.ticket.born → value < s.epoch
  history : SoundHistory serde file s.history
  committed : ∀ write ∈ commits s.history, write.ticket.order ≤ s.order
  retired : ∀ old ∈ rotatedOut s.history, serde.credentialHash old ∈ s.retired
  hidden : s.epoch % 2 = 1 → visible file s.history = none
  reads : ∀ read ∈ s.reads, SoundRead file s read

/-- What a save has checked. -/
structure Ready (call : Call Value) : Prop where
  born : call.write.ticket.born = s.invalidated.length
  rotation : ∀ previous, call.write.previous = some previous →
    visible file s.history = some previous ∧ call.since <:+ s.history ∧
      ∀ write ∈ commits call.since, write.ticket.order < call.write.ticket.order
  plain : call.write.previous = none →
    s.order < call.write.ticket.order ∧ serde.credentialHash call.write.session ∉ s.retired

/-- Only an invalidation comes between the checks of a save and its exchange. -/
structure InFlight (call : Call Value) : Prop where
  ticket : call.write.ticket.order ≤ s.next
  expected : call.expected ≤ s.epoch
  ready : s.epoch = call.expected → Ready serde file s call
  invalidated : s.epoch ≠ call.expected → s.epoch % 2 = 1

/-- The file is what the history shows. -/
def Shown : Prop := s.epoch % 2 = 0 → s.file = visible file s.history

/-- The file and the holder of the lock. -/
def Disk : Prop :=
  match s.io with
  | none => Shown file s
  | some (.reading load seen) =>
    Shown file s ∧ Issued s load ∧ seen <:+ s.history ∧
      visible file seen = if load.epoch % 2 = 0 then s.file else none
  | some (.saving call) => Shown file s ∧ InFlight serde file s call
  | some (.committing call) => s.file = some call.write.session ∧ InFlight serde file s call
  | some (.clearing k) => s.epoch % 2 = 1 ∧ ∀ write ∈ commits s.history, write.ticket.born ≤ k

variable {serde} {file} {s}

theorem Issued.of_le {s' : State Value Hash} {load : Load} (h : Issued s load)
    (hepoch : s.epoch ≤ s'.epoch) (hborn : s'.invalidated.length = s.invalidated.length) :
    Issued s' load where
  epoch := Nat.le_trans h.epoch hepoch
  born := by
    rw [hborn]
    exact h.born
  old := by
    intro hold
    rw [hborn] at hold
    exact Nat.le_trans (h.old hold) hepoch

theorem Issued.invalidate {load : Load} (h : Issued s load) (hroom : s.epoch + 4 < 2 ^ 64) :
    Issued s.invalidate load := by
  have hepoch := wrappingAdd_or_one s.epoch hroom
  have hload := h.epoch
  have hborn := h.born
  constructor <;> simp only [State.invalidate, List.length_append, List.length_singleton] <;> omega

theorem issued_load (s : State Value Hash) : Issued s s.load where
  epoch := Nat.le_refl _
  born := Nat.le_refl _
  old := fun hold => absurd hold (Nat.lt_irrefl _)

/-- A read stays what it was when tickets and entries come in. -/
theorem SoundRead.of_history {s' : State Value Hash} {read : Read Value}
    (h : SoundRead file s read) (htickets : s.tickets ⊆ s'.tickets)
    (hhistory : s.history <:+ s'.history) : SoundRead file s' read where
  ticket := htickets h.ticket
  seen := h.seen.trans hhistory
  session := h.session
  even := h.even
  earlier := h.earlier

namespace Core

/-- The holder of the lock and the file are not its matter. -/
theorem withIo (h : Core serde file s) (io : Option (Holder Value)) :
    Core serde file { s with io } :=
  { h with
    loaded := fun load hload => (h.loaded load hload).of_le (Nat.le_refl _) rfl
    tickets := fun ticket hticket =>
      ⟨(h.tickets ticket hticket).1.of_le (Nat.le_refl _) rfl, (h.tickets ticket hticket).2⟩
    reads := fun read hread =>
      (h.reads read hread).of_history (List.Subset.refl _) (List.suffix_refl _) }

theorem withFile (h : Core serde file s) (disk : Option Value) :
    Core serde file { s with file := disk } :=
  { h with
    loaded := fun load hload => (h.loaded load hload).of_le (Nat.le_refl _) rfl
    tickets := fun ticket hticket =>
      ⟨(h.tickets ticket hticket).1.of_le (Nat.le_refl _) rfl, (h.tickets ticket hticket).2⟩
    reads := fun read hread =>
      (h.reads read hread).of_history (List.Subset.refl _) (List.suffix_refl _) }

theorem loadEpoch (h : Core serde file s) : Core serde file s.loadEpoch :=
  { h with
    loaded := by
      intro load hload
      obtain hload | hload := List.mem_append.1 hload
      · exact (h.loaded load hload).of_le (Nat.le_refl _) rfl
      · rw [List.mem_singleton.1 hload]
        exact (issued_load s).of_le (Nat.le_refl _) rfl
    tickets := fun ticket hticket =>
      ⟨(h.tickets ticket hticket).1.of_le (Nat.le_refl _) rfl, (h.tickets ticket hticket).2⟩
    reads := fun read hread =>
      (h.reads read hread).of_history (List.Subset.refl _) (List.suffix_refl _) }

theorem reserve (h : Core serde file s) {load : Load} (hload : Issued s load)
    (hroom : s.next + 1 < 2 ^ 64) : Core serde file (s.reserve load) := by
  have hnext := wrappingAdd_eq hroom
  refine
    { h with
      next := ?_
      order := ?_
      loaded := fun load hload => (h.loaded load hload).of_le (Nat.le_refl _) rfl
      tickets := ?_
      reads := fun read hread =>
        (h.reads read hread).of_history (List.subset_append_left _ _) (List.suffix_refl _) }
  · simp only [State.reserve, hnext]
    exact hroom
  · simp only [State.reserve, hnext]
    exact Nat.le_succ_of_le h.order
  · intro ticket hticket
    simp only [State.reserve, hnext] at hticket ⊢
    obtain hticket | hticket := List.mem_append.1 hticket
    · exact ⟨(h.tickets ticket hticket).1.of_le (Nat.le_refl _) rfl,
        Nat.le_succ_of_le (h.tickets ticket hticket).2⟩
    · rw [List.mem_singleton.1 hticket]
      exact ⟨hload.of_le (Nat.le_refl _) rfl, Nat.le_of_eq hnext⟩

theorem invalidate (h : Core serde file s) (hroom : s.epoch + 4 < 2 ^ 64) :
    Core serde file s.invalidate := by
  have hepoch := wrappingAdd_or_one s.epoch hroom
  refine
    { h with
      epoch := hepoch.2.2
      count := ?_
      loaded := fun load hload => (h.loaded load hload).invalidate hroom
      tickets := fun ticket hticket =>
        ⟨(h.tickets ticket hticket).1.invalidate hroom, (h.tickets ticket hticket).2⟩
      returned := ?_
      hidden := fun _ => rfl
      reads := fun read hread =>
        (h.reads read hread).of_history (List.Subset.refl _) (List.suffix_cons _ _) }
  · simp [State.invalidate, invalidations, h.count]
  · intro k value hvalue
    simp only [State.invalidate, commits_invalidated] at hvalue ⊢
    rw [List.getElem?_append] at hvalue
    split at hvalue
    next hlt =>
      have hreturned := h.returned k value hvalue
      refine ⟨hreturned.1, by omega, fun write hwrite hk => ?_⟩
      have hlt := hreturned.2.2 write hwrite hk
      omega
    next hge =>
      -- A commit knows no more invalidations than there were.
      obtain rfl : wrappingAdd s.epoch 2 ||| 1 = value := by
        rw [List.getElem?_singleton] at hvalue
        split at hvalue
        · exact Option.some.inj hvalue
        · cases hvalue
      refine ⟨hepoch.1, Nat.le_refl _, fun write hwrite hk => ?_⟩
      have hborn := h.history.born_le hwrite
      rw [h.count] at hborn
      omega

/-- The file is removed for an invalidation that no commit has followed. -/
theorem cleared (h : Core serde file s) {k : Nat}
    (hk : ∀ write ∈ commits s.history, write.ticket.born ≤ k) :
    Core serde file { s with history := .cleared k :: s.history } :=
  { h with
    loaded := fun load hload => (h.loaded load hload).of_le (Nat.le_refl _) rfl
    tickets := fun ticket hticket =>
      ⟨(h.tickets ticket hticket).1.of_le (Nat.le_refl _) rfl, (h.tickets ticket hticket).2⟩
    history := ⟨hk, h.history⟩
    reads := fun read hread =>
      (h.reads read hread).of_history (List.Subset.refl _) (List.suffix_cons _ _) }

/-- A read whose ticket is the last one that was reserved. -/
theorem read (h : Core serde file s) {load : Load} (hload : Issued s load) {seen : History Value}
    (hseen : seen <:+ s.history) (hroom : s.next + 1 < 2 ^ 64) {session : Option Value}
    (hsession : session = visible file seen)
    (heven : session.isSome = true → load.epoch % 2 = 0) :
    Core serde file
      { s.reserve load with reads := s.reads ++ [{ session, ticket := s.ticket load, seen }] } := by
  have hreserved := h.reserve hload hroom
  refine
    { hreserved with
      loaded := fun load hload => (hreserved.loaded load hload).of_le (Nat.le_refl _) rfl
      tickets := fun ticket hticket =>
        ⟨(hreserved.tickets ticket hticket).1.of_le (Nat.le_refl _) rfl,
          (hreserved.tickets ticket hticket).2⟩
      reads := ?_ }
  intro read hread
  obtain hread | hread := List.mem_append.1 hread
  · exact (h.reads read hread).of_history (List.subset_append_left _ _) (List.suffix_refl _)
  · rw [List.mem_singleton.1 hread]
    refine ⟨List.mem_append_right _ (by simp), hseen, hsession, heven, fun write hwrite => ?_⟩
    have hcommitted := h.committed write (mem_commits_of_suffix hseen hwrite)
    have horder := h.order
    simp only [State.ticket, wrappingAdd_eq hroom]
    omega

end Core

/-! ## A commit -/

variable {call : Call Value}

/-- A call whose exchange succeeds knows the history before it. -/
theorem Ready.sound [DecidableEq Value] (h : Core serde file s) (hready : Ready serde file s call)
    (hio : s.io = some (.committing call)) (hepoch : s.epoch = call.expected)
    (hforward : Forward serde s .advance) : Sound serde file call.write s.history := by
  simp only [Forward, hio] at hforward
  have hforward := hforward hepoch
  constructor
  · rw [hready.born, h.count]
  · intro previous hprevious
    exact (hready.rotation previous hprevious).1
  · intro old hold
    rw [rotatedOut_committed] at hold
    cases hprevious : call.write.previous with
    | some previous =>
      rw [hprevious] at hold
      exact (hforward previous hprevious).1 old hold
    | none =>
      -- The check looks for the hash, and equal identities have equal hashes.
      rw [hprevious] at hold
      intro hsame
      apply (hready.plain hprevious).2
      have hretired := h.retired old hold
      rwa [Serde.credentialHash, hsame] at hretired
  · intro save hsave hlater
    have hmem := (mem_plainSaves.1 hsave).1
    cases hprevious : call.write.previous with
    | some previous =>
      obtain ⟨-, ⟨later, hsplit⟩, hsince⟩ := hready.rotation previous hprevious
      have hnew := (hforward previous hprevious).2 save
      rw [← hsplit, newer_append] at hnew
      rw [← hsplit, commits, List.filterMap_append, List.mem_append] at hmem
      cases hmem with
      | inl hlate =>
        rw [hnew (mem_plainSaves.2 ⟨hlate, (mem_plainSaves.1 hsave).2⟩) hlater]
      | inr hearly =>
        have horder := hsince save hearly
        omega
    | none =>
      have horder := (hready.plain hprevious).1
      have hcommitted := h.committed save hmem
      omega

theorem Core.commit (h : Core serde file s) (hsound : Sound serde file call.write s.history)
    (hepoch : s.epoch = call.expected) (horder : call.write.ticket.order ≤ s.next) :
    Core serde file (s.commit serde call) := by
  have hroom := h.epoch
  have hnew : (s.commit serde call).epoch % 2 = 0 ∧ s.epoch ≤ (s.commit serde call).epoch ∧
      (s.commit serde call).epoch + 1 < 2 ^ 64 ∧
      (s.epoch % 2 = 1 → s.epoch < (s.commit serde call).epoch) := by
    simp only [State.commit, ← hepoch, wrappingAdd_eq hroom]
    split <;> omega
  refine
    { epoch := hnew.2.2.1
      next := h.next
      order := Nat.max_le.2 ⟨h.order, horder⟩
      count := h.count
      loaded := fun load hload => (h.loaded load hload).of_le hnew.2.1 rfl
      tickets := fun ticket hticket =>
        ⟨(h.tickets ticket hticket).1.of_le hnew.2.1 rfl, (h.tickets ticket hticket).2⟩
      returned := ?_
      history := ⟨hsound, h.history⟩
      committed := ?_
      retired := ?_
      hidden := ?_
      reads := fun read hread =>
        (h.reads read hread).of_history (List.Subset.refl _) (List.suffix_cons _ _) }
  · intro k value hvalue
    obtain ⟨hodd, hle, -⟩ := h.returned k value hvalue
    exact ⟨hodd, by omega, fun _ _ _ => by omega⟩
  · intro write hwrite
    simp only [State.commit, commits_committed, List.mem_cons] at hwrite ⊢
    cases hwrite with
    | inl hnew =>
      subst hnew
      exact Nat.le_max_right _ _
    | inr hold => exact Nat.le_trans (h.committed write hold) (Nat.le_max_left _ _)
  · intro old hold
    simp only [State.commit, rotatedOut_committed, List.mem_append] at hold ⊢
    cases hold with
    | inl hnew =>
      left
      rw [Option.mem_toList] at hnew
      simp [Option.mem_def.1 hnew]
    | inr hold => exact .inr (h.retired old hold)
  · intro hodd
    omega

/-! ## The file and the lock -/

/-- What the checks of a save say does not depend on the tickets. -/
theorem InFlight.of_same {s' : State Value Hash} (h : InFlight serde file s call)
    (hepoch : s'.epoch = s.epoch) (hnext : s.next ≤ s'.next) (horder : s'.order = s.order)
    (hretired : s'.retired = s.retired) (hinvalidated : s'.invalidated = s.invalidated)
    (hhistory : s'.history = s.history) : InFlight serde file s' call := by
  refine ⟨Nat.le_trans h.ticket hnext, by rw [hepoch]; exact h.expected, fun hexpected => ?_,
    by rw [hepoch]; exact h.invalidated⟩
  rw [hepoch] at hexpected
  have hready := h.ready hexpected
  constructor
  · rw [hinvalidated]
    exact hready.born
  · rw [hhistory]
    exact hready.rotation
  · rw [horder, hretired]
    exact hready.plain

theorem InFlight.invalidate (h : InFlight serde file s call) (hroom : s.epoch + 4 < 2 ^ 64) :
    InFlight serde file s.invalidate call := by
  have hepoch := wrappingAdd_or_one s.epoch hroom
  have hexpected := h.expected
  have hlt : call.expected < s.invalidate.epoch := by
    simp only [State.invalidate]
    omega
  exact
    { ticket := h.ticket
      expected := Nat.le_of_lt hlt
      ready := fun hsame => absurd hsame (Nat.ne_of_gt hlt)
      invalidated := fun _ => hepoch.1 }

theorem Disk.of_same {s' : State Value Hash} (h : Disk serde file s) (hio : s'.io = s.io)
    (hfile : s'.file = s.file) (hepoch : s'.epoch = s.epoch) (hnext : s.next ≤ s'.next)
    (horder : s'.order = s.order) (hretired : s'.retired = s.retired)
    (hinvalidated : s'.invalidated = s.invalidated) (hhistory : s'.history = s.history) :
    Disk serde file s' := by
  have hflight : ∀ call, InFlight serde file s call → InFlight serde file s' call :=
    fun call h => h.of_same hepoch hnext horder hretired hinvalidated hhistory
  have hissued : ∀ load, Issued s load → Issued s' load := fun load h =>
    h.of_le (Nat.le_of_eq hepoch.symm) (by rw [hinvalidated])
  unfold Disk at h ⊢
  rw [hio]
  split at h
  · simp only [Shown, hepoch, hfile, hhistory]
    exact h
  · simp only [Shown, hepoch, hfile, hhistory]
    exact ⟨h.1, hissued _ h.2.1, h.2.2⟩
  · simp only [Shown, hepoch, hfile, hhistory]
    exact ⟨h.1, hflight _ h.2⟩
  · simp only [hfile]
    exact ⟨h.1, hflight _ h.2⟩
  · simp only [hepoch, hhistory]
    exact h

theorem Disk.invalidate (h : Disk serde file s) (hroom : s.epoch + 4 < 2 ^ 64) :
    Disk serde file s.invalidate := by
  have hodd : s.invalidate.epoch % 2 = 1 := (wrappingAdd_or_one s.epoch hroom).1
  have hshown : Shown file s.invalidate := fun heven => by omega
  unfold Disk at h ⊢
  rw [show s.invalidate.io = s.io from rfl]
  split at h
  · exact hshown
  · exact ⟨hshown, h.2.1.invalidate hroom, h.2.2.1.trans (List.suffix_cons _ _), h.2.2.2⟩
  · exact ⟨hshown, h.2.invalidate hroom⟩
  · exact ⟨h.1, h.2.invalidate hroom⟩
  · exact ⟨hodd, h.2⟩

/-- The store and its lock. -/
structure Inv (serde : Serde Value Hash) (file : Option Value) (s : State Value Hash) : Prop where
  core : Core serde file s
  disk : Disk serde file s

theorem inv_start (serde : Serde Value Hash) (file : Option Value) :
    Inv serde file ({ file } : State Value Hash) where
  core :=
    { epoch := Nat.one_lt_two_pow (by decide)
      next := Nat.two_pow_pos 64
      order := Nat.le_refl _
      count := rfl
      loaded := by simp
      tickets := by simp
      returned := by simp
      history := trivial
      committed := by simp
      retired := by simp [rotatedOut]
      hidden := by simp
      reads := by simp }
  disk := fun _ => rfl

namespace Inv

theorem loadEpoch (h : Inv serde file s) : Inv serde file s.loadEpoch :=
  ⟨h.core.loadEpoch, h.disk.of_same rfl rfl rfl (Nat.le_refl _) rfl rfl rfl rfl⟩

theorem reserve (h : Inv serde file s) {load : Load} (hload : load ∈ s.loaded)
    (hroom : s.next + 1 < 2 ^ 64) : Inv serde file (s.reserve load) := by
  have hnext : s.next ≤ (s.reserve load).next := by
    simp only [State.reserve, wrappingAdd_eq hroom]
    omega
  exact ⟨h.core.reserve (h.core.loaded load hload) hroom,
    h.disk.of_same rfl rfl rfl hnext rfl rfl rfl rfl⟩

theorem invalidate (h : Inv serde file s) (hroom : s.epoch + 4 < 2 ^ 64) :
    Inv serde file s.invalidate :=
  ⟨h.core.invalidate hroom, h.disk.invalidate hroom⟩

theorem lockRead (h : Inv serde file s) : Inv serde file s.lockRead := by
  unfold State.lockRead
  split
  next hio =>
    have hdisk := h.disk
    simp only [Disk, hio] at hdisk
    refine ⟨h.core.withIo _, hdisk, (issued_load s).of_le (Nat.le_refl _) rfl,
      List.suffix_refl _, ?_⟩
    split
    next heven => exact (hdisk heven).symm
    next hodd => exact h.core.hidden (by simpa [State.load] using hodd)
  · exact h

theorem read (h : Inv serde file s) (ok : Bool) (hroom : s.next + 1 < 2 ^ 64) :
    Inv serde file (s.read ok) := by
  unfold State.read
  split
  next load seen hio =>
    have hdisk := h.disk
    simp only [Disk, hio] at hdisk
    obtain ⟨hshown, hload, hseen, hvisible⟩ := hdisk
    have hreserved := (h.core.reserve hload hroom).withIo none
    dsimp only
    split
    next hodd =>
      rw [if_neg (by omega)] at hvisible
      exact ⟨(h.core.read hload hseen hroom hvisible.symm (by simp)).withIo none, hshown⟩
    next heven =>
      have heven : load.epoch % 2 = 0 := by omega
      rw [if_pos heven] at hvisible
      split
      · exact ⟨(h.core.read hload hseen hroom hvisible.symm fun _ => heven).withIo none, hshown⟩
      · exact ⟨hreserved, hshown⟩
  · exact h

/-- A ticket of the same login was reserved after the last invalidation. -/
theorem born_of_sameLogin (h : Core serde file s) {ticket : SaveTicket}
    (hticket : ticket ∈ s.tickets)
    (hsame : sameLogin s.epoch ticket.epoch) : ticket.born = s.invalidated.length := by
  have hissued := (h.tickets ticket hticket).1
  have hborn := hissued.born
  have hold := hissued.old
  have hle := hissued.epoch
  have hepoch := h.epoch
  unfold sameLogin at hsame
  rw [wrappingAdd_eq (by omega)] at hsame
  omega

theorem save [DecidableEq Hash] (h : Inv serde file s) {ticket : SaveTicket}
    (hticket : ticket ∈ s.tickets) (session : Value) :
    Inv serde file (s.save serde ticket session) := by
  unfold State.save
  split
  next hio =>
    have hdisk := h.disk
    simp only [Disk, hio] at hdisk
    dsimp only
    split
    next hchecks =>
      refine ⟨h.core.withIo _, hdisk, (h.core.tickets ticket hticket).2, Nat.le_refl _,
        fun _ => ⟨born_of_sameLogin h.core hticket hchecks.1, by simp, fun _ => hchecks.2⟩,
        fun hne => absurd rfl hne⟩
    · exact h
  · exact h

theorem rotate [DecidableEq Value] (h : Inv serde file s) {read : Read Value}
    (hread : read ∈ s.reads) (session : Value) : Inv serde file (s.rotate read session) := by
  unfold State.rotate
  split
  next hio =>
    have hdisk := h.disk
    simp only [Disk, hio] at hdisk
    split
    next previous hprevious =>
      dsimp only
      split
      next hchecks =>
        have hsound := h.core.reads read hread
        have heven := hsound.even (by rw [hprevious]; rfl)
        have hepoch : s.epoch % 2 = 0 := by
          obtain hsame | hodd := hchecks.1
          · rwa [hsame]
          · exact absurd heven hodd.1
        refine ⟨h.core.withIo _, hdisk, (h.core.tickets _ hsound.ticket).2, Nat.le_refl _,
          fun _ => ⟨born_of_sameLogin h.core hsound.ticket hchecks.1, ?_, by simp⟩,
          fun hne => absurd rfl hne⟩
        intro p hp
        cases hp
        exact ⟨by rw [← hdisk hepoch]; exact hchecks.2, hsound.seen, hsound.earlier⟩
      · exact h
    · exact h
  · exact h

theorem persist (h : Inv serde file s) (ok : Bool) : Inv serde file (s.persist ok) := by
  unfold State.persist
  split
  next call hio =>
    have hdisk := h.disk
    simp only [Disk, hio] at hdisk
    split
    · have hcore := h.core.withFile (some call.write.session)
      exact ⟨hcore.withIo (some (.committing call)), rfl,
        hdisk.2.of_same rfl (Nat.le_refl _) rfl rfl rfl rfl⟩
    · exact ⟨h.core.withIo _, hdisk.1⟩
  · exact h

theorem advance [DecidableEq Value] (h : Inv serde file s) (hforward : Forward serde s .advance) :
    Inv serde file (s.advance serde) := by
  unfold State.advance
  split
  next call hio =>
    have hdisk := h.disk
    simp only [Disk, hio] at hdisk
    obtain ⟨hfile, hflight⟩ := hdisk
    split
    next hepoch =>
      have hsound := (hflight.ready hepoch).sound h.core hio hepoch hforward
      exact ⟨h.core.commit hsound hepoch hflight.ticket, fun _ => hfile⟩
    next hepoch =>
      have hodd := hflight.invalidated hepoch
      exact ⟨h.core.withIo _, fun heven => by simp only at heven; omega⟩
  · exact h

theorem clearWith (h : Inv serde file s) {k expected : Nat}
    (hk : s.invalidated[k]? = some expected) : Inv serde file (s.clearWith k expected) := by
  unfold State.clearWith
  split
  next hio =>
    split
    next hepoch =>
      obtain ⟨hodd, -, hlater⟩ := h.core.returned k expected hk
      refine ⟨h.core.withIo _, by rw [← hepoch] at hodd; exact hodd, fun write hwrite => ?_⟩
      have hlt := hlater write hwrite
      show write.ticket.born ≤ k
      omega
    · exact h
  · exact h

theorem remove (h : Inv serde file s) (ok : Bool) : Inv serde file (s.remove ok) := by
  unfold State.remove
  split
  next k hio =>
    have hdisk := h.disk
    simp only [Disk, hio] at hdisk
    obtain ⟨hodd, hborn⟩ := hdisk
    split
    · exact ⟨((h.core.cleared hborn).withFile none).withIo none,
        fun heven => by simp only at heven; omega⟩
    · exact ⟨h.core.withIo _, fun heven => by simp only at heven; omega⟩
  · exact h

/-- An event of one of a list, if it is there. -/
theorem getD_map {α : Type} (h : Inv serde file s) {xs : List α} {i : Nat}
    {f : α → State Value Hash} (hf : ∀ x, xs[i]? = some x → Inv serde file (f x)) :
    Inv serde file ((xs[i]?.map f).getD s) := by
  cases hx : xs[i]? with
  | none => exact h
  | some x => exact hf x hx

theorem step [DecidableEq Value] [DecidableEq Hash] (h : Inv serde file s) {e : Event Value}
    (hforward : Forward serde s e) : Inv serde file (step serde s e) := by
  cases e with
  | loadEpoch => exact h.loadEpoch
  | reserve i => exact h.getD_map fun load hload => h.reserve (List.mem_of_getElem? hload) hforward
  | invalidate => exact h.invalidate hforward
  | lockRead => exact h.lockRead
  | read ok => exact h.read ok hforward
  | save i session => exact h.getD_map fun ticket ht => h.save (List.mem_of_getElem? ht) session
  | rotate i session => exact h.getD_map fun read hr => h.rotate (List.mem_of_getElem? hr) session
  | persist ok => exact h.persist ok
  | advance => exact h.advance hforward
  | clearWith i => exact h.getD_map fun expected hk => h.clearWith hk
  | remove ok => exact h.remove ok

end Inv

/-! ## A file that no read shows -/

/-- The file of the store matters to what comes later. -/
def Exposed (s : State Value Hash) : Prop :=
  s.epoch % 2 = 0 ∨
    match s.io with
    | some (.reading load _) => load.epoch % 2 = 0
    | some (.committing _) => True
    | _ => False

/-- Two stores that differ in a file that does not matter. -/
structure Alike (s t : State Value Hash) : Prop where
  same : t = { s with file := t.file }
  file : Exposed s → t.file = s.file

/-- A session was read under an even epoch. -/
def EvenReads (s : State Value Hash) : Prop :=
  ∀ read ∈ s.reads, read.session.isSome = true → read.ticket.epoch % 2 = 0

namespace Alike

variable {disk : Option Value}

theorem refl (s : State Value Hash) : Alike s s := ⟨rfl, fun _ => rfl⟩

theorem invalidate (h : Exposed s → disk = s.file) :
    Alike s.invalidate { s with file := disk }.invalidate := by
  refine ⟨rfl, fun hexposed => h (.inr ?_)⟩
  cases hexposed with
  | inl heven =>
    simp only [State.invalidate, or_one] at heven
    omega
  | inr hio => exact hio

theorem lockRead (h : Exposed s → disk = s.file) :
    Alike s.lockRead { s with file := disk }.lockRead := by
  obtain ⟨epoch, next, order, retired, old, io, loaded, tickets, reads, invalidated, history⟩ := s
  cases io with
  | none => exact ⟨rfl, fun hexposed => h (.inl (hexposed.elim id id))⟩
  | some holder => exact ⟨rfl, h⟩

theorem read (h : Exposed s → disk = s.file) (ok : Bool) :
    Alike (s.read ok) ({ s with file := disk }.read ok) := by
  obtain ⟨epoch, next, order, retired, old, io, loaded, tickets, reads, invalidated, history⟩ := s
  cases io with
  | none => exact ⟨rfl, h⟩
  | some holder =>
    cases holder with
    | reading load seen =>
      by_cases heven : load.epoch % 2 = 0
      · have hfile : disk = old := h (.inr heven)
        rw [hfile]
        exact refl _
      · simp only [State.read, if_pos heven]
        exact ⟨rfl, fun hexposed => h (.inl (hexposed.elim id False.elim))⟩
    | saving call => exact ⟨rfl, h⟩
    | committing call => exact ⟨rfl, h⟩
    | clearing k => exact ⟨rfl, h⟩

theorem save [DecidableEq Hash] (h : Exposed s → disk = s.file) (ticket : SaveTicket)
    (session : Value) :
    Alike (s.save serde ticket session) ({ s with file := disk }.save serde ticket session) := by
  obtain ⟨epoch, next, order, retired, old, io, loaded, tickets, reads, invalidated, history⟩ := s
  cases io with
  | none =>
    simp only [State.save]
    split
    · exact ⟨rfl, fun hexposed => h (.inl (hexposed.elim id False.elim))⟩
    · exact ⟨rfl, h⟩
  | some holder => exact ⟨rfl, h⟩

theorem rotate [DecidableEq Value] (h : Exposed s → disk = s.file) {read : Read Value}
    (heven : read.session.isSome = true → read.ticket.epoch % 2 = 0) (session : Value) :
    Alike (s.rotate read session) ({ s with file := disk }.rotate read session) := by
  obtain ⟨epoch, next, order, retired, old, io, loaded, tickets, reads, invalidated, history⟩ := s
  cases io with
  | some holder => exact ⟨rfl, h⟩
  | none =>
    simp only [State.rotate]
    cases hsession : read.session with
    | none => exact ⟨rfl, h⟩
    | some previous =>
      by_cases hsame : sameLogin epoch read.ticket.epoch
      · -- The ticket is even, so the epoch is.
        have hepoch : epoch % 2 = 0 := by
          have heven := heven (by rw [hsession]; rfl)
          cases hsame with
          | inl hsame => rwa [hsame]
          | inr hodd => exact absurd heven hodd.1
        have hfile : disk = old := h (.inl hepoch)
        rw [hfile]
        exact refl _
      · simp only [hsame, false_and, if_false]
        exact ⟨rfl, h⟩

theorem persist (h : Exposed s → disk = s.file) (ok : Bool) :
    Alike (s.persist ok) ({ s with file := disk }.persist ok) := by
  obtain ⟨epoch, next, order, retired, old, io, loaded, tickets, reads, invalidated, history⟩ := s
  cases io with
  | none => exact ⟨rfl, h⟩
  | some holder =>
    cases holder with
    | saving call =>
      cases ok with
      | true => exact refl _
      | false => exact ⟨rfl, fun hexposed => h (.inl (hexposed.elim id False.elim))⟩
    | reading load seen => exact ⟨rfl, h⟩
    | committing call => exact ⟨rfl, h⟩
    | clearing k => exact ⟨rfl, h⟩

theorem advance (h : Exposed s → disk = s.file) :
    Alike (s.advance serde) ({ s with file := disk }.advance serde) := by
  obtain ⟨epoch, next, order, retired, old, io, loaded, tickets, reads, invalidated, history⟩ := s
  cases io with
  | none => exact ⟨rfl, h⟩
  | some holder =>
    cases holder with
    | committing call =>
      have hfile : disk = old := h (.inr trivial)
      rw [hfile]
      exact refl _
    | reading load seen => exact ⟨rfl, h⟩
    | saving call => exact ⟨rfl, h⟩
    | clearing k => exact ⟨rfl, h⟩

theorem clearWith (h : Exposed s → disk = s.file) (k expected : Nat) :
    Alike (s.clearWith k expected) ({ s with file := disk }.clearWith k expected) := by
  obtain ⟨epoch, next, order, retired, old, io, loaded, tickets, reads, invalidated, history⟩ := s
  cases io with
  | none =>
    simp only [State.clearWith]
    split
    · exact ⟨rfl, fun hexposed => h (.inl (hexposed.elim id False.elim))⟩
    · exact ⟨rfl, h⟩
  | some holder => exact ⟨rfl, h⟩

theorem remove (h : Exposed s → disk = s.file) (ok : Bool) :
    Alike (s.remove ok) ({ s with file := disk }.remove ok) := by
  obtain ⟨epoch, next, order, retired, old, io, loaded, tickets, reads, invalidated, history⟩ := s
  cases io with
  | none => exact ⟨rfl, h⟩
  | some holder =>
    cases holder with
    | clearing k =>
      cases ok with
      | true => exact refl _
      | false => exact ⟨rfl, fun hexposed => h (.inl (hexposed.elim id False.elim))⟩
    | reading load seen => exact ⟨rfl, h⟩
    | saving call => exact ⟨rfl, h⟩
    | committing call => exact ⟨rfl, h⟩

theorem getD_map {α : Type} {s t : State Value Hash} (h : Alike s t) (x : Option α)
    {f g : α → State Value Hash} (hf : ∀ a, x = some a → Alike (f a) (g a)) :
    Alike ((x.map f).getD s) ((x.map g).getD t) := by
  cases x with
  | none => exact h
  | some a => exact hf a rfl

theorem step [DecidableEq Value] [DecidableEq Hash] {t : State Value Hash} (h : Alike s t)
    (heven : EvenReads s) (e : Event Value) : Alike (step serde s e) (step serde t e) := by
  obtain ⟨hsame, hfile⟩ := h
  generalize t.file = disk at hsame hfile
  subst hsame
  cases e with
  | loadEpoch => exact ⟨rfl, hfile⟩
  | reserve i => exact getD_map ⟨rfl, hfile⟩ _ fun load _ => ⟨rfl, hfile⟩
  | invalidate => exact invalidate hfile
  | lockRead => exact lockRead hfile
  | read ok => exact read hfile ok
  | save i session => exact getD_map ⟨rfl, hfile⟩ _ fun ticket _ => save hfile ticket session
  | rotate i session =>
    exact getD_map ⟨rfl, hfile⟩ _ fun read hread =>
      rotate hfile (heven read (List.mem_of_getElem? hread)) session
  | persist ok => exact persist hfile ok
  | advance => exact advance hfile
  | clearWith i => exact getD_map ⟨rfl, hfile⟩ _ fun expected _ => clearWith hfile i expected
  | remove ok => exact remove hfile ok

end Alike

/-- Only a read adds to the reads, and it shows a session under an even epoch only. -/
theorem EvenReads.step [DecidableEq Value] [DecidableEq Hash] (h : EvenReads s) (e : Event Value) :
    EvenReads (step serde s e) := by
  have hmap : ∀ {α : Type} (x : Option α) (f : α → State Value Hash),
      (∀ a, (f a).reads = s.reads) → EvenReads ((x.map f).getD s) := by
    intro α x f hf
    cases x with
    | none => exact h
    | some a => simpa [EvenReads, hf a] using h
  cases e with
  | loadEpoch => exact h
  | reserve i => exact hmap _ _ fun _ => rfl
  | invalidate => exact h
  | lockRead =>
    simp only [SessionStore.step, State.lockRead]
    split <;> exact h
  | read ok =>
    simp only [SessionStore.step, State.read]
    split
    next load seen _ =>
      split
      · intro read hread
        obtain hread | hread := List.mem_append.1 hread
        · exact h read hread
        · simp [List.mem_singleton.1 hread]
      next heven =>
        split
        · intro read hread
          obtain hread | hread := List.mem_append.1 hread
          · exact h read hread
          · intro _
            rw [List.mem_singleton.1 hread]
            show load.epoch % 2 = 0
            omega
        · exact h
    · exact h
  | save i session =>
    refine hmap _ _ fun ticket => ?_
    simp only [State.save]
    repeat' split
    all_goals rfl
  | rotate i session =>
    refine hmap _ _ fun read => ?_
    simp only [State.rotate]
    repeat' split
    all_goals rfl
  | persist ok =>
    simp only [SessionStore.step, State.persist]
    repeat' split
    all_goals exact h
  | advance =>
    simp only [SessionStore.step, State.advance]
    repeat' split
    all_goals exact h
  | clearWith i =>
    refine hmap _ _ fun expected => ?_
    simp only [State.clearWith]
    repeat' split
    all_goals rfl
  | remove ok =>
    simp only [SessionStore.step, State.remove]
    repeat' split
    all_goals exact h

/-- The reads of two stores that differ in such a file are the same from then on. -/
theorem Alike.reads_run [DecidableEq Value] [DecidableEq Hash] {t : State Value Hash}
    (h : Alike s t) (heven : EvenReads s) (later : List (Event Value)) :
    (Machine.run (SessionStore.step serde) t later).reads =
      (Machine.run (SessionStore.step serde) s later).reads := by
  induction later generalizing s t with
  | nil => rw [Machine.run_nil, Machine.run_nil, h.same]
  | cons e later ih => exact ih (h.step heven e) (heven.step e)

/-! ## Every state is safe -/

theorem Inv.evenReads (h : Inv serde file s) : EvenReads s :=
  fun read hread => (h.core.reads read hread).even

/-- A save lets the lock go when it fails to persist or its exchange fails. -/
theorem failed_cases [DecidableEq Value] [DecidableEq Hash] {e : Event Value}
    (hio : s.io = some (.saving call) ∨ s.io = some (.committing call))
    (hnone : (step serde s e).io = none) (hhistory : (step serde s e).history = s.history) :
    step serde s e = { s with io := none } ∧
      (s.io = some (.saving call) ∨ s.io = some (.committing call) ∧ s.epoch ≠ call.expected) := by
  have hmap : ∀ {α : Type} (x : Option α) (f : α → State Value Hash),
      (∀ a, (f a).io = s.io) → ((x.map f).getD s).io = s.io := by
    intro α x f hf
    cases x with
    | none => rfl
    | some a => exact hf a
  have hkept : (step serde s e).io ≠ s.io := by
    rw [hnone]
    intro hsame
    rw [← hsame] at hio
    simp at hio
  cases e with
  | persist ok =>
    cases hio with
    | inl hsaving =>
      cases ok with
      | true => simp [step, State.persist, hsaving] at hnone
      | false => exact ⟨by simp [step, State.persist, hsaving], .inl hsaving⟩
    | inr hcommitting => exact absurd (by simp [step, State.persist, hcommitting]) hkept
  | advance =>
    cases hio with
    | inl hsaving => exact absurd (by simp [step, State.advance, hsaving]) hkept
    | inr hcommitting =>
      by_cases hepoch : s.epoch = call.expected
      · simp [step, State.advance, hcommitting, hepoch, State.commit] at hhistory
      · exact ⟨by simp [step, State.advance, hcommitting, hepoch], .inr ⟨hcommitting, hepoch⟩⟩
  | loadEpoch => exact absurd rfl hkept
  | invalidate => exact absurd rfl hkept
  | reserve i => exact absurd (hmap s.loaded[i]? s.reserve fun _ => rfl) hkept
  | lockRead =>
    obtain hio | hio := hio <;> exact absurd (by simp [step, State.lockRead, hio]) hkept
  | read ok =>
    obtain hio | hio := hio <;> exact absurd (by simp [step, State.read, hio]) hkept
  | save i session =>
    refine absurd (hmap _ _ fun ticket => ?_) hkept
    obtain hio | hio := hio <;> simp [State.save, hio]
  | rotate i session =>
    refine absurd (hmap _ _ fun read => ?_) hkept
    obtain hio | hio := hio <;> simp [State.rotate, hio]
  | clearWith i =>
    refine absurd (hmap _ _ fun expected => ?_) hkept
    obtain hio | hio := hio <;> simp [State.clearWith, hio]
  | remove ok =>
    obtain hio | hio := hio <;> exact absurd (by simp [step, State.remove, hio]) hkept

theorem Inv.safe [DecidableEq Value] [DecidableEq Hash] (h : Inv serde file s) :
    Safe serde file s where
  shown := fun read hread => (h.core.reads read hread).session
  reserved := by
    intro read hread hsome later earlier hsplit
    have hsound := h.core.reads read hread
    obtain ⟨session, hsession⟩ := Option.isSome_iff_exists.1 hsome
    rw [hsound.session] at hsession
    exact (h.core.history.of_suffix hsound.seen).reserved hsession hsplit
  retired := by
    intro read hread session hsession old hold
    have hsound := h.core.reads read hread
    rw [Option.mem_def, hsound.session] at hsession
    exact (h.core.history.of_suffix hsound.seen).retired hsession hold
  newest := by
    intro read hread write earlier hcurrent
    have hsound := h.core.reads read hread
    exact ((h.core.history.of_suffix hsound.seen).newest hcurrent).newest
  cleared := by
    intro later k history hsplit after write before hafter
    have hhistory := h.core.history
    rw [hsplit] at hhistory
    exact hhistory.cleared hafter
  failed := by
    intro call e hio hnone hhistory
    obtain ⟨heq, hcase⟩ := failed_cases hio hnone hhistory
    refine ⟨heq, fun before hbefore later => ?_⟩
    have heven : EvenReads (SessionStore.step serde s e) := h.evenReads.step e
    refine Alike.reads_run ⟨rfl, fun hexposed => ?_⟩ heven later
    rw [heq] at hexposed ⊢
    cases hcase with
    | inl hsaving => exact hbefore hsaving
    | inr hcommitting =>
      -- The exchange fails after an invalidation, and its epoch is odd.
      have hdisk := h.disk
      simp only [Disk, hcommitting.1] at hdisk
      have hodd := hdisk.2.invalidated hcommitting.2
      have heven := hexposed.elim id False.elim
      simp only at heven
      omega

/-- **Credentials are not resurrected.**  Every state of a run is safe, if every rotation of the
run goes forward. -/
theorem credentials_stay_retired [DecidableEq Value] [DecidableEq Hash]
    (serde : Serde Value Hash) (file : Option Value) (events : List (Event Value))
    (h : Machine.Meets (step serde) (Forward serde) { file } events) :
    Safe serde file (Machine.run (step serde) { file } events) :=
  (Machine.run_keeps_of_meets (fun _ _ h hforward => h.step hforward) (inv_start serde file) h).safe

end Runs

/-- Sessions with a token, and texts. -/
inductive Sample where
  | text (text : String)
  | session (refreshToken : String) (expires : Nat)
deriving DecidableEq, Repr

/-- Different texts have different digests. -/
def Sample.serde : Serde Sample Sample where
  refreshToken
    | .session refreshToken _ => some (.text refreshToken)
    | .text _ => none
  digest := id

/-- A session is saved and read, and the read is rotated to another session, which is read. -/
def rotated (session : Sample) : List (Event Sample) :=
  [.loadEpoch, .reserve 0, .save 0 (.session "A" 1), .persist true, .advance, .lockRead, .read true,
    .rotate 0 session, .persist true, .advance, .lockRead, .read true]

/-- The login is invalidated and its file removed, and the next login is saved and read. -/
def nextLogin : List (Event Sample) :=
  [.invalidate, .clearWith 0, .remove true, .loadEpoch, .reserve 1, .save 3 (.session "C" 1),
    .persist true, .advance, .lockRead, .read true]

theorem credentials_stay_retired_rotated :
    Safe Sample.serde none (Machine.run (step Sample.serde) { file := none }
      (rotated (.session "B" 2) ++ nextLogin)) :=
  credentials_stay_retired Sample.serde none _ (by decide +kernel)

/-- A refresh that answers with the same token retires the token that it stores. -/
theorem rotation_to_same_token_is_read :
    ¬ ∀ (file : Option Sample) (events : List (Event Sample)),
      Safe Sample.serde file (Machine.run (step Sample.serde) { file } events) := by
  intro h
  have hretired := (h none (rotated (.session "A" 2))).retired
  refine hretired
    { session := some (.session "A" 2)
      ticket := { epoch := 0, born := 0, order := 3 }
      seen :=
        (Machine.run (step Sample.serde) { file := none } (rotated (.session "A" 2))).history }
    (by decide +kernel) (.session "A" 2) rfl (.session "A" 1) (by decide +kernel) rfl

/-- Another session is saved after the read, and then the first one again. -/
def savedBetween : List (Event Sample) :=
  [.loadEpoch, .reserve 0, .save 0 (.session "A" 1), .persist true, .advance, .lockRead, .read true,
    .loadEpoch, .reserve 1, .save 2 (.session "B" 1), .persist true, .advance,
    .loadEpoch, .reserve 2, .save 3 (.session "A" 1), .persist true, .advance,
    .rotate 0 (.session "C" 1), .persist true, .advance, .lockRead, .read true]

/-- The file has the session of the read again, so the check of the rotation passes. -/
theorem rotation_after_another_save :
    ¬ Safe Sample.serde none (Machine.run (step Sample.serde) { file := none } savedBetween) := by
  intro h
  have hprevious := h.newest
    { session := some (.session "C" 1)
      ticket := { epoch := 0, born := 0, order := 5 }
      seen := (Machine.run (step Sample.serde) { file := none } savedBetween).history }
    (by decide +kernel) _ _ rfl
    { session := .session "B" 1, ticket := { epoch := 0, born := 0, order := 3 }, previous := none }
    (by decide +kernel) (by decide +kernel)
  exact absurd hprevious (by decide +kernel)

end ChordV.Desktop.SessionStore
