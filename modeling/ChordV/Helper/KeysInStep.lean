import ChordV.Helper.Effects

/-!
# Keys, record and fragment over whole runs

Runs of the helper on any requests, with any answers of the world outside and killed anywhere.

* `Generates` is what is known of the key generator: it returns pairs, and no private key twice.
* `InStep` is what a run should keep.  `reports_in_step`, `redelivered_in_step` and
  `status_in_step` are the parts that every run keeps.
* `keys_in_step`: a run keeps all of it when the write of a committed record never fails, and when
  a rotating command that finds keys which an earlier attempt of it generated meets no refusal.
* `retried_rotation_leaks` is a run without the second condition.  A killed rotation leaves its
  keys in the journal.  The attempt that follows fails and puts this journal back, and then an
  ensure of another command publishes the keys.
-/

namespace ChordV.Helper

open Lib

variable {x25519 : String → String} {sha256 : Identity → String} {files : Files}
  {attempts : List Attempt}

/-! ## Runs -/

/-- The files that a list of attempts leaves. -/
def filesAfter (sha256 : Identity → String) (files : Files) (attempts : List Attempt) : Files :=
  attempts.foldl (fun files a => (a.perform sha256 files).2.files) files

theorem filesAfter_append (as : List Attempt) (a : Attempt) (bs : List Attempt) :
    filesAfter sha256 files (as ++ a :: bs) =
      filesAfter sha256 (a.perform sha256 (filesAfter sha256 files as)).2.files bs := by
  rw [filesAfter, List.foldl_append, List.foldl_cons]
  rfl

/-- One attempt in a run: what came before it, what it did and what came after it. -/
theorem split_history {before after : List Done} {d : Done}
    (h : history sha256 files attempts = before ++ d :: after) :
    ∃ as bs, attempts = as ++ d.attempt :: bs ∧ before = history sha256 files as ∧
      d.before = filesAfter sha256 files as ∧
      d.attempt.perform sha256 d.before = (d.ending, d.after) ∧
      after = history sha256 d.after.files bs := by
  induction before generalizing files attempts with
  | nil =>
    cases attempts with
    | nil => cases h
    | cons a rest =>
      obtain ⟨rfl, rfl⟩ := List.cons.inj h
      exact ⟨[], rest, rfl, rfl, rfl, rfl, rfl⟩
  | cons first before ih =>
    cases attempts with
    | nil => cases h
    | cons a rest =>
      rw [history, List.cons_append, List.cons.injEq] at h
      obtain ⟨rfl, h⟩ := h
      obtain ⟨as, bs, rfl, rfl, hbefore, hperform, hafter⟩ := ih h
      exact ⟨a :: as, bs, rfl, rfl, hbefore, hperform, hafter⟩

theorem exists_split_of_mem {d : Done} (h : d ∈ history sha256 files attempts) :
    ∃ as bs, attempts = as ++ d.attempt :: bs ∧ d.before = filesAfter sha256 files as ∧
      d.attempt.perform sha256 d.before = (d.ending, d.after) := by
  obtain ⟨before, after, hsplit⟩ := List.append_of_mem h
  obtain ⟨as, bs, hattempts, -, hbefore, hperform, -⟩ := split_history hsplit
  exact ⟨as, bs, hattempts, hbefore, hperform⟩

/-! ## The key generator -/

/-- A pair of keys, none of them empty. -/
structure RealityKeys.Genuine (x25519 : String → String) (keys : RealityKeys) : Prop where
  publicKey : keys.publicKey = x25519 keys.privateKey
  present : keys.present = true

/-- The recorded keys are a pair and those to come are, and all of them are different. -/
structure Generates (x25519 : String → String) (files : Files) (attempts : List Attempt) :
    Prop where
  recorded : ∀ state, readState files.state = some state →
    state.keys.publicKey = x25519 state.keys.privateKey
  genuine : ∀ a ∈ attempts, ∀ keys, a.env.generateKeys = .ok keys → keys.Genuine x25519
  new : ∀ state, readState files.state = some state →
    ∀ a ∈ attempts, ∀ keys, a.env.generateKeys = .ok keys →
      keys.privateKey ≠ state.keys.privateKey
  different : attempts.Pairwise fun a b => ∀ keys keys', a.env.generateKeys = .ok keys →
    b.env.generateKeys = .ok keys' → keys.privateKey ≠ keys'.privateKey

/-! ## Recorded keys are pairs -/

/-- The recorded keys are a pair. -/
def Paired (x25519 : String → String) (files : Files) : Prop :=
  ∀ state, readState files.state = some state →
    state.keys.publicKey = x25519 state.keys.privateKey

theorem paired_perform {a : Attempt} {ending : Ending} {w : World}
    (h : a.perform sha256 files = (ending, w)) (hpaired : Paired x25519 files)
    (hgenuine : ∀ keys, a.env.generateKeys = .ok keys → keys.Genuine x25519) :
    Paired x25519 w.files := by
  have hleft := left_of_perform h
  intro state hstate
  obtain ⟨state', hstate', hkeys⟩ | hmem := hleft.recorded state hstate
  · rw [← hkeys]
    exact hpaired state' hstate'
  · exact (hgenuine _ (hleft.generated _ hmem)).publicKey

theorem paired_filesAfter (hpaired : Paired x25519 files)
    (hgenuine : ∀ a ∈ attempts, ∀ keys, a.env.generateKeys = .ok keys → keys.Genuine x25519) :
    Paired x25519 (filesAfter sha256 files attempts) := by
  induction attempts generalizing files with
  | nil => exact hpaired
  | cons a rest ih =>
    have hstep := paired_perform (Prod.eta (a.perform sha256 files)).symm hpaired
      (hgenuine a List.mem_cons_self)
    exact ih hstep fun a' ha' => hgenuine a' (List.mem_cons_of_mem a ha')

/-! ## Keys that are not on disk -/

/-- The record holds the private key of a pair. -/
def Holds (keys : RealityKeys) (files : Files) : Prop :=
  ∃ state, readState files.state = some state ∧ state.keys.privateKey = keys.privateKey

/-- Keys that are not recorded are neither published nor recorded by a request that does not
generate them. -/
theorem not_holds_perform {a : Attempt} {ending : Ending} {w : World} {keys : RealityKeys}
    (h : a.perform sha256 files = (ending, w)) (hnot : ¬ Holds keys files)
    (hnew : ∀ keys', a.env.generateKeys = .ok keys' → keys'.privateKey ≠ keys.privateKey) :
    ¬ Holds keys w.files ∧
      ∀ inbound, .inbound inbound ∈ w.published → inbound.privateKey ≠ keys.privateKey := by
  have hleft := left_of_perform h
  have hknown : ∀ keys', Known files w keys' → keys'.privateKey ≠ keys.privateKey := by
    rintro keys' (⟨state, hstate, rfl⟩ | hmem) heq
    · exact hnot ⟨state, hstate, heq⟩
    · exact hnew keys' (hleft.generated keys' hmem) heq
  constructor
  · rintro ⟨state, hstate, heq⟩
    exact hknown _ (hleft.recorded state hstate) heq
  · intro inbound hmem
    obtain ⟨keys', hkeys', heq⟩ := hleft.published inbound hmem
    rw [heq]
    exact hknown keys' hkeys'

theorem not_holds_filesAfter {keys : RealityKeys} (hnot : ¬ Holds keys files)
    (hnew : ∀ a ∈ attempts, ∀ keys', a.env.generateKeys = .ok keys' →
      keys'.privateKey ≠ keys.privateKey) :
    ¬ Holds keys (filesAfter sha256 files attempts) := by
  induction attempts generalizing files with
  | nil => exact hnot
  | cons a rest ih =>
    have hstep := (not_holds_perform (Prod.eta (a.perform sha256 files)).symm hnot
      (hnew a List.mem_cons_self)).1
    exact ih hstep fun a' ha' => hnew a' (List.mem_cons_of_mem a ha')

/-! ## The record of a command -/

/-- The record is one of a command. -/
def Commanded (commandId : String) (files : Files) : Prop :=
  ∃ state, readState files.state = some state ∧ state.commandId = commandId

theorem present_of_readState {file : Option StateFile} {state : State}
    (h : readState file = some state) : state.keys.present = true := by
  unfold readState at h
  split at h
  · split at h
    · split_ifs at h with hpresent
      obtain rfl := Option.some.inj h
      exact hpresent
    · cases h
  · cases h

theorem Recorded.commanded {a : Attempt} {w : World}
    (h : Recorded a.request files w) (hleft : Left a.env files w)
    (hgenuine : ∀ keys, a.env.generateKeys = .ok keys → keys.Genuine x25519) :
    Commanded a.request.commandId w.files := by
  obtain ⟨state, rest, hfile, hcommand, hused⟩ := h
  have hpresent : state.keys.present = true := by
    obtain ⟨state', hstate', hkeys⟩ | hmem := hused.known
    · rw [← hkeys]
      exact present_of_readState hstate'
    · exact (hgenuine _ (hleft.generated _ hmem)).present
  exact ⟨state, by rw [hfile, readState_file hpresent], hcommand⟩

/-! ## What a run should keep -/

/-- What is reported belongs to the fragment on disk. -/
def Reports (x25519 : String → String) (outcome : ApplyOutcome) (fragment : Option Fragment) :
    Prop :=
  ∃ inbound, fragment = some (.inbound inbound) ∧
    outcome.realityPublicKey = x25519 inbound.privateKey ∧ outcome.shortId = inbound.shortId ∧
    outcome.listenPort = inbound.port ∧ outcome.listen = inbound.listen

namespace Done

/-- Its request. -/
def request (d : Done) : InboundRequest := d.attempt.request

/-- It ended with an error. -/
def Failed (d : Done) : Prop := ∃ e, d.ending = .failed e

/-- It is an attempt of a rotating command. -/
def rotates (d : Done) : Bool := d.request.mode = .ensure && d.request.rotateKeys

/-- `later` is one more attempt of the rotating command of `d`. -/
def retries (d later : Done) : Bool :=
  later.rotates && d.request.commandId ≠ "" && later.request.commandId = d.request.commandId

/-- The last attempt of the command of `d` in what followed it. -/
def lastTry (d : Done) (later : List Done) : Done := ((later.filter d.retries).getLast?).getD d

/-- It leaves a record of a command alone: it changes no file, or it is an ensure of this
command. -/
def Spares (commandId : String) (d : Done) : Prop :=
  d.after.files = d.before ∨ d.request.mode = .ensure ∧ d.request.commandId = commandId

end Done

/-- What holds of the attempts of a run. -/
structure InStep (x25519 : String → String) (run : List Done) : Prop where
  /-- A request that fails leaves both files as they were. -/
  errors : ∀ d ∈ run, d.Failed → d.after.files = d.before
  /-- An ensure that is answered reports what the fragment on disk serves. -/
  reports : ∀ d ∈ run, d.request.mode = .ensure → ∀ outcome, d.ending = .answered outcome →
    Reports x25519 outcome d.after.files.fragment
  /-- The keys of a rotating command whose last attempt failed are not published by an ensure that
  does not rotate. -/
  discarded : ∀ before d mid e after, run = before ++ d :: (mid ++ e :: after) →
    d.rotates = true → (d.lastTry mid).Failed →
    e.request.mode = .ensure → e.request.rotateKeys = false →
    ∀ keys ∈ d.after.generated, ∀ inbound, .inbound inbound ∈ e.after.published →
      inbound.privateKey ≠ keys.privateKey
  /-- A rotating command that has succeeded generates no more keys while its record stays. -/
  redelivered : ∀ before d mid e after, run = before ++ d :: (mid ++ e :: after) →
    d.rotates = true → d.request.commandId ≠ "" → (∃ outcome, d.ending = .answered outcome) →
    (∀ m ∈ mid, m.Spares d.request.commandId) →
    e.request.mode = .ensure → e.request.commandId = d.request.commandId →
    e.after.generated = []
  /-- Status requests change nothing, and they deny a deployment only where none is on disk. -/
  status : ∀ d ∈ run, d.request.mode = .status → d.after = { files := d.before } ∧
    ∀ outcome, d.ending = .answered outcome → outcome.deployed = false →
      readState d.before.state = none ∧ servesNobody d.before.fragment = true

/-- What the world outside does not do: refuse the write of a committed record, or refuse anything
to a rotating command that finds keys which an earlier attempt of it generated. -/
structure Undisturbed (sha256 : Identity → String) (run : List Done) : Prop where
  commits : ∀ d ∈ run, d.request.mode = .ensure → d.attempt.env.write .committed = .ok ()
  retries : ∀ before later after, run = before ++ later :: after →
    (∃ d ∈ before, d.rotates = true ∧ d.retries later = true ∧
      ∃ keys, d.attempt.env.generateKeys = .ok keys ∧ Holds keys later.before) →
    Smooth sha256 later.request later.attempt.env later.before

/-! ## What every run keeps -/

theorem reports_in_step (h : Generates x25519 files attempts) {d : Done}
    (hd : d ∈ history sha256 files attempts) (hmode : d.request.mode = .ensure)
    {outcome : ApplyOutcome} (hending : d.ending = .answered outcome) :
    Reports x25519 outcome d.after.files.fragment := by
  obtain ⟨as, bs, rfl, hbefore, hperform⟩ := exists_split_of_mem hd
  have hpaired : Paired x25519 d.before := by
    rw [hbefore]
    exact paired_filesAfter h.recorded fun a ha => h.genuine a (List.mem_append_left _ ha)
  rw [hending] at hperform
  obtain ⟨⟨inbound, keys, hfragment, hprivate, hpublic, hshort, hport, hlisten, horigin⟩, -⟩ :=
    answered_of_perform hmode hperform
  have hpair : keys.publicKey = x25519 keys.privateKey := by
    obtain ⟨state, hstate, rfl⟩ | hmem := horigin
    · exact hpaired state hstate
    · have hgenerated := (left_of_perform hperform).generated keys hmem
      exact (h.genuine d.attempt (by simp) keys hgenerated).publicKey
  exact ⟨inbound, hfragment, by rw [hpublic, hpair, hprivate], hshort, hport, hlisten⟩

theorem status_in_step {d : Done} (hd : d ∈ history sha256 files attempts)
    (hmode : d.request.mode = .status) : d.after = { files := d.before } ∧
      ∀ outcome, d.ending = .answered outcome → outcome.deployed = false →
        readState d.before.state = none ∧ servesNobody d.before.fragment = true := by
  obtain ⟨as, bs, -, -, hperform⟩ := exists_split_of_mem hd
  obtain ⟨hafter, hending⟩ := status_of_perform hmode hperform
  refine ⟨hafter, fun outcome houtcome hdeployed => ?_⟩
  obtain heq | hkilled := hending
  · obtain rfl := Ending.answered.inj (houtcome.symm.trans heq)
    simpa [statusOutcome] using hdeployed
  · cases houtcome.symm.trans hkilled

/-- A record of a command is there after a rotating ensure of this command. -/
theorem commanded_of_answered {a : Attempt} {w : World} {outcome : ApplyOutcome}
    (hmode : a.request.mode = .ensure) (hrotate : a.request.rotateKeys = true)
    (hgenuine : ∀ keys, a.env.generateKeys = .ok keys → keys.Genuine x25519)
    (h : a.perform sha256 files = (.answered outcome, w)) :
    Commanded a.request.commandId w.files := by
  obtain ⟨-, ⟨hplace, hfiles⟩ | hrecorded⟩ := answered_of_perform hmode h
  · obtain ⟨state, hplace⟩ := Option.isSome_iff_exists.1 hplace
    obtain ⟨hstate, hsame⟩ := Option.filter_eq_some_iff.1 hplace
    simp only [hrotate, sameCommand, Bool.not_true, Bool.and_false, Bool.false_and, Bool.or_false,
      Bool.and_eq_true, decide_eq_true_eq] at hsame
    exact ⟨state, by rw [hfiles, hstate], hsame.1.2⟩
  · exact hrecorded.commanded (left_of_perform h) hgenuine

theorem commanded_of_spares {d : Done} {commandId : String}
    (hperform : d.attempt.perform sha256 d.before = (d.ending, d.after))
    (hgenuine : ∀ keys, d.attempt.env.generateKeys = .ok keys → keys.Genuine x25519)
    (hspares : d.Spares commandId) (h : Commanded commandId d.before) :
    Commanded commandId d.after.files := by
  obtain hsame | ⟨hmode, rfl⟩ := hspares
  · rw [hsame]
    exact h
  · obtain hsame | hrecorded := (ensured_of_perform hmode hperform).state
    · obtain ⟨state, hstate, hcommand⟩ := h
      exact ⟨state, by rw [hsame, hstate], hcommand⟩
    · exact hrecorded.commanded (left_of_perform hperform) hgenuine

theorem commanded_filesAfter {commandId : String}
    (hgenuine : ∀ a ∈ attempts, ∀ keys, a.env.generateKeys = .ok keys → keys.Genuine x25519)
    (hspares : ∀ m ∈ history sha256 files attempts, m.Spares commandId)
    (h : Commanded commandId files) :
    Commanded commandId (filesAfter sha256 files attempts) := by
  induction attempts generalizing files with
  | nil => exact h
  | cons a rest ih =>
    rw [history] at hspares
    have hstep := commanded_of_spares (Prod.eta (a.perform sha256 files)).symm
      (hgenuine a List.mem_cons_self) (hspares _ List.mem_cons_self) h
    exact ih (fun a' ha' => hgenuine a' (List.mem_cons_of_mem a ha'))
      (fun m hm => hspares m (List.mem_cons_of_mem _ hm)) hstep

theorem redelivered_in_step (h : Generates x25519 files attempts) {before mid after : List Done}
    {d e : Done} (hrun : history sha256 files attempts = before ++ d :: (mid ++ e :: after))
    (hrotates : d.rotates = true) (hid : d.request.commandId ≠ "")
    (hanswered : ∃ outcome, d.ending = .answered outcome)
    (hspares : ∀ m ∈ mid, m.Spares d.request.commandId) (hmode : e.request.mode = .ensure)
    (hsame : e.request.commandId = d.request.commandId) : e.after.generated = [] := by
  obtain ⟨as, bs, rfl, -, hbefore, hperform, hrest⟩ := split_history hrun
  obtain ⟨cs, es, rfl, rfl, hebefore, heperform, -⟩ := split_history hrest.symm
  simp only [Done.rotates, Bool.and_eq_true, decide_eq_true_eq] at hrotates
  obtain ⟨outcome, houtcome⟩ := hanswered
  rw [houtcome] at hperform
  have hcommanded : Commanded d.request.commandId d.after.files :=
    commanded_of_answered hrotates.1 hrotates.2 (h.genuine d.attempt (by simp)) hperform
  obtain ⟨state, hstate, hcommand⟩ : Commanded d.request.commandId e.before := by
    rw [hebefore]
    exact commanded_filesAfter (fun a ha => h.genuine a (by simp [ha])) hspares hcommanded
  have hreusable : reusableKeys e.request e.before ≠ none := by
    simp [reusableKeys, hstate, sameCommand, hcommand, hsame, hid]
  obtain hnone | ⟨hreuse, -⟩ := (ensured_of_perform hmode heperform).generated
  · exact hnone
  · exact absurd hreuse hreusable

/-! ## What an undisturbed run keeps -/

theorem errors_in_step (h : Undisturbed sha256 (history sha256 files attempts)) {d : Done}
    (hd : d ∈ history sha256 files attempts) (hfailed : d.Failed) : d.after.files = d.before := by
  obtain ⟨as, bs, -, -, hperform⟩ := exists_split_of_mem hd
  obtain ⟨e, he⟩ := hfailed
  rw [he] at hperform
  obtain hfiles | ⟨hmode, e', hrefused⟩ := failed_of_perform hperform
  · exact hfiles
  · cases hrefused.symm.trans (h.commits d hd hmode)

/-- The last attempt is the first one, or it is one of those that followed. -/
theorem lastTry_cases (d : Done) (mid : List Done) :
    d.lastTry mid = d ∨ d.lastTry mid ∈ mid ∧ d.retries (d.lastTry mid) = true := by
  unfold Done.lastTry
  cases hlast : (mid.filter d.retries).getLast? with
  | none => exact .inl rfl
  | some later => exact .inr (List.mem_filter.1 (List.mem_of_mem_getLast? hlast))

/-- Keys that no record holds stay unpublished as long as nobody generates them. -/
theorem unpublished_of_not_holds {keys : RealityKeys} (hnot : ¬ Holds keys files)
    (hnew : ∀ a ∈ attempts, ∀ keys', a.env.generateKeys = .ok keys' →
      keys'.privateKey ≠ keys.privateKey) {e : Done}
    (hbefore : e.before = filesAfter sha256 files attempts)
    (hperform : e.attempt.perform sha256 e.before = (e.ending, e.after))
    (hnew' : ∀ keys', e.attempt.env.generateKeys = .ok keys' →
      keys'.privateKey ≠ keys.privateKey) {inbound : Inbound}
    (hmem : .inbound inbound ∈ e.after.published) : inbound.privateKey ≠ keys.privateKey := by
  have hebefore : ¬ Holds keys e.before := by
    rw [hbefore]
    exact not_holds_filesAfter hnot hnew
  exact (not_holds_perform hperform hebefore hnew').2 inbound hmem

theorem discarded_in_step (hgen : Generates x25519 files attempts)
    (h : Undisturbed sha256 (history sha256 files attempts)) {before mid after : List Done}
    {d e : Done} (hrun : history sha256 files attempts = before ++ d :: (mid ++ e :: after))
    (hrotates : d.rotates = true) (hfailed : (d.lastTry mid).Failed) {keys : RealityKeys}
    (hkeys : keys ∈ d.after.generated) {inbound : Inbound}
    (hmem : .inbound inbound ∈ e.after.published) : inbound.privateKey ≠ keys.privateKey := by
  obtain ⟨as, bs, rfl, -, hbefore, hperform, hrest⟩ := split_history hrun
  obtain ⟨cs, es, rfl, hmid, hebefore, heperform, -⟩ := split_history hrest.symm
  have hgenerated := (left_of_perform hperform).generated keys hkeys
  obtain ⟨-, hlater, hearlier⟩ := List.pairwise_append.1 hgen.different
  have hdifferent : ∀ a ∈ cs ++ e.attempt :: es, ∀ keys', a.env.generateKeys = .ok keys' →
      keys'.privateKey ≠ keys.privateKey := fun a ha keys' hkeys' =>
    ((List.pairwise_cons.1 hlater).1 a ha keys keys' hgenerated hkeys').symm
  have hcs : ∀ a ∈ cs, ∀ keys', a.env.generateKeys = .ok keys' →
      keys'.privateKey ≠ keys.privateKey := fun a ha => hdifferent a (List.mem_append_left _ ha)
  have he := hdifferent e.attempt (by simp)
  obtain hlast | ⟨hlast, hretries⟩ := lastTry_cases d mid
  · -- The attempt that generated the keys failed: they were never recorded.
    have hnot : ¬ Holds keys d.before := by
      rw [hbefore]
      refine not_holds_filesAfter ?_ fun a ha keys' hkeys' =>
        hearlier a ha d.attempt List.mem_cons_self keys' keys hkeys' hgenerated
      rintro ⟨state, hstate, heq⟩
      exact hgen.new state hstate d.attempt (by simp) keys hgenerated heq.symm
    have hmemd : d ∈ history sha256 files (as ++ d.attempt :: (cs ++ e.attempt :: es)) := by
      rw [hrun]
      simp
    rw [hlast] at hfailed
    rw [← errors_in_step h hmemd hfailed] at hnot
    exact unpublished_of_not_holds hnot hcs hebefore heperform he hmem
  · -- A later attempt failed: it did not find the keys on disk, or it would not have failed.
    generalize d.lastTry mid = later at hlast hretries hfailed
    obtain ⟨m₁, m₂, rfl⟩ := List.append_of_mem hlast
    obtain ⟨cs₁, cs₂, rfl, -, hlbefore, hlperform, -⟩ := split_history hmid.symm
    have hsplit : history sha256 files (as ++ d.attempt :: (cs₁ ++ later.attempt :: cs₂ ++
        e.attempt :: es)) = (before ++ d :: m₁) ++ later :: (m₂ ++ e :: after) := by
      rw [hrun]
      simp
    have hmode : later.request.mode = .ensure := by
      simp only [Done.retries, Done.rotates, Bool.and_eq_true, decide_eq_true_eq] at hretries
      exact hretries.1.1.1
    have hnot : ¬ Holds keys later.before := by
      intro hholds
      have hsmooth := h.retries _ _ _ hsplit
        ⟨d, by simp, hrotates, hretries, keys, hgenerated, hholds⟩
      obtain ⟨error, herror⟩ := hfailed
      rw [herror] at hlperform
      exact not_smooth_of_failed (a := later.attempt) hmode hlperform hsmooth
    have hmeml : later ∈ history sha256 files (as ++ d.attempt :: (cs₁ ++ later.attempt :: cs₂ ++
        e.attempt :: es)) := by
      rw [hsplit]
      simp
    rw [← errors_in_step h hmeml hfailed] at hnot
    have hebefore' : e.before = filesAfter sha256 later.after.files cs₂ := by
      rw [hebefore, filesAfter_append, ← hlbefore, hlperform]
    exact unpublished_of_not_holds hnot (fun a ha => hcs a (by simp [ha])) hebefore' heperform he
      hmem

/-! ## Runs without and with a refusal -/

/-- Nothing is refused, and Xray serves the port after every restart. -/
def calm (keys : RealityKeys) : Env where
  reservedInboundTags := .ok ["api-in"]
  assertPublicDest := .ok "93.184.216.34:443"
  serving := fun _ => true
  stillServing := fun _ => true
  generateKeys := .ok keys
  resolveListen := .ok "::"
  assertPortAvailable := .ok ()
  assertConfigValid := .ok ()
  write := fun _ => .ok ()
  restart := .ok ()
  isListening := fun _ => true
  now := "2024-01-01T00:00:00.000Z"
  xrayVersion := "Xray 24.9.30"

/-- The digest of a request that differs in its port alone. -/
def portDigest (identity : Identity) : String := toString identity.listenPort

/-- A function of keys. -/
def publicKeyOf (privateKey : String) : String := "P" ++ privateKey

/-- The keys for a private key. -/
def keysOf (privateKey : String) : RealityKeys :=
  { privateKey, publicKey := publicKeyOf privateKey, shortId := "ffeeddccbbaa9988" }

/-- An ensure on this port. -/
def ensureRequest (commandId : String) (listenPort : Nat) (rotateKeys : Bool) : InboundRequest :=
  { commandId, inboundTag := "chordv-in", listenPort, dest := "www.example.com:443"
    serverNames := ["www.example.com"], flow := "xtls-rprx-vision", fingerprint := "chrome"
    spiderX := "/", rotateKeys }

/-- A calm world refuses no request that any address and an unreserved tag will do for. -/
theorem smooth_calm {request : InboundRequest} (hlisten : request.requireListen = "")
    (htag : ["api-in"].contains request.inboundTag = false) {keys : RealityKeys} :
    Smooth sha256 request (calm keys) files where
  tag := ⟨_, rfl, htag⟩
  dest := ⟨_, rfl⟩
  deploys := fun _ => ⟨fun _ => ⟨keys, rfl⟩, ⟨_, rfl, .inl hlisten⟩, rfl, rfl, rfl,
    ⟨rfl, rfl, fun _ => rfl⟩, rfl⟩

/-- A generator that runs through a list of private keys, on a fresh host. -/
theorem generates_keysOf {privateKeys : List String}
    (hkeys : attempts.map (·.env.generateKeys) = privateKeys.map fun p => .ok (keysOf p))
    (hpresent : ∀ p ∈ privateKeys, (keysOf p).present = true) (hnodup : privateKeys.Nodup) :
    Generates publicKeyOf {} attempts where
  recorded := by simp [readState]
  genuine := by
    intro a ha keys hgenerate
    have hmem : a.env.generateKeys ∈ privateKeys.map fun p => .ok (keysOf p) :=
      hkeys ▸ List.mem_map.2 ⟨a, ha, rfl⟩
    obtain ⟨p, hp, heq⟩ := List.mem_map.1 hmem
    obtain rfl := Except.ok.inj (heq.trans hgenerate)
    exact ⟨rfl, hpresent p hp⟩
  new := by simp [readState]
  different := by
    have hpairs : (attempts.map (·.env.generateKeys)).Pairwise fun r r' =>
        ∀ keys keys', r = .ok keys → r' = .ok keys' → keys.privateKey ≠ keys'.privateKey := by
      rw [hkeys, List.pairwise_map]
      refine hnodup.imp ?_
      rintro p p' hne _ _ ⟨⟩ ⟨⟩
      exact hne
    exact List.pairwise_map.1 hpairs

/-! ## Keys in step -/

/-- Keys, record and fragment stay in step in every undisturbed run. -/
theorem keys_in_step (x25519 : String → String) (sha256 : Identity → String) (files : Files)
    (attempts : List Attempt) (hgen : Generates x25519 files attempts)
    (h : Undisturbed sha256 (history sha256 files attempts)) :
    InStep x25519 (history sha256 files attempts) where
  errors := fun _ hd hfailed => errors_in_step h hd hfailed
  reports := fun _ hd hmode _ hending => reports_in_step hgen hd hmode hending
  discarded := fun _ _ _ _ _ hrun hrotates hfailed _ _ _ hkeys _ hmem =>
    discarded_in_step hgen h hrun hrotates hfailed hkeys hmem
  redelivered := fun _ _ _ _ _ hrun hrotates hid hanswered hspares hmode hsame =>
    redelivered_in_step hgen hrun hrotates hid hanswered hspares hmode hsame
  status := fun _ hd hmode => status_in_step hd hmode

/-- A rotation is killed behind its journal and then redelivered, and a change of the port that
cannot restart Xray is made again. -/
def recoveredRotation : List Attempt :=
  [{ request := ensureRequest "deploy" 443 false, env := calm (keysOf "a") },
    { request := ensureRequest "rotate" 443 true, env := calm (keysOf "b"), fates := [.run, .die] },
    { request := ensureRequest "rotate" 443 true, env := calm (keysOf "c") },
    { request := ensureRequest "move" 8443 false
      env := { calm (keysOf "d") with restart := .error "exit status 1" } },
    { request := ensureRequest "move" 8443 false, env := calm (keysOf "e") }]

theorem recoveredRotation_undisturbed :
    Undisturbed portDigest (history portDigest {} recoveredRotation) := by
  have hattempt : ∀ d ∈ history portDigest {} recoveredRotation, d.attempt ∈ recoveredRotation := by
    intro d hd
    obtain ⟨as, bs, hattempts, -⟩ := exists_split_of_mem hd
    rw [hattempts]
    simp
  constructor
  · intro d hd _
    have hmem := hattempt d hd
    simp only [recoveredRotation, List.mem_cons, List.not_mem_nil, or_false] at hmem
    obtain h | h | h | h | h := hmem <;> rw [h] <;> rfl
  · rintro before later after hsplit ⟨d, -, -, hretries, -⟩
    have hmem := hattempt later (by rw [hsplit]; simp)
    simp only [Done.retries, Bool.and_eq_true] at hretries
    have hrotates := hretries.1.1
    unfold Done.rotates Done.request at hrotates
    unfold Done.request
    simp only [recoveredRotation, List.mem_cons, List.not_mem_nil, or_false] at hmem
    obtain h | h | h | h | h := hmem <;> rw [h] at hrotates ⊢
    · cases hrotates
    · exact smooth_calm rfl rfl
    · exact smooth_calm rfl rfl
    · cases hrotates
    · cases hrotates

theorem keys_in_step_recovered :
    InStep publicKeyOf (history portDigest {} recoveredRotation) := by
  have hkeys : recoveredRotation.map (·.env.generateKeys) =
      ["a", "b", "c", "d", "e"].map fun p => .ok (keysOf p) := rfl
  exact keys_in_step publicKeyOf portDigest {} recoveredRotation
    (generates_keysOf hkeys (by decide) (by decide)) recoveredRotation_undisturbed

/-- A rotation is killed behind its journal, its retry cannot restart Xray, and the port is
changed. -/
def retriedRotation : List Attempt :=
  [{ request := ensureRequest "deploy" 443 false, env := calm (keysOf "a") },
    { request := ensureRequest "rotate" 443 true, env := calm (keysOf "b"), fates := [.run, .die] },
    { request := ensureRequest "rotate" 443 true
      env := { calm (keysOf "c") with restart := .error "exit status 1" } },
    { request := ensureRequest "move" 8443 false, env := calm (keysOf "d") }]

theorem retriedRotation_leaves : ∃ d₁ d₂ d₃ d₄,
    history portDigest {} retriedRotation = [d₁, d₂, d₃, d₄] ∧ d₂.rotates = true ∧
      (d₂.lastTry [d₃]).Failed ∧ d₄.request.mode = .ensure ∧ d₄.request.rotateKeys = false ∧
      keysOf "b" ∈ d₂.after.generated ∧ ∃ inbound, .inbound inbound ∈ d₄.after.published ∧
        inbound.privateKey = "b" := by
  refine ⟨_, _, _, _, rfl, by decide, ?_, rfl, rfl, by decide, _, List.mem_cons_self, by decide⟩
  exact ⟨"重启 Xray 失败：exit status 1，已回滚上一份配置", by decide⟩

/-- The keys of the failed rotation are published by a request that does not rotate. -/
theorem retried_rotation_leaks : ¬ ∀ (x25519 : String → String) (sha256 : Identity → String)
    (files : Files) (attempts : List Attempt), Generates x25519 files attempts →
      InStep x25519 (history sha256 files attempts) := by
  intro h
  have hkeys : retriedRotation.map (·.env.generateKeys) =
      ["a", "b", "c", "d"].map fun p => .ok (keysOf p) := rfl
  have hstep := h publicKeyOf portDigest {} retriedRotation
    (generates_keysOf hkeys (by decide) (by decide))
  obtain ⟨d₁, d₂, d₃, d₄, hrun, hrotates, hfailed, hmode, hrotate, hgenerated, inbound, hmem,
    hprivate⟩ := retriedRotation_leaves
  rw [hrun] at hstep
  exact hstep.discarded [d₁] d₂ [d₃] d₄ [] rfl hrotates hfailed hmode hrotate (keysOf "b")
    hgenerated inbound hmem hprivate

end ChordV.Helper
