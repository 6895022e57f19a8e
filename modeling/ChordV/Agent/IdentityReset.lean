import ChordV.Agent.Identity

/-!
# Identity and runtime state travel together

An archive is journalled, its files are renamed one by one and the journal is removed.  The
process can crash anywhere in it and start again any number of times.

* `Sound` is the invariant: a file of an archive was renamed, or the journal of the archive is
  still in place and so is the file.
* `Settled` says that an identity is only used, and a journal only removed, when every file of
  every archive was renamed exactly once, under the stamp of its archive.
* `Spares` says that a step of an archive leaves the files alone that the archive does not list.
  It does if and only if the name that it renames a file to is not taken.
-/

namespace ChordV.Agent.Identity

open Lib Lib.Machine

/-! ## What an archive promises -/

namespace Host

/-- The file of that name is the one that was listed. -/
def Holds (h : Host) (path : Path) (birth : Birth) : Prop :=
  ∃ file, h.disk.lookup path = some file ∧ file.birth = birth

end Host

/-- All files of the archive were renamed, each exactly once and under the stamp of the archive,
and none is in place. -/
def Reset.Complete (h : Host) (r : Reset) : Prop :=
  ∀ l ∈ r.listed,
    h.renames.filter (fun x => x.birth = l.birth) =
      [⟨l.birth, l.path, .replaced l.path r.stamp⟩] ∧
    ¬ h.Holds l.path l.birth

/-- The process registers an identity or has one. -/
def Stage.resolved : Stage → Bool
  | .registering | .persisting _ | .requesting _ | .waiting _ _ | .saving _ | .serving _ => true
  | _ => false

/-- The process is at work on an archive. -/
def Stage.archives : Stage → Bool
  | .starting | .archiving _ _ _ | .clearing _ | .journaling _ _ => true
  | _ => false

namespace Host

/-- The process has an identity. -/
def resolved (h : Host) : Bool := h.process.any (·.stage.resolved)

/-- The process is renaming files. -/
def archives (h : Host) : Bool := h.process.any (·.stage.archives)

/-- The journal that is in place, whether it is accepted or not. -/
def journal (h : Host) : Option ResetJournal :=
  match h.disk.lookup .journal with
  | some ⟨_, .reset journal⟩ => some journal
  | _ => none

/-- The files that the journal names. -/
def journalFiles (h : Host) : List Path := (h.journal.map (·.files)).getD []

/-- Once the journal is gone, and whenever an identity is used, every archive is complete. -/
def Settled (h : Host) : Prop :=
  h.disk.lookup .journal = none ∨ h.resolved = true → ∀ r ∈ h.resets, r.Complete h

/-- Only files of archives were renamed, and under the stamp of their archive. -/
def OnlyListed (h : Host) : Prop :=
  ∀ x ∈ h.renames, ∃ r ∈ h.resets, ⟨x.source, x.birth⟩ ∈ r.listed ∧
    x.target = .replaced x.source r.stamp

/-- A step of an archive leaves the files alone that the journal does not name. -/
def Spares (h h' : Host) : Prop :=
  h.archives = true → ∀ path file, path ∉ h.journalFiles → path ≠ .journal →
    h.disk.lookup path = some file → h'.disk.lookup path = some file

/-- The name that the next rename of the process goes to is not taken. -/
def nameFree (h : Host) : Event → Bool
  | .advance _ _ _ =>
    match h.process with
    | some ⟨_, .archiving journal (path :: _) _⟩ =>
      (h.disk.lookup path).isNone || (h.disk.lookup (.replaced path journal.stamp)).isNone
    | _ => true
  | _ => true

end Host

/-! ## Lists of candidates -/

theorem replaced_notMem_archiveCandidates (path : Path) (stamp : Int) :
    Path.replaced path stamp ∉ archiveCandidates := by
  simp [archiveCandidates, stateCandidates]

theorem journal_notMem_archiveCandidates : Path.journal ∉ archiveCandidates := by decide

theorem Path.ne_replaced (path : Path) (stamp : Int) : path ≠ .replaced path stamp := by
  intro heq
  cases heq

theorem stateCandidates_subset : stateCandidates ⊆ archiveCandidates :=
  List.subset_append_right _ _

/-! ## The invariant -/

/-- The journal is of an archive: it names files of the configuration, and those that are in
place are listed. -/
def Host.Covered (h : Host) (journal : ResetJournal) : Prop :=
  journal.files ⊆ archiveCandidates ∧
    ∃ r ∈ h.resets, r.stamp = journal.stamp ∧
      ∀ path ∈ journal.files, ∀ birth, h.Holds path birth → ⟨path, birth⟩ ∈ r.listed

/-- What the stage says about the disk. -/
def Stage.Fits (h : Host) : Stage → Prop
  | .starting => True
  | .archiving journal todo _ => h.journal = some journal ∧ h.Covered journal ∧
      todo ⊆ journal.files ∧ ∀ path ∈ journal.files, path ∈ todo ∨ h.disk.lookup path = none
  | .clearing _ => ∃ journal, h.journal = some journal ∧
      ∀ path ∈ journal.files, h.disk.lookup path = none
  | .journaling files _ => h.disk.lookup .journal = none ∧ files ⊆ archiveCandidates
  | _ => h.disk.lookup .journal = none

/-- What holds of the disk and the records, whatever the process does. -/
structure Tidy (h : Host) : Prop where
  apart : ∀ p q birth, h.Holds p birth → h.Holds q birth → p = q
  young : ∀ p n, h.Holds p (.written n) → n < h.writes
  youngLog : ∀ x ∈ h.renames, ∀ n, x.birth = .written n → n < h.writes
  moved : ∀ x ∈ h.renames, ∀ p, h.Holds p x.birth → p = x.target
  once : (h.renames.map (·.birth)).Nodup
  onlyListed : h.OnlyListed
  progress : ∀ r ∈ h.resets, ∀ l ∈ r.listed,
    ⟨l.birth, l.path, .replaced l.path r.stamp⟩ ∈ h.renames ∨
      h.Holds l.path l.birth ∧ ∃ journal, h.journal = some journal ∧
        journal.stamp = r.stamp ∧ l.path ∈ journal.files
  covered : ∀ journal, readJournal h.disk = .ok (some journal) → h.Covered journal

/-- The disk is tidy, and the process fits it. -/
structure Sound (h : Host) : Prop extends Tidy h where
  fits : ∀ p, h.process = some p → p.stage.Fits h

/-! ## Reading the disk -/

section

variable {h h' : Host} {p q : Path} {birth : Birth}

theorem Host.Holds.lookup_ne_none (hp : h.Holds p birth) : h.disk.lookup p ≠ none := by
  obtain ⟨file, hfile, -⟩ := hp
  rw [hfile]
  exact Option.some_ne_none file

theorem Host.Holds.unique {birth' : Birth} (hp : h.Holds p birth) (hp' : h.Holds p birth') :
    birth = birth' := by
  obtain ⟨file, hfile, rfl⟩ := hp
  obtain ⟨file', hfile', rfl⟩ := hp'
  rw [hfile] at hfile'
  exact congrArg File.birth (Option.some.inj hfile')

theorem Host.holds_congr (heq : h'.disk.lookup p = h.disk.lookup p) :
    h'.Holds p birth ↔ h.Holds p birth := by
  simp only [Host.Holds, heq]

theorem Host.journal_congr (heq : h'.disk.lookup .journal = h.disk.lookup .journal) :
    h'.journal = h.journal := by
  simp only [Host.journal, heq]

theorem Host.journal_of_lookup_none (hj : h.disk.lookup .journal = none) : h.journal = none := by
  simp only [Host.journal, hj]

theorem readJournal_congr {d d' : Disk} (heq : d'.lookup .journal = d.lookup .journal) :
    readJournal d' = readJournal d := by
  simp only [readJournal, heq]

/-- What `finishInterruptedReset` accepts is the journal that is in place. -/
theorem journal_of_readJournal {journal : ResetJournal}
    (hread : readJournal h.disk = .ok (some journal)) :
    h.journal = some journal ∧ journal.files ⊆ archiveCandidates := by
  rw [readJournal] at hread
  split at hread
  · cases hread
  · next file hfile =>
    split at hread
    · next journal' hcontent =>
      split at hread
      · next haccepted =>
        cases hread
        refine ⟨?_, fun path hpath => ?_⟩
        · simp only [Host.journal, hfile]
          obtain ⟨birth, content⟩ := file
          subst hcontent
          rfl
        · simp only [ResetJournal.accepted, Bool.and_eq_true, List.all_eq_true,
            List.contains_eq_mem, decide_eq_true_eq] at haccepted
          exact haccepted.2 path hpath
      · cases hread
    · cases hread

theorem lookup_journal_of_readJournal_none (hread : readJournal h.disk = .ok none) :
    h.disk.lookup .journal = none := by
  rw [readJournal] at hread
  split at hread
  · next hnone => exact hnone
  · split at hread
    · split at hread <;> cases hread
    · cases hread

theorem Host.holds_write {content : Content} :
    (h.write q content).Holds p birth ↔
      if p = q then birth = .written h.writes else h.Holds p birth := by
  by_cases hp : p = q
  · subst hp
    simp [Host.Holds, Host.write, eq_comm]
  · rw [if_neg hp]
    exact Host.holds_congr (by simp [Host.write, AList.lookup_insert_ne hp])

/-! ## The disk between two archives -/

theorem Tidy.renamed (ht : Tidy h) (hjournal : h.journal = none) {r : Reset} (hr : r ∈ h.resets)
    {l : Listed} (hl : l ∈ r.listed) :
    ⟨l.birth, l.path, .replaced l.path r.stamp⟩ ∈ h.renames := by
  rcases ht.progress r hr l hl with hdone | ⟨-, journal, hsome, -⟩
  · exact hdone
  · rw [hjournal] at hsome
    cases hsome

/-- While no journal is in place, files may come and go. -/
theorem Tidy.of_holds (ht : Tidy h) (hnone : h.disk.lookup .journal = none)
    (hnone' : h'.disk.lookup .journal = none) (hresets : h'.resets = h.resets)
    (hrenames : h'.renames = h.renames) (hwrites : h.writes ≤ h'.writes)
    (hholds : ∀ p birth, h'.Holds p birth →
      h.Holds p birth ∨ p = q ∧ birth = .written h.writes ∧ h.writes < h'.writes) : Tidy h' := by
  have hnew : ∀ p, ¬ h.Holds p (.written h.writes) := fun p hp =>
    Nat.lt_irrefl _ (ht.young p _ hp)
  refine ⟨?_, ?_, ?_, ?_, ?_, ?_, ?_, ?_⟩
  · intro p₁ p₂ birth h₁ h₂
    rcases hholds _ _ h₁ with h₁ | ⟨rfl, rfl, -⟩ <;> rcases hholds _ _ h₂ with h₂ | ⟨rfl, hb, -⟩
    · exact ht.apart _ _ _ h₁ h₂
    · subst hb
      exact absurd h₁ (hnew _)
    · exact absurd h₂ (hnew _)
    · rfl
  · intro p n hp
    rcases hholds _ _ hp with hp | ⟨-, hb, hlt⟩
    · exact Nat.lt_of_lt_of_le (ht.young p n hp) hwrites
    · cases hb
      exact hlt
  · intro x hx n hb
    rw [hrenames] at hx
    exact Nat.lt_of_lt_of_le (ht.youngLog x hx n hb) hwrites
  · intro x hx p hp
    rw [hrenames] at hx
    rcases hholds _ _ hp with hp | ⟨-, hb, -⟩
    · exact ht.moved x hx p hp
    · exact absurd (ht.youngLog x hx _ hb) (Nat.lt_irrefl _)
  · rw [hrenames]
    exact ht.once
  · rw [Host.OnlyListed, hrenames, hresets]
    exact ht.onlyListed
  · intro r hr l hl
    rw [hresets] at hr
    rw [hrenames]
    exact .inl (ht.renamed (Host.journal_of_lookup_none hnone) hr hl)
  · intro journal hread
    have hsome := (journal_of_readJournal hread).1
    rw [Host.journal_of_lookup_none hnone'] at hsome
    cases hsome

theorem Tidy.write (ht : Tidy h) (hnone : h.disk.lookup .journal = none) (hq : q ≠ .journal)
    (content : Content) : Tidy (h.write q content) := by
  refine ht.of_holds (q := q) hnone ?_ rfl rfl (Nat.le_succ _) fun p birth hp => ?_
  · rw [Host.write, AList.lookup_insert_ne hq.symm]
    exact hnone
  · rw [Host.holds_write] at hp
    split at hp
    · next heq => exact .inr ⟨heq, hp, Nat.lt_succ_self _⟩
    · exact .inl hp

theorem Tidy.store (ht : Tidy h) (hnone : h.disk.lookup .journal = none) (hq : q ≠ .journal)
    (content : Content) : Tidy (h.store q content) := by
  rw [Host.store]
  split
  · next file hfile =>
    refine ht.of_holds (q := q) hnone ?_ rfl rfl le_rfl fun p birth hp => .inl ?_
    · rw [AList.lookup_insert_ne hq.symm]
      exact hnone
    · obtain ⟨file', hfile', rfl⟩ := hp
      rw [Table.lookup_insert_ite] at hfile'
      split at hfile'
      · next heq =>
        cases hfile'
        rw [heq]
        exact ⟨file, hfile, rfl⟩
      · exact ⟨file', hfile', rfl⟩
  · exact ht.write hnone hq content

theorem Tidy.unlink (ht : Tidy h) (hnone : h.disk.lookup .journal = none) :
    Tidy { h with disk := h.disk.erase q } := by
  refine ht.of_holds (q := q) hnone ?_ rfl rfl le_rfl fun p birth hp => .inl ?_
  · rw [Table.lookup_erase_ite]
    split
    · rfl
    · exact hnone
  · obtain ⟨file, hfile, rfl⟩ := hp
    rw [Table.lookup_erase_ite] at hfile
    split at hfile
    · cases hfile
    · exact ⟨file, hfile, rfl⟩

/-! ## The three steps of an archive -/

theorem Host.mem_listed {files : List Path} {l : Listed} :
    l ∈ h.listed files ↔ l.path ∈ files ∧ h.Holds l.path l.birth := by
  obtain ⟨path, birth⟩ := l
  simp only [Host.listed, List.mem_filterMap, Option.map_eq_some_iff, Listed.mk.injEq]
  constructor
  · rintro ⟨p, hp, file, hfile, rfl, rfl⟩
    exact ⟨hp, file, hfile, rfl⟩
  · rintro ⟨hp, file, hfile, rfl⟩
    exact ⟨path, hp, file, hfile, rfl, rfl⟩

/-- The host after the journal of an archive was written. -/
def Host.journalled (h : Host) (now : Int) (files : List Path) : Host :=
  { h.write .journal (.reset ⟨now, files⟩) with resets := ⟨now, h.listed files⟩ :: h.resets }

theorem Host.journal_journalled (now : Int) (files : List Path) :
    (h.journalled now files).journal = some ⟨now, files⟩ := by
  simp [Host.journal, Host.journalled, Host.write]

theorem Host.holds_journalled {now : Int} {files : List Path} (hp : p ≠ .journal) :
    (h.journalled now files).Holds p birth ↔ h.Holds p birth :=
  Host.holds_congr (by simp [Host.journalled, Host.write, AList.lookup_insert_ne hp])

theorem Host.covered_journalled {now : Int} {files : List Path}
    (hfiles : files ⊆ archiveCandidates) : (h.journalled now files).Covered ⟨now, files⟩ := by
  refine ⟨hfiles, _, List.mem_cons_self, rfl, fun path hpath birth hholds => ?_⟩
  rw [Host.holds_journalled fun heq => journal_notMem_archiveCandidates (heq ▸ hfiles hpath)]
    at hholds
  exact Host.mem_listed.2 ⟨hpath, hholds⟩

theorem Tidy.journalled (ht : Tidy h) (hnone : h.disk.lookup .journal = none) {files : List Path}
    (hfiles : files ⊆ archiveCandidates) (now : Int) : Tidy (h.journalled now files) := by
  have hnew : ∀ p, ¬ h.Holds p (.written h.writes) := fun p hp =>
    Nat.lt_irrefl _ (ht.young p _ hp)
  have hholds : ∀ p birth, (h.journalled now files).Holds p birth →
      h.Holds p birth ∨ p = .journal ∧ birth = .written h.writes := by
    intro p birth hp
    have hwrite : (h.write .journal (.reset ⟨now, files⟩)).Holds p birth := hp
    rw [Host.holds_write] at hwrite
    split at hwrite
    · next heq => exact .inr ⟨heq, hwrite⟩
    · exact .inl hwrite
  refine ⟨?_, ?_, ?_, ?_, ht.once, ?_, ?_, ?_⟩
  · intro p₁ p₂ birth h₁ h₂
    rcases hholds _ _ h₁ with h₁ | ⟨rfl, rfl⟩ <;> rcases hholds _ _ h₂ with h₂ | ⟨rfl, hb⟩
    · exact ht.apart _ _ _ h₁ h₂
    · subst hb
      exact absurd h₁ (hnew _)
    · exact absurd h₂ (hnew _)
    · rfl
  · intro p n hp
    rcases hholds _ _ hp with hp | ⟨-, hb⟩
    · exact Nat.lt_succ_of_lt (ht.young p n hp)
    · cases hb
      exact Nat.lt_succ_self _
  · intro x hx n hb
    exact Nat.lt_succ_of_lt (ht.youngLog x hx n hb)
  · intro x hx p hp
    rcases hholds _ _ hp with hp | ⟨-, hb⟩
    · exact ht.moved x hx p hp
    · exact absurd (ht.youngLog x hx _ hb) (Nat.lt_irrefl _)
  · intro x hx
    obtain ⟨r, hr, hlisted⟩ := ht.onlyListed x hx
    exact ⟨r, List.mem_cons_of_mem _ hr, hlisted⟩
  · intro r hr l hl
    rcases List.mem_cons.1 hr with rfl | hr
    · obtain ⟨hpath, hplace⟩ := Host.mem_listed.1 hl
      refine .inr ⟨?_, _, Host.journal_journalled now files, rfl, hpath⟩
      exact (Host.holds_journalled fun heq =>
        journal_notMem_archiveCandidates (heq ▸ hfiles hpath)).2 hplace
    · exact .inl (ht.renamed (Host.journal_of_lookup_none hnone) hr hl)
  · intro journal hread
    have hsome := (journal_of_readJournal hread).1
    rw [Host.journal_journalled] at hsome
    cases hsome
    exact Host.covered_journalled hfiles

/-- A rename within an archive touches the file that it renames and the name that it goes to. -/
theorem Host.lookup_archive (stamp : Int) (q : Path) :
    (h.archive stamp p).disk.lookup q =
      if h.disk.lookup p = none then h.disk.lookup q
      else if q = .replaced p stamp then h.disk.lookup p
      else if q = p then none else h.disk.lookup q := by
  rw [Host.archive]
  split
  · next hnone => rw [if_pos hnone]
  · next file hfile =>
    rw [if_neg (by rw [hfile]; exact Option.some_ne_none _), Disk.rename,
      Table.lookup_insert_ite, Table.lookup_erase_ite, hfile]

theorem Host.lookup_archive_of_mem {stamp : Int} (hq : q ∈ archiveCandidates) :
    (h.archive stamp p).disk.lookup q = if q = p then none else h.disk.lookup q := by
  have hne : q ≠ .replaced p stamp := fun heq =>
    replaced_notMem_archiveCandidates p stamp (heq ▸ hq)
  rw [Host.lookup_archive]
  split
  · next hnone =>
    split
    · next heq => rw [heq, hnone]
    · rfl
  · rfl

theorem Host.lookup_journal_archive {stamp : Int} (hp : p ∈ archiveCandidates) :
    (h.archive stamp p).disk.lookup .journal = h.disk.lookup .journal := by
  have hne : Path.journal ≠ p := fun heq => journal_notMem_archiveCandidates (heq ▸ hp)
  rw [Host.lookup_archive]
  split
  · rfl
  · rw [if_neg Path.noConfusion]

theorem Host.resets_archive (stamp : Int) : (h.archive stamp p).resets = h.resets := by
  rw [Host.archive]
  split <;> rfl

/-- What is in place after a rename was in place before, or is the renamed file. -/
theorem Host.holds_archive {stamp : Int} (hholds : (h.archive stamp p).Holds q birth) :
    (q ≠ p ∨ h.disk.lookup p = none) ∧ h.Holds q birth ∨
      q = .replaced p stamp ∧ h.Holds p birth := by
  obtain ⟨file, hfile, rfl⟩ := hholds
  rw [Host.lookup_archive] at hfile
  split at hfile
  · next hnone => exact .inl ⟨.inr hnone, file, hfile, rfl⟩
  · split at hfile
    · next heq => exact .inr ⟨heq, file, hfile, rfl⟩
    · split at hfile
      · cases hfile
      · next hne => exact .inl ⟨.inl hne, file, hfile, rfl⟩

theorem Tidy.archive (ht : Tidy h) {journal : ResetJournal} (hjournal : h.journal = some journal)
    (hcovered : h.Covered journal) (hp : p ∈ journal.files) :
    Tidy (h.archive journal.stamp p) := by
  have hcandidate := hcovered.1 hp
  cases hfile : h.disk.lookup p with
  | none =>
    rw [Host.archive, hfile]
    exact ht
  | some file =>
    have hplace : h.Holds p file.birth := ⟨file, hfile, rfl⟩
    -- The file was not renamed before: it would be at the name that it got then.
    have hfirst : ∀ x ∈ h.renames, x.birth ≠ file.birth := by
      intro x hx heq
      obtain ⟨r, -, -, htarget⟩ := ht.onlyListed x hx
      have := ht.moved x hx p (heq ▸ hplace)
      rw [htarget] at this
      exact replaced_notMem_archiveCandidates _ _ (this ▸ hcandidate)
    have hlog : (h.archive journal.stamp p).renames =
        ⟨file.birth, p, .replaced p journal.stamp⟩ :: h.renames := by
      simp [Host.archive, hfile]
    have hwrites : (h.archive journal.stamp p).writes = h.writes := by
      simp [Host.archive, hfile]
    have hholds : ∀ q birth, (h.archive journal.stamp p).Holds q birth →
        q ≠ p ∧ h.Holds q birth ∨ q = .replaced p journal.stamp ∧ birth = file.birth := by
      intro q birth hq
      rcases Host.holds_archive hq with ⟨hne | hnone, hq⟩ | ⟨heq, hq⟩
      · exact .inl ⟨hne, hq⟩
      · rw [hfile] at hnone
        cases hnone
      · exact .inr ⟨heq, hq.unique hplace⟩
    refine ⟨?_, ?_, ?_, ?_, ?_, ?_, ?_, ?_⟩
    · intro q₁ q₂ birth h₁ h₂
      rcases hholds _ _ h₁ with ⟨hne₁, h₁⟩ | ⟨rfl, hb⟩ <;>
        rcases hholds _ _ h₂ with ⟨hne₂, h₂⟩ | ⟨rfl, hb'⟩
      · exact ht.apart _ _ _ h₁ h₂
      · exact absurd (ht.apart _ _ _ h₁ (hb' ▸ hplace)) hne₁
      · exact absurd (ht.apart _ _ _ h₂ (hb ▸ hplace)) hne₂
      · rfl
    · intro q n hq
      rw [hwrites]
      rcases hholds _ _ hq with ⟨-, hq⟩ | ⟨-, hb⟩
      · exact ht.young q n hq
      · exact ht.young p n (hb ▸ hplace)
    · intro x hx n hb
      rw [hwrites]
      rw [hlog] at hx
      rcases List.mem_cons.1 hx with rfl | hx
      · exact ht.young p n (hb ▸ hplace)
      · exact ht.youngLog x hx n hb
    · intro x hx q hq
      rw [hlog] at hx
      rcases List.mem_cons.1 hx with rfl | hx
      · rcases hholds _ _ hq with ⟨hne, hq⟩ | ⟨heq, -⟩
        · exact absurd (ht.apart _ _ _ hq hplace) hne
        · exact heq
      · rcases hholds _ _ hq with ⟨-, hq⟩ | ⟨-, hb⟩
        · exact ht.moved x hx q hq
        · exact absurd hb (hfirst x hx)
    · rw [hlog, List.map_cons, List.nodup_cons]
      refine ⟨fun hmem => ?_, ht.once⟩
      obtain ⟨x, hx, heq⟩ := List.mem_map.1 hmem
      exact hfirst x hx heq
    · intro x hx
      rw [hlog] at hx
      rw [Host.resets_archive]
      rcases List.mem_cons.1 hx with rfl | hx
      · obtain ⟨-, r, hr, hstamp, hlisted⟩ := hcovered
        exact ⟨r, hr, hlisted p hp _ hplace, by rw [hstamp]⟩
      · exact ht.onlyListed x hx
    · intro r hr l hl
      rw [Host.resets_archive] at hr
      rw [hlog]
      rcases ht.progress r hr l hl with hdone | ⟨hl', journal', hsome, hstamp, hmem⟩
      · exact .inl (List.mem_cons_of_mem _ hdone)
      · rw [hjournal] at hsome
        cases hsome
        by_cases heq : l.path = p
        · have hb : l.birth = file.birth := (heq ▸ hl').unique hplace
          refine .inl ?_
          rw [heq, hb, ← hstamp]
          exact List.mem_cons_self
        · refine .inr ⟨?_, journal, ?_, hstamp, hmem⟩
          · refine (Host.holds_congr ?_).2 hl'
            rw [Host.lookup_archive_of_mem (hcovered.1 hmem), if_neg heq]
          · rw [Host.journal_congr (Host.lookup_journal_archive hcandidate), hjournal]
    · intro journal' hread
      rw [readJournal_congr (Host.lookup_journal_archive hcandidate)] at hread
      obtain ⟨hfiles, r, hr, hstamp, hlisted⟩ := ht.covered journal' hread
      refine ⟨hfiles, r, by rw [Host.resets_archive]; exact hr, hstamp, fun q hq birth hqb => ?_⟩
      rcases hholds _ _ hqb with ⟨-, hqb⟩ | ⟨heq, -⟩
      · exact hlisted q hq birth hqb
      · exact absurd (hfiles hq) (heq ▸ replaced_notMem_archiveCandidates p journal.stamp)

theorem Tidy.cleared (ht : Tidy h) {journal : ResetJournal} (hjournal : h.journal = some journal)
    (hgone : ∀ path ∈ journal.files, h.disk.lookup path = none) :
    Tidy { h with disk := h.disk.erase .journal } := by
  have hholds : ∀ q birth, ({ h with disk := h.disk.erase .journal } : Host).Holds q birth →
      h.Holds q birth := by
    rintro q birth ⟨file, hfile, rfl⟩
    rw [Table.lookup_erase_ite] at hfile
    split at hfile
    · cases hfile
    · exact ⟨file, hfile, rfl⟩
  refine ⟨fun _ _ _ h₁ h₂ => ht.apart _ _ _ (hholds _ _ h₁) (hholds _ _ h₂),
    fun q n hq => ht.young q n (hholds _ _ hq), ht.youngLog,
    fun x hx q hq => ht.moved x hx q (hholds _ _ hq), ht.once, ht.onlyListed, ?_, ?_⟩
  · intro r hr l hl
    rcases ht.progress r hr l hl with hdone | ⟨hplace, journal', hsome, -, hmem⟩
    · exact .inl hdone
    · rw [hjournal] at hsome
      cases hsome
      exact absurd (hgone _ hmem) hplace.lookup_ne_none
  · intro journal' hread
    have hsome := (journal_of_readJournal
      (h := { h with disk := h.disk.erase .journal }) hread).1
    rw [Host.journal_of_lookup_none (AList.lookup_erase _ _)] at hsome
    cases hsome

/-! ## Every step keeps the invariant -/

theorem Stage.fits_goto {cfg : Config} {stage : Stage} (s : Stage) :
    s.Fits (h.goto cfg stage) ↔ s.Fits h := by
  cases s <;> exact Iff.rfl

theorem Sound.goto (ht : Tidy h) {stage : Stage} (hfits : stage.Fits h) (cfg : Config) :
    Sound (h.goto cfg stage) where
  toTidy := ⟨ht.apart, ht.young, ht.youngLog, ht.moved, ht.once, ht.onlyListed, ht.progress,
    ht.covered⟩
  fits := by
    rintro p ⟨⟩
    exact (Stage.fits_goto stage).2 hfits

theorem Sound.stop (ht : Tidy h) : Sound h.stop where
  toTidy := ⟨ht.apart, ht.young, ht.youngLog, ht.moved, ht.once, ht.onlyListed, ht.progress,
    ht.covered⟩
  fits := by
    rintro p ⟨⟩

theorem Sound.advance (hs : Sound h) (fingerprint : String → Word) {cfg : Config} {stage : Stage}
    (hprocess : h.process = some ⟨cfg, stage⟩) (now : Int) (secret : AgentToken) (request : Nat) :
    Sound (h.advance fingerprint cfg now secret request stage) := by
  have hfits := hs.fits _ hprocess
  cases stage with
  | starting =>
    simp only [Host.advance]
    split
    · next hread =>
      refine Sound.goto hs.toTidy ?_ cfg
      exact lookup_journal_of_readJournal_none hread
    · next journal hread =>
      refine Sound.goto hs.toTidy ?_ cfg
      exact ⟨(journal_of_readJournal hread).1, hs.covered journal hread, List.Subset.refl _,
        fun path hpath => .inl hpath⟩
    · exact Sound.stop hs.toTidy
  | archiving journal todo after =>
    obtain ⟨hjournal, hcovered, htodo, hgone⟩ := hfits
    cases todo with
    | nil =>
      refine Sound.goto hs.toTidy ?_ cfg
      exact ⟨journal, hjournal, fun path hpath => (hgone path hpath).resolve_left List.not_mem_nil⟩
    | cons path todo =>
      have hpath := htodo List.mem_cons_self
      refine Sound.goto (hs.toTidy.archive hjournal hcovered hpath) ?_ cfg
      refine ⟨?_, ⟨hcovered.1, ?_⟩, fun q hq => htodo (List.mem_cons_of_mem _ hq), fun q hq => ?_⟩
      · rw [Host.journal_congr (Host.lookup_journal_archive (hcovered.1 hpath)), hjournal]
      · obtain ⟨r, hr, hstamp, hlisted⟩ := hcovered.2
        refine ⟨r, by rw [Host.resets_archive]; exact hr, hstamp, fun q hq birth hqb => ?_⟩
        rcases Host.holds_archive hqb with ⟨-, hqb⟩ | ⟨heq, -⟩
        · exact hlisted q hq birth hqb
        · exact absurd (hcovered.1 hq) (heq ▸ replaced_notMem_archiveCandidates path journal.stamp)
      · rw [Host.lookup_archive_of_mem (hcovered.1 hq)]
        by_cases heq : q = path
        · exact .inr (if_pos heq)
        · rw [if_neg heq]
          rcases hgone q hq with hmem | hnone
          · exact .inl ((List.mem_cons.1 hmem).resolve_left heq)
          · exact .inr hnone
  | clearing after =>
    obtain ⟨journal, hjournal, hgone⟩ := hfits
    refine Sound.goto (hs.toTidy.cleared hjournal hgone) ?_ cfg
    cases after <;> exact AList.lookup_erase _ _
  | resolving =>
    simp only [Host.advance]
    split
    · next stage hresolve =>
      refine Sound.goto hs.toTidy ?_ cfg
      rcases resolve_cases hresolve with ⟨identity, -, rfl⟩ | ⟨-, ⟨-, -, rfl⟩ | ⟨saved, identity,
        -, -, ⟨-, -, rfl⟩ | ⟨-, rfl⟩⟩⟩
      · exact hfits
      · exact hfits
      · exact ⟨hfits, List.Subset.refl _⟩
      · exact hfits
    · exact Sound.stop hs.toTidy
  | journaling files after =>
    obtain ⟨hnone, hfiles⟩ := hfits
    refine Sound.goto (hs.toTidy.journalled hnone hfiles now) ?_ cfg
    exact ⟨Host.journal_journalled now files, Host.covered_journalled hfiles, List.Subset.refl _,
      fun path hpath => .inl hpath⟩
  | registering =>
    simp only [Host.advance]
    split
    · refine Sound.goto hs.toTidy ?_ cfg
      exact hfits
    · refine Sound.goto hs.toTidy ?_ cfg
      exact hfits
    · exact Sound.stop hs.toTidy
  | persisting agentToken =>
    refine Sound.goto (hs.toTidy.write hfits Path.noConfusion _) ?_ cfg
    exact (AList.lookup_insert_ne Path.noConfusion).trans hfits
  | requesting agentToken =>
    refine Sound.goto hs.toTidy ?_ cfg
    exact hfits
  | waiting agentToken request' => exact hs
  | saving identity =>
    refine Sound.goto (hs.toTidy.write hfits Path.noConfusion _) ?_ cfg
    exact (AList.lookup_insert_ne Path.noConfusion).trans hfits
  | serving identity => exact hs

theorem Sound.step (hs : Sound h) (fingerprint : String → Word) (paths : Paths) (e : Event) :
    Sound (step fingerprint paths h e) := by
  cases e with
  | start cfg =>
    simp only [Identity.step]
    split
    · refine Sound.goto hs.toTidy ?_ cfg
      trivial
    · exact hs
  | crash => exact Sound.stop hs.toTidy
  | advance now secret request =>
    simp only [Identity.step]
    split
    · next p hprocess => exact hs.advance fingerprint hprocess now secret request
    · exact hs
  | respond response =>
    simp only [Identity.step]
    split
    · next cfg agentToken request hprocess =>
      rw [Host.respond]
      split
      · exact Sound.stop hs.toTidy
      · refine Sound.goto hs.toTidy ?_ cfg
        exact hs.fits _ hprocess
    · exact hs
  | openForeign =>
    simp only [Identity.step]
    split
    · next cfg identity hprocess =>
      split
      · refine Sound.goto hs.toTidy ?_ cfg
        exact ⟨hs.fits _ hprocess, stateCandidates_subset⟩
      · exact hs
    · exact hs
  | store path content =>
    simp only [Identity.step]
    split
    · next cfg identity hprocess =>
      have hnone : h.disk.lookup .journal = none := hs.fits _ hprocess
      split
      · next hpath =>
        have hne : path ≠ .journal := by
          rintro rfl
          exact journal_notMem_archiveCandidates (stateCandidates_subset hpath)
        have hprocess' : (h.store path content).process = h.process := by
          rw [Host.store]
          split <;> rfl
        have hnone' : (h.store path content).disk.lookup .journal = none := by
          rw [Host.store]
          split
          · exact (AList.lookup_insert_ne hne.symm).trans hnone
          · exact (AList.lookup_insert_ne hne.symm).trans hnone
        refine ⟨hs.toTidy.store hnone hne content, fun p hp => ?_⟩
        rw [hprocess', hprocess] at hp
        cases hp
        exact hnone'
      · exact hs
    · exact hs
  | unlink path =>
    simp only [Identity.step]
    split
    · next cfg identity hprocess =>
      have hnone : h.disk.lookup .journal = none := hs.fits _ hprocess
      split
      · refine ⟨hs.toTidy.unlink hnone, fun p hp => ?_⟩
        have hp : h.process = some p := hp
        rw [hprocess] at hp
        cases hp
        change (h.disk.erase path).lookup .journal = none
        rw [Table.lookup_erase_ite]
        split
        · rfl
        · exact hnone
      · exact hs
    · exact hs

/-! ## The host at first -/

/-- The first disk: every file is the one of its name. -/
theorem Host.disk_boot (files : Table Path Content) :
    (Host.boot files).disk = files.mapRows fun path content => ⟨.initial path, content⟩ := by
  rw [Host.boot]
  split <;> rfl

theorem Host.holds_boot {files : Table Path Content} (hp : (Host.boot files).Holds p birth) :
    birth = .initial p := by
  obtain ⟨file, hfile, rfl⟩ := hp
  rw [Host.disk_boot, Table.lookup_mapRows, Option.map_eq_some_iff] at hfile
  obtain ⟨content, -, rfl⟩ := hfile
  rfl

theorem Host.renames_boot (files : Table Path Content) : (Host.boot files).renames = [] := by
  rw [Host.boot]
  split <;> rfl

theorem Host.process_boot (files : Table Path Content) : (Host.boot files).process = none := by
  rw [Host.boot]
  split <;> rfl

/-- The archive of the journal that is accepted is recorded, and no other. -/
theorem Host.resets_boot (files : Table Path Content) :
    (∃ journal, readJournal (Host.boot files).disk = .ok (some journal) ∧
      (Host.boot files).resets =
        [⟨journal.stamp, (Host.boot files).listed journal.files⟩]) ∨
    (∀ journal, readJournal (Host.boot files).disk ≠ .ok (some journal)) ∧
      (Host.boot files).resets = [] := by
  rw [Host.disk_boot]
  cases hread : readJournal (files.mapRows fun path content => ⟨.initial path, content⟩) with
  | error e =>
    refine .inr ⟨by rintro journal ⟨⟩, ?_⟩
    simp only [Host.boot, hread]
  | ok found =>
    cases found with
    | none =>
      refine .inr ⟨by rintro journal ⟨⟩, ?_⟩
      simp only [Host.boot, hread]
    | some journal =>
      refine .inl ⟨journal, rfl, ?_⟩
      simp only [Host.boot, hread]
      rfl

theorem Sound.boot (files : Table Path Content) : Sound (Host.boot files) where
  apart := by
    intro p q birth hp hq
    have := (Host.holds_boot hp).symm.trans (Host.holds_boot hq)
    exact Birth.initial.inj this
  young := by
    intro p n hp
    cases Host.holds_boot hp
  youngLog := by
    intro x hx
    rw [Host.renames_boot] at hx
    cases hx
  moved := by
    intro x hx
    rw [Host.renames_boot] at hx
    cases hx
  once := by
    rw [Host.renames_boot]
    exact List.nodup_nil
  onlyListed := by
    intro x hx
    rw [Host.renames_boot] at hx
    cases hx
  progress := by
    intro r hr l hl
    rcases Host.resets_boot files with ⟨journal, hread, hresets⟩ | ⟨-, hresets⟩
    · rw [hresets, List.mem_singleton] at hr
      subst hr
      obtain ⟨hpath, hplace⟩ := Host.mem_listed.1 hl
      exact .inr ⟨hplace, journal, (journal_of_readJournal hread).1, rfl, hpath⟩
    · rw [hresets] at hr
      cases hr
  covered := by
    intro journal hread
    rcases Host.resets_boot files with ⟨journal', hread', hresets⟩ | ⟨hno, -⟩
    · rw [hread] at hread'
      cases hread'
      refine ⟨(journal_of_readJournal hread).2, _, by rw [hresets]; exact List.mem_cons_self, rfl,
        fun path hpath birth hholds => Host.mem_listed.2 ⟨hpath, hholds⟩⟩
    · exact absurd hread (hno journal)
  fits := by
    intro p hp
    rw [Host.process_boot] at hp
    cases hp

/-! ## What the invariant says -/

theorem filter_birth_of_nodup {log : List Rename} (hnodup : (log.map (·.birth)).Nodup)
    {x : Rename} (hx : x ∈ log) : log.filter (fun y => y.birth = x.birth) = [x] := by
  induction log with
  | nil => cases hx
  | cons y log ih =>
    rw [List.map_cons, List.nodup_cons] at hnodup
    rcases List.mem_cons.1 hx with rfl | hx
    · have hrest : log.filter (fun z => z.birth = x.birth) = [] := by
        refine List.filter_eq_nil_iff.2 fun z hz heq => hnodup.1 ?_
        rw [← of_decide_eq_true heq]
        exact List.mem_map_of_mem hz
      rw [List.filter_cons_of_pos (by simp), hrest]
    · have hne : ¬ y.birth = x.birth := fun heq =>
        hnodup.1 (heq ▸ List.mem_map_of_mem hx)
      rw [List.filter_cons_of_neg (by simpa using hne), ih hnodup.2 hx]

theorem Sound.settled (hs : Sound h) : h.Settled := by
  intro hdone r hr l hl
  have hnone : h.disk.lookup .journal = none := by
    rcases hdone with hnone | hresolved
    · exact hnone
    · rw [Host.resolved, Option.any_eq_true] at hresolved
      obtain ⟨⟨cfg, stage⟩, hp, hstage⟩ := hresolved
      have hfits := hs.fits _ hp
      cases stage <;> first | exact hfits | cases hstage
  have hrenamed := hs.renamed (Host.journal_of_lookup_none hnone) hr hl
  refine ⟨filter_birth_of_nodup hs.once hrenamed, fun hplace => ?_⟩
  exact l.path.ne_replaced r.stamp (hs.moved _ hrenamed _ hplace)

/-! ## The files that an archive does not list -/

/-- A rename spares the files that the journal does not name if its new name is free. -/
theorem Sound.spares_archive (hs : Sound h) {cfg : Config} {journal : ResetJournal} {path : Path}
    {todo : List Path} {after : After}
    (hprocess : h.process = some ⟨cfg, .archiving journal (path :: todo) after⟩) {h' : Host}
    (hdisk : h'.disk = (h.archive journal.stamp path).disk) :
    h.Spares h' ↔ h.disk.lookup path = none ∨
      h.disk.lookup (.replaced path journal.stamp) = none := by
  obtain ⟨hjournal, hcovered, htodo, -⟩ := hs.fits _ hprocess
  have hpath := htodo List.mem_cons_self
  have hfiles : h.journalFiles = journal.files := by simp [Host.journalFiles, hjournal]
  have harchives : h.archives = true := by simp [Host.archives, hprocess, Stage.archives]
  constructor
  · intro hspares
    by_contra htaken
    rw [not_or] at htaken
    obtain ⟨file, hfile⟩ := Option.ne_none_iff_exists'.1 htaken.1
    obtain ⟨old, hold⟩ := Option.ne_none_iff_exists'.1 htaken.2
    have hkept := hspares harchives _ old
      (fun hmem => replaced_notMem_archiveCandidates path journal.stamp
        (hcovered.1 (hfiles ▸ hmem))) Path.noConfusion hold
    rw [hdisk, Host.lookup_archive, if_neg htaken.1, if_pos rfl, hfile] at hkept
    -- Both names would hold the same file.
    have hsame : h.Holds (.replaced path journal.stamp) file.birth := ⟨old, hold, by
      rw [Option.some.inj hkept]⟩
    exact path.ne_replaced journal.stamp (hs.apart _ _ _ ⟨file, hfile, rfl⟩ hsame)
  · intro hfree _ q file hq _ hlookup
    rw [hfiles] at hq
    rw [hdisk, Host.lookup_archive]
    split
    · exact hlookup
    · next hplace =>
      rw [if_neg, if_neg, hlookup]
      · rintro rfl
        exact hq hpath
      · rintro rfl
        rcases hfree with hnone | hnone
        · exact hplace hnone
        · rw [hlookup] at hnone
          cases hnone

theorem Host.spares_of_disk (hdisk : h'.disk = h.disk) : h.Spares h' := by
  intro _ path file _ _ hlookup
  rw [hdisk]
  exact hlookup

theorem Host.spares_of_not_archives (hno : h.archives = false) : h.Spares h' := by
  intro harchives
  rw [hno] at harchives
  cases harchives

theorem Sound.nameFree_iff (hs : Sound h) (fingerprint : String → Word)
    (paths : Paths) (e : Event) :
    h.nameFree e = true ↔ h.Spares (Identity.step fingerprint paths h e) := by
  cases hprocess : h.process with
  | none =>
    have hno : h.archives = false := by simp [Host.archives, hprocess]
    refine iff_of_true ?_ (Host.spares_of_not_archives hno)
    cases e <;> simp [Host.nameFree, hprocess]
  | some p =>
    obtain ⟨cfg, stage⟩ := p
    cases hstage : stage.archives with
    | false =>
      have hno : h.archives = false := by simp [Host.archives, hprocess, hstage]
      refine iff_of_true ?_ (Host.spares_of_not_archives hno)
      cases e with
      | advance => cases stage <;> simp [Stage.archives] at hstage <;>
          simp [Host.nameFree, hprocess]
      | _ => rfl
    | true =>
      cases e with
      | advance now secret request =>
        cases stage with
        | archiving journal todo after =>
          cases todo with
          | nil =>
            refine iff_of_true (by simp [Host.nameFree, hprocess]) (Host.spares_of_disk ?_)
            simp [Identity.step, hprocess, Host.advance, Host.goto]
          | cons path todo =>
            rw [hs.spares_archive hprocess]
            · simp [Host.nameFree, hprocess]
            · simp [Identity.step, hprocess, Host.advance, Host.goto]
        | starting =>
          refine iff_of_true (by simp [Host.nameFree, hprocess]) (Host.spares_of_disk ?_)
          simp only [Identity.step, hprocess, Host.advance]
          split <;> rfl
        | clearing after =>
          refine iff_of_true (by simp [Host.nameFree, hprocess]) ?_
          intro _ path file _ hne hlookup
          simp only [Identity.step, hprocess, Host.advance, Host.goto]
          rw [AList.lookup_erase_ne hne]
          exact hlookup
        | journaling files after =>
          refine iff_of_true (by simp [Host.nameFree, hprocess]) ?_
          intro _ path file _ hne hlookup
          simp only [Identity.step, hprocess, Host.advance, Host.goto, Host.write]
          rw [AList.lookup_insert_ne hne]
          exact hlookup
        | _ => cases hstage
      | start cfg' =>
        refine iff_of_true rfl (Host.spares_of_disk ?_)
        simp [Identity.step, hprocess]
      | crash => exact iff_of_true rfl (Host.spares_of_disk rfl)
      | respond response =>
        refine iff_of_true rfl (Host.spares_of_disk ?_)
        cases stage <;> simp [Stage.archives] at hstage <;> simp [Identity.step, hprocess]
      | openForeign =>
        refine iff_of_true rfl (Host.spares_of_disk ?_)
        cases stage <;> simp [Stage.archives] at hstage <;> simp [Identity.step, hprocess]
      | store path content =>
        refine iff_of_true rfl (Host.spares_of_disk ?_)
        cases stage <;> simp [Stage.archives] at hstage <;> simp [Identity.step, hprocess]
      | unlink path =>
        refine iff_of_true rfl (Host.spares_of_disk ?_)
        cases stage <;> simp [Stage.archives] at hstage <;> simp [Identity.step, hprocess]

/-! ## Journals of others -/

/-- The journal names a path that the configuration does not own. -/
def NamesOutside (files : Table Path Content) : Prop :=
  ∃ journal, files.lookup .journal = some (.reset journal) ∧
    ∃ path ∈ journal.files, path ∉ archiveCandidates

/-- The journal is refused, so the process gets no further than its start. -/
structure Refused (h : Host) : Prop where
  journal : ∃ message, readJournal h.disk = .error message
  renames : h.renames = []
  process : ∀ p, h.process = some p → p.stage = .starting

theorem Refused.boot {files : Table Path Content} (hout : NamesOutside files) :
    Refused (Host.boot files) where
  journal := by
    obtain ⟨journal, hjournal, path, hpath, hno⟩ := hout
    have hrefused : journal.accepted = false := by
      rw [← Bool.not_eq_true]
      intro haccepted
      simp only [ResetJournal.accepted, Bool.and_eq_true, List.all_eq_true, List.contains_eq_mem,
        decide_eq_true_eq] at haccepted
      exact hno (haccepted.2 path hpath)
    refine ⟨journalCorrupt, ?_⟩
    simp [readJournal, Host.disk_boot, Table.lookup_mapRows, hjournal, hrefused]
  renames := Host.renames_boot files
  process := by
    intro p hp
    rw [Host.process_boot] at hp
    cases hp

theorem Refused.step (hr : Refused h) (fingerprint : String → Word) (paths : Paths) (e : Event) :
    Refused (Identity.step fingerprint paths h e) := by
  have hstop : Refused h.stop := ⟨hr.journal, hr.renames, by rintro p ⟨⟩⟩
  cases hprocess : h.process with
  | none =>
    cases e with
    | start cfg =>
      simp only [Identity.step]
      split
      · refine ⟨hr.journal, hr.renames, ?_⟩
        rintro p ⟨⟩
        rfl
      · exact hr
    | crash => exact hstop
    | _ =>
      simp only [Identity.step, hprocess]
      exact hr
  | some p =>
    obtain ⟨cfg, stage⟩ := p
    cases hr.process _ hprocess
    cases e with
    | start cfg' =>
      simp only [Identity.step, hprocess, Option.isNone_some, Bool.false_and, Bool.false_eq_true,
        if_false]
      exact hr
    | crash => exact hstop
    | advance now secret request =>
      obtain ⟨message, hread⟩ := hr.journal
      simp only [Identity.step, hprocess, Host.advance, hread]
      exact hstop
    | _ =>
      simp only [Identity.step, hprocess]
      exact hr

/-! ## Main results -/

/-- What an archive promises, in a run from a first disk: an identity is only used when no file of
an archive is in place, and a journal only goes when all its files were renamed once under its
stamp; only listed files are renamed, the others stay as they are; and a journal that names a
path of others renames nothing. -/
def Together (fingerprint : String → Word) (paths : Paths) (files : Table Path Content)
    (events : List Event) : Prop :=
  (∀ es, es <+: events → (run (step fingerprint paths) (Host.boot files) es).Settled ∧
    (run (step fingerprint paths) (Host.boot files) es).OnlyListed) ∧
  Meets (step fingerprint paths) (fun h e => h.Spares (step fingerprint paths h e))
    (Host.boot files) events ∧
  (NamesOutside files → (run (step fingerprint paths) (Host.boot files) events).renames = [] ∧
    (run (step fingerprint paths) (Host.boot files) events).resolved = false)

theorem sound_run (fingerprint : String → Word) (paths : Paths) (files : Table Path Content)
    (events : List Event) : Sound (run (step fingerprint paths) (Host.boot files) events) :=
  run_keeps (fun _ e hs => hs.step fingerprint paths e) (Sound.boot files) events

/-- The steps of a run spare the files that are not listed if and only if their names are
free. -/
theorem meets_spares_iff (fingerprint : String → Word) (paths : Paths)
    (files : Table Path Content) (events : List Event) :
    Meets (step fingerprint paths) (fun h e => h.Spares (step fingerprint paths h e))
        (Host.boot files) events ↔
      Meets (step fingerprint paths) (fun h e => h.nameFree e = true) (Host.boot files) events :=
  meets_congr (I := Sound) (fun _ e hs => hs.step fingerprint paths e)
    (fun _ e hs => (hs.nameFree_iff fingerprint paths e).symm) (Sound.boot files) events

theorem refused_run (fingerprint : String → Word) (paths : Paths) {files : Table Path Content}
    (hout : NamesOutside files) (events : List Event) :
    Refused (run (step fingerprint paths) (Host.boot files) events) :=
  run_keeps (fun _ e hs => hs.step fingerprint paths e) (Refused.boot hout) events

/-- On a host whose agent always starts with the same two paths, an archive keeps its promise in a
run if and only if no step of the run renames a file to a name that is taken. -/
theorem reset_travels_together (fingerprint : String → Word) (paths : Paths)
    (files : Table Path Content) (events : List Event) :
    Together fingerprint paths files events ↔
      Meets (step fingerprint paths) (fun h e => h.nameFree e = true) (Host.boot files) events := by
  rw [← meets_spares_iff]
  refine ⟨fun h => h.2.1, fun hspares => ⟨fun es _ => ?_, hspares, fun hout => ?_⟩⟩
  · have hs := sound_run fingerprint paths files es
    exact ⟨hs.settled, hs.onlyListed⟩
  · have hr := refused_run fingerprint paths hout events
    refine ⟨hr.renames, ?_⟩
    rw [Host.resolved, Option.any_eq_false]
    intro p hp
    rw [hr.process p hp]
    rfl

end

/-! ### Two archives with one stamp -/

namespace SameStamp

/-- Two tokens and their fingerprints. -/
def fingerprint (token : String) : Word :=
  if token = "t1" then ⟨"f1", by decide⟩ else ⟨"f2", by decide⟩

/-- A token of the agent. -/
def secret : AgentToken := ⟨"chordv_agent_0123456789012345678901234567890123456789012", by decide⟩

/-- The host holds the identity of an old register token. -/
def files : Table Path Content :=
  AList.insert .credentials
    (.secret { agentId := "a0", nodeId := "n0", token := "s0", registerTokenFingerprint := "f0" }) ∅

/-- The next statement, at the time 7. -/
def go : Event := .advance 7 secret 1

/-- The host is onboarded anew with the token `t1`, and later with the token `t2`.  The clock was
set back in between and shows the same time at both resets. -/
def events : List Event :=
  [.start { registerToken := "t1", resetIdentity := true }] ++ List.replicate 13 go ++
    [.respond ⟨true, "a1", "n1"⟩, go, .crash,
      .start { registerToken := "t2", resetIdentity := true }] ++ List.replicate 4 go

end SameStamp

/-- The second archive overwrites the credentials that the first one kept. -/
theorem sameStamp_not_together :
    ¬ ∀ fingerprint paths files events, Together fingerprint paths files events := by
  intro hall
  have hspares := (hall SameStamp.fingerprint .standard SameStamp.files SameStamp.events).2.1
  rw [meets_spares_iff] at hspares
  revert hspares
  decide +kernel

end ChordV.Agent.Identity
