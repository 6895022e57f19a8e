import ChordV.Lib.Program
import ChordV.Lib.Table
import Mathlib.Data.Nat.Bitwise

/-!
# A disk that can lose power

A tree of files and directories, the calls of the system that change it, and what a loss of power
may leave of it.  What a process reads is one thing, and what is on the medium is another.

* A file that was not flushed may hold anything after a loss of power.
* A name that was changed since its directory was flushed may stand for any of the values that it
  has had since then, independently of the other names.
* A name survives only if its directories do.

`Tree` says that every name has a directory, and `Firm` that the names of the directories are on
the medium.  `Values` bounds what a name may stand for, now and after a loss of power, and
`Chain` keeps the directories above it.  Each call comes with what it does to the names and with
the rules that carry these four.

Nothing here is about a particular program.
-/

namespace ChordV.Lib

/-- A path, its last name first.  The root is the empty path, and `List.tail` is the directory
above. -/
abbrev Path := List String

/-- A file or a directory. -/
structure Node (β : Type) where
  /-- The contents of a file.  A directory has none. -/
  contents : Option β
  mode : Nat
  /-- The node is on the medium. -/
  flushed : Bool
  deriving DecidableEq, Repr

/-- What a name stands for. -/
structure Entry (β : Type) where
  now : Option (Node β) := none
  /-- The values that the name has had since its directory was last flushed. -/
  older : List (Option (Node β)) := []
  deriving DecidableEq, Repr

/-- The names of a disk. -/
structure Disk (β : Type) where
  names : Table Path (Entry β) := ∅

/-- Why a call of the system fails. -/
inductive IoError where
  | alreadyExists
  | notExist
  | isDirectory
  | notEmpty
  /-- Any other reason: permissions, space, the medium. -/
  | other
  deriving DecidableEq, Repr

namespace Disk

variable {β : Type}

/-! ## Names -/

/-- The entry of a name; none is an empty one. -/
def entry (d : Disk β) (p : Path) : Entry β := (d.names.lookup p).getD {}

/-- What a reader sees. -/
def now (d : Disk β) (p : Path) : Option (Node β) := (d.entry p).now

/-- The entry is replaced. -/
def put (d : Disk β) (p : Path) (e : Entry β) : Disk β := ⟨d.names.insert p e⟩

theorem entry_put (d : Disk β) (p q : Path) (e : Entry β) :
    (d.put p e).entry q = if q = p then e else d.entry q := by
  unfold entry put
  rw [Table.lookup_insert_ite]
  split <;> rfl

/-- The name gets another value. -/
def link (d : Disk β) (p : Path) (node : Option (Node β)) : Disk β :=
  d.put p ⟨node, d.now p :: (d.entry p).older⟩

/-- The node itself changes. -/
def change (d : Disk β) (p : Path) (node : Node β) : Disk β :=
  d.put p ⟨some node, (d.entry p).older⟩

theorem entry_link (d : Disk β) (p q : Path) (node : Option (Node β)) :
    (d.link p node).entry q = if q = p then ⟨node, d.now p :: (d.entry p).older⟩ else d.entry q :=
  entry_put ..

theorem entry_change (d : Disk β) (p q : Path) (node : Node β) :
    (d.change p node).entry q = if q = p then ⟨some node, (d.entry p).older⟩ else d.entry q :=
  entry_put ..

theorem now_link (d : Disk β) (p q : Path) (node : Option (Node β)) :
    (d.link p node).now q = if q = p then node else d.now q := by
  unfold now
  rw [entry_link]
  split <;> rfl

theorem now_change (d : Disk β) (p q : Path) (node : Node β) :
    (d.change p node).now q = if q = p then some node else d.now q := by
  unfold now
  rw [entry_change]
  split <;> rfl

/-- The name stands for a directory. -/
def isDir (d : Disk β) (p : Path) : Bool := (d.now p).any (·.contents.isNone)

/-- The directory has an entry. -/
def occupied (d : Disk β) (p : Path) : Bool :=
  d.names.pairs.any fun (q, e) => decide (q ≠ []) && decide (q.tail = p) && e.now.isSome

theorem occupied_of_now {d : Disk β} {q : Path} (hq : q ≠ []) (h : (d.now q).isSome = true) :
    d.occupied q.tail = true := by
  unfold now entry at h
  cases hlookup : d.names.lookup q with
  | none =>
    rw [hlookup] at h
    cases h
  | some e =>
    rw [hlookup] at h
    refine List.any_eq_true.2 ⟨(q, e), Table.mem_pairs.2 hlookup, ?_⟩
    simpa [hq] using h

/-! ## Calls of the system -/

/-- `stat`. -/
def stat (p : Path) (d : Disk β) : Except IoError (Unit × Disk β) :=
  if (d.now p).isSome then .ok ((), d) else .error .notExist

/-- A call that does not concern the names. -/
def elsewhere (d : Disk β) : Except IoError (Unit × Disk β) := .ok ((), d)

/-- A new node where there is none.  The mode is masked. -/
def make (contents : Option β) (umask mode : Nat) (p : Path) (d : Disk β) :
    Except IoError (Unit × Disk β) :=
  if (d.now p).isSome then .error .alreadyExists
  else if d.isDir p.tail then .ok ((), d.link p (some ⟨contents, Nat.ldiff mode umask, false⟩))
  else .error .notExist

/-- `mkdir`. -/
abbrev mkdir : Nat → Nat → Path → Disk β → Except IoError (Unit × Disk β) := make none

/-- `open` with `O_CREAT` and `O_EXCL`: an empty file. -/
abbrev create (empty : β) : Nat → Nat → Path → Disk β → Except IoError (Unit × Disk β) :=
  make (some empty)

/-- Sets the mode; it is not on the medium yet. -/
def chmod (mode : Nat) (p : Path) (d : Disk β) : Except IoError (Unit × Disk β) :=
  match d.now p with
  | none => .error .notExist
  | some node => .ok ((), d.change p { node with mode, flushed := false })

/-- A call on an open file. -/
def onFile (f : Node β → Node β) (p : Path) (d : Disk β) : Except IoError (Unit × Disk β) :=
  match d.now p with
  | none => .error .notExist
  | some node => if node.contents.isNone then .error .isDirectory else .ok ((), d.change p (f node))

/-- `write`. -/
abbrev write (contents : β) : Path → Disk β → Except IoError (Unit × Disk β) :=
  onFile fun node => { node with contents := some contents, flushed := false }

/-- `fsync` of a file. -/
abbrev flush : Path → Disk β → Except IoError (Unit × Disk β) :=
  onFile fun node => { node with flushed := true }

/-- `rename` of a file. -/
def rename (p q : Path) (d : Disk β) : Except IoError (Unit × Disk β) :=
  match d.now p with
  | none => .error .notExist
  | some node =>
    if node.contents.isNone || d.isDir q then .error .isDirectory
    else if d.isDir q.tail then
      .ok ((), if p = q then d else (d.link q (some node)).link p none)
    else .error .notExist

/-- `unlink` or `rmdir`. -/
def remove (p : Path) (d : Disk β) : Except IoError (Unit × Disk β) :=
  match d.now p with
  | none => .error .notExist
  | some node =>
    if node.contents.isNone && d.occupied p then .error .notEmpty
    else .ok ((), d.link p none)

/-- `fsync` of a directory: its own node and the names in it. -/
def syncDir (p : Path) (d : Disk β) : Except IoError (Unit × Disk β) :=
  if d.isDir p then
    .ok ((), ⟨d.names.mapRows fun q e =>
      { now := if q = p then e.now.map ({ · with flushed := true }) else e.now
        older := if q ≠ [] ∧ q.tail = p then [] else e.older }⟩)
  else .error .notExist

/-! ## A loss of power -/

/-- What a loss of power does where it has a choice. -/
structure Loss (β : Type) where
  /-- The value that the name falls back to: the present one is the first. -/
  back : Path → Nat
  /-- What a file that was not flushed holds. -/
  garbage : Path → β
  /-- The mode of a node that was not flushed. -/
  mode : Path → Nat

namespace Loss

/-- What is left of a node. -/
def settle (l : Loss β) (p : Path) (node : Node β) : Node β :=
  if node.flushed then node else ⟨node.contents.map fun _ => l.garbage p, l.mode p, true⟩

/-- What a name stands for, as long as its directories survive. -/
def kept (l : Loss β) (d : Disk β) (p : Path) : Option (Node β) :=
  (((d.now p :: (d.entry p).older)[l.back p]?).getD (d.now p)).map (l.settle p)

/-- The directories above a name survive. -/
def stands (l : Loss β) (d : Disk β) : Path → Bool
  | [] => true
  | _ :: p => (l.kept d p).any (·.contents.isNone) && stands l d p

end Loss

/-- What is left after a loss of power. -/
def powerLoss (l : Loss β) (d : Disk β) : Disk β :=
  ⟨d.names.mapRows fun p _ => { now := if l.stands d p then l.kept d p else none }⟩

theorem entry_powerLoss (l : Loss β) (d : Disk β) (p : Path) :
    (d.powerLoss l).entry p = { now := if l.stands d p then l.kept d p else none } := by
  unfold powerLoss
  show ((d.names.mapRows _).lookup p).getD ({} : Entry β) = _
  rw [Table.lookup_mapRows]
  cases h : d.names.lookup p with
  | some e => rfl
  | none =>
    have hentry : d.entry p = {} := by
      unfold entry
      rw [h]
      rfl
    have hkept : l.kept d p = none := by
      unfold Loss.kept now
      rw [hentry]
      cases l.back p <;> rfl
    rw [hkept]
    simp

theorem now_powerLoss (l : Loss β) (d : Disk β) (p : Path) :
    (d.powerLoss l).now p = if l.stands d p then l.kept d p else none := by
  unfold now
  rw [entry_powerLoss]

/-- What may be read under a name, now or after a loss of power. -/
def MayRead (d : Disk β) (p : Path) (v : Option (Node β)) : Prop :=
  v = d.now p ∨ ∃ l, v = (d.powerLoss l).now p

/-- A name falls back to one of its values. -/
theorem Loss.kept_mem (l : Loss β) (d : Disk β) (p : Path) :
    ∃ v ∈ d.now p :: (d.entry p).older, l.kept d p = v.map (l.settle p) := by
  unfold Loss.kept
  cases h : (d.now p :: (d.entry p).older)[l.back p]? with
  | none => exact ⟨d.now p, List.mem_cons_self, rfl⟩
  | some v => exact ⟨v, List.mem_of_getElem? h, rfl⟩

/-! ## What the calls do to the names -/

theorem make_cases {contents : Option β} {umask mode : Nat} {p : Path} {d d' : Disk β}
    (h : make contents umask mode p d = .ok ((), d')) :
    d.now p = none ∧ d.isDir p.tail = true ∧
      d' = d.link p (some ⟨contents, Nat.ldiff mode umask, false⟩) := by
  unfold make at h
  split at h
  · cases h
  next hnone =>
  split at h
  · next hdir => exact ⟨by simpa using hnone, hdir, by simpa using h.symm⟩
  · cases h

theorem exists_of_make {contents : Option β} {umask mode : Nat} {p : Path} {d : Disk β}
    (h : make contents umask mode p d = .error .alreadyExists) : d.now p ≠ none := by
  intro hnone
  simp only [make, hnone, Option.isSome_none, Bool.false_eq_true, if_false] at h
  split at h <;> cases h

theorem chmod_cases {mode : Nat} {p : Path} {d d' : Disk β} (h : chmod mode p d = .ok ((), d')) :
    ∃ node, d.now p = some node ∧ d' = d.change p { node with mode, flushed := false } := by
  unfold chmod at h
  split at h
  · cases h
  · next node hnow => exact ⟨node, hnow, by simpa using h.symm⟩

theorem onFile_cases {f : Node β → Node β} {p : Path} {d d' : Disk β}
    (h : onFile f p d = .ok ((), d')) :
    ∃ node, d.now p = some node ∧ node.contents.isNone = false ∧ d' = d.change p (f node) := by
  unfold onFile at h
  split at h
  · cases h
  next node hnow =>
  split at h
  · cases h
  · next hfile => exact ⟨node, hnow, Bool.not_eq_true _ ▸ hfile, by simpa using h.symm⟩

theorem rename_cases {p q : Path} {d d' : Disk β} (h : rename p q d = .ok ((), d')) :
    ∃ node, d.now p = some node ∧ node.contents.isNone = false ∧ d.isDir q = false ∧
      d.isDir q.tail = true ∧
      (p = q ∧ d' = d ∨ p ≠ q ∧ d' = (d.link q (some node)).link p none) := by
  unfold rename at h
  split at h
  · cases h
  next node hnow =>
  split at h
  · cases h
  next hfile =>
  split at h
  · next hdir =>
    rw [Bool.or_eq_true, not_or, Bool.not_eq_true, Bool.not_eq_true] at hfile
    refine ⟨node, hnow, hfile.1, hfile.2, hdir, ?_⟩
    split at h
    · next heq => exact Or.inl ⟨heq, by simpa using h.symm⟩
    · next hne => exact Or.inr ⟨hne, by simpa using h.symm⟩
  · cases h

theorem remove_cases {p : Path} {d d' : Disk β} (h : remove p d = .ok ((), d')) :
    ∃ node, d.now p = some node ∧ (node.contents.isNone = true → d.occupied p = false) ∧
      d' = d.link p none := by
  unfold remove at h
  split at h
  · cases h
  next node hnow =>
  split at h
  · cases h
  · next hempty =>
    refine ⟨node, hnow, fun hdir => ?_, by simpa using h.symm⟩
    rw [hdir, Bool.true_and, Bool.not_eq_true] at hempty
    exact hempty

theorem syncDir_cases {p : Path} {d d' : Disk β} (h : syncDir p d = .ok ((), d')) :
    d.isDir p = true ∧ ∀ q, d'.entry q =
      { now := if q = p then (d.now q).map ({ · with flushed := true }) else d.now q
        older := if q ≠ [] ∧ q.tail = p then [] else (d.entry q).older } := by
  unfold syncDir at h
  split at h
  · next hdir =>
    refine ⟨hdir, fun q => ?_⟩
    simp only [Except.ok.injEq, Prod.mk.injEq, true_and] at h
    rw [← h]
    show ((d.names.mapRows _).lookup q).getD ({} : Entry β) = _
    rw [Table.lookup_mapRows]
    unfold now entry
    cases d.names.lookup q with
    | some e => rfl
    | none => simp
  · cases h

/-! ## Directories -/

theorem isDir_link (d : Disk β) (p q : Path) (node : Option (Node β)) :
    (d.link p node).isDir q = if q = p then node.any (·.contents.isNone) else d.isDir q := by
  unfold isDir
  rw [now_link]
  split <;> rfl

theorem isDir_change {d : Disk β} {p : Path} {node node' : Node β} (hnow : d.now p = some node)
    (hkind : node'.contents.isNone = node.contents.isNone) (q : Path) :
    (d.change p node').isDir q = d.isDir q := by
  unfold isDir
  rw [now_change]
  split
  · next heq => rw [heq, hnow, Option.any_some, Option.any_some, hkind]
  · rfl

theorem isDir_of_sync {p : Path} {d d' : Disk β} (h : syncDir p d = .ok ((), d')) (q : Path) :
    d'.isDir q = d.isDir q := by
  unfold isDir now
  rw [(syncDir_cases h).2 q]
  dsimp only
  split
  · unfold now
    cases (d.entry q).now <;> rfl
  · rfl

theorem isDir_eq_true {d : Disk β} {p : Path} :
    d.isDir p = true ↔ ∃ node, d.now p = some node ∧ node.contents.isNone = true := by
  unfold isDir
  cases d.now p with
  | none => simp
  | some node => simp

theorem now_isSome_of_isDir {d : Disk β} {p : Path} (h : d.isDir p = true) :
    (d.now p).isSome = true := by
  obtain ⟨node, hnow, -⟩ := isDir_eq_true.1 h
  rw [hnow]
  rfl

/-- These directories exist, and their names are on the medium. -/
def Holds (D : Path → Prop) (d : Disk β) : Prop :=
  ∀ p, D p → d.isDir p = true ∧ (d.entry p).older = []

namespace Holds

variable {D : Path → Prop} {d d' : Disk β} {p q : Path}

/-- A name that is no directory gets another value. -/
theorem link (h : Holds D d) {node : Option (Node β)} (hp : d.isDir p = false) :
    Holds D (d.link p node) := by
  intro q hq
  have hne : q ≠ p := by
    rintro rfl
    rw [(h q hq).1] at hp
    cases hp
  rw [isDir_link, entry_link, if_neg hne, if_neg hne]
  exact h q hq

theorem change (h : Holds D d) {node node' : Node β} (hnow : d.now p = some node)
    (hkind : node'.contents.isNone = node.contents.isNone) : Holds D (d.change p node') := by
  intro q hq
  obtain ⟨hdir, holder⟩ := h q hq
  rw [isDir_change hnow hkind, entry_change]
  refine ⟨hdir, ?_⟩
  split
  · next heq => rw [← heq]; exact holder
  · exact holder

theorem not_isDir_of_none (h : d.now p = none) : d.isDir p = false := by
  unfold isDir
  rw [h]
  rfl

theorem not_isDir_of_file {node : Node β} (h : d.now p = some node)
    (hfile : node.contents.isNone = false) : d.isDir p = false := by
  unfold isDir
  rw [h]
  exact hfile

theorem make {contents : Option β} {umask mode : Nat} (h : Holds D d)
    (hd : make contents umask mode p d = .ok ((), d')) : Holds D d' := by
  obtain ⟨hnone, -, rfl⟩ := make_cases hd
  exact h.link (not_isDir_of_none hnone)

theorem chmod {mode : Nat} (h : Holds D d) (hd : chmod mode p d = .ok ((), d')) : Holds D d' := by
  obtain ⟨node, hnow, rfl⟩ := chmod_cases hd
  exact h.change hnow rfl

theorem rename (h : Holds D d) (hd : rename p q d = .ok ((), d')) : Holds D d' := by
  obtain ⟨node, hnow, hfile, hq, -, ⟨-, rfl⟩ | ⟨hne, rfl⟩⟩ := rename_cases hd
  · exact h
  · refine (h.link hq).link ?_
    rw [isDir_link, if_neg hne]
    exact not_isDir_of_file hnow hfile

theorem syncDir (h : Holds D d) (hd : syncDir p d = .ok ((), d')) : Holds D d' := by
  intro q hq
  obtain ⟨hdir, holder⟩ := h q hq
  rw [isDir_of_sync hd, (syncDir_cases hd).2 q]
  refine ⟨hdir, ?_⟩
  dsimp only
  split
  · rfl
  · exact holder

/-- The only call that may take a directory away. -/
theorem remove (h : Holds D d) (hp : D p → d.occupied p = true)
    (hd : remove p d = .ok ((), d')) : Holds D d' := by
  obtain ⟨node, hnow, hempty, rfl⟩ := remove_cases hd
  intro q hq
  have hne : q ≠ p := by
    rintro rfl
    obtain ⟨node', hnow', hdir⟩ := isDir_eq_true.1 (h q hq).1
    rw [hnow] at hnow'
    have hfree := hempty (Option.some.inj hnow' ▸ hdir)
    rw [hp hq] at hfree
    cases hfree
  rw [isDir_link, entry_link, if_neg hne, if_neg hne]
  exact h q hq

theorem kept (h : Holds D d) (l : Loss β) (hq : D q) :
    ∃ node, l.kept d q = some node ∧ node.contents.isNone = true := by
  obtain ⟨hdir, holder⟩ := h q hq
  obtain ⟨node, hnow, hnone⟩ := isDir_eq_true.1 hdir
  obtain ⟨v, hv, hkept⟩ := l.kept_mem d q
  rw [holder, List.mem_singleton, hnow] at hv
  subst hv
  refine ⟨l.settle q node, hkept, ?_⟩
  unfold Loss.settle
  split
  · exact hnone
  · simpa using hnone

end Holds

/-- A directory and those above it. -/
def Chain (p : Path) : Disk β → Prop := Holds (· <:+ p)

theorem Chain.stands {p : Path} {d : Disk β} (h : Chain p d) (l : Loss β) (a : String) :
    l.stands d (a :: p) = true := by
  induction p generalizing a with
  | nil =>
    obtain ⟨node, hkept, hdir⟩ := Holds.kept h l (List.suffix_refl [])
    unfold Loss.stands
    rw [hkept]
    simpa [Loss.stands] using hdir
  | cons b p ih =>
    obtain ⟨node, hkept, hdir⟩ := Holds.kept h l (List.suffix_refl (b :: p))
    have habove : Chain p d := fun q hq => h q (hq.trans (List.suffix_cons b p))
    unfold Loss.stands
    rw [hkept, ih habove b]
    simpa using hdir

/-- A directory above another one has an entry. -/
theorem Chain.occupied {p q : Path} {d : Disk β} (h : Chain p d) (hq : q <:+ p) (hne : q ≠ p) :
    d.occupied q = true := by
  induction p with
  | nil =>
    rw [List.suffix_nil] at hq
    exact absurd hq hne
  | cons a p ih =>
    rcases List.suffix_cons_iff.1 hq with rfl | hq
    · exact absurd rfl hne
    · by_cases heq : q = p
      · have hdir := (h (a :: p) (List.suffix_refl _)).1
        have hocc := occupied_of_now (List.cons_ne_nil a p) (now_isSome_of_isDir hdir)
        rw [heq]
        exact hocc
      · exact ih (fun r hr => h r (hr.trans (List.suffix_cons a p))) hq heq

theorem Chain.powerLoss {p : Path} {d : Disk β} (h : Chain p d) (l : Loss β) :
    Chain p (d.powerLoss l) := by
  intro q hq
  obtain ⟨node, hkept, hdir⟩ := Holds.kept h l hq
  have hstands : l.stands d q = true := by
    cases q with
    | nil => rfl
    | cons a q =>
      exact Chain.stands (fun r hr => h r ((hr.trans (List.suffix_cons a q)).trans hq)) l a
  refine ⟨?_, by rw [entry_powerLoss]⟩
  unfold isDir
  rw [now_powerLoss, if_pos hstands, hkept]
  exact hdir

/-- Every name is in a directory. -/
structure Tree (d : Disk β) : Prop where
  root : Chain [] d
  above : ∀ a p, (d.now (a :: p)).isSome = true → d.isDir p = true

/-- The names of all directories are on the medium. -/
def Firm (d : Disk β) : Prop := ∀ p, d.isDir p = true → (d.entry p).older = []

namespace Tree

variable {d d' : Disk β} {p q : Path}

theorem below_none (h : Tree d) (hp : d.now p = none) (a : String) : d.now (a :: p) = none := by
  by_contra hne
  have hdir := h.above a p (Option.isSome_iff_ne_none.2 hne)
  rw [Holds.not_isDir_of_none hp] at hdir
  cases hdir

theorem none_below (h : Tree d) (hp : d.now p = none) (hq : p <:+ q) : d.now q = none := by
  induction q with
  | nil => rw [← List.suffix_nil.1 hq, hp]
  | cons a q ih =>
    rcases List.suffix_cons_iff.1 hq with rfl | hq
    · exact hp
    · exact h.below_none (ih hq) a

/-- The directories above a directory. -/
theorem isDir_of_suffix (h : Tree d) (hp : d.isDir p = true) (hq : q <:+ p) : d.isDir q = true := by
  induction p with
  | nil =>
    rw [List.suffix_nil] at hq
    exact hq ▸ hp
  | cons a p ih =>
    rcases List.suffix_cons_iff.1 hq with rfl | hq
    · exact hp
    · exact ih (h.above a p (now_isSome_of_isDir hp)) hq

theorem chain (h : Tree d) (hfirm : Firm d) (hp : d.isDir p = true) : Chain p d :=
  fun q hq => ⟨h.isDir_of_suffix hp hq, hfirm q (h.isDir_of_suffix hp hq)⟩

/-- A name that is no directory gets a value. -/
theorem link (h : Tree d) {node : Node β} (hp : d.isDir p = false)
    (habove : d.isDir p.tail = true) : Tree (d.link p (some node)) := by
  refine ⟨Holds.link h.root hp, fun a q hq => ?_⟩
  have hkeep : d.isDir q = true → (d.link p (some node)).isDir q = true := by
    intro hdir
    rw [isDir_link]
    split
    · next heq =>
      rw [← heq, hdir] at hp
      cases hp
    · exact hdir
  rw [now_link] at hq
  split at hq
  · next heq =>
    rw [← heq] at habove
    exact hkeep habove
  · exact hkeep (h.above a q hq)

theorem unlink (h : Tree d) (hp : d.isDir p = true → p ≠ [] ∧ d.occupied p = false) :
    Tree (d.link p none) := by
  have hfree : ∀ a, d.isDir p = true → d.now (a :: p) = none := by
    intro a hdir
    by_contra hne
    have hocc := occupied_of_now (List.cons_ne_nil a p) (Option.isSome_iff_ne_none.2 hne)
    rw [List.tail_cons, (hp hdir).2] at hocc
    cases hocc
  refine ⟨?_, fun a q hq => ?_⟩
  · intro q hq
    obtain rfl := List.suffix_nil.1 hq
    obtain ⟨hdir, holder⟩ := h.root [] hq
    have hne : [] ≠ p := by
      rintro rfl
      exact (hp hdir).1 rfl
    rw [isDir_link, entry_link, if_neg hne, if_neg hne]
    exact ⟨hdir, holder⟩
  · rw [now_link] at hq
    split at hq
    · cases hq
    have hdir := h.above a q hq
    rw [isDir_link]
    split
    · next heq =>
      rw [heq] at hq hdir
      rw [hfree a hdir] at hq
      cases hq
    · exact hdir

theorem change (h : Tree d) {node node' : Node β} (hnow : d.now p = some node)
    (hkind : node'.contents.isNone = node.contents.isNone) : Tree (d.change p node') := by
  refine ⟨Holds.change h.root hnow hkind, fun a q hq => ?_⟩
  rw [isDir_change hnow hkind]
  rw [now_change] at hq
  split at hq
  · next heq => exact h.above a q (by rw [heq, hnow]; rfl)
  · exact h.above a q hq

theorem make {contents : Option β} {umask mode : Nat} (h : Tree d)
    (hd : make contents umask mode p d = .ok ((), d')) : Tree d' := by
  obtain ⟨hnone, habove, rfl⟩ := make_cases hd
  exact h.link (Holds.not_isDir_of_none hnone) habove

theorem chmod {mode : Nat} (h : Tree d) (hd : chmod mode p d = .ok ((), d')) : Tree d' := by
  obtain ⟨node, hnow, rfl⟩ := chmod_cases hd
  exact h.change hnow rfl

theorem rename (h : Tree d) (hd : rename p q d = .ok ((), d')) : Tree d' := by
  obtain ⟨node, hnow, hfile, hq, habove, ⟨-, rfl⟩ | ⟨hne, rfl⟩⟩ := rename_cases hd
  · exact h
  have hp : (d.link q (some node)).isDir p = false := by
    rw [isDir_link, if_neg hne]
    exact Holds.not_isDir_of_file hnow hfile
  refine (h.link hq habove).unlink fun hdir => ?_
  rw [hp] at hdir
  cases hdir

theorem remove (h : Tree d) (hp : p ≠ []) (hd : remove p d = .ok ((), d')) : Tree d' := by
  obtain ⟨node, hnow, hempty, rfl⟩ := remove_cases hd
  refine h.unlink fun hdir => ⟨hp, ?_⟩
  obtain ⟨node', hnow', hnone⟩ := isDir_eq_true.1 hdir
  rw [hnow] at hnow'
  exact hempty (Option.some.inj hnow' ▸ hnone)

theorem syncDir (h : Tree d) (hd : syncDir p d = .ok ((), d')) : Tree d' := by
  refine ⟨Holds.syncDir h.root hd, fun a q hq => ?_⟩
  rw [isDir_of_sync hd]
  refine h.above a q ?_
  unfold now at hq
  rw [(syncDir_cases hd).2] at hq
  dsimp only at hq
  split at hq
  · rw [Option.isSome_map] at hq
    exact hq
  · exact hq

theorem powerLoss (h : Tree d) (l : Loss β) : Tree (d.powerLoss l) := by
  refine ⟨Chain.powerLoss h.root l, fun a p hp => ?_⟩
  rw [now_powerLoss] at hp
  split at hp
  · next hstands =>
    unfold Loss.stands at hstands
    rw [Bool.and_eq_true] at hstands
    unfold isDir
    rw [now_powerLoss, if_pos hstands.2]
    exact hstands.1
  · cases hp

end Tree

namespace Firm

variable {d d' : Disk β} {p q : Path}

/-- A name stands for a file or for nothing. -/
theorem link (h : Firm d) {node : Option (Node β)} (hnode : node.any (·.contents.isNone) = false) :
    Firm (d.link p node) := by
  intro q hq
  rw [isDir_link] at hq
  rw [entry_link]
  split at hq
  · rw [hnode] at hq
    cases hq
  · next hne => rw [if_neg hne]; exact h q hq

theorem change (h : Firm d) {node node' : Node β} (hnow : d.now p = some node)
    (hkind : node'.contents.isNone = node.contents.isNone) : Firm (d.change p node') := by
  intro q hq
  rw [isDir_change hnow hkind] at hq
  rw [entry_change]
  split
  · next heq => rw [← heq]; exact h q hq
  · exact h q hq

theorem create {empty : β} {umask mode : Nat} (h : Firm d)
    (hd : create empty umask mode p d = .ok ((), d')) : Firm d' := by
  obtain ⟨-, -, rfl⟩ := make_cases hd
  exact h.link rfl

theorem rename (h : Firm d) (hd : rename p q d = .ok ((), d')) : Firm d' := by
  obtain ⟨node, -, hfile, -, -, ⟨-, rfl⟩ | ⟨-, rfl⟩⟩ := rename_cases hd
  · exact h
  · exact Firm.link (h.link (by simpa using hfile)) rfl

theorem syncDir (h : Firm d) (hd : syncDir p d = .ok ((), d')) : Firm d' := by
  intro q hq
  rw [isDir_of_sync hd] at hq
  rw [(syncDir_cases hd).2 q]
  dsimp only
  split
  · rfl
  · exact h q hq

end Firm

theorem firm_powerLoss (l : Loss β) (d : Disk β) : Firm (d.powerLoss l) := by
  intro p _
  rw [entry_powerLoss]

/-! ## What a name may stand for -/

/-- Everything the name may stand for, now and after a loss of power. -/
def Values (P : Option (Node β) → Prop) (p : Path) (d : Disk β) : Prop :=
  ∀ v ∈ d.now p :: (d.entry p).older, P v

namespace Values

variable {P : Option (Node β) → Prop} {d d' : Disk β} {p q : Path}

theorem of_entry (h : Values P p d) (heq : d'.entry p = d.entry p) : Values P p d' := by
  unfold Values now at h ⊢
  rw [heq]
  exact h

theorem link_ne (h : Values P p d) (hne : p ≠ q) {node : Option (Node β)} :
    Values P p (d.link q node) :=
  h.of_entry (by rw [entry_link, if_neg hne])

theorem link (h : Values P p d) {node : Option (Node β)} (hnode : P node) :
    Values P p (d.link p node) := by
  intro v hv
  unfold now at hv
  rw [entry_link, if_pos rfl] at hv
  rcases List.mem_cons.1 hv with rfl | hv
  · exact hnode
  · exact h v hv

theorem change_ne (h : Values P p d) (hne : p ≠ q) {node : Node β} :
    Values P p (d.change q node) :=
  h.of_entry (by rw [entry_change, if_neg hne])

/-- No value is a directory. -/
def Files (P : Option (Node β) → Prop) : Prop :=
  ∀ node, P (some node) → node.contents.isNone = false

theorem syncDir (h : Values P p d) (hP : Files P) (hd : syncDir q d = .ok ((), d')) :
    Values P p d' := by
  obtain ⟨hdir, hentry⟩ := syncDir_cases hd
  intro v hv
  unfold now at hv
  rw [hentry p] at hv
  have hne : p ≠ q := by
    rintro rfl
    obtain ⟨node, hnow, hnone⟩ := isDir_eq_true.1 hdir
    have hfile := hP node (h _ (by rw [hnow]; exact List.mem_cons_self))
    rw [hnone] at hfile
    cases hfile
  dsimp only at hv
  rw [if_neg hne] at hv
  rcases List.mem_cons.1 hv with rfl | hv
  · exact h _ List.mem_cons_self
  · split at hv
    · cases hv
    · exact h v (List.mem_cons_of_mem _ hv)

theorem make {contents : Option β} {umask mode : Nat} (h : Values P p d) (hne : p ≠ q)
    (hd : make contents umask mode q d = .ok ((), d')) : Values P p d' := by
  obtain ⟨-, -, rfl⟩ := make_cases hd
  exact h.link_ne hne

theorem chmod {mode : Nat} (h : Values P p d) (hne : p ≠ q) (hd : chmod mode q d = .ok ((), d')) :
    Values P p d' := by
  obtain ⟨node, -, rfl⟩ := chmod_cases hd
  exact h.change_ne hne

theorem remove (h : Values P p d) (hne : p ≠ q) (hd : remove q d = .ok ((), d')) :
    Values P p d' := by
  obtain ⟨node, -, -, rfl⟩ := remove_cases hd
  exact h.link_ne hne

/-- A file is renamed to the name, or past it. -/
theorem rename {r : Path} (h : Values P p d) (hq : p ≠ q) (hr : p = r → P (d.now q))
    (hd : rename q r d = .ok ((), d')) : Values P p d' := by
  obtain ⟨node, hnow, -, -, -, ⟨-, rfl⟩ | ⟨-, rfl⟩⟩ := rename_cases hd
  · exact h
  · refine link_ne ?_ hq
    by_cases heq : p = r
    · subst heq
      exact h.link (hnow ▸ hr rfl)
    · exact h.link_ne heq

/-- All nodes are on the medium. -/
def Flushed (P : Option (Node β) → Prop) : Prop := ∀ node, P (some node) → node.flushed = true

theorem kept (h : Values P p d) (hP : Flushed P) (l : Loss β) : P (l.kept d p) := by
  obtain ⟨v, hv, hkept⟩ := l.kept_mem d p
  have hPv := h v hv
  rw [hkept]
  cases v with
  | none => exact hPv
  | some node =>
    rw [Option.map_some, Loss.settle, if_pos (hP node hPv)]
    exact hPv

/-- A loss of power may take the directories away. -/
theorem powerLoss (h : Values P p d) (hP : Flushed P) (hnone : P none) (l : Loss β) :
    Values P p (d.powerLoss l) := by
  intro v hv
  rw [entry_powerLoss, List.mem_singleton, now_powerLoss] at hv
  subst hv
  split
  · exact h.kept hP l
  · exact hnone

/-- It does not where the directories are on the medium. -/
theorem powerLoss_of_chain {a : String} (h : Values P (a :: p) d) (hP : Flushed P)
    (hchain : Chain p d) (l : Loss β) : Values P (a :: p) (d.powerLoss l) := by
  intro v hv
  rw [entry_powerLoss, List.mem_singleton, now_powerLoss, if_pos (hchain.stands l a)] at hv
  exact hv ▸ h.kept hP l

theorem now (h : Values P p d) : P (d.now p) := h _ List.mem_cons_self

end Values

end Disk

end ChordV.Lib
