import ChordV.Lib.Disk
import ChordV.Lib.Machine

/-!
# The durable files of the agent

`apps/agent/internal/durable/durable.go`: the write path of the registration secret, the
credentials and the reset journal.  Each call of the system is one action, which the environment
can let run, refuse, or lose, and the process can die before it.

`filepath.Abs` and the encoding of the contents are done before.  The random suffix of the
temporary file is an argument.  One process writes (`AcquireProcessLock`).
-/

namespace ChordV.Agent.Durable

open Lib

variable {β : Type}

/-- `SecretMode`. -/
def secretMode : Nat := 0o600

/-- `DirMode`. -/
def dirMode : Nat := 0o700

/-- The error of a write. -/
inductive Failure where
  | io (e : IoError)
  /-- The directory that gained the first new entry cannot be flushed. -/
  | parent (directory : Path) (e : IoError)
  deriving DecidableEq, Repr

/-- One call of the system. -/
def call (f : Disk β → Except IoError (Unit × Disk β)) : Prog Failure (Disk β) Unit :=
  atomic (.io .other) fun d => (f d).mapError .io

/-- `SyncDir`. -/
def syncDir (directory : Path) : Prog Failure (Disk β) Unit := call (Disk.syncDir directory)

/-- `missingAncestors`: a directory whose state is not known counts as missing. -/
def missingAncestors : Path → Prog Failure (Disk β) (List Path)
  | [] => do
    match ← attempt (call (Disk.stat [])) with
    | .ok _ => pure []
    | .error _ => pure [[]]
  | name :: above => do
    match ← attempt (call (Disk.stat (name :: above))) with
    | .ok _ => pure []
    | .error _ =>
      let missing ← missingAncestors above
      pure (missing ++ [name :: above])

/-- `makeDirs`: the directories that it made, and its error. -/
def makeDirs (umask : Nat) : List Path → List Path →
    Prog Failure (Disk β) (List Path × Option Failure)
  | [], made => pure (made, none)
  | directory :: rest, made => do
    match ← attempt (call (Disk.mkdir umask dirMode directory)) with
    | .ok _ =>
      match ← attempt (call (Disk.chmod dirMode directory)) with
      | .ok _ => makeDirs umask rest (made ++ [directory])
      | .error e => pure (made ++ [directory], some e)
    | .error e =>
      -- Another writer made it.
      if e = .io .alreadyExists then makeDirs umask rest made else pure (made, some e)

/-- The rollback of `EnsureDir`, deepest first. -/
def rollback (made : List Path) : Prog Failure (Disk β) PUnit :=
  made.reverse.forM fun directory => do
    let _ ← attempt (call (Disk.remove directory))
    pure ⟨⟩

/-- The flush of the directory that gained the first new entry. -/
def syncParent (parent : Path) : Prog Failure (Disk β) Unit := do
  match ← attempt (syncDir parent) with
  | .ok _ => pure ()
  | .error (.io e) => fail (.parent parent e)
  | .error e => fail e

/-- `EnsureDir`. -/
def ensureDir (umask : Nat) (directory : Path) : Prog Failure (Disk β) Unit := do
  let missing ← missingAncestors directory
  let (made, error) ← makeDirs umask missing []
  match error with
  | some e => do
    rollback made
    fail e
  | none =>
    match made with
    | [] => pure ()
    | first :: _ => do
      let synced ← attempt (do
        made.forM syncDir
        syncParent first.tail)
      match synced with
      | .ok _ => pure ()
      | .error e => do
        rollback made
        fail e

/-- The arguments of `WriteFile` and what it reads from the system. -/
structure Write (β : Type) where
  name : String
  directory : Path
  contents : β
  mode : Nat
  umask : Nat := 0o022
  pid : Nat := 1
  suffix : String := "0000000000000000"

namespace Write

/-- The file that the call writes. -/
def file (w : Write β) : Path := w.name :: w.directory

/-- The name of the temporary file. -/
def temporary (w : Write β) : Path :=
  (w.name ++ ".tmp." ++ toString w.pid ++ "." ++ w.suffix) :: w.directory

/-- The node that the file becomes. -/
def node (w : Write β) : Node β := ⟨some w.contents, w.mode, true⟩

/-- What `WriteFile` does with its temporary file. -/
def replace (w : Write β) : Prog Failure (Disk β) Unit := do
  call (Disk.write w.contents w.temporary)
  call (Disk.chmod w.mode w.temporary)
  call (Disk.flush w.temporary)
  -- The file is closed.
  call Disk.elsewhere
  call (Disk.rename w.temporary w.file)
  syncDir w.directory

/-- `WriteFile` behind `EnsureDir`.  An empty file has the contents `empty`. -/
def rest (empty : β) (w : Write β) : Prog Failure (Disk β) Unit := do
  -- The random suffix.
  call Disk.elsewhere
  call (Disk.create empty w.umask w.mode w.temporary)
  match ← attempt w.replace with
  | .ok _ => pure ()
  | .error e => do
    let _ ← attempt (call (Disk.remove w.temporary))
    fail e

/-- `WriteFile`. -/
def run (empty : β) (w : Write β) : Prog Failure (Disk β) Unit := do
  ensureDir w.umask w.directory
  w.rest empty

end Write

/-! ## Runs -/

/-- A call of `WriteFile` with the fates of its actions, or a loss of power. -/
inductive Event (β : Type) where
  | write (w : Write β) (fates : List Fate)
  | powerLoss (l : Disk.Loss β)

/-- One write, or a loss of power. -/
def step (empty : β) (d : Disk β) : Event β → Disk β
  | .write w fates => finalWorld (w.run empty) d fates
  | .powerLoss l => d.powerLoss l

/-- The writes of a file. -/
def writesTo (file : Path) (events : List (Event β)) : List (Write β) :=
  events.filterMap fun
    | .write w _ => if w.file = file then some w else none
    | .powerLoss _ => none

/-- The event uses the name for nothing but the file. -/
def Event.Spares (file : Path) : Event β → Prop
  | .write w _ => ¬file <:+ w.directory ∧ w.temporary ≠ file
  | .powerLoss _ => True

/-- The call succeeds, or it leaves no directory that was not there. -/
def RollsBack (empty : β) (d : Disk β) : Event β → Prop
  | .write w fates =>
    result? (w.run empty) d fates = some () ∨
      ∀ p, (finalWorld (w.run empty) d fates).isDir p = true → d.isDir p = true
  | .powerLoss _ => True

end ChordV.Agent.Durable
