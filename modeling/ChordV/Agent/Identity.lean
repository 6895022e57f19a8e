import Mathlib.Data.List.DropRight
import ChordV.Lib.Fallible
import ChordV.Lib.Machine
import ChordV.Lib.Table

/-!
# The identity of an agent on its host

`apps/agent/internal/credentials/credentials.go` and the two functions of
`apps/agent/cmd/chordv-agent/main.go` around it: an agent that starts takes the process lock,
finishes an interrupted reset, and finds, resets or registers its identity.

* A `Path` is the role that a name has in the configuration; `Paths.render` is the name.  The two
  names that the roles come from are those of the host: every start of its agent has them, while
  the other settings may change.  `NamesApart` says that they give no two roles one name.
* A `Stage` is where the process stands between two durable writes.  A crash ends the process
  between any two of them.  A call that fails ends the process too, so it is a crash.
* `durable.WriteFile` renames a finished file into place, so a crash leaves the old file or the
  new one.  A rename and a removal are one step each.
* `SyncDir` changes nothing that a process can read, and its failure is a crash.
* `AcquireProcessLock` lets one process in.  The lock goes when the process ends.
* `registerTokenFingerprint` and `agentToken` are fields of two files; one `Secret` has the
  fields of both, and a field that is absent or no string is empty.
* A file carries its `Birth`, which tells two files of one name apart.
-/

namespace ChordV.Agent.Identity

open Lib Lib.Machine Fallible

/-! ## Text -/

/-- `unicode.IsSpace`. -/
def isSpace (c : Char) : Bool :=
  [0x09, 0x0A, 0x0B, 0x0C, 0x0D, 0x20, 0x85, 0xA0, 0x1680, 0x2028, 0x2029, 0x202F, 0x205F,
    0x3000].contains c.toNat || (0x2000 ≤ c.toNat && c.toNat ≤ 0x200A)

/-- `strings.TrimSpace`. -/
def trimSpace (s : String) : String :=
  String.ofList ((s.toList.dropWhile isSpace).rdropWhile isSpace)

/-- A text that is not blank and has no blanks around it: a digest in hexadecimal, the id of a
row. -/
abbrev Word := { s : String // trimSpace s = s ∧ s ≠ "" }

/-- `[A-Za-z0-9_-]`. -/
def isTokenChar (c : Char) : Bool :=
  ('A' ≤ c && c ≤ 'Z') || ('a' ≤ c && c ≤ 'z') || ('0' ≤ c && c ≤ '9') || c = '_' || c = '-'

/-- `^chordv_agent_[A-Za-z0-9_-]{43,128}$`. -/
def agentTokenPattern (s : String) : Bool :=
  let rest := s.toList.drop 13
  s.toList.take 13 = "chordv_agent_".toList && 43 ≤ rest.length && rest.length ≤ 128 &&
    rest.all isTokenChar

/-- What `GenerateAgentToken` returns.  The base64 text of 32 bytes has 43 characters. -/
abbrev AgentToken := { s : String // agentTokenPattern s = true }

theorem trimSpace_eq_self {s : String} (h : ∀ c ∈ s.toList, isSpace c = false) :
    trimSpace s = s := by
  have hdrop : s.toList.dropWhile isSpace = s.toList := by
    cases hs : s.toList with
    | nil => rfl
    | cons c cs =>
      have hc : isSpace c = false := h c (by rw [hs]; exact List.mem_cons_self)
      rw [List.dropWhile_cons_of_neg (by rw [hc]; exact Bool.false_ne_true)]
  have hrdrop : s.toList.rdropWhile isSpace = s.toList := by
    refine List.rdropWhile_eq_self_iff.2 fun hne => ?_
    rw [h _ (List.getLast_mem hne)]
    exact Bool.false_ne_true
  rw [trimSpace, hdrop, hrdrop, String.ofList_toList]

theorem isSpace_of_isTokenChar {c : Char} (h : isTokenChar c = true) : isSpace c = false := by
  have hc : c.toNat < 0x80 ∧ 0x2D ≤ c.toNat := by
    simp only [isTokenChar, Bool.or_eq_true, Bool.and_eq_true, decide_eq_true_eq, Char.le_def,
      UInt32.le_iff_toNat_le] at h
    rcases h with (((h | h) | h) | h) | h
    · exact ⟨lt_of_le_of_lt h.2 (by decide), le_trans (by decide) h.1⟩
    · exact ⟨lt_of_le_of_lt h.2 (by decide), le_trans (by decide) h.1⟩
    · exact ⟨lt_of_le_of_lt h.2 (by decide), le_trans (by decide) h.1⟩
    · subst h
      decide
    · subst h
      decide
  simp only [isSpace, Bool.or_eq_false_iff, List.contains_eq_mem, List.mem_cons,
    List.not_mem_nil, or_false, decide_eq_false_iff_not, not_or, Bool.and_eq_false_iff]
  omega

/-- A generated token is read back as it was written. -/
theorem AgentToken.trimSpace_val (token : AgentToken) : trimSpace token.1 = token.1 := by
  have h := token.2
  simp only [agentTokenPattern, Bool.and_eq_true, decide_eq_true_eq] at h
  obtain ⟨⟨⟨hhead, -⟩, -⟩, hall⟩ := h
  refine trimSpace_eq_self fun c hc => ?_
  rw [← List.take_append_drop 13 token.1.toList, List.mem_append] at hc
  rcases hc with hc | hc
  · rw [hhead] at hc
    exact isSpace_of_isTokenChar (List.all_eq_true.1 (by decide) c hc)
  · exact isSpace_of_isTokenChar (List.all_eq_true.1 hall c hc)

/-! ## Files -/

/-- The role of a name.  `replaced` is the name under which an archive keeps a file. -/
inductive Path where
  | credentials
  | pending
  | journal
  | database
  | wal
  | shm
  | replaced (source : Path) (stamp : Int)
  | other (name : String)
  deriving DecidableEq, Repr

/-- `StateCandidates`. -/
def stateCandidates : List Path := [.database, .wal, .shm]

/-- `ArchiveCandidates`. -/
def archiveCandidates : List Path := [.credentials, .pending] ++ stateCandidates

/-- The string fields of a JSON object. -/
structure Secret where
  agentId : String := ""
  nodeId : String := ""
  token : String := ""
  agentToken : String := ""
  registerTokenFingerprint : String := ""
  deriving DecidableEq, Repr

/-- The journal of a reset: its stamp and the files it lists. -/
structure ResetJournal where
  stamp : Int
  files : List Path
  deriving DecidableEq, Repr

/-- What a file holds. -/
inductive Content where
  | secret (fields : Secret)
  | reset (journal : ResetJournal)
  /-- What is no JSON object, such as a database. -/
  | raw (bytes : String)
  deriving DecidableEq, Repr

/-- Which file it is: one of those that were there at first, or the one of the `n`th write. -/
inductive Birth where
  | initial (path : Path)
  | written (n : Nat)
  deriving DecidableEq, Repr

/-- A file, and where it came from. -/
structure File where
  birth : Birth
  content : Content
  deriving DecidableEq, Repr

/-- The files by their role. -/
abbrev Disk := Table Path File

/-- `os.Rename`: a file that has the new name already is replaced. -/
def Disk.rename (d : Disk) (source target : Path) (file : File) : Disk :=
  (d.erase source).insert target file

/-! ## What is read -/

/-- The name of a role under the two configured names: `PendingCredentialsPath`,
`ResetJournalPath` and the names that `StateCandidates` and `archiveWithStamp` put together. -/
def Path.name (credentialsPath databasePath : String) : Path → String
  | .credentials => credentialsPath
  | .pending => credentialsPath ++ ".pending"
  | .journal => credentialsPath ++ ".reset-journal"
  | .database => databasePath
  | .wal => databasePath ++ "-wal"
  | .shm => databasePath ++ "-shm"
  | .replaced source stamp =>
    source.name credentialsPath databasePath ++ ".replaced." ++ toString stamp
  | .other name => name

/-- No two roles have one name.  Two stamps print differently, so only the sources matter. -/
structure NamesApart (credentialsPath databasePath : String) : Prop where
  own : ∀ p ∈ .journal :: archiveCandidates, ∀ q ∈ .journal :: archiveCandidates,
    p.name credentialsPath databasePath = q.name credentialsPath databasePath → p = q
  kept : ∀ p ∈ archiveCandidates, ∀ stamp, ∀ q ∈ .journal :: archiveCandidates,
    (Path.replaced p stamp).name credentialsPath databasePath ≠ q.name credentialsPath databasePath
  sources : ∀ p ∈ archiveCandidates, ∀ q ∈ archiveCandidates, ∀ stamp stamp',
    (Path.replaced p stamp).name credentialsPath databasePath =
      (Path.replaced q stamp').name credentialsPath databasePath → p = q

/-- What a name under which an archive keeps the file starts with. -/
def Path.keptStart (credentialsPath databasePath : String) (path : Path) : List Char :=
  (path.name credentialsPath databasePath ++ ".replaced.").toList

theorem Path.keptStart_prefix (credentialsPath databasePath : String) (path : Path) (stamp : Int) :
    path.keptStart credentialsPath databasePath <+:
      ((Path.replaced path stamp).name credentialsPath databasePath).toList := by
  rw [Path.name, String.toList_append]
  exact List.prefix_append _ _

/-- What is to be checked of two names. -/
theorem NamesApart.of_starts {c d : String}
    (hown : ∀ p ∈ .journal :: archiveCandidates, ∀ q ∈ .journal :: archiveCandidates,
      p.name c d = q.name c d → p = q)
    (hkept : ∀ p ∈ archiveCandidates, ∀ q ∈ .journal :: archiveCandidates,
      ¬ p.keptStart c d <+: (q.name c d).toList)
    (hsources : ∀ p ∈ archiveCandidates, ∀ q ∈ archiveCandidates,
      p.keptStart c d <+: q.keptStart c d → p = q) : NamesApart c d where
  own := hown
  kept := by
    intro p hp stamp q hq heq
    exact hkept p hp q hq (heq ▸ p.keptStart_prefix c d stamp)
  sources := by
    intro p hp q hq stamp stamp' heq
    have hpre := p.keptStart_prefix c d stamp
    rw [heq] at hpre
    rcases List.prefix_or_prefix_of_prefix hpre (q.keptStart_prefix c d stamp') with h | h
    · exact hsources p hp q hq h
    · exact (hsources q hq p hp h).symm

/-- The two configured names of a host. -/
structure Paths where
  credentialsPath : String
  databasePath : String
  apart : NamesApart credentialsPath databasePath
  deriving DecidableEq

/-- The name of a path on this host. -/
def Paths.render (paths : Paths) : Path → String :=
  Path.name paths.credentialsPath paths.databasePath

/-- What the installer writes. -/
def Paths.standard : Paths where
  credentialsPath := "/var/lib/chordv-node-agent/credentials.json"
  databasePath := "/var/lib/chordv-node-agent/agent.db"
  apart := .of_starts (by decide +kernel) (by decide +kernel) (by decide +kernel)

/-- The configuration of a start. -/
structure Config where
  paths : Paths := .standard
  agentId : String := ""
  nodeId : String := ""
  token : String := ""
  registerToken : String := ""
  resetIdentity : Bool := false
  deriving DecidableEq

/-- An identity that may be used. -/
structure Credentials where
  agentId : String
  nodeId : String
  token : String
  deriving DecidableEq, Repr

/-- `readSecret`: no file is no secret, and a file that is no JSON object is an error. -/
def readSecret (cfg : Config) (d : Disk) (path : Path) : Except String (Option Secret) :=
  match d.lookup path with
  | none => .ok none
  | some file =>
    match file.content with
    | .secret fields => .ok (some fields)
    | .reset _ => .ok (some {})
    | .raw _ => .error ("Agent 凭据文件损坏，请恢复原凭据后重试（" ++ cfg.paths.render path ++ "）")

/-- The error for a journal that does not parse. -/
def journalCorrupt : String := "Agent 重置日志损坏，请人工确认归档状态后删除该文件"

/-- The journal that `finishInterruptedReset` accepts: it names a stamp and files, and only
files that the configuration owns. -/
def ResetJournal.accepted (journal : ResetJournal) : Bool :=
  decide (0 < journal.stamp) && !journal.files.isEmpty &&
    journal.files.all (archiveCandidates.contains ·)

/-- The journal of an interrupted reset, if there is one. -/
def readJournal (d : Disk) : Except String (Option ResetJournal) :=
  match d.lookup .journal with
  | none => .ok none
  | some file =>
    match file.content with
    | .reset journal => if journal.accepted then .ok (some journal) else .error journalCorrupt
    | _ => .error journalCorrupt

/-- `explicitCredentials`. -/
def explicitCredentials (cfg : Config) : Except String (Option Credentials) :=
  if cfg.agentId = "" ∧ cfg.nodeId = "" ∧ cfg.token = "" then .ok none
  else if cfg.agentId = "" ∨ cfg.nodeId = "" ∨ cfg.token = "" ∨ cfg.registerToken ≠ "" then
    .error "环境凭据必须完整，且不能与注册令牌同时配置"
  else .ok (some ⟨cfg.agentId, cfg.nodeId, cfg.token⟩)

/-- `savedCredentials`. -/
def savedCredentials (saved : Secret) : Except String Credentials :=
  let credentials : Credentials :=
    ⟨trimSpace saved.agentId, trimSpace saved.nodeId, trimSpace saved.token⟩
  if credentials.agentId = "" ∨ credentials.nodeId = "" ∨ credentials.token = "" then
    .error "Agent 凭据文件字段不完整"
  else .ok credentials

/-! ## The process -/

/-- What a finished archive goes on with. -/
inductive After where
  /-- `finishInterruptedReset` was first, `Resolve` goes on. -/
  | resolve
  /-- `Resolve` reset a foreign identity and registers. -/
  | register
  /-- `ArchiveForeignState` put a foreign database aside; the agent opens a new one. -/
  | serve (identity : Credentials)
  deriving DecidableEq, Repr

/-- Where the process stands. -/
inductive Stage where
  /-- At `finishInterruptedReset`. -/
  | starting
  /-- In `archiveWithStamp`, with the files that it has yet to look at. -/
  | archiving (journal : ResetJournal) (todo : List Path) (after : After)
  /-- At `clearJournal`. -/
  | clearing (after : After)
  /-- The interrupted reset is finished, the identity is not known yet. -/
  | resolving
  /-- At the journal of `archiveFiles`. -/
  | journaling (files : List Path) (after : After)
  /-- At the start of `register`. -/
  | registering
  /-- It has a secret and writes the pending file. -/
  | persisting (agentToken : String)
  /-- The secret is durable and the request goes out. -/
  | requesting (agentToken : String)
  /-- The request has gone out. -/
  | waiting (agentToken : String) (request : Nat)
  /-- It was accepted and writes the credentials. -/
  | saving (identity : Credentials)
  /-- `Resolve` has returned. -/
  | serving (identity : Credentials)
  deriving DecidableEq, Repr

/-- The running agent. -/
structure Process where
  cfg : Config
  stage : Stage
  deriving DecidableEq

/-- A file that was in place when its archive was journalled. -/
structure Listed where
  path : Path
  birth : Birth
  deriving DecidableEq, Repr

/-- An archive: its stamp and the files that were in place when it was journalled. -/
structure Reset where
  stamp : Int
  listed : List Listed
  deriving DecidableEq, Repr

/-- A rename that was made. -/
structure Rename where
  birth : Birth
  source : Path
  target : Path
  deriving DecidableEq, Repr

/-- The host.  The last two fields are no part of it: they record the archives that were
journalled and the renames that were made. -/
structure Host where
  disk : Disk := ∅
  process : Option Process := none
  writes : Nat := 0
  resets : List Reset := []
  renames : List Rename := []

/-- The answer to a registration. -/
structure RegisterResponse where
  accepted : Bool
  agentId : String
  nodeId : String
  deriving DecidableEq, Repr

/-! ## Resolve and register -/

section

-- `Fingerprint`, the hexadecimal SHA-256 of a token.
variable (fingerprint : String → Word)

/-- The refusal of `Resolve` when the saved identity is of another register token. -/
def foreignIdentity (cfg : Config) (credentials : Credentials) : String :=
  "本机已存在其他注册令牌签发的 Agent 身份（" ++ credentials.agentId ++ " / 节点 " ++
    credentials.nodeId ++ "），拒绝用新的注册令牌静默复用。" ++
    "若确认要把本机重新接入为新节点：先在后台撤销旧节点的 Agent 凭据，" ++
    "再以 CHORDV_AGENT_RESET_IDENTITY=1 启动一次（旧凭据会被改名保留为 " ++
    cfg.paths.render .credentials ++ ".replaced.<时间戳>），或停止服务后把 " ++
    "、".intercalate (archiveCandidates.map cfg.paths.render) ++ " 一并移走再重启" ++
    "（运行状态必须跟着身份一起移走：只删凭据会让新身份接管旧节点的状态库，导致注册成功却无法启动）"

/-- The saved identity is of another register token. -/
def Secret.foreign (saved : Secret) (cfg : Config) : Prop :=
  cfg.registerToken ≠ "" ∧
    trimSpace saved.registerTokenFingerprint ≠ (fingerprint cfg.registerToken).1

instance (saved : Secret) (cfg : Config) : Decidable (saved.foreign fingerprint cfg) :=
  inferInstanceAs (Decidable (_ ∧ _))

/-- `Resolve` after `finishInterruptedReset`, up to its next write. -/
def resolve (cfg : Config) (d : Disk) : Except String Stage := do
  match ← explicitCredentials cfg with
  | some explicit => return .serving explicit
  | none =>
    match ← readSecret cfg d .credentials with
    | some saved =>
      let credentials ← savedCredentials saved
      if saved.foreign fingerprint cfg then
        if cfg.resetIdentity then return .journaling archiveCandidates .register
        else .error (foreignIdentity cfg credentials)
      else return .serving credentials
    | none =>
      if cfg.registerToken = "" then
        .error "无可用凭据：本地凭据文件缺失且未提供 CHORDV_REGISTER_TOKEN"
      else return .registering

/-- What `Resolve` can do next, once no reset is interrupted. -/
theorem resolve_cases {fingerprint : String → Word} {cfg : Config} {d : Disk} {stage : Stage}
    (hresolve : resolve fingerprint cfg d = .ok stage) :
    (∃ identity, explicitCredentials cfg = .ok (some identity) ∧ stage = .serving identity) ∨
    explicitCredentials cfg = .ok none ∧
      (readSecret cfg d .credentials = .ok none ∧ cfg.registerToken ≠ "" ∧ stage = .registering ∨
      ∃ saved identity, readSecret cfg d .credentials = .ok (some saved) ∧
        savedCredentials saved = .ok identity ∧
        (saved.foreign fingerprint cfg ∧ cfg.resetIdentity = true ∧
            stage = .journaling archiveCandidates .register ∨
          ¬ saved.foreign fingerprint cfg ∧ stage = .serving identity)) := by
  rw [resolve, bind_eq_ok] at hresolve
  obtain ⟨explicit, hexplicit, hresolve⟩ := hresolve
  cases explicit with
  | some identity =>
    cases hresolve
    exact .inl ⟨identity, hexplicit, rfl⟩
  | none =>
    refine .inr ⟨hexplicit, ?_⟩
    simp only [bind_eq_ok] at hresolve
    obtain ⟨secret, hread, hresolve⟩ := hresolve
    cases secret with
    | none =>
      simp only at hresolve
      split at hresolve
      · cases hresolve
      · next htoken =>
        cases hresolve
        exact .inl ⟨hread, htoken, rfl⟩
    | some saved =>
      simp only [bind_eq_ok] at hresolve
      obtain ⟨identity, hsaved, hresolve⟩ := hresolve
      refine .inr ⟨saved, identity, hread, hsaved, ?_⟩
      split at hresolve
      · next hforeign =>
        split at hresolve
        · next hreset =>
          cases hresolve
          exact .inl ⟨hforeign, hreset, rfl⟩
        · cases hresolve
      · next hforeign =>
        cases hresolve
        exact .inr ⟨hforeign, rfl⟩

/-- The start of `register`: the secret of an earlier attempt with the same register token. -/
def pendingSecret (cfg : Config) (d : Disk) : Except String (Option String) := do
  match ← readSecret cfg d .pending with
  | some fields =>
    if !agentTokenPattern (trimSpace fields.agentToken) then
      .error "Agent 待注册凭据文件损坏，请恢复原凭据后重试"
    else if trimSpace fields.registerTokenFingerprint = (fingerprint cfg.registerToken).1 then
      return some (trimSpace fields.agentToken)
    else return none
  | none => return none

/-- The file before the registration: the secret and the token it is for. -/
def pendingFile (cfg : Config) (agentToken : String) : Secret where
  agentToken := agentToken
  registerTokenFingerprint := (fingerprint cfg.registerToken).1

/-- The file after the registration. -/
def credentialsFile (cfg : Config) (identity : Credentials) : Secret where
  agentId := identity.agentId
  nodeId := identity.nodeId
  token := identity.token
  registerTokenFingerprint := (fingerprint cfg.registerToken).1

/-! ## Steps -/

/-- What comes after the archive. -/
def After.stage : After → Stage
  | .resolve => .resolving
  | .register => .registering
  | .serve identity => .serving identity

/-- What happens on a host. -/
inductive Event where
  | start (cfg : Config)
  | crash
  /-- The next statement of the process, with the clock, the random secret and the number of
  the request that it may need. -/
  | advance (now : Int) (secret : AgentToken) (request : Nat)
  /-- The answer to the request. -/
  | respond (response : RegisterResponse)
  /-- `openStore` finds the database of another node, and the operator has consented. -/
  | openForeign
  /-- The running agent writes one of its database files. -/
  | store (path : Path) (content : Content)
  /-- The running agent removes one of its database files. -/
  | unlink (path : Path)

namespace Host

/-- `durable.WriteSecret`. -/
def write (h : Host) (path : Path) (content : Content) : Host :=
  { h with disk := h.disk.insert path ⟨.written h.writes, content⟩, writes := h.writes + 1 }

/-- The process is at another stage. -/
def goto (h : Host) (cfg : Config) (stage : Stage) : Host :=
  { h with process := some ⟨cfg, stage⟩ }

/-- The process ends. -/
def stop (h : Host) : Host := { h with process := none }

/-- The files of a list that are in place. -/
def listed (h : Host) (files : List Path) : List Listed :=
  files.filterMap fun path => (h.disk.lookup path).map fun file => ⟨path, file.birth⟩

/-- One pass of the loop in `archiveWithStamp`. -/
def archive (h : Host) (stamp : Int) (path : Path) : Host :=
  match h.disk.lookup path with
  | none => h
  | some file =>
    { h with
      disk := Disk.rename h.disk path (.replaced path stamp) file
      renames := ⟨file.birth, path, .replaced path stamp⟩ :: h.renames }

/-- The next statement of the process. -/
def advance (h : Host) (cfg : Config) (now : Int) (secret : AgentToken) (request : Nat) :
    Stage → Host
  | .starting =>
    match readJournal h.disk with
    | .ok none => h.goto cfg .resolving
    | .ok (some journal) => h.goto cfg (.archiving journal journal.files .resolve)
    | .error _ => h.stop
  | .archiving journal (path :: todo) after =>
    (h.archive journal.stamp path).goto cfg (.archiving journal todo after)
  | .archiving _ [] after => h.goto cfg (.clearing after)
  | .clearing after => { h with disk := h.disk.erase .journal }.goto cfg after.stage
  | .resolving =>
    match resolve fingerprint cfg h.disk with
    | .ok stage => h.goto cfg stage
    | .error _ => h.stop
  | .journaling files after =>
    { h.write .journal (.reset ⟨now, files⟩) with
      resets := ⟨now, h.listed files⟩ :: h.resets }.goto cfg (.archiving ⟨now, files⟩ files after)
  | .registering =>
    match pendingSecret fingerprint cfg h.disk with
    | .ok (some agentToken) => h.goto cfg (.persisting agentToken)
    | .ok none => h.goto cfg (.persisting secret.1)
    | .error _ => h.stop
  | .persisting agentToken =>
    (h.write .pending (.secret (pendingFile fingerprint cfg agentToken))).goto cfg
      (.requesting agentToken)
  | .requesting agentToken => h.goto cfg (.waiting agentToken request)
  | .saving identity =>
    (h.write .credentials (.secret (credentialsFile fingerprint cfg identity))).goto cfg
      (.serving identity)
  | .waiting _ _ | .serving _ => h

/-- The answer is checked and becomes an identity. -/
def respond (h : Host) (cfg : Config) (response : RegisterResponse) (agentToken : String) : Host :=
  if !response.accepted ∨ trimSpace response.agentId = "" ∨ trimSpace response.nodeId = "" then
    h.stop
  else h.goto cfg (.saving ⟨response.agentId, response.nodeId, agentToken⟩)

/-- SQLite writes a file in place. -/
def store (h : Host) (path : Path) (content : Content) : Host :=
  match h.disk.lookup path with
  | some file => { h with disk := h.disk.insert path { file with content } }
  | none => h.write path content

end Host

/-- One step of a host with these paths. -/
def step (paths : Paths) (h : Host) : Event → Host
  | .start cfg => if h.process.isNone && cfg.paths = paths then h.goto cfg .starting else h
  | .crash => h.stop
  | .advance now secret request =>
    match h.process with
    | some p => h.advance fingerprint p.cfg now secret request p.stage
    | none => h
  | .respond response =>
    match h.process with
    | some ⟨cfg, .waiting agentToken _⟩ => h.respond cfg response agentToken
    | _ => h
  | .openForeign =>
    match h.process with
    | some ⟨cfg, .serving identity⟩ =>
      if cfg.resetIdentity then h.goto cfg (.journaling stateCandidates (.serve identity)) else h
    | _ => h
  | .store path content =>
    match h.process with
    | some ⟨_, .serving _⟩ => if path ∈ stateCandidates then h.store path content else h
    | _ => h
  | .unlink path =>
    match h.process with
    | some ⟨_, .serving _⟩ =>
      if path ∈ stateCandidates then { h with disk := h.disk.erase path } else h
    | _ => h

end

/-- A host before its first start.  A journal that it holds is of an archive that was
interrupted. -/
def Host.boot (files : Table Path Content) : Host :=
  let h : Host := { disk := files.mapRows fun path content => ⟨.initial path, content⟩ }
  match readJournal h.disk with
  | .ok (some journal) => { h with resets := [⟨journal.stamp, h.listed journal.files⟩] }
  | _ => h

end ChordV.Agent.Identity
