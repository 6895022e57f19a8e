import Mathlib.Algebra.Ring.Nat
import ChordV.Lib.Frames

/-!
# The event stream of the agent

`readEventStream` and `ParseSSEFrame` of `internal/apiclient/client.go`.

* A stream is the list of what the reads return until the body ends.  A read of no bytes is
  possible, and `onCommand` may fail after any history of calls.
* `unmarshal` stands for `json.Unmarshal` into a `protocol.Command`, and a payload is of any type.
* `Called` is what the agent is to do: call `onCommand` with the commands of the frames of the
  whole stream, up to the first call that fails.
* The reads do not matter but for one case: a read that ends inside a blank line, with a frame so
  long that what was read of both is above `MaxFrameBytes`.  `called_iff` says that this is exact.
-/

namespace ChordV.Agent.EventStream

open Lib Lib.Frames

/-! ## Frames -/

/-- `protocol.Command`, for any type of its payload. -/
structure Command (Payload : Type) where
  commandID : String
  type : String
  targetRevision : String
  payload : Option Payload
  createdAt : String := ""
deriving DecidableEq, Repr

/-- The bytes of an ASCII string. -/
def ascii (s : String) : Bytes := s.toList.map fun c => UInt8.ofNat c.toNat

/-- The encodings of the white space that `strings.TrimSpace` removes. -/
def spaces : List Bytes :=
  [[9], [10], [11], [12], [13], [32], [0xc2, 0x85], [0xc2, 0xa0], [0xe1, 0x9a, 0x80],
    [0xe2, 0x80, 0x80], [0xe2, 0x80, 0x81], [0xe2, 0x80, 0x82], [0xe2, 0x80, 0x83],
    [0xe2, 0x80, 0x84], [0xe2, 0x80, 0x85], [0xe2, 0x80, 0x86], [0xe2, 0x80, 0x87],
    [0xe2, 0x80, 0x88], [0xe2, 0x80, 0x89], [0xe2, 0x80, 0x8a], [0xe2, 0x80, 0xa8],
    [0xe2, 0x80, 0xa9], [0xe2, 0x80, 0xaf], [0xe2, 0x81, 0x9f], [0xe3, 0x80, 0x80]]

/-- `strings.TrimPrefix` with the first of the texts that is one, as often as there are bytes. -/
def trimLeft (texts : List Bytes) : Nat → Bytes → Bytes
  | 0, s => s
  | n + 1, s =>
    match texts.find? (·.isPrefixOf s) with
    | some text => trimLeft texts n (s.drop text.length)
    | none => s

/-- `bytes.TrimSpace`. -/
def trimSpace (s : Bytes) : Bytes :=
  let left := trimLeft spaces s.length s
  (trimLeft (spaces.map List.reverse) left.length left.reverse).reverse

/-- The rest of a line with the given beginning. -/
def cutPrefix (text line : Bytes) : Option Bytes :=
  if text.isPrefixOf line then some (line.drop text.length) else none

/-- The loop of `ParseSSEFrame`: the data of the lines, or `none` for a keepalive. -/
def collectData : List Bytes → Option (List Bytes)
  | [] => some []
  | line :: lines =>
    match cutPrefix (ascii "event:") line with
    | some event => if trimSpace event = ascii "keepalive" then none else collectData lines
    | none =>
      match cutPrefix (ascii "data:") line with
      | some data => (collectData lines).map (data.dropWhile (· == 32) :: ·)
      | none => collectData lines

section

variable {Payload : Type} (unmarshal : Bytes → Option (Command Payload))

/-- The command of a frame, if there is one. -/
def ParseSSEFrame (frame : Bytes) : Option (Command Payload) := do
  let data ← collectData ((frame.filter (· != 13)).splitOn 10)
  if data = [] then none
  let command ← unmarshal ([10].intercalate data)
  if command.commandID = "" ∨ command.type = "" ∨ command.targetRevision = "" ∨
      command.payload.isNone then none
  return command

/-! ## Reading -/

/-- The most bytes a frame may have. -/
def MaxFrameBytes : Nat := 2 ^ 20

/-- Why the reader returns. -/
inductive Ended where
  | eof
  | onCommand
  | frameTooLong
deriving DecidableEq, Repr

/-- `onCommand` on the calls so far with the new one last.  It is true if it returns no error. -/
abbrev OnCommand (Payload : Type) := List (Command Payload) → Bool

variable (onCommand : OnCommand Payload)

/-- The inner loop: the calls, and the rest of the buffer if no call failed. -/
def drain (calls : List (Command Payload)) (normalized : Bytes) :
    List (Command Payload) × Option Bytes :=
  match _h : cutBlank normalized with
  | none => (calls, some normalized)
  | some (frame, rest) =>
    match ParseSSEFrame unmarshal frame with
    | none => drain calls rest
    | some command =>
      if onCommand (calls ++ [command]) then drain (calls ++ [command]) rest
      else (calls ++ [command], none)
termination_by normalized.length
decreasing_by all_goals exact length_of_cutBlank ‹_›

/-- The outer loop, for the reads that are still to come. -/
def readEventStream (calls : List (Command Payload)) (buffer : Bytes) :
    List Bytes → List (Command Payload) × Ended
  | [] => (calls, .eof)
  | read :: reads =>
    if read = [] then readEventStream calls buffer reads
    else
      match drain unmarshal onCommand calls (unixLines (buffer ++ read)) with
      | (calls, none) => (calls, .onCommand)
      | (calls, some normalized) =>
        if MaxFrameBytes < normalized.length then (calls, .frameTooLong)
        else readEventStream calls normalized reads

/-! ## What is to be called -/

/-- The frames of a whole stream. -/
def framesOf (stream : Bytes) : List Bytes := (frames (unixLines stream)).1

/-- The commands of a whole stream. -/
def commandsOf (stream : Bytes) : List (Command Payload) :=
  (framesOf stream).filterMap (ParseSSEFrame unmarshal)

/-- The calls for a list of commands: the first that fails is the last. -/
def deliver (calls : List (Command Payload)) : List (Command Payload) → List (Command Payload)
  | [] => calls
  | command :: commands =>
    if onCommand (calls ++ [command]) then deliver (calls ++ [command]) commands
    else calls ++ [command]

/-- No call fails. -/
def accepts (calls : List (Command Payload)) : List (Command Payload) → Bool
  | [] => true
  | command :: commands =>
    onCommand (calls ++ [command]) && accepts (calls ++ [command]) commands

/-- The reader calls what the whole stream says. -/
def Called (reads : List Bytes) : Prop :=
  (readEventStream unmarshal onCommand [] [] reads).1 =
    deliver onCommand [] (commandsOf unmarshal reads.flatten)

/-! ## Calls -/

variable {unmarshal} {onCommand} {calls : List (Command Payload)}

theorem deliver_of_accepts {commands : List (Command Payload)}
    (h : accepts onCommand calls commands = true) :
    deliver onCommand calls commands = calls ++ commands := by
  induction commands generalizing calls with
  | nil => simp [deliver]
  | cons command commands ih =>
    obtain ⟨hcall, hrest⟩ := Bool.and_eq_true_iff.1 h
    rw [deliver, if_pos hcall, ih hrest, List.append_assoc]
    rfl

/-- A failed call is the last, whatever else there is to call. -/
theorem deliver_append {commands later : List (Command Payload)} :
    deliver onCommand calls (commands ++ later) =
      if accepts onCommand calls commands then deliver onCommand (calls ++ commands) later
      else deliver onCommand calls commands := by
  induction commands generalizing calls with
  | nil => simp [accepts]
  | cons command commands ih =>
    by_cases hcall : onCommand (calls ++ [command]) = true
    · simp [deliver, accepts, hcall, ih]
    · simp [deliver, accepts, hcall]

theorem accepts_append {commands later : List (Command Payload)} :
    accepts onCommand calls (commands ++ later) =
      (accepts onCommand calls commands && accepts onCommand (calls ++ commands) later) := by
  induction commands generalizing calls with
  | nil => simp [accepts]
  | cons command commands ih => simp [accepts, ih, Bool.and_assoc]

/-- Every command adds a call. -/
theorem length_deliver (calls : List (Command Payload)) (command : Command Payload)
    (commands : List (Command Payload)) :
    calls.length < (deliver onCommand calls (command :: commands)).length := by
  induction commands generalizing calls command with
  | nil =>
    rw [deliver]
    split <;> simp [deliver]
  | cons next commands ih =>
    rw [deliver]
    split
    · have hnext := ih (calls ++ [command]) next
      rw [List.length_append] at hnext
      exact Nat.lt_of_succ_lt hnext
    · simp

/-- The inner loop calls what the frames of the buffer say and keeps the rest. -/
theorem drain_eq (normalized : Bytes) :
    drain unmarshal onCommand calls normalized =
      (deliver onCommand calls ((frames normalized).1.filterMap (ParseSSEFrame unmarshal)),
        if accepts onCommand calls ((frames normalized).1.filterMap (ParseSSEFrame unmarshal)) then
          some (frames normalized).2 else none) := by
  induction normalized using frames_induct generalizing calls with
  | none s hnone =>
    rw [drain, frames_of_none hnone]
    split
    · rfl
    · rename_i heq
      cases hnone.symm.trans heq
  | some s frame rest hsome ih =>
    rw [drain, frames_of_some hsome]
    split
    · rename_i heq
      cases hsome.symm.trans heq
    · rename_i frame' rest' heq
      obtain ⟨rfl, rfl⟩ := Prod.mk.inj (Option.some.inj (hsome.symm.trans heq))
      cases hparse : ParseSSEFrame unmarshal frame with
      | none => simp [hparse, ih]
      | some command =>
        by_cases hcall : onCommand (calls ++ [command]) = true
        · simp [hparse, hcall, ih, deliver, accepts]
        · simp [hparse, hcall, deliver, accepts]

/-! ## Pieces of a stream -/

/-- What is kept of a stream. -/
def restOf (stream : Bytes) : Bytes := (frames (unixLines stream)).2

/-- The commands of a stream are those of its first part and those that the rest makes possible. -/
theorem commandsOf_append {p q : Bytes} (h : wholeLineEnds (p ++ q) = true) :
    commandsOf unmarshal (p ++ q) = commandsOf unmarshal p ++
      (frames (unixLines (restOf p ++ q))).1.filterMap (ParseSSEFrame unmarshal) := by
  rw [commandsOf, framesOf, frames_unixLines_append h, List.filterMap_append]
  rfl

theorem restOf_append {p q : Bytes} (h : wholeLineEnds (p ++ q) = true) :
    restOf (p ++ q) = (frames (unixLines (restOf p ++ q))).2 := by
  rw [restOf, frames_unixLines_append h]
  rfl

variable (unmarshal onCommand) in
/-- After the first part there is nothing more to call. -/
def Settled (p stream : Bytes) : Prop :=
  accepts onCommand [] (commandsOf unmarshal p) = false ∨
    commandsOf unmarshal stream = commandsOf unmarshal p

/-- The beginnings of a list are the empty one and those with the first element. -/
theorem forall_beginnings {α : Type} {x : α} {xs : List α} {Q : List α → Prop} :
    (∀ before after, x :: xs = before ++ after → Q before) ↔
      Q [] ∧ ∀ before after, xs = before ++ after → Q (x :: before) := by
  constructor
  · exact fun h => ⟨h [] (x :: xs) rfl,
      fun before after heq => h (x :: before) after (by simp [heq])⟩
  · rintro ⟨hnil, hcons⟩ before after heq
    cases before with
    | nil => exact hnil
    | cons y before =>
      obtain ⟨rfl, htail⟩ := List.cons.inj heq
      exact hcons before after htail

theorem Settled.of_append {p q q' : Bytes} (h : wholeLineEnds (p ++ (q ++ q')) = true)
    (hsettled : Settled unmarshal onCommand p (p ++ (q ++ q'))) :
    Settled unmarshal onCommand (p ++ q) (p ++ (q ++ q')) := by
  have hpq : wholeLineEnds (p ++ q) = true := by
    rw [← List.append_assoc] at h
    exact wholeLineEnds_of_append h
  obtain hfails | hsame := hsettled
  · left
    rw [commandsOf_append hpq, accepts_append, hfails, Bool.false_and]
  · right
    -- The commands of the middle are between two lists that are equal.
    rw [← List.append_assoc] at h hsame ⊢
    rw [commandsOf_append h, commandsOf_append hpq, List.append_assoc] at hsame
    have hnil := List.append_right_eq_self.1 hsame
    rw [commandsOf_append h, (List.append_eq_nil_iff.1 hnil).2, List.append_nil]

/-- A reader that gives up on a long frame has done everything if nothing was to be called. -/
theorem overlong_iff {p : Bytes} {reads : List Bytes}
    (hends : wholeLineEnds (p ++ reads.flatten) = true)
    (haccepts : accepts onCommand [] (commandsOf unmarshal p) = true)
    (hlong : MaxFrameBytes < (restOf p).length) :
    commandsOf unmarshal p = deliver onCommand [] (commandsOf unmarshal (p ++ reads.flatten)) ↔
      ∀ before after, reads = before ++ after →
        MaxFrameBytes < (restOf (p ++ before.flatten)).length →
        Settled unmarshal onCommand (p ++ before.flatten) (p ++ reads.flatten) := by
  constructor
  · intro hsame before after hsplit _
    have hsettled : Settled unmarshal onCommand p (p ++ reads.flatten) := by
      right
      rw [commandsOf_append hends, deliver_append, if_pos haccepts, List.nil_append] at hsame
      rw [commandsOf_append hends]
      cases hlater : (frames (unixLines (restOf p ++ reads.flatten))).1.filterMap
          (ParseSSEFrame unmarshal) with
      | nil => simp
      | cons command later =>
        rw [hlater] at hsame
        have hlength : (commandsOf unmarshal p).length <
            (deliver onCommand (commandsOf unmarshal p) (command :: later)).length :=
          length_deliver _ command later
        rw [← hsame] at hlength
        exact absurd hlength (Nat.lt_irrefl _)
    rw [hsplit, List.flatten_append] at hends hsettled ⊢
    exact hsettled.of_append hends
  · intro h
    have hsettled := h [] reads rfl (by simpa using hlong)
    rw [List.flatten_nil, List.append_nil] at hsettled
    obtain hfails | hsame := hsettled
    · cases haccepts.symm.trans hfails
    · rw [hsame, deliver_of_accepts haccepts, List.nil_append]

/-- The reader of a stream that has read `p` without a failure. -/
theorem read_iff {p : Bytes} {reads : List Bytes}
    (hends : wholeLineEnds (p ++ reads.flatten) = true)
    (haccepts : accepts onCommand [] (commandsOf unmarshal p) = true)
    (hshort : (restOf p).length ≤ MaxFrameBytes) :
    (readEventStream unmarshal onCommand (commandsOf unmarshal p) (restOf p) reads).1 =
        deliver onCommand [] (commandsOf unmarshal (p ++ reads.flatten)) ↔
      ∀ before after, reads = before ++ after →
        MaxFrameBytes < (restOf (p ++ before.flatten)).length →
        Settled unmarshal onCommand (p ++ before.flatten) (p ++ reads.flatten) := by
  induction reads generalizing p with
  | nil =>
    simp only [readEventStream, List.flatten_nil, List.append_nil, deliver_of_accepts haccepts,
      List.nil_append, true_iff]
    exact fun _ _ _ _ => .inr (by simp_all)
  | cons read reads ih =>
    rw [forall_beginnings]
    rw [List.flatten_cons] at hends ⊢
    have hempty : MaxFrameBytes < (restOf (p ++ [].flatten)).length → Settled unmarshal onCommand
        (p ++ [].flatten) (p ++ (read ++ reads.flatten)) := by
      rw [List.flatten_nil, List.append_nil]
      exact fun hlong => absurd hlong (Nat.not_lt_of_ge hshort)
    rw [and_iff_right hempty]
    have hends' : wholeLineEnds (p ++ read ++ reads.flatten) = true := by
      rwa [List.append_assoc]
    have hread' := wholeLineEnds_of_append hends'
    have hbefore : ∀ before : List Bytes, p ++ (read :: before).flatten =
        p ++ read ++ before.flatten := by simp
    simp only [hbefore]
    rw [← List.append_assoc]
    by_cases hread : read = []
    · subst hread
      simpa [readEventStream] using ih (p := p) (by simpa using hends) haccepts hshort
    · rw [readEventStream, if_neg hread, drain_eq, ← restOf_append hread']
      have hcommands : commandsOf unmarshal (p ++ read) = commandsOf unmarshal p ++ _ :=
        commandsOf_append hread'
      generalize (frames (unixLines (restOf p ++ read))).1.filterMap (ParseSSEFrame unmarshal) = new
        at hcommands ⊢
      by_cases hnew : accepts onCommand (commandsOf unmarshal p) new = true
      · have haccepts' : accepts onCommand [] (commandsOf unmarshal (p ++ read)) = true := by
          rw [hcommands, accepts_append, haccepts, Bool.true_and]
          exact hnew
        rw [deliver_of_accepts hnew, ← hcommands, if_pos hnew]
        by_cases hlong : MaxFrameBytes < (restOf (p ++ read)).length
        · simp only [if_pos hlong]
          exact overlong_iff hends' haccepts' hlong
        · simp only [if_neg hlong]
          exact ih hends' haccepts' (Nat.le_of_not_lt hlong)
      · -- A failed call ends the reader, and nothing is to be called after it.
        have hfails : accepts onCommand [] (commandsOf unmarshal (p ++ read)) = false := by
          rw [hcommands, accepts_append, haccepts, Bool.true_and]
          exact Bool.eq_false_iff.2 hnew
        simp only [if_neg hnew]
        constructor
        · intro _ before after hsplit _
          have hsettled : Settled unmarshal onCommand (p ++ read)
              (p ++ read ++ reads.flatten) := .inl hfails
          rw [hsplit, List.flatten_append] at hends' hsettled ⊢
          exact hsettled.of_append hends'
        · intro _
          rw [commandsOf_append hends', deliver_append, hfails, hcommands, deliver_append,
            if_pos haccepts]
          rfl

theorem length_restOf_le (stream : Bytes) : (restOf stream).length ≤ stream.length := by
  obtain ⟨front, hfront⟩ := exists_append_rest (unixLines stream)
  have hlength := congrArg List.length hfront
  rw [List.length_append] at hlength
  have hle := length_unixLines_le stream
  unfold restOf
  omega

theorem restOf_nil : restOf [] = [] := by
  rw [restOf, unixLines_nil, frames_of_none rfl]

theorem commandsOf_nil : commandsOf unmarshal [] = [] := by
  rw [commandsOf, framesOf, unixLines_nil, frames_of_none rfl]
  rfl

/-- The reader calls what the whole stream says if and only if nothing is to be called any more
wherever it keeps too much. -/
theorem called_iff_rest {reads : List Bytes} (hends : wholeLineEnds reads.flatten = true) :
    Called unmarshal onCommand reads ↔
      ∀ before after, reads = before ++ after →
        MaxFrameBytes < (restOf before.flatten).length →
        Settled unmarshal onCommand before.flatten reads.flatten := by
  have haccepts : accepts onCommand [] (commandsOf unmarshal []) = true := by
    rw [commandsOf_nil]
    rfl
  have hshort : (restOf []).length ≤ MaxFrameBytes := by
    rw [restOf_nil]
    exact Nat.zero_le _
  have hread := read_iff hends haccepts hshort
  rwa [commandsOf_nil, restOf_nil] at hread

/-! ## Cuts inside a blank line -/

/-- A read ends after a frame of the stream and a part of the blank line behind it, and what was
read of both is longer than a frame may be. -/
def CutsBlankLine (p stream : Bytes) : Prop :=
  ∃ frame later pending, framesOf stream = framesOf p ++ frame :: later ∧
    pending ∈ [[10], [13], [10, 13]] ∧ restOf p = frame ++ pending ∧
    MaxFrameBytes < frame.length + pending.length

/-- Where the frames are short, only such a cut can stop the reader before a command. -/
theorem settled_or_cuts {p q : Bytes} (hends : wholeLineEnds (p ++ q) = true)
    (hframes : ∀ frame ∈ framesOf (p ++ q), frame.length ≤ MaxFrameBytes)
    (hlong : MaxFrameBytes < (restOf p).length) :
    Settled unmarshal onCommand p (p ++ q) ∨ CutsBlankLine p (p ++ q) := by
  have hp := wholeLineEnds_of_append hends
  have happend : framesOf (p ++ q) = framesOf p ++ (frames (unixLines (restOf p ++ q))).1 := by
    rw [framesOf, frames_unixLines_append hends]
    rfl
  have hrest : wholeLineEnds (restOf p ++ q) = true := by
    obtain ⟨front, hfront⟩ := exists_append_rest (unixLines p)
    have hwhole := wholeLineEnds_unixLines_append hends
    rw [hfront, List.append_assoc] at hwhole
    exact wholeLineEnds_right hwhole
  cases hnext : cutBlank (unixLines (restOf p ++ q)) with
  | none =>
    left
    right
    rw [commandsOf_append hends, frames_of_none hnext]
    simp
  | some found =>
    right
    obtain ⟨frame, rest⟩ := found
    rw [frames_of_some hnext] at happend
    have hmem : frame ∈ framesOf (p ++ q) := by simp [happend]
    have hpending := rest_of_next (cutBlank_rest _)
      (not_mem_dropLast_rest (not_mem_dropLast_unixLines hp)) hrest hnext
      (Nat.lt_of_le_of_lt (hframes frame hmem) hlong)
    obtain heq | heq | heq := hpending <;>
      exact ⟨frame, _, _, happend, by simp, heq, by simpa [heq, restOf] using hlong⟩

/-- The reader calls what the whole stream says if and only if nothing is to be called any more
wherever a read ends inside a blank line with too much in the buffer. -/
theorem called_iff (unmarshal : Bytes → Option (Command Payload)) (onCommand : OnCommand Payload)
    (reads : List Bytes) (hends : wholeLineEnds reads.flatten = true)
    (hframes : ∀ frame ∈ framesOf reads.flatten, frame.length ≤ MaxFrameBytes) :
    Called unmarshal onCommand reads ↔
      ∀ before after, reads = before ++ after →
        CutsBlankLine before.flatten reads.flatten →
        Settled unmarshal onCommand before.flatten reads.flatten := by
  refine (called_iff_rest hends).trans
    ⟨fun h before after hsplit hcuts => ?_, fun h before after hsplit hlong => ?_⟩
  · obtain ⟨frame, later, pending, -, -, hrest, hlong⟩ := hcuts
    exact h before after hsplit (by simpa [hrest] using hlong)
  · rw [hsplit, List.flatten_append] at hends hframes
    obtain hsettled | hcuts : Settled unmarshal onCommand before.flatten
        (before.flatten ++ after.flatten) ∨ _ := settled_or_cuts hends hframes hlong
    · rwa [hsplit, List.flatten_append]
    · exact h before after hsplit (by rwa [hsplit, List.flatten_append])

end

/-- A command with all required fields. -/
def exampleCommand : Command Unit where
  commandID := "1"
  type := "DISABLE_USER"
  targetRevision := "1"
  payload := some ()

/-- The JSON text of `exampleCommand`. -/
def exampleText : Bytes :=
  ascii "\x7b\"commandId\":\"1\",\"type\":\"DISABLE_USER\"," ++
    ascii "\"targetRevision\":\"1\",\"payload\":\x7b\x7d\x7d"

/-- Knows one text only. -/
def exampleUnmarshal (text : Bytes) : Option (Command Unit) :=
  if text = exampleText then some exampleCommand else none

/-- A command whose line ends are cut is called. -/
theorem called_iff_pieces :
    Called exampleUnmarshal (fun _ => true)
      [ascii "data: ", exampleText ++ [13], [10, 13, 10]] := by
  refine (called_iff _ _ _ (by decide +kernel) (by decide +kernel)).2
    fun before after hsplit hcuts => ?_
  obtain ⟨frame, later, pending, -, -, hrest, hlong⟩ := hcuts
  have hlength := congrArg (fun reads => (List.flatten reads).length) hsplit
  have hkept := length_restOf_le before.flatten
  rw [List.flatten_append, List.length_append] at hlength
  rw [hrest, List.length_append] at hkept
  have hsmall : before.flatten.length ≤ 83 := by
    have htotal :
        (List.flatten [ascii "data: ", exampleText ++ [13], [10, 13, 10]]).length = 83 := by
      decide +kernel
    omega
  unfold MaxFrameBytes at hlong
  omega

/-! ## A frame of the greatest length -/

/-- A comment of `MaxFrameBytes` bytes, its blank line in two reads, and a command. -/
def longReads : List Bytes :=
  List.replicate 256 (List.replicate 4096 58) ++
    [[10], 10 :: (ascii "data:" ++ exampleText) ++ [10, 10]]

section

variable {n : Nat}

theorem not_mem_comment {c : UInt8} (hc : c ≠ 58) : c ∉ List.replicate n 58 :=
  fun hmem => hc (List.eq_of_mem_replicate hmem)

/-- A comment is no command. -/
theorem parse_comment {Payload : Type} (unmarshal : Bytes → Option (Command Payload))
    (hn : 0 < n) : ParseSSEFrame unmarshal (List.replicate n 58) = none := by
  have hfilter : (List.replicate n (58 : UInt8)).filter (· != 13) = List.replicate n 58 := by
    rw [List.filter_replicate, if_pos (by decide)]
  have hsplit : (List.replicate n (58 : UInt8)).splitOn 10 = [List.replicate n 58] :=
    List.splitOn_eq_singleton (not_mem_comment (by decide))
  have hevent : cutPrefix (ascii "event:") (List.replicate n 58) = none := by
    obtain ⟨m, rfl⟩ := Nat.exists_eq_succ_of_ne_zero (Nat.ne_of_gt hn)
    rfl
  have hdata : cutPrefix (ascii "data:") (List.replicate n 58) = none := by
    obtain ⟨m, rfl⟩ := Nat.exists_eq_succ_of_ne_zero (Nat.ne_of_gt hn)
    rfl
  rw [ParseSSEFrame, hfilter, hsplit]
  simp [collectData, hevent, hdata]

theorem framesOf_comment (t : Bytes) :
    framesOf (List.replicate n 58 ++ 10 :: 10 :: t) = List.replicate n 58 :: framesOf t := by
  have hunix : unixLines (List.replicate n 58 ++ 10 :: 10 :: t) =
      List.replicate n 58 ++ 10 :: 10 :: unixLines t := by
    rw [unixLines_append (not_mem_comment (by decide)), unixLines_cons (by simp),
      unixLines_cons (by simp)]
  have hcut : cutBlank (List.replicate n 58 ++ 10 :: 10 :: unixLines t) =
      some (List.replicate n 58, unixLines t) := by
    rw [cutBlank_of_not_mem (not_mem_comment (by decide))]
    simp [cutBlank]
  rw [framesOf, hunix, frames_of_some hcut]
  rfl

/-- With one of the two line ends, the comment is kept. -/
theorem frames_unfinished_comment :
    frames (unixLines (List.replicate n 58 ++ [10])) = ([], List.replicate n 58 ++ [10]) := by
  have hunix : unixLines (List.replicate n 58 ++ [10]) = List.replicate n 58 ++ [10] := by
    rw [unixLines_append (not_mem_comment (by decide))]
    rfl
  have hcut : cutBlank (List.replicate n 58 ++ [10]) = none := by
    rw [cutBlank_of_not_mem (not_mem_comment (by decide))]
    rfl
  rw [hunix, frames_of_none hcut]

end

theorem flatten_comment : (List.replicate 256 (List.replicate 4096 (58 : UInt8))).flatten =
    List.replicate MaxFrameBytes 58 := List.flatten_replicate_replicate

/-- The command behind a comment of the greatest length is lost. -/
theorem longReads_lose_command :
    wholeLineEnds longReads.flatten = true ∧
      (∀ frame ∈ framesOf longReads.flatten, frame.length ≤ MaxFrameBytes) ∧
      (∀ read ∈ longReads, read.length ≤ 4096) ∧
      ¬ Called exampleUnmarshal (fun _ => true) longReads := by
  have hmax : 0 < MaxFrameBytes := by decide
  have hflatten : longReads.flatten =
      List.replicate MaxFrameBytes 58 ++
      10 :: 10 :: (ascii "data:" ++ exampleText ++ [10, 10]) := by
    rw [longReads, List.flatten_append, flatten_comment]
    rfl
  have hframes : framesOf longReads.flatten =
      [List.replicate MaxFrameBytes 58, ascii "data:" ++ exampleText] := by
    have hlast : framesOf (ascii "data:" ++ exampleText ++ [10, 10]) =
      [ascii "data:" ++ exampleText] := by decide +kernel
    rw [hflatten, framesOf_comment, hlast]
  have hends : wholeLineEnds longReads.flatten = true := by
    rw [hflatten, wholeLineEnds_append_of_not_mem (not_mem_comment (by decide))]
    decide +kernel
  refine ⟨hends, ?_, ?_, fun hcalled => ?_⟩
  · rw [hframes]
    intro frame hframe
    obtain rfl | hframe := List.mem_cons.1 hframe
    · exact Nat.le_of_eq List.length_replicate
    · obtain rfl := List.mem_singleton.1 hframe
      decide
  · intro read hread
    obtain hread | hread := List.mem_append.1 hread
    · obtain rfl := List.eq_of_mem_replicate hread
      exact Nat.le_of_eq List.length_replicate
    · simp only [List.mem_cons, List.not_mem_nil, or_false] at hread
      obtain rfl | rfl := hread <;> decide
  · -- The reader gives up after the first of the two line ends.
    have hread := (called_iff_rest hends).1 hcalled
      (List.replicate 256 (List.replicate 4096 58) ++ [[10]])
      [10 :: (ascii "data:" ++ exampleText) ++ [10, 10]] (by rw [longReads, List.append_assoc]; rfl)
    have hfirst : (List.replicate 256 (List.replicate 4096 (58 : UInt8)) ++ [[10]]).flatten =
        List.replicate MaxFrameBytes 58 ++ [10] := by
      rw [List.flatten_append, flatten_comment]
      rfl
    rw [hfirst] at hread
    have hsettled := hread (by
      rw [restOf, frames_unfinished_comment, List.length_append, List.length_replicate]
      exact Nat.lt_succ_self _)
    have hnone : commandsOf exampleUnmarshal
        (List.replicate MaxFrameBytes 58 ++ [10]) = [] := by
      rw [commandsOf, framesOf, frames_unfinished_comment]
      rfl
    have hone : commandsOf exampleUnmarshal longReads.flatten = [exampleCommand] := by
      rw [commandsOf, hframes, List.filterMap_cons, parse_comment _ hmax]
      decide +kernel
    rw [Settled, hnone, hone] at hsettled
    simp [accepts] at hsettled

end ChordV.Agent.EventStream
