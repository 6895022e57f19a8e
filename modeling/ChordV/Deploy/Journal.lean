import ChordV.Lib.Json
import Mathlib.Tactic.Common

/-!
# The journals of the supervisor

The two journals through which an operation reaches the backend supervisor and survives a
restart: `pending.json`, which the app stages, and `promoting.json`, which the supervisor
writes with `write_promoting`.  Both are read by `parse_journal`.

* `Journal` is the record of the fields.  `kind` is `none` for the empty `GEN_KIND`, which
  only a writer can have.
* `parseJournal` is the reader: the JSON text, the types of the fields and the relations
  between them (`Journal.Accepted`).
* `renderPromoting` is the template of `write_promoting`.
* `parseJournal_renderPromoting`: a journal without characters that need an escape is read
  back exactly when it is accepted, and nothing else is ever read from it.
-/

namespace ChordV.Deploy

open ChordV.Lib

/-! ## The fields -/

/-- What an operation asks for. -/
inductive Kind where
  | update
  | rollback
  | restart
  deriving DecidableEq, Repr

/-- The text of a kind in a journal. -/
def Kind.text : Kind → Text
  | .update => "update".toList
  | .rollback => "rollback".toList
  | .restart => "restart".toList

/-- The kind a text stands for. -/
def kindOf (text : Text) : Option Kind :=
  [Kind.update, .rollback, .restart].find? fun k => k.text = text

/-- The text of `GEN_KIND`. -/
def kindText : Option Kind → Text
  | some k => k.text
  | none => []

/-- The file a journal is read from. -/
inductive Source where
  | pending
  | promoting
  deriving DecidableEq, Repr

/-- The fields of a journal. -/
structure Journal where
  version : Text
  operationId : Text
  kind : Option Kind
  migrationApplied : Bool
  rollbackFrom : Text
  failureVersion : Text
  failureReason : Text
  deriving DecidableEq, Repr

/-! ## The checks of the reader -/

/-- The white space that `trim` removes. -/
def isBlank (c : Char) : Bool :=
  let n := c.toNat
  (9 ≤ n && n ≤ 13) || n == 32 || n == 0xA0 || n == 0x1680 || (0x2000 ≤ n && n ≤ 0x200A) ||
    n == 0x2028 || n == 0x2029 || n == 0x202F || n == 0x205F || n == 0x3000 || n == 0xFEFF

/-- `value.trim() === value`. -/
def isTrimmed (value : Text) : Bool :=
  !value.head?.any isBlank && !value.getLast?.any isBlank

/-- Splits a text at the first occurrence of a character. -/
def cut (c : Char) (text : Text) : Text × Option Text :=
  match text.dropWhile (· != c) with
  | [] => (text, none)
  | _ :: back => (text.takeWhile (· != c), some back)

/-- `0|[1-9]\d*` -/
def numericIdentifier : Text → Bool
  | [] => false
  | ['0'] => true
  | c :: cs => c.isDigit && c != '0' && cs.all Char.isDigit

/-- `[0-9A-Za-z-]` -/
def isIdentifierChar (c : Char) : Bool := c.isAlphanum || c == '-'

/-- `[0-9A-Za-z-]+(?:\.[0-9A-Za-z-]+)*` -/
def identifiers (text : Text) : Bool :=
  (text.splitOn '.').all fun part => !part.isEmpty && part.all isIdentifierChar

/-- Three numbers with dots between them. -/
def versionCore (text : Text) : Bool :=
  (text.splitOn '.').length == 3 && (text.splitOn '.').all numericIdentifier

/-- The pattern of a version: the core, a pre-release behind `-` and a build behind `+`.  The
plus sign is cut off first, since a pre-release has none. -/
def versionPattern (value : Text) : Bool :=
  let (main, build) := cut '+' value
  let (core, pre) := cut '-' main
  versionCore core && pre.all identifiers && build.all identifiers

/-- `safeVersion` -/
def safeVersion (value : Text) : Bool := isTrimmed value && versionPattern value

/-- `/^[A-Za-z0-9][A-Za-z0-9_-]*$/` -/
def operationPattern : Text → Bool
  | [] => false
  | c :: cs => c.isAlphanum && cs.all fun c => isIdentifierChar c || c == '_'

/-- The test on `operationId`. -/
def safeOperation (value : Text) : Bool := isTrimmed value && operationPattern value

/-- No character of `/["\\\x00-\x1f\x7f]/` occurs. -/
def safeReason (reason : Text) : Bool := Plain reason && reason.all fun c => c.toNat != 0x7F

/-- `a || b` of two strings. -/
def orElse (a b : Text) : Text := if a = [] then b else a

/-- The tests of `parse_journal` on the fields once they have the right types. -/
structure Journal.Accepted (source : Source) (j : Journal) : Prop where
  version : safeVersion j.version = true
  operation : safeOperation j.operationId = true
  kind : j.kind.isSome = true
  rollback : j.rollbackFrom ≠ [] → safeVersion j.rollbackFrom = true ∧
    j.kind = some .rollback ∧ j.rollbackFrom ≠ j.version
  failure : j.failureVersion ≠ [] → safeVersion j.failureVersion = true ∧
    j.failureVersion = orElse j.rollbackFrom j.version
  both : j.failureVersion = [] ↔ j.failureReason = []
  reason : safeReason j.failureReason = true
  pending : source = .pending →
    j.rollbackFrom = [] ∧ j.failureVersion = [] ∧ j.failureReason = []

/-- The tests as one condition. -/
theorem Journal.accepted_iff (source : Source) (j : Journal) : j.Accepted source ↔
    safeVersion j.version = true ∧ safeOperation j.operationId = true ∧ j.kind.isSome = true ∧
    (j.rollbackFrom ≠ [] → safeVersion j.rollbackFrom = true ∧
      j.kind = some .rollback ∧ j.rollbackFrom ≠ j.version) ∧
    (j.failureVersion ≠ [] → safeVersion j.failureVersion = true ∧
      j.failureVersion = orElse j.rollbackFrom j.version) ∧
    (j.failureVersion = [] ↔ j.failureReason = []) ∧ safeReason j.failureReason = true ∧
    (source = .pending → j.rollbackFrom = [] ∧ j.failureVersion = [] ∧ j.failureReason = []) :=
  ⟨fun ⟨h₁, h₂, h₃, h₄, h₅, h₆, h₇, h₈⟩ => ⟨h₁, h₂, h₃, h₄, h₅, h₆, h₇, h₈⟩,
    fun ⟨h₁, h₂, h₃, h₄, h₅, h₆, h₇, h₈⟩ => ⟨h₁, h₂, h₃, h₄, h₅, h₆, h₇, h₈⟩⟩

instance (source : Source) (j : Journal) : Decidable (j.Accepted source) :=
  decidable_of_iff _ (Journal.accepted_iff source j).symm

/-! ## The reader -/

/-- A member that must be a string. -/
def requiredText (key : String) (ms : List (Text × Json)) : Option Text :=
  match Json.lookup key.toList ms with
  | some (.string text) => some text
  | _ => none

/-- A member that may be missing and is a string if it is there. -/
def optionalText (key : String) (ms : List (Text × Json)) : Option Text :=
  match Json.lookup key.toList ms with
  | none => some []
  | some (.string text) => some text
  | some _ => none

/-- A member that must be a Boolean. -/
def requiredBool (key : String) (ms : List (Text × Json)) : Option Bool :=
  match Json.lookup key.toList ms with
  | some (.bool b) => some b
  | _ => none

/-- The fields of an object, if they have the right types. -/
def journalFields (ms : List (Text × Json)) : Option Journal := do
  let version ← requiredText "version" ms
  let operationId ← requiredText "operationId" ms
  let kind ← (requiredText "kind" ms).bind kindOf
  let migrationApplied ← requiredBool "migrationApplied" ms
  let rollbackFrom ← optionalText "rollbackFrom" ms
  let failureVersion ← optionalText "failureVersion" ms
  let failureReason ← optionalText "failureReason" ms
  return { version, operationId, kind := some kind, migrationApplied, rollbackFrom,
           failureVersion, failureReason }

/-- `parse_journal` -/
def parseJournal (source : Source) (text : Text) : Option Journal :=
  match Json.parse text with
  | some (.object ms) => (journalFields ms).filter fun j => decide (j.Accepted source)
  | _ => none

/-! ## The writer -/

/-- The members that the template of `write_promoting` prints. -/
def journalMembers (j : Journal) : List (Text × Scalar) :=
  [("version".toList, .string j.version), ("operationId".toList, .string j.operationId),
   ("kind".toList, .string (kindText j.kind)),
   ("migrationApplied".toList, .bool j.migrationApplied),
   ("rollbackFrom".toList, .string j.rollbackFrom),
   ("failureVersion".toList, .string j.failureVersion),
   ("failureReason".toList, .string j.failureReason)]

/-- The text that `write_promoting` commits. -/
def renderPromoting (j : Journal) : Text := renderObject (journalMembers j) ++ ['\n']

/-! ## Accepted fields need no escape -/

/-- The test of `Plain` on one character. -/
def isPlainChar (c : Char) : Bool := 32 ≤ c.toNat && c != '"' && c != '\\'

theorem plain_of_chars {text : Text} (h : ∀ c ∈ text, isPlainChar c = true) :
    Plain text = true := by
  rw [Plain, List.all_eq_true]
  exact h

theorem isPlainChar_of_isAlphanum {c : Char} (h : c.isAlphanum = true) : isPlainChar c = true := by
  have hlow : 48 ≤ c.toNat := by
    delta Char.isAlphanum Char.isAlpha Char.isUpper Char.isLower Char.isDigit at h
    simp only [Bool.or_eq_true, Bool.and_eq_true, decide_eq_true_eq, UInt32.le_iff_toNat_le,
      ge_iff_le] at h
    change ((65 ≤ c.toNat ∧ c.toNat ≤ 90) ∨ (97 ≤ c.toNat ∧ c.toNat ≤ 122)) ∨
      (48 ≤ c.toNat ∧ c.toNat ≤ 57) at h
    omega
  have hquote : c ≠ '"' := by
    rintro rfl
    exact absurd h (by decide)
  have hslash : c ≠ '\\' := by
    rintro rfl
    exact absurd h (by decide)
  simp only [isPlainChar, Bool.and_eq_true, decide_eq_true_eq, bne_iff_ne]
  exact ⟨⟨by omega, hquote⟩, hslash⟩

theorem isPlainChar_of_isIdentifierChar {c : Char} (h : isIdentifierChar c = true) :
    isPlainChar c = true := by
  simp only [isIdentifierChar, Bool.or_eq_true, beq_iff_eq] at h
  rcases h with h | rfl
  · exact isPlainChar_of_isAlphanum h
  · rfl

/-- The characters of a text are those of its parts and the separator. -/
theorem mem_intercalate {sep c : Char} : ∀ {parts : List Text}, c ∈ [sep].intercalate parts →
    c = sep ∨ ∃ part ∈ parts, c ∈ part
  | [], h => by simp at h
  | [part], h => by
    rw [List.intercalate_singleton] at h
    exact .inr ⟨part, List.mem_cons_self, h⟩
  | part :: part' :: parts, h => by
    rw [List.intercalate_cons_cons, List.append_assoc, List.mem_append, List.mem_append,
      List.mem_singleton] at h
    rcases h with h | h | h
    · exact .inr ⟨part, List.mem_cons_self, h⟩
    · exact .inl h
    · rcases mem_intercalate h with h | ⟨p, hp, hc⟩
      · exact .inl h
      · exact .inr ⟨p, List.mem_cons_of_mem _ hp, hc⟩

theorem mem_splitOn (sep : Char) {c : Char} {text : Text} (h : c ∈ text) :
    c = sep ∨ ∃ part ∈ text.splitOn sep, c ∈ part := by
  have htext : [sep].intercalate (text.splitOn sep) = text := List.intercalate_splitOn sep
  rw [← htext] at h
  exact mem_intercalate h

theorem mem_cut (sep : Char) {c : Char} {text : Text} (h : c ∈ text) :
    c ∈ (cut sep text).1 ∨ c = sep ∨ ∃ back, (cut sep text).2 = some back ∧ c ∈ back := by
  cases hdrop : text.dropWhile (· != sep) with
  | nil =>
    rw [cut, hdrop]
    exact .inl h
  | cons d back =>
    have hd : (d != sep) = false := by
      have := List.head?_dropWhile_not (· != sep) text
      rw [hdrop] at this
      simpa using this
    rw [← List.takeWhile_append_dropWhile (p := (· != sep)) (l := text), hdrop,
      List.mem_append, List.mem_cons] at h
    rw [cut, hdrop]
    rcases h with h | h | h
    · exact .inl h
    · exact .inr (.inl (h.trans (by simpa using hd)))
    · exact .inr (.inr ⟨back, rfl, h⟩)

theorem isPlainChar_of_numericIdentifier {part : Text} (h : numericIdentifier part = true) :
    ∀ c ∈ part, isPlainChar c = true := by
  intro c hc
  have hdigit : c.isDigit = true := by
    unfold numericIdentifier at h
    split at h
    · simp at hc
    · rw [List.mem_singleton.mp hc]
      rfl
    · simp only [Bool.and_eq_true, List.all_eq_true] at h
      rcases List.mem_cons.mp hc with rfl | hc
      · exact h.1.1
      · exact h.2 c hc
  exact isPlainChar_of_isAlphanum (by simp [Char.isAlphanum, hdigit])

theorem isPlainChar_of_identifiers {text : Text} (h : identifiers text = true) :
    ∀ c ∈ text, isPlainChar c = true := by
  intro c hc
  rcases mem_splitOn '.' hc with rfl | ⟨part, hpart, hc⟩
  · rfl
  · have hall := List.all_eq_true.mp h part hpart
    rw [Bool.and_eq_true] at hall
    exact isPlainChar_of_isIdentifierChar (List.all_eq_true.mp hall.2 c hc)

theorem isPlainChar_of_versionCore {text : Text} (h : versionCore text = true) :
    ∀ c ∈ text, isPlainChar c = true := by
  intro c hc
  rw [versionCore, Bool.and_eq_true] at h
  rcases mem_splitOn '.' hc with rfl | ⟨part, hpart, hc⟩
  · rfl
  · exact isPlainChar_of_numericIdentifier (List.all_eq_true.mp h.2 part hpart) c hc

/-- A version needs no escape. -/
theorem plain_of_safeVersion {value : Text} (h : safeVersion value = true) :
    Plain value = true := by
  simp only [safeVersion, versionPattern, Bool.and_eq_true] at h
  obtain ⟨-, ⟨hcore, hpre⟩, hbuild⟩ := h
  refine plain_of_chars fun c hc => ?_
  rcases mem_cut '+' hc with hc | rfl | ⟨back, hback, hc⟩
  · rcases mem_cut '-' hc with hc | rfl | ⟨back, hback, hc⟩
    · exact isPlainChar_of_versionCore hcore c hc
    · rfl
    · rw [hback] at hpre
      exact isPlainChar_of_identifiers hpre c hc
  · rfl
  · rw [hback] at hbuild
    exact isPlainChar_of_identifiers hbuild c hc

theorem ne_nil_of_safeVersion {value : Text} (h : safeVersion value = true) : value ≠ [] := by
  rintro rfl
  exact absurd h (by decide)

/-- An operation id needs no escape. -/
theorem plain_of_safeOperation {value : Text} (h : safeOperation value = true) :
    Plain value = true := by
  rw [safeOperation, Bool.and_eq_true] at h
  cases value with
  | nil => rfl
  | cons c cs =>
    have hop := h.2
    simp only [operationPattern, Bool.and_eq_true, List.all_eq_true, Bool.or_eq_true,
      beq_iff_eq] at hop
    refine plain_of_chars fun d hd => ?_
    rcases List.mem_cons.mp hd with rfl | hd
    · exact isPlainChar_of_isAlphanum hop.1
    · rcases hop.2 d hd with hd | rfl
      · exact isPlainChar_of_isIdentifierChar hd
      · rfl

theorem ne_nil_of_safeOperation {value : Text} (h : safeOperation value = true) :
    value ≠ [] := by
  rintro rfl
  exact absurd h (by decide)

theorem plain_of_safeReason {reason : Text} (h : safeReason reason = true) :
    Plain reason = true := by
  rw [safeReason, Bool.and_eq_true] at h
  exact h.1

/-! ## What is read is what was written -/

/-- No field of the journal needs an escape. -/
structure Journal.Plain (j : Journal) : Prop where
  version : Lib.Plain j.version = true
  operation : Lib.Plain j.operationId = true
  rollback : Lib.Plain j.rollbackFrom = true
  failure : Lib.Plain j.failureVersion = true
  reason : Lib.Plain j.failureReason = true

theorem plain_kindText (kind : Option Kind) : Plain (kindText kind) = true := by
  match kind with
  | none | some .update | some .rollback | some .restart => decide

theorem kindOf_kindText (kind : Option Kind) : kindOf (kindText kind) = kind := by
  match kind with
  | none | some .update | some .rollback | some .restart => decide

/-- The fields of what the template prints. -/
theorem journalFields_members (j : Journal) :
    journalFields ((journalMembers j).map fun m => (m.1, m.2.toJson)) =
      if j.kind.isSome then some j else none := by
  have hkind := kindOf_kindText j.kind
  show (kindOf (kindText j.kind)).bind (fun kind => some { j with kind := some kind }) = _
  rw [hkind]
  cases hk : j.kind with
  | none => rfl
  | some kind =>
    show some _ = some j
    rw [← hk]

/-- A journal is read back exactly when the reader accepts its fields. -/
theorem parseJournal_renderPromoting {j : Journal} (h : j.Plain) (source : Source) :
    parseJournal source (renderPromoting j) = if j.Accepted source then some j else none := by
  have hparse : Json.parse (renderPromoting j) =
      some (.object ((journalMembers j).map fun m => (m.1, m.2.toJson))) := by
    refine parse_renderObject (by simp [journalMembers]) ?_ rfl
    simp only [journalMembers, List.forall_mem_cons, List.not_mem_nil, false_implies, implies_true,
      and_true]
    exact ⟨⟨by decide, h.version⟩, ⟨by decide, h.operation⟩, ⟨by decide, plain_kindText j.kind⟩,
      ⟨by decide, trivial⟩, ⟨by decide, h.rollback⟩, ⟨by decide, h.failure⟩,
      ⟨by decide, h.reason⟩⟩
  rw [parseJournal, hparse]
  show (journalFields _).filter _ = _
  rw [journalFields_members]
  by_cases hacc : j.Accepted source
  · rw [if_pos hacc.kind, if_pos hacc, Option.filter_some, if_pos (decide_eq_true hacc)]
  · rw [if_neg hacc]
    by_cases hkind : j.kind.isSome = true
    · rw [if_pos hkind, Option.filter_some, if_neg (by simpa using hacc)]
    · rw [if_neg hkind, Option.filter_none]

/-- Nothing but the journal itself is ever read from its text. -/
theorem eq_of_parseJournal_renderPromoting {j k : Journal} (h : j.Plain) {source : Source}
    (hparse : parseJournal source (renderPromoting j) = some k) : k = j := by
  rw [parseJournal_renderPromoting h] at hparse
  split at hparse
  · exact (Option.some.inj hparse).symm
  · cases hparse

/-- What the reader returns, it has accepted. -/
theorem accepted_of_parseJournal {source : Source} {text : Text} {j : Journal}
    (h : parseJournal source text = some j) : j.Accepted source := by
  unfold parseJournal at h
  split at h
  · exact of_decide_eq_true (Option.filter_eq_some_iff.mp h).2
  · cases h

/-- An accepted journal needs no escape. -/
theorem Journal.Accepted.plain {source : Source} {j : Journal} (h : j.Accepted source) :
    j.Plain where
  version := plain_of_safeVersion h.version
  operation := plain_of_safeOperation h.operation
  rollback := by
    by_cases hr : j.rollbackFrom = []
    · rw [hr]
      rfl
    · exact plain_of_safeVersion (h.rollback hr).1
  failure := by
    by_cases hf : j.failureVersion = []
    · rw [hf]
      rfl
    · exact plain_of_safeVersion (h.failure hf).1
  reason := plain_of_safeReason h.reason

end ChordV.Deploy
