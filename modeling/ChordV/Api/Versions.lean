import ChordV.Lib.Fallible
import ChordV.Lib.SemVer

/-!
# Versions of the release center

* `normalizeVersion` accepts a version string and strips a leading `v`, and `compareSemver`
  orders two of them.
* `normalizeVersion_idem`: a normalized version is accepted as it is.  `Version` is the type of
  normalized versions; what the release center stores are such.
* `precedence` is the order that `compareSemver` computes.  It is a total preorder, and
  `compareSemver_eq` says that two accepted strings are never refused.
-/

namespace ChordV.Api.Versions

open Lib Lib.Js Lib.SemVer

/-- The exceptions of the release center, with their messages. -/
inductive Exception where
  | badRequest (message : String)
  | notFound (message : String)
  | conflict (message : String)
deriving DecidableEq, Repr

/-! ## Reading versions -/

/-- `/^(0|[1-9]\d*)$/`. -/
def isCoreNumber (s : Text) : Bool := isDigits s && (s == ['0'] || s.head? != some '0')

/-- `/^[0-9A-Za-z-]+$/`. -/
def isIdentifier (s : Text) : Bool := !s.isEmpty && s.all fun c => c.isAlphanum || c == '-'

/-- `/^[0-9A-Za-z-]+(?:\.[0-9A-Za-z-]+)*$/`. -/
def areIdentifiers (s : Text) : Bool := (s.splitOn '.').all isIdentifier

/-- The groups of `STRICT_SEMVER_PATTERN`. -/
def strictSemver (s : Text) : Option Groups :=
  groups isCoreNumber areIdentifiers areIdentifiers (dropLowerV s)

/-- Removes what `/^v(?=\d)/i` matches. -/
def dropV : Text → Text
  | v :: c :: s => if (v == 'v' || v == 'V') && c.isDigit then c :: s else v :: c :: s
  | s => s

/-- The error for a text that is no version. -/
def malformed : Exception := .badRequest "版本号必须使用 SemVer 格式，例如 1.2.3 或 1.2.3-beta.1。"

/-- Without blanks and `v`, if it is a version. -/
def normalizeVersion (value : Text) : Except Exception Text :=
  let normalized := dropV (trim value)
  if normalized.isEmpty then .error (.badRequest "版本号不能为空")
  else if (strictSemver normalized).isNone then .error malformed
  else .ok normalized

/-- What `parseSemver` returns: the three numbers, and the prerelease or an empty string. -/
structure Semver where
  core : List Nat
  prerelease : Text
deriving DecidableEq, Repr

/-- The parts of a version. -/
def parseSemver (value : Text) : Except Exception Semver := do
  let normalized ← normalizeVersion value
  match strictSemver normalized with
  | none => .error malformed
  | some g =>
    return { core := [decimal g.major, decimal g.minor, decimal g.patch]
             prerelease := g.prerelease.getD [] }

/-! ## Comparing versions -/

/-- Numeric identifiers are integers of any size, others are compared by code units. -/
def compareIdentifier (left right : Text) : Ordering :=
  if isDigits left != isDigits right then if isDigits left then .lt else .gt
  else if isDigits left && isDigits right then compare (decimal left) (decimal right)
  else compare left right

/-- The result of `compareSemver` by its sign. -/
def precedence (left right : Semver) : Ordering :=
  (List.compareLex compare left.core right.core).then <|
    if left.prerelease = right.prerelease then .eq
    else if left.prerelease.isEmpty then .gt
    else if right.prerelease.isEmpty then .lt
    else List.compareLex compareIdentifier
      (left.prerelease.splitOn '.') (right.prerelease.splitOn '.')

/-- Compares two versions, or fails on a text that is none. -/
def compareSemver (left right : Text) : Except Exception Ordering := do
  let leftParts ← parseSemver left
  let rightParts ← parseSemver right
  return precedence leftParts rightParts

/-! ## Normalized versions -/

theorem dropV_of_head {s : Text} (h : ∀ c ∈ s.head?, c.isDigit = true) : dropV s = s := by
  cases s with
  | nil => rfl
  | cons v s =>
    cases s with
    | nil => rfl
    | cons c s =>
      have hv : v.isDigit = true := h v rfl
      have hne : (v == 'v' || v == 'V') = false := by
        simp only [Bool.or_eq_false_iff, beq_eq_false_iff_ne]
        constructor <;> rintro rfl <;> exact absurd hv (by decide)
      simp [dropV, hne]

theorem dropLowerV_of_head {s : Text} (h : ∀ c ∈ s.head?, c.isDigit = true) :
    dropLowerV s = s := by
  cases s with
  | nil => rfl
  | cons v s =>
    have hv : v.isDigit = true := h v rfl
    unfold dropLowerV
    split
    · rename_i heq
      obtain ⟨rfl, rfl⟩ := List.cons.inj heq
      exact absurd hv (by decide)
    · rfl

theorem normalizeVersion_eq_ok {value normalized : Text} :
    normalizeVersion value = .ok normalized ↔
      dropV (trim value) = normalized ∧ normalized ≠ [] ∧ (strictSemver normalized).isSome := by
  unfold normalizeVersion
  constructor
  · intro h
    simp only at h
    split_ifs at h with hempty hnone
    obtain rfl := Except.ok.inj h
    refine ⟨rfl, by simpa using hempty, ?_⟩
    simpa [Option.isSome_iff_ne_none] using hnone
  · rintro ⟨rfl, hne, hsome⟩
    have hnone : ¬ (strictSemver (dropV (trim value))).isNone = true := by
      simpa [Option.isSome_iff_ne_none] using hsome
    simp only [if_neg hnone, List.isEmpty_iff, if_neg hne]

/-- The groups of an accepted text, and the text they are read from. -/
theorem strictSemver_eq_some {s : Text} {g : Groups} (h : strictSemver s = some g) :
    g.render = dropLowerV s ∧ isCoreNumber g.major = true ∧ isCoreNumber g.minor = true ∧
      isCoreNumber g.patch = true ∧ g.prerelease.all areIdentifiers = true ∧
      g.build.all areIdentifiers = true := by
  obtain ⟨-, -, -, hparts⟩ := groups_eq_some.1 h
  exact ⟨render_of_groups h, hparts⟩

theorem isDigits_of_isCoreNumber {s : Text} (h : isCoreNumber s = true) : isDigits s = true :=
  (Bool.and_eq_true_iff.1 h).1

/-- An accepted text without a leading `v` starts with a digit. -/
theorem head_of_strictSemver {s : Text} {g : Groups} (h : strictSemver s = some g) :
    ∀ c ∈ (dropLowerV s).head?, c.isDigit = true := by
  obtain ⟨hrender, hmajor, -⟩ := strictSemver_eq_some h
  have hdigits := isDigits_of_isCoreNumber hmajor
  obtain ⟨d, ds, hd⟩ := List.exists_cons_of_ne_nil (ne_nil_of_isDigits hdigits)
  intro c hc
  obtain rfl : d = c := by simpa [← hrender, Groups.render, hd] using hc
  exact isDigit_of_isDigits hdigits d (hd ▸ List.mem_cons_self)

theorem isIdentifier_char {s : Text} (h : isIdentifier s = true) {c : Char} (hc : c ∈ s) :
    (c.isAlphanum || c == '-') = true :=
  List.all_eq_true.1 (Bool.and_eq_true_iff.1 h).2 c hc

theorem not_isBlank_of_isIdentifier {s : Text} (h : isIdentifier s = true) :
    ∀ c ∈ s, isBlank c = false := by
  intro c hc
  obtain halnum | hdash := Bool.or_eq_true_iff.1 (isIdentifier_char h hc)
  · exact not_isBlank_of_isAlphanum halnum
  · exact beq_iff_eq.1 hdash ▸ by decide

theorem not_isBlank_of_areIdentifiers {s : Text} (h : areIdentifiers s = true) :
    ∀ c ∈ s, isBlank c = false := by
  intro c hc
  by_cases hdot : c = '.'
  · exact hdot ▸ by decide
  · obtain ⟨t, ht, hct⟩ := exists_mem_splitOn hc hdot
    exact not_isBlank_of_isIdentifier (List.all_eq_true.1 h t ht) c hct

theorem not_isBlank_of_isCoreNumber {s : Text} (h : isCoreNumber s = true) :
    ∀ c ∈ s, isBlank c = false := by
  intro c hc
  have hrange := toNat_of_isDigit (isDigit_of_isDigits (isDigits_of_isCoreNumber h) c hc)
  exact not_isBlank_of_ascii (by omega) (by omega)

/-- No character of an accepted text is blank. -/
theorem not_isBlank_of_strictSemver {s : Text} {g : Groups} (h : strictSemver s = some g) :
    ∀ c ∈ dropLowerV s, isBlank c = false := by
  obtain ⟨hrender, hmajor, hminor, hpatch, hpre, hbuild⟩ := strictSemver_eq_some h
  intro c hc
  rw [← hrender] at hc
  simp only [Groups.render, List.mem_append, List.mem_cons] at hc
  rcases hc with ((hc | rfl | hc | rfl | hc) | hc) | hc
  · exact not_isBlank_of_isCoreNumber hmajor c hc
  · decide
  · exact not_isBlank_of_isCoreNumber hminor c hc
  · decide
  · exact not_isBlank_of_isCoreNumber hpatch c hc
  · cases hp : g.prerelease with
    | none => simp [hp] at hc
    | some p =>
      rw [hp] at hc hpre
      obtain rfl | hc := List.mem_cons.1 hc
      · decide
      · exact not_isBlank_of_areIdentifiers hpre c hc
  · cases hb : g.build with
    | none => simp [hb] at hc
    | some b =>
      rw [hb] at hc hbuild
      obtain rfl | hc := List.mem_cons.1 hc
      · decide
      · exact not_isBlank_of_areIdentifiers hbuild c hc

theorem separators_of_isCoreNumber {s : Text} (h : isCoreNumber s = true) :
    '.' ∉ s ∧ '-' ∉ s ∧ '+' ∉ s := by
  have hdigit := isDigit_of_isDigits (isDigits_of_isCoreNumber h)
  refine ⟨fun hmem => ?_, fun hmem => ?_, fun hmem => ?_⟩ <;>
    exact absurd (hdigit _ hmem) (by decide)

theorem not_mem_of_areIdentifiers {s : Text} (h : areIdentifiers s = true) : '+' ∉ s := by
  intro hmem
  obtain ⟨t, ht, hct⟩ := exists_mem_splitOn hmem (by decide : '+' ≠ '.')
  exact absurd (isIdentifier_char (List.all_eq_true.1 h t ht) hct) (by decide)

/-- What `dropV` leaves does not start with a `v` and a digit. -/
theorem dropV_spec (s : Text) :
    (∃ c t, dropV s = c :: t ∧ c.isDigit = true) ∨
      ∀ c t, dropV s = 'v' :: c :: t → c.isDigit = false := by
  unfold dropV
  split
  · rename_i v c t
    split_ifs with hv
    · exact .inl ⟨c, t, rfl, (Bool.and_eq_true_iff.1 hv).2⟩
    · refine .inr fun c' t' heq => ?_
      simp only [List.cons.injEq] at heq
      obtain ⟨rfl, rfl, rfl⟩ := heq
      simpa using hv
  · rename_i hne
    exact .inr fun c t heq => absurd heq (hne _ _ _)

/-- A normalized version starts with a digit, so a second reading strips nothing. -/
theorem head_of_normalizeVersion {value normalized : Text}
    (h : normalizeVersion value = .ok normalized) :
    ∀ c ∈ normalized.head?, c.isDigit = true := by
  obtain ⟨hdrop, hne, hsome⟩ := normalizeVersion_eq_ok.1 h
  obtain ⟨g, hg⟩ := Option.isSome_iff_exists.1 hsome
  have hhead := head_of_strictSemver hg
  obtain ⟨c, t, heq, hdigit⟩ | hv := dropV_spec (trim value)
  · rw [hdrop] at heq
    simpa [heq] using hdigit
  · rw [hdrop] at hv
    intro c hc
    cases normalized with
    | nil => exact absurd rfl hne
    | cons x t =>
      obtain rfl : x = c := by simpa using hc
      by_cases hx : x = 'v'
      · -- The pattern would have stripped the letter, and what follows it is a digit.
        subst hx
        obtain ⟨hrender, hmajor, -⟩ := strictSemver_eq_some hg
        cases t with
        | nil =>
          obtain ⟨d, ds, hd⟩ :=
            List.exists_cons_of_ne_nil (ne_nil_of_isDigits (isDigits_of_isCoreNumber hmajor))
          simp [dropLowerV, Groups.render, hd] at hrender
        | cons d t =>
          have hd : d.isDigit = true := hhead d (by simp [dropLowerV])
          exact absurd hd (by simp [hv d t rfl])
      · refine hhead x ?_
        unfold dropLowerV
        split
        · rename_i heq
          exact absurd (List.cons.inj heq).1 hx
        · rfl

/-- No character of a normalized version is blank. -/
theorem not_isBlank_of_normalizeVersion {value normalized : Text}
    (h : normalizeVersion value = .ok normalized) : ∀ c ∈ normalized, isBlank c = false := by
  obtain ⟨-, -, hsome⟩ := normalizeVersion_eq_ok.1 h
  obtain ⟨g, hg⟩ := Option.isSome_iff_exists.1 hsome
  have hblank := not_isBlank_of_strictSemver hg
  rwa [dropLowerV_of_head (head_of_normalizeVersion h)] at hblank

theorem trim_of_normalizeVersion {value normalized : Text}
    (h : normalizeVersion value = .ok normalized) : trim normalized = normalized :=
  trim_of_forall (not_isBlank_of_normalizeVersion h)

/-- A normalized version is accepted as it is. -/
theorem normalizeVersion_idem {value normalized : Text}
    (h : normalizeVersion value = .ok normalized) :
    normalizeVersion normalized = .ok normalized := by
  have hhead := head_of_normalizeVersion h
  obtain ⟨-, hne, hsome⟩ := normalizeVersion_eq_ok.1 h
  have htrim := trim_of_normalizeVersion h
  exact normalizeVersion_eq_ok.2 ⟨by rw [htrim, dropV_of_head hhead], hne, hsome⟩

/-- A text that writes good parts is accepted as it is. -/
theorem normalizeVersion_render {g : Groups} (hmajor : isCoreNumber g.major = true)
    (hminor : isCoreNumber g.minor = true) (hpatch : isCoreNumber g.patch = true)
    (hpre : g.prerelease.all areIdentifiers = true) (hbuild : g.build.all areIdentifiers = true) :
    strictSemver g.render = some g ∧ normalizeVersion g.render = .ok g.render := by
  have hdigits := isDigits_of_isCoreNumber hmajor
  have hhead : ∀ c ∈ g.render.head?, c.isDigit = true := by
    obtain ⟨d, ds, hd⟩ := List.exists_cons_of_ne_nil (ne_nil_of_isDigits hdigits)
    intro c hc
    obtain rfl : d = c := by simpa [Groups.render, hd] using hc
    exact isDigit_of_isDigits hdigits d (hd ▸ List.mem_cons_self)
  have hstrict : strictSemver g.render = some g := by
    rw [strictSemver, dropLowerV_of_head hhead]
    exact groups_render (fun t ht => separators_of_isCoreNumber ht)
      (fun t ht => not_mem_of_areIdentifiers ht) hmajor hminor hpatch hpre hbuild
  have hblank := not_isBlank_of_strictSemver hstrict
  rw [dropLowerV_of_head hhead] at hblank
  have htrim : trim g.render = g.render := trim_eq_self
    (fun c hc => hblank c (List.mem_of_mem_head? hc))
    (fun c hc => hblank c (List.mem_of_mem_getLast? hc))
  refine ⟨hstrict, normalizeVersion_eq_ok.2 ⟨by rw [htrim, dropV_of_head hhead], ?_, by
    simp [hstrict]⟩⟩
  simp [Groups.render]

/-- The texts that `normalizeVersion` returns. -/
abbrev Version := { s : Text // normalizeVersion s = .ok s }

/-- `normalizeVersion`, with what is known of its result. -/
def readVersion (value : Text) : Except Exception Version :=
  match h : normalizeVersion value with
  | .ok normalized => .ok ⟨normalized, normalizeVersion_idem h⟩
  | .error e => .error e

theorem parseSemver_of_normalizeVersion {value normalized : Text}
    (h : normalizeVersion value = .ok normalized) :
    ∃ g, strictSemver normalized = some g ∧
      parseSemver value = .ok ⟨[decimal g.major, decimal g.minor, decimal g.patch],
        g.prerelease.getD []⟩ := by
  obtain ⟨-, -, hsome⟩ := normalizeVersion_eq_ok.1 h
  obtain ⟨g, hg⟩ := Option.isSome_iff_exists.1 hsome
  exact ⟨g, hg, by simp [parseSemver, h, hg]⟩

/-- A stored version has its parts. -/
def Version.semver (v : Version) : Semver :=
  match parseSemver v.1 with
  | .ok parts => parts
  | .error _ => ⟨[], []⟩

theorem Version.parseSemver (v : Version) : parseSemver v.1 = .ok v.semver := by
  obtain ⟨g, -, hparse⟩ := parseSemver_of_normalizeVersion v.2
  simp [semver, hparse]

/-! ## The order of versions -/

/-- The order of identifiers compares keys: numbers before texts. -/
theorem compareIdentifier_eq (left right : Text) :
    compareIdentifier left right =
      ((compareOn (fun s => !isDigits s) left right).then
        ((compareOn (fun s => if isDigits s then decimal s else 0) left right).then
          (compareOn (fun s => if isDigits s then [] else s) left right))) := by
  unfold compareIdentifier compareOn
  cases hl : isDigits left <;> cases hr : isDigits right <;> simp [hl, hr] <;> rfl

instance : Std.TransCmp compareIdentifier := by
  have heq : compareIdentifier = compareLex (compareOn fun s => !isDigits s)
      (compareLex (compareOn fun s => if isDigits s then decimal s else 0)
        (compareOn fun s => if isDigits s then [] else s)) := by
    funext left right
    exact compareIdentifier_eq left right
  rw [heq]
  infer_instance

/-- The order of versions compares keys too: a version without prerelease comes last. -/
theorem precedence_eq (left right : Semver) :
    precedence left right =
      (List.compareLex compare left.core right.core).then
        ((compareOn (fun s : Semver => s.prerelease.isEmpty) left right).then
          (List.compareLex compareIdentifier
            (left.prerelease.splitOn '.') (right.prerelease.splitOn '.'))) := by
  unfold precedence
  congr 1
  simp only [compareOn]
  by_cases heq : left.prerelease = right.prerelease
  · have hself : List.compareLex compareIdentifier (right.prerelease.splitOn '.')
        (right.prerelease.splitOn '.') = .eq := Std.ReflCmp.compare_self
    rw [if_pos heq, heq, hself, Std.ReflOrd.compare_self]
    rfl
  · rw [if_neg heq]
    cases hl : left.prerelease with
    | nil =>
      cases hr : right.prerelease with
      | nil => exact absurd (hl.trans hr.symm) heq
      | cons c t => rfl
    | cons c t => cases hr : right.prerelease <;> rfl

/-- Comparing images is as good as the comparison. -/
theorem transCmp_comap {α β : Type} (cmp : β → β → Ordering) [Std.TransCmp cmp] (f : α → β) :
    Std.TransCmp fun left right => cmp (f left) (f right) where
  eq_swap {a b} := @Std.OrientedCmp.eq_swap _ cmp _ (f a) (f b)
  isLE_trans {a b c} := @Std.TransCmp.isLE_trans _ cmp _ (f a) (f b) (f c)

instance : Std.TransCmp precedence := by
  have heq : precedence =
      compareLex (fun l r => List.compareLex compare l.core r.core)
        (compareLex (compareOn fun s : Semver => s.prerelease.isEmpty)
          (fun l r => List.compareLex compareIdentifier
            (l.prerelease.splitOn '.') (r.prerelease.splitOn '.'))) := by
    funext left right
    exact precedence_eq left right
  have hcore := transCmp_comap (List.compareLex compare) Semver.core
  have hpre := transCmp_comap (List.compareLex compareIdentifier)
    fun s : Semver => s.prerelease.splitOn '.'
  rw [heq]
  infer_instance

theorem precedence_self (a : Semver) : precedence a a = .eq := Std.ReflCmp.compare_self

theorem precedence_swap (a b : Semver) : precedence a b = (precedence b a).swap :=
  Std.OrientedCmp.eq_swap

/-- Two accepted strings are compared by the versions in them. -/
theorem compareSemver_eq {left right : Text} {l r : Semver} (hl : parseSemver left = .ok l)
    (hr : parseSemver right = .ok r) : compareSemver left right = .ok (precedence l r) := by
  simp [compareSemver, hl, hr]

/-- Stored versions are compared without a refusal. -/
theorem Version.compareSemver (v w : Version) :
    compareSemver v.1 w.1 = .ok (precedence v.semver w.semver) :=
  compareSemver_eq v.parseSemver w.parseSemver

end ChordV.Api.Versions
