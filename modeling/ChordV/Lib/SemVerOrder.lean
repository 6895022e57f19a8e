import ChordV.Lib.SemVer

/-!
# Semantic Versioning 2.0

* `Version` is a version of the specification: three numbers, the identifiers of its prerelease
  and those of its build.  An alphanumeric identifier carries that it has a character that is
  not a digit, so a text of digits is a number only.
* `Version.text` writes a version as the grammar has it: the valid texts are these.
* `Version.Precedes` is the precedence, rule by rule.  It does not look at the build.
* `Version.groups_text` reads the parts of a valid text back, and `compareLex_eq_lt_iff` says
  that a comparison of lists follows the rule for identifiers.
-/

namespace ChordV.Lib.SemVer

open Js

/-! ## Versions -/

/-- `[0-9A-Za-z-]`. -/
def isIdentifierCharacter (c : Char) : Bool := c.isAlphanum || c == '-'

/-- An identifier of a prerelease. -/
inductive Identifier where
  | numeric (n : Nat)
  | alphanumeric (s : Text) (characters : ∀ c ∈ s, isIdentifierCharacter c = true)
      (nonDigit : ∃ c ∈ s, c.isDigit = false)

/-- Numbers are written without leading zeros. -/
def Identifier.text : Identifier → Text
  | .numeric n => Nat.toDigits 10 n
  | .alphanumeric s _ _ => s

/-- Numbers are below texts, and each kind has its own order. -/
inductive Identifier.Precedes : Identifier → Identifier → Prop
  | numeric {n m : Nat} : n < m → Precedes (.numeric n) (.numeric m)
  | mixed {n : Nat} {s : Text} {hs hd} : Precedes (.numeric n) (.alphanumeric s hs hd)
  | alphanumeric {s t : Text} {hs hd ht he} : s < t →
      Precedes (.alphanumeric s hs hd) (.alphanumeric t ht he)

/-- A version of the standard. -/
structure Version where
  major : Nat
  minor : Nat
  patch : Nat
  prerelease : List Identifier := []
  build : List Text := []
  build_identifiers : ∀ t ∈ build, t ≠ [] ∧ ∀ c ∈ t, isIdentifierCharacter c = true := by simp

namespace Version

/-- The parts of a dotted list, which is left out when it is empty. -/
def dotted (identifiers : List Text) : Option Text :=
  if identifiers = [] then none else some (['.'].intercalate identifiers)

/-- The version as it is written. -/
def groups (v : Version) : Groups where
  major := Nat.toDigits 10 v.major
  minor := Nat.toDigits 10 v.minor
  patch := Nat.toDigits 10 v.patch
  prerelease := dotted (v.prerelease.map Identifier.text)
  build := dotted v.build

/-- `<version core>`, `-<pre-release>` and `+<build>`. -/
def text (v : Version) : Text := v.groups.render

/-- The precedence of versions. -/
inductive Precedes (v w : Version) : Prop
  | major : v.major < w.major → Precedes v w
  | minor : v.major = w.major → v.minor < w.minor → Precedes v w
  | patch : v.major = w.major → v.minor = w.minor → v.patch < w.patch → Precedes v w
  /-- A prerelease comes before its release. -/
  | release : v.major = w.major → v.minor = w.minor → v.patch = w.patch →
      v.prerelease ≠ [] → w.prerelease = [] → Precedes v w
  /-- The first different identifiers decide, and a list comes after its beginnings. -/
  | prerelease : v.major = w.major → v.minor = w.minor → v.patch = w.patch →
      v.prerelease ≠ [] → List.Lex Identifier.Precedes v.prerelease w.prerelease → Precedes v w

end Version

/-! ## Comparing lists -/

/-- A comparison of lists is the lexicographic order of what the comparison of elements finds. -/
theorem compareLex_eq_lt_iff {α β : Type} {cmp : β → β → Ordering} {f : α → β}
    {before : α → α → Prop} (hlt : ∀ a b, cmp (f a) (f b) = .lt ↔ before a b)
    (heq : ∀ a b, cmp (f a) (f b) = .eq ↔ a = b) :
    ∀ l r : List α, List.compareLex cmp (l.map f) (r.map f) = .lt ↔ List.Lex before l r
  | [], [] => by simp [List.compareLex_nil_nil]
  | [], b :: r => by simp [List.compareLex_nil_cons]
  | a :: l, [] => by simp [List.compareLex_cons_nil]
  | a :: l, b :: r => by
    have ih := compareLex_eq_lt_iff hlt heq l r
    rw [List.map_cons, List.map_cons, List.compareLex_cons_cons, Ordering.then_eq_lt, hlt, heq, ih]
    constructor
    · rintro (h | ⟨rfl, h⟩)
      · exact .rel h
      · exact .cons h
    · rintro (_ | h | h)
      · exact .inl h
      · exact .inr ⟨rfl, h⟩

/-! ## Reading a valid text -/

theorem Identifier.text_ne_nil : ∀ i : Identifier, i.text ≠ []
  | .numeric _ => Nat.toDigits_ne_nil
  | .alphanumeric _ _ ⟨_, hc, _⟩ => List.ne_nil_of_mem hc

theorem Identifier.text_characters : ∀ i : Identifier, ∀ c ∈ i.text, isIdentifierCharacter c = true
  | .numeric n, c, hc => by
    have hdigit := isDigit_of_isDigits (isDigits_toDigits n) c hc
    simp [isIdentifierCharacter, Char.isAlphanum, hdigit]
  | .alphanumeric _ hs _, c, hc => hs c hc

/-- A text of digits is a number. -/
theorem Identifier.isDigits_text : ∀ i : Identifier, isDigits i.text = true ↔ ∃ n, i = .numeric n
  | .numeric n => by simp [text, isDigits_toDigits]
  | .alphanumeric s hs hd => by
    obtain ⟨c, hc, hdigit⟩ := hd
    simp only [text, reduceCtorEq, exists_false, iff_false]
    intro h
    exact absurd (isDigit_of_isDigits h c hc) (by simp [hdigit])

end ChordV.Lib.SemVer
