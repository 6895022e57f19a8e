import ChordV.Api.Versions
import ChordV.Lib.SemVerOrder

/-!
# `compareSemver` is the precedence of Semantic Versioning

* `parseSemver_text`: a version of the specification is accepted, and read as its parts.
* `precedence_lt_iff`: on such versions `precedence` is the precedence of the specification.
* `parseSemver_v` and `parseSemver_build`: a leading `v` and the build change nothing.
* `IsPrecedence` is what a comparison of version strings has to be, and `newest_of_sorted` says
  that a sorted list then starts with a version that no other one is above.
-/

namespace ChordV.Api.Versions

open Lib Lib.Js

/-! ## Versions of the specification -/

theorem isCoreNumber_toDigits (n : Nat) : isCoreNumber (Nat.toDigits 10 n) = true := by
  rw [isCoreNumber, isDigits_toDigits, Bool.true_and]
  obtain rfl | hn := Nat.eq_zero_or_pos n
  · rfl
  · simp [head_toDigits hn]

theorem isIdentifier_of_characters {s : Text} (hne : s ≠ [])
    (h : ∀ c ∈ s, SemVer.isIdentifierCharacter c = true) : isIdentifier s = true := by
  have hall : s.all (fun c => c.isAlphanum || c == '-') = true := List.all_eq_true.2 h
  rw [isIdentifier, hall]
  simpa using hne

theorem not_mem_of_isIdentifier {s : Text} (h : isIdentifier s = true) : '.' ∉ s :=
  fun hmem => absurd (isIdentifier_char h hmem) (by decide)

/-- A dotted list of identifiers is split into them again. -/
theorem splitOn_dotted {identifiers : List Text} (hne : identifiers ≠ [])
    (h : ∀ t ∈ identifiers, isIdentifier t = true) :
    (['.'].intercalate identifiers).splitOn '.' = identifiers :=
  List.splitOn_intercalate '.' (fun t ht => not_mem_of_isIdentifier (h t ht)) hne

theorem areIdentifiers_dotted {identifiers : List Text}
    (h : ∀ t ∈ identifiers, isIdentifier t = true) :
    (SemVer.Version.dotted identifiers).all areIdentifiers = true := by
  unfold SemVer.Version.dotted
  split_ifs with hne
  · rfl
  · rw [Option.all_some, areIdentifiers, splitOn_dotted hne h]
    exact List.all_eq_true.2 h

theorem isIdentifier_text (i : SemVer.Identifier) : isIdentifier i.text = true :=
  isIdentifier_of_characters i.text_ne_nil i.text_characters

theorem isIdentifier_map_text (identifiers : List SemVer.Identifier) :
    ∀ t ∈ identifiers.map SemVer.Identifier.text, isIdentifier t = true := by
  intro t ht
  obtain ⟨i, -, rfl⟩ := List.mem_map.1 ht
  exact isIdentifier_text i

/-- What `parseSemver` reads from a version of the specification. -/
def semverOf (v : SemVer.Version) : Semver :=
  ⟨[v.major, v.minor, v.patch], v.groups.prerelease.getD []⟩

/-- A version of the specification is accepted. -/
theorem parseSemver_text (v : SemVer.Version) : parseSemver v.text = .ok (semverOf v) := by
  have hpre : v.groups.prerelease.all areIdentifiers = true :=
    areIdentifiers_dotted (isIdentifier_map_text v.prerelease)
  have hbuild : v.groups.build.all areIdentifiers = true := areIdentifiers_dotted fun t ht =>
    isIdentifier_of_characters (v.build_identifiers t ht).1 (v.build_identifiers t ht).2
  obtain ⟨hstrict, hnormalize⟩ := normalizeVersion_render (isCoreNumber_toDigits v.major)
    (isCoreNumber_toDigits v.minor) (isCoreNumber_toDigits v.patch) hpre hbuild
  obtain ⟨g, hg, hparse⟩ := parseSemver_of_normalizeVersion hnormalize
  obtain rfl : v.groups = g := Option.some.inj (hstrict.symm.trans hg)
  rw [SemVer.Version.text, hparse, semverOf]
  simp only [SemVer.Version.groups, decimal_toDigits]

/-! ## The precedence of the specification -/

/-- Texts are ordered by their characters. -/
theorem compare_text_lt (s t : Text) : compare s t = .lt ↔ s < t := by
  have hlt : ∀ a b : Char, compare (id a) (id b) = .lt ↔ a < b :=
    fun _ _ => compareOfLessAndEq_eq_lt
  have heq : ∀ a b : Char, compare (id a) (id b) = .eq ↔ a = b :=
    fun _ _ => Std.LawfulEqOrd.compare_eq_iff_eq
  have h := SemVer.compareLex_eq_lt_iff hlt heq s t
  rwa [List.map_id, List.map_id] at h

/-- The comparison of identifiers, by their kinds. -/
theorem compareIdentifier_text (i j : SemVer.Identifier) :
    compareIdentifier i.text j.text =
      match i, j with
      | .numeric n, .numeric m => compare n m
      | .numeric _, .alphanumeric .. => .lt
      | .alphanumeric .., .numeric _ => .gt
      | .alphanumeric s .., .alphanumeric t .. => compare s t := by
  have hnumeric : ∀ n, isDigits (SemVer.Identifier.numeric n).text = true := isDigits_toDigits
  have hother : ∀ s hs hd, isDigits (SemVer.Identifier.alphanumeric s hs hd).text = false := by
    intro s hs hd
    rw [Bool.eq_false_iff, ne_eq, SemVer.Identifier.isDigits_text]
    simp
  unfold compareIdentifier
  cases i <;> cases j <;> simp only [hnumeric, hother] <;>
    simp [SemVer.Identifier.text, decimal_toDigits]

theorem compareIdentifier_text_eq (i j : SemVer.Identifier) :
    compareIdentifier i.text j.text = .eq ↔ i = j := by
  rw [compareIdentifier_text]
  cases i <;> cases j <;> simp

theorem compareIdentifier_text_lt (i j : SemVer.Identifier) :
    compareIdentifier i.text j.text = .lt ↔ i.Precedes j := by
  rw [compareIdentifier_text]
  constructor
  · intro h
    cases i with
    | numeric n =>
      cases j with
      | numeric m => exact .numeric (Nat.compare_eq_lt.1 h)
      | alphanumeric t ht hd => exact .mixed
    | alphanumeric s hs hd =>
      cases j with
      | numeric m => cases h
      | alphanumeric t ht he => exact .alphanumeric ((compare_text_lt s t).1 h)
  · rintro (hlt | _ | hlt)
    · exact Nat.compare_eq_lt.2 hlt
    · rfl
    · exact (compare_text_lt _ _).2 hlt

/-- The rule for prereleases. -/
theorem compareLex_text_lt (l r : List SemVer.Identifier) :
    List.compareLex compareIdentifier (l.map SemVer.Identifier.text)
      (r.map SemVer.Identifier.text) = .lt ↔ List.Lex SemVer.Identifier.Precedes l r :=
  SemVer.compareLex_eq_lt_iff compareIdentifier_text_lt compareIdentifier_text_eq l r

theorem splitOn_prerelease {v : SemVer.Version} (h : v.prerelease ≠ []) :
    ((semverOf v).prerelease.splitOn '.') = v.prerelease.map SemVer.Identifier.text := by
  have hne : v.prerelease.map SemVer.Identifier.text ≠ [] := by simpa using h
  have hpre : (semverOf v).prerelease =
      ['.'].intercalate (v.prerelease.map SemVer.Identifier.text) := by
    simp [semverOf, SemVer.Version.groups, SemVer.Version.dotted, h]
  rw [hpre, splitOn_dotted hne (isIdentifier_map_text _)]

/-- A version is a release if its prerelease is empty. -/
theorem isEmpty_prerelease (v : SemVer.Version) :
    (semverOf v).prerelease.isEmpty = true ↔ v.prerelease = [] := by
  constructor
  · intro h
    by_contra hne
    have hsplit := splitOn_prerelease hne
    rw [List.isEmpty_iff.1 h] at hsplit
    obtain ⟨i, rest, hcons⟩ := List.exists_cons_of_ne_nil hne
    rw [hcons, List.map_cons] at hsplit
    exact i.text_ne_nil (List.cons.inj hsplit).1.symm
  · intro h
    simp [semverOf, SemVer.Version.groups, SemVer.Version.dotted, h]

/-- The rules for versions with the same numbers. -/
theorem comparePrerelease_lt (v w : SemVer.Version) :
    (compareOn (fun s : Semver => s.prerelease.isEmpty) (semverOf v) (semverOf w)).then
        (List.compareLex compareIdentifier ((semverOf v).prerelease.splitOn '.')
          ((semverOf w).prerelease.splitOn '.')) = .lt ↔
      v.prerelease ≠ [] ∧
        (w.prerelease = [] ∨ List.Lex SemVer.Identifier.Precedes v.prerelease w.prerelease) := by
  by_cases hv : v.prerelease = []
  · have hvEmpty := (isEmpty_prerelease v).2 hv
    by_cases hw : w.prerelease = []
    · have hwEmpty := (isEmpty_prerelease w).2 hw
      simp [compareOn, hv, List.isEmpty_iff.1 hvEmpty, List.isEmpty_iff.1 hwEmpty,
        Std.ReflCmp.compare_self]
    · have hwEmpty : (semverOf w).prerelease.isEmpty = false :=
        Bool.eq_false_iff.2 fun h => hw ((isEmpty_prerelease w).1 h)
      have hgt : compare true false = .gt := rfl
      simp [compareOn, hvEmpty, hwEmpty, hv, hgt]
  · have hvEmpty : (semverOf v).prerelease.isEmpty = false :=
      Bool.eq_false_iff.2 fun h => hv ((isEmpty_prerelease v).1 h)
    by_cases hw : w.prerelease = []
    · have hwEmpty := (isEmpty_prerelease w).2 hw
      have hlt : compare false true = .lt := rfl
      simp [compareOn, hvEmpty, hwEmpty, hv, hw, hlt]
    · have hwEmpty : (semverOf w).prerelease.isEmpty = false :=
        Bool.eq_false_iff.2 fun h => hw ((isEmpty_prerelease w).1 h)
      simp [compareOn, hvEmpty, hwEmpty, hv, hw, splitOn_prerelease, compareLex_text_lt]

/-- On versions of the specification, `precedence` is their precedence. -/
theorem precedence_lt_iff (v w : SemVer.Version) :
    precedence (semverOf v) (semverOf w) = .lt ↔ v.Precedes w := by
  have hcore : ∀ u : SemVer.Version, (semverOf u).core = [u.major, u.minor, u.patch] := fun _ => rfl
  rw [precedence_eq, Ordering.then_eq_lt, comparePrerelease_lt, hcore, hcore]
  simp only [List.compareLex_cons_cons, List.compareLex_nil_nil, Ordering.then_eq_lt,
    Ordering.then_eq_eq, Nat.compare_eq_lt, Nat.compare_eq_eq, and_true, reduceCtorEq, and_false,
    or_false]
  constructor
  · rintro ((h | ⟨hmajor, h | ⟨hminor, h⟩⟩) | ⟨⟨hmajor, hminor, hpatch⟩, hv, hw | hlex⟩)
    · exact .major h
    · exact .minor hmajor h
    · exact .patch hmajor hminor h
    · exact .release hmajor hminor hpatch hv hw
    · exact .prerelease hmajor hminor hpatch hv hlex
  · intro h
    cases h with
    | major h => exact .inl (.inl h)
    | minor hmajor h => exact .inl (.inr ⟨hmajor, .inl h⟩)
    | patch hmajor hminor h => exact .inl (.inr ⟨hmajor, .inr ⟨hminor, h⟩⟩)
    | release hmajor hminor hpatch hv hw => exact .inr ⟨⟨hmajor, hminor, hpatch⟩, hv, .inl hw⟩
    | prerelease hmajor hminor hpatch hv hlex =>
      exact .inr ⟨⟨hmajor, hminor, hpatch⟩, hv, .inr hlex⟩

/-! ## What the comparison ignores -/

/-- Both letters are stripped from an accepted version. -/
theorem normalizeVersion_v {value normalized : Text} (h : normalizeVersion value = .ok normalized)
    {v : Char} (hv : v = 'v' ∨ v = 'V') : normalizeVersion (v :: normalized) = .ok normalized := by
  have hhead := head_of_normalizeVersion h
  obtain ⟨-, hne, hsome⟩ := normalizeVersion_eq_ok.1 h
  have hblank := not_isBlank_of_normalizeVersion h
  have htrim : trim (v :: normalized) = v :: normalized := by
    refine trim_of_forall fun c hc => ?_
    obtain rfl | hc := List.mem_cons.1 hc
    · obtain rfl | rfl := hv <;> decide
    · exact hblank c hc
  have hdrop : dropV (v :: normalized) = normalized := by
    obtain ⟨d, rest, rfl⟩ := List.exists_cons_of_ne_nil hne
    obtain rfl | rfl := hv <;> simp [dropV, hhead d rfl]
  exact normalizeVersion_eq_ok.2 ⟨by rw [htrim, hdrop], hne, hsome⟩

/-- What stands before the build. -/
def withoutBuild (normalized : Text) : Text := (cut (· == '+') normalized).1

/-- A version is accepted without its build, and its parts are the same. -/
theorem parseSemver_withoutBuild {value normalized : Text}
    (h : normalizeVersion value = .ok normalized) :
    normalizeVersion (withoutBuild normalized) = .ok (withoutBuild normalized) ∧
      parseSemver (withoutBuild normalized) = parseSemver value := by
  obtain ⟨g, hg, hparse⟩ := parseSemver_of_normalizeVersion h
  obtain ⟨hrender, hmajor, hminor, hpatch, hpre, -⟩ := strictSemver_eq_some hg
  rw [dropLowerV_of_head (head_of_normalizeVersion h)] at hrender
  obtain ⟨hstrict, hnormalize⟩ := normalizeVersion_render (g := { g with build := none })
    hmajor hminor hpatch hpre rfl
  have hwithout : withoutBuild normalized = SemVer.Groups.render { g with build := none } := by
    have hplus : '+' ∉ SemVer.Groups.render { g with build := none } := by
      have hprePlus : '+' ∉ g.prerelease.elim [] ('-' :: ·) := by
        cases hp : g.prerelease with
        | none => simp
        | some p =>
          rw [hp] at hpre
          simp [not_mem_of_areIdentifiers hpre]
      simp only [SemVer.Groups.render, List.mem_append, List.mem_cons, Option.elim_none,
        List.not_mem_nil, or_false, not_or]
      exact ⟨⟨(separators_of_isCoreNumber hmajor).2.2, by decide,
        (separators_of_isCoreNumber hminor).2.2, by decide,
        (separators_of_isCoreNumber hpatch).2.2⟩, hprePlus⟩
    have hsplit : normalized = SemVer.Groups.render { g with build := none } ++
        g.build.elim [] ('+' :: ·) := by
      rw [← hrender]
      simp [SemVer.Groups.render]
    rw [withoutBuild, hsplit, SemVer.cut_elim hplus]
  obtain ⟨g', hg', hparse'⟩ := parseSemver_of_normalizeVersion hnormalize
  obtain rfl := Option.some.inj (hstrict.symm.trans hg')
  rw [hwithout, hparse, hparse']
  exact ⟨hnormalize, rfl⟩

/-! ## The order -/

/-- The text is a version. -/
def Accepted (value : Text) : Prop := ∃ normalized, normalizeVersion value = .ok normalized

theorem Accepted.parse {value : Text} (h : Accepted value) : ∃ v, parseSemver value = .ok v := by
  obtain ⟨normalized, hnormalize⟩ := h
  obtain ⟨g, -, hparse⟩ := parseSemver_of_normalizeVersion hnormalize
  exact ⟨_, hparse⟩

/-- A comparison that is not refused compares two accepted versions. -/
theorem compareSemver_eq_ok {left right : Text} {o : Ordering} :
    compareSemver left right = .ok o ↔
      ∃ l r, parseSemver left = .ok l ∧ parseSemver right = .ok r ∧ precedence l r = o := by
  constructor
  · intro h
    obtain ⟨l, hl, h⟩ := Fallible.bind_eq_ok.1 h
    obtain ⟨r, hr, h⟩ := Fallible.bind_eq_ok.1 h
    exact ⟨l, r, hl, hr, Except.ok.inj h⟩
  · rintro ⟨l, r, hl, hr, rfl⟩
    exact compareSemver_eq hl hr

/-- A version of the list that none of the list is above. -/
structure Newest (versions : List Text) (newest : Text) : Prop where
  mem : newest ∈ versions
  above : ∀ version ∈ versions, ∃ o, compareSemver version newest = .ok o ∧ o.isLE = true

/-- Sorted from the newest on. -/
def Sorted (versions : List Text) : Prop :=
  versions.Pairwise fun a b => ∃ o, compareSemver b a = .ok o ∧ o.isLE = true

/-- What a comparison of version strings has to be. -/
structure IsPrecedence (compare : Text → Text → Except Exception Ordering) : Prop where
  refl : ∀ a, Accepted a → compare a a = .ok .eq
  swap : ∀ a b, Accepted a → Accepted b → ∃ o, compare a b = .ok o ∧ compare b a = .ok o.swap
  trans : ∀ a b c o o', compare a b = .ok o → compare b c = .ok o' → o.isLE = true →
    o'.isLE = true → compare a c = .ok (o.then o')
  v : ∀ a normalized, normalizeVersion a = .ok normalized → ∀ v ∈ ['v', 'V'], ∀ b,
    compare (v :: normalized) b = compare a b ∧ compare b (v :: normalized) = compare b a
  build : ∀ a normalized, normalizeVersion a = .ok normalized → ∀ b,
    compare (withoutBuild normalized) b = compare a b ∧
      compare b (withoutBuild normalized) = compare b a
  specification : ∀ v w : SemVer.Version, ∃ o, compare v.text w.text = .ok o ∧
    (o = .lt ↔ v.Precedes w) ∧ (o = .gt ↔ w.Precedes v)

theorem compareSemver_trans {a b c : Text} {o o' : Ordering} (hab : compareSemver a b = .ok o)
    (hbc : compareSemver b c = .ok o') (ho : o.isLE = true) (ho' : o'.isLE = true) :
    compareSemver a c = .ok (o.then o') := by
  obtain ⟨l, m, hl, hm, rfl⟩ := compareSemver_eq_ok.1 hab
  obtain ⟨m', r, hm', hr, rfl⟩ := compareSemver_eq_ok.1 hbc
  obtain rfl := Except.ok.inj (hm.symm.trans hm')
  rw [compareSemver_eq hl hr]
  congr 1
  cases hlm : precedence l m with
  | lt => rw [Std.TransCmp.lt_of_lt_of_isLE hlm ho', Ordering.lt_then]
  | eq => rw [Std.TransCmp.congr_left hlm, Ordering.eq_then]
  | gt =>
    rw [hlm] at ho
    cases ho

/-- The first version is not below the second. -/
def AtLeast (later earlier : Text) : Prop :=
  ∃ o, compareSemver later earlier = .ok o ∧ o.isGE = true

theorem AtLeast.trans {a b c : Text} (hab : AtLeast a b) (hbc : AtLeast b c) : AtLeast a c := by
  obtain ⟨o, hab, ho⟩ := hab
  obtain ⟨o', hbc, ho'⟩ := hbc
  obtain ⟨l, m, hl, hm, rfl⟩ := compareSemver_eq_ok.1 hab
  obtain ⟨m', r, hm', hr, rfl⟩ := compareSemver_eq_ok.1 hbc
  obtain rfl := Except.ok.inj (hm.symm.trans hm')
  exact ⟨_, compareSemver_eq hl hr, Std.TransCmp.isGE_trans ho ho'⟩

/-- A comparison with a text reads its parts alone. -/
theorem compareSemver_congr {a a' : Text} (h : parseSemver a = parseSemver a') (b : Text) :
    compareSemver a b = compareSemver a' b ∧ compareSemver b a = compareSemver b a' := by
  simp [compareSemver, h]

theorem parseSemver_v {value normalized : Text} (h : normalizeVersion value = .ok normalized)
    {v : Char} (hv : v = 'v' ∨ v = 'V') : parseSemver (v :: normalized) = parseSemver value := by
  simp only [parseSemver, normalizeVersion_v h hv, h]

theorem isPrecedence : IsPrecedence compareSemver where
  refl a ha := by
    obtain ⟨v, hv⟩ := ha.parse
    rw [compareSemver_eq hv hv, precedence_self]
  swap a b ha hb := by
    obtain ⟨v, hv⟩ := ha.parse
    obtain ⟨w, hw⟩ := hb.parse
    exact ⟨_, compareSemver_eq hv hw, by rw [compareSemver_eq hw hv, precedence_swap w v]⟩
  trans a b c o o' hab hbc ho ho' := compareSemver_trans hab hbc ho ho'
  v a normalized h v hv b := compareSemver_congr (parseSemver_v h (by simpa using hv)) b
  build a normalized h b := compareSemver_congr (parseSemver_withoutBuild h).2 b
  specification v w := by
    refine ⟨_, compareSemver_eq (parseSemver_text v) (parseSemver_text w),
      precedence_lt_iff v w, ?_⟩
    rw [← precedence_lt_iff w v, precedence_swap (semverOf v), Ordering.swap_eq_gt]

/-! ## Sorting -/

/-- The parts of an accepted text. -/
def semverOrNone (value : Text) : Semver := (parseSemver value).toOption.getD ⟨[], []⟩

/-- Accepted texts can be sorted. -/
theorem exists_sorted {versions : List Text} (h : ∀ version ∈ versions, Accepted version) :
    ∃ sorted, sorted.Perm versions ∧ Sorted sorted := by
  let le (a b : Text) : Bool := (precedence (semverOrNone b) (semverOrNone a)).isLE
  have htrans : ∀ a b c : Text, le a b = true → le b c = true → le a c = true :=
    fun a b c hab hbc => Std.TransCmp.isLE_trans hbc hab
  have htotal : ∀ a b : Text, (le a b || le b a) = true := by
    intro a b
    simp only [le]
    rw [precedence_swap (semverOrNone a)]
    cases precedence (semverOrNone b) (semverOrNone a) <;> rfl
  refine ⟨versions.mergeSort le, List.mergeSort_perm versions le, ?_⟩
  refine (List.pairwise_mergeSort htrans htotal versions).imp_of_mem fun {a b} ha hb hle => ?_
  obtain ⟨v, hv⟩ := (h a (List.mem_mergeSort.1 ha)).parse
  obtain ⟨w, hw⟩ := (h b (List.mem_mergeSort.1 hb)).parse
  simp only [le, semverOrNone, hv, hw, Except.toOption, Option.getD_some] at hle
  exact ⟨_, compareSemver_eq hw hv, hle⟩

/-- A sorted list starts with a newest version. -/
theorem newest_of_sorted {versions sorted : List Text} (hne : versions ≠ [])
    (h : ∀ version ∈ versions, Accepted version) (hperm : sorted.Perm versions)
    (hsorted : Sorted sorted) : ∃ newest, sorted.head? = some newest ∧ Newest versions newest := by
  cases sorted with
  | nil => exact absurd hperm.nil_eq.symm hne
  | cons newest rest =>
    refine ⟨newest, rfl, hperm.mem_iff.1 List.mem_cons_self, fun version hversion => ?_⟩
    obtain rfl | hrest := List.mem_cons.1 (hperm.mem_iff.2 hversion)
    · exact ⟨.eq, isPrecedence.refl version (h version hversion), rfl⟩
    · exact (List.pairwise_cons.1 hsorted).1 version hrest

/-- Two newest versions have the same precedence. -/
theorem Newest.eq {versions : List Text} {a b : Text} (ha : Newest versions a)
    (hb : Newest versions b) : compareSemver a b = .ok .eq := by
  obtain ⟨o, hab, ho⟩ := hb.above a ha.mem
  obtain ⟨o', hba, ho'⟩ := ha.above b hb.mem
  obtain ⟨l, r, hl, hr, rfl⟩ := compareSemver_eq_ok.1 hab
  rw [compareSemver_eq hr hl, precedence_swap] at hba
  obtain rfl := Except.ok.inj hba
  rw [hab]
  cases hlr : precedence l r <;> simp [hlr] at ho ho' ⊢

/-- `compareSemver` is the precedence of Semantic Versioning, and sorting by it finds a newest
version. -/
theorem compareSemver_precedence :
    IsPrecedence compareSemver ∧
      ∀ versions : List Text, versions ≠ [] → (∀ version ∈ versions, Accepted version) →
        (∃ sorted, sorted.Perm versions ∧ Sorted sorted) ∧
        (∀ sorted : List Text, sorted.Perm versions → Sorted sorted →
          ∃ newest, sorted.head? = some newest ∧ Newest versions newest) ∧
        ∀ a b, Newest versions a → Newest versions b → compareSemver a b = .ok .eq :=
  ⟨isPrecedence, fun _ hne h => ⟨exists_sorted h,
    fun _ hperm hsorted => newest_of_sorted hne h hperm hsorted, fun _ _ ha hb => ha.eq hb⟩⟩

end ChordV.Api.Versions
