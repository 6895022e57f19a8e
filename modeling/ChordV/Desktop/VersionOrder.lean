import ChordV.Api.Versions
import ChordV.Desktop.Versions

/-!
# Client and server order versions alike, up to what the client reads as numbers

* `Alike` says that `compareVersion` and `compareSemver` agree on two accepted version strings,
  in both orders, and on their first different numbers alone.
* They do not always: the client rounds numbers to 53 bits, takes identifiers such as `1e5` for
  numbers, orders the others by collation, and does not read a capital `V`.  `ReadAlike` lists
  what has to hold, and `alike_iff` says that this is exact.
* `compareNumber_ofNat` and `compareParts_iff` are the two comparisons inside, of numbers and of
  identifiers.
-/

namespace ChordV.Desktop.Versions

open Lib Lib.Js Lib.SemVer
open Api.Versions (normalizeVersion strictSemver isCoreNumber areIdentifiers isIdentifier
  compareSemver compareIdentifier precedence Semver)

/-! ## Numbers -/

/-- A comparison of integers as numbers is right unless rounding makes them equal. -/
theorem compareNumber_ofNat {a b : Nat} :
    compareNumber (ofNat a) (ofNat b) = compare a b ↔ a = b ∨ ofNat a ≠ ofNat b := by
  constructor
  · intro h
    by_contra hno
    push Not at hno
    obtain ⟨hne, hround⟩ := hno
    have hself := ofNat_mono (le_refl a)
    rw [← hround, compareNumber, hself] at h
    exact hne (compare_eq_iff_eq.1 h.symm)
  · rintro (rfl | hne)
    · have hself := ofNat_mono (le_refl a)
      simp [compareNumber, hself]
    · obtain hlt | hlt := lt_or_gt_of_ne (fun heq : a = b => hne (congrArg ofNat heq))
      · rw [compareNumber, ofNat_mono hlt.le, ofNat_lt hne hlt.le, compare_lt_iff_lt.2 hlt]
        rfl
      · rw [compareNumber, ofNat_lt hne.symm hlt.le, compare_gt_iff_gt.2 hlt]
        rfl

/-- The first two integers that differ are different numbers. -/
def numbersAlike : List Nat → List Nat → Prop
  | a :: left, b :: right => if a = b then numbersAlike left right else ofNat a ≠ ofNat b
  | _, _ => True

/-! ## Identifiers -/

/-- The value of an identifier that is a finite number for the client. -/
def finite (part : Text) : Option Int :=
  match number part with
  | .finite units => some units
  | _ => none

section

variable (localeCompare : Text → Text → Ordering)

/-- What has to hold of the first identifiers that differ, with those after them.  The server
takes strings of digits for numbers, the client all finite numbers. -/
def identifiersAlike (l : Text) (left : List Text) (r : Text) (right : List Text) : Prop :=
  match finite l, finite r with
  | some a, some b =>
    if isDigits l && isDigits r then a ≠ b
    else if isDigits l then a < b
    else if isDigits r then b < a
    else compare l r = .lt ∧ a < b ∨ compare l r = .gt ∧ b < a
  | some _, none => isDigits l = true ∨ isDigits r = false ∧ compare l r = .lt
  | none, some _ => isDigits r = true ∨ isDigits l = false ∧ compare l r = .gt
  | none, none =>
    localeCompare l r = List.compareLex compareIdentifier (l :: left) (r :: right) ∧
      localeCompare r l = List.compareLex compareIdentifier (r :: right) (l :: left)

/-- The parts compare alike in both orders. -/
def partsAlike : List Text → List Text → Prop
  | l :: left, r :: right =>
    if l = r then partsAlike left right else identifiersAlike localeCompare l left r right
  | _, _ => True

end

theorem finite_of_isDigits {part : Text} (h : isDigits part = true) :
    finite part = match ofNat (decimal part) with
      | .finite units => some units
      | _ => none := by
  rw [finite, number_of_isDigits h]

/-- The client takes an identifier for a number where `Number` is finite. -/
theorem numericPart_eq {part : Text} (h : isIdentifier part = true) :
    numericPart part = (finite part).map .finite := by
  have hne : part ≠ [] := by
    rintro rfl
    simp [isIdentifier] at h
  have hblank := Api.Versions.not_isBlank_of_isIdentifier h
  have htrim : trim part = part := trim_eq_self
    (fun c hc => hblank c (List.mem_of_mem_head? hc))
    (fun c hc => hblank c (List.mem_of_mem_getLast? hc))
  have hempty : part.isEmpty = false := by simpa using hne
  unfold numericPart finite
  rw [htrim, hempty]
  cases number part <;> rfl

/-- Finite numbers of digit strings are ordered as the integers. -/
theorem decimal_lt_of_finite {l r : Text} {a b : Int} (hl : isDigits l = true)
    (hr : isDigits r = true) (ha : finite l = some a) (hb : finite r = some b) (h : a < b) :
    decimal l < decimal r := by
  rw [finite_of_isDigits hl] at ha
  rw [finite_of_isDigits hr] at hb
  by_contra hle
  have hmono := ofNat_mono (Nat.not_lt.1 hle)
  revert ha hb hmono
  generalize ofNat (decimal l) = x
  generalize ofNat (decimal r) = y
  intro ha hb hmono
  cases x <;> simp only [Option.some.injEq, reduceCtorEq] at ha
  cases y <;> simp only [Option.some.injEq, reduceCtorEq] at hb
  subst ha hb
  simp only [Number.lt, decide_eq_false_iff_not] at hmono
  exact hmono h

/-- A digit string beyond the finite numbers is above those that are finite. -/
theorem decimal_lt_of_not_finite {l r : Text} {a : Int} (hl : isDigits l = true)
    (hr : isDigits r = true) (ha : finite l = some a) (hb : finite r = none) :
    decimal l < decimal r := by
  rw [finite_of_isDigits hl] at ha
  rw [finite_of_isDigits hr] at hb
  by_contra hle
  have hmono := ofNat_mono (Nat.not_lt.1 hle)
  obtain ⟨n, hn⟩ | hn := ofNat_cases (decimal r)
  · rw [hn] at hb
    cases hb
  · rw [hn] at hmono
    revert ha hmono
    generalize ofNat (decimal l) = x
    intro ha hmono
    cases x <;> simp only [reduceCtorEq] at ha
    cases hmono

section

variable {localeCompare : Text → Text → Ordering} {l r : Text} {left right : List Text}

theorem compareLex_swap (left right : List Text) :
    List.compareLex compareIdentifier right left =
      (List.compareLex compareIdentifier left right).swap :=
  Std.OrientedCmp.eq_swap

/-- The head decides, unless it is two spellings of one integer. -/
theorem compareLex_of_head {o : Ordering} (h : compareIdentifier l r = o) (hne : o ≠ .eq) :
    List.compareLex compareIdentifier (l :: left) (r :: right) = o := by
  rw [List.compareLex_cons_cons, h]
  cases o <;> first | rfl | exact absurd rfl hne

/-- The order of the server at two identifiers that differ. -/
theorem compareLex_kinds (left right : List Text) (hne : l ≠ r) :
    (isDigits l = true ∧ isDigits r = true) ∨
    (isDigits l = true ∧ isDigits r = false ∧
      List.compareLex compareIdentifier (l :: left) (r :: right) = .lt) ∨
    (isDigits l = false ∧ isDigits r = true ∧
      List.compareLex compareIdentifier (l :: left) (r :: right) = .gt) ∨
    (isDigits l = false ∧ isDigits r = false ∧ compare l r ≠ .eq ∧
      List.compareLex compareIdentifier (l :: left) (r :: right) = compare l r) := by
  cases hl : isDigits l <;> cases hr : isDigits r
  · have hcompare : compare l r ≠ .eq := fun h => hne (Std.LawfulEqOrd.eq_of_compare h)
    refine .inr (.inr (.inr ⟨rfl, rfl, hcompare, compareLex_of_head ?_ hcompare⟩))
    simp [compareIdentifier, hl, hr]
  · exact .inr (.inr (.inl ⟨rfl, rfl,
      compareLex_of_head (by simp [compareIdentifier, hl, hr]) (by decide)⟩))
  · exact .inr (.inl ⟨rfl, rfl,
      compareLex_of_head (by simp [compareIdentifier, hl, hr]) (by decide)⟩)
  · exact .inl ⟨rfl, rfl⟩

/-- The order of the server at two different integers. -/
theorem compareLex_digits (left right : List Text) (hl : isDigits l = true)
    (hr : isDigits r = true) (h : decimal l < decimal r) :
    List.compareLex compareIdentifier (l :: left) (r :: right) = .lt ∧
      List.compareLex compareIdentifier (r :: right) (l :: left) = .gt := by
  have hlt : List.compareLex compareIdentifier (l :: left) (r :: right) = .lt :=
    compareLex_of_head (by simp [compareIdentifier, hl, hr, compare_lt_iff_lt.2 h]) (by decide)
  exact ⟨hlt, by rw [compareLex_swap, hlt]; rfl⟩

/-- Both read a number. -/
theorem identifiersAlike_numbers {a b : Int} (hne : l ≠ r) (hl : isIdentifier l = true)
    (hr : isIdentifier r = true) (ha : finite l = some a) (hb : finite r = some b) :
    identifiersAlike localeCompare l left r right ↔
      comparePart localeCompare l r =
          List.compareLex compareIdentifier (l :: left) (r :: right) ∧
        comparePart localeCompare r l =
          List.compareLex compareIdentifier (r :: right) (l :: left) := by
  have hclient : (comparePart localeCompare l r =
        List.compareLex compareIdentifier (l :: left) (r :: right) ∧
      comparePart localeCompare r l =
        List.compareLex compareIdentifier (r :: right) (l :: left)) ↔
      (a < b ∧ List.compareLex compareIdentifier (l :: left) (r :: right) = .lt ∨
        b < a ∧ List.compareLex compareIdentifier (l :: left) (r :: right) = .gt) := by
    rw [compareLex_swap (l :: left)]
    simp only [comparePart, numericPart_eq hl, numericPart_eq hr, ha, hb, Option.map_some,
      Number.lt, decide_eq_true_eq]
    generalize List.compareLex compareIdentifier (l :: left) (r :: right) = o
    obtain hlt | heq | hgt := lt_trichotomy a b
    · simp only [hlt, hlt.not_gt, if_true, if_false, true_and, false_and, or_false]
      cases o <;> simp
    · subst heq
      simp only [lt_irrefl, if_false, false_and, or_self]
      cases o <;> simp
    · simp only [hgt, hgt.not_gt, if_true, if_false, true_and, false_and, false_or]
      cases o <;> simp
  rw [hclient]
  simp only [identifiersAlike, ha, hb]
  obtain ⟨hdl, hdr⟩ | ⟨hdl, hdr, ho⟩ | ⟨hdl, hdr, ho⟩ | ⟨hdl, hdr, hcompare, ho⟩ :=
    compareLex_kinds left right hne
  · simp only [hdl, hdr, Bool.and_self, if_true]
    constructor
    · intro hab
      obtain hlt | hgt := lt_or_gt_of_ne hab
      · exact .inl ⟨hlt, (compareLex_digits left right hdl hdr
          (decimal_lt_of_finite hdl hdr ha hb hlt)).1⟩
      · exact .inr ⟨hgt, (compareLex_digits right left hdr hdl
          (decimal_lt_of_finite hdr hdl hb ha hgt)).2⟩
    · rintro (⟨h, -⟩ | ⟨h, -⟩)
      · exact h.ne
      · exact h.ne'
  · simp [hdl, hdr, ho]
  · simp [hdl, hdr, ho]
  · simp only [hdl, hdr, Bool.and_self, Bool.false_eq_true, if_false, ho]
    constructor <;> rintro (⟨h, h'⟩ | ⟨h, h'⟩)
    exacts [.inl ⟨h', h⟩, .inr ⟨h', h⟩, .inl ⟨h', h⟩, .inr ⟨h', h⟩]

/-- Only the first reads a number. -/
theorem identifiersAlike_number {a : Int} (hne : l ≠ r) (hl : isIdentifier l = true)
    (hr : isIdentifier r = true) (ha : finite l = some a) (hb : finite r = none) :
    (isDigits l = true ∨ isDigits r = false ∧ compare l r = .lt) ↔
      comparePart localeCompare l r =
          List.compareLex compareIdentifier (l :: left) (r :: right) ∧
        comparePart localeCompare r l =
          List.compareLex compareIdentifier (r :: right) (l :: left) := by
  rw [compareLex_swap (l :: left)]
  simp only [comparePart, numericPart_eq hl, numericPart_eq hr, ha, hb, Option.map_some,
    Option.map_none]
  obtain ⟨hdl, hdr⟩ | ⟨hdl, hdr, ho⟩ | ⟨hdl, hdr, ho⟩ | ⟨hdl, hdr, -, ho⟩ :=
    compareLex_kinds left right hne
  · have ho := (compareLex_digits left right hdl hdr
      (decimal_lt_of_not_finite hdl hdr ha hb)).1
    simp [hdl, ho]
  · simp [hdl, ho]
  · simp [hdl, hdr, ho]
  · rw [hdl, hdr, ho]
    cases compare l r <;> simp

theorem identifiersAlike_iff (hne : l ≠ r) (hl : isIdentifier l = true)
    (hr : isIdentifier r = true) :
    identifiersAlike localeCompare l left r right ↔
      comparePart localeCompare l r =
          List.compareLex compareIdentifier (l :: left) (r :: right) ∧
        comparePart localeCompare r l =
          List.compareLex compareIdentifier (r :: right) (l :: left) := by
  cases ha : finite l with
  | some a =>
    cases hb : finite r with
    | some b => exact identifiersAlike_numbers hne hl hr ha hb
    | none =>
      simp only [identifiersAlike, ha, hb]
      exact identifiersAlike_number hne hl hr ha hb
  | none =>
    cases hb : finite r with
    | some b =>
      have hcompare : compare l r = .gt ↔ compare r l = .lt := by
        rw [Std.OrientedOrd.eq_swap (a := r)]
        cases compare l r <;> simp
      simp only [identifiersAlike, ha, hb, hcompare]
      rw [identifiersAlike_number hne.symm hr hl hb ha]
      exact and_comm
    | none =>
      simp only [identifiersAlike, comparePart, numericPart_eq hl, numericPart_eq hr, ha, hb,
        Option.map_none]

/-- The loops agree in both orders exactly on identifiers that are read alike. -/
theorem compareParts_iff : ∀ {left right : List Text},
    (∀ part ∈ left, isIdentifier part = true) → (∀ part ∈ right, isIdentifier part = true) →
    (partsAlike localeCompare left right ↔
      compareParts localeCompare left right = List.compareLex compareIdentifier left right ∧
        compareParts localeCompare right left = List.compareLex compareIdentifier right left)
  | [], [], _, _ => by simp [partsAlike, compareParts, List.compareLex_nil_nil]
  | [], r :: right, _, _ => by
    simp [partsAlike, compareParts, List.compareLex_nil_cons, List.compareLex_cons_nil]
  | l :: left, [], _, _ => by
    simp [partsAlike, compareParts, List.compareLex_nil_cons, List.compareLex_cons_nil]
  | l :: left, r :: right, hleft, hright => by
    by_cases heq : l = r
    · subst heq
      have hself : compareIdentifier l l = .eq := Std.ReflCmp.compare_self
      have ih := @compareParts_iff left right
        (fun part hp => hleft part (List.mem_cons_of_mem _ hp))
        (fun part hp => hright part (List.mem_cons_of_mem _ hp))
      simpa [partsAlike, compareParts, List.compareLex_cons_cons, hself] using ih
    · simp only [partsAlike, compareParts, if_neg heq, if_neg (Ne.symm heq)]
      exact identifiersAlike_iff heq (hleft l List.mem_cons_self) (hright r List.mem_cons_self)

end

/-! ## Reading a version -/

/-- The string is written with a capital `V`. -/
def isCapital (value : Text) : Bool := (trim value).head? = some 'V'

/-- The parts of an accepted version string. -/
def acceptedGroups (value : Text) : Option Groups :=
  match normalizeVersion value with
  | .ok normalized => strictSemver normalized
  | .error _ => none

/-- The three numbers, as they are written. -/
def coreTexts (value : Text) : List Text :=
  (acceptedGroups value).elim [] fun g => [g.major, g.minor, g.patch]

/-- The three numbers. -/
def core (value : Text) : List Nat := (coreTexts value).map decimal

/-- The prerelease, if there is one. -/
def prerelease (value : Text) : Option Text := (acceptedGroups value).bind Groups.prerelease

/-- The identifiers of the prerelease. -/
def identifiers (value : Text) : List Text := (prerelease value).elim [] (·.splitOn '.')

/-- The precedence of two versions by their parts. -/
def order (left right : Text) : Ordering :=
  precedence ⟨core left, (prerelease left).getD []⟩ ⟨core right, (prerelease right).getD []⟩

theorem isDotted_of_areIdentifiers {s : Text} (h : areIdentifiers s = true) :
    isDotted s = true := by
  have hall := List.all_eq_true.1 h
  unfold isDotted
  rw [Bool.and_eq_true_iff]
  constructor
  · cases s with
    | nil => simp [areIdentifiers, isIdentifier] at h
    | cons c s => rfl
  · rw [List.all_eq_true]
    intro c hc
    by_cases hdot : c = '.'
    · simp [hdot]
    · obtain ⟨t, ht, hct⟩ := exists_mem_splitOn hc hdot
      have hchar := Api.Versions.isIdentifier_char (hall t ht) hct
      simp [hchar]

theorem groups_of_strictSemver {s : Text} {g : Groups} (h : strictSemver s = some g) :
    groups isDigits isDotted isDotted (dropLowerV s) = some g :=
  groups_mono (fun _ ht => Api.Versions.isDigits_of_isCoreNumber ht)
    (fun _ ht => isDotted_of_areIdentifiers ht) (fun _ ht => isDotted_of_areIdentifiers ht) h

/-- What `dropV` has removed. -/
theorem dropV_cases (s : Text) :
    Api.Versions.dropV s = s ∨ s = 'v' :: Api.Versions.dropV s ∨
      s = 'V' :: Api.Versions.dropV s := by
  unfold Api.Versions.dropV
  split
  · split_ifs with hv
    · obtain ⟨hv, -⟩ := Bool.and_eq_true_iff.1 hv
      obtain hv | hv := Bool.or_eq_true_iff.1 hv
      · exact .inr (.inl (by rw [beq_iff_eq.1 hv]))
      · exact .inr (.inr (by rw [beq_iff_eq.1 hv]))
    · exact .inl rfl
  · exact .inl rfl

/-- The client reads the parts of an accepted string, unless it has a capital `V`. -/
theorem parse_of_accepted {value normalized : Text}
    (h : normalizeVersion value = .ok normalized) :
    ∃ g, acceptedGroups value = some g ∧ strictSemver normalized = some g ∧
      Api.Versions.parseSemver value =
        .ok ⟨[decimal g.major, decimal g.minor, decimal g.patch], g.prerelease.getD []⟩ ∧
      parseSemver value = if isCapital value then none else
        some ⟨number g.major, number g.minor, number g.patch,
          g.prerelease.elim [] (·.splitOn '.')⟩ := by
  obtain ⟨g, hg, hparse⟩ := Api.Versions.parseSemver_of_normalizeVersion h
  have hhead := Api.Versions.head_of_normalizeVersion h
  obtain ⟨hdrop, hne, -⟩ := Api.Versions.normalizeVersion_eq_ok.1 h
  refine ⟨g, by simp [acceptedGroups, h, hg], hg, hparse, ?_⟩
  have hgroups := groups_of_strictSemver hg
  rw [Api.Versions.dropLowerV_of_head hhead] at hgroups
  obtain ⟨d, ds, hd⟩ := List.exists_cons_of_ne_nil hne
  have hdigit : d.isDigit = true := hhead d (by simp [hd])
  unfold parseSemver isCapital
  obtain hsame | hlower | hupper := dropV_cases (trim value)
  · rw [hdrop] at hsame
    rw [← hsame, Api.Versions.dropLowerV_of_head hhead, hgroups]
    have hcapital : normalized.head? ≠ some 'V' := by
      rw [hd]
      rintro ⟨⟩
      exact absurd hdigit (by decide)
    simp [hcapital]
  · rw [hdrop] at hlower
    rw [hlower]
    simp [dropLowerV, hgroups]
  · rw [hdrop] at hupper
    have hnone : groups isDigits isDotted isDotted ('V' :: normalized) = none := by
      rw [Option.eq_none_iff_forall_ne_some]
      intro g' hg'
      obtain ⟨-, -, -, hmajor, -⟩ := groups_eq_some.1 hg'
      obtain ⟨c, cs, hc⟩ := List.exists_cons_of_ne_nil (ne_nil_of_isDigits hmajor)
      have hrender := render_of_groups hg'
      rw [Groups.render, hc] at hrender
      obtain rfl : c = 'V' := (List.cons.inj hrender).1
      exact absurd (isDigit_of_isDigits hmajor 'V' (hc ▸ List.mem_cons_self)) (by decide)
    rw [hupper]
    simp [dropLowerV, hnone]

/-! ## The result -/

section

variable (localeCompare : Text → Text → Ordering)

/-- Client and server order two strings alike, either way round. -/
def Agree (left right : Text) : Prop :=
  compareSemver left right = .ok (compareVersion localeCompare left right) ∧
    compareSemver right left = .ok (compareVersion localeCompare right left)

/-- The version that has one number only. -/
def onlyMajor (number : Text) : Text := number ++ ['.', '0', '.', '0']

/-- Client and server order two versions alike, and their first different numbers alone. -/
structure Alike (left right : Text) : Prop where
  signs : Agree localeCompare left right
  antisymmetric : compareVersion localeCompare right left =
    (compareVersion localeCompare left right).swap
  numbers : ∀ shared shared' a b rest rest', coreTexts left = shared ++ a :: rest →
    coreTexts right = shared' ++ b :: rest' → shared.map decimal = shared'.map decimal →
    Agree localeCompare (onlyMajor a) (onlyMajor b)

/-- The client reads all that matters for the order of two versions as the server does. -/
structure ReadAlike (left right : Text) : Prop where
  spelling : (isCapital left || isCapital right) = true →
    localeCompare left right = order left right ∧ localeCompare right left = order right left
  numbers : numbersAlike (core left) (core right)
  identifiers : (isCapital left || isCapital right) = false → core left = core right →
    partsAlike localeCompare (identifiers left) (identifiers right)

end

section

variable {localeCompare : Text → Text → Ordering}

/-- The numbers of a list decide up to the first that differ. -/
theorem numbersAlike_iff : ∀ {left right : List Text},
    numbersAlike (left.map decimal) (right.map decimal) ↔
      ∀ shared shared' a b rest rest', left = shared ++ a :: rest →
        right = shared' ++ b :: rest' → shared.map decimal = shared'.map decimal →
        decimal a = decimal b ∨ ofNat (decimal a) ≠ ofNat (decimal b)
  | [], right => by simp [numbersAlike]
  | x :: left, [] => by simp [numbersAlike]
  | x :: left, y :: right => by
    have ih := @numbersAlike_iff left right
    by_cases hxy : decimal x = decimal y
    · simp only [List.map_cons, numbersAlike, if_pos hxy, ih]
      constructor
      · intro h shared shared' a b rest rest' hleft hright hshared
        cases shared with
        | nil =>
          obtain rfl : shared' = [] := by simpa using hshared.symm
          obtain ⟨rfl, -⟩ := List.cons.inj hleft
          obtain ⟨rfl, -⟩ := List.cons.inj hright
          exact .inl hxy
        | cons z shared =>
          cases shared' with
          | nil => simp at hshared
          | cons z' shared' =>
            exact h shared shared' a b rest rest' (List.cons.inj hleft).2 (List.cons.inj hright).2
              (List.cons.inj hshared).2
      · intro h shared shared' a b rest rest' hleft hright hshared
        exact h (x :: shared) (y :: shared') a b rest rest' (by rw [hleft]; rfl)
          (by rw [hright]; rfl) (by simp [hxy, hshared])
    · simp only [List.map_cons, numbersAlike, if_neg hxy]
      constructor
      · intro h shared shared' a b rest rest' hleft hright hshared
        cases shared with
        | nil =>
          obtain rfl : shared' = [] := by simpa using hshared.symm
          obtain ⟨rfl, -⟩ := List.cons.inj hleft
          obtain ⟨rfl, -⟩ := List.cons.inj hright
          exact .inr h
        | cons z shared =>
          cases shared' with
          | nil => simp at hshared
          | cons z' shared' =>
            have hz : decimal z = decimal z' := (List.cons.inj hshared).1
            rw [← (List.cons.inj hleft).1, ← (List.cons.inj hright).1] at hz
            exact absurd hz hxy
      · intro h
        exact (h [] [] x y left right rfl rfl rfl).resolve_left hxy

theorem isEmpty_of_areIdentifiers {s : Text} (h : areIdentifiers s = true) :
    s.isEmpty = false ∧ (s.splitOn '.').isEmpty = false := by
  have hne : s ≠ [] := by
    rintro rfl
    simp [areIdentifiers, isIdentifier] at h
  exact ⟨by simpa using hne, by simp⟩

/-- Precedence of two versions with the same numbers. -/
theorem precedence_of_core (nums : List Nat) (p q : Text) :
    precedence ⟨nums, p⟩ ⟨nums, q⟩ = if p = q then .eq else if p.isEmpty then .gt
      else if q.isEmpty then .lt else
        List.compareLex compareIdentifier (p.splitOn '.') (q.splitOn '.') := by
  have hself : List.compareLex compare nums nums = .eq := Std.ReflCmp.compare_self
  simp [precedence, hself]

theorem precedence_of_prereleases (nums : List Nat) {p q : Text}
    (hp : areIdentifiers p = true) (hq : areIdentifiers q = true) :
    precedence ⟨nums, p⟩ ⟨nums, q⟩ =
      List.compareLex compareIdentifier (p.splitOn '.') (q.splitOn '.') := by
  rw [precedence_of_core, (isEmpty_of_areIdentifiers hp).1, (isEmpty_of_areIdentifiers hq).1]
  by_cases heq : p = q
  · subst heq
    have hself : List.compareLex compareIdentifier (p.splitOn '.') (p.splitOn '.') = .eq :=
      Std.ReflCmp.compare_self
    simp [hself]
  · simp [heq]

/-- The prereleases of two accepted versions. -/
theorem comparePrerelease_iff {p q : Option Text} (hp : p.all areIdentifiers = true)
    (hq : q.all areIdentifiers = true) (nums : List Nat) :
    partsAlike localeCompare (p.elim [] (·.splitOn '.')) (q.elim [] (·.splitOn '.')) ↔
      comparePrerelease localeCompare (p.elim [] (·.splitOn '.')) (q.elim [] (·.splitOn '.')) =
          precedence ⟨nums, p.getD []⟩ ⟨nums, q.getD []⟩ ∧
        comparePrerelease localeCompare (q.elim [] (·.splitOn '.')) (p.elim [] (·.splitOn '.')) =
          precedence ⟨nums, q.getD []⟩ ⟨nums, p.getD []⟩ := by
  cases p with
  | none =>
    cases q with
    | none => simp [partsAlike, comparePrerelease, compareParts, precedence_of_core]
    | some q =>
      obtain ⟨hempty, hparts⟩ := isEmpty_of_areIdentifiers hq
      have hne : ¬ q = [] := by simpa using hempty
      simp [partsAlike, comparePrerelease, precedence_of_core, hparts, hempty, hne,
        Ne.symm hne]
  | some p =>
    obtain ⟨hempty, hparts⟩ := isEmpty_of_areIdentifiers hp
    cases q with
    | none =>
      have hne : ¬ p = [] := by simpa using hempty
      cases hsplit : p.splitOn '.' <;>
        simp [partsAlike, comparePrerelease, precedence_of_core, hempty, hne,
          Ne.symm hne, hsplit] at hparts ⊢
    | some q =>
      obtain ⟨-, hparts'⟩ := isEmpty_of_areIdentifiers hq
      have hidentifiers := @compareParts_iff localeCompare _ _
        (List.all_eq_true.1 hp) (List.all_eq_true.1 hq)
      simp [comparePrerelease, hparts, hparts', precedence_of_prereleases nums hp hq,
        precedence_of_prereleases nums hq hp, hidentifiers]

theorem numbersAlike_symm : ∀ {left right : List Nat}, numbersAlike left right →
    numbersAlike right left
  | [], [], _ | [], _ :: _, _ | _ :: _, [], _ => trivial
  | a :: left, b :: right, h => by
    unfold numbersAlike at h ⊢
    split_ifs at h ⊢ with hab hba hba
    · exact numbersAlike_symm h
    · exact absurd hab.symm hba
    · exact absurd hba.symm hab
    · exact Ne.symm h

/-- One number that is read as well as it has to be. -/
theorem compareNumber_then {a b : Nat} {left right : List Nat} {rest : Ordering}
    (h : numbersAlike (a :: left) (b :: right))
    (ih : a = b → rest = List.compareLex compare left right) :
    (compareNumber (ofNat a) (ofNat b)).then rest =
      List.compareLex compare (a :: left) (b :: right) := by
  rw [List.compareLex_cons_cons]
  by_cases hab : a = b
  · rw [compareNumber_ofNat.2 (.inl hab), ih hab]
  · simp only [numbersAlike, if_neg hab] at h
    rw [compareNumber_ofNat.2 (.inr h)]
    have hne : compare a b ≠ .eq := fun heq => hab (compare_eq_iff_eq.1 heq)
    cases hcompare : compare a b with
    | eq => exact absurd hcompare hne
    | lt => rfl
    | gt => rfl

/-- The three numbers of the client decide as those of the server. -/
theorem compareNumbers_of_alike {a b c a' b' c' : Nat}
    (h : numbersAlike [a, b, c] [a', b', c']) :
    (compareNumber (ofNat a) (ofNat a')).then ((compareNumber (ofNat b) (ofNat b')).then
        (compareNumber (ofNat c) (ofNat c'))) =
      List.compareLex compare [a, b, c] [a', b', c'] := by
  refine compareNumber_then h fun hab => ?_
  simp only [numbersAlike, if_pos hab] at h
  refine compareNumber_then h fun hbc => ?_
  simp only [if_pos hbc] at h
  rw [← Ordering.then_eq (o := compareNumber (ofNat c) (ofNat c'))]
  exact compareNumber_then h fun _ => rfl

end

/-- What both sides read of an accepted string without a capital `V`. -/
theorem reads {value normalized : Text} (h : normalizeVersion value = .ok normalized) :
    Api.Versions.parseSemver value = .ok ⟨core value, (prerelease value).getD []⟩ ∧
      (∀ text ∈ coreTexts value, isCoreNumber text = true) ∧
      (prerelease value).all areIdentifiers = true ∧
      (isCapital value = true → parseSemver value = none) ∧
      ∃ a b c, core value = [a, b, c] ∧ (isCapital value = false →
        parseSemver value = some ⟨ofNat a, ofNat b, ofNat c, identifiers value⟩) := by
  obtain ⟨g, haccepted, hg, hserver, hclient⟩ := parse_of_accepted h
  obtain ⟨-, hmajor, hminor, hpatch, hpre, -⟩ := Api.Versions.strictSemver_eq_some hg
  have hdigits := fun {s : Text} => Api.Versions.isDigits_of_isCoreNumber (s := s)
  refine ⟨by simpa [core, coreTexts, prerelease, haccepted] using hserver, ?_,
    by simpa [prerelease, haccepted] using hpre, fun hcapital => by simp [hclient, hcapital],
    decimal g.major, decimal g.minor, decimal g.patch, by simp [core, coreTexts, haccepted],
    fun hcapital => ?_⟩
  · intro text htext
    simp only [coreTexts, haccepted, Option.elim_some, List.mem_cons, List.not_mem_nil,
      or_false] at htext
    rcases htext with rfl | rfl | rfl <;> assumption
  · rw [hclient, hcapital, number_of_isDigits (hdigits hmajor),
      number_of_isDigits (hdigits hminor), number_of_isDigits (hdigits hpatch)]
    simp [identifiers, prerelease, haccepted]

theorem length_trim_le (s : Text) : (trim s).length ≤ s.length := by
  have hleft := (List.dropWhile_sublist isBlank (l := s)).length_le
  have hright :=
    (List.dropWhile_sublist isBlank (l := (s.dropWhile isBlank).reverse)).length_le
  simp only [trim, List.length_reverse] at hright ⊢
  exact hright.trans hleft

/-- A normalized string has no `V`. -/
theorem isCapital_of_normalized {value : Text} (h : normalizeVersion value = .ok value) :
    isCapital value = false := by
  have hhead := Api.Versions.head_of_normalizeVersion h
  obtain ⟨hdrop, -, -⟩ := Api.Versions.normalizeVersion_eq_ok.1 h
  have hlength := length_trim_le value
  obtain hsame | hlower | hupper := dropV_cases (trim value)
  · rw [hdrop] at hsame
    rw [isCapital, ← hsame, decide_eq_false_iff_not]
    intro hcapital
    exact absurd (hhead 'V' hcapital) (by decide)
  · rw [hdrop] at hlower
    simp [hlower] at hlength
  · rw [hdrop] at hupper
    simp [hupper] at hlength

theorem reads_onlyMajor {a : Text} (h : isCoreNumber a = true) :
    Api.Versions.parseSemver (onlyMajor a) = .ok ⟨[decimal a, 0, 0], []⟩ ∧
      parseSemver (onlyMajor a) = some ⟨ofNat (decimal a), ofNat 0, ofNat 0, []⟩ := by
  have hzero : isCoreNumber ['0'] = true := by decide
  obtain ⟨hstrict, haccepted⟩ := Api.Versions.normalizeVersion_render
    (g := ⟨a, ['0'], ['0'], none, none⟩) h hzero hzero rfl rfl
  have hrender : (Groups.mk a ['0'] ['0'] none none).render = onlyMajor a := by
    simp [Groups.render, onlyMajor]
  rw [hrender] at hstrict haccepted
  obtain ⟨g, -, hg, hserver, hclient⟩ := parse_of_accepted haccepted
  obtain rfl := Option.some.inj (hstrict.symm.trans hg)
  have hdigits : number ['0'] = ofNat 0 := number_of_isDigits (by decide)
  refine ⟨hserver, ?_⟩
  rw [hclient, isCapital_of_normalized haccepted, hdigits,
    number_of_isDigits (Api.Versions.isDigits_of_isCoreNumber h)]
  simp

section

variable {localeCompare : Text → Text → Ordering}

/-- Single numbers are compared alike unless rounding makes them equal. -/
theorem agree_onlyMajor {a b : Text} (ha : isCoreNumber a = true) (hb : isCoreNumber b = true) :
    Agree localeCompare (onlyMajor a) (onlyMajor b) ↔
      decimal a = decimal b ∨ ofNat (decimal a) ≠ ofNat (decimal b) := by
  obtain ⟨hserver, hclient⟩ := reads_onlyMajor ha
  obtain ⟨hserver', hclient'⟩ := reads_onlyMajor hb
  have hzero : compareNumber (ofNat 0) (ofNat 0) = .eq := by
    simpa using compareNumber_ofNat.2 (.inl (rfl : (0 : Nat) = 0))
  have hsemver : ∀ m n : Nat, precedence ⟨[m, 0, 0], []⟩ ⟨[n, 0, 0], []⟩ = compare m n := by
    intro m n
    have hself : List.compareLex compare [0, 0] [0, 0] = Ordering.eq := by decide
    simp [precedence, List.compareLex_cons_cons, hself]
  have hparts : comparePrerelease localeCompare [] [] = .eq := rfl
  simp only [Agree, Api.Versions.compareSemver_eq hserver hserver',
    Api.Versions.compareSemver_eq hserver' hserver, compareVersion, hclient, hclient', hsemver,
    hzero, hparts, Ordering.then_eq, Except.ok.injEq]
  rw [eq_comm, compareNumber_ofNat, eq_comm (a := compare (decimal b) _), compareNumber_ofNat,
    eq_comm (a := decimal b), ne_comm (a := ofNat (decimal b)), and_self]

/-- The numbers alone. -/
theorem numbers_iff {left right normalized normalized' : Text}
    (hl : normalizeVersion left = .ok normalized)
    (hr : normalizeVersion right = .ok normalized') :
    (∀ shared shared' a b rest rest', coreTexts left = shared ++ a :: rest →
      coreTexts right = shared' ++ b :: rest' → shared.map decimal = shared'.map decimal →
      Agree localeCompare (onlyMajor a) (onlyMajor b)) ↔
    numbersAlike (core left) (core right) := by
  obtain ⟨-, hcore, -⟩ := reads hl
  obtain ⟨-, hcore', -⟩ := reads hr
  rw [core, core, numbersAlike_iff]
  constructor <;> intro h shared shared' a b rest rest' hleft hright hshared
  all_goals
    have ha := hcore a (by simp [hleft])
    have hb := hcore' b (by simp [hright])
  · exact (agree_onlyMajor ha hb).1 (h shared shared' a b rest rest' hleft hright hshared)
  · exact (agree_onlyMajor ha hb).2 (h shared shared' a b rest rest' hleft hright hshared)

/-- The client's comparison where no string has a capital `V`. -/
theorem compareVersion_eq {left right normalized normalized' : Text}
    (hl : normalizeVersion left = .ok normalized)
    (hr : normalizeVersion right = .ok normalized')
    (hcapital : (isCapital left || isCapital right) = false)
    (halike : numbersAlike (core left) (core right)) :
    compareVersion localeCompare left right =
      (List.compareLex compare (core left) (core right)).then
        (comparePrerelease localeCompare (identifiers left) (identifiers right)) := by
  obtain ⟨hno, hno'⟩ := Bool.or_eq_false_iff.1 hcapital
  obtain ⟨-, -, -, -, a, b, c, hcore, hclient⟩ := reads hl
  obtain ⟨-, -, -, -, a', b', c', hcore', hclient'⟩ := reads hr
  rw [hcore, hcore'] at halike
  rw [compareVersion, hclient hno, hclient' hno', hcore, hcore',
    ← compareNumbers_of_alike halike]
  simp only [Ordering.then_assoc]

/-- The client's comparison where a string has a capital `V`. -/
theorem compareVersion_of_capital {left right normalized normalized' : Text}
    (hl : normalizeVersion left = .ok normalized)
    (hr : normalizeVersion right = .ok normalized')
    (hcapital : (isCapital left || isCapital right) = true) :
    compareVersion localeCompare left right = localeCompare left right := by
  obtain ⟨-, -, -, hclient, -⟩ := reads hl
  obtain ⟨-, -, -, hclient', -⟩ := reads hr
  obtain hcapital | hcapital := Bool.or_eq_true_iff.1 hcapital
  · rw [compareVersion, hclient hcapital]
  · rw [compareVersion, hclient' hcapital]
    cases parseSemver left <;> rfl

theorem agree_iff {left right normalized normalized' : Text}
    (hl : normalizeVersion left = .ok normalized)
    (hr : normalizeVersion right = .ok normalized') :
    Agree localeCompare left right ↔
      compareVersion localeCompare left right = order left right ∧
        compareVersion localeCompare right left = order right left := by
  obtain ⟨hserver, -⟩ := reads hl
  obtain ⟨hserver', -⟩ := reads hr
  simp only [Agree, Api.Versions.compareSemver_eq hserver hserver',
    Api.Versions.compareSemver_eq hserver' hserver, order, Except.ok.injEq]
  rw [eq_comm, eq_comm (a := precedence _ ⟨core left, _⟩)]

/-- Versions with different numbers, read as well as they have to be. -/
theorem compareVersion_of_core {left right normalized normalized' : Text}
    (hl : normalizeVersion left = .ok normalized)
    (hr : normalizeVersion right = .ok normalized')
    (hcapital : (isCapital left || isCapital right) = false)
    (halike : numbersAlike (core left) (core right)) (hne : core left ≠ core right) :
    compareVersion localeCompare left right = order left right := by
  have hcore : List.compareLex compare (core left) (core right) ≠ .eq :=
    fun heq => hne (Std.LawfulEqCmp.eq_of_compare heq)
  rw [compareVersion_eq hl hr hcapital halike, order, precedence]
  cases hcompare : List.compareLex compare (core left) (core right) with
  | eq => exact absurd hcompare hcore
  | lt => rfl
  | gt => rfl

/-- The prereleases decide where the numbers are equal. -/
theorem comparePrereleases_iff {left right normalized normalized' : Text}
    (hl : normalizeVersion left = .ok normalized)
    (hr : normalizeVersion right = .ok normalized')
    (hcapital : (isCapital left || isCapital right) = false) (hcore : core left = core right) :
    partsAlike localeCompare (identifiers left) (identifiers right) ↔
      compareVersion localeCompare left right = order left right ∧
        compareVersion localeCompare right left = order right left := by
  obtain ⟨-, -, hpre, -⟩ := reads hl
  obtain ⟨-, -, hpre', -⟩ := reads hr
  have hself : ∀ nums : List Nat, List.compareLex compare nums nums = .eq :=
    fun nums => Std.ReflCmp.compare_self
  have halike : ∀ nums : List Nat, numbersAlike nums nums := by
    intro nums
    induction nums with
    | nil => trivial
    | cons n nums ih => simpa [numbersAlike] using ih
  rw [compareVersion_eq hl hr hcapital (hcore ▸ halike _),
    compareVersion_eq hr hl (by rwa [Bool.or_comm]) (hcore ▸ halike _), order, order, ← hcore,
    hself]
  exact comparePrerelease_iff hpre hpre' (core left)

/-- Client and server order two accepted strings alike exactly if the client reads all that
matters as the server does. -/
theorem alike_iff {left right normalized normalized' : Text}
    (hl : normalizeVersion left = .ok normalized)
    (hr : normalizeVersion right = .ok normalized') :
    Alike localeCompare left right ↔ ReadAlike localeCompare left right := by
  have hnumbers := @numbers_iff localeCompare _ _ _ _ hl hr
  have hagree := @agree_iff localeCompare _ _ _ _ hl hr
  have hswap : order right left = (order left right).swap := Api.Versions.precedence_swap _ _
  constructor
  · intro h
    have halike := hnumbers.1 h.numbers
    obtain ⟨hsign, hsign'⟩ := hagree.1 h.signs
    refine ⟨fun hcapital => ?_, halike, fun hcapital hcore => ?_⟩
    · rw [compareVersion_of_capital hl hr hcapital] at hsign
      rw [compareVersion_of_capital hr hl (by rwa [Bool.or_comm])] at hsign'
      exact ⟨hsign, hsign'⟩
    · exact (comparePrereleases_iff hl hr hcapital hcore).2 ⟨hsign, hsign'⟩
  · rintro ⟨hspelling, halike, hidentifiers⟩
    have hsigns : compareVersion localeCompare left right = order left right ∧
        compareVersion localeCompare right left = order right left := by
      cases hcapital : isCapital left || isCapital right with
      | true =>
        rw [compareVersion_of_capital hl hr hcapital,
          compareVersion_of_capital hr hl (by rwa [Bool.or_comm])]
        exact hspelling hcapital
      | false =>
        by_cases hcore : core left = core right
        · exact (comparePrereleases_iff hl hr hcapital hcore).1 (hidentifiers hcapital hcore)
        · exact ⟨compareVersion_of_core hl hr hcapital halike hcore,
            compareVersion_of_core hr hl (by rwa [Bool.or_comm]) (numbersAlike_symm halike)
              (Ne.symm hcore)⟩
    exact ⟨hagree.2 hsigns, by rw [hsigns.1, hsigns.2, hswap], hnumbers.2 halike⟩

/-- Two prereleases of one version, the second with a `v`. -/
theorem alike_iff_prereleases :
    Alike compare "1.2.0-alpha.7".toList "v1.2.0-beta".toList := by
  have hcore : core "1.2.0-alpha.7".toList = [1, 2, 0] ∧
      core "v1.2.0-beta".toList = [1, 2, 0] := by decide +kernel
  have hidentifiers : identifiers "1.2.0-alpha.7".toList = ["alpha".toList, ['7']] ∧
      identifiers "v1.2.0-beta".toList = ["beta".toList] := by decide +kernel
  have htexts : finite "alpha".toList = none ∧ finite "beta".toList = none := by decide +kernel
  have hl : normalizeVersion "1.2.0-alpha.7".toList = .ok "1.2.0-alpha.7".toList := by
    decide +kernel
  have hr : normalizeVersion "v1.2.0-beta".toList = .ok "1.2.0-beta".toList := by decide +kernel
  refine (alike_iff hl hr).2
    ⟨fun hcapital => absurd hcapital (by decide +kernel), ?_, fun _ _ => ?_⟩
  · rw [hcore.1, hcore.2]
    simp [numbersAlike]
  · rw [hidentifiers.1, hidentifiers.2, partsAlike, if_neg (by decide), identifiersAlike,
      htexts.1, htexts.2]
    decide +kernel

/-- The server has 9007199254740993.0.0 above 9007199254740992.0.0, and the client takes them for
equal. -/
theorem rounded_not_alike :
    ¬ ∀ (localeCompare : Text → Text → Ordering) (left right normalized normalized' : Text),
      normalizeVersion left = .ok normalized → normalizeVersion right = .ok normalized' →
      Alike localeCompare left right := by
  intro h
  have hl : normalizeVersion "9007199254740993.0.0".toList =
    .ok "9007199254740993.0.0".toList := by decide +kernel
  have hr : normalizeVersion "9007199254740992.0.0".toList =
    .ok "9007199254740992.0.0".toList := by decide +kernel
  have hcore : core "9007199254740993.0.0".toList = [9007199254740993, 0, 0] ∧
      core "9007199254740992.0.0".toList = [9007199254740992, 0, 0] := by decide +kernel
  have hround : ofNat 9007199254740993 = ofNat 9007199254740992 := by decide +kernel
  have hnumbers := (numbers_iff hl hr).1 (h compare _ _ _ _ hl hr).numbers
  rw [hcore.1, hcore.2, numbersAlike, if_neg (by decide)] at hnumbers
  exact hnumbers hround

end

end ChordV.Desktop.Versions
