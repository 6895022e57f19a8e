import ChordV.Lib.Js

/-!
# The shape of a version

Patterns for versions all read `major.minor.patch-prerelease+build`, where the last two parts
may be absent.  They differ in what each part may be, so `groups` takes the parts' own
patterns as parameters.

* `cut` finds the first `+` and then the first `-`, which is what a pattern finds whose
  numbers contain no `.`, `-` and `+` and whose prerelease contains no `+`.
* `groups_mono`: a pattern with weaker parts finds the same groups.
* `render_of_groups` and `groups_render`: the texts with given groups are the one that writes
  them.
-/

namespace ChordV.Lib.SemVer

open Js

/-- Removes what `/^v?/` matches. -/
def dropLowerV : Text → Text
  | 'v' :: s => s
  | s => s

/-- The groups of the regular expression. -/
structure Groups where
  major : Text
  minor : Text
  patch : Text
  prerelease : Option Text
  build : Option Text
deriving DecidableEq, Repr

/-- `/^(major)\.(minor)\.(patch)(?:-(prerelease))?(?:\+(build))?$/`. -/
def groups (number prerelease build : Text → Bool) (s : Text) : Option Groups :=
  let rest := cut (· == '+') s
  let body := cut (· == '-') rest.1
  match body.1.splitOn '.' with
  | [major, minor, patch] =>
    if number major && number minor && number patch && body.2.all prerelease &&
        rest.2.all build then
      some { major, minor, patch, prerelease := body.2, build := rest.2 }
    else none
  | _ => none

/-- What a match says about the parts. -/
theorem groups_eq_some {number prerelease build : Text → Bool} {s : Text} {g : Groups} :
    groups number prerelease build s = some g ↔
      (cut (· == '-') (cut (· == '+') s).1).1.splitOn '.' = [g.major, g.minor, g.patch] ∧
      (cut (· == '-') (cut (· == '+') s).1).2 = g.prerelease ∧
      (cut (· == '+') s).2 = g.build ∧ number g.major = true ∧ number g.minor = true ∧
      number g.patch = true ∧ g.prerelease.all prerelease = true ∧ g.build.all build = true := by
  obtain ⟨major, minor, patch, pre, bld⟩ := g
  simp only [groups]
  split
  · rename_i a b c hsplit
    simp only [hsplit, Bool.and_eq_true, Option.ite_none_right_eq_some, Option.some.injEq,
      Groups.mk.injEq, List.cons.injEq, and_true]
    constructor
    · rintro ⟨⟨⟨⟨⟨ha, hb⟩, hc⟩, hpre⟩, hbld⟩, rfl, rfl, rfl, rfl, rfl⟩
      exact ⟨⟨rfl, rfl, rfl⟩, rfl, rfl, ha, hb, hc, hpre, hbld⟩
    · rintro ⟨⟨rfl, rfl, rfl⟩, rfl, rfl, ha, hb, hc, hpre, hbld⟩
      exact ⟨⟨⟨⟨⟨ha, hb⟩, hc⟩, hpre⟩, hbld⟩, rfl, rfl, rfl, rfl, rfl⟩
  · rename_i hsplit
    simp only [reduceCtorEq, false_iff]
    exact fun h => hsplit _ _ _ h.1

section

variable {number prerelease build number' prerelease' build' : Text → Bool} {s : Text} {g : Groups}

/-- A pattern with weaker parts finds the same groups. -/
theorem groups_mono (hnumber : ∀ t, number t = true → number' t = true)
    (hprerelease : ∀ t, prerelease t = true → prerelease' t = true)
    (hbuild : ∀ t, build t = true → build' t = true)
    (h : groups number prerelease build s = some g) :
    groups number' prerelease' build' s = some g := by
  obtain ⟨hsplit, hpre, hbld, hmajor, hminor, hpatch, hallPre, hallBld⟩ := groups_eq_some.1 h
  refine groups_eq_some.2 ⟨hsplit, hpre, hbld, hnumber _ hmajor, hnumber _ hminor,
    hnumber _ hpatch, ?_, ?_⟩
  · cases hp : g.prerelease with
    | none => rfl
    | some p =>
      rw [hp] at hallPre
      exact hprerelease p hallPre
  · cases hb : g.build with
    | none => rfl
    | some b =>
      rw [hb] at hallBld
      exact hbuild b hallBld

/-- A text is its first part, and the separator and its second part if it has one. -/
theorem cut_append_elim (sep : Char) : ∀ s : Text,
    (cut (· == sep) s).1 ++ (cut (· == sep) s).2.elim [] (sep :: ·) = s
  | [] => rfl
  | c :: s => by
    by_cases hc : c = sep
    · simp [cut, hc]
    · have ih := cut_append_elim sep s
      simp [cut, hc, ih]

/-- `cut` stops at the separator that it is for. -/
theorem cut_elim {sep : Char} {t : Text} (h : sep ∉ t) (rest : Option Text) :
    cut (· == sep) (t ++ rest.elim [] (sep :: ·)) = (t, rest) := by
  have hne : ∀ c ∈ t, (c == sep) = false := fun c hc => beq_eq_false_iff_ne.2 (by
    rintro rfl
    exact h hc)
  cases rest with
  | none => simpa using cut_of_forall hne
  | some rest => exact cut_append (by simp) rest hne

/-- The text with the given groups. -/
def Groups.render (g : Groups) : Text :=
  g.major ++ '.' :: (g.minor ++ '.' :: g.patch) ++ g.prerelease.elim [] ('-' :: ·) ++
    g.build.elim [] ('+' :: ·)

theorem render_of_groups (h : groups number prerelease build s = some g) : g.render = s := by
  obtain ⟨hsplit, hpre, hbld, -⟩ := groups_eq_some.1 h
  have hcore : g.major ++ '.' :: (g.minor ++ '.' :: g.patch) =
      (cut (· == '-') (cut (· == '+') s).1).1 := by
    calc g.major ++ '.' :: (g.minor ++ '.' :: g.patch)
        = ['.'].intercalate [g.major, g.minor, g.patch] := by simp [List.intercalate_cons_cons]
      _ = _ := by rw [← hsplit, List.intercalate_splitOn]
  rw [Groups.render, hcore, ← hpre, ← hbld, cut_append_elim, cut_append_elim]

/-- The separators of a version are in none of its numbers, and `+` is not in its prerelease. -/
theorem groups_render
    (hnumber : ∀ t, number t = true → '.' ∉ t ∧ '-' ∉ t ∧ '+' ∉ t)
    (hprerelease : ∀ t, prerelease t = true → '+' ∉ t)
    (hmajor : number g.major = true) (hminor : number g.minor = true)
    (hpatch : number g.patch = true) (hpre : g.prerelease.all prerelease = true)
    (hbuild : g.build.all build = true) :
    groups number prerelease build g.render = some g := by
  obtain ⟨major, minor, patch, pre, bld⟩ := g
  simp only at hmajor hminor hpatch hpre hbuild
  obtain ⟨hdot, hdash, hplus⟩ := hnumber _ hmajor
  obtain ⟨hdot', hdash', hplus'⟩ := hnumber _ hminor
  obtain ⟨hdot'', hdash'', hplus''⟩ := hnumber _ hpatch
  have hcoreDash : '-' ∉ major ++ '.' :: (minor ++ '.' :: patch) := by simp [*]
  have hbodyPlus : '+' ∉ major ++ '.' :: (minor ++ '.' :: patch) ++ pre.elim [] ('-' :: ·) := by
    cases pre with
    | none => simp [*]
    | some t => simp [*, hprerelease t hpre]
  have hcutPlus : cut (· == '+') (Groups.render ⟨major, minor, patch, pre, bld⟩) =
      (major ++ '.' :: (minor ++ '.' :: patch) ++ pre.elim [] ('-' :: ·), bld) :=
    cut_elim hbodyPlus bld
  have hcutDash : cut (· == '-') (major ++ '.' :: (minor ++ '.' :: patch) ++
      pre.elim [] ('-' :: ·)) = (major ++ '.' :: (minor ++ '.' :: patch), pre) :=
    cut_elim hcoreDash pre
  refine groups_eq_some.2 ⟨?_, by rw [hcutPlus, hcutDash], by rw [hcutPlus], hmajor, hminor,
    hpatch, hpre, hbuild⟩
  rw [hcutPlus, hcutDash, List.splitOn_append_cons_self_of_not_mem hdot,
    List.splitOn_append_cons_self_of_not_mem hdot', List.splitOn_eq_singleton hdot'']

end

end ChordV.Lib.SemVer
