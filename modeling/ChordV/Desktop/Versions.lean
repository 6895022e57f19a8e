import ChordV.Lib.SemVer

/-!
# Versions of the desktop client

`parseSemver` and `compareVersion` in `apps/desktop/src/lib/updateState.ts`.

* The collation `localeCompare` belongs to the platform, and so it is a parameter.  Only the
  sign of its result is used.
* The numbers of a version are ECMAScript numbers, read with `Number`.
-/

namespace ChordV.Desktop.Versions

open Lib Lib.Js Lib.SemVer

/-- `/^[0-9A-Za-z.-]+$/`. -/
def isDotted (s : Text) : Bool :=
  !s.isEmpty && s.all fun c => c.isAlphanum || c == '-' || c == '.'

/-- `ParsedSemver`. -/
structure ParsedSemver where
  major : Number
  minor : Number
  patch : Number
  prerelease : List Text

/-- The parts of a version, if the text is one. -/
def parseSemver (version : Text) : Option ParsedSemver :=
  (groups isDigits isDotted isDotted (dropLowerV (trim version))).map fun g =>
    { major := number g.major, minor := number g.minor, patch := number g.patch
      prerelease := g.prerelease.elim [] (·.splitOn '.') }

/-- The comparison of one of the three numbers. -/
def compareNumber (left right : Number) : Ordering :=
  if right.lt left then .gt else if left.lt right then .lt else .eq

/-- The number of an identifier, if the client takes it for one. -/
def numericPart (part : Text) : Option Number :=
  if (number part).isFinite && !(trim part).isEmpty then some (number part) else none

section

variable (localeCompare : Text → Text → Ordering)

/-- The comparison of two different identifiers. -/
def comparePart (leftPart rightPart : Text) : Ordering :=
  match numericPart leftPart, numericPart rightPart with
  | some leftNumber, some rightNumber => if rightNumber.lt leftNumber then .gt else .lt
  | some _, none => .lt
  | none, some _ => .gt
  | none, none => localeCompare leftPart rightPart

/-- The loop over the identifiers.  It ends at the first two that differ. -/
def compareParts : List Text → List Text → Ordering
  | [], [] => .eq
  | [], _ :: _ => .lt
  | _ :: _, [] => .gt
  | leftPart :: left, rightPart :: right =>
    if leftPart = rightPart then compareParts left right
    else comparePart localeCompare leftPart rightPart

/-- A release is above its pre-releases. -/
def comparePrerelease (left right : List Text) : Ordering :=
  if left.isEmpty && !right.isEmpty then .gt
  else if !left.isEmpty && right.isEmpty then .lt
  else compareParts localeCompare left right

/-- By the parts if both are versions, else by the texts. -/
def compareVersion (left right : Text) : Ordering :=
  match parseSemver left, parseSemver right with
  | some leftSemver, some rightSemver =>
    (compareNumber leftSemver.major rightSemver.major).then <|
      (compareNumber leftSemver.minor rightSemver.minor).then <|
        (compareNumber leftSemver.patch rightSemver.patch).then <|
          comparePrerelease localeCompare leftSemver.prerelease rightSemver.prerelease
  | _, _ => localeCompare left right

end

end ChordV.Desktop.Versions
