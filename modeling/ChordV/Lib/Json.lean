import Mathlib.Tactic.Common

/-!
# JSON texts

A reader for JSON texts over lists of characters, and the writer that a shell script has:
a template that puts strings between quotes without escaping anything.

* `Json.parse` reads a whole text.  It is structural in a fuel that the length of the text
  bounds, and it accepts what the JSON grammar accepts.
* `Scalar` is a value the template writer can print, and `renderObject` prints a flat object.
* `parse_renderObject`: a flat object whose keys and strings are plain is read back as it was
  written.  `Plain` says that no character needs an escape.

Numbers keep their text, since nothing here computes with them.
-/

namespace ChordV.Lib

/-- A text is a list of characters. -/
abbrev Text := List Char

/-- A JSON value. -/
inductive Json where
  | null
  | bool (b : Bool)
  | number (text : Text)
  | string (text : Text)
  | array (items : List Json)
  | object (members : List (Text × Json))

namespace Json

/-! ## Tokens -/

/-- The white space of the JSON grammar. -/
def isSpace (c : Char) : Bool := c = ' ' || c = '\t' || c = '\n' || c = '\r'

/-- Drops white space. -/
def skipSpace (cs : Text) : Text := cs.dropWhile isSpace

/-- The value of a hexadecimal digit. -/
def hexDigit (c : Char) : Option Nat :=
  if '0' ≤ c ∧ c ≤ '9' then some (c.toNat - '0'.toNat)
  else if 'a' ≤ c ∧ c ≤ 'f' then some (c.toNat - 'a'.toNat + 10)
  else if 'A' ≤ c ∧ c ≤ 'F' then some (c.toNat - 'A'.toNat + 10)
  else none

/-- The code unit of a `\u` escape. -/
def codeUnit (a b c d : Char) : Option Nat := do
  return (((← hexDigit a) * 16 + (← hexDigit b)) * 16 + (← hexDigit c)) * 16 + (← hexDigit d)

/-- The character of a one-letter escape. -/
def shortEscape (c : Char) : Option Nat :=
  if c = '"' ∨ c = '\\' ∨ c = '/' then some c.toNat
  else if c = 'b' then some 8
  else if c = 'f' then some 12
  else if c = 'n' then some 10
  else if c = 'r' then some 13
  else if c = 't' then some 9
  else none

/-- The code units of a string up to its closing quote, and the text behind the quote. -/
def stringUnits : Text → Option (List Nat × Text)
  | [] => none
  | '"' :: rest => some ([], rest)
  | '\\' :: 'u' :: a :: b :: c :: d :: rest => do
    let unit ← codeUnit a b c d
    let (units, rest) ← stringUnits rest
    return (unit :: units, rest)
  | '\\' :: e :: rest => do
    let unit ← shortEscape e
    let (units, rest) ← stringUnits rest
    return (unit :: units, rest)
  | c :: rest =>
    if c.toNat < 32 ∨ c = '\\' then none
    else do
      let (units, rest) ← stringUnits rest
      return (c.toNat :: units, rest)

/-- The characters of a list of code units.  Two surrogates make one character, and a
surrogate without its partner is printed as the replacement character. -/
def decodeUnits : List Nat → Text
  | [] => []
  | [u] => [if 0xD800 ≤ u ∧ u < 0xE000 then '\uFFFD' else Char.ofNat u]
  | u :: v :: rest =>
    if 0xD800 ≤ u ∧ u < 0xDC00 ∧ 0xDC00 ≤ v ∧ v < 0xE000 then
      Char.ofNat (0x10000 + (u - 0xD800) * 0x400 + (v - 0xDC00)) :: decodeUnits rest
    else (if 0xD800 ≤ u ∧ u < 0xE000 then '\uFFFD' else Char.ofNat u) :: decodeUnits (v :: rest)

/-- A string behind its opening quote. -/
def stringBody (cs : Text) : Option (Text × Text) :=
  (stringUnits cs).map fun (units, rest) => (decodeUnits units, rest)

/-- The digits at the front of a text, which must not be missing. -/
def digits (cs : Text) : Option (Text × Text) :=
  let (ds, rest) := cs.span Char.isDigit
  if ds = [] then none else some (ds, rest)

/-- The integer part of a number: no leading zero. -/
def integerPart (cs : Text) : Option (Text × Text) :=
  match cs with
  | '0' :: rest => some (['0'], rest)
  | _ => digits cs

/-- The fraction of a number, if there is one. -/
def fraction (cs : Text) : Option (Text × Text) :=
  match cs with
  | '.' :: rest => (digits rest).map fun (ds, rest) => ('.' :: ds, rest)
  | _ => some ([], cs)

/-- The sign of an exponent, if there is one. -/
def exponentSign (cs : Text) : Text × Text :=
  match cs with
  | '+' :: rest => (['+'], rest)
  | '-' :: rest => (['-'], rest)
  | _ => ([], cs)

/-- The exponent of a number, if there is one. -/
def exponent (cs : Text) : Option (Text × Text) :=
  match cs with
  | c :: rest =>
    if c = 'e' ∨ c = 'E' then
      let (sign, rest) := exponentSign rest
      (digits rest).map fun (ds, rest) => (c :: sign ++ ds, rest)
    else some ([], cs)
  | [] => some ([], [])

/-- A number without its sign. -/
def unsignedNumber (cs : Text) : Option (Text × Text) := do
  let (whole, cs) ← integerPart cs
  let (frac, cs) ← fraction cs
  let (exp, cs) ← exponent cs
  return (whole ++ frac ++ exp, cs)

/-- A number. -/
def numberToken (cs : Text) : Option (Json × Text) :=
  match cs with
  | '-' :: rest => (unsignedNumber rest).map fun (text, rest) => (.number ('-' :: text), rest)
  | _ => (unsignedNumber cs).map fun (text, rest) => (.number text, rest)

/-! ## Values -/

mutual

/-- One value at the front of a text without leading white space. -/
def value : Nat → Text → Option (Json × Text)
  | 0, _ => none
  | fuel + 1, cs =>
    match cs with
    | 'n' :: 'u' :: 'l' :: 'l' :: rest => some (.null, rest)
    | 't' :: 'r' :: 'u' :: 'e' :: rest => some (.bool true, rest)
    | 'f' :: 'a' :: 'l' :: 's' :: 'e' :: rest => some (.bool false, rest)
    | '"' :: rest => (stringBody rest).map fun (text, rest) => (.string text, rest)
    | '[' :: rest =>
      match skipSpace rest with
      | ']' :: rest => some (.array [], rest)
      | rest => (elements fuel rest).map fun (items, rest) => (.array items, rest)
    | '{' :: rest =>
      match skipSpace rest with
      | '}' :: rest => some (.object [], rest)
      | rest => (members fuel rest).map fun (ms, rest) => (.object ms, rest)
    | _ => numberToken cs

/-- The elements of an array up to its closing bracket. -/
def elements : Nat → Text → Option (List Json × Text)
  | 0, _ => none
  | fuel + 1, cs => do
    let (item, cs) ← value fuel cs
    match skipSpace cs with
    | ',' :: rest =>
      let (items, rest) ← elements fuel (skipSpace rest)
      return (item :: items, rest)
    | ']' :: rest => return ([item], rest)
    | _ => none

/-- The members of an object up to its closing brace. -/
def members : Nat → Text → Option (List (Text × Json) × Text)
  | 0, _ => none
  | fuel + 1, cs =>
    match cs with
    | '"' :: cs => do
      let (key, cs) ← stringBody cs
      match skipSpace cs with
      | ':' :: cs =>
        let (v, cs) ← value fuel (skipSpace cs)
        match skipSpace cs with
        | ',' :: rest =>
          let (ms, rest) ← members fuel (skipSpace rest)
          return ((key, v) :: ms, rest)
        | '}' :: rest => return ([(key, v)], rest)
        | _ => none
      | _ => none
    | _ => none

end

/-- A whole text.  A value costs at most two units of fuel for each of its characters. -/
def parse (text : Text) : Option Json :=
  match value (2 * text.length + 2) (skipSpace text) with
  | some (v, rest) => if skipSpace rest = [] then some v else none
  | none => none

/-- The value of a key of an object.  The last member of a name is the one that counts. -/
def lookup (key : Text) (ms : List (Text × Json)) : Option Json :=
  (ms.reverse.find? fun m => m.1 = key).map (·.2)

end Json

/-! ## The template writer -/

/-- No character of the text needs an escape. -/
def Plain (text : Text) : Bool := text.all fun c => 32 ≤ c.toNat && c != '"' && c != '\\'

/-- A value that a template prints without escaping. -/
inductive Scalar where
  | bool (b : Bool)
  | string (text : Text)

/-- The text of a value in a template. -/
def Scalar.render : Scalar → Text
  | .bool true => "true".toList
  | .bool false => "false".toList
  | .string text => '"' :: text ++ ['"']

/-- The value that the text stands for. -/
def Scalar.toJson : Scalar → Json
  | .bool b => .bool b
  | .string text => .string text

/-- A string is plain, and a Boolean always is. -/
def Scalar.Plain : Scalar → Prop
  | .bool _ => True
  | .string text => Lib.Plain text = true

/-- One member of a flat object. -/
def renderMember (m : Text × Scalar) : Text := '"' :: m.1 ++ ['"', ':'] ++ m.2.render

/-- The members of a flat object behind its opening brace. -/
def renderMembers : List (Text × Scalar) → Text
  | [] => ['\x7d']
  | [m] => renderMember m ++ ['\x7d']
  | m :: ms => renderMember m ++ ',' :: renderMembers ms

/-- A flat object. -/
def renderObject (ms : List (Text × Scalar)) : Text := '\x7b' :: renderMembers ms

/-! ## What the reader makes of a template -/

namespace Json

theorem skipSpace_cons {c : Char} (hc : isSpace c = false) (cs : Text) :
    skipSpace (c :: cs) = c :: cs := by
  simp [skipSpace, hc]

theorem stringUnits_cons {c : Char} (hc : 32 ≤ c.toNat) (hquote : c ≠ '"') (hslash : c ≠ '\\')
    (rest : Text) :
    stringUnits (c :: rest) =
      (stringUnits rest).map fun (units, rest) => (c.toNat :: units, rest) := by
  have hif : ¬ (c.toNat < 32 ∨ c = '\\') := by
    rintro (h | h)
    · omega
    · exact hslash h
  rw [stringUnits]
  · rw [if_neg hif]
    cases stringUnits rest <;> rfl
  · exact hquote
  · intro _ _ _ _ _ h
    exact absurd h hslash
  · intro _ _ h
    exact absurd h hslash

theorem stringUnits_plain {text : Text} (h : Plain text = true) (rest : Text) :
    stringUnits (text ++ '"' :: rest) = some (text.map Char.toNat, rest) := by
  induction text with
  | nil => rfl
  | cons c text ih =>
    simp only [Plain, List.all_cons, Bool.and_eq_true, decide_eq_true_eq, bne_iff_ne] at h
    rw [List.cons_append, stringUnits_cons h.1.1.1 h.1.1.2 h.1.2, ih (by simpa [Plain] using h.2)]
    rfl

/-- A character is not a surrogate, so decoding gives it back. -/
theorem decodeUnits_map_toNat (text : Text) : decodeUnits (text.map Char.toNat) = text := by
  have hscalar : ∀ c : Char, ¬ (0xD800 ≤ c.toNat ∧ c.toNat < 0xE000) := by
    intro c h
    rcases c.valid with hv | hv
    · have : c.toNat < 0xD800 := hv
      omega
    · have : 0xDFFF < c.toNat := hv.1
      omega
  induction text with
  | nil => rfl
  | cons c text ih =>
    cases text with
    | nil =>
      simp only [List.map_cons, List.map_nil, decodeUnits, if_neg (hscalar c), Char.ofNat_toNat]
    | cons d text =>
      have hpair : ¬ (0xD800 ≤ c.toNat ∧ c.toNat < 0xDC00 ∧ 0xDC00 ≤ d.toNat ∧ d.toNat < 0xE000) :=
        fun h => hscalar d ⟨by omega, h.2.2.2⟩
      rw [List.map_cons, List.map_cons, decodeUnits, if_neg hpair, if_neg (hscalar c),
        Char.ofNat_toNat]
      exact congrArg (c :: ·) ih

theorem stringBody_plain {text : Text} (h : Plain text = true) (rest : Text) :
    stringBody (text ++ '"' :: rest) = some (text, rest) := by
  rw [stringBody, stringUnits_plain h, Option.map_some]
  exact congrArg (fun cs => some (cs, rest)) (decodeUnits_map_toNat text)

/-- A printed value is read back. -/
theorem value_render {v : Scalar} (h : v.Plain) (fuel : Nat) (rest : Text) :
    value (fuel + 1) (v.render ++ rest) = some (v.toJson, rest) := by
  cases v with
  | bool b => cases b <;> rfl
  | string text =>
    have happ : (Scalar.string text).render ++ rest = '"' :: (text ++ '"' :: rest) := by
      simp [Scalar.render]
    rw [happ, value, stringBody_plain h]
    rfl

theorem skipSpace_render (v : Scalar) (rest : Text) :
    skipSpace (v.render ++ rest) = v.render ++ rest := by
  cases v with
  | bool b => cases b <;> rfl
  | string text => rfl

/-- A printed member list is read back. -/
theorem members_render (rest : Text) : ∀ (ms : List (Text × Scalar)) (fuel : Nat), ms ≠ [] →
    (∀ m ∈ ms, Plain m.1 = true ∧ m.2.Plain) → ms.length < fuel →
    members fuel (renderMembers ms ++ rest) = some (ms.map fun m => (m.1, m.2.toJson), rest)
  | [], _, hne, _, _ => absurd rfl hne
  | [(key, v)], fuel, _, hplain, hfuel => by
    obtain ⟨hkey, hv⟩ := hplain _ List.mem_cons_self
    obtain ⟨fuel, rfl⟩ : ∃ n, fuel = n + 2 := ⟨fuel - 2, by simp at hfuel; omega⟩
    have happ : renderMembers [(key, v)] ++ rest =
        '"' :: (key ++ '"' :: ':' :: (v.render ++ '\x7d' :: rest)) := by
      simp [renderMembers, renderMember]
    rw [happ, members, stringBody_plain hkey]
    simp [skipSpace_cons, isSpace, skipSpace_render, value_render hv]
  | (key, v) :: m :: ms, fuel, _, hplain, hfuel => by
    obtain ⟨hkey, hv⟩ := hplain _ List.mem_cons_self
    obtain ⟨fuel, rfl⟩ : ∃ n, fuel = n + 2 := ⟨fuel - 2, by simp at hfuel; omega⟩
    have happ : renderMembers ((key, v) :: m :: ms) ++ rest =
        '"' :: (key ++ '"' :: ':' :: (v.render ++ ',' :: (renderMembers (m :: ms) ++ rest))) := by
      simp [renderMembers, renderMember]
    have hquote : skipSpace (renderMembers (m :: ms) ++ rest) =
        renderMembers (m :: ms) ++ rest := by
      cases ms <;> rfl
    have ih := members_render rest (m :: ms) (fuel + 1) (by simp)
      (fun x hx => hplain x (List.mem_cons_of_mem _ hx)) (by simp at hfuel ⊢; omega)
    rw [happ, members, stringBody_plain hkey]
    simp [skipSpace_cons, isSpace, skipSpace_render, value_render hv, hquote, ih]

end Json

theorem length_renderMembers (ms : List (Text × Scalar)) :
    ms.length ≤ (renderMembers ms).length := by
  match ms with
  | [] => simp
  | [m] => simp [renderMembers]
  | m :: m' :: ms =>
    have ih := length_renderMembers (m' :: ms)
    simp only [renderMembers, List.length_append, List.length_cons] at ih ⊢
    omega

/-- A flat object of plain keys and strings is read back as it was written, also with white
space behind it. -/
theorem parse_renderObject {ms : List (Text × Scalar)} (hne : ms ≠ [])
    (hplain : ∀ m ∈ ms, Plain m.1 = true ∧ m.2.Plain) {rest : Text}
    (hrest : Json.skipSpace rest = []) :
    Json.parse (renderObject ms ++ rest) = some (.object (ms.map fun m => (m.1, m.2.toJson))) := by
  have hbrace : Json.skipSpace (renderObject ms ++ rest) = '\x7b' :: (renderMembers ms ++ rest) :=
    rfl
  have hquote : ∃ cs, renderMembers ms ++ rest = '"' :: cs := by
    match ms, hne with
    | [m], _ => exact ⟨_, rfl⟩
    | m :: m' :: ms, _ => exact ⟨_, rfl⟩
  have hlen := length_renderMembers ms
  have hmembers := Json.members_render rest ms (2 * (renderObject ms ++ rest).length + 1) hne hplain
    (by simp only [renderObject, List.length_append, List.length_cons]; omega)
  obtain ⟨cs, hcs⟩ := hquote
  have hvalue : Json.value (2 * (renderObject ms ++ rest).length + 2)
      (Json.skipSpace (renderObject ms ++ rest)) =
        some (.object (ms.map fun m => (m.1, m.2.toJson)), rest) := by
    rw [hcs] at hmembers
    rw [hbrace, Json.value, hcs, Json.skipSpace_cons rfl]
    show Option.map _ (Json.members _ ('"' :: cs)) = _
    rw [hmembers, Option.map_some]
  rw [Json.parse, hvalue]
  exact if_pos hrest

end ChordV.Lib
