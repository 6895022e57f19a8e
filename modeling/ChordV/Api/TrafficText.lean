import ChordV.Api.TeamUsage

/-!
# The text of a figure in GB

`trafficGbNumberToBytes` as it reads the text that `Number.prototype.toString` writes, and the
two writers of the used bytes of one subscription: `applyDirectBatch` of
`agent-direct-metering.ts` and `updateSubscription` of `admin-subscription.service.ts`.

* `toString` is a parameter.  `Writes` is what it is known to do: it writes a decimal, plain or
  with an exponent, and the number is the one nearest to it.
* `textToBytes_text`: the text of a decimal is converted as its fraction, rounded half up.
* `conversions_lossless`: a figure of less than 2^52 bytes is converted back to these bytes,
  updates that name no used traffic keep the used bytes, and the conversion keeps the order.
-/

namespace ChordV.Api.TrafficText

open Lib Lib.Js
open Admin (resolveSubscriptionState)
open TeamUsage (column perByte)

/-! ## The conversion -/

/-- The first two pieces of `split`. -/
def pieces (sep : Char) (s : Text) : Text × Option Text :=
  ((cut (· == sep) s).1, (cut (· == sep) s).2.map fun rest => (cut (· == sep) rest).1)

/-- `Number.isInteger`, with the integer. -/
def integer? : Number → Option Int
  | .finite units => if units % perOne = 0 then some (units / perOne) else none
  | _ => none

/-- `replace(/^\+/, "")`. -/
def dropPlus : Text → Text
  | '+' :: s => s
  | s => s

/-- `trafficGbNumberToBytes`, from the text on.  Such texts are ASCII. -/
def textToBytes (text : Text) : Nat :=
  let (mantissa, exponentText) := pieces 'e' (text.map Char.toLower)
  let exponent := integer? (number (exponentText.getD ['0']))
  let (whole, rest) := pieces '.' mantissa
  let fraction := rest.getD []
  let digits := dropPlus (whole ++ fraction)
  match isDigits digits, exponent with
  | true, some exponent =>
    let decimalPlaces : Int := fraction.length - exponent
    let numerator := decimal digits * gbInBytes
    if decimalPlaces ≤ 0 then numerator * 10 ^ (-decimalPlaces).toNat
    else
      let denominator := 10 ^ decimalPlaces.toNat
      (numerator + denominator / 2) / denominator
  | _, _ => 0

/-- `trafficGbNumberToBytes`. -/
def trafficGbNumberToBytes (toString : Number → Text) (value : Number) : Nat :=
  match value with
  | .finite units => if units ≤ 0 then 0 else textToBytes (toString value)
  | _ => 0

/-! ## Decimals -/

/-- A decimal as it is written: an exponent has a sign. -/
structure Decimal where
  whole : Text
  fraction : Option Text := none
  exponent : Option (Bool × Text) := none

namespace Decimal

/-- What is written after a mantissa. -/
def exponentText (d : Decimal) : Text :=
  match d.exponent with
  | some (negative, digits) => 'e' :: sign negative :: digits
  | none => []

/-- The digits and the point. -/
def mantissa (d : Decimal) : Text :=
  match d.fraction with
  | some fraction => d.whole ++ '.' :: fraction
  | none => d.whole

/-- The numeral. -/
def text (d : Decimal) : Text := d.mantissa ++ d.exponentText

/-- The exponent as a number. -/
def exponentValue (d : Decimal) : Int :=
  match d.exponent with
  | some (negative, digits) => if negative then -(decimal digits : Int) else decimal digits
  | none => 0

/-- All digits of the mantissa. -/
def digits (d : Decimal) : Text := d.whole ++ d.fraction.getD []

/-- The digits behind the point, less the exponent. -/
def places (d : Decimal) : Int := (d.fraction.getD []).length - d.exponentValue

/-- The decimal as a fraction. -/
def ratio (d : Decimal) : Nat × Nat :=
  if d.places ≤ 0 then (decimal d.digits * 10 ^ (-d.places).toNat, 1)
  else (decimal d.digits, 10 ^ d.places.toNat)

/-- Its parts are digits, and its exponent is a number that is exact. -/
structure Valid (d : Decimal) : Prop where
  whole : isDigits d.whole = true
  fraction : ∀ fraction ∈ d.fraction, isDigits fraction = true
  exponent : ∀ exponent ∈ d.exponent, isDigits exponent.2 = true ∧ decimal exponent.2 < 2 ^ 53

theorem ratio_pos (d : Decimal) : 0 < d.ratio.2 := by
  unfold ratio
  split_ifs
  · exact Nat.one_pos
  · exact Nat.pos_of_ne_zero (pow_ne_zero _ (by decide))

end Decimal

/-- `Number.prototype.toString` on the numbers above zero: the number is the nearest to the
decimal that is written. -/
def Writes (toString : Number → Text) : Prop :=
  ∀ value : Double, 0 < value.units → ∃ d : Decimal, d.Valid ∧
    toString value.toNumber = d.text ∧
    toUnits (d.ratio.1 * perOne) d.ratio.2 = value.units

/-! ## Reading what is written -/

theorem pieces_of_forall {sep : Char} {s : Text} (h : ∀ c ∈ s, (c == sep) = false) :
    pieces sep s = (s, none) := by
  rw [pieces, cut_of_forall h, Option.map_none]

theorem pieces_append {sep : Char} {s rest : Text} (h : ∀ c ∈ s, (c == sep) = false)
    (hrest : ∀ c ∈ rest, (c == sep) = false) : pieces sep (s ++ sep :: rest) = (s, some rest) := by
  have hcut : cut (· == sep) (s ++ sep :: rest) = (s, some rest) :=
    cut_append (p := (· == sep)) (beq_self_eq_true sep) rest h
  rw [pieces, hcut, Option.map_some, cut_of_forall hrest]

theorem isDigits_append {s t : Text} (hs : isDigits s = true) (ht : isDigits t = true) :
    isDigits (s ++ t) = true := by
  simp only [isDigits, Bool.and_eq_true, Bool.not_eq_true', List.all_append] at *
  simp_all

theorem dropPlus_of_isDigits {s : Text} (h : isDigits s = true) : dropPlus s = s := by
  unfold dropPlus
  split
  · exact absurd (isDigit_of_isDigits h '+' List.mem_cons_self) (by decide)
  · rfl

theorem mul_two_pow_lt {v a b c : Nat} (h : v < 2 ^ a) (hle : a + b ≤ c) : v * 2 ^ b < 2 ^ c := by
  calc v * 2 ^ b < 2 ^ a * 2 ^ b := Nat.mul_lt_mul_of_pos_right h (Nat.two_pow_pos b)
    _ = 2 ^ (a + b) := (Nat.pow_add ..).symm
    _ ≤ 2 ^ c := Nat.pow_le_pow_right (by decide) hle

/-- An integer below 2^53 is a number. -/
theorem ofRat_of_small (negative : Bool) {v : Nat} (h : v < 2 ^ 53) :
    ofRat negative v 1 = .finite ((if negative then -(v : Int) else v) * perOne) := by
  have hexact : ∀ bit, toUnits (v * 2 ^ bit) 1 = v * 2 ^ bit := toUnits_of_small h
  have hlt := mul_two_pow_lt h (by omega : 53 + 1074 ≤ 2098)
  unfold ofRat perOne
  rw [hexact 1074]
  generalize 2 ^ 1074 = one at hlt ⊢
  generalize 2 ^ 2098 = bound at hlt ⊢
  cases negative <;> simp [hlt]

theorem integer?_mul (i : Int) : integer? (.finite (i * perOne)) = some i := by
  have hpos : (perOne : Int) ≠ 0 := by exact_mod_cast perOne_pos.ne'
  rw [integer?, Int.mul_emod_left, if_pos rfl, Int.mul_ediv_cancel i hpos]

namespace Decimal

variable {d : Decimal}

theorem isDigits_digits (hd : d.Valid) : isDigits d.digits = true := by
  unfold digits
  cases hfraction : d.fraction with
  | none => simpa using hd.whole
  | some fraction => exact isDigits_append hd.whole (hd.fraction fraction hfraction)

theorem map_toLower_text (hd : d.Valid) : d.text.map Char.toLower = d.text := by
  have hwhole := map_toLower_of_isDigits hd.whole
  have hmantissa : d.mantissa.map Char.toLower = d.mantissa := by
    unfold mantissa
    cases hfraction : d.fraction with
    | none => exact hwhole
    | some fraction =>
      have hdigits := map_toLower_of_isDigits (hd.fraction fraction hfraction)
      simp only [List.map_append, List.map_cons, hwhole, hdigits]
      rfl
  have hexponent : d.exponentText.map Char.toLower = d.exponentText := by
    unfold exponentText
    cases hexp : d.exponent with
    | none => rfl
    | some exponent =>
      have hdigits := map_toLower_of_isDigits (hd.exponent exponent hexp).1
      have hsign : (sign exponent.1).toLower = sign exponent.1 := by cases exponent.1 <;> rfl
      simp only [List.map_cons, hsign, hdigits]
      rfl
  rw [text, List.map_append, hmantissa, hexponent]

/-- A mantissa has no `e`. -/
theorem mantissa_ne (hd : d.Valid) : ∀ c ∈ d.mantissa, (c == 'e') = false := by
  have hwhole := ne_of_isDigits hd.whole (by decide : 'e'.isDigit = false)
  unfold mantissa
  cases hfraction : d.fraction with
  | none => exact hwhole
  | some fraction =>
    intro c hc
    obtain hc | hc := List.mem_append.1 hc
    · exact hwhole c hc
    · obtain rfl | hc := List.mem_cons.1 hc
      · rfl
      · exact ne_of_isDigits (hd.fraction fraction hfraction) (by decide) c hc

/-- The pieces of the text, with the number of the second. -/
theorem pieces_text (hd : d.Valid) : ∃ exponent, pieces 'e' d.text = (d.mantissa, exponent) ∧
    integer? (number (exponent.getD ['0'])) = some d.exponentValue := by
  unfold text exponentText exponentValue
  cases hexp : d.exponent with
  | none =>
    refine ⟨none, ?_, ?_⟩
    · rw [List.append_nil]
      exact pieces_of_forall (mantissa_ne hd)
    · have hzero : number ['0'] = ofRat false 0 1 := number_of_isDigits (by decide)
      rw [Option.getD_none, hzero, ofRat_of_small false (by decide)]
      exact integer?_mul 0
  | some exponent =>
    obtain ⟨negative, digits⟩ := exponent
    obtain ⟨hdigits, hsmall⟩ := hd.exponent _ hexp
    refine ⟨some (sign negative :: digits), ?_, ?_⟩
    · refine pieces_append (mantissa_ne hd) fun c hc => ?_
      obtain rfl | hc := List.mem_cons.1 hc
      · cases negative <;> rfl
      · exact ne_of_isDigits hdigits (by decide) c hc
    · rw [Option.getD_some, number_of_sign negative hdigits, ofRat_of_small negative hsmall]
      exact integer?_mul _

theorem pieces_mantissa (hd : d.Valid) : pieces '.' d.mantissa = (d.whole, d.fraction) := by
  have hwhole := ne_of_isDigits hd.whole (by decide : '.'.isDigit = false)
  unfold mantissa
  cases hfraction : d.fraction with
  | none => exact pieces_of_forall hwhole
  | some fraction =>
    exact pieces_append hwhole (ne_of_isDigits (hd.fraction fraction hfraction) (by decide))

end Decimal

/-- The text of a decimal is converted as its fraction. -/
theorem textToBytes_text {d : Decimal} (hd : d.Valid) :
    textToBytes d.text = (d.ratio.1 * gbInBytes + d.ratio.2 / 2) / d.ratio.2 := by
  obtain ⟨exponent, hpieces, hexponent⟩ := Decimal.pieces_text hd
  have hdigits := Decimal.isDigits_digits hd
  have hdrop := dropPlus_of_isDigits hdigits
  unfold Decimal.digits at hdigits hdrop
  unfold textToBytes
  rw [Decimal.map_toLower_text hd, hpieces]
  dsimp only
  rw [Decimal.pieces_mantissa hd, hexponent]
  dsimp only
  rw [hdrop, hdigits]
  dsimp only
  rw [Decimal.ratio, Decimal.places, Decimal.digits]
  split_ifs
  · have hone : ∀ x, (x + 1 / 2) / 1 = x := by omega
    dsimp only
    rw [hone, Nat.mul_right_comm]
  · rfl

/-! ## Both directions -/

section

variable {toString : Number → Text}

/-- A figure above zero is converted as a fraction that is read as it. -/
theorem exists_ratio (h : Writes toString) {value : Double} (hpos : 0 < value.units) :
    ∃ n d, 0 < d ∧ toUnits (n * perOne) d = value.units ∧
      trafficGbNumberToBytes toString value.toNumber = (n * gbInBytes + d / 2) / d := by
  obtain ⟨d, hd, htext, hread⟩ := h value hpos
  refine ⟨d.ratio.1, d.ratio.2, d.ratio_pos, hread, ?_⟩
  have hnot : ¬ (value.units : Int) ≤ 0 := by omega
  rw [← textToBytes_text hd, ← htext, Double.toNumber, trafficGbNumberToBytes, if_neg hnot]

/-- Some bytes have a figure. -/
theorem exists_figure {bytes : Nat} (h : bytes < 2 ^ 53) :
    ∃ value, TeamUsage.trafficBytesToGbNumber bytes = some value := by
  have hwhole : ¬ 2 ^ 53 - 1 < bytes / gbInBytes := by
    have hle := Nat.div_le_self bytes gbInBytes
    omega
  have hunits : toUnits (bytes * perOne) gbInBytes = bytes * perByte := by
    rw [TeamUsage.perOne_eq, ← Nat.mul_assoc, toUnits_mul_self _ (by decide),
      TeamUsage.toUnits_bytes h]
  have hbound : bytes * perByte < unitsBound := mul_two_pow_lt h (by omega : 53 + 1044 ≤ 2098)
  rw [← hunits] at hbound
  rw [TeamUsage.trafficBytesToGbNumber, if_neg hwhole, Double.ratio]
  exact Double.exists_ofUnits hbound

/-- The figure of some bytes is converted back to these bytes. -/
theorem trafficGbNumberToBytes_of_bytes (h : Writes toString) {bytes : Nat}
    (hbytes : bytes < 2 ^ 52) {value : Double}
    (hvalue : TeamUsage.trafficBytesToGbNumber bytes = some value) :
    trafficGbNumberToBytes toString value.toNumber = bytes := by
  have hunits := TeamUsage.units_of_bytes (hbytes.trans (by decide)) hvalue
  obtain hzero | hpos := Nat.eq_zero_or_pos value.units
  · have hbytes : bytes = 0 := by
      rw [hzero, eq_comm, Nat.mul_eq_zero] at hunits
      exact hunits.resolve_right TeamUsage.perByte_pos.ne'
    rw [Double.toNumber, hzero, hbytes]
    rfl
  · obtain ⟨n, d, hd, hread, hconverted⟩ := exists_ratio h hpos
    obtain ⟨hnear, hnear'⟩ := toUnits_near (n * perOne) hd
    rw [hread, hunits] at hnear hnear'
    obtain ⟨hle, hge⟩ := TeamUsage.near_perByte hnear hnear' (TeamUsage.two_lastBits_le hbytes)
    rw [hconverted]
    refine TeamUsage.rounded_of_near ?_ ?_
    · nlinarith
    · nlinarith

/-- Rounding half up keeps the order of fractions. -/
theorem rounded_mono {n d m e : Nat} (hd : 0 < d) (he : 0 < e) (h : n * e ≤ m * d) :
    (n * gbInBytes + d / 2) / d ≤ (m * gbInBytes + e / 2) / e := by
  have htwice : ∀ a b : Nat, (a + b / 2) / b = (2 * a + b) / (2 * b) := by
    intro a b
    rw [← Nat.div_div_eq_div_mul]
    congr 1
    omega
  rw [htwice, htwice, Nat.le_div_iff_mul_le (by omega)]
  refine Nat.le_of_mul_le_mul_right ?_ hd
  have hquotient := Nat.div_mul_le_self (2 * (n * gbInBytes) + d) (2 * d)
  generalize (2 * (n * gbInBytes) + d) / (2 * d) = q at hquotient
  calc q * (2 * e) * d = q * (2 * d) * e := by ring
    _ ≤ (2 * (n * gbInBytes) + d) * e := Nat.mul_le_mul_right e hquotient
    _ = 2 * gbInBytes * (n * e) + d * e := by ring
    _ ≤ 2 * gbInBytes * (m * d) + d * e := by
        exact Nat.add_le_add_right (Nat.mul_le_mul_left _ h) _
    _ = (2 * (m * gbInBytes) + e) * d := by ring

/-- The conversion keeps the order of figures above zero. -/
theorem trafficGbNumberToBytes_le (h : Writes toString) {x y : Double} (hx : 0 < x.units)
    (hle : x.units ≤ y.units) :
    trafficGbNumberToBytes toString x.toNumber ≤ trafficGbNumberToBytes toString y.toNumber := by
  obtain heq | hlt := hle.eq_or_lt
  · rw [Double.ext_units heq]
  · obtain ⟨n, d, hd, hreadx, hx'⟩ := exists_ratio h hx
    obtain ⟨m, e, he, hready, hy'⟩ := exists_ratio h (hx.trans hlt)
    rw [hx', hy']
    refine rounded_mono hd he (Nat.not_lt.1 fun hgt => ?_)
    -- Were the decimals in the other order, so would the numbers be.
    have hunits : toUnits (m * perOne) e ≤ toUnits (n * perOne) d := by
      refine toUnits_le he hd ?_
      calc m * perOne * d = m * d * perOne := Nat.mul_right_comm ..
        _ ≤ n * e * perOne := Nat.mul_le_mul_right _ hgt.le
        _ = n * perOne * e := Nat.mul_right_comm ..
    rw [hreadx, hready] at hunits
    omega

/-- The conversion keeps the order, below zero and with infinities and `NaN` on the left, too. -/
theorem trafficGbNumberToBytes_mono (h : Writes toString) {x y : Number} (hx : x.IsDouble)
    (hy : y.IsDouble) (hfinite : y.isFinite = true) (hle : y.lt x = false) :
    trafficGbNumberToBytes toString x ≤ trafficGbNumberToBytes toString y := by
  cases x with
  | nan | negInfinity | infinity => exact Nat.zero_le _
  | finite a =>
    cases y with
    | nan | negInfinity | infinity => cases hfinite
    | finite b =>
      by_cases hpos : a ≤ 0
      · simp [trafficGbNumberToBytes, hpos]
      · have hab : a ≤ b := by simpa [Number.lt] using hle
        obtain ⟨x, hxa, hxpos⟩ := hx.exists_double (Int.not_le.1 hpos)
        obtain ⟨y, hyb, -⟩ := hy.exists_double ((Int.not_le.1 hpos).trans_le hab)
        rw [← hxa, ← hyb]
        refine trafficGbNumberToBytes_le h hxpos ?_
        simp only [Double.toNumber, Number.finite.injEq] at hxa hyb
        omega

end

/-! ## The used bytes of a subscription -/

/-- The figures and the bytes of a subscription. -/
structure Subscription where
  totalTrafficGb : Double
  usedTrafficGb : Double
  remainingTrafficGb : Double
  totalTrafficBytes : Nat
  usedTrafficBytes : Nat
  expireAt : Nat
  state : SubscriptionState
deriving DecidableEq

/-- What `applyDirectBatch` writes for one subscription. -/
def applyUsage (toString : Number → Text) (sampledAt deltaBytes : Nat) (s : Subscription) :
    Option Subscription := do
  let totalBytes := if 0 < s.totalTrafficBytes then s.totalTrafficBytes
    else trafficGbNumberToBytes toString s.totalTrafficGb.toNumber
  let currentUsedBytes := if 0 < s.usedTrafficBytes then s.usedTrafficBytes
    else trafficGbNumberToBytes toString s.usedTrafficGb.toNumber
  let nextUsedBytes := currentUsedBytes + deltaBytes
  let remainingBytes := totalBytes - nextUsedBytes
  let nextState : SubscriptionState :=
    if s.state ≠ .active then s.state
    else if s.expireAt ≤ sampledAt then .expired
    else if remainingBytes = 0 then .exhausted
    else .active
  let usedTrafficGb ← TeamUsage.trafficBytesToGbNumber nextUsedBytes
  let remainingTrafficGb ← TeamUsage.trafficBytesToGbNumber remainingBytes
  let totalTrafficBytes ← column totalBytes
  let usedTrafficBytes ← column nextUsedBytes
  return { s with
    totalTrafficBytes, usedTrafficBytes, usedTrafficGb, remainingTrafficGb, state := nextState }

/-- `UpdateSubscriptionInputDto`.  A date that is named may be no date. -/
structure Update where
  totalTrafficGb : Option Double := none
  usedTrafficGb : Option Double := none
  expireAt : Option (Option Nat) := none
  state : Option SubscriptionState := none
deriving DecidableEq

/-- `updateSubscription`, up to its commit. -/
def updateSubscription (toString : Number → Text) (input : Update) (now : Nat)
    (current : Subscription) : Option Subscription := do
  let totalTrafficGb := input.totalTrafficGb.getD current.totalTrafficGb
  let usedTrafficGb := input.usedTrafficGb.getD current.usedTrafficGb
  let expireAt ← input.expireAt.getD (some current.expireAt)
  let remainingTrafficGb := totalTrafficGb.monus usedTrafficGb
  let state := resolveSubscriptionState (input.state.getD current.state) remainingTrafficGb.units
    expireAt now
  let totalTrafficBytes ← column (trafficGbNumberToBytes toString totalTrafficGb.toNumber)
  let usedTrafficBytes ← column (trafficGbNumberToBytes toString usedTrafficGb.toNumber)
  return { totalTrafficGb, usedTrafficGb, remainingTrafficGb, totalTrafficBytes, usedTrafficBytes
           expireAt, state }

/-- An update that is refused changes nothing. -/
def edit (toString : Number → Text) (s : Subscription) (e : Update × Nat) : Subscription :=
  (updateSubscription toString e.1 e.2 s).getD s

/-- The used bytes are some that metering can write, with their figure. -/
structure Metered (bytes : Nat) (s : Subscription) : Prop where
  used : s.usedTrafficBytes = bytes
  figure : TeamUsage.trafficBytesToGbNumber bytes = some s.usedTrafficGb

section

variable {toString : Number → Text}

theorem metered_of_applyUsage {s s' : Subscription} {sampledAt deltaBytes : Nat}
    (h : applyUsage toString sampledAt deltaBytes s = some s') :
    Metered s'.usedTrafficBytes s' := by
  simp only [applyUsage, Option.bind_eq_bind, Option.bind_eq_some_iff, Option.pure_def,
    Option.some.injEq] at h
  obtain ⟨figure, hfigure, -, -, -, -, used, hused, rfl⟩ := h
  refine ⟨rfl, ?_⟩
  dsimp only
  rw [TeamUsage.column_eq_some hused]
  exact hfigure

/-- An update that names no used traffic keeps the used bytes and their figure. -/
theorem metered_edit (h : Writes toString) {bytes : Nat} (hbytes : bytes < 2 ^ 52)
    {s : Subscription} (hs : Metered bytes s) {e : Update × Nat}
    (hnamed : e.1.usedTrafficGb = none) : Metered bytes (edit toString s e) := by
  unfold edit
  cases hupdate : updateSubscription toString e.1 e.2 s with
  | none => exact hs
  | some s' =>
    simp only [updateSubscription, hnamed, Option.getD_none, Option.bind_eq_bind,
      Option.bind_eq_some_iff, Option.pure_def, Option.some.injEq] at hupdate
    obtain ⟨expireAt, -, total, -, used, hused, rfl⟩ := hupdate
    rw [trafficGbNumberToBytes_of_bytes h hbytes hs.figure] at hused
    exact ⟨TeamUsage.column_eq_some hused, hs.figure⟩

theorem metered_edits (h : Writes toString) {bytes : Nat} (hbytes : bytes < 2 ^ 52)
    {edits : List (Update × Nat)} (hnamed : ∀ e ∈ edits, e.1.usedTrafficGb = none)
    {s : Subscription} (hs : Metered bytes s) : Metered bytes (edits.foldl (edit toString) s) := by
  induction edits generalizing s with
  | nil => exact hs
  | cons e edits ih =>
    have hstep := metered_edit h hbytes hs (hnamed e List.mem_cons_self)
    exact ih (fun e' he' => hnamed e' (List.mem_cons_of_mem e he')) hstep

end

/-! ## Texts with all digits -/

/-- 1.5. -/
def halfAndOne : Decimal := { whole := ['1'], fraction := some ['5'] }

/-- Integers are written without a point, and all other numbers with all their digits. -/
def exactDecimal (units : Nat) : Decimal :=
  if units % perOne = 0 then { whole := Nat.toDigits 10 (units / perOne) }
  else
    { whole := Nat.toDigits 10 (units * 5 ^ 1074)
      exponent := some (true, ['1', '0', '7', '4']) }

/-- One and a half has a short text. -/
def exactText : Number → Text
  | .finite units =>
    if units.toNat = 3 * 2 ^ 1073 then halfAndOne.text else (exactDecimal units.toNat).text
  | _ => []

theorem halfAndOne_valid : halfAndOne.Valid where
  whole := by decide
  fraction := by decide
  exponent := by simp [halfAndOne]

theorem halfAndOne_read :
    toUnits (halfAndOne.ratio.1 * perOne) halfAndOne.ratio.2 = 3 * 2 ^ 1073 := by
  have hsame : ∀ bit, 15 * 2 ^ (bit + 1) = 3 * 2 ^ bit * 10 := fun bit => by
    rw [Nat.pow_succ]
    ring
  have hratio : halfAndOne.ratio = (15, 10) := by decide
  rw [hratio, perOne, hsame 1073, toUnits_mul_self _ (by decide)]
  exact toUnits_of_small (by decide) 1073

theorem exactDecimal_valid (units : Nat) : (exactDecimal units).Valid := by
  unfold exactDecimal
  split_ifs
  · exact ⟨isDigits_toDigits _, by simp, by simp⟩
  · refine ⟨isDigits_toDigits _, by simp, ?_⟩
    rintro exponent hexponent
    obtain rfl := Option.some.inj hexponent
    decide

theorem ratio_toDigits (n : Nat) {exponent : Text} {k : Nat} (h : decimal exponent = k)
    (hk : 0 < k) :
    Decimal.ratio { whole := Nat.toDigits 10 n, exponent := some (true, exponent) } =
      (n, 10 ^ k) := by
  have hplaces : Decimal.places { whole := Nat.toDigits 10 n, exponent := some (true, exponent) } =
      (k : Int) := by
    simp [Decimal.places, Decimal.exponentValue, h]
  have hnot : ¬ (k : Int) ≤ 0 := by omega
  rw [Decimal.ratio, hplaces, if_neg hnot, Int.toNat_natCast]
  simp [Decimal.digits, decimal_toDigits]

theorem exactDecimal_read (value : Double) :
    toUnits ((exactDecimal value.units).ratio.1 * perOne) (exactDecimal value.units).ratio.2 =
      value.units := by
  unfold exactDecimal
  split_ifs with hinteger
  · have hratio : Decimal.ratio { whole := Nat.toDigits 10 (value.units / perOne) } =
        (value.units / perOne, 1) := by
      simp [Decimal.ratio, Decimal.places, Decimal.exponentValue, Decimal.digits, decimal_toDigits]
    rw [hratio, Nat.div_mul_cancel (Nat.dvd_of_mod_eq_zero hinteger)]
    exact value.rounded
  · have hscaled : ∀ k, toUnits (value.units * 5 ^ k * 2 ^ k) (10 ^ k) = value.units := fun k => by
      rw [Nat.mul_assoc, ← Nat.mul_pow, toUnits_mul_self _ (by positivity)]
      exact value.rounded
    have hdigits : decimal ['1', '0', '7', '4'] = 1074 := by decide
    rw [ratio_toDigits _ hdigits (by decide)]
    exact hscaled 1074

theorem writes_exactText : Writes exactText := by
  intro value hpos
  by_cases hhalf : value.units = 3 * 2 ^ 1073
  · refine ⟨halfAndOne, halfAndOne_valid, ?_, ?_⟩
    · rw [Double.toNumber, exactText, Int.toNat_natCast, if_pos hhalf]
    · rw [halfAndOne_read, hhalf]
  · refine ⟨exactDecimal value.units, exactDecimal_valid _, ?_, exactDecimal_read value⟩
    rw [Double.toNumber, exactText, Int.toNat_natCast, if_neg hhalf]

/-! ## Without loss -/

/-- Bytes and figures convert without loss below 2^52 bytes, so updates keep what metering wrote,
and the conversion to bytes keeps the order. -/
theorem conversions_lossless {toString : Number → Text} (h : Writes toString) :
    (∀ bytes < 2 ^ 52, ∃ value, TeamUsage.trafficBytesToGbNumber bytes = some value ∧
        trafficGbNumberToBytes toString value.toNumber = bytes) ∧
      (∀ s sampledAt deltaBytes metered,
        applyUsage toString sampledAt deltaBytes s = some metered →
        metered.usedTrafficBytes < 2 ^ 52 →
        ∀ edits : List (Update × Nat), (∀ e ∈ edits, e.1.usedTrafficGb = none) →
          (edits.foldl (edit toString) metered).usedTrafficBytes = metered.usedTrafficBytes) ∧
      ∀ x y : Number, x.IsDouble → y.IsDouble → y.isFinite = true → y.lt x = false →
        trafficGbNumberToBytes toString x ≤ trafficGbNumberToBytes toString y := by
  refine ⟨?_, ?_, ?_⟩
  · intro bytes hbytes
    obtain ⟨value, hvalue⟩ := exists_figure (hbytes.trans (by decide))
    exact ⟨value, hvalue, trafficGbNumberToBytes_of_bytes h hbytes hvalue⟩
  · intro s sampledAt deltaBytes metered hmetered hbytes edits hnamed
    exact (metered_edits h hbytes hnamed (metered_of_applyUsage hmetered)).used
  · intro x y hx hy hfinite hle
    exact trafficGbNumberToBytes_mono h hx hy hfinite hle

/-- The figure of some bytes. -/
def figure (bytes : Nat) (h : bytes < 2 ^ 53) : Double :=
  ⟨bytes * perByte, TeamUsage.toUnits_bytes h, mul_two_pow_lt h (by omega : 53 + 1044 ≤ 2098)⟩

theorem isDouble_figure {bytes : Nat} (h : bytes < 2 ^ 53) :
    (figure bytes h).toNumber.IsDouble :=
  ⟨(figure bytes h).rounded, (figure bytes h).bounded⟩

theorem lt_figure {a b : Nat} (h : a ≤ b) (ha : a < 2 ^ 53) (hb : b < 2 ^ 53) :
    (figure b hb).toNumber.lt (figure a ha).toNumber = false := by
  have hle : a * perByte ≤ b * perByte := Nat.mul_le_mul_right _ h
  simp only [figure, Double.toNumber, Number.lt, decide_eq_false_iff_not]
  omega

/-- Half a GB of two is used. -/
def start : Subscription :=
  { totalTrafficGb := figure (2 ^ 31) (by decide), usedTrafficGb := figure (2 ^ 29) (by decide)
    remainingTrafficGb := figure (3 * 2 ^ 29) (by decide)
    totalTrafficBytes := 2 ^ 31, usedTrafficBytes := 2 ^ 29, expireAt := 9, state := .active }

theorem applyUsage_start : ∃ metered, applyUsage exactText 1 (2 ^ 30) start = some metered ∧
    metered.usedTrafficBytes = 3 * 2 ^ 29 := by
  obtain ⟨used, hused⟩ := exists_figure (by decide : 3 * 2 ^ 29 < 2 ^ 53)
  obtain ⟨remaining, hremaining⟩ := exists_figure (by decide : 2 ^ 29 < 2 ^ 53)
  refine ⟨{ start with
    usedTrafficGb := used, usedTrafficBytes := 3 * 2 ^ 29, remainingTrafficGb := remaining },
    ?_, rfl⟩
  norm_num at hused hremaining
  simp [applyUsage, start, hused, hremaining, column]

/-- Metering writes one and a half GB, and updates that change other columns keep it. -/
theorem conversions_lossless_exact :
    (∃ value, TeamUsage.trafficBytesToGbNumber (3 * 2 ^ 29) = some value ∧
        trafficGbNumberToBytes exactText value.toNumber = 3 * 2 ^ 29) ∧
      (∃ metered, applyUsage exactText 1 (2 ^ 30) start = some metered ∧
        metered.usedTrafficBytes = 3 * 2 ^ 29 ∧
        ([({ state := some .paused }, 2), ({ expireAt := some (some 20) }, 3)].foldl
          (edit exactText) metered).usedTrafficBytes = 3 * 2 ^ 29) ∧
      trafficGbNumberToBytes exactText (figure (3 * 2 ^ 29) (by decide)).toNumber ≤
        trafficGbNumberToBytes exactText (figure (2 ^ 31) (by decide)).toNumber := by
  obtain ⟨hback, hkept, hmono⟩ := conversions_lossless writes_exactText
  refine ⟨hback _ (by decide), ?_, ?_⟩
  · obtain ⟨metered, hmetered, hused⟩ := applyUsage_start
    refine ⟨metered, hmetered, hused, ?_⟩
    rw [hkept start 1 (2 ^ 30) metered hmetered (by omega) _ (by decide), hused]
  · exact hmono _ _ (isDouble_figure _) (isDouble_figure _) rfl (lt_figure (by decide) _ _)

end ChordV.Api.TrafficText
