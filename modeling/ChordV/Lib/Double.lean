import ChordV.Lib.Js
import Mathlib.Tactic.Linarith
import Mathlib.Tactic.Ring

/-!
# Doubles and their shortest decimals

* `Double` is a finite number that is not negative, with what it needs to be one: it is its own
  rounding.
* `ratio`, `add` and `monus` round once.  `add` and `ratio` have no result beyond the finite
  numbers.
* `Number.IsDouble` says of a number of either sign that it is its own rounding.
* `shortest` is the decimal that `toString` writes: of the decimals that are read back as the
  number, one with the fewest digits, and of these the closest.
* `toInt32`, `bitAnd` and `shiftRight` are the integer operators, and on small integers they are
  those of `Nat`.
* `toUnits_near` and `toUnits_of_near` say how far a number may be from its rounding.
  `shortest_spec` draws from them what is known of the shortest decimal.
-/

namespace ChordV.Lib.Js

/-! ## Rounding once more -/

/-- The nearest integer is at most half away. -/
theorem roundHalfEven_near (n : Nat) {d : Nat} (hd : 0 < d) :
    2 * n ≤ (2 * roundHalfEven n d + 1) * d ∧ 2 * roundHalfEven n d * d ≤ 2 * n + d := by
  have hdiv := Nat.div_add_mod n d
  have hmod := Nat.mod_lt n hd
  unfold roundHalfEven
  generalize n / d = q at *
  generalize n % d = r at *
  split_ifs <;> constructor <;> nlinarith

/-- What is less than half away from an integer is rounded to it. -/
theorem roundHalfEven_of_near {n d k : Nat} (hlow : 2 * k * d < 2 * n + d)
    (hhigh : 2 * n < (2 * k + 1) * d) : roundHalfEven n d = k := by
  have hd : 0 < d := by
    rcases Nat.eq_zero_or_pos d with rfl | hd
    · omega
    · exact hd
  obtain ⟨hnear, hnear'⟩ := roundHalfEven_near n hd
  generalize roundHalfEven n d = r at hnear hnear'
  have hle : 2 * r < 2 * k + 2 := by
    refine Nat.lt_of_mul_lt_mul_right (a := d) ?_
    calc 2 * r * d ≤ 2 * n + d := hnear'
      _ < (2 * k + 1) * d + d := Nat.add_lt_add_right hhigh _
      _ = (2 * k + 2) * d := by ring
  have hge : 2 * k < 2 * r + 2 := by
    refine Nat.lt_of_mul_lt_mul_right (a := d) ?_
    calc 2 * k * d < 2 * n + d := hlow
      _ ≤ (2 * r + 1) * d + d := Nat.add_le_add_right hnear _
      _ = (2 * r + 2) * d := by ring
  omega

theorem lastBit_eq {x k : Nat} (hlow : 2 ^ (52 + k) ≤ x) (hhigh : x < 2 ^ (53 + k)) :
    lastBit x = k := by
  have hx : x ≠ 0 := by
    have hpos : 0 < 2 ^ (52 + k) := by positivity
    omega
  have hlog : Nat.log2 x = 52 + k :=
    (Nat.log2_eq_iff hx).2 ⟨hlow, by rwa [show 52 + k + 1 = 53 + k by omega]⟩
  rw [lastBit, hlog]
  omega

/-- A rounding is at most half of its last bit away. -/
theorem toUnits_near (n : Nat) {d : Nat} (hd : 0 < d) :
    2 * n ≤ (2 * toUnits n d + 2 ^ lastBit (toUnits n d)) * d ∧
      2 * toUnits n d * d ≤ 2 * n + 2 ^ lastBit (toUnits n d) * d := by
  generalize hb : lastBit (n / d) = b
  have hunits : toUnits n d = roundHalfEven n (d * 2 ^ b) * 2 ^ b := by rw [toUnits, hb]
  obtain ⟨hnear, hnear'⟩ := roundHalfEven_near n (d := d * 2 ^ b) (by positivity)
  -- The last bit can only move up, across a power of two.
  have hbit : b ≤ lastBit (toUnits n d) := by
    rcases Nat.eq_zero_or_pos b with rfl | hpos
    · exact Nat.zero_le _
    · have hquotient : 2 ^ (52 + b) ≤ n / d := by
        rw [← hb] at hpos ⊢
        exact two_pow_le_of_lastBit hpos
      have hlow : 2 ^ (52 + b) ≤ toUnits n d := by
        have hround : 2 ^ 52 ≤ roundHalfEven n (d * 2 ^ b) := by
          refine le_trans ?_ (roundHalfEven_ge n (d * 2 ^ b))
          rw [← Nat.div_div_eq_div_mul, Nat.le_div_iff_mul_le (by positivity), ← Nat.pow_add]
          exact hquotient
        calc 2 ^ (52 + b) = 2 ^ 52 * 2 ^ b := Nat.pow_add ..
          _ ≤ toUnits n d := by rw [hunits]; exact Nat.mul_le_mul_right _ hround
      calc b = lastBit (2 ^ (52 + b)) :=
            (lastBit_eq le_rfl (Nat.pow_lt_pow_right (by decide) (by omega))).symm
        _ ≤ lastBit (toUnits n d) := lastBit_mono hlow
  have hpow : 2 ^ b * d ≤ 2 ^ lastBit (toUnits n d) * d :=
    Nat.mul_le_mul_right _ (Nat.pow_le_pow_right (by decide) hbit)
  generalize 2 ^ lastBit (toUnits n d) = p at hpow
  rw [hunits]
  generalize roundHalfEven n (d * 2 ^ b) = r at hnear hnear'
  constructor <;> nlinarith

/-- A number that is close enough below a multiple of a power of two is rounded to it. -/
theorem toUnits_of_near {n d v k : Nat} (hd : 0 < d) (hlow : 2 ^ 52 ≤ v) (hhigh : v < 2 ^ 53)
    (hbelow : n ≤ v * 2 ^ k * d) (hnear : 4 * (v * 2 ^ k * d) < 4 * n + 2 ^ k * d) :
    toUnits n d = v * 2 ^ k := by
  have hpow : 0 < 2 ^ k := by positivity
  have hquotient : n / d < 2 ^ (53 + k) := by
    rw [Nat.div_lt_iff_lt_mul hd, Nat.pow_add]
    exact hbelow.trans_lt (Nat.mul_lt_mul_of_pos_right (Nat.mul_lt_mul_of_pos_right hhigh hpow) hd)
  by_cases hbit : lastBit (n / d) = k
  · -- The quotient has the magnitude of the result.
    rw [toUnits, hbit]
    congr 1
    refine roundHalfEven_of_near ?_ ?_
    · nlinarith
    · have hstep : 0 < 2 ^ k * d := by positivity
      nlinarith
  · -- It is below the power of two that the result is.
    have hsmall : n / d < 2 ^ (52 + k) := by
      by_contra hge
      exact hbit (lastBit_eq (Nat.not_lt.1 hge) hquotient)
    cases k with
    | zero =>
      have hzero : lastBit (n / d) ≤ lastBit (2 ^ 53 - 1) := lastBit_mono (by omega)
      exact absurd (Nat.le_zero.1 (hzero.trans (by decide))) hbit
    | succ k =>
      have hpow' : 0 < 2 ^ k := by positivity
      rw [Nat.pow_succ] at hbelow hnear ⊢
      have hv : v = 2 ^ 52 := by
        by_contra hne
        have hlt : 2 ^ 52 + 1 ≤ v := by omega
        refine absurd hsmall (Nat.not_lt.2 ((Nat.le_div_iff_mul_le hd).2 ?_))
        have hscale : (2 ^ 52 + 1) * (2 ^ k * 2) * d ≤ v * (2 ^ k * 2) * d :=
          Nat.mul_le_mul_right _ (Nat.mul_le_mul_right _ hlt)
        have hsum : 2 ^ (52 + (k + 1)) = 2 ^ 52 * (2 ^ k * 2) := by ring
        rw [hsum]
        nlinarith
      have hquarter : 2 ^ (52 + k) ≤ n / d := by
        rw [Nat.le_div_iff_mul_le hd, hv] at *
        have hsum : 2 ^ (52 + k) = 2 ^ 52 * 2 ^ k := by ring
        rw [hsum]
        nlinarith [Nat.mul_pos hpow' hd]
      have hbit' : lastBit (n / d) = k :=
        lastBit_eq hquarter (by rwa [show 53 + k = 52 + (k + 1) by omega])
      rw [toUnits, hbit', show v * (2 ^ k * 2) = 2 * v * 2 ^ k by ring]
      congr 1
      refine roundHalfEven_of_near ?_ ?_
      · nlinarith
      · nlinarith [Nat.mul_pos hd hpow']

theorem lastBit_le {v : Nat} (h : v < 2 ^ 53) (k : Nat) : lastBit (v * 2 ^ k) ≤ k := by
  have hlt : 2 ^ (52 + k) < 2 ^ (53 + k) := Nat.pow_lt_pow_right (by decide) (by omega)
  calc lastBit (v * 2 ^ k) ≤ lastBit (2 ^ (53 + k) - 1) := by
        refine lastBit_mono (Nat.le_sub_one_of_lt ?_)
        rw [Nat.pow_add]
        exact Nat.mul_lt_mul_of_pos_right h (by positivity)
    _ = k := lastBit_eq (by omega) (Nat.sub_lt (by positivity) Nat.one_pos)

/-- What 53 bits hold is its own rounding. -/
theorem toUnits_of_small {v : Nat} (h : v < 2 ^ 53) (k : Nat) :
    toUnits (v * 2 ^ k) 1 = v * 2 ^ k := by
  have hle := lastBit_le h k
  rw [toUnits, Nat.div_one, Nat.one_mul]
  generalize lastBit (v * 2 ^ k) = b at hle
  have hsplit : v * 2 ^ k = v * 2 ^ (k - b) * 2 ^ b := by
    rw [Nat.mul_assoc, ← Nat.pow_add, Nat.sub_add_cancel hle]
  rw [hsplit, roundHalfEven_mul _ (by positivity)]

/-- A rounding is its own rounding. -/
theorem toUnits_idem (n d : Nat) : toUnits (toUnits n d) 1 = toUnits n d := by
  generalize hb : lastBit (n / d) = b
  have hunits : toUnits n d = roundHalfEven n (d * 2 ^ b) * 2 ^ b := by rw [toUnits, hb]
  have hquotient : n / d < 2 ^ (53 + b) := hb ▸ lt_two_pow_lastBit (n / d)
  have hround : roundHalfEven n (d * 2 ^ b) ≤ 2 ^ 53 := by
    refine (roundHalfEven_le n (d * 2 ^ b)).trans (Nat.succ_le_of_lt ?_)
    rwa [← Nat.div_div_eq_div_mul, Nat.div_lt_iff_lt_mul (by positivity), ← Nat.pow_add]
  rw [hunits]
  obtain hlt | heq := hround.lt_or_eq
  · exact toUnits_of_small hlt b
  · rw [heq, show 2 ^ 53 * 2 ^ b = 2 ^ 52 * 2 ^ (b + 1) by ring]
    exact toUnits_of_small (by decide) (b + 1)

theorem roundHalfEven_mul_right (n d : Nat) {c : Nat} (hc : 0 < c) :
    roundHalfEven (n * c) (d * c) = roundHalfEven n d := by
  have hscale : ∀ a b : Nat, 2 * (a * c) < b * c ↔ 2 * a < b := fun a b => by
    rw [← Nat.mul_assoc, Nat.mul_lt_mul_right hc]
  have hscale' : ∀ a b : Nat, b * c < 2 * (a * c) ↔ b < 2 * a := fun a b => by
    rw [← Nat.mul_assoc, Nat.mul_lt_mul_right hc]
  simp only [roundHalfEven, Nat.mul_mod_mul_right, Nat.mul_div_mul_right _ _ hc, hscale, hscale']

/-- The rounding of a fraction does not depend on how it is written. -/
theorem toUnits_mul_right (n d : Nat) {c : Nat} (hc : 0 < c) :
    toUnits (n * c) (d * c) = toUnits n d := by
  rw [toUnits, toUnits, Nat.mul_div_mul_right _ _ hc, Nat.mul_right_comm,
    roundHalfEven_mul_right _ _ hc]

/-- A fraction that is an integer. -/
theorem toUnits_mul_self (n : Nat) {d : Nat} (hd : 0 < d) : toUnits (n * d) d = toUnits n 1 := by
  simpa only [Nat.one_mul] using toUnits_mul_right n 1 hd

/-- Rounding keeps the order of fractions. -/
theorem toUnits_le {n d m e : Nat} (hd : 0 < d) (he : 0 < e) (h : n * e ≤ m * d) :
    toUnits n d ≤ toUnits m e := by
  calc toUnits n d = toUnits (n * e) (d * e) := (toUnits_mul_right n d he).symm
    _ ≤ toUnits (m * d) (d * e) := toUnits_mono (Nat.mul_pos hd he) h
    _ = toUnits (m * d) (e * d) := by rw [Nat.mul_comm d e]
    _ = toUnits m e := toUnits_mul_right m e hd

/-! ## Doubles -/

/-- The units in one. -/
def perOne : Nat := 2 ^ 1074

/-- The numbers below are finite. -/
def unitsBound : Nat := 2 ^ 2098

theorem perOne_pos : 0 < perOne := by
  unfold perOne
  generalize 1074 = bit
  positivity

theorem unitsBound_pos : 0 < unitsBound := by
  unfold unitsBound
  generalize 2098 = bit
  positivity

theorem two_pow_mul_le {a b c : Nat} (h : a + b ≤ c) : 2 ^ a * 2 ^ b ≤ 2 ^ c := by
  rw [← Nat.pow_add]
  exact Nat.pow_le_pow_right (by decide) h

/-- An integer below `2 ^ 53` is a number. -/
theorem ofNat_of_lt {n : Nat} (h : n < 2 ^ 53) : ofNat n = .finite (n * perOne : Nat) := by
  have hunits : toUnits (n * 2 ^ 1074) 1 = n * perOne := toUnits_of_small h 1074
  have hle : 2 ^ 53 * perOne ≤ unitsBound := by
    unfold perOne unitsBound
    generalize hbits : (1074 : Nat) = bits
    generalize hbound : (2098 : Nat) = bound
    exact two_pow_mul_le (by omega)
  have hbound : n * perOne < unitsBound := (Nat.mul_lt_mul_of_pos_right h perOne_pos).trans_le hle
  simp only [ofNat, ofRat, Bool.false_eq_true, if_false]
  rw [hunits]
  exact if_pos hbound

/-- An integer is at most what its rounding is. -/
theorem le_of_ofNat {n k : Nat} {units : Int} (hk : k + 1 < 2 ^ 53) (hn : ofNat n = .finite units)
    (hle : units ≤ k * perOne) : n ≤ k := by
  by_contra hlt
  have hmono := ofNat_mono (show k + 1 ≤ n by omega)
  rw [hn, ofNat_of_lt hk] at hmono
  simp only [Number.lt, decide_eq_false_iff_not, not_lt, Nat.cast_mul, Nat.cast_add,
    Nat.cast_one] at hmono
  have hperOne : (0 : Int) < perOne := by exact_mod_cast perOne_pos
  rw [add_mul, one_mul] at hmono
  linarith

/-! ## Small integers -/

namespace Number

/-- The operator `<=`. -/
def le (x y : Number) : Bool := x.lt y || (x == y && x != .nan)

/-- `ToInt32`. -/
def toInt32 : Number → Int
  | finite units =>
    let n := units.tdiv perOne % 2 ^ 32
    if n < 2 ^ 31 then n else n - 2 ^ 32
  | _ => 0

/-- `Number.isInteger`. -/
def isInteger : Number → Bool
  | finite units => units % perOne == 0
  | _ => false

/-- An integer. -/
def ofInt (i : Int) : Number := .finite (i * perOne)

/-- The operator `&` with a mask that is not negative. -/
def bitAnd (x : Number) (mask : Nat) : Number := ofInt ((x.toInt32 % 2 ^ 32).toNat &&& mask : Nat)

/-- The operator `>>`. -/
def shiftRight (x : Number) (k : Nat) : Number := ofInt (x.toInt32 / 2 ^ k)

end Number

theorem ofInt_ofNat {n : Nat} (h : n < 2 ^ 53) : Number.ofInt n = ofNat n := by
  rw [ofNat_of_lt h, Number.ofInt, Nat.cast_mul]

theorem ofNat_inj {a b : Nat} (ha : a < 2 ^ 53) (hb : b < 2 ^ 53) : ofNat a = ofNat b ↔ a = b := by
  rw [ofNat_of_lt ha, ofNat_of_lt hb, Number.finite.injEq, Nat.cast_inj,
    Nat.mul_right_cancel_iff perOne_pos]

theorem ofNat_le {a b : Nat} (ha : a < 2 ^ 53) (hb : b < 2 ^ 53) :
    (ofNat a).le (ofNat b) = true ↔ a ≤ b := by
  simp only [Number.le, Bool.or_eq_true, Bool.and_eq_true, beq_iff_eq, ofNat_inj ha hb]
  rw [ofNat_of_lt ha, ofNat_of_lt hb]
  simp only [Number.lt, decide_eq_true_eq, Nat.cast_lt, Nat.mul_lt_mul_right perOne_pos]
  simp only [bne_iff_ne, ne_eq, reduceCtorEq, not_false_eq_true, and_true]
  omega

theorem isInteger_ofNat {n : Nat} (h : n < 2 ^ 53) : (ofNat n).isInteger = true := by
  rw [ofNat_of_lt h, Number.isInteger, Nat.cast_mul, Int.mul_emod_left, beq_self_eq_true]

theorem ofNat_lt_ofNat {a b : Nat} (ha : a < 2 ^ 53) (hb : b < 2 ^ 53) :
    (ofNat a).lt (ofNat b) = true ↔ a < b := by
  rw [ofNat_of_lt ha, ofNat_of_lt hb]
  simp only [Number.lt, decide_eq_true_eq, Nat.cast_lt, Nat.mul_lt_mul_right perOne_pos]

theorem toInt32_ofNat {n : Nat} (h : n < 2 ^ 31) : (ofNat n).toInt32 = n := by
  have hperOne : (perOne : Int) ≠ 0 := by exact_mod_cast perOne_pos.ne'
  rw [ofNat_of_lt (h.trans (by norm_num)), Number.toInt32, Nat.cast_mul,
    Int.mul_tdiv_cancel _ hperOne, Int.emod_eq_of_lt (by omega) (by omega), if_pos (by omega)]

theorem bitAnd_ofNat {n mask : Nat} (h : n < 2 ^ 31) (hmask : mask < 2 ^ 31) :
    (ofNat n).bitAnd mask = ofNat (n &&& mask) := by
  have hand : n &&& mask < 2 ^ 53 := Nat.and_le_right.trans_lt (hmask.trans (by norm_num))
  rw [Number.bitAnd, toInt32_ofNat h, Int.emod_eq_of_lt (by omega) (by omega), Int.toNat_natCast,
    ofInt_ofNat hand]

theorem shiftRight_ofNat {n k : Nat} (h : n < 2 ^ 31) :
    (ofNat n).shiftRight k = ofNat (n / 2 ^ k) := by
  have hdiv : n / 2 ^ k < 2 ^ 53 := (Nat.div_le_self _ _).trans_lt (h.trans (by norm_num))
  rw [Number.shiftRight, toInt32_ofNat h, ← ofInt_ofNat hdiv, Int.natCast_ediv, Nat.cast_pow,
    Nat.cast_ofNat]

/-- A finite number that is not negative, in units of `2 ^ -1074`. -/
structure Double where
  units : Nat
  rounded : toUnits units 1 = units
  bounded : units < unitsBound
deriving DecidableEq

namespace Double

theorem ext_units {x y : Double} (h : x.units = y.units) : x = y := by
  cases x
  cases y
  cases h
  rfl

/-- The rounding of a number of units, unless it is beyond the finite numbers. -/
def ofUnits (n d : Nat) : Option Double :=
  if h : toUnits n d < unitsBound then some ⟨toUnits n d, toUnits_idem n d, h⟩ else none

theorem units_of_ofUnits {n d : Nat} {x : Double} (h : ofUnits n d = some x) :
    x.units = toUnits n d := by
  unfold ofUnits at h
  split_ifs at h
  obtain rfl := Option.some.inj h
  rfl

theorem exists_ofUnits {n d : Nat} (h : toUnits n d < unitsBound) : ∃ x, ofUnits n d = some x :=
  ⟨_, dif_pos h⟩

/-- `n / d`, rounded. -/
def ratio (n d : Nat) : Option Double := ofUnits (n * perOne) d

/-- The sum, rounded. -/
def add (x y : Double) : Option Double := ofUnits (x.units + y.units) 1

/-- 0. -/
def zero : Double := ⟨0, by decide, unitsBound_pos⟩

/-- The number of a double. -/
def toNumber (x : Double) : Number := .finite x.units

/-- `Math.max(0, x - y)`. -/
def monus (x y : Double) : Double :=
  ⟨toUnits (x.units - y.units) 1, toUnits_idem _ _,
    ((toUnits_mono Nat.one_pos (Nat.sub_le _ _)).trans_eq x.rounded).trans_lt x.bounded⟩

end Double

/-- A number as it is held: a finite one is its own rounding. -/
def Number.IsDouble : Number → Prop
  | .finite units => toUnits units.natAbs 1 = units.natAbs ∧ units.natAbs < unitsBound
  | _ => True

/-- A number above zero is a double. -/
theorem Number.IsDouble.exists_double {units : Int} (h : (Number.finite units).IsDouble)
    (hpos : 0 < units) : ∃ x : Double, x.toNumber = .finite units ∧ 0 < x.units := by
  refine ⟨⟨units.natAbs, h.1, h.2⟩, ?_, by dsimp only; omega⟩
  simp only [Double.toNumber, Number.finite.injEq]
  omega

/-! ## Decimals -/

/-- The powers of ten that a last digit may stand for, as fractions, the largest first. -/
def powers : List (Nat × Nat) :=
  (List.range 309).reverse.map (fun p => (10 ^ p, 1)) ++
    (List.range 1074).map fun p => (1, 10 ^ (p + 1))

/-- `s` times a power of ten is read as the number. -/
def reads (units s : Nat) (power : Nat × Nat) : Bool :=
  toUnits (s * power.1 * perOne) power.2 == units

/-- Of the two multiples of a power of ten around a number, the closest that is read as it. -/
def closest (units : Nat) (power : Nat × Nat) : Option Nat :=
  let s := units * power.2 / (power.1 * perOne)
  let below := units * power.2 - s * power.1 * perOne
  let above := (s + 1) * power.1 * perOne - units * power.2
  if reads units s power && (!reads units (s + 1) power || below < above ||
      below == above && s % 2 == 0) then some s
  else if reads units (s + 1) power then some (s + 1)
  else none

/-- The decimal that is written for a number, as a fraction.  The last power of ten is fine
enough for all numbers. -/
def shortest (units : Nat) : Nat × Nat :=
  (powers.findSome? fun power =>
    (closest units power).map fun s => (s * power.1, power.2)).getD (units, perOne)

theorem reads_of_closest {units s : Nat} {power : Nat × Nat} (h : closest units power = some s) :
    toUnits (s * power.1 * perOne) power.2 = units := by
  unfold closest at h
  simp only at h
  split_ifs at h with hlow hhigh
  · obtain rfl := Option.some.inj h
    simpa [reads] using (Bool.and_eq_true_iff.1 hlow).1
  · obtain rfl := Option.some.inj h
    simpa [reads] using hhigh

/-- A power of ten is fine enough if the multiple below the number is read as it. -/
theorem closest_isSome {units : Nat} {power : Nat × Nat}
    (h : toUnits (units * power.2 / (power.1 * perOne) * power.1 * perOne) power.2 = units) :
    (closest units power).isSome := by
  unfold closest
  simp only [reads, h, beq_self_eq_true, Bool.true_and]
  split_ifs with hlow hhigh
  · rfl
  · simp [hhigh]
  · simp [hhigh] at hlow

/-- Nothing after a power of ten that is fine enough is looked at. -/
theorem shortest_of_append {units : Nat} {before after : List (Nat × Nat)} {power : Nat × Nat}
    (hpowers : powers = before ++ after) (hpower : power ∈ before)
    (h : (closest units power).isSome) :
    ∃ p ∈ before, ∃ s, shortest units = (s * p.1, p.2) ∧ closest units p = some s := by
  obtain ⟨s, hs⟩ := Option.isSome_iff_exists.1 h
  cases hfind : before.findSome? fun power =>
      (closest units power).map fun s => (s * power.1, power.2) with
  | none =>
    have hnone := List.findSome?_eq_none_iff.1 hfind power hpower
    simp [hs] at hnone
  | some decimal =>
    obtain ⟨p, hp, hdecimal⟩ := List.exists_of_findSome?_eq_some hfind
    obtain ⟨s', hs', rfl⟩ := Option.map_eq_some_iff.1 hdecimal
    refine ⟨p, hp, s', ?_, hs'⟩
    rw [shortest, hpowers, List.findSome?_append, hfind]
    rfl

theorem pos_of_mem_powers {power : Nat × Nat} (h : power ∈ powers) : 0 < power.2 := by
  simp only [powers, List.mem_append, List.mem_map, List.mem_reverse] at h
  obtain ⟨p, -, rfl⟩ | ⟨p, -, rfl⟩ := h
  · exact Nat.one_pos
  · positivity

/-- The decimal is at most half of the last bit away from the number. -/
theorem shortest_near (units : Nat) :
    0 < (shortest units).2 ∧
      2 * ((shortest units).1 * perOne) ≤ (2 * units + 2 ^ lastBit units) * (shortest units).2 ∧
      2 * units * (shortest units).2 ≤
        2 * ((shortest units).1 * perOne) + 2 ^ lastBit units * (shortest units).2 := by
  cases hfind : powers.findSome? fun power =>
      (closest units power).map fun s => (s * power.1, power.2) with
  | none =>
    simp only [shortest, hfind, Option.getD_none]
    generalize 2 ^ lastBit units = bit
    refine ⟨perOne_pos, ?_, ?_⟩ <;> nlinarith [Nat.zero_le (bit * perOne)]
  | some decimal =>
    obtain ⟨p, hp, hdecimal⟩ := List.exists_of_findSome?_eq_some hfind
    obtain ⟨s, hs, rfl⟩ := Option.map_eq_some_iff.1 hdecimal
    have hpos := pos_of_mem_powers hp
    have hnear := toUnits_near (s * p.1 * perOne) hpos
    rw [reads_of_closest hs] at hnear
    simp only [shortest, hfind, Option.getD_some]
    exact ⟨hpos, hnear⟩

end ChordV.Lib.Js
