import ChordV.Api.Model
import ChordV.Lib.Double

/-!
# Traffic in GB and in bytes

`traffic-bytes.utils.ts`, with the figures in GB as doubles.

* `trafficGbNumberToBytes` reads the decimal that is written for the figure.
* `trafficGbNumberToBytes_of_bytes`: below 2^53 bytes, the figure of some bytes is read as these
  bytes.
-/

namespace ChordV.Api.TeamUsage

open Lib Lib.Js

/-- `trafficGbNumberToBytes`: the decimal of the number times 2^30, rounded half up. -/
def trafficGbNumberToBytes (value : Double) : Nat :=
  if value.units = 0 then 0
  else
    let (numerator, denominator) := shortest value.units
    (numerator * gbInBytes + denominator / 2) / denominator

/-- `trafficBytesToGbNumber`: the parts above and below one GB are exact, and their sum is
rounded. -/
def trafficBytesToGbNumber (value : Nat) : Option Double :=
  if 2 ^ 53 - 1 < value / gbInBytes then none else Double.ratio value gbInBytes

/-! ## Below 2^53 bytes -/

/-- The units in a byte. -/
def perByte : Nat := 2 ^ 1044

theorem perByte_pos : 0 < perByte := by
  unfold perByte
  generalize 1044 = bit
  positivity

/-- Half a byte is a power of two as well. -/
theorem perByte_eq : ∃ bit, perByte = 2 ^ (bit + 1) :=
  ⟨1043, congrArg (2 ^ ·) (by omega : 1044 = 1043 + 1)⟩

theorem perOne_eq : perOne = perByte * gbInBytes := by
  rw [perOne, perByte, show gbInBytes = 2 ^ 30 from rfl, ← Nat.pow_add]

theorem toUnits_bytes {bytes : Nat} (h : bytes < 2 ^ 53) :
    toUnits (bytes * perByte) 1 = bytes * perByte := by
  unfold perByte
  generalize 1044 = bit
  exact toUnits_of_small h bit

/-- The figure of some bytes is exact. -/
theorem units_of_bytes {bytes : Nat} (h : bytes < 2 ^ 53) {value : Double}
    (hvalue : trafficBytesToGbNumber bytes = some value) : value.units = bytes * perByte := by
  unfold trafficBytesToGbNumber at hvalue
  split_ifs at hvalue
  rw [Double.units_of_ofUnits hvalue, perOne_eq, ← Nat.mul_assoc,
    toUnits_mul_self _ (by decide), toUnits_bytes h]

/-- The powers of ten down to `10 ^ -10`. -/
def coarsePowers : List (Nat × Nat) :=
  (List.range 309).reverse.map (fun p => (10 ^ p, 1)) ++
    (List.range 10).map fun p => (1, 10 ^ (p + 1))

theorem powers_eq : powers = coarsePowers ++
    ((List.range 1064).map (10 + ·)).map fun p => (1, 10 ^ (p + 1)) := by
  rw [powers, coarsePowers, List.append_assoc, ← List.map_append,
    show 1074 = 10 + 1064 from rfl, List.range_add]

theorem dvd_of_mem_coarsePowers {power : Nat × Nat} (h : power ∈ coarsePowers) :
    power.2 ∣ 10 ^ 10 := by
  simp only [coarsePowers, List.mem_append, List.mem_map, List.mem_reverse, List.mem_range] at h
  obtain ⟨p, -, rfl⟩ | ⟨p, hp, rfl⟩ := h
  · exact one_dvd _
  · exact Nat.pow_dvd_pow 10 (by omega)

/-- With all 53 bits in use, ten decimal places are enough. -/
theorem shortest_of_bytes {bytes : Nat} (hlow : 2 ^ 52 ≤ bytes) (hhigh : bytes < 2 ^ 53) :
    (shortest (bytes * perByte)).2 ∣ 10 ^ 10 := by
  have hmem : (1, 10 ^ 10) ∈ coarsePowers :=
    List.mem_append_right _ (List.mem_map.2 ⟨9, by decide, rfl⟩)
  have hfine : (closest (bytes * perByte) (1, 10 ^ 10)).isSome := by
    refine closest_isSome ?_
    dsimp only
    rw [Nat.one_mul, Nat.mul_one]
    have hbelow := Nat.div_mul_le_self (bytes * perByte * 10 ^ 10) perOne
    have habove := Nat.lt_div_mul_add (a := bytes * perByte * 10 ^ 10) perOne_pos
    have hpos := perByte_pos
    generalize bytes * perByte * 10 ^ 10 / perOne * perOne = n at hbelow habove
    rw [perOne_eq, show gbInBytes = 2 ^ 30 from rfl] at habove
    unfold perByte at *
    generalize 1044 = bit at *
    refine toUnits_of_near (by decide) hlow hhigh hbelow ?_
    generalize bytes * 2 ^ bit = units at *
    omega
  obtain ⟨power, hpower, s, hshortest, -⟩ :=
    shortest_of_append powers_eq hmem hfine
  have hdvd := dvd_of_mem_coarsePowers hpower
  rw [hshortest]
  exact hdvd

/-- How far a fraction is from some bytes if it is half of the last bit away, and a byte has room
for `m` last bits. -/
theorem near_perByte {bytes n d m : Nat}
    (hnear : 2 * (n * perOne) ≤ (2 * (bytes * perByte) + 2 ^ lastBit (bytes * perByte)) * d)
    (hnear' : 2 * (bytes * perByte) * d ≤
      2 * (n * perOne) + 2 ^ lastBit (bytes * perByte) * d)
    (hm : m * 2 ^ lastBit (bytes * perByte) ≤ perByte) :
    m * 2 * (n * gbInBytes) ≤ (m * 2 * bytes + 1) * d ∧
      m * 2 * bytes * d ≤ m * 2 * (n * gbInBytes) + d := by
  rw [perOne_eq] at hnear hnear'
  generalize 2 ^ lastBit (bytes * perByte) = bit at *
  have hscaled : m * bit * d ≤ perByte * d := Nat.mul_le_mul_right d hm
  constructor <;> refine Nat.le_of_mul_le_mul_right ?_ perByte_pos
  · calc m * 2 * (n * gbInBytes) * perByte = m * (2 * (n * (perByte * gbInBytes))) := by ring
      _ ≤ m * ((2 * (bytes * perByte) + bit) * d) := Nat.mul_le_mul_left m hnear
      _ = m * 2 * bytes * perByte * d + m * bit * d := by ring
      _ ≤ m * 2 * bytes * perByte * d + perByte * d := Nat.add_le_add_left hscaled _
      _ = (m * 2 * bytes + 1) * d * perByte := by ring
  · calc m * 2 * bytes * d * perByte = m * (2 * (bytes * perByte) * d) := by ring
      _ ≤ m * (2 * (n * (perByte * gbInBytes)) + bit * d) := Nat.mul_le_mul_left m hnear'
      _ = m * 2 * (n * gbInBytes) * perByte + m * bit * d := by ring
      _ ≤ m * 2 * (n * gbInBytes) * perByte + perByte * d := Nat.add_le_add_left hscaled _
      _ = (m * 2 * (n * gbInBytes) + d) * perByte := by ring

/-- Below 2^52 bytes, a byte has room for two last bits. -/
theorem two_lastBits_le {bytes : Nat} (h : bytes < 2 ^ 52) :
    2 * 2 ^ lastBit (bytes * perByte) ≤ perByte := by
  obtain ⟨bit, hpow⟩ := perByte_eq
  have hle : lastBit (bytes * perByte) ≤ bit := by
    rw [show bytes * perByte = 2 * bytes * 2 ^ bit by rw [hpow, Nat.pow_succ]; ring]
    exact lastBit_le (by omega) bit
  calc 2 * 2 ^ lastBit (bytes * perByte) ≤ 2 * 2 ^ bit :=
        Nat.mul_le_mul_left 2 (Nat.pow_le_pow_right (by decide) hle)
    _ = perByte := by rw [hpow, Nat.pow_succ, Nat.mul_comm]

/-- The decimal of some bytes is less than half a byte above, and at most half a byte below. -/
theorem shortest_near_bytes {bytes : Nat} (h : bytes < 2 ^ 53) {n d : Nat}
    (hshortest : shortest (bytes * perByte) = (n, d)) :
    0 < d ∧ 2 * (n * gbInBytes) < (2 * bytes + 1) * d ∧
      2 * bytes * d ≤ 2 * (n * gbInBytes) + d := by
  obtain ⟨hpos, hnear, hnear'⟩ := shortest_near (bytes * perByte)
  rw [hshortest] at hpos hnear hnear'
  dsimp only at hpos hnear hnear'
  refine ⟨hpos, ?_⟩
  by_cases hlow : 2 ^ 52 ≤ bytes
  · have hbit : 1 * 2 ^ lastBit (bytes * perByte) ≤ perByte := by
      unfold perByte
      generalize 1044 = bit
      rw [Nat.one_mul]
      exact Nat.pow_le_pow_right (by decide) (lastBit_le h bit)
    obtain ⟨hle, hge⟩ := near_perByte hnear hnear' hbit
    rw [Nat.one_mul] at hle hge
    refine ⟨hle.lt_of_ne fun heq => ?_, hge⟩
    -- Half a byte has more decimal places.
    obtain ⟨c, hc⟩ := hshortest ▸ shortest_of_bytes hlow h
    dsimp only at hc
    have htie : 2 * gbInBytes * (n * c) = (2 * bytes + 1) * 10 ^ 10 := by
      rw [hc, ← Nat.mul_assoc (2 * bytes + 1), ← heq]
      ring
    rw [show gbInBytes = 2 ^ 30 from rfl] at htie
    generalize n * c = m at htie
    omega
  · obtain ⟨hle, hge⟩ := near_perByte hnear hnear' (two_lastBits_le (Nat.not_le.1 hlow))
    constructor
    · nlinarith
    · nlinarith

/-- What is less than half a byte above some bytes, or at most half a byte below, is rounded to
them. -/
theorem rounded_of_near {bytes n d : Nat} (hlt : 2 * (n * gbInBytes) < (2 * bytes + 1) * d)
    (hle : 2 * bytes * d ≤ 2 * (n * gbInBytes) + d) : (n * gbInBytes + d / 2) / d = bytes := by
  generalize n * gbInBytes = numerator at hlt hle
  refine Nat.div_eq_of_lt_le ?_ ?_
  · rw [Nat.mul_assoc] at hle
    omega
  · rw [Nat.add_mul, Nat.mul_assoc] at hlt
    rw [Nat.add_mul]
    omega

theorem trafficGbNumberToBytes_of_units {bytes : Nat} (h : bytes < 2 ^ 53) {value : Double}
    (hunits : value.units = bytes * perByte) : trafficGbNumberToBytes value = bytes := by
  unfold trafficGbNumberToBytes
  rw [hunits]
  split_ifs with hzero
  · rw [Nat.mul_eq_zero] at hzero
    exact (hzero.resolve_right perByte_pos.ne').symm
  · cases hshortest : shortest (bytes * perByte) with
    | mk n d =>
      obtain ⟨-, hlt, hle⟩ := shortest_near_bytes h hshortest
      exact rounded_of_near hlt hle

/-- The figure of some bytes is read as these bytes. -/
theorem trafficGbNumberToBytes_of_bytes {bytes : Nat} (h : bytes < 2 ^ 53) {value : Double}
    (hvalue : trafficBytesToGbNumber bytes = some value) : trafficGbNumberToBytes value = bytes :=
  trafficGbNumberToBytes_of_units h (units_of_bytes h hvalue)

/-- The sum of two such figures is exact. -/
theorem units_of_add {a b : Nat} (h : a + b < 2 ^ 53) {x y z : Double}
    (hx : x.units = a * perByte) (hy : y.units = b * perByte) (hz : x.add y = some z) :
    z.units = (a + b) * perByte := by
  rw [Double.units_of_ofUnits hz, hx, hy, ← Nat.add_mul, toUnits_bytes h]

end ChordV.Api.TeamUsage
