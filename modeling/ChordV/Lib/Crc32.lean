import Mathlib.Logic.Function.Iterate
import Mathlib.Tactic.IntervalCases

/-!
# CRC-32

The checksum of the reflected polynomial `0xedb88320`, bit by bit.  `shiftByte_eq` is the step of a
table-driven implementation: the bits of a word are shifted one by one, and the shift is linear, so
that a byte can be looked up.
-/

namespace ChordV.Lib.Crc32

/-- The polynomial, reversed. -/
def polynomial : BitVec 32 := 0xedb88320

/-- One bit leaves the register. -/
def shiftBit (x : BitVec 32) : BitVec 32 :=
  (x >>> 1) ^^^ (if x.getLsbD 0 then polynomial else 0)

/-- Eight bits leave the register. -/
def shiftByte (x : BitVec 32) : BitVec 32 := shiftBit^[8] x

/-- A byte as the low bits of a word. -/
def word (byte : UInt8) : BitVec 32 := BitVec.ofNat 32 byte.toNat

/-- One byte. -/
def update (crc : BitVec 32) (byte : UInt8) : BitVec 32 := shiftByte (crc ^^^ word byte)

/-- The CRC-32. -/
def checksum (bytes : List UInt8) : BitVec 32 := bytes.foldl update 0xffffffff ^^^ 0xffffffff

/-! ## Linearity -/

theorem shiftBit_xor (x y : BitVec 32) : shiftBit (x ^^^ y) = shiftBit x ^^^ shiftBit y := by
  simp only [shiftBit, BitVec.getLsbD_xor, BitVec.ushiftRight_xor_distrib]
  generalize x >>> 1 = a
  generalize y >>> 1 = b
  cases x.getLsbD 0 with
  | false =>
    cases y.getLsbD 0 with
    | false => simp
    | true => simp [BitVec.xor_assoc]
  | true =>
    cases y.getLsbD 0 with
    | false => simp [BitVec.xor_assoc, BitVec.xor_comm b]
    | true =>
      -- The polynomial is added twice.
      have hcancel : a ^^^ polynomial ^^^ (b ^^^ polynomial) = a ^^^ b := by
        rw [BitVec.xor_comm b, BitVec.xor_assoc, ← BitVec.xor_assoc polynomial, BitVec.xor_self,
          BitVec.zero_xor]
      simpa using hcancel.symm

theorem iterate_shiftBit_xor (k : Nat) (x y : BitVec 32) :
    shiftBit^[k] (x ^^^ y) = shiftBit^[k] x ^^^ shiftBit^[k] y := by
  induction k generalizing x y with
  | zero => rfl
  | succ k ih => rw [Function.iterate_succ_apply, shiftBit_xor, ih]; rfl

/-- Zeros are shifted out. -/
theorem iterate_shiftBit_of_low {x : BitVec 32} {k : Nat} (h : ∀ i < k, x.getLsbD i = false) :
    shiftBit^[k] x = x >>> k := by
  induction k with
  | zero => simp
  | succ k ih =>
    have hbit : (x >>> k).getLsbD 0 = false := by
      rw [BitVec.getLsbD_ushiftRight, Nat.add_zero]
      exact h k (Nat.lt_succ_self k)
    rw [Function.iterate_succ_apply', ih fun i hi => h i (Nat.lt_succ_of_lt hi), shiftBit, hbit,
      BitVec.shiftRight_add]
    simp

/-! ## The table -/

theorem getLsbD_mask (i : Nat) (h : i < 32) : (0xff : BitVec 32).getLsbD i = decide (i < 8) := by
  revert i
  decide

/-- A word is its low byte and what is above it. -/
theorem shiftByte_split (x : BitVec 32) :
    shiftByte x = (x >>> 8) ^^^ shiftByte (x &&& 0xff) := by
  have hlow : ∀ i < 8, (x ^^^ (x &&& 0xff)).getLsbD i = false := by
    intro i hi
    rw [BitVec.getLsbD_xor, BitVec.getLsbD_and, getLsbD_mask i (by omega), decide_eq_true hi]
    simp
  have hhigh : (x ^^^ (x &&& 0xff)) >>> 8 = x >>> 8 := by
    refine BitVec.eq_of_getLsbD_eq fun i hi => ?_
    rw [BitVec.getLsbD_ushiftRight, BitVec.getLsbD_ushiftRight, BitVec.getLsbD_xor,
      BitVec.getLsbD_and]
    by_cases hin : 8 + i < 32
    · rw [getLsbD_mask _ hin, decide_eq_false (by omega)]
      simp
    · rw [BitVec.getLsbD_of_ge x _ (by omega)]
      simp
  have hsplit : x = (x ^^^ (x &&& 0xff)) ^^^ (x &&& 0xff) := by
    rw [BitVec.xor_assoc, BitVec.xor_self, BitVec.xor_zero]
  calc shiftByte x = shiftBit^[8] ((x ^^^ (x &&& 0xff)) ^^^ (x &&& 0xff)) := by rw [← hsplit]; rfl
    _ = shiftBit^[8] (x ^^^ (x &&& 0xff)) ^^^ shiftBit^[8] (x &&& 0xff) :=
        iterate_shiftBit_xor 8 _ _
    _ = (x >>> 8) ^^^ shiftByte (x &&& 0xff) := by
        rw [iterate_shiftBit_of_low hlow, hhigh]
        rfl

/-- The step of an implementation with a table. -/
theorem update_eq (crc : BitVec 32) (byte : UInt8) :
    update crc byte = (crc >>> 8) ^^^ shiftByte ((crc ^^^ word byte) &&& 0xff) := by
  have hword : word byte >>> 8 = 0#32 := by
    apply BitVec.eq_of_toNat_eq
    have hlt := byte.toNat_lt
    have hzero : (0#32).toNat = 0 := rfl
    rw [hzero, BitVec.toNat_ushiftRight, word, BitVec.toNat_ofNat, Nat.shiftRight_eq_div_pow]
    omega
  rw [update, shiftByte_split, BitVec.ushiftRight_xor_distrib, hword, BitVec.xor_zero]

end ChordV.Lib.Crc32
