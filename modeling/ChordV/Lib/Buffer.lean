import Mathlib.Algebra.Ring.Nat
import Mathlib.Data.List.Basic
import ChordV.Lib.Fallible
import ChordV.Lib.Json

/-!
# Buffers

The byte buffers of Node.

* `u16` and `u32` write a little-endian field.  `readU16` and `readU32` read one at an offset, and
  fail outside the buffer.
* `utf8` is `toString("utf8")`: a byte that cannot go on is read again, and what came before it is
  a replacement character.
-/

namespace ChordV.Lib.Buffer

open Json

/-- A buffer. -/
abbrev Bytes := List UInt8

/-! ## Fields -/

/-- Two bytes, the lower one first. -/
def u16 (n : Nat) : Bytes := [UInt8.ofNat n, UInt8.ofNat (n / 256)]

/-- Four bytes, the lowest one first. -/
def u32 (n : Nat) : Bytes :=
  [UInt8.ofNat n, UInt8.ofNat (n / 256), UInt8.ofNat (n / 65536), UInt8.ofNat (n / 16777216)]

variable {ε : Type}

/-- Reads two bytes. -/
def readU16 (outside : ε) (buffer : Bytes) (offset : Nat) : Except ε Nat :=
  match buffer.drop offset with
  | a :: b :: _ => .ok (a.toNat + 256 * b.toNat)
  | _ => .error outside

/-- Reads four bytes. -/
def readU32 (outside : ε) (buffer : Bytes) (offset : Nat) : Except ε Nat :=
  match buffer.drop offset with
  | a :: b :: c :: d :: _ =>
    .ok (a.toNat + 256 * b.toNat + 65536 * c.toNat + 16777216 * d.toNat)
  | _ => .error outside

variable {outside : ε} {buffer : Bytes} {offset : Nat}

@[simp] theorem length_u16 (n : Nat) : (u16 n).length = 2 := rfl

@[simp] theorem length_u32 (n : Nat) : (u32 n).length = 4 := rfl

/-- A field that was written is read. -/
theorem readU16_u16 {n : Nat} (hn : n < 2 ^ 16) (rest : Bytes) :
    readU16 outside (u16 n ++ rest) 0 = .ok n := by
  simp only [readU16, List.drop_zero, u16, List.cons_append, List.nil_append, UInt8.toNat_ofNat',
    Except.ok.injEq]
  omega

theorem readU32_u32 {n : Nat} (hn : n < 2 ^ 32) (rest : Bytes) :
    readU32 outside (u32 n ++ rest) 0 = .ok n := by
  simp only [readU32, List.drop_zero, u32, List.cons_append, List.nil_append, UInt8.toNat_ofNat',
    Except.ok.injEq]
  omega

/-- A field behind another one. -/
theorem readU16_behind_u16 (n k : Nat) (rest : Bytes) :
    readU16 outside (u16 n ++ rest) (k + 2) = readU16 outside rest k := rfl

theorem readU16_behind_u32 (n k : Nat) (rest : Bytes) :
    readU16 outside (u32 n ++ rest) (k + 4) = readU16 outside rest k := rfl

theorem readU32_behind_u16 (n k : Nat) (rest : Bytes) :
    readU32 outside (u16 n ++ rest) (k + 2) = readU32 outside rest k := rfl

theorem readU32_behind_u32 (n k : Nat) (rest : Bytes) :
    readU32 outside (u32 n ++ rest) (k + 4) = readU32 outside rest k := rfl

/-- A field inside the buffer is read. -/
theorem readU16_isOk (outside : ε) (h : offset + 2 ≤ buffer.length) :
    ∃ n, readU16 outside buffer offset = .ok n := by
  have hlen : 2 ≤ (buffer.drop offset).length := by
    rw [List.length_drop]
    omega
  unfold readU16
  match buffer.drop offset, hlen with
  | a :: b :: rest, _ => exact ⟨_, rfl⟩

theorem readU32_isOk (outside : ε) (h : offset + 4 ≤ buffer.length) :
    ∃ n, readU32 outside buffer offset = .ok n := by
  have hlen : 4 ≤ (buffer.drop offset).length := by
    rw [List.length_drop]
    omega
  unfold readU32
  match buffer.drop offset, hlen with
  | a :: b :: c :: d :: rest, _ => exact ⟨_, rfl⟩

/-- What is in front of a field does not matter. -/
theorem drop_append_add (front buffer : Bytes) (offset : Nat) :
    (front ++ buffer).drop (front.length + offset) = buffer.drop offset := by
  rw [← List.drop_drop, List.drop_left]

@[simp] theorem readU16_append (front : Bytes) (offset : Nat) :
    readU16 outside (front ++ buffer) (front.length + offset) = readU16 outside buffer offset := by
  rw [readU16, readU16, drop_append_add]

@[simp] theorem readU32_append (front : Bytes) (offset : Nat) :
    readU32 outside (front ++ buffer) (front.length + offset) = readU32 outside buffer offset := by
  rw [readU32, readU32, drop_append_add]

/-! ## Texts -/

/-- A character whose bytes are not all read: how many are missing, between which bounds the next
one is, and the bits so far. -/
structure Pending where
  missing : Nat
  lower : Nat
  upper : Nat
  bits : Nat

/-- U+FFFD. -/
def replacement : Char := Char.ofNat 0xfffd

/-- The first byte of a character. -/
def leadByte (b : Nat) : Text × Option Pending :=
  if b < 0x80 then ([Char.ofNat b], none)
  else if 0xc2 ≤ b ∧ b ≤ 0xdf then ([], some ⟨1, 0x80, 0xbf, b % 32⟩)
  else if 0xe0 ≤ b ∧ b ≤ 0xef then
    ([], some ⟨2, if b = 0xe0 then 0xa0 else 0x80, if b = 0xed then 0x9f else 0xbf, b % 16⟩)
  else if 0xf0 ≤ b ∧ b ≤ 0xf4 then
    ([], some ⟨3, if b = 0xf0 then 0x90 else 0x80, if b = 0xf4 then 0x8f else 0xbf, b % 8⟩)
  else ([replacement], none)

/-- A byte behind a character that is not complete. -/
def nextByte (pending : Pending) (b : Nat) : Text × Option Pending :=
  if pending.lower ≤ b ∧ b ≤ pending.upper then
    let bits := pending.bits * 64 + b % 64
    if pending.missing = 1 then ([Char.ofNat bits], none)
    else ([], some ⟨pending.missing - 1, 0x80, 0xbf, bits⟩)
  else (replacement :: (leadByte b).1, (leadByte b).2)

/-- Reads on, within a character or between two. -/
def utf8From : Option Pending → Bytes → Text
  | none, [] => []
  | some _, [] => [replacement]
  | none, b :: rest => (leadByte b.toNat).1 ++ utf8From (leadByte b.toNat).2 rest
  | some pending, b :: rest =>
    (nextByte pending b.toNat).1 ++ utf8From (nextByte pending b.toNat).2 rest

/-- `toString("utf8")`. -/
def utf8 (bytes : Bytes) : Text := utf8From none bytes

example : utf8 [0xe5, 0x8c, 0x96, 0x2f, 0xff, 0xe5, 0x61] =
    [Char.ofNat 0x5316, '/', replacement, replacement, 'a'] := by decide

end ChordV.Lib.Buffer
