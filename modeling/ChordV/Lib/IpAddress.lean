import Mathlib.Tactic.Ring
import ChordV.Lib.Js

/-!
# Texts and values of IP addresses

* `quad` reads strict dotted decimal, and `aton` reads what `inet_aton` reads, where a part with a
  leading zero is octal.  `ipv6` reads the spellings of RFC 4291 without a zone: groups of one to
  four hexadecimal digits, at most one `::`, which stands for one group or more, and the last two
  groups may be dotted decimal.  All three read bytes, the highest first.
* `isIP` is the function of `node:net` for them, which takes a zone too, and `address` is the value
  that such a text has.
* A `Block` is a prefix of a value.  `special4` and `special6` are the addresses that are not of
  the public internet, and `special4_value` and `special6_value` say which bytes they have.

Nothing here is about a particular guard.
-/

namespace ChordV.Lib.Ip

open Js

/-! ## Values and blocks -/

/-- The value of some bytes, the highest first. -/
def value (bytes : List Nat) : Nat := bytes.foldl (fun n b => 256 * n + b) 0

/-- The first `length` bits of `base`. -/
structure Block where
  base : Nat
  length : Nat

/-- The value is in the block. -/
def Block.contains (width : Nat) (block : Block) (v : Nat) : Bool :=
  v / 2 ^ (width - block.length) == block.base / 2 ^ (width - block.length)

/-- Unspecified, private, shared, loopback, link-local, private, private, and multicast and
reserved. -/
def blocks4 : List Block :=
  [⟨value [0, 0, 0, 0], 8⟩, ⟨value [10, 0, 0, 0], 8⟩, ⟨value [100, 64, 0, 0], 10⟩,
    ⟨value [127, 0, 0, 0], 8⟩, ⟨value [169, 254, 0, 0], 16⟩, ⟨value [172, 16, 0, 0], 12⟩,
    ⟨value [192, 168, 0, 0], 16⟩, ⟨value [224, 0, 0, 0], 3⟩]

/-- Unique-local, link-local and multicast. -/
def blocks6 : List Block :=
  [⟨0xfc * 2 ^ 120, 7⟩, ⟨0xfe80 * 2 ^ 112, 10⟩, ⟨0xff * 2 ^ 120, 8⟩]

/-- The value is in one of the IPv4 blocks. -/
def special4 (v : Nat) : Bool := blocks4.any (·.contains 32 v)

/-- The addresses that carry an address of the other family. -/
def mapped : Block := ⟨0xffff * 2 ^ 32, 96⟩

/-- A mapped address is judged by the address it carries. -/
def special6 (v : Nat) : Bool :=
  if mapped.contains 128 v then special4 (v % 2 ^ 32)
  else v == 0 || v == 1 || blocks6.any (·.contains 128 v)

/-- An address of one of the families. -/
inductive Address where
  | v4 (value : Nat)
  | v6 (value : Nat)
deriving DecidableEq, Repr

/-- The address is in one of the blocks. -/
def Address.special : Address → Bool
  | v4 value => special4 value
  | v6 value => special6 value

theorem value_append (front back : List Nat) :
    value (front ++ back) = value front * 256 ^ back.length + value back := by
  have hfold : ∀ (bytes : List Nat) (n : Nat),
      bytes.foldl (fun n b => 256 * n + b) n = n * 256 ^ bytes.length + value bytes := by
    intro bytes
    induction bytes with
    | nil => simp [value]
    | cons b bytes ih =>
      intro n
      simp only [value, List.foldl_cons] at ih ⊢
      rw [ih (256 * n + b), ih (256 * 0 + b), List.length_cons, pow_succ]
      ring
  rw [value, List.foldl_append, hfold]
  rfl

theorem value_lt {bytes : List Nat} (h : ∀ b ∈ bytes, b < 256) :
    value bytes < 256 ^ bytes.length := by
  induction bytes using List.reverseRecOn with
  | nil => simp [value]
  | append_singleton bytes b ih =>
    have hfront := ih fun b' hb' => h b' (List.mem_append_left _ hb')
    have hlast : b < 256 := h b (by simp)
    have hb : value [b] = b := by simp [value]
    rw [value_append, hb, List.length_append, List.length_singleton, pow_one, pow_succ]
    omega

/-- The first bytes are a quotient. -/
theorem value_append_div (front : List Nat) {back : List Nat} (h : ∀ b ∈ back, b < 256) :
    value (front ++ back) / 256 ^ back.length = value front := by
  rw [value_append, Nat.mul_comm, Nat.mul_add_div (by positivity), Nat.div_eq_of_lt (value_lt h),
    Nat.add_zero]

/-- The last bytes are a remainder. -/
theorem value_append_mod (front : List Nat) {back : List Nat} (h : ∀ b ∈ back, b < 256) :
    value (front ++ back) % 256 ^ back.length = value back := by
  rw [value_append, Nat.mul_comm, Nat.mul_add_mod, Nat.mod_eq_of_lt (value_lt h)]

theorem value_eq_zero {bytes : List Nat} : value bytes = 0 ↔ ∀ b ∈ bytes, b = 0 := by
  induction bytes using List.reverseRecOn with
  | nil => simp [value]
  | append_singleton bytes b ih =>
    have hb : value [b] = b := by simp [value]
    rw [value_append, hb, List.length_singleton, pow_one]
    simp only [List.mem_append, List.mem_singleton]
    constructor
    · rintro h b' (hb' | rfl)
      · exact ih.1 (by omega) b' hb'
      · omega
    · intro h
      have hzero : value bytes = 0 := ih.2 fun b' hb' => h b' (.inl hb')
      rw [hzero, h b (.inr rfl)]

/-- The addresses of the blocks by their first two bytes. -/
theorem special4_value {a b c d : Nat} (ha : a < 256) (hb : b < 256) (hc : c < 256) (hd : d < 256) :
    special4 (value [a, b, c, d]) = true ↔
      a = 0 ∨ a = 10 ∨ a = 127 ∨ 224 ≤ a ∨ a = 100 ∧ 64 ≤ b ∧ b ≤ 127 ∨ a = 169 ∧ b = 254 ∨
        a = 172 ∧ 16 ≤ b ∧ b ≤ 31 ∨ a = 192 ∧ b = 168 := by
  have hab : value [a, b, c, d] / 65536 = 256 * a + b := by
    simp only [value, List.foldl_cons, List.foldl_nil]
    omega
  generalize value [a, b, c, d] = v at hab ⊢
  have hone : v / 16777216 = a := by omega
  have hshared : v / 4194304 = 401 ↔ a = 100 ∧ 64 ≤ b ∧ b ≤ 127 := by omega
  have hlocal : v / 65536 = 43518 ↔ a = 169 ∧ b = 254 := by omega
  have hprivate : v / 1048576 = 2753 ↔ a = 172 ∧ 16 ≤ b ∧ b ≤ 31 := by omega
  have hprivate' : v / 65536 = 49320 ↔ a = 192 ∧ b = 168 := by omega
  have hmulticast : v / 536870912 = 7 ↔ 224 ≤ a := by omega
  have hblocks : special4 v = true ↔ v / 16777216 = 0 ∨ v / 16777216 = 10 ∨ v / 4194304 = 401 ∨
      v / 16777216 = 127 ∨ v / 65536 = 43518 ∨ v / 1048576 = 2753 ∨ v / 65536 = 49320 ∨
      v / 536870912 = 7 := by
    simp only [special4, blocks4, Block.contains, List.any_cons, List.any_nil, Bool.or_false,
      Bool.or_eq_true, beq_iff_eq]
    rfl
  rw [hblocks, hone, hshared, hlocal, hprivate, hprivate', hmulticast]
  simp only [or_comm, or_left_comm, or_assoc]

/-- The mapped addresses by their bytes. -/
theorem mapped_value {front last : List Nat} {a b : Nat} (hlast : last.length = 4)
    (hbytes : ∀ b' ∈ front ++ [a, b] ++ last, b' < 256) :
    mapped.contains 128 (value (front ++ [a, b] ++ last)) = true ↔
      (∀ b' ∈ front, b' = 0) ∧ a = 255 ∧ b = 255 := by
  have ha : a < 256 := hbytes a (by simp)
  have hb : b < 256 := hbytes b (by simp)
  have hsmall : ∀ b' ∈ last, b' < 256 := fun b' hb' => hbytes b' (List.mem_append_right _ hb')
  have hdiv := value_append_div (front ++ [a, b]) hsmall
  rw [hlast] at hdiv
  have hab : value [a, b] = 256 * a + b := by simp [value]
  simp only [Block.contains, mapped, beq_iff_eq]
  norm_num at hdiv ⊢
  rw [hdiv, value_append, hab, ← value_eq_zero]
  simp only [List.length_cons, List.length_nil]
  omega

theorem value_mod {front last : List Nat} (hlast : last.length = 4)
    (hbytes : ∀ b ∈ front ++ last, b < 256) : value (front ++ last) % 2 ^ 32 = value last := by
  have hsmall : ∀ b ∈ last, b < 256 := fun b hb => hbytes b (List.mem_append_right _ hb)
  have hmod := value_append_mod front hsmall
  rw [hlast] at hmod
  exact hmod

/-- The blocks of the larger family by their first two bytes. -/
theorem blocks6_value {a b : Nat} {rest : List Nat} (hrest : rest.length = 14)
    (hbytes : ∀ b' ∈ a :: b :: rest, b' < 256) :
    blocks6.any (·.contains 128 (value (a :: b :: rest))) = true ↔
      a / 2 = 126 ∨ a = 254 ∧ b / 64 = 2 ∨ a = 255 := by
  have ha : a < 256 := hbytes a (by simp)
  have hb : b < 256 := hbytes b (by simp)
  have hsmall : ∀ b' ∈ rest, b' < 256 := fun b' hb' => hbytes b' (by simp [hb'])
  have hdiv := value_append_div [a, b] hsmall
  rw [hrest] at hdiv
  have hab : value [a, b] = 256 * a + b := by simp [value]
  rw [hab] at hdiv
  simp only [blocks6, Block.contains, List.any_cons, List.any_nil, Bool.or_false, Bool.or_eq_true,
    beq_iff_eq]
  norm_num at hdiv ⊢
  generalize value (a :: b :: rest) = v at hdiv ⊢
  omega

theorem value_eq_one (front : List Nat) {b : Nat} (hb : b < 256) :
    value (front ++ [b]) = 1 ↔ (∀ b' ∈ front, b' = 0) ∧ b = 1 := by
  have hvalue : value [b] = b := by simp [value]
  rw [value_append, hvalue, ← value_eq_zero, List.length_singleton, pow_one]
  omega

/-- The special addresses of the larger family by their bytes. -/
theorem special6_value {bytes : List Nat} (hlen : bytes.length = 16)
    (hbytes : ∀ b ∈ bytes, b < 256) :
    special6 (value bytes) = true ↔
      if (∀ b ∈ bytes.take 10, b = 0) ∧ bytes.getD 10 0 = 255 ∧ bytes.getD 11 0 = 255 then
        special4 (value (bytes.drop 12)) = true
      else (∀ b ∈ bytes, b = 0) ∨ (∀ b ∈ bytes.take 15, b = 0) ∧ bytes.getD 15 0 = 1 ∨
        bytes.getD 0 0 / 2 = 126 ∨ bytes.getD 0 0 = 254 ∧ bytes.getD 1 0 / 64 = 2 ∨
        bytes.getD 0 0 = 255 := by
  have hmapped : mapped.contains 128 (value bytes) = true ↔
      (∀ b ∈ bytes.take 10, b = 0) ∧ bytes.getD 10 0 = 255 ∧ bytes.getD 11 0 = 255 := by
    have hsplit : bytes = bytes.take 10 ++ [bytes.getD 10 0, bytes.getD 11 0] ++ bytes.drop 12 := by
      simp [hlen, List.getD_eq_getElem?_getD]
    have hlast : (bytes.drop 12).length = 4 := by simp [hlen]
    rw [← mapped_value hlast (by rw [← hsplit]; exact hbytes), ← hsplit]
  have hmod : value bytes % 2 ^ 32 = value (bytes.drop 12) := by
    have hlast : (bytes.drop 12).length = 4 := by simp [hlen]
    have hbytes' : ∀ b ∈ bytes.take 12 ++ bytes.drop 12, b < 256 := by
      rwa [List.take_append_drop]
    have h := value_mod hlast hbytes'
    rwa [List.take_append_drop] at h
  have hone : value bytes = 1 ↔ (∀ b ∈ bytes.take 15, b = 0) ∧ bytes.getD 15 0 = 1 := by
    have hsplit : bytes = bytes.take 15 ++ [bytes.getD 15 0] := by
      simp [hlen, List.getD_eq_getElem?_getD]
    have hlast : bytes.getD 15 0 < 256 := by
      rw [List.getD_eq_getElem?_getD, List.getElem?_eq_getElem (by omega), Option.getD_some]
      exact hbytes _ (List.getElem_mem _)
    rw [← value_eq_one (bytes.take 15) hlast, ← hsplit]
  have hblocks : blocks6.any (·.contains 128 (value bytes)) = true ↔
      bytes.getD 0 0 / 2 = 126 ∨ bytes.getD 0 0 = 254 ∧ bytes.getD 1 0 / 64 = 2 ∨
        bytes.getD 0 0 = 255 := by
    obtain ⟨a, b, rest, rfl⟩ : ∃ a b rest, bytes = a :: b :: rest := by
      match bytes, hlen with
      | a :: b :: rest, _ => exact ⟨a, b, rest, rfl⟩
    rw [blocks6_value (by simpa using hlen) hbytes]
    simp
  by_cases hif : mapped.contains 128 (value bytes) = true
  · rw [if_pos (hmapped.1 hif), special6, if_pos hif, hmod]
  · rw [if_neg (mt hmapped.2 hif), special6, if_neg hif]
    simp only [Bool.or_eq_true, beq_iff_eq, value_eq_zero, hone, hblocks, or_assoc]

/-- A byte of the block of unique-local addresses, by its bits. -/
theorem and_fe {b : Nat} (h : b < 256) : b &&& 0xfe = 0xfc ↔ b / 2 = 126 := by
  revert b
  decide +kernel

/-- A second byte of the block of link-local addresses, by its bits. -/
theorem and_c0 {b : Nat} (h : b < 256) : b &&& 0xc0 = 0x80 ↔ b / 64 = 2 := by
  revert b
  decide +kernel

/-! ## Texts -/

/-- A decimal byte without leading zeros. -/
def octet (s : Text) : Option Nat :=
  if isDigits s ∧ (s.head? = some '0' → s.length = 1) ∧ decimal s < 256 then some (decimal s)
  else none

/-- The bytes of four parts. -/
def fourParts (part : Text → Option Nat) (s : Text) : Option (List Nat) :=
  match s.splitOn '.' with
  | [a, b, c, d] => do return [← part a, ← part b, ← part c, ← part d]
  | _ => none

/-- Strict dotted decimal. -/
def quad (s : Text) : Option (List Nat) := fourParts octet s

/-- A number in the notation of C. -/
def cNumber : Text → Option Nat
  | '0' :: c :: s => if c = 'x' ∨ c = 'X' then inBase 16 s else inBase 8 (c :: s)
  | s => inBase 10 s

/-- What `inet_aton` reads: up to four parts, the last of which has the bytes that are left. -/
def aton (s : Text) : Option Nat := do
  let parts ← (s.splitOn '.').mapM cNumber
  let front := parts.dropLast
  let last ← parts.getLast?
  if front.length < 4 ∧ (∀ n ∈ front, n < 256) ∧ last < 256 ^ (4 - front.length) then
    some (value front * 256 ^ (4 - front.length) + last)
  else none

/-- A group of hexadecimal digits. -/
def group (s : Text) : Option Nat := if s.length ≤ 4 then inBase 16 s else none

/-- The two bytes of a group. -/
def bytesOfWord (word : Nat) : List Nat := [word / 256, word % 256]

/-- The pieces between colons.  Nothing has none. -/
def pieces (s : Text) : List Text := if s = [] then [] else s.splitOn ':'

/-- The bytes of groups. -/
def groups : List Text → Option (List Nat)
  | [] => some []
  | piece :: rest => do return bytesOfWord (← group piece) ++ (← groups rest)

/-- The bytes of groups, the last of which may be dotted decimal. -/
def groupsOrQuad : List Text → Option (List Nat)
  | [] => some []
  | [piece] => if '.' ∈ piece then quad piece else (group piece).map bytesOfWord
  | piece :: rest => do return bytesOfWord (← group piece) ++ (← groupsOrQuad rest)

/-- `s.split("::")`. -/
def splitPair : Text → List Text
  | ':' :: ':' :: s => [] :: splitPair s
  | c :: s => (splitPair s).modifyHead (c :: ·)
  | [] => [[]]

/-- The bytes of an IPv6 literal. -/
def ipv6 (s : Text) : Option (List Nat) :=
  match splitPair s with
  | [whole] => do
    let bytes ← groupsOrQuad (pieces whole)
    if bytes.length = 16 then return bytes else none
  | [head, tail] => do
    let front ← groups (pieces head)
    let back ← groupsOrQuad (pieces tail)
    if front.length + back.length ≤ 14 then
      return front ++ List.replicate (16 - (front.length + back.length)) 0 ++ back
    else none
  | _ => none

/-- What `isIP` takes in a zone. -/
def isZone (s : Text) : Bool :=
  !s.isEmpty && s.all fun c => c.isAlphanum || c == '-' || c == '.' || c == ':'

/-- `isIP`: the family of a text, or zero. -/
def isIP (s : Text) : Nat :=
  if (quad s).isSome then 4
  else
    match cut (· == '%') s with
    | (address, none) => if (ipv6 address).isSome then 6 else 0
    | (address, some zone) => if (ipv6 address).isSome && isZone zone then 6 else 0

/-- `.replace(/^\[|\]$/g, '')`. -/
def stripBrackets (s : Text) : Text :=
  let s := if s.head? = some '[' then s.tail else s
  if s.getLast? = some ']' then s.dropLast else s

/-- The address of a text that `isIP` takes. -/
def address (s : Text) : Option Address :=
  match quad s with
  | some bytes => some (.v4 (value bytes))
  | none => (ipv6 (cut (· == '%') s).1).map fun bytes => .v6 (value bytes)

/-! ## What the readers read -/

theorem octet_lt {s : Text} {n : Nat} (h : octet s = some n) : n < 256 := by
  unfold octet at h
  split at h
  next hif =>
    cases h
    exact hif.2.2
  · cases h

theorem fourParts_eq_some {part : Text → Option Nat} {s : Text} {bytes : List Nat} :
    fourParts part s = some bytes ↔ ∃ p q r t a b c d, s.splitOn '.' = [p, q, r, t] ∧
      part p = some a ∧ part q = some b ∧ part r = some c ∧ part t = some d ∧
      bytes = [a, b, c, d] := by
  unfold fourParts
  constructor
  · intro h
    split at h
    next p q r t hsplit =>
      simp only [Option.bind_eq_bind, Option.pure_def, Option.bind_eq_some_iff,
        Option.some.injEq] at h
      obtain ⟨a, ha, b, hb, c, hc, d, hd, rfl⟩ := h
      exact ⟨p, q, r, t, a, b, c, d, hsplit, ha, hb, hc, hd, rfl⟩
    · cases h
  · rintro ⟨p, q, r, t, a, b, c, d, hsplit, ha, hb, hc, hd, rfl⟩
    simp [hsplit, ha, hb, hc, hd]

/-- Four parts are four bytes, if a part is. -/
theorem bytes_of_fourParts {part : Text → Option Nat} (hpart : ∀ t n, part t = some n → n < 256)
    {s : Text} {bytes : List Nat} (h : fourParts part s = some bytes) :
    bytes.length = 4 ∧ ∀ b ∈ bytes, b < 256 := by
  obtain ⟨p, q, r, t, a, b, c, d, -, ha, hb, hc, hd, rfl⟩ := fourParts_eq_some.1 h
  refine ⟨rfl, ?_⟩
  simp only [List.mem_cons, List.not_mem_nil, or_false, forall_eq_or_imp, forall_eq]
  exact ⟨hpart p a ha, hpart q b hb, hpart r c hc, hpart t d hd⟩

theorem bytes_of_quad {s : Text} {bytes : List Nat} (h : quad s = some bytes) :
    bytes.length = 4 ∧ ∀ b ∈ bytes, b < 256 :=
  bytes_of_fourParts (fun _ _ => octet_lt) h

theorem inBase_lt {base : Nat} {s : Text} {n : Nat} (h : inBase base s = some n) :
    n < base ^ s.length := by
  have hfold : ∀ (s : Text) (n m : Nat), s.foldlM (fun n c => (Json.hexDigit c).bind fun d =>
      if d < base then some (base * n + d) else none) n = some m →
      m < (n + 1) * base ^ s.length := by
    intro s
    induction s with
    | nil =>
      rintro n m ⟨⟩
      simp
    | cons c s ih =>
      intro n m hm
      simp only [List.foldlM_cons, Option.bind_eq_bind, Option.bind_eq_some_iff] at hm
      obtain ⟨n', ⟨d, -, hd⟩, hm⟩ := hm
      split at hd
      next hlt =>
        cases hd
        calc m < (base * n + d + 1) * base ^ s.length := ih _ _ hm
          _ ≤ ((n + 1) * base) * base ^ s.length := by
              refine Nat.mul_le_mul_right _ ?_
              rw [Nat.add_mul, Nat.one_mul, Nat.mul_comm n]
              omega
          _ = (n + 1) * base ^ (c :: s).length := by
              rw [List.length_cons, pow_succ]
              ring
      · cases hd
  unfold inBase at h
  split at h
  · cases h
  · simpa using hfold s 0 n h

theorem group_lt {s : Text} {word : Nat} (h : group s = some word) : word < 256 * 256 := by
  unfold group at h
  split at h
  next hlen =>
    calc word < 16 ^ s.length := inBase_lt h
      _ ≤ 16 ^ 4 := Nat.pow_le_pow_right (by decide) hlen
  · cases h

theorem bytesOfWord_lt {word : Nat} (h : word < 256 * 256) : ∀ b ∈ bytesOfWord word, b < 256 := by
  simp only [bytesOfWord, List.mem_cons, List.not_mem_nil, or_false, forall_eq_or_imp, forall_eq]
  omega

theorem groups_lt {parts : List Text} {bytes : List Nat} (h : groups parts = some bytes) :
    ∀ b ∈ bytes, b < 256 := by
  induction parts generalizing bytes with
  | nil =>
    cases h
    simp
  | cons piece rest ih =>
    simp only [groups, Option.bind_eq_bind, Option.pure_def, Option.bind_eq_some_iff,
      Option.some.injEq] at h
    obtain ⟨word, hword, bytes', hbytes', rfl⟩ := h
    intro b hb
    obtain hb | hb := List.mem_append.1 hb
    · exact bytesOfWord_lt (group_lt hword) b hb
    · exact ih hbytes' b hb

theorem groupsOrQuad_lt {parts : List Text} {bytes : List Nat}
    (h : groupsOrQuad parts = some bytes) : ∀ b ∈ bytes, b < 256 := by
  fun_induction groupsOrQuad parts generalizing bytes with
  | case1 =>
    cases h
    simp
  | case2 piece hdot => exact (bytes_of_quad h).2
  | case3 piece hdot =>
    obtain ⟨word, hword, rfl⟩ := Option.map_eq_some_iff.1 h
    exact bytesOfWord_lt (group_lt hword)
  | case4 piece rest hrest ih =>
    simp only [Option.bind_eq_bind, Option.pure_def, Option.bind_eq_some_iff,
      Option.some.injEq] at h
    obtain ⟨word, hword, bytes', hbytes', rfl⟩ := h
    intro b hb
    obtain hb | hb := List.mem_append.1 hb
    · exact bytesOfWord_lt (group_lt hword) b hb
    · exact ih hbytes' b hb

theorem splitPair_ne_nil (s : Text) : splitPair s ≠ [] := by
  fun_induction splitPair s with
  | case1 => simp
  | case2 c s hpair ih =>
    obtain ⟨t, ts, hts⟩ := List.exists_cons_of_ne_nil ih
    simp [hts]
  | case3 => simp

theorem intercalate_splitPair (s : Text) : [':', ':'].intercalate (splitPair s) = s := by
  fun_induction splitPair s with
  | case1 s ih =>
    obtain ⟨t, ts, hts⟩ := List.exists_cons_of_ne_nil (splitPair_ne_nil s)
    rw [hts] at ih ⊢
    rw [List.intercalate_cons_cons, ih]
    rfl
  | case2 c s hpair ih =>
    obtain ⟨t, ts, hts⟩ := List.exists_cons_of_ne_nil (splitPair_ne_nil s)
    rw [hts] at ih ⊢
    cases ts with
    | nil => simpa using ih
    | cons t' ts =>
      rw [List.modifyHead_cons, List.intercalate_cons_cons, List.cons_append, List.cons_append,
        ← List.intercalate_cons_cons, ih]
  | case3 => rfl

/-- The two shapes of a text that `ipv6` reads. -/
theorem ipv6_cases {s : Text} {bytes : List Nat} (h : ipv6 s = some bytes) :
    (splitPair s = [s] ∧ groupsOrQuad (pieces s) = some bytes ∧ bytes.length = 16) ∨
    ∃ head tail front back, splitPair s = [head, tail] ∧ groups (pieces head) = some front ∧
      groupsOrQuad (pieces tail) = some back ∧ front.length + back.length ≤ 14 ∧
      bytes = front ++ List.replicate (16 - (front.length + back.length)) 0 ++ back := by
  unfold ipv6 at h
  split at h
  next whole hsplit =>
    have hwhole : whole = s := by
      have hjoin := intercalate_splitPair s
      rwa [hsplit, List.intercalate_singleton] at hjoin
    subst hwhole
    simp only [Option.bind_eq_bind, Option.bind_eq_some_iff] at h
    obtain ⟨read, hread, hif⟩ := h
    split at hif
    next hlen =>
      cases hif
      exact .inl ⟨hsplit, hread, hlen⟩
    · cases hif
  next head tail hsplit =>
    simp only [Option.bind_eq_bind, Option.bind_eq_some_iff] at h
    obtain ⟨front, hfront, back, hback, hif⟩ := h
    split at hif
    next hlen =>
      cases hif
      exact .inr ⟨head, tail, front, back, hsplit, hfront, hback, hlen, rfl⟩
    · cases hif
  · cases h

theorem bytes_of_ipv6 {s : Text} {bytes : List Nat} (h : ipv6 s = some bytes) :
    bytes.length = 16 ∧ ∀ b ∈ bytes, b < 256 := by
  obtain ⟨-, hread, hlen⟩ | ⟨head, tail, front, back, -, hfront, hback, hlen, rfl⟩ := ipv6_cases h
  · exact ⟨hlen, groupsOrQuad_lt hread⟩
  · constructor
    · simp only [List.length_append, List.length_replicate]
      omega
    · intro b hb
      obtain hb | hb := List.mem_append.1 hb
      · obtain hb | hb := List.mem_append.1 hb
        · exact groups_lt hfront b hb
        · rw [List.eq_of_mem_replicate hb]
          decide
      · exact groupsOrQuad_lt hback b hb

/-! ## Characters -/

/-- A character of an address. -/
def isAddressChar (c : Char) : Bool := (Json.hexDigit c).isSome || c == ':' || c == '.'

theorem hexDigit_of_inBase {base : Nat} {s : Text} {n : Nat} (h : inBase base s = some n) :
    ∀ c ∈ s, (Json.hexDigit c).isSome = true := by
  have hfold : ∀ (s : Text) (n m : Nat), s.foldlM (fun n c => (Json.hexDigit c).bind fun d =>
      if d < base then some (base * n + d) else none) n = some m →
      ∀ c ∈ s, (Json.hexDigit c).isSome = true := by
    intro s
    induction s with
    | nil => simp
    | cons c s ih =>
      intro n m hm c' hc'
      simp only [List.foldlM_cons, Option.bind_eq_bind, Option.bind_eq_some_iff] at hm
      obtain ⟨n', ⟨d, hd, -⟩, hm⟩ := hm
      obtain rfl | hc' := List.mem_cons.1 hc'
      · rw [hd]
        rfl
      · exact ih n' m hm c' hc'
  unfold inBase at h
  split at h
  · cases h
  · exact hfold s 0 n h

theorem hexDigit_of_group {s : Text} {word : Nat} (h : group s = some word) :
    ∀ c ∈ s, (Json.hexDigit c).isSome = true := by
  unfold group at h
  split at h
  · exact hexDigit_of_inBase h
  · cases h

theorem dot_not_mem_of_group {s : Text} {word : Nat} (h : group s = some word) : '.' ∉ s :=
  fun hmem => absurd (hexDigit_of_group h '.' hmem) (by decide)

/-- A text is of digits and dots if its parts are of digits. -/
theorem digit_or_dot {s : Text} (h : ∀ part ∈ s.splitOn '.', isDigits part = true) :
    ∀ c ∈ s, c.isDigit = true ∨ c = '.' := by
  intro c hc
  by_cases hdot : c = '.'
  · exact .inr hdot
  · obtain ⟨part, hpart, hmem⟩ := exists_mem_splitOn hc hdot
    exact .inl (isDigit_of_isDigits (h part hpart) c hmem)

theorem isDigits_of_octet {s : Text} {n : Nat} (h : octet s = some n) : isDigits s = true := by
  unfold octet at h
  split at h
  next hif => exact hif.1
  · cases h

theorem digit_or_dot_of_quad {s : Text} {bytes : List Nat} (h : quad s = some bytes) :
    ∀ c ∈ s, c.isDigit = true ∨ c = '.' := by
  obtain ⟨p, q, r, t, a, b, c, d, hsplit, ha, hb, hc, hd, -⟩ := fourParts_eq_some.1 h
  refine digit_or_dot ?_
  rw [hsplit]
  simp [isDigits_of_octet ha, isDigits_of_octet hb, isDigits_of_octet hc, isDigits_of_octet hd]

theorem isAddressChar_of_groups {parts : List Text} {bytes : List Nat}
    (h : groups parts = some bytes) : ∀ part ∈ parts, ∀ c ∈ part, isAddressChar c = true := by
  induction parts generalizing bytes with
  | nil => simp
  | cons piece rest ih =>
    simp only [groups, Option.bind_eq_bind, Option.pure_def, Option.bind_eq_some_iff] at h
    obtain ⟨word, hword, bytes', hbytes', -⟩ := h
    intro part hpart c hc
    obtain rfl | hpart := List.mem_cons.1 hpart
    · simp [isAddressChar, hexDigit_of_group hword c hc]
    · exact ih hbytes' part hpart c hc

theorem isAddressChar_of_groupsOrQuad {parts : List Text} {bytes : List Nat}
    (h : groupsOrQuad parts = some bytes) :
    ∀ part ∈ parts, ∀ c ∈ part, isAddressChar c = true := by
  fun_induction groupsOrQuad parts generalizing bytes with
  | case1 => simp
  | case2 piece hdot =>
    intro part hpart c hc
    rw [List.mem_singleton.1 hpart] at hc
    obtain hdigit | rfl := digit_or_dot_of_quad h c hc
    · simp [isAddressChar, isSome_hexDigit_of_isDigit hdigit]
    · rfl
  | case3 piece hdot =>
    obtain ⟨word, hword, -⟩ := Option.map_eq_some_iff.1 h
    intro part hpart c hc
    rw [List.mem_singleton.1 hpart] at hc
    simp [isAddressChar, hexDigit_of_group hword c hc]
  | case4 piece rest hrest ih =>
    simp only [Option.bind_eq_bind, Option.pure_def, Option.bind_eq_some_iff] at h
    obtain ⟨word, hword, bytes', hbytes', -⟩ := h
    intro part hpart c hc
    obtain rfl | hpart := List.mem_cons.1 hpart
    · simp [isAddressChar, hexDigit_of_group hword c hc]
    · exact ih hbytes' part hpart c hc

theorem isAddressChar_of_pieces {s : Text}
    (h : ∀ piece ∈ pieces s, ∀ c ∈ piece, isAddressChar c = true) :
    ∀ c ∈ s, isAddressChar c = true := by
  intro c hc
  by_cases hcolon : c = ':'
  · rw [hcolon]
    rfl
  · obtain ⟨piece, hpiece, hmem⟩ := exists_mem_splitOn hc hcolon
    refine h piece ?_ c hmem
    rw [pieces, if_neg (List.ne_nil_of_mem hc)]
    exact hpiece

theorem isAddressChar_of_ipv6 {s : Text} {bytes : List Nat} (h : ipv6 s = some bytes) :
    ∀ c ∈ s, isAddressChar c = true := by
  obtain ⟨-, hread, -⟩ | ⟨head, tail, front, back, hsplit, hfront, hback, -, -⟩ := ipv6_cases h
  · exact isAddressChar_of_pieces (isAddressChar_of_groupsOrQuad hread)
  · have hs : s = head ++ [':', ':'] ++ tail := by
      rw [← intercalate_splitPair s, hsplit]
      simp
    intro c hc
    rw [hs, List.mem_append, List.mem_append] at hc
    obtain (hc | hc) | hc := hc
    · exact isAddressChar_of_pieces (isAddressChar_of_groups hfront) c hc
    · simp only [List.mem_cons, List.not_mem_nil, or_false, or_self] at hc
      rw [hc]
      rfl
    · exact isAddressChar_of_pieces (isAddressChar_of_groupsOrQuad hback) c hc

theorem colon_mem_of_ipv6 {s : Text} {bytes : List Nat} (h : ipv6 s = some bytes) : ':' ∈ s := by
  obtain ⟨-, hread, hlen⟩ | ⟨head, tail, front, back, hsplit, -⟩ := ipv6_cases h
  · by_contra hcolon
    unfold pieces at hread
    split at hread
    · cases hread
      cases hlen
    · -- One piece has four bytes at most.
      rw [List.splitOn_eq_singleton hcolon, groupsOrQuad] at hread
      split at hread
      · rw [(bytes_of_quad hread).1] at hlen
        cases hlen
      · obtain ⟨word, -, rfl⟩ := Option.map_eq_some_iff.1 hread
        cases hlen
  · rw [← intercalate_splitPair s, hsplit]
    simp

/-! ## Brackets -/

theorem stripBrackets_of_forall {s : Text} (h : ∀ c ∈ s, c ≠ '[' ∧ c ≠ ']') :
    stripBrackets s = s := by
  have hhead : s.head? ≠ some '[' := fun hc => (h _ (List.mem_of_mem_head? hc)).1 rfl
  have hlast : s.getLast? ≠ some ']' := fun hc => (h _ (List.mem_of_mem_getLast? hc)).2 rfl
  simp [stripBrackets, hhead, hlast]

theorem mem_of_mem_stripBrackets {s : Text} {c : Char} (h : c ∈ stripBrackets s) : c ∈ s := by
  have hlast : ∀ t : Text, c ∈ (if t.getLast? = some ']' then t.dropLast else t) → c ∈ t := by
    intro t ht
    split at ht
    · exact List.mem_of_mem_dropLast ht
    · exact ht
  have hfirst := hlast _ h
  split at hfirst
  · exact List.mem_of_mem_tail hfirst
  · exact hfirst

theorem toNat_of_isAddressChar {c : Char} (h : isAddressChar c = true) :
    46 ≤ c.toNat ∧ c.toNat ≤ 102 ∧ c.toNat ≠ 91 ∧ c.toNat ≠ 93 := by
  simp only [isAddressChar, Bool.or_eq_true, beq_iff_eq] at h
  obtain (h | rfl) | rfl := h
  · unfold Json.hexDigit at h
    simp only [Char.le_def, UInt32.le_iff_toNat_le] at h
    split_ifs at h with hdigit hlow hhigh
    · have : 48 ≤ c.toNat ∧ c.toNat ≤ 57 := hdigit
      omega
    · have : 97 ≤ c.toNat ∧ c.toNat ≤ 102 := hlow
      omega
    · have : 65 ≤ c.toNat ∧ c.toNat ≤ 70 := hhigh
      omega
    · cases h
  · decide
  · decide

/-- The text has nothing to trim and no brackets. -/
theorem bare_of_isAddressChar {s : Text} (h : ∀ c ∈ s, isAddressChar c = true) :
    trim s = s ∧ stripBrackets s = s := by
  constructor
  · refine trim_of_forall fun c hc => ?_
    have hrange := toNat_of_isAddressChar (h c hc)
    exact not_isBlank_of_ascii (by omega) (by omega)
  · refine stripBrackets_of_forall fun c hc => ?_
    have hrange := toNat_of_isAddressChar (h c hc)
    constructor
    · rintro rfl
      exact absurd rfl hrange.2.2.1
    · rintro rfl
      exact absurd rfl hrange.2.2.2

/-! ## Families -/

theorem isIP_four {s : Text} (h : isIP s = 4) : ∃ bytes, quad s = some bytes := by
  unfold isIP at h
  split at h
  next hquad => exact Option.isSome_iff_exists.1 hquad
  · split at h
    · split at h
      · cases h
      · cases h
    · split at h
      · cases h
      · cases h

theorem isIP_six {s : Text} (h : isIP s = 6) :
    quad s = none ∧ (∃ bytes, ipv6 (cut (· == '%') s).1 = some bytes) ∧
      ∀ zone ∈ (cut (· == '%') s).2, isZone zone = true := by
  unfold isIP at h
  split at h
  · cases h
  next hquad =>
    refine ⟨by simpa using hquad, ?_⟩
    split at h
    next address hcut =>
      rw [hcut]
      split at h
      next hsome => exact ⟨Option.isSome_iff_exists.1 hsome, by simp⟩
      · cases h
    next address zone hcut =>
      rw [hcut]
      split at h
      next hboth =>
        rw [Bool.and_eq_true] at hboth
        refine ⟨Option.isSome_iff_exists.1 hboth.1, ?_⟩
        rintro zone' ⟨⟩
        exact hboth.2
      · cases h

theorem isIP_cases (s : Text) : isIP s = 0 ∨ isIP s = 4 ∨ isIP s = 6 := by
  unfold isIP
  split
  · exact .inr (.inl rfl)
  · split
    · split
      · exact .inr (.inr rfl)
      · exact .inl rfl
    · split
      · exact .inr (.inr rfl)
      · exact .inl rfl

/-! ## A text behind the last piece -/

/-- The last of some texts continued. -/
def attach (rest : Text) : List Text → List Text
  | [] => []
  | [s] => [s ++ rest]
  | s :: ss => s :: attach rest ss

theorem attach_cons {rest s : Text} {ss : List Text} (h : ss ≠ []) :
    attach rest (s :: ss) = s :: attach rest ss := by
  cases ss with
  | nil => exact absurd rfl h
  | cons t ss => rfl

theorem modifyHead_attach {rest : Text} (c : Char) {ss : List Text} (h : ss ≠ []) :
    (attach rest ss).modifyHead (c :: ·) = attach rest (ss.modifyHead (c :: ·)) := by
  match ss, h with
  | [s], _ => rfl
  | s :: t :: ss, _ => rfl

theorem splitOn_append {sep : Char} {rest : Text} (h : sep ∉ rest) (s : Text) :
    (s ++ rest).splitOn sep = attach rest (s.splitOn sep) := by
  induction s with
  | nil => rw [List.nil_append, List.splitOn_eq_singleton h, List.splitOn_nil]; rfl
  | cons c s ih =>
    have hne := List.splitOn_ne_nil sep s
    rw [List.cons_append, List.splitOn_cons_eq_if_modifyHead,
      List.splitOn_cons_eq_if_modifyHead, ih]
    split
    · rw [attach_cons hne]
    · exact modifyHead_attach c hne

theorem splitPair_append {rest : Text} (h : ':' ∉ rest) (s : Text) :
    splitPair (s ++ rest) = attach rest (splitPair s) := by
  have hrest : ∀ t : Text, ':' ∉ t → splitPair t = [t] := by
    intro t
    induction t with
    | nil => simp [splitPair]
    | cons c t ih =>
      intro hmem
      rw [List.mem_cons, not_or] at hmem
      rw [splitPair, ih hmem.2]
      · rfl
      · rintro s' rfl
        exact absurd rfl hmem.1
  fun_induction splitPair s with
  | case1 s ih =>
    rw [List.cons_append, List.cons_append, splitPair, ih, attach_cons (splitPair_ne_nil s)]
  | case2 c s hpair ih =>
    rw [List.cons_append, splitPair, ih, modifyHead_attach c (splitPair_ne_nil s)]
    -- Nothing behind the text begins with a colon.
    intro s' hc hs'
    cases s with
    | nil =>
      rw [List.nil_append] at hs'
      exact h (by rw [hs']; exact List.mem_cons_self)
    | cons c' s =>
      rw [List.cons_append, List.cons.injEq] at hs'
      exact hpair s hc (by rw [hs'.1])
  | case3 =>
    rw [List.nil_append, hrest rest h]
    rfl

/-! ## Groups as numbers of the source -/

/-- A zone behind a percent sign, or nothing. -/
def IsZoneText (s : Text) : Prop := s = [] ∨ ∃ zone, s = '%' :: zone

theorem takeWhile_group {s zone : Text} (h : ∀ c ∈ s, (Json.hexDigit c).isSome = true)
    (hzone : IsZoneText zone) : (s ++ zone).takeWhile (fun c => (Json.hexDigit c).isSome) = s := by
  rw [List.takeWhile_append_of_pos h]
  obtain rfl | ⟨zone, rfl⟩ := hzone
  · simp
  · rw [List.takeWhile_cons_of_neg (by decide), List.append_nil]

/-- `parseInt` reads a group, and stops before a zone. -/
theorem parseHex_of_group {s zone : Text} {word : Nat} (h : group s = some word)
    (hzone : IsZoneText zone) : parseHex (s ++ zone) = ofNat word := by
  have hhex := hexDigit_of_group h
  have hbase : inBase 16 s = some word := by
    unfold group at h
    split at h
    · exact h
    · cases h
  obtain ⟨c, t, rfl⟩ : ∃ c t, s = c :: t := by
    cases s with
    | nil => cases hbase
    | cons c t => exact ⟨c, t, rfl⟩
  have hrange :=
    toNat_of_isAddressChar (c := c) (by simp [isAddressChar, hhex c List.mem_cons_self])
  have hblank : isBlank c = false := not_isBlank_of_ascii (by omega) (by omega)
  have hsign : takeSign (c :: t ++ zone) = (false, c :: t ++ zone) := by
    unfold takeSign
    split
    next heq =>
      cases heq
      exact absurd hrange.1 (by decide)
    next heq =>
      cases heq
      exact absurd hrange.1 (by decide)
    · rfl
  have hprefix : withoutHexPrefix (c :: t ++ zone) = c :: t ++ zone := by
    unfold withoutHexPrefix
    split
    next x rest heq =>
      rw [if_neg]
      · exact heq.symm
      intro hx
      -- The second character is a digit or the percent sign.
      have hmem : x ∈ t ++ zone.take 1 := by
        have htail := (List.cons.inj heq).2
        cases t with
        | nil =>
          have hhead : zone = x :: rest := htail
          simp [hhead]
        | cons d t =>
          have hhead : d = x := (List.cons.inj htail).1
          simp [hhead]
      have hdigit : (Json.hexDigit x).isSome = true ∨ x = '%' := by
        obtain hmem | hmem := List.mem_append.1 hmem
        · exact .inl (hhex x (List.mem_cons_of_mem _ hmem))
        · obtain rfl | ⟨zone, rfl⟩ := hzone
          · cases hmem
          · exact .inr (List.mem_singleton.1 hmem)
      obtain rfl | rfl := hx
      · exact absurd hdigit (by decide)
      · exact absurd hdigit (by decide)
    · rfl
  have hdrop : (c :: t ++ zone).dropWhile isBlank = c :: t ++ zone := by
    rw [List.cons_append, List.dropWhile_cons_of_neg (by simp [hblank])]
  have hread : parseHex (c :: t ++ zone) =
      ((inBase 16 (c :: t)).map fun n => ofRat false n 1).getD .nan := by
    simp only [parseHex, hdrop, hsign, hprefix, takeWhile_group hhex hzone]
  rw [hread, hbase, ofNat, Option.map_some, Option.getD_some]

/-! ## Letter case -/

theorem splitOn_map {f : Char → Char} {sep : Char} (hf : ∀ c, f c = sep ↔ c = sep) (s : Text) :
    (s.map f).splitOn sep = (s.splitOn sep).map (List.map f) := by
  induction s with
  | nil => rfl
  | cons c s ih =>
    rw [List.map_cons, List.splitOn_cons_eq_if_modifyHead, List.splitOn_cons_eq_if_modifyHead, ih]
    obtain ⟨t, ts, hts⟩ := List.exists_cons_of_ne_nil (List.splitOn_ne_nil sep s)
    by_cases hc : c = sep
    · simp [hc, (hf sep).2 rfl]
    · simp [hc, (hf c).not.2 hc, hts]

theorem splitPair_map {f : Char → Char} (hf : ∀ c, f c = ':' ↔ c = ':') (s : Text) :
    splitPair (s.map f) = (splitPair s).map (List.map f) := by
  have hcolon : f ':' = ':' := (hf ':').2 rfl
  fun_induction splitPair s with
  | case1 s ih =>
    rw [List.map_cons, List.map_cons, hcolon, splitPair, ih]
    rfl
  | case2 c s hpair ih =>
    obtain ⟨t, ts, hts⟩ := List.exists_cons_of_ne_nil (splitPair_ne_nil s)
    rw [List.map_cons, splitPair, ih, hts]
    · rfl
    · -- A pair of colons stays one.
      intro s' hc hs'
      cases s with
      | nil => simp at hs'
      | cons c' s =>
        rw [List.map_cons, List.cons.injEq] at hs'
        exact hpair s ((hf c).1 hc) (by rw [(hf c').1 hs'.1])
  | case3 => rfl

/-- Only a letter becomes a letter. -/
theorem toLower_eq_iff {x : Char} (hx : x.isAlpha = false) (c : Char) : c.toLower = x ↔ c = x := by
  obtain hc | ⟨hlow, hhigh⟩ := toLower_cases c
  · rw [hc]
  · have hofNat : c = Char.ofNat c.toNat := (Char.ofNat_toNat c).symm
    rw [hofNat]
    generalize c.toNat = n at hlow hhigh
    constructor
    · rintro rfl
      interval_cases n <;> exact absurd hx (by decide)
    · rintro rfl
      interval_cases n <;> exact absurd hx (by decide)

theorem hexDigit_toLower (c : Char) : Json.hexDigit c.toLower = Json.hexDigit c := by
  obtain hc | ⟨hlow, hhigh⟩ := toLower_cases c
  · rw [hc]
  · have hofNat : c = Char.ofNat c.toNat := (Char.ofNat_toNat c).symm
    rw [hofNat]
    generalize c.toNat = n at hlow hhigh
    interval_cases n <;> rfl

theorem group_map_toLower (s : Text) : group (s.map Char.toLower) = group s := by
  simp only [group, inBase, List.length_map, List.isEmpty_map, List.foldlM_map, hexDigit_toLower]

theorem groups_map_toLower (parts : List Text) :
    groups (parts.map (List.map Char.toLower)) = groups parts := by
  induction parts with
  | nil => rfl
  | cons piece rest ih => simp only [List.map_cons, groups, group_map_toLower, ih]

theorem map_toLower_of_quad {s : Text} {bytes : List Nat} (h : quad s = some bytes) :
    s.map Char.toLower = s := by
  conv_rhs => rw [← List.map_id s]
  refine List.map_congr_left fun c hc => ?_
  obtain hdigit | rfl := digit_or_dot_of_quad h c hc
  · exact toLower_of_isDigit hdigit
  · rfl

theorem groupsOrQuad_map_toLower {parts : List Text} {bytes : List Nat}
    (h : groupsOrQuad parts = some bytes) :
    groupsOrQuad (parts.map (List.map Char.toLower)) = some bytes := by
  have hdot : ∀ piece : Text, '.' ∈ piece.map Char.toLower ↔ '.' ∈ piece := fun piece => by
    simp only [List.mem_map, toLower_eq_iff (x := '.') rfl, exists_eq_right]
  fun_induction groupsOrQuad parts generalizing bytes with
  | case1 => exact h
  | case2 piece hmem =>
    rw [List.map_singleton, groupsOrQuad, if_pos ((hdot piece).2 hmem), map_toLower_of_quad h]
    exact h
  | case3 piece hmem =>
    rw [List.map_singleton, groupsOrQuad, if_neg ((hdot piece).not.2 hmem), group_map_toLower]
    exact h
  | case4 piece rest hrest ih =>
    simp only [Option.bind_eq_bind, Option.pure_def, Option.bind_eq_some_iff] at h
    obtain ⟨word, hword, bytes', hbytes', heq⟩ := h
    rw [List.map_cons, groupsOrQuad, group_map_toLower, hword, ih hbytes']
    · exact heq
    · simpa using hrest

theorem pieces_map_toLower (s : Text) :
    pieces (s.map Char.toLower) = (pieces s).map (List.map Char.toLower) := by
  cases s with
  | nil => rfl
  | cons c s => exact splitOn_map (toLower_eq_iff rfl) (c :: s)

/-- Letter case does not matter. -/
theorem ipv6_map_toLower {s : Text} {bytes : List Nat} (h : ipv6 s = some bytes) :
    ipv6 (s.map Char.toLower) = some bytes := by
  have hpair := splitPair_map (toLower_eq_iff (x := ':') rfl) s
  obtain ⟨hsplit, hread, hlen⟩ | ⟨head, tail, front, back, hsplit, hfront, hback, hlen, rfl⟩ :=
    ipv6_cases h
  · rw [hsplit] at hpair
    simp [ipv6, hpair, pieces_map_toLower, groupsOrQuad_map_toLower hread, hlen]
  · rw [hsplit] at hpair
    simp [ipv6, hpair, pieces_map_toLower, groups_map_toLower, hfront,
      groupsOrQuad_map_toLower hback, hlen]

/-- A hexadecimal digit in lower case. -/
theorem toLower_of_hexDigit {c : Char} {d : Nat} (h : Json.hexDigit c = some d) :
    c.toLower = d.digitChar := by
  have hrange := toNat_of_isAddressChar (c := c) (by simp [isAddressChar, h])
  have hofNat : c = Char.ofNat c.toNat := (Char.ofNat_toNat c).symm
  rw [hofNat] at h ⊢
  generalize c.toNat = n at hrange h
  obtain ⟨hlow, hhigh, -⟩ := hrange
  interval_cases n <;> first | (cases h; rfl) | cases h

/-! ## The first group -/

/-- Digits write a number that is not below the first of them. -/
theorem le_of_inBase {base : Nat} (hbase : 0 < base) {c : Char} {s : Text} {n d : Nat}
    (h : inBase base (c :: s) = some n) (hc : Json.hexDigit c = some d) : d ≤ n := by
  have hfold : ∀ (s : Text) (n m : Nat), s.foldlM (fun n c => (Json.hexDigit c).bind fun d =>
      if d < base then some (base * n + d) else none) n = some m → n ≤ m := by
    intro s
    induction s with
    | nil =>
      rintro n m ⟨⟩
      exact le_refl n
    | cons c s ih =>
      intro n m hm
      simp only [List.foldlM_cons, Option.bind_eq_bind, Option.bind_eq_some_iff] at hm
      obtain ⟨n', ⟨d, -, hd⟩, hm⟩ := hm
      split at hd
      · cases hd
        calc n ≤ base * n := Nat.le_mul_of_pos_left n hbase
          _ ≤ base * n + d := Nat.le_add_right _ d
          _ ≤ m := ih _ _ hm
      · cases hd
  simp only [inBase, List.isEmpty_cons, Bool.false_eq_true, if_false, List.foldlM_cons,
    Option.bind_eq_bind, Option.bind_eq_some_iff] at h
  obtain ⟨n', ⟨d', hd', hif⟩, hm⟩ := h
  obtain rfl : d = d' := Option.some.inj (hc.symm.trans hd')
  split at hif
  · cases hif
    exact (Nat.le_add_left d _).trans (hfold s _ n hm)
  · cases hif

/-- The digits of a group of four. -/
theorem digits_of_group {s : Text} {word : Nat} (h : group s = some word) (hword : 4096 ≤ word) :
    ∃ c₁ c₂ c₃ c₄, s = [c₁, c₂, c₃, c₄] ∧ Json.hexDigit c₁ = some (word / 4096) ∧
      Json.hexDigit c₂ = some (word / 256 % 16) ∧ Json.hexDigit c₃ = some (word / 16 % 16) := by
  unfold group at h
  split at h
  next hlen =>
    have hfour : s.length = 4 := by
      have hlt := inBase_lt h
      by_contra hne
      have hpow : 16 ^ s.length ≤ 16 ^ 3 := Nat.pow_le_pow_right (by decide) (by omega)
      omega
    match s, hfour with
    | [c₁, c₂, c₃, c₄], _ =>
      simp only [inBase, List.isEmpty_cons, Bool.false_eq_true, if_false, List.foldlM_cons,
        List.foldlM_nil, Option.bind_eq_bind, Option.bind_eq_some_iff, Option.pure_def,
        Option.some.injEq] at h
      obtain ⟨n₁, ⟨d₁, hd₁, h₁⟩, n₂, ⟨d₂, hd₂, h₂⟩, n₃, ⟨d₃, hd₃, h₃⟩, n₄, ⟨d₄, hd₄, h₄⟩, rfl⟩ := h
      split_ifs at h₁ h₂ h₃ h₄ with hlt₁ hlt₂ hlt₃ hlt₄
      cases h₁
      cases h₂
      cases h₃
      cases h₄
      refine ⟨c₁, c₂, c₃, c₄, rfl, ?_, ?_, ?_⟩
      · rw [hd₁]
        congr 1
        omega
      · rw [hd₂]
        congr 1
        omega
      · rw [hd₃]
        congr 1
        omega
  · cases h

/-- The first part of a text is in front. -/
theorem eq_append_of_splitOn {sep : Char} {s part : Text} {parts : List Text}
    (h : s.splitOn sep = part :: parts) : ∃ rest, s = part ++ rest := by
  induction s generalizing part parts with
  | nil =>
    rw [List.splitOn_nil] at h
    cases h
    exact ⟨[], rfl⟩
  | cons c s ih =>
    rw [List.splitOn_cons_eq_if_modifyHead] at h
    split at h
    · cases h
      exact ⟨c :: s, rfl⟩
    · obtain ⟨part', parts', hparts⟩ := List.exists_cons_of_ne_nil (List.splitOn_ne_nil sep s)
      rw [hparts, List.modifyHead_cons] at h
      cases h
      obtain ⟨rest, hrest⟩ := ih hparts
      exact ⟨rest, congrArg (c :: ·) hrest⟩

/-- An address begins with a colon and two zero bytes, or with its first group. -/
theorem first_of_ipv6 {s : Text} {bytes : List Nat} (h : ipv6 s = some bytes) :
    (∃ rest bytes', s = ':' :: rest ∧ bytes = bytesOfWord 0 ++ bytes') ∨
    ∃ piece word rest bytes', group piece = some word ∧ s = piece ++ rest ∧
      bytes = bytesOfWord word ++ bytes' := by
  obtain ⟨-, hread, hlen⟩ | ⟨head, tail, front, back, hsplit, hfront, hback, hlen, rfl⟩ :=
    ipv6_cases h
  · right
    unfold pieces at hread
    split at hread
    · cases hread
      cases hlen
    · obtain ⟨piece, parts, hparts⟩ := List.exists_cons_of_ne_nil (List.splitOn_ne_nil ':' s)
      obtain ⟨rest, hrest⟩ := eq_append_of_splitOn hparts
      rw [hparts] at hread
      -- One piece has four bytes at most.
      unfold groupsOrQuad at hread
      split at hread
      next heq => cases heq
      next piece' heq =>
        cases heq
        split at hread
        · rw [(bytes_of_quad hread).1] at hlen
          cases hlen
        · obtain ⟨word, -, rfl⟩ := Option.map_eq_some_iff.1 hread
          cases hlen
      next piece' parts' _ heq =>
        cases heq
        simp only [Option.bind_eq_bind, Option.pure_def, Option.bind_eq_some_iff,
          Option.some.injEq] at hread
        obtain ⟨word, hword, bytes', -, rfl⟩ := hread
        exact ⟨piece, word, rest, bytes', hword, hrest, rfl⟩
  · have hs : s = head ++ [':', ':'] ++ tail := by
      rw [← intercalate_splitPair s, hsplit]
      simp
    by_cases hhead : head = []
    · left
      subst hhead
      cases hfront
      obtain ⟨k, hk⟩ : ∃ k, 16 - back.length = k + 2 :=
        ⟨16 - back.length - 2, by simp at hlen; omega⟩
      refine ⟨':' :: tail, List.replicate k 0 ++ back, hs, ?_⟩
      rw [List.length_nil, Nat.zero_add, hk, List.replicate_succ, List.replicate_succ]
      rfl
    · right
      rw [pieces, if_neg hhead] at hfront
      obtain ⟨piece, parts, hparts⟩ := List.exists_cons_of_ne_nil (List.splitOn_ne_nil ':' head)
      obtain ⟨rest, hrest⟩ := eq_append_of_splitOn hparts
      rw [hparts] at hfront
      simp only [groups, Option.bind_eq_bind, Option.pure_def, Option.bind_eq_some_iff,
        Option.some.injEq] at hfront
      obtain ⟨word, hword, bytes', -, rfl⟩ := hfront
      generalize List.replicate (16 - ((bytesOfWord word ++ bytes').length + back.length)) 0 = zeros
      refine ⟨piece, word, rest ++ [':', ':'] ++ tail, bytes' ++ zeros ++ back, hword, ?_, ?_⟩
      · rw [hs, hrest, List.append_assoc, List.append_assoc, List.append_assoc]
      · rw [List.append_assoc, List.append_assoc, List.append_assoc]

/-! ## One text, two readings -/

theorem inBase_ten {s : Text} (h : isDigits s = true) : inBase 10 s = some (decimal s) := by
  have hfold : ∀ (s : Text) (n : Nat), (∀ c ∈ s, c.isDigit = true) →
      s.foldlM (fun n c => (Json.hexDigit c).bind fun d =>
        if d < 10 then some (10 * n + d) else none) n =
      some (s.foldl (fun n c => 10 * n + (c.toNat - '0'.toNat)) n) := by
    intro s
    induction s with
    | nil => simp
    | cons c s ih =>
      intro n hdigits
      have hc := hdigits c List.mem_cons_self
      have hrange := toNat_of_isDigit hc
      have hlt : c.toNat - '0'.toNat < 10 := by
        have : '0'.toNat = 48 := rfl
        omega
      have hhex : Json.hexDigit c = some (c.toNat - '0'.toNat) := by
        simp only [Char.isDigit, Bool.and_eq_true, decide_eq_true_eq] at hc
        exact if_pos ⟨hc.1, hc.2⟩
      simp only [List.foldlM_cons, hhex, Option.bind_some, if_pos hlt, Option.bind_eq_bind,
        List.foldl_cons]
      exact ih _ fun c' hc' => hdigits c' (List.mem_cons_of_mem _ hc')
  have hempty : s.isEmpty = false := by simpa using ne_nil_of_isDigits h
  rw [inBase, hempty]
  exact hfold s 0 (isDigit_of_isDigits h)

/-- A strict octet is the same number in C. -/
theorem cNumber_of_octet {s : Text} {n : Nat} (h : octet s = some n) : cNumber s = some n := by
  unfold octet at h
  split at h
  next hif =>
    obtain ⟨hdigits, hzero, -⟩ := hif
    cases h
    unfold cNumber
    split
    · -- A leading zero would be the whole text.
      simpa using hzero rfl
    · exact inBase_ten hdigits
  · cases h

/-- Strict dotted decimal is read alike by the system. -/
theorem aton_of_quad {s : Text} {bytes : List Nat} (h : quad s = some bytes) :
    aton s = some (value bytes) := by
  obtain ⟨p, q, r, t, a, b, c, d, hsplit, ha, hb, hc, hd, rfl⟩ := fourParts_eq_some.1 h
  have ha' := octet_lt ha
  have hb' := octet_lt hb
  have hc' := octet_lt hc
  have hd' := octet_lt hd
  simp [aton, hsplit, cNumber_of_octet ha, cNumber_of_octet hb, cNumber_of_octet hc,
    cNumber_of_octet hd, ha', hb', hc', hd', value]
  ring

theorem colon_not_mem_of_cNumber {s : Text} {n : Nat} (h : cNumber s = some n) : ':' ∉ s := by
  have hnone : ∀ {t : Text} {base m : Nat}, inBase base t = some m → ':' ∉ t := by
    intro t base m ht hmem
    exact absurd (hexDigit_of_inBase ht ':' hmem) (by decide)
  unfold cNumber at h
  split at h
  next c t =>
    split at h
    next hx =>
      have hc : c ≠ ':' := by
        rintro rfl
        exact absurd hx (by decide)
      simp [hnone h, Ne.symm hc]
    · have hrest := hnone h
      simpa using hrest
  · exact hnone h

/-- A text with a colon is nothing to `inet_aton`. -/
theorem aton_of_colon {s : Text} (h : ':' ∈ s) : aton s = none := by
  have hparts : ∀ (parts : List Text) (ns : List Nat), parts.mapM cNumber = some ns →
      ∀ part ∈ parts, ':' ∉ part := by
    intro parts
    induction parts with
    | nil => simp
    | cons part parts ih =>
      intro ns hns part' hpart'
      simp only [List.mapM_cons, Option.bind_eq_bind, Option.pure_def,
        Option.bind_eq_some_iff] at hns
      obtain ⟨n, hn, ns', hns', -⟩ := hns
      obtain rfl | hpart' := List.mem_cons.1 hpart'
      · exact colon_not_mem_of_cNumber hn
      · exact ih ns' hns' part' hpart'
  obtain ⟨part, hpart, hmem⟩ := exists_mem_splitOn h (show ':' ≠ '.' by decide)
  unfold aton
  cases hmap : (s.splitOn '.').mapM cNumber with
  | none => rfl
  | some ns => exact absurd hmem (hparts _ ns hmap part hpart)

end ChordV.Lib.Ip
