import Mathlib.Tactic.Common
import Mathlib.Algebra.Order.Ring.Nat
import Mathlib.Data.Nat.Log
import Mathlib.Tactic.FinCases
import Mathlib.Tactic.IntervalCases
import Mathlib.Tactic.Positivity
import Mathlib.Data.Int.Cast.Lemmas
import ChordV.Lib.Json

/-!
# Strings and numbers of ECMAScript

* `trim`, `cut` and `isDigits` are the string operations that patterns are read with.
* `Number` is a value of the number type.  A finite one is an integer, in units of the
  smallest subnormal `2 ^ -1074`; the two zeros are one value.
* `ofRat` rounds a fraction to the nearest number, ties to even, and `number` is the function
  `Number` on strings.
* `number_of_isDigits`: on a string of digits it rounds the integer they write.
* `ofNat_mono` and `ofNat_lt`: rounding keeps the order.
-/

namespace ChordV.Lib.Js

/-! ## Strings -/

/-- The white space that `trim` removes. -/
def isBlank (c : Char) : Bool :=
  [9, 10, 11, 12, 13, 32, 160, 0x1680, 0x2028, 0x2029, 0x202f, 0x205f, 0x3000, 0xfeff].contains
    c.toNat || (decide (0x2000 ≤ c.toNat) && decide (c.toNat ≤ 0x200a))

/-- `String.prototype.trim`. -/
def trim (s : Text) : Text := ((s.dropWhile isBlank).reverse.dropWhile isBlank).reverse

/-- The text before the first character with `p`, and the text after it. -/
def cut (p : Char → Bool) : Text → Text × Option Text
  | [] => ([], none)
  | c :: s => if p c then ([], some s) else (c :: (cut p s).1, (cut p s).2)

/-- `/^\d+$/`. -/
def isDigits (s : Text) : Bool := !s.isEmpty && s.all Char.isDigit

/-- The integer that a string of digits writes. -/
def decimal (s : Text) : Nat := s.foldl (fun n c => 10 * n + (c.toNat - '0'.toNat)) 0

theorem decimal_toDigits (n : Nat) : decimal (Nat.toDigits 10 n) = n := by
  rw [decimal, ← Nat.ofDigitChars_eq_foldl, Nat.ofDigitChars_ten_toDigits]

theorem isDigits_toDigits (n : Nat) : isDigits (Nat.toDigits 10 n) = true := by
  have hall : ∀ c ∈ Nat.toDigits 10 n, c.isDigit = true := fun c hc =>
    Nat.isDigit_of_mem_toDigits (by decide) (by decide) hc
  simpa [isDigits, Nat.toDigits_ne_nil] using hall

/-- Only zero is written with a zero in front. -/
theorem head_toDigits {n : Nat} (hn : 0 < n) : (Nat.toDigits 10 n).head? ≠ some '0' := by
  induction n using Nat.strong_induction_on with
  | _ n ih =>
    rw [Nat.toDigits_eq_if (by decide)]
    split
    · rename_i hlt
      rw [List.head?_cons]
      intro heq
      have hchar : n.digitChar = '0' := Option.some.inj heq
      interval_cases n <;> exact absurd hchar (by decide)
    · rename_i hle
      rw [List.head?_append_of_ne_nil _ Nat.toDigits_ne_nil]
      exact ih (n / 10) (Nat.div_lt_self hn (by decide)) (by omega)

theorem cut_of_forall {p : Char → Bool} : ∀ {s : Text}, (∀ c ∈ s, p c = false) →
    cut p s = (s, none)
  | [], _ => rfl
  | c :: s, h => by
    have ih := cut_of_forall fun c' hc' => h c' (List.mem_cons_of_mem _ hc')
    simp [cut, ih, h c List.mem_cons_self]

/-- `cut` stops at the first separator. -/
theorem cut_append {p : Char → Bool} {sep : Char} (hsep : p sep = true) (rest : Text) :
    ∀ {s : Text}, (∀ c ∈ s, p c = false) → cut p (s ++ sep :: rest) = (s, some rest)
  | [], _ => by simp [cut, hsep]
  | c :: s, h => by
    have ih := cut_append hsep rest fun c' hc' => h c' (List.mem_cons_of_mem _ hc')
    simp [cut, ih, h c List.mem_cons_self]

/-- What a cut that finds a separator says of the text. -/
theorem cut_eq_some {p : Char → Bool} : ∀ {s before after : Text},
    cut p s = (before, some after) →
      ∃ sep, p sep = true ∧ s = before ++ sep :: after ∧ ∀ c ∈ before, p c = false
  | [], _, _, h => by cases h
  | c :: s, before, after, h => by
    by_cases hc : p c = true
    · rw [cut, if_pos hc] at h
      cases h
      exact ⟨c, hc, rfl, by simp⟩
    · rw [cut, if_neg hc] at h
      obtain ⟨rfl, hafter⟩ := Prod.mk.injEq .. ▸ h
      obtain ⟨sep, hsep, heq, hbefore⟩ := cut_eq_some (Prod.ext rfl hafter)
      refine ⟨sep, hsep, congrArg (c :: ·) heq, ?_⟩
      intro c' hc'
      obtain rfl | hc' := List.mem_cons.1 hc'
      · simpa using hc
      · exact hbefore c' hc'

/-- A cut that finds no separator leaves the text. -/
theorem cut_eq_none {p : Char → Bool} : ∀ {s : Text}, (cut p s).2 = none → (cut p s).1 = s
  | [], _ => rfl
  | c :: s, h => by
    by_cases hc : p c = true
    · rw [cut, if_pos hc] at h
      cases h
    · rw [cut, if_neg hc] at h ⊢
      exact congrArg (c :: ·) (cut_eq_none h)

/-- Visible ASCII characters are not blank. -/
theorem not_isBlank_of_ascii {c : Char} (hlow : 33 ≤ c.toNat) (hhigh : c.toNat ≤ 126) :
    isBlank c = false := by
  unfold isBlank
  generalize c.toNat = n at hlow hhigh
  have hlist : [9, 10, 11, 12, 13, 32, 160, 0x1680, 0x2028, 0x2029, 0x202f, 0x205f, 0x3000,
      0xfeff].contains n = false := by
    rw [List.contains_eq_mem, decide_eq_false_iff_not]
    intro hmem
    fin_cases hmem <;> omega
  rw [hlist, Bool.false_or, Bool.and_eq_false_iff]
  exact .inl (decide_eq_false (by omega))

theorem toNat_of_isDigit {c : Char} (h : c.isDigit = true) : 48 ≤ c.toNat ∧ c.toNat ≤ 57 := by
  simp only [Char.isDigit, ge_iff_le, Bool.and_eq_true, decide_eq_true_eq,
    UInt32.le_iff_toNat_le] at h
  exact h

theorem not_isBlank_of_isAlphanum {c : Char} (h : c.isAlphanum = true) : isBlank c = false := by
  delta Char.isAlphanum Char.isAlpha Char.isUpper Char.isLower Char.isDigit at h
  simp only [ge_iff_le, Bool.or_eq_true, Bool.and_eq_true, decide_eq_true_eq,
    UInt32.le_iff_toNat_le] at h
  have hrange : (65 ≤ c.toNat ∧ c.toNat ≤ 90 ∨ 97 ≤ c.toNat ∧ c.toNat ≤ 122) ∨
      48 ≤ c.toNat ∧ c.toNat ≤ 57 := h
  exact not_isBlank_of_ascii (by omega) (by omega)

theorem dropWhile_eq_self {p : Char → Bool} {s : Text} (h : ∀ c ∈ s.head?, p c = false) :
    s.dropWhile p = s := by
  cases s with
  | nil => rfl
  | cons c s => simp [h c rfl]

/-- A text with no blank at either end is trimmed. -/
theorem trim_eq_self {s : Text} (hhead : ∀ c ∈ s.head?, isBlank c = false)
    (hlast : ∀ c ∈ s.getLast?, isBlank c = false) : trim s = s := by
  rw [trim, dropWhile_eq_self hhead, dropWhile_eq_self (by simpa using hlast), List.reverse_reverse]

theorem mem_of_mem_trim {s : Text} {c : Char} (h : c ∈ trim s) : c ∈ s := by
  rw [trim, List.mem_reverse] at h
  have hback := (List.dropWhile_sublist isBlank).subset h
  rw [List.mem_reverse] at hback
  exact (List.dropWhile_sublist isBlank).subset hback

/-- A character of a text is the separator or in a part. -/
theorem exists_mem_splitOn {sep c : Char} : ∀ {s : Text}, c ∈ s → c ≠ sep →
    ∃ t ∈ s.splitOn sep, c ∈ t
  | x :: s, hmem, hne => by
    obtain ⟨t, ts, hts⟩ := List.exists_cons_of_ne_nil (List.splitOn_ne_nil sep s)
    rw [List.splitOn_cons_eq_if_modifyHead, hts]
    by_cases hx : x = sep
    · obtain ⟨t', ht', hc⟩ :=
        exists_mem_splitOn ((List.mem_cons.1 hmem).resolve_left (hx ▸ hne)) hne
      exact ⟨t', by simpa [hx, hts] using .inr (List.mem_cons.1 (hts ▸ ht')), hc⟩
    · obtain rfl | hmem := List.mem_cons.1 hmem
      · exact ⟨c :: t, by simp [hx], List.mem_cons_self⟩
      · obtain ⟨t', ht', hc⟩ := exists_mem_splitOn hmem hne
        rw [hts] at ht'
        obtain rfl | ht' := List.mem_cons.1 ht'
        · exact ⟨x :: t', by simp [hx], List.mem_cons_of_mem _ hc⟩
        · exact ⟨t', by simp [hx, ht'], hc⟩

/-! ## Rounding -/

/-- `n / d`, rounded to the nearest integer, ties to even. -/
def roundHalfEven (n d : Nat) : Nat :=
  if 2 * (n % d) < d then n / d
  else if d < 2 * (n % d) then n / d + 1
  else if n / d % 2 = 0 then n / d
  else n / d + 1

theorem roundHalfEven_mul (k : Nat) {d : Nat} (hd : 0 < d) : roundHalfEven (k * d) d = k := by
  simp [roundHalfEven, hd]

theorem roundHalfEven_ge (n d : Nat) : n / d ≤ roundHalfEven n d := by
  unfold roundHalfEven
  split_ifs <;> omega

theorem roundHalfEven_le (n d : Nat) : roundHalfEven n d ≤ n / d + 1 := by
  unfold roundHalfEven
  split_ifs <;> omega

theorem roundHalfEven_mono {n m : Nat} (d : Nat) (h : n ≤ m) :
    roundHalfEven n d ≤ roundHalfEven m d := by
  obtain hlt | heq := (Nat.div_le_div_right (c := d) h).lt_or_eq
  · exact (roundHalfEven_le n d).trans (hlt.trans_le (roundHalfEven_ge m d))
  · -- With one quotient, the remainders are ordered as the dividends.
    have hmod : n % d ≤ m % d := by
      have hn := Nat.div_add_mod n d
      have hm := Nat.div_add_mod m d
      rw [heq] at hn
      omega
    unfold roundHalfEven
    rw [heq]
    split_ifs <;> omega

/-- The exponent of the last bit of a number that holds `x` in 53 bits. -/
def lastBit (x : Nat) : Nat := Nat.log2 x - 52

/-- `n / d`, rounded to 53 significant bits, or to an integer where that is finer. -/
def toUnits (n d : Nat) : Nat :=
  roundHalfEven n (d * 2 ^ lastBit (n / d)) * 2 ^ lastBit (n / d)

theorem lt_two_pow_lastBit (x : Nat) : x < 2 ^ (53 + lastBit x) := by
  have hlog : x < 2 ^ (Nat.log2 x + 1) := Nat.lt_log2_self
  exact hlog.trans_le (Nat.pow_le_pow_right (by decide) (by unfold lastBit; omega))

theorem two_pow_le_of_lastBit {x : Nat} (h : 0 < lastBit x) : 2 ^ (52 + lastBit x) ≤ x := by
  have hx : x ≠ 0 := by
    rintro rfl
    simp [lastBit] at h
  have hlog : 2 ^ Nat.log2 x ≤ x := Nat.log2_self_le hx
  exact (Nat.pow_le_pow_right (by decide) (by unfold lastBit at h ⊢; omega)).trans hlog

theorem lastBit_mono {x y : Nat} (h : x ≤ y) : lastBit x ≤ lastBit y := by
  unfold lastBit
  rw [Nat.log2_eq_log_two, Nat.log2_eq_log_two]
  exact Nat.sub_le_sub_right (Nat.log_mono_right h) _

/-- Rounding keeps the order, also across a power of two. -/
theorem toUnits_mono {x y d : Nat} (hd : 0 < d) (h : x ≤ y) : toUnits x d ≤ toUnits y d := by
  unfold toUnits
  have hquotient : x / d ≤ y / d := Nat.div_le_div_right h
  obtain hlt | heq := (lastBit_mono hquotient).lt_or_eq
  · generalize hb : lastBit (x / d) = b at hlt ⊢
    generalize hc : lastBit (y / d) = c at hlt ⊢
    calc roundHalfEven x (d * 2 ^ b) * 2 ^ b
        ≤ roundHalfEven (2 ^ 53 * (d * 2 ^ b)) (d * 2 ^ b) * 2 ^ b := by
          refine Nat.mul_le_mul_right _ (roundHalfEven_mono _ ?_)
          have hbelow : x / d < 2 ^ (53 + b) := hb ▸ lt_two_pow_lastBit (x / d)
          rw [Nat.div_lt_iff_lt_mul hd, Nat.pow_add, Nat.mul_assoc, Nat.mul_comm (2 ^ b)] at hbelow
          exact hbelow.le
      _ = 2 ^ (53 + b) := by
          rw [roundHalfEven_mul _ (by positivity), ← Nat.pow_add]
      _ ≤ 2 ^ (52 + c) := Nat.pow_le_pow_right (by decide) (by omega)
      _ = roundHalfEven (2 ^ 52 * (d * 2 ^ c)) (d * 2 ^ c) * 2 ^ c := by
          rw [roundHalfEven_mul _ (by positivity), ← Nat.pow_add]
      _ ≤ roundHalfEven y (d * 2 ^ c) * 2 ^ c := by
          refine Nat.mul_le_mul_right _ (roundHalfEven_mono _ ?_)
          have habove : 2 ^ (52 + c) ≤ y / d := hc ▸ two_pow_le_of_lastBit (by omega)
          rw [Nat.le_div_iff_mul_le hd, Nat.pow_add, Nat.mul_assoc, Nat.mul_comm (2 ^ c)] at habove
          exact habove
  · rw [heq]
    exact Nat.mul_le_mul_right _ (roundHalfEven_mono _ h)

/-! ## Numbers -/

/-- A finite number is counted in units of `2 ^ -1074`. -/
inductive Number where
  | nan
  | negInfinity
  | finite (units : Int)
  | infinity
deriving DecidableEq, Repr

namespace Number

/-- The operator `<`. -/
def lt : Number → Number → Bool
  | finite a, finite b => a < b
  | negInfinity, finite _ | negInfinity, infinity | finite _, infinity => true
  | _, _ => false

/-- `Number.isFinite`. -/
def isFinite : Number → Bool
  | finite _ => true
  | _ => false

end Number

/-- The number nearest to `n / d`, or to `-n / d`. -/
def ofRat (negative : Bool) (n d : Nat) : Number :=
  let units := toUnits (n * 2 ^ 1074) d
  if units < 2 ^ 2098 then .finite (if negative then -units else units)
  else if negative then .negInfinity else .infinity

/-- The number nearest to an integer. -/
def ofNat (n : Nat) : Number := ofRat false n 1

/-- An integer is a finite number or beyond them. -/
theorem ofNat_cases (n : Nat) : (∃ units : Nat, ofNat n = .finite units) ∨ ofNat n = .infinity := by
  simp only [ofNat, ofRat, Bool.false_eq_true, if_false]
  generalize toUnits (n * 2 ^ 1074) 1 = units
  generalize 2 ^ 2098 = bound
  split_ifs
  · exact .inl ⟨units, rfl⟩
  · exact .inr rfl

/-- The order of numbers that are integers or infinity. -/
theorem ofNat_mono {a b : Nat} (h : a ≤ b) : (ofNat b).lt (ofNat a) = false := by
  have hunits : toUnits (a * 2 ^ 1074) 1 ≤ toUnits (b * 2 ^ 1074) 1 :=
    toUnits_mono Nat.one_pos (Nat.mul_le_mul_right _ h)
  simp only [ofNat, ofRat, Bool.false_eq_true, if_false]
  generalize toUnits (a * 2 ^ 1074) 1 = x at hunits ⊢
  generalize toUnits (b * 2 ^ 1074) 1 = y at hunits ⊢
  generalize 2 ^ 2098 = bound
  split_ifs with hy hx hx
  · simpa [Number.lt] using hunits
  · exact absurd (hunits.trans_lt hy) hx
  · rfl
  · rfl

/-- Integers that are different numbers are ordered as the numbers. -/
theorem ofNat_lt {a b : Nat} (hne : ofNat a ≠ ofNat b) (h : a ≤ b) :
    (ofNat a).lt (ofNat b) = true := by
  have hunits : toUnits (a * 2 ^ 1074) 1 ≤ toUnits (b * 2 ^ 1074) 1 :=
    toUnits_mono Nat.one_pos (Nat.mul_le_mul_right _ h)
  simp only [ofNat, ofRat, Bool.false_eq_true, if_false] at hne ⊢
  generalize toUnits (a * 2 ^ 1074) 1 = x at hunits hne ⊢
  generalize toUnits (b * 2 ^ 1074) 1 = y at hunits hne ⊢
  generalize 2 ^ 2098 = bound at hne ⊢
  split_ifs at hne ⊢ with hx hy hy
  · have hne : x ≠ y := by
      rintro rfl
      exact hne rfl
    simpa [Number.lt] using hunits.lt_of_ne hne
  · rfl
  · exact absurd (hunits.trans_lt hy) hx
  · exact absurd rfl hne

/-! ## Numbers of strings -/

/-- `/^[+-]?/`, and what follows it. -/
def takeSign : Text → Bool × Text
  | '-' :: s => (true, s)
  | '+' :: s => (false, s)
  | s => (false, s)

/-- The integer that the digits of a base write. -/
def inBase (base : Nat) (s : Text) : Option Nat :=
  if s.isEmpty then none
  else s.foldlM (fun n c => (Json.hexDigit c).bind fun d =>
    if d < base then some (base * n + d) else none) 0

/-- The base and the digits of a literal that is not decimal. -/
def radix : Text → Option (Nat × Text)
  | '0' :: c :: digits =>
    if c = 'x' ∨ c = 'X' then some (16, digits)
    else if c = 'o' ∨ c = 'O' then some (8, digits)
    else if c = 'b' ∨ c = 'B' then some (2, digits)
    else none
  | _ => none

/-- The exponent after an `e`. -/
def readExponent (s : Text) : Option Int :=
  let digits := (takeSign s).2
  if isDigits digits then
    some (if (takeSign s).1 then -(decimal digits : Int) else decimal digits)
  else none

/-- The number nearest to an integer times a power of ten. -/
def scaled (negative : Bool) (n : Nat) (exponent : Int) : Number :=
  if 0 ≤ exponent then ofRat negative (n * 10 ^ exponent.toNat) 1
  else ofRat negative n (10 ^ (-exponent).toNat)

theorem scaled_zero (negative : Bool) (n : Nat) : scaled negative n 0 = ofRat negative n 1 := by
  rw [scaled, if_pos (le_refl 0), Int.toNat_zero, pow_zero, Nat.mul_one]

/-- A decimal literal without its sign. -/
def readDecimal (negative : Bool) (s : Text) : Option Number :=
  if s = ['I', 'n', 'f', 'i', 'n', 'i', 't', 'y'] then
    some (if negative then .negInfinity else .infinity)
  else
    let scientific := cut (fun c => c == 'e' || c == 'E') s
    let mantissa := cut (· == '.') scientific.1
    let fraction := mantissa.2.getD []
    let digits := mantissa.1 ++ fraction
    if isDigits digits then
      (scientific.2.elim (some 0) readExponent).map fun exponent =>
        scaled negative (decimal digits) (exponent - fraction.length)
    else none

/-- The function `Number` on a string. -/
def number (s : Text) : Number :=
  let literal := trim s
  if literal.isEmpty then .finite 0
  else
    match radix literal with
    | some (base, digits) => ((inBase base digits).map ofNat).getD .nan
    | none => (readDecimal (takeSign literal).1 (takeSign literal).2).getD .nan

/-- The digits behind an optional prefix. -/
def withoutHexPrefix : Text → Text
  | '0' :: c :: s => if c = 'x' ∨ c = 'X' then s else '0' :: c :: s
  | s => s

/-- The function `parseInt` with base 16. -/
def parseHex (s : Text) : Number :=
  let signed := takeSign (s.dropWhile isBlank)
  let digits := (withoutHexPrefix signed.2).takeWhile fun c => (Json.hexDigit c).isSome
  ((inBase 16 digits).map fun n => ofRat signed.1 n 1).getD .nan

theorem isDigit_of_isDigits {s : Text} (h : isDigits s = true) : ∀ c ∈ s, c.isDigit = true :=
  List.all_eq_true.1 (Bool.and_eq_true_iff.1 h).2

theorem ne_nil_of_isDigits {s : Text} (h : isDigits s = true) : s ≠ [] := by
  rintro rfl
  simp [isDigits] at h

theorem trim_of_forall {s : Text} (h : ∀ c ∈ s, isBlank c = false) : trim s = s :=
  trim_eq_self (fun c hc => h c (List.mem_of_mem_head? hc))
    (fun c hc => h c (List.mem_of_mem_getLast? hc))

theorem not_isBlank_of_isDigits {s : Text} (h : isDigits s = true) :
    ∀ c ∈ s, isBlank c = false := by
  intro c hc
  have hrange := toNat_of_isDigit (isDigit_of_isDigits h c hc)
  exact not_isBlank_of_ascii (by omega) (by omega)

theorem trim_of_isDigits {s : Text} (h : isDigits s = true) : trim s = s :=
  trim_of_forall (not_isBlank_of_isDigits h)

theorem digitChar_of_isDigit {c : Char} (h : c.isDigit = true) :
    (c.toNat - '0'.toNat).digitChar = c := by
  have hrange := toNat_of_isDigit h
  have hzero : '0'.toNat = 48 := rfl
  rw [hzero]
  have hc : c = Char.ofNat c.toNat := (Char.ofNat_toNat c).symm
  rw [hc]
  generalize c.toNat = n at hrange ⊢
  obtain ⟨hlow, hhigh⟩ := hrange
  interval_cases n <;> rfl

theorem decimal_append (s : Text) (c : Char) :
    decimal (s ++ [c]) = 10 * decimal s + (c.toNat - '0'.toNat) := by
  simp [decimal]

/-- Without a zero in front, the digits are those of the integer. -/
theorem toDigits_decimal {s : Text} (h : isDigits s = true) (hzero : s.head? ≠ some '0') :
    0 < decimal s ∧ Nat.toDigits 10 (decimal s) = s := by
  induction s using List.reverseRecOn with
  | nil => cases h
  | append_singleton s c ih =>
    have hc : c.isDigit = true := isDigit_of_isDigits h c (by simp)
    have hrange := toNat_of_isDigit hc
    have hd : c.toNat - '0'.toNat < 10 := by
      have : '0'.toNat = 48 := rfl
      omega
    rw [decimal_append]
    by_cases hs : s = []
    · subst hs
      have hpos : 0 < c.toNat - '0'.toNat := by
        have hne : c ≠ '0' := by simpa using hzero
        have hne' : c.toNat ≠ '0'.toNat := fun heq => hne (Char.toNat_inj.1 heq)
        have : '0'.toNat = 48 := rfl
        omega
      refine ⟨by omega, ?_⟩
      rw [show decimal [] = 0 from rfl, Nat.mul_zero, Nat.zero_add, Nat.toDigits_of_lt_base hd,
        digitChar_of_isDigit hc, List.nil_append]
    · have hdigits : isDigits s = true := by
        have hall := isDigit_of_isDigits h
        simpa [isDigits, hs] using fun c' hc' => hall c' (by simp [hc'])
      obtain ⟨hpos, htext⟩ := ih hdigits (by rwa [List.head?_append_of_ne_nil _ hs] at hzero)
      refine ⟨by omega, ?_⟩
      rw [← Nat.toDigits_append_toDigits (by decide) hpos hd, htext, Nat.toDigits_of_lt_base hd,
        digitChar_of_isDigit hc]
/-- `toLower` changes capital letters only. -/
theorem toLower_cases (c : Char) : c.toLower = c ∨ 65 ≤ c.toNat ∧ c.toNat ≤ 90 := by
  unfold Char.toLower
  split
  next hupper =>
    simp only [ge_iff_le, UInt32.le_iff_toNat_le] at hupper
    exact .inr hupper
  · exact .inl rfl

theorem toLower_of_isDigit {c : Char} (h : c.isDigit = true) : c.toLower = c := by
  have hrange := toNat_of_isDigit h
  exact (toLower_cases c).resolve_right (by omega)

theorem map_toLower_of_isDigits {s : Text} (h : isDigits s = true) : s.map Char.toLower = s := by
  conv_rhs => rw [← List.map_id s]
  exact List.map_congr_left fun c hc => toLower_of_isDigit (isDigit_of_isDigits h c hc)

/-- A string of digits contains no character that is not a digit. -/
theorem ne_of_isDigits {s : Text} (h : isDigits s = true) {c' : Char} (hc' : c'.isDigit = false) :
    ∀ c ∈ s, (c == c') = false := by
  intro c hc
  rw [beq_eq_false_iff_ne]
  rintro rfl
  cases (isDigit_of_isDigits h c hc).symm.trans hc'

theorem takeSign_of_isDigits {s : Text} (h : isDigits s = true) : takeSign s = (false, s) := by
  have hdigit := isDigit_of_isDigits h
  unfold takeSign
  split
  · exact absurd (hdigit '-' List.mem_cons_self) (by decide)
  · exact absurd (hdigit '+' List.mem_cons_self) (by decide)
  · rfl

theorem radix_of_isDigits {s : Text} (h : isDigits s = true) : radix s = none := by
  have hdigit := isDigit_of_isDigits h
  unfold radix
  split
  · rename_i c digits
    have hc := hdigit c (by simp)
    split_ifs with hx ho hb
    · obtain rfl | rfl := hx <;> exact absurd hc (by decide)
    · obtain rfl | rfl := ho <;> exact absurd hc (by decide)
    · obtain rfl | rfl := hb <;> exact absurd hc (by decide)
    · rfl
  · rfl

theorem readDecimal_of_isDigits (negative : Bool) {s : Text} (h : isDigits s = true) :
    readDecimal negative s = some (ofRat negative (decimal s) 1) := by
  have hinfinity : s ≠ ['I', 'n', 'f', 'i', 'n', 'i', 't', 'y'] := by
    rintro rfl
    exact absurd h (by decide)
  have hexp : cut (fun c => c == 'e' || c == 'E') s = (s, none) := cut_of_forall fun c hc => by
    rw [ne_of_isDigits h (by decide) c hc, ne_of_isDigits h (by decide) c hc]
    rfl
  have hdot : cut (· == '.') s = (s, none) := cut_of_forall (ne_of_isDigits h (by decide))
  simp only [readDecimal, if_neg hinfinity, hexp, hdot, Option.getD_none, List.append_nil, h,
    if_true, Option.elim_none, Option.map_some, List.length_nil, Nat.cast_zero, sub_self,
    scaled_zero]

/-- `Number` rounds the integer that a string of digits writes. -/
theorem number_of_isDigits {s : Text} (h : isDigits s = true) : number s = ofNat (decimal s) := by
  have hread : readDecimal false s = some (ofNat (decimal s)) := readDecimal_of_isDigits false h
  have hempty : ¬ (trim s).isEmpty = true := by
    simpa [trim_of_isDigits h] using ne_nil_of_isDigits h
  unfold number
  rw [if_neg hempty, trim_of_isDigits h, radix_of_isDigits h, takeSign_of_isDigits h]
  -- The number stays a variable, so that nothing evaluates it.
  generalize ofNat (decimal s) = n at hread ⊢
  change (readDecimal false s).getD .nan = n
  rw [hread, Option.getD_some]

/-- The character of a sign. -/
def sign (negative : Bool) : Char := if negative then '-' else '+'

/-- `Number` of digits behind a sign. -/
theorem number_of_sign (negative : Bool) {s : Text} (h : isDigits s = true) :
    number (sign negative :: s) = ofRat negative (decimal s) 1 := by
  have hread := readDecimal_of_isDigits negative h
  have hsign : isBlank (sign negative) = false := by cases negative <;> decide
  have htrim : trim (sign negative :: s) = sign negative :: s := by
    refine trim_of_forall fun c hc => ?_
    obtain rfl | hc := List.mem_cons.1 hc
    · exact hsign
    · exact not_isBlank_of_isDigits h c hc
  have hradix : radix (sign negative :: s) = none := by cases negative <;> rfl
  have htake : takeSign (sign negative :: s) = (negative, s) := by cases negative <;> rfl
  have hempty : ¬ (trim (sign negative :: s)).isEmpty = true := by simp [htrim]
  unfold number
  rw [if_neg hempty, htrim, hradix, htake]
  generalize ofRat negative (decimal s) 1 = n at hread ⊢
  change (readDecimal negative s).getD .nan = n
  rw [hread, Option.getD_some]

/-! ## Texts that are not numbers -/

theorem isSome_hexDigit_of_isDigit {c : Char} (h : c.isDigit = true) :
    (Json.hexDigit c).isSome = true := by
  simp only [Char.isDigit, Bool.and_eq_true, decide_eq_true_eq] at h
  rw [Json.hexDigit, if_pos ⟨h.1, h.2⟩]
  rfl

theorem mem_trim {s : Text} {c : Char} (hc : isBlank c = false) (h : c ∈ s) : c ∈ trim s := by
  have hdrop : ∀ {t : Text}, c ∈ t → c ∈ t.dropWhile isBlank := by
    intro t ht
    rw [← List.takeWhile_append_dropWhile (p := isBlank) (l := t), List.mem_append] at ht
    refine ht.resolve_left fun htake => ?_
    exact absurd (List.all_eq_true.1 List.all_takeWhile c htake) (by simp [hc])
  rw [trim, List.mem_reverse]
  exact hdrop (List.mem_reverse.2 (hdrop h))

/-- The characters of numbers that are not hexadecimal digits. -/
def numberMarks : List Char := ['x', 'X', 'o', 'O', 'I', 'n', 'i', 't', 'y', '+', '-', '.']

/-- A character that no number has. -/
def isForeign (c : Char) : Bool :=
  !isBlank c && (Json.hexDigit c).isNone && !(numberMarks.contains c)

theorem inBase_of_foreign {base : Nat} {s : Text} {c : Char} (hc : (Json.hexDigit c).isNone = true)
    (h : c ∈ s) : inBase base s = none := by
  have hfold : ∀ (s : Text) (n : Nat), c ∈ s → s.foldlM (fun n c => (Json.hexDigit c).bind fun d =>
      if d < base then some (base * n + d) else none) n = none := by
    intro s
    induction s with
    | nil => simp
    | cons x s ih =>
      intro n hmem
      rw [List.foldlM_cons, Option.bind_eq_bind, Option.bind_eq_none_iff]
      intro m hm
      obtain rfl | hmem := List.mem_cons.1 hmem
      · rw [Option.isNone_iff_eq_none.1 hc] at hm
        cases hm
      · exact ih m hmem
  unfold inBase
  split
  · rfl
  · exact hfold s 0 h

theorem mem_cut {p : Char → Bool} {s : Text} {c : Char} (hc : p c = false) (h : c ∈ s) :
    c ∈ (cut p s).1 ∨ ∃ rest, (cut p s).2 = some rest ∧ c ∈ rest := by
  induction s with
  | nil => cases h
  | cons x s ih =>
    unfold cut
    obtain rfl | h := List.mem_cons.1 h
    · simp [hc]
    · split
      · exact .inr ⟨s, rfl, h⟩
      · exact (ih h).imp (List.mem_cons_of_mem _) id

theorem mem_takeSign {s : Text} {c : Char} (hc : c ≠ '-' ∧ c ≠ '+') (h : c ∈ s) :
    c ∈ (takeSign s).2 := by
  unfold takeSign
  split
  · exact (List.mem_cons.1 h).resolve_left hc.1
  · exact (List.mem_cons.1 h).resolve_left hc.2
  · exact h

theorem isDigits_of_foreign {s : Text} {c : Char} (hc : c.isDigit = false) (h : c ∈ s) :
    isDigits s = false := by
  cases hs : isDigits s with
  | false => rfl
  | true => exact (isDigit_of_isDigits hs c h).symm.trans hc

/-- What a literal with a base looks like. -/
theorem radix_eq_some {s : Text} {base : Nat} {digits : Text} (h : radix s = some (base, digits)) :
    ∃ x, s = '0' :: x :: digits ∧ ((Json.hexDigit x).isSome = true ∨ x ∈ numberMarks) := by
  unfold radix at h
  split at h
  next x rest =>
    split_ifs at h with hx ho hb
    · cases h
      obtain rfl | rfl := hx
      · exact ⟨_, rfl, .inr (by decide)⟩
      · exact ⟨_, rfl, .inr (by decide)⟩
    · cases h
      obtain rfl | rfl := ho
      · exact ⟨_, rfl, .inr (by decide)⟩
      · exact ⟨_, rfl, .inr (by decide)⟩
    · cases h
      obtain rfl | rfl := hb
      · exact ⟨_, rfl, .inl rfl⟩
      · exact ⟨_, rfl, .inl rfl⟩
  · cases h

/-- A text with a foreign character is not a number. -/
theorem number_of_foreign {s : Text} {c : Char} (hc : isForeign c = true) (h : c ∈ s) :
    number s = .nan := by
  simp only [isForeign, Bool.and_eq_true, Bool.not_eq_true', List.contains_eq_mem,
    decide_eq_false_iff_not] at hc
  obtain ⟨⟨hblank, hhex⟩, hmark⟩ := hc
  have hne : ∀ x, (Json.hexDigit x).isSome = true ∨ x ∈ numberMarks → c ≠ x := by
    rintro x (hx | hx) rfl
    · simp [Option.isNone_iff_eq_none.1 hhex] at hx
    · exact hmark hx
  have hdigit : c.isDigit = false := by
    cases hd : c.isDigit with
    | false => rfl
    | true => exact absurd rfl (hne c (.inl (isSome_hexDigit_of_isDigit hd)))
  have hmem := mem_trim hblank h
  have hempty : ¬ (trim s).isEmpty = true := by simpa using List.ne_nil_of_mem hmem
  unfold number
  rw [if_neg hempty]
  split
  next base digits hradix =>
    have hdigits : c ∈ digits := by
      obtain ⟨x, htext, hx⟩ := radix_eq_some hradix
      rw [htext] at hmem
      have hmem := (List.mem_cons.1 hmem).resolve_left (hne '0' (.inl rfl))
      exact (List.mem_cons.1 hmem).resolve_left (hne x hx)
    rw [inBase_of_foreign hhex hdigits]
    rfl
  next hradix =>
    have hsign := mem_takeSign ⟨hne '-' (.inr (by decide)), hne '+' (.inr (by decide))⟩ hmem
    generalize (takeSign (trim s)).1 = negative
    generalize (takeSign (trim s)).2 = literal at hsign
    have hnone : readDecimal negative literal = none := by
      have hinfinity : literal ≠ ['I', 'n', 'f', 'i', 'n', 'i', 't', 'y'] := by
        rintro rfl
        have hall : ∀ x ∈ ['I', 'n', 'f', 'i', 'n', 'i', 't', 'y'],
            (Json.hexDigit x).isSome = true ∨ x ∈ numberMarks := by
          simp [numberMarks, Json.hexDigit]
        exact hne c (hall c hsign) rfl
      rw [readDecimal, if_neg hinfinity]
      obtain hmantissa | ⟨rest, hrest, hexp⟩ :=
        mem_cut (p := fun c => c == 'e' || c == 'E')
          (by simp [hne 'e' (.inl rfl), hne 'E' (.inl rfl)]) hsign
      · have hdigits :
          isDigits ((cut (· == '.') (cut (fun c => c == 'e' || c == 'E') literal).1).1 ++
            ((cut (· == '.') (cut (fun c => c == 'e' || c == 'E') literal).1).2).getD []) =
            false := by
          refine isDigits_of_foreign hdigit (List.mem_append.2 ?_)
          obtain hwhole | ⟨rest, hrest, hfraction⟩ :=
            mem_cut (p := (· == '.')) (by simp [hne '.' (.inr (by decide))]) hmantissa
          · exact .inl hwhole
          · exact .inr (by rwa [hrest])
        simp only [hdigits, Bool.false_eq_true, if_false]
      · have hexponent : readExponent rest = none := by
          have hdigits := isDigits_of_foreign hdigit
            (mem_takeSign ⟨hne '-' (.inr (by decide)), hne '+' (.inr (by decide))⟩ hexp)
          simp [readExponent, hdigits]
        simp [hrest, hexponent]
    rw [hnone]
    rfl

end ChordV.Lib.Js
