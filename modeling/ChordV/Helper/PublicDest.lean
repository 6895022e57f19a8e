import ChordV.Helper.Requests
import ChordV.Lib.IpAddress

/-!
# The pinned fallback target

`assertPublicDest` of `apps/node-agent/src/xray-apply.ts` with `parseIPv4`, `parseIPv6` and
`isInternalDestAddress`.

* The answer of the resolver is any list of texts.
* `readings` are the addresses a consumer may read from a host text: strict dotted decimal, the
  groups of an IPv6 address, and what `inet_aton` makes of it.
* `Pinned` says that a target is a literal with a port, and public for every reader.  `pinned_iff`
  says when it holds: the port is written plainly, and the judged text is read alike by everyone.
-/

namespace ChordV.Helper.PublicDest

open Lib Lib.Js Lib.Ip Lib.Fallible

/-! ## The parsers -/

/-- `/^\d{1,3}$/`, and a number of a byte. -/
def isOctet (part : Text) : Bool := isDigits part && part.length ≤ 3 && decimal part ≤ 255

/-- The octets, with leading zeros as well. -/
def parseIPv4 (value : Text) : Option (List Nat) :=
  let parts := value.splitOn '.'
  if parts.length = 4 ∧ parts.all isOctet then some (parts.map decimal) else none

/-- The loop of `expand`. -/
def expand : List Text → Option (List Nat)
  | [] => some []
  | piece :: rest => do
    let bytes ← if '.' ∈ piece then parseIPv4 piece else (group piece).map bytesOfWord
    return bytes ++ (← expand rest)

/-- Of the parts between two colons only the first two are read. -/
def parseIPv6 (value : Text) : Option (List Nat) := do
  let host := stripBrackets ((trim value).map Char.toLower)
  if ':' ∈ host then
    match splitPair host with
    | [] => none
    | [head] =>
      let front ← expand (pieces head)
      if front.length = 16 then return front else none
    | head :: tail :: _ =>
      let front ← expand (pieces head)
      let back ← expand (pieces tail)
      if front.length + back.length ≤ 16 then
        return front ++ List.replicate (16 - (front.length + back.length)) 0 ++ back
      else none
  else none

/-- The address is in a refused range. -/
def isInternalIPv4 (octets : List Nat) : Bool :=
  match octets with
  | a :: b :: _ =>
    a == 0 || a == 10 || a == 127 || a ≥ 224 || (a == 100 && b ≥ 64 && b ≤ 127) ||
      (a == 169 && b == 254) || (a == 172 && b ≥ 16 && b ≤ 31) || (a == 192 && b == 168)
  | _ => false

/-- The address is in a refused range, or maps one. -/
def isInternalIPv6 (bytes : List Nat) : Bool :=
  if (bytes.take 10).all (· == 0) && bytes.getD 10 0 == 0xff && bytes.getD 11 0 == 0xff then
    isInternalIPv4 (bytes.drop 12)
  else if bytes.all (· == 0) then true
  else if bytes.getD 15 0 == 1 && (bytes.take 15).all (· == 0) then true
  else if bytes.getD 0 0 &&& 0xfe == 0xfc then true
  else if bytes.getD 0 0 == 0xfe && bytes.getD 1 0 &&& 0xc0 == 0x80 then true
  else bytes.getD 0 0 == 0xff

/-- The address, in brackets or not, is in a refused range. -/
def isInternalDestAddress (address : Text) : Bool :=
  let trimmed := stripBrackets (trim address)
  match parseIPv6 trimmed with
  | some v6 => isInternalIPv6 v6
  | none =>
    match parseIPv4 trimmed with
    | some v4 => isInternalIPv4 v4
    | none => false

/-! ## The check -/

/-- The text is taken for an address. -/
def parses (address : Text) : Bool := (parseIPv4 address).isSome || (parseIPv6 address).isSome

/-- The host and the port of a target. -/
def splitDest (dest : Text) : Text × Text := (cutLast ':' dest).getD (dest.dropLast, dest)

/-- The answers that are not blank. -/
def answersOf (answers : List Text) : List Text := (answers.map trim).filter (· ≠ [])

/-- The first answer that is an IPv4 address, or the first one. -/
def choose (addresses : List Text) : Option Text :=
  addresses.find? (fun address => (parseIPv4 address).isSome) <|> addresses.head?

/-- An IPv6 host and a port. -/
def bracketed (host port : Text) : Text := '[' :: host ++ [']', ':'] ++ port

/-- Another host and a port. -/
def plain (host port : Text) : Text := host ++ ':' :: port

/-- The error for a name without a public address. -/
def unresolved (host : Text) : String :=
  "fallback 目标域名 " ++ String.ofList host ++ " 解析到回环/内网/保留地址（或无法解析），拒绝部署"

/-- The dest that is written. -/
def assertPublicDest (dest : Text) (resolveHost : Text → List Text) : Except String Text :=
  let (host, portPart) := splitDest dest
  if host.map Char.toLower = "localhost".toList then
    throw ("fallback 目标 " ++ String.ofList dest ++ " 指向本机回环地址，拒绝部署")
  else if parses host then
    if isInternalDestAddress host then
      throw ("fallback 目标 " ++ String.ofList dest ++ " 是回环/内网/保留地址，拒绝部署")
    else return if (parseIPv6 host).isSome then bracketed host portPart else dest
  else
    let addresses := answersOf (resolveHost host)
    let parsable := addresses.filter parses
    if parsable.length ≠ addresses.length ∨ parsable.any isInternalDestAddress then
      throw (unresolved host)
    else
      match choose parsable with
      | none => throw (unresolved host)
      | some pinned =>
        return if (parseIPv6 pinned).isSome && !(parseIPv4 pinned).isSome then
            bracketed pinned portPart
          else plain pinned portPart

/-! ## Pinned targets -/

/-- What a host text may be read as. -/
def readings (host : Text) : List Address :=
  ((quad host).map fun bytes => Address.v4 (value bytes)).toList ++
    ((aton host).map Address.v4).toList ++
    ((ipv6 host).map fun bytes => Address.v6 (value bytes)).toList

/-- The host and the port of a pinned target, without brackets. -/
def hostAndPort (pinned : Text) : Text × Text :=
  let (host, port) := splitDest pinned
  (if host.head? = some '[' ∧ host.getLast? = some ']' then host.tail.dropLast else host, port)

/-- The pinned target of a request for `dest`. -/
structure Pinned (dest : Text) (answers : List Text) (pinned : Text) : Prop where
  port : ∃ p, 1 ≤ p ∧ p ≤ 65535 ∧ (hostAndPort pinned).2 = Nat.toDigits 10 p
  given : (hostAndPort pinned).1 = (splitDest dest).1 ∨
    ∃ answer ∈ answers, (hostAndPort pinned).1 = trim answer
  literal : readings (hostAndPort pinned).1 ≠ []
  isPublic : ∀ address ∈ readings (hostAndPort pinned).1, address.special = false

/-- The text that is judged: the host, or one of the answers. -/
def judged (dest : Text) (answers : List Text) : Text :=
  if parses (splitDest dest).1 then (splitDest dest).1
  else (choose (answersOf answers)).getD []

/-- A decimal numeral without leading zeros. -/
def isPlainPort (port : Text) : Bool := isDigits port && port.head? != some '0'

/-- No part begins with a zero that the system would read as octal. -/
def noLeadingZero (s : Text) : Bool :=
  (s.splitOn '.').all fun part => part.length == 1 || part.head? != some '0'

/-- The text is an IPv6 literal, or strict dotted decimal, or its octal reading is not internal
either. -/
def readAlike (s : Text) : Bool :=
  (ipv6 s).isSome || ((parseIPv4 s).isSome && noLeadingZero s) ||
    (aton s).any fun v => !special4 v

/-! ## The parsers against the readings -/

theorem parseIPv4_eq_some {s : Text} {bytes : List Nat} :
    parseIPv4 s = some bytes ↔ ∃ p q r t, s.splitOn '.' = [p, q, r, t] ∧
      isOctet p = true ∧ isOctet q = true ∧ isOctet r = true ∧ isOctet t = true ∧
      bytes = [decimal p, decimal q, decimal r, decimal t] := by
  simp only [parseIPv4]
  constructor
  · intro h
    split at h
    next hif =>
      obtain ⟨hlen, hall⟩ := hif
      cases h
      obtain ⟨p, q, r, t, hsplit⟩ := List.length_eq_four.1 hlen
      rw [hsplit] at hall ⊢
      simp only [List.all_cons, List.all_nil, Bool.and_true, Bool.and_eq_true] at hall
      exact ⟨p, q, r, t, rfl, hall.1, hall.2.1, hall.2.2.1, hall.2.2.2, rfl⟩
    · cases h
  · rintro ⟨p, q, r, t, hsplit, hp, hq, hr, ht, rfl⟩
    rw [hsplit, if_pos]
    · rfl
    · exact ⟨rfl, by simp [hp, hq, hr, ht]⟩

theorem decimal_of_isOctet {s : Text} (h : isOctet s = true) :
    isDigits s = true ∧ decimal s < 256 := by
  simp only [isOctet, Bool.and_eq_true, decide_eq_true_eq] at h
  exact ⟨h.1.1, by omega⟩

theorem octet_of_isOctet {s : Text} (h : isOctet s = true)
    (hzero : (s.length == 1 || s.head? != some '0') = true) : octet s = some (decimal s) := by
  obtain ⟨hdigits, hlt⟩ := decimal_of_isOctet h
  refine if_pos ⟨hdigits, fun hhead => ?_, hlt⟩
  simpa [hhead] using hzero

/-- Without leading zeros the parser reads strict dotted decimal. -/
theorem quad_of_parseIPv4 {s : Text} {bytes : List Nat} (h : parseIPv4 s = some bytes)
    (hzero : noLeadingZero s = true) : quad s = some bytes := by
  obtain ⟨p, q, r, t, hsplit, hp, hq, hr, ht, rfl⟩ := parseIPv4_eq_some.1 h
  rw [noLeadingZero, hsplit] at hzero
  simp only [List.all_cons, List.all_nil, Bool.and_true, Bool.and_eq_true] at hzero
  obtain ⟨zp, zq, zr, zt⟩ := hzero
  exact fourParts_eq_some.2 ⟨p, q, r, t, _, _, _, _, hsplit, octet_of_isOctet hp zp,
    octet_of_isOctet hq zq, octet_of_isOctet hr zr, octet_of_isOctet ht zt, rfl⟩

theorem noLeadingZero_of_octet {s : Text} {n : Nat} (h : octet s = some n) :
    (s.length == 1 || s.head? != some '0') = true := by
  unfold octet at h
  split at h
  next hif =>
    by_cases hhead : s.head? = some '0'
    · simp [hif.2.1 hhead]
    · simp [hhead]
  · cases h

theorem noLeadingZero_of_quad {s : Text} {bytes : List Nat} (h : quad s = some bytes) :
    noLeadingZero s = true := by
  obtain ⟨p, q, r, t, a, b, c, d, hsplit, ha, hb, hc, hd, -⟩ := fourParts_eq_some.1 h
  rw [noLeadingZero, hsplit]
  simp [noLeadingZero_of_octet ha, noLeadingZero_of_octet hb, noLeadingZero_of_octet hc,
    noLeadingZero_of_octet hd]

/-! ### The rules for bytes -/

theorem isInternalIPv4_eq {a b c d : Nat} (ha : a < 256) (hb : b < 256) (hc : c < 256)
    (hd : d < 256) : isInternalIPv4 [a, b, c, d] = special4 (value [a, b, c, d]) := by
  rw [Bool.eq_iff_iff, special4_value ha hb hc hd]
  simp only [isInternalIPv4, Bool.or_eq_true, Bool.and_eq_true, beq_iff_eq, decide_eq_true_eq,
    ge_iff_le, or_assoc, and_assoc]

theorem isInternalIPv6_eq {bytes : List Nat} (hlen : bytes.length = 16)
    (hbytes : ∀ b ∈ bytes, b < 256) : isInternalIPv6 bytes = special6 (value bytes) := by
  have hget : ∀ i < 16, bytes.getD i 0 < 256 := by
    intro i hi
    rw [List.getD_eq_getElem?_getD, List.getElem?_eq_getElem (by omega), Option.getD_some]
    exact hbytes _ (List.getElem_mem _)
  obtain ⟨a, b, c, d, hlast⟩ :=
    List.length_eq_four.1 (show (bytes.drop 12).length = 4 by simp [hlen])
  have hfour : isInternalIPv4 (bytes.drop 12) = special4 (value (bytes.drop 12)) := by
    have hlt : ∀ b' ∈ bytes.drop 12, b' < 256 := fun b' hb' => hbytes b' (List.mem_of_mem_drop hb')
    rw [hlast] at hlt ⊢
    exact isInternalIPv4_eq (hlt a (by simp)) (hlt b (by simp)) (hlt c (by simp)) (hlt d (by simp))
  rw [Bool.eq_iff_iff, special6_value hlen hbytes, isInternalIPv6, hfour,
    ← and_fe (hget 0 (by decide)), ← and_c0 (hget 1 (by decide))]
  simp only [List.all_eq_true, Bool.and_eq_true, beq_iff_eq, and_assoc]
  split
  · rfl
  · simp only [Bool.if_true_left, Bool.or_eq_true, decide_eq_true_eq, beq_iff_eq,
      and_comm (a := bytes.getD 15 0 = 1)]

/-! ### Texts that are literals -/

theorem isAddressChar_of_parseIPv4 {s : Text} {bytes : List Nat} (h : parseIPv4 s = some bytes) :
    ':' ∉ s ∧ ∀ c ∈ s, isAddressChar c = true := by
  obtain ⟨p, q, r, t, hsplit, hp, hq, hr, ht, -⟩ := parseIPv4_eq_some.1 h
  have hchars : ∀ c ∈ s, c.isDigit = true ∨ c = '.' := by
    refine digit_or_dot ?_
    rw [hsplit]
    simp [(decimal_of_isOctet hp).1, (decimal_of_isOctet hq).1, (decimal_of_isOctet hr).1,
      (decimal_of_isOctet ht).1]
  constructor
  · intro hmem
    obtain hdigit | hdot := hchars ':' hmem
    · exact absurd hdigit (by decide)
    · exact absurd hdot (by decide)
  · intro c hc
    obtain hdigit | rfl := hchars c hc
    · simp [isAddressChar, isSome_hexDigit_of_isDigit hdigit]
    · rfl

/-- Without a colon a text is no IPv6 address. -/
theorem parseIPv6_of_not_mem {s : Text} (h : ':' ∉ s) : parseIPv6 s = none := by
  have hcolon : ':' ∉ stripBrackets ((trim s).map Char.toLower) := by
    intro hmem
    obtain ⟨c, hc, heq⟩ := List.mem_map.1 (mem_of_mem_stripBrackets hmem)
    rw [(toLower_eq_iff rfl c).1 heq] at hc
    exact h (mem_of_mem_trim hc)
  simp only [parseIPv6, if_neg hcolon]

/-- The check of a text that the IPv4 parser reads. -/
theorem isInternalDestAddress_of_parseIPv4 {s : Text} {bytes : List Nat}
    (h : parseIPv4 s = some bytes) : isInternalDestAddress s = special4 (value bytes) := by
  obtain ⟨hcolon, hchars⟩ := isAddressChar_of_parseIPv4 h
  obtain ⟨htrim, hstrip⟩ := bare_of_isAddressChar hchars
  obtain ⟨p, q, r, t, -, hp, hq, hr, ht, rfl⟩ := parseIPv4_eq_some.1 h
  simp only [isInternalDestAddress, htrim, hstrip, parseIPv6_of_not_mem hcolon, h]
  exact isInternalIPv4_eq (decimal_of_isOctet hp).2 (decimal_of_isOctet hq).2
    (decimal_of_isOctet hr).2 (decimal_of_isOctet ht).2

theorem expand_of_groups {parts : List Text} {bytes : List Nat} (h : groups parts = some bytes) :
    expand parts = some bytes := by
  induction parts generalizing bytes with
  | nil => exact h
  | cons piece rest ih =>
    simp only [groups, Option.bind_eq_bind, Option.pure_def, Option.bind_eq_some_iff] at h
    obtain ⟨word, hword, bytes', hbytes', heq⟩ := h
    rw [expand, if_neg (dot_not_mem_of_group hword), hword, ih hbytes']
    exact heq

theorem isOctet_of_octet {s : Text} {n : Nat} (h : octet s = some n) :
    isOctet s = true ∧ decimal s = n := by
  unfold octet at h
  split at h
  next hif =>
    obtain ⟨hdigits, hzero, hlt⟩ := hif
    have hlen : s.length ≤ 3 := by
      by_cases hhead : s.head? = some '0'
      · rw [hzero hhead]
        decide
      · rw [← (toDigits_decimal hdigits hhead).2,
          Nat.length_toDigits_le_iff (by decide) (by decide)]
        exact hlt.trans (by decide)
    simp only [Option.some.injEq] at h
    simp only [isOctet, Bool.and_eq_true, decide_eq_true_eq]
    exact ⟨⟨⟨hdigits, hlen⟩, by omega⟩, h⟩
  · cases h

theorem parseIPv4_of_quad {s : Text} {bytes : List Nat} (h : quad s = some bytes) :
    parseIPv4 s = some bytes := by
  obtain ⟨p, q, r, t, a, b, c, d, hsplit, ha, hb, hc, hd, rfl⟩ := fourParts_eq_some.1 h
  obtain ⟨hp, rfl⟩ := isOctet_of_octet ha
  obtain ⟨hq, rfl⟩ := isOctet_of_octet hb
  obtain ⟨hr, rfl⟩ := isOctet_of_octet hc
  obtain ⟨ht, rfl⟩ := isOctet_of_octet hd
  exact parseIPv4_eq_some.2 ⟨p, q, r, t, hsplit, hp, hq, hr, ht, rfl⟩

theorem expand_of_groupsOrQuad {parts : List Text} {bytes : List Nat}
    (h : groupsOrQuad parts = some bytes) : expand parts = some bytes := by
  fun_induction groupsOrQuad parts generalizing bytes with
  | case1 => exact h
  | case2 piece hdot =>
    rw [expand, if_pos hdot, parseIPv4_of_quad h]
    simp [expand]
  | case3 piece hdot =>
    rw [expand, if_neg hdot, h]
    simp [expand]
  | case4 piece rest hrest ih =>
    simp only [Option.bind_eq_bind, Option.pure_def, Option.bind_eq_some_iff] at h
    obtain ⟨word, hword, bytes', hbytes', heq⟩ := h
    rw [expand, if_neg (dot_not_mem_of_group hword), hword, ih hbytes']
    exact heq

/-- The parser reads every literal as it is. -/
theorem parseIPv6_of_ipv6 {s : Text} {bytes : List Nat} (h : ipv6 s = some bytes) :
    parseIPv6 s = some bytes := by
  have hlower := ipv6_map_toLower h
  have hstrip := (bare_of_isAddressChar (isAddressChar_of_ipv6 hlower)).2
  have htrim := (bare_of_isAddressChar (isAddressChar_of_ipv6 h)).1
  have hcolon := colon_mem_of_ipv6 hlower
  simp only [parseIPv6, htrim, hstrip, if_pos hcolon]
  generalize s.map Char.toLower = host at hlower
  obtain ⟨hsplit, hread, hlen⟩ | ⟨head, tail, front, back, hsplit, hfront, hback, hlen, rfl⟩ :=
    ipv6_cases hlower
  · simp [hsplit, expand_of_groupsOrQuad hread, hlen]
  · have hle : front.length + back.length ≤ 16 := by omega
    simp [hsplit, expand_of_groups hfront, expand_of_groupsOrQuad hback, hle]

/-- The check of an IPv6 literal. -/
theorem isInternalDestAddress_of_ipv6 {s : Text} {bytes : List Nat} (h : ipv6 s = some bytes) :
    isInternalDestAddress s = special6 (value bytes) := by
  obtain ⟨htrim, hstrip⟩ := bare_of_isAddressChar (isAddressChar_of_ipv6 h)
  obtain ⟨hlen, hbytes⟩ := bytes_of_ipv6 h
  simp only [isInternalDestAddress, htrim, hstrip, parseIPv6_of_ipv6 h]
  exact isInternalIPv6_eq hlen hbytes

/-! ## Targets -/

theorem cutLast_append {host port : Text} (h : ':' ∉ port) :
    cutLast ':' (host ++ ':' :: port) = some (host, port) := by
  have hreverse : (host ++ ':' :: port).reverse = port.reverse ++ ':' :: host.reverse := by simp
  have hport : ∀ c ∈ port.reverse, (c == ':') = false := by
    intro c hc
    rw [beq_eq_false_iff_ne]
    rintro rfl
    exact h (List.mem_reverse.1 hc)
  rw [cutLast, hreverse, cut_append (p := (· == ':')) (beq_self_eq_true ':') host.reverse hport]
  simp

theorem eq_of_cutLast {s host port : Text} (h : cutLast ':' s = some (host, port)) :
    s = host ++ ':' :: port ∧ ':' ∉ port := by
  unfold cutLast at h
  split at h
  · cases h
  next after before hcut =>
    cases h
    obtain ⟨sep, hsep, hs, hafter⟩ := cut_eq_some hcut
    rw [beq_iff_eq] at hsep
    subst hsep
    constructor
    · rw [← List.reverse_reverse s, hs]
      simp
    · intro hmem
      simpa using hafter ':' (List.mem_reverse.1 hmem)

theorem hostAndPort_plain {host port : Text} (hport : ':' ∉ port) (hhost : host.head? ≠ some '[') :
    hostAndPort (plain host port) = (host, port) := by
  simp [hostAndPort, splitDest, plain, cutLast_append hport, hhost]

theorem hostAndPort_bracketed {host port : Text} (hport : ':' ∉ port) :
    hostAndPort (bracketed host port) = (host, port) := by
  have htext : bracketed host port = ('[' :: host ++ [']']) ++ ':' :: port := by simp [bracketed]
  have hlast : ('[' :: (host ++ [']'])).getLast? = some ']' :=
    List.getLast?_concat (l := '[' :: host)
  rw [hostAndPort, splitDest, htext, cutLast_append hport]
  simp only [Option.getD_some, hlast, List.cons_append, List.head?_cons, List.tail_cons,
    List.dropLast_concat, and_self, if_true]

/-- The port of an accepted request is plain, or it is no numeral that anyone would write. -/
theorem isPlainPort_iff {port : Text} {p' : Nat}
    (h : requirePort (some (number port)) "dest 端口" = .ok p') :
    (∃ p, 1 ≤ p ∧ p ≤ 65535 ∧ port = Nat.toDigits 10 p) ↔ isPlainPort port = true := by
  constructor
  · rintro ⟨p, hp, -, rfl⟩
    simp [isPlainPort, isDigits_toDigits, head_toDigits hp]
  · intro hplain
    simp only [isPlainPort, Bool.and_eq_true, bne_iff_ne, ne_eq] at hplain
    obtain ⟨hpos, htext⟩ := toDigits_decimal hplain.1 hplain.2
    refine ⟨decimal port, hpos, ?_, htext.symm⟩
    rw [number_of_isDigits hplain.1] at h
    -- The number stays a variable, so that nothing evaluates it.
    generalize hn : ofNat (decimal port) = n at h
    cases n with
    | finite units =>
      obtain ⟨_, hreq, -⟩ := bind_eq_ok.1 h
      have hle : units ≤ ((65535 : Nat) : Int) * perOne := by
        exact_mod_cast (require_eq_ok.1 hreq).2.2
      exact le_of_ofNat (by norm_num) hn hle
    | nan => cases h
    | negInfinity => cases h
    | infinity => cases h

/-! ## What is pinned -/

/-- A text is a literal that is public for every reader. -/
def PublicLiteral (s : Text) : Prop :=
  readings s ≠ [] ∧ ∀ address ∈ readings s, address.special = false

theorem publicLiteral_of_parseIPv4 {s : Text} {bytes : List Nat} (h : parseIPv4 s = some bytes)
    (hinternal : isInternalDestAddress s = false) : PublicLiteral s ↔ readAlike s = true := by
  rw [isInternalDestAddress_of_parseIPv4 h] at hinternal
  have hipv6 : ipv6 s = none := by
    cases hs : ipv6 s with
    | none => rfl
    | some bytes => exact absurd (colon_mem_of_ipv6 hs) (isAddressChar_of_parseIPv4 h).1
  by_cases hzero : noLeadingZero s = true
  · have hquad := quad_of_parseIPv4 h hzero
    simp [PublicLiteral, readings, readAlike, hipv6, h, hzero, hquad, aton_of_quad hquad,
      Address.special, hinternal]
  · have hquad : quad s = none := by
      cases hs : quad s with
      | none => rfl
      | some bytes => exact absurd (noLeadingZero_of_quad hs) hzero
    cases haton : aton s with
    | none => simp [PublicLiteral, readings, readAlike, hipv6, hzero, hquad, haton]
    | some v =>
      simp [PublicLiteral, readings, readAlike, hipv6, hzero, hquad, haton, Address.special]

theorem publicLiteral_of_parseIPv6 {s : Text} {bytes : List Nat} (hnone : parseIPv4 s = none)
    (h : parseIPv6 s = some bytes) (hinternal : isInternalDestAddress s = false) :
    PublicLiteral s ↔ readAlike s = true := by
  have hcolon : ':' ∈ s := by
    by_contra hcolon
    rw [parseIPv6_of_not_mem hcolon] at h
    cases h
  have hquad : quad s = none := by
    cases hs : quad s with
    | none => rfl
    | some bytes =>
      rw [parseIPv4_of_quad hs] at hnone
      cases hnone
  cases hs : ipv6 s with
  | none => simp [PublicLiteral, readings, readAlike, hs, hquad, aton_of_colon hcolon, hnone]
  | some bytes =>
    rw [isInternalDestAddress_of_ipv6 hs] at hinternal
    simp [PublicLiteral, readings, readAlike, hs, hquad, aton_of_colon hcolon, Address.special,
      hinternal]

/-- A text that the parsers read and that is not internal to them. -/
theorem publicLiteral_iff {s : Text} (h : parses s = true)
    (hinternal : isInternalDestAddress s = false) : PublicLiteral s ↔ readAlike s = true := by
  cases hs : parseIPv4 s with
  | some bytes => exact publicLiteral_of_parseIPv4 hs hinternal
  | none =>
    simp only [parses, hs, Option.isSome_none, Bool.false_or] at h
    obtain ⟨bytes, hbytes⟩ := Option.isSome_iff_exists.1 h
    exact publicLiteral_of_parseIPv6 hs hbytes hinternal

theorem choose_mem {addresses : List Text} {pinned : Text} (h : choose addresses = some pinned) :
    pinned ∈ addresses := by
  unfold choose at h
  cases hfind : addresses.find? (fun address => (parseIPv4 address).isSome) with
  | some address =>
    rw [hfind] at h
    cases h
    exact List.mem_of_find?_eq_some hfind
  | none =>
    rw [hfind] at h
    exact List.mem_of_mem_head? h

theorem not_mem_of_isHostname {host : Text} (h : isHostname host = true) :
    ':' ∉ host ∧ '[' ∉ host := by
  have hchars : ∀ c ∈ host, c.isAlphanum = true ∨ c = '-' ∨ c = '.' := by
    intro c hc
    by_cases hdot : c = '.'
    · exact .inr (.inr hdot)
    · obtain ⟨part, hpart, hmem⟩ := exists_mem_splitOn hc hdot
      have hlabel := List.all_eq_true.1 h part hpart
      simp only [isLabel, isWord, Bool.and_eq_true, List.all_eq_true, Bool.or_eq_true,
        beq_iff_eq] at hlabel
      exact (hlabel.1.1.2 c hmem).imp id .inl
  constructor
  · intro hmem
    exact absurd (hchars ':' hmem) (by decide)
  · intro hmem
    exact absurd (hchars '[' hmem) (by decide)

/-- What a successful check returns: the judged text in a target with the port of the request. -/
structure Judged (dest : Text) (answers : List Text) (pinned : Text) : Prop where
  parsed : parses (judged dest answers) = true
  external : isInternalDestAddress (judged dest answers) = false
  given : judged dest answers = (splitDest dest).1 ∨
    ∃ answer ∈ answers, judged dest answers = trim answer
  parts : hostAndPort pinned = (judged dest answers, (splitDest dest).2)

theorem judged_of_assertPublicDest {dest host port : Text} (hdest : IsDest dest host port)
    {resolveHost : Text → List Text} {pinned : Text}
    (h : assertPublicDest dest resolveHost = .ok pinned) :
    Judged dest (resolveHost host) pinned := by
  have hsplit : splitDest dest = (host, port) := by simp [splitDest, hdest.cut]
  obtain ⟨htext, hport⟩ := eq_of_cutLast hdest.cut
  obtain ⟨hcolon, hbracket⟩ := not_mem_of_isHostname hdest.hostname
  simp only [assertPublicDest, hsplit] at h
  split at h
  · cases h
  · split at h
    next hparses =>
      -- The host is an address.
      have hjudged : judged dest (resolveHost host) = host := by
        simp only [judged, hsplit, if_pos hparses]
      split at h
      · cases h
      next hinternal =>
        simp only [parseIPv6_of_not_mem hcolon, Option.isSome_none, Bool.false_eq_true, if_false,
          pure_eq_ok, Except.ok.injEq] at h
        refine ⟨by rw [hjudged, hparses], by simpa [hjudged] using hinternal,
          .inl (by rw [hjudged, hsplit]), ?_⟩
        rw [hjudged, hsplit, ← h, htext]
        exact hostAndPort_plain hport fun hhead => hbracket (List.mem_of_mem_head? hhead)
    next hname =>
      -- The host is a name, and the target is one of the answers.
      split at h
      · cases h
      next hcheck =>
        simp only [not_or, ne_eq, not_not, Bool.not_eq_true] at hcheck
        obtain ⟨hall, hexternal⟩ := hcheck
        have hparsable : (answersOf (resolveHost host)).filter parses =
            answersOf (resolveHost host) :=
          List.filter_eq_self.2 (List.length_filter_eq_length_iff.1 hall)
        rw [hparsable] at h hexternal
        split at h
        · cases h
        next chosen hchosen =>
          have hmem := choose_mem hchosen
          have hjudged : judged dest (resolveHost host) = chosen := by
            simp only [judged, hsplit, if_neg hname, hchosen, Option.getD_some]
          have hparses : parses chosen = true := List.length_filter_eq_length_iff.1 hall chosen hmem
          have hgiven : ∃ answer ∈ resolveHost host, chosen = trim answer := by
            obtain ⟨answer, hanswer, heq⟩ := List.mem_map.1 (List.mem_filter.1 hmem).1
            exact ⟨answer, hanswer, heq.symm⟩
          refine ⟨by rw [hjudged, hparses], ?_, .inr (by simpa [hjudged] using hgiven), ?_⟩
          · rw [hjudged]
            exact List.any_eq_false.1 hexternal chosen hmem |> Bool.eq_false_of_not_eq_true
          · rw [hjudged, hsplit]
            simp only [pure_eq_ok, Except.ok.injEq] at h
            rw [← h]
            split
            · exact hostAndPort_bracketed hport
            next hplain =>
              refine hostAndPort_plain hport fun hhead => ?_
              simp only [parses, Bool.or_eq_true] at hparses
              obtain ⟨bytes, hbytes⟩ : ∃ bytes, parseIPv4 chosen = some bytes := by
                cases hv4 : parseIPv4 chosen with
                | some bytes => exact ⟨bytes, rfl⟩
                | none => simp_all
              have hchars := (isAddressChar_of_parseIPv4 hbytes).2 '[' (List.mem_of_mem_head? hhead)
              exact absurd hchars (by decide)

/-- **The pinned target is the one that was judged, and public for every reader,** exactly if the
port is written plainly and the judged text is read alike. -/
theorem pinned_iff {raw : Text} {requestId : String} {request : InboundRequest}
    (hparse : parseRequest raw = .ok (requestId, request)) (hmode : request.mode = .ensure)
    {resolveHost : Text → List Text} {pinned : Text}
    (h : assertPublicDest request.dest.toList resolveHost = .ok pinned) :
    Pinned request.dest.toList (resolveHost (splitDest request.dest.toList).1) pinned ↔
      isPlainPort (splitDest request.dest.toList).2 = true ∧
        readAlike (judged request.dest.toList
          (resolveHost (splitDest request.dest.toList).1)) = true := by
  obtain ⟨host, port, hdest⟩ := dest_of_parseRequest hparse hmode
  have hsplit : splitDest request.dest.toList = (host, port) := by simp [splitDest, hdest.cut]
  obtain ⟨p, hp⟩ := hdest.port
  obtain ⟨hparsed, hexternal, hgiven, hparts⟩ := judged_of_assertPublicDest hdest h
  simp only [hsplit] at hgiven hparts ⊢
  rw [← isPlainPort_iff hp, ← publicLiteral_iff hparsed hexternal]
  constructor
  · intro hpinned
    have hpublic := hpinned.isPublic
    have hliteral := hpinned.literal
    have hportText := hpinned.port
    rw [hparts] at hpublic hliteral hportText
    exact ⟨hportText, hliteral, hpublic⟩
  · rintro ⟨hportText, hliteral, hpublic⟩
    exact
      { port := by rwa [hparts]
        given := by rwa [hparts, hsplit]
        literal := by rwa [hparts]
        isPublic := by rwa [hparts] }

/-- A request file with a fallback target. -/
def rawRequest (dest : String) : Text :=
  ("\x7b\"requestId\":\"req-00000001\",\"inboundTag\":\"vless-reality\"," ++
    "\"listenPort\":443,\"dest\":\"" ++ dest ++
    "\",\"serverNames\":[\"example.com\"],\"fingerprint\":\"chrome\",\"spiderX\":\"/\"\x7d").toList

/-- A request for this dest. -/
def requestFor (dest : String) : InboundRequest :=
  { inboundTag := "vless-reality", listenPort := 443, dest, serverNames := ["example.com"]
    fingerprint := "chrome", spiderX := "/" }

theorem pinned_iff_resolved :
    Pinned "example.com:443".toList ["1.1.1.1".toList] "1.1.1.1:443".toList :=
  (@pinned_iff (rawRequest "example.com:443") "req-00000001" (requestFor "example.com:443")
    (by decide +kernel) rfl (fun _ => ["1.1.1.1".toList]) "1.1.1.1:443".toList
    (by decide +kernel)).2 ⟨by decide +kernel, by decide +kernel⟩

/-- `012.1.1.1` is 12.1.1.1 to the check, and 10.1.1.1 to the system resolver. -/
theorem octal_dest_is_pinned :
    ¬ ∀ (raw : Text) (requestId : String) (request : InboundRequest)
      (resolveHost : Text → List Text) (pinned : Text),
      parseRequest raw = .ok (requestId, request) → request.mode = .ensure →
      assertPublicDest request.dest.toList resolveHost = .ok pinned →
      Pinned request.dest.toList (resolveHost (splitDest request.dest.toList).1) pinned := by
  intro h
  have hpinned := h (rawRequest "012.1.1.1:443") "req-00000001" (requestFor "012.1.1.1:443")
    (fun _ => []) "012.1.1.1:443".toList (by decide +kernel) rfl (by decide +kernel)
  have hpublic := hpinned.isPublic (.v4 (value [10, 1, 1, 1])) (by decide +kernel)
  exact absurd hpublic (by decide +kernel)

end ChordV.Helper.PublicDest
