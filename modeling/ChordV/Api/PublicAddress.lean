import ChordV.Lib.Double
import ChordV.Lib.IpAddress

/-!
# The address guard of inbound endpoints

`isPublicUnicastAddress` of `agent-inbound.ts` with `parseIPv6Bytes` and `isPublicIPv4`.

* The bytes are numbers of the source.  A piece that is no number gives `NaN`, and `NaN` passes
  every comparison that would refuse an address.
* `JudgedByValue` says that the answer depends on the value of the address only.
* `judged_iff` says when it holds, for a zone that has no dot and no colon.  The dots and colons of
  a zone are split with the rest, so that its parts are read as further bytes.
-/

namespace ChordV.Api.PublicAddress

open Lib Lib.Js Lib.Ip

/-! ## The guard -/

/-- The bytes of one piece. -/
def expandPiece (piece : Text) : List Number :=
  if '.' ∈ piece then (piece.splitOn '.').map number
  else [(parseHex piece).shiftRight 8, (parseHex piece).bitAnd 0xff]

/-- The groups of a part. -/
def expand (part : Text) : List Number := (pieces part).flatMap expandPiece

/-- Of the parts between two colons only the first two are read. -/
def parseIPv6Bytes (value : Text) : Option (List Number) :=
  let host := stripBrackets (trim value)
  if isIP host ≠ 6 then none
  else
    match splitPair host with
    | [] => none
    | [head] =>
      let front := expand head
      if front.length = 16 then some front else none
    | head :: tail :: _ =>
      let front := expand head
      let back := expand tail
      if front.length + back.length ≤ 16 then
        some (front ++ List.replicate (16 - (front.length + back.length)) (ofNat 0) ++ back)
      else none

/-- An octet that is missing compares like `NaN`. -/
def isPublicIPv4 (octets : List Number) : Bool :=
  let a := octets.getD 0 .nan
  let b := octets.getD 1 .nan
  if a == ofNat 0 || a == ofNat 10 || a == ofNat 127 || (ofNat 224).le a then false
  else if a == ofNat 172 && (ofNat 16).le b && b.le (ofNat 31) then false
  else if a == ofNat 192 && b == ofNat 168 then false
  else if a == ofNat 169 && b == ofNat 254 then false
  else if a == ofNat 100 && (ofNat 64).le b && b.le (ofNat 127) then false
  else true

/-- The rest of `isPublicUnicastAddress`, for the bytes of an IPv6 address. -/
def isPublicIPv6 (bytes : List Number) : Bool :=
  let byte := fun i => bytes.getD i .nan
  if (bytes.take 10).all (· == ofNat 0) && byte 10 == ofNat 0xff && byte 11 == ofNat 0xff then
    isPublicIPv4 (bytes.drop 12)
  else if bytes.all (· == ofNat 0) then false
  else if (bytes.take 15).all (· == ofNat 0) && byte 15 == ofNat 1 then false
  else if (byte 0).bitAnd 0xfe == ofNat 0xfc then false
  else if byte 0 == ofNat 0xfe && (byte 1).bitAnd 0xc0 == ofNat 0x80 then false
  else if byte 0 == ofNat 0xff then false
  else true

/-- The address is one of the public ranges. -/
def isPublicUnicastAddress (host : Text) : Bool :=
  let family := isIP (stripBrackets (trim host))
  if family = 4 then isPublicIPv4 (((trim host).splitOn '.').map number)
  else if family ≠ 6 then false
  else
    match parseIPv6Bytes host with
    | some bytes => isPublicIPv6 bytes
    | none => false

/-! ## What the answer depends on -/

/-- The answer is right for the value of the address. -/
def JudgedByValue (host : Text) : Prop :=
  ∀ a ∈ address (stripBrackets (trim host)), isPublicUnicastAddress host = !a.special

/-- The zone, if there is one, is of letters, digits and hyphens. -/
def PlainZone (host : Text) : Prop :=
  ∀ zone ∈ (cut (· == '%') (stripBrackets (trim host))).2, '.' ∉ zone ∧ ':' ∉ zone

/-- An IPv4 address has no bracket in front unless it is public, and an IPv6 address has no zone
behind a dotted tail unless it is neither `::` nor `::1`. -/
def PlainAddress (host : Text) : Prop :=
  ∀ a ∈ address (stripBrackets (trim host)),
    match a with
    | .v4 v => (trim host).head? = some '[' → special4 v = false
    | .v6 v => (cut (· == '%') (stripBrackets (trim host))).2.isSome →
      '.' ∈ (cut (· == '%') (stripBrackets (trim host))).1 → 1 < v

/-! ## Numbers that are bytes -/

theorem ofNat_byte_eq {a b : Nat} (ha : a < 256) (hb : b < 256) :
    (ofNat a == ofNat b) = (a == b) := by
  rw [Bool.eq_iff_iff, beq_iff_eq, beq_iff_eq]
  exact ofNat_inj (ha.trans (by norm_num)) (hb.trans (by norm_num))

theorem ofNat_byte_le {a b : Nat} (ha : a < 256) (hb : b < 256) :
    (ofNat a).le (ofNat b) = decide (a ≤ b) := by
  rw [Bool.eq_iff_iff, decide_eq_true_eq]
  exact ofNat_le (ha.trans (by norm_num)) (hb.trans (by norm_num))

/-- The rules for the first two bytes of an IPv4 address, whatever follows. -/
theorem isPublicIPv4_eq {a b c d : Nat} (ha : a < 256) (hb : b < 256) (hc : c < 256) (hd : d < 256)
    (rest : List Number) :
    isPublicIPv4 (ofNat a :: ofNat b :: rest) = !special4 (value [a, b, c, d]) := by
  rw [Bool.eq_iff_iff, Bool.not_eq_true', ← Bool.not_eq_true, special4_value ha hb hc hd]
  simp (disch := omega) only [isPublicIPv4, List.getD_cons_zero, List.getD_cons_succ,
    ofNat_byte_eq, ofNat_byte_le, Bool.if_false_left, Bool.and_true, Bool.or_eq_true,
    Bool.and_eq_true, Bool.not_eq_true', decide_eq_false_iff_not, decide_eq_true_eq, beq_iff_eq]
  omega

theorem nan_ne_ofNat (n : Nat) : (Number.nan == ofNat n) = false := by
  rw [beq_eq_false_iff_ne]
  intro heq
  obtain ⟨units, hunits⟩ | hinfinity := ofNat_cases n
  · cases heq.trans hunits
  · cases heq.trans hinfinity

/-- No rule refuses a first octet that is not a number. -/
theorem isPublicIPv4_nan (rest : List Number) : isPublicIPv4 (.nan :: rest) = true := by
  have hle : (ofNat 224).le .nan = false := by
    rw [ofNat_of_lt (by norm_num)]
    rfl
  simp only [isPublicIPv4, List.getD_cons_zero, nan_ne_ofNat, hle, Bool.or_self, Bool.false_and,
    Bool.false_eq_true, if_false]

/-! ## Sixteen bytes -/

theorem all_zero_map {bytes : List Nat} (h : ∀ b ∈ bytes, b < 256) :
    (bytes.map ofNat).all (· == ofNat 0) = bytes.all (· == 0) := by
  induction bytes with
  | nil => rfl
  | cons b bytes ih =>
    rw [List.map_cons, List.all_cons, List.all_cons,
      ih fun b' hb' => h b' (List.mem_cons_of_mem _ hb'),
      ofNat_byte_eq (h b List.mem_cons_self) (by decide)]

theorem getD_lt {bytes : List Nat} (h : ∀ b ∈ bytes, b < 256) (i : Nat) : bytes.getD i 0 < 256 := by
  rw [List.getD_eq_getElem?_getD]
  cases hi : bytes[i]? with
  | none => decide
  | some b => exact h b (List.mem_of_getElem? hi)

/-- The first fifteen bytes are right, and the last one is any number. -/
theorem isPublicIPv6_eq {front : List Nat} (hlen : front.length = 15)
    (hfront : ∀ b ∈ front, b < 256) (last : Number) :
    isPublicIPv6 (front.map ofNat ++ [last]) =
      if (front.take 10).all (· == 0) && front.getD 10 0 == 255 && front.getD 11 0 == 255 then
        !special4 (value (front.drop 12 ++ [0]))
      else !(front.all (· == 0) && (last == ofNat 0 || last == ofNat 1) ||
        front.getD 0 0 / 2 == 126 || (front.getD 0 0 == 254 && front.getD 1 0 / 64 == 2) ||
        front.getD 0 0 == 255) := by
  have hget : ∀ i < 15, (front.map ofNat ++ [last]).getD i .nan = ofNat (front.getD i 0) := by
    intro i hi
    have hi' : i < front.length := by omega
    rw [List.getD_eq_getElem?_getD, List.getElem?_append_left (by rwa [List.length_map]),
      List.getElem?_map, List.getD_eq_getElem?_getD, List.getElem?_eq_getElem hi', Option.map_some,
      Option.getD_some, Option.getD_some]
  have hlast : (front.map ofNat ++ [last]).getD 15 .nan = last := by
    rw [List.getD_eq_getElem?_getD, List.getElem?_append_right (by rw [List.length_map, hlen]),
      List.length_map, hlen]
    rfl
  have hten : ((front.map ofNat ++ [last]).take 10).all (· == ofNat 0) =
      (front.take 10).all (· == 0) := by
    rw [List.take_append_of_le_length (by simp [hlen]), ← List.map_take]
    exact all_zero_map fun b hb => hfront b (List.mem_of_mem_take hb)
  have hfifteen : (front.map ofNat ++ [last]).take 15 = front.map ofNat := by
    rw [List.take_append_of_le_length (by simp [hlen]), ← List.map_take,
      List.take_of_length_le (by omega)]
  have hfour : isPublicIPv4 ((front.map ofNat ++ [last]).drop 12) =
      !special4 (value (front.drop 12 ++ [0])) := by
    obtain ⟨a, b, c, hdrop⟩ :=
      List.length_eq_three.1 (show (front.drop 12).length = 3 by simp [hlen])
    have hlt : ∀ b' ∈ [a, b, c], b' < 256 := fun b' hb' =>
      hfront b' (List.mem_of_mem_drop (by rwa [hdrop]))
    rw [List.drop_append_of_le_length (by simp [hlen]), ← List.map_drop, hdrop]
    simp only [List.map_cons, List.map_nil, List.cons_append, List.nil_append]
    exact isPublicIPv4_eq (hlt a (by simp)) (hlt b (by simp)) (hlt c (by simp)) (by decide) _
  have hfe : ((ofNat (front.getD 0 0)).bitAnd 0xfe == ofNat 0xfc) =
    (front.getD 0 0 / 2 == 126) := by
    have hb := getD_lt hfront 0
    rw [bitAnd_ofNat (hb.trans (by norm_num)) (by norm_num),
      ofNat_byte_eq (Nat.and_le_left.trans_lt hb) (by decide),
      Bool.eq_iff_iff, beq_iff_eq, beq_iff_eq]
    exact and_fe hb
  have hc0 : ((ofNat (front.getD 1 0)).bitAnd 0xc0 == ofNat 0x80) = (front.getD 1 0 / 64 == 2) := by
    have hb := getD_lt hfront 1
    rw [bitAnd_ofNat (hb.trans (by norm_num)) (by norm_num),
      ofNat_byte_eq (Nat.and_le_left.trans_lt hb) (by decide),
      Bool.eq_iff_iff, beq_iff_eq, beq_iff_eq]
    exact and_c0 hb
  have hbyte : ∀ i n, n < 256 → (ofNat (front.getD i 0) == ofNat n) = (front.getD i 0 == n) :=
    fun i _ hn => ofNat_byte_eq (getD_lt hfront i) hn
  have h10 := hbyte 10 255 (by decide)
  have h11 := hbyte 11 255 (by decide)
  have h0 := hbyte 0 254 (by decide)
  have h0' := hbyte 0 255 (by decide)
  simp only [isPublicIPv6, hget 10 (by decide), hget 11 (by decide), hget 0 (by decide),
    hget 1 (by decide), hlast, hten, hfifteen, hfour, hfe, hc0, List.all_append,
    all_zero_map hfront, h10, h11, h0, h0', List.all_cons, List.all_nil, Bool.and_true]
  split
  · rfl
  · -- The rules are checked one after the other.
    generalize (last == ofNat 0) = zero
    generalize (last == ofNat 1) = one
    generalize front.all (· == 0) = zeros
    generalize (front.getD 0 0 / 2 == 126) = local'
    generalize (front.getD 0 0 == 254 && front.getD 1 0 / 64 == 2) = link
    generalize (front.getD 0 0 == 255) = multicast
    revert zero one zeros local' link multicast
    decide

/-- The special addresses by their first fifteen bytes and the last one. -/
theorem special6_concat {front : List Nat} {last : Nat} (hlen : front.length = 15)
    (hfront : ∀ b ∈ front, b < 256) (hlast : last < 256) :
    special6 (value (front ++ [last])) =
      if (front.take 10).all (· == 0) && front.getD 10 0 == 255 && front.getD 11 0 == 255 then
        special4 (value (front.drop 12 ++ [0]))
      else front.all (· == 0) && (last == 0 || last == 1) ||
        front.getD 0 0 / 2 == 126 || (front.getD 0 0 == 254 && front.getD 1 0 / 64 == 2) ||
        front.getD 0 0 == 255 := by
  have hbytes : ∀ b ∈ front ++ [last], b < 256 := by
    intro b hb
    obtain hb | hb := List.mem_append.1 hb
    · exact hfront b hb
    · rwa [List.mem_singleton.1 hb]
  have hget : ∀ i < 15, (front ++ [last]).getD i 0 = front.getD i 0 := by
    intro i hi
    rw [List.getD_eq_getElem?_getD, List.getElem?_append_left (by omega),
      List.getD_eq_getElem?_getD]
  have hend : (front ++ [last]).getD 15 0 = last := by
    rw [List.getD_eq_getElem?_getD, List.getElem?_append_right (by omega), hlen]
    rfl
  have hfour : special4 (value ((front ++ [last]).drop 12)) =
      special4 (value (front.drop 12 ++ [0])) := by
    obtain ⟨a, b, c, hdrop⟩ :=
      List.length_eq_three.1 (show (front.drop 12).length = 3 by simp [hlen])
    have hlt : ∀ b' ∈ [a, b, c], b' < 256 := fun b' hb' =>
      hfront b' (List.mem_of_mem_drop (by rwa [hdrop]))
    have hrule := isPublicIPv4_eq (hlt a (by simp)) (hlt b (by simp)) (hlt c (by simp)) hlast []
    rw [isPublicIPv4_eq (hlt a (by simp)) (hlt b (by simp)) (hlt c (by simp))
      (show 0 < 256 by decide)] at hrule
    rw [List.drop_append_of_le_length (by omega), hdrop]
    exact (Bool.not_inj hrule).symm
  rw [Bool.eq_iff_iff, special6_value (by simp [hlen]) hbytes, hfour,
    List.take_append_of_le_length (by omega), List.take_append_of_le_length (by omega),
    List.take_of_length_le (show front.length ≤ 15 by omega), hend, hget 0 (by decide),
    hget 1 (by decide), hget 10 (by decide), hget 11 (by decide)]
  simp only [Bool.and_eq_true, List.all_eq_true, beq_iff_eq, and_assoc]
  split
  · rfl
  · simp only [List.mem_append, List.mem_singleton, or_imp, forall_and, forall_eq, Bool.or_eq_true,
      Bool.and_eq_true, List.all_eq_true, beq_iff_eq]
    tauto

theorem isPublicIPv6_map {bytes : List Nat} (hlen : bytes.length = 16)
    (hbytes : ∀ b ∈ bytes, b < 256) : isPublicIPv6 (bytes.map ofNat) = !special6 (value bytes) := by
  obtain rfl | ⟨front, last, rfl⟩ := List.eq_nil_or_concat' bytes
  · cases hlen
  · rw [List.length_append, List.length_singleton] at hlen
    have hfront : ∀ b ∈ front, b < 256 := fun b hb => hbytes b (List.mem_append_left _ hb)
    have hlast : last < 256 := hbytes last (by simp)
    rw [List.map_append, List.map_singleton, isPublicIPv6_eq (by omega) hfront,
      special6_concat (by omega) hfront hlast, ofNat_byte_eq hlast (by decide),
      ofNat_byte_eq hlast (by decide)]
    split <;> rfl

/-- Without its last byte an address is judged by its value, unless it is one of the first two. -/
theorem isPublicIPv6_nan {front : List Nat} {last : Nat} (hlen : front.length = 15)
    (hfront : ∀ b ∈ front, b < 256) (hlast : last < 256) :
    isPublicIPv6 (front.map ofNat ++ [.nan]) = !special6 (value (front ++ [last])) ↔
      1 < value (front ++ [last]) := by
  have hvalue : 1 < value (front ++ [last]) ↔ front.all (· == 0) = true → 1 < last := by
    have hsum : value (front ++ [last]) = value front * 256 + last := by
      rw [value_append]
      simp [value]
    have hzero : front.all (· == 0) = true ↔ value front = 0 := by
      rw [value_eq_zero, List.all_eq_true]
      simp only [beq_iff_eq]
    rw [hsum, hzero]
    omega
  have hgetD : front.all (· == 0) = true → ∀ i, front.getD i 0 = 0 := by
    intro hzero i
    rw [List.getD_eq_getElem?_getD]
    cases hi : front[i]? with
    | none => rfl
    | some b => simpa using List.all_eq_true.1 hzero b (List.mem_of_getElem? hi)
  rw [isPublicIPv6_eq hlen hfront, special6_concat hlen hfront hlast, nan_ne_ofNat, nan_ne_ofNat,
    hvalue]
  cases hzero : front.all (· == 0) with
  | false => split <;> simp
  | true =>
    have hbyte := hgetD hzero
    simp only [hbyte]
    simp
    omega

/-! ## Pieces before a zone -/

variable {zone : Text}

theorem number_of_octet {s : Text} {n : Nat} (h : octet s = some n) : number s = ofNat n := by
  unfold octet at h
  split at h
  next hif =>
    cases h
    exact number_of_isDigits hif.1
  · cases h

/-- A group is its two bytes, also before a zone. -/
theorem expandPiece_group {s : Text} {word : Nat} (h : group s = some word)
    (hzone : IsZoneText zone) (hdot : '.' ∉ zone) :
    expandPiece (s ++ zone) = (bytesOfWord word).map ofNat := by
  have hword := group_lt h
  have hmem : '.' ∉ s ++ zone := by
    rw [List.mem_append, not_or]
    exact ⟨dot_not_mem_of_group h, hdot⟩
  have hlow : word &&& 0xff = word % 256 := Nat.and_two_pow_sub_one_eq_mod word 8
  rw [expandPiece, if_neg hmem, parseHex_of_group h hzone,
    shiftRight_ofNat (hword.trans (by norm_num)), bitAnd_ofNat (hword.trans (by norm_num))
      (by norm_num), hlow]
  rfl

/-- The numbers of an address whose dotted tail is before a zone: the last one is lost. -/
def beforeZone (zone : Text) (bytes : List Nat) : List Number :=
  if zone = [] then bytes.map ofNat else bytes.dropLast.map ofNat ++ [.nan]

theorem length_beforeZone {bytes : List Nat} (h : bytes ≠ []) :
    (beforeZone zone bytes).length = bytes.length := by
  have hpos := List.length_pos_of_ne_nil h
  unfold beforeZone
  split
  · rw [List.length_map]
  · rw [List.length_append, List.length_map, List.length_dropLast, List.length_singleton]
    omega

theorem beforeZone_append {front back : List Nat} (h : back ≠ []) :
    beforeZone zone (front ++ back) = front.map ofNat ++ beforeZone zone back := by
  unfold beforeZone
  split
  · rw [List.map_append]
  · rw [List.dropLast_append_of_ne_nil h, List.map_append, List.append_assoc]

theorem dot_mem_of_quad {s : Text} {bytes : List Nat} (h : quad s = some bytes) : '.' ∈ s := by
  obtain ⟨p, q, r, t, a, b, c, d, hsplit, -⟩ := fourParts_eq_some.1 h
  by_contra hdot
  rw [List.splitOn_eq_singleton hdot] at hsplit
  cases hsplit

/-- A dotted tail loses its last byte to a zone. -/
theorem expandPiece_quad {s : Text} {bytes : List Nat} (h : quad s = some bytes)
    (hzone : IsZoneText zone) (hdot : '.' ∉ zone) :
    expandPiece (s ++ zone) = beforeZone zone bytes := by
  have hmem : '.' ∈ s ++ zone := List.mem_append_left _ (dot_mem_of_quad h)
  obtain ⟨p, q, r, t, a, b, c, d, hsplit, ha, hb, hc, hd, rfl⟩ := fourParts_eq_some.1 h
  rw [expandPiece, if_pos hmem, splitOn_append hdot, hsplit]
  simp only [attach, List.map_cons, List.map_nil, number_of_octet ha, number_of_octet hb,
    number_of_octet hc]
  obtain rfl | ⟨rest, rfl⟩ := hzone
  · rw [List.append_nil, number_of_octet hd]
    rfl
  · rw [number_of_foreign (c := '%') (by decide) (by simp)]
    rfl

/-- What follows `::` is two zero bytes if it is a zone. -/
theorem expandPiece_zone {rest : Text} (hdot : '.' ∉ '%' :: rest) :
    expandPiece ('%' :: rest) = [ofNat 0, ofNat 0] := by
  have hdrop : ('%' :: rest).dropWhile isBlank = '%' :: rest :=
    List.dropWhile_cons_of_neg (by decide)
  have hsign : takeSign ('%' :: rest) = (false, '%' :: rest) := rfl
  have hprefix : withoutHexPrefix ('%' :: rest) = '%' :: rest := rfl
  have hdigits : ('%' :: rest).takeWhile (fun c => (Json.hexDigit c).isSome) = [] :=
    List.takeWhile_cons_of_neg (by decide)
  have hread : parseHex ('%' :: rest) = .nan := by
    simp only [parseHex, hdrop, hsign, hprefix, hdigits]
    rfl
  have hzero : Number.ofInt 0 = ofNat 0 := ofInt_ofNat (n := 0) (by norm_num)
  rw [expandPiece, if_neg hdot, hread, ← hzero]
  simp [Number.shiftRight, Number.bitAnd, Number.toInt32]

theorem flatMap_groups {parts : List Text} {bytes : List Nat} (h : groups parts = some bytes) :
    parts.flatMap expandPiece = bytes.map ofNat := by
  induction parts generalizing bytes with
  | nil =>
    cases h
    rfl
  | cons piece rest ih =>
    simp only [groups, Option.bind_eq_bind, Option.pure_def, Option.bind_eq_some_iff,
      Option.some.injEq] at h
    obtain ⟨word, hword, bytes', hbytes', rfl⟩ := h
    have hpiece := expandPiece_group hword (.inl rfl) List.not_mem_nil
    rw [List.append_nil] at hpiece
    rw [List.flatMap_cons, ih hbytes', hpiece, List.map_append]

/-- What is read for an address: a zone takes the last byte of a dotted tail. -/
def bytesRead (address zone : Text) (bytes : List Nat) : List Number :=
  if '.' ∈ address then beforeZone zone bytes else bytes.map ofNat

theorem length_bytesRead (zone : Text) {address : Text} {bytes : List Nat}
    (h : '.' ∈ address → bytes ≠ []) :
    (bytesRead address zone bytes).length = bytes.length := by
  unfold bytesRead
  split
  next hdot => exact length_beforeZone (h hdot)
  · exact List.length_map _

theorem bytesRead_append {address : Text} {back : List Nat} (h : '.' ∈ address → back ≠ [])
    (front : List Nat) :
    bytesRead address zone (front ++ back) = front.map ofNat ++ bytesRead address zone back := by
  unfold bytesRead
  split
  next hdot => exact beforeZone_append (h hdot)
  · exact List.map_append

theorem bytesRead_congr {address address' : Text} {bytes : List Nat}
    (h : '.' ∈ address ↔ '.' ∈ address') :
    bytesRead address zone bytes = bytesRead address' zone bytes := by
  simp only [bytesRead, h]

/-- The pieces of an address before a zone. -/
theorem flatMap_attach {parts : List Text} {bytes : List Nat} (hne : parts ≠ [])
    (h : groupsOrQuad parts = some bytes) (hzone : IsZoneText zone) (hdot : '.' ∉ zone) :
    bytes ≠ [] ∧ (attach zone parts).flatMap expandPiece = bytesRead parts.flatten zone bytes := by
  fun_induction groupsOrQuad parts generalizing bytes with
  | case1 => exact absurd rfl hne
  | case2 piece hmem =>
    have hpos : bytes ≠ [] := by
      rintro rfl
      cases (bytes_of_quad h).1
    refine ⟨hpos, ?_⟩
    rw [attach, List.flatMap_singleton, List.flatten_singleton, bytesRead, if_pos hmem]
    exact expandPiece_quad h hzone hdot
  | case3 piece hmem =>
    obtain ⟨word, hword, rfl⟩ := Option.map_eq_some_iff.1 h
    refine ⟨by simp [bytesOfWord], ?_⟩
    rw [attach, List.flatMap_singleton, List.flatten_singleton, bytesRead, if_neg hmem]
    exact expandPiece_group hword hzone hdot
  | case4 piece rest hrest ih =>
    simp only [Option.bind_eq_bind, Option.pure_def, Option.bind_eq_some_iff,
      Option.some.injEq] at h
    obtain ⟨word, hword, bytes', hbytes', rfl⟩ := h
    have hne' : rest ≠ [] := by
      rintro rfl
      exact hrest rfl
    obtain ⟨hpos, hread⟩ := ih hne' hbytes'
    refine ⟨by simp [bytesOfWord], ?_⟩
    have hpiece := expandPiece_group hword (.inl rfl) List.not_mem_nil
    rw [List.append_nil] at hpiece
    rw [attach_cons hne', List.flatMap_cons, hread, hpiece, List.flatten_cons,
      bytesRead_append fun _ => hpos]
    congr 1
    exact bytesRead_congr (by simp [dot_not_mem_of_group hword])

/-- A character that is no separator is in the text exactly if it is in one of the parts. -/
theorem mem_flatten_splitOn {sep c : Char} (hc : c ≠ sep) (s : Text) :
    c ∈ (s.splitOn sep).flatten ↔ c ∈ s := by
  induction s with
  | nil => simp
  | cons c' s ih =>
    obtain ⟨part, parts, hparts⟩ := List.exists_cons_of_ne_nil (List.splitOn_ne_nil sep s)
    rw [List.splitOn_cons_eq_if_modifyHead]
    split
    next hsep =>
      have hne : c ≠ c' := fun heq => hc (heq.trans (by simpa using hsep))
      simp [ih, hne]
    · rw [hparts] at ih ⊢
      simp only [List.modifyHead_cons, List.flatten_cons, List.cons_append, List.mem_cons] at ih ⊢
      rw [ih]

/-- The part of an address before a zone. -/
theorem expand_append {s : Text} {bytes : List Nat} (hs : s ≠ [])
    (h : groupsOrQuad (pieces s) = some bytes) (hzone : IsZoneText zone) (hdot : '.' ∉ zone)
    (hcolon : ':' ∉ zone) : bytes ≠ [] ∧ expand (s ++ zone) = bytesRead s zone bytes := by
  rw [pieces, if_neg hs] at h
  obtain ⟨hpos, hread⟩ := flatMap_attach (List.splitOn_ne_nil ':' s) h hzone hdot
  refine ⟨hpos, ?_⟩
  rw [expand, pieces, if_neg (by simp [hs]), splitOn_append hcolon, hread]
  exact bytesRead_congr (mem_flatten_splitOn (by decide) s)

theorem dot_not_mem_of_groups {s : Text} {bytes : List Nat} (h : groups (pieces s) = some bytes) :
    '.' ∉ s := by
  have hparts : ∀ (parts : List Text) (bytes : List Nat), groups parts = some bytes →
      '.' ∉ parts.flatten := by
    intro parts
    induction parts with
    | nil => simp
    | cons piece rest ih =>
      intro bytes h
      simp only [groups, Option.bind_eq_bind, Option.pure_def, Option.bind_eq_some_iff] at h
      obtain ⟨word, hword, bytes', hbytes', -⟩ := h
      rw [List.flatten_cons, List.mem_append, not_or]
      exact ⟨dot_not_mem_of_group hword, ih bytes' hbytes'⟩
  unfold pieces at h
  split at h
  next hs => simp [hs]
  · exact (mem_flatten_splitOn (by decide) s).not.1 (hparts _ bytes h)

/-- The bytes behind `::`.  A zone in their place is two zero bytes of those that are left. -/
theorem expand_tail {tail : Text} {back : List Nat} (h : groupsOrQuad (pieces tail) = some back)
    (hzone : IsZoneText zone) (hdot : '.' ∉ zone) (hcolon : ':' ∉ zone) :
    ('.' ∈ tail → back ≠ []) ∧ ∃ k ≤ 2,
      expand (tail ++ zone) = List.replicate k (ofNat 0) ++ bytesRead tail zone back := by
  by_cases htail : tail = []
  · subst htail
    cases h
    refine ⟨by simp, ?_⟩
    obtain rfl | ⟨rest, rfl⟩ := hzone
    · exact ⟨0, by decide, rfl⟩
    · refine ⟨2, le_refl 2, ?_⟩
      rw [List.nil_append, expand, pieces, if_neg (List.cons_ne_nil _ _),
        List.splitOn_eq_singleton hcolon, List.flatMap_singleton, expandPiece_zone hdot]
      rfl
  · obtain ⟨hpos, hread⟩ := expand_append htail h hzone hdot hcolon
    exact ⟨fun _ => hpos, 0, by decide, hread⟩

/-- The bytes of an address before a zone. -/
theorem parseIPv6Bytes_eq {host address : Text} {bytes : List Nat}
    (hhost : stripBrackets (trim host) = address ++ zone) (hfamily : isIP (address ++ zone) = 6)
    (h : ipv6 address = some bytes) (hzone : IsZoneText zone) (hdot : '.' ∉ zone)
    (hcolon : ':' ∉ zone) : parseIPv6Bytes host = some (bytesRead address zone bytes) := by
  unfold parseIPv6Bytes
  rw [hhost]
  simp only [hfamily, ne_eq, not_true_eq_false, if_false, splitPair_append hcolon]
  obtain ⟨hsplit, hread, hlen⟩ | ⟨head, tail, front, back, hsplit, hfront, hback, hlen, rfl⟩ :=
    ipv6_cases h
  · have hne : address ≠ [] := by
      rintro rfl
      cases hread
      cases hlen
    obtain ⟨hpos, hexpand⟩ := expand_append hne hread hzone hdot hcolon
    have hcount : (bytesRead address zone bytes).length = 16 := by
      rw [length_bytesRead zone fun _ => hpos, hlen]
    rw [hsplit, attach]
    simp only [hexpand, hcount, if_true]
  · have hfrontRead : expand head = front.map ofNat := flatMap_groups hfront
    obtain ⟨hpos, k, hk, hbackRead⟩ := expand_tail hback hzone hdot hcolon
    have hcount := length_bytesRead zone hpos
    have hmem : '.' ∈ address ↔ '.' ∈ tail := by
      have haddress : address = head ++ [':', ':'] ++ tail := by
        rw [← intercalate_splitPair address, hsplit]
        simp
      simp [haddress, dot_not_mem_of_groups hfront]
    have hzeros : 16 - (front.length + (k + back.length)) + k =
        16 - (front.length + back.length) := by omega
    rw [hsplit, attach_cons (List.cons_ne_nil _ _), attach]
    simp only [hfrontRead, hbackRead, List.length_append, List.length_map, List.length_replicate,
      hcount]
    rw [if_pos (by omega), List.append_assoc, ← List.append_assoc (List.replicate _ _),
      List.replicate_append_replicate, hzeros, bytesRead_congr hmem, bytesRead_append hpos,
      List.map_append, List.map_replicate, List.append_assoc]

/-! ## The two families -/

/-- An IPv6 address is judged by the bytes read before its zone. -/
theorem isPublicUnicastAddress_six {host address : Text} {bytes : List Nat}
    (hhost : stripBrackets (trim host) = address ++ zone) (hfamily : isIP (address ++ zone) = 6)
    (h : ipv6 address = some bytes) (hzone : IsZoneText zone) (hdot : '.' ∉ zone)
    (hcolon : ':' ∉ zone) :
    isPublicUnicastAddress host = !special6 (value bytes) ↔
      zone ≠ [] → '.' ∈ address → 1 < value bytes := by
  obtain ⟨hlen, hbytes⟩ := bytes_of_ipv6 h
  have hread : isPublicUnicastAddress host = isPublicIPv6 (bytesRead address zone bytes) := by
    unfold isPublicUnicastAddress
    rw [parseIPv6Bytes_eq hhost hfamily h hzone hdot hcolon, hhost]
    simp [hfamily]
  rw [hread, bytesRead]
  split
  next hmem =>
    unfold beforeZone
    split
    next hzone' => simp [hzone', isPublicIPv6_map hlen hbytes]
    next hzone' =>
      obtain rfl | ⟨front, last, rfl⟩ := List.eq_nil_or_concat' bytes
      · cases hlen
      · rw [List.length_append, List.length_singleton] at hlen
        have hfront : ∀ b ∈ front, b < 256 := fun b hb => hbytes b (List.mem_append_left _ hb)
        rw [List.dropLast_concat, isPublicIPv6_nan (by omega) hfront (hbytes last (by simp))]
        exact ⟨fun hvalue _ _ => hvalue, fun hvalue => hvalue hzone' hmem⟩
  next hmem => simp [hmem, isPublicIPv6_map hlen hbytes]

/-- The brackets of a text. -/
theorem stripBrackets_cases (s : Text) :
    (∃ behind, (behind = [] ∨ behind = [']']) ∧ s.head? ≠ some '[' ∧
      s = stripBrackets s ++ behind) ∨
    ∃ behind, (behind = [] ∨ behind = [']']) ∧ s.head? = some '[' ∧
      s = '[' :: stripBrackets s ++ behind := by
  have hlast : ∀ t : Text, ∃ behind, (behind = [] ∨ behind = [']']) ∧
      t = (if t.getLast? = some ']' then t.dropLast else t) ++ behind := by
    intro t
    split
    next hclose =>
      obtain ⟨front, rfl⟩ := List.getLast?_eq_some_iff.1 hclose
      exact ⟨[']'], .inr rfl, by rw [List.dropLast_concat]⟩
    · exact ⟨[], .inl rfl, (List.append_nil _).symm⟩
  by_cases hopen : s.head? = some '['
  · obtain ⟨t, rfl⟩ : ∃ t, s = '[' :: t := by
      cases s with
      | nil => cases hopen
      | cons c t =>
        cases hopen
        exact ⟨t, rfl⟩
    obtain ⟨behind, hbehind, heq⟩ := hlast t
    exact .inr ⟨behind, hbehind, rfl, congrArg ('[' :: ·) heq⟩
  · obtain ⟨behind, hbehind, heq⟩ := hlast s
    refine .inl ⟨behind, hbehind, hopen, ?_⟩
    simpa only [stripBrackets, if_neg hopen] using heq

/-- An IPv4 address keeps its brackets, and an opening one makes its first octet no number. -/
theorem isPublicUnicastAddress_four {host : Text} {bytes : List Nat}
    (h : quad (stripBrackets (trim host)) = some bytes) :
    isPublicUnicastAddress host = !special4 (value bytes) ↔
      ((trim host).head? = some '[' → special4 (value bytes) = false) := by
  have hread : isPublicUnicastAddress host =
    isPublicIPv4 (((trim host).splitOn '.').map number) := by
    have hfamily : isIP (stripBrackets (trim host)) = 4 := by simp [isIP, h]
    simp [isPublicUnicastAddress, hfamily]
  obtain ⟨p, q, r, t, a, b, c, d, hsplit, ha, hb, hc, hd, rfl⟩ := fourParts_eq_some.1 h
  have hdot : ∀ behind : Text, behind = [] ∨ behind = [']'] → '.' ∉ behind := by
    rintro behind (rfl | rfl)
    · simp
    · simp
  rw [hread]
  obtain ⟨behind, hbehind, hopen, heq⟩ | ⟨behind, hbehind, hopen, heq⟩ :=
    stripBrackets_cases (trim host)
  · have hparts : (trim host).splitOn '.' = [p, q, r, t ++ behind] := by
      rw [heq, splitOn_append (hdot behind hbehind), hsplit]
      rfl
    rw [hparts, List.map_cons, List.map_cons, number_of_octet ha, number_of_octet hb,
      isPublicIPv4_eq (octet_lt ha) (octet_lt hb) (octet_lt hc) (octet_lt hd)]
    simp [hopen]
  · have hparts : (trim host).splitOn '.' = ['[' :: p, q, r, t ++ behind] := by
      rw [heq, splitOn_append (hdot behind hbehind), List.splitOn_cons_eq_if_modifyHead, hsplit]
      rfl
    rw [hparts, List.map_cons, number_of_foreign (c := '[') (by decide) List.mem_cons_self,
      isPublicIPv4_nan]
    simp [hopen]

/-- A text and the zone that is cut from it. -/
theorem eq_append_zoneText (s : Text) : ∃ zone, s = (cut (· == '%') s).1 ++ zone ∧
    IsZoneText zone ∧ (zone ≠ [] ↔ (cut (· == '%') s).2.isSome = true) ∧
    ∀ c ∈ zone, c = '%' ∨ ∃ z ∈ (cut (· == '%') s).2, c ∈ z := by
  cases hcut : (cut (· == '%') s).2 with
  | none =>
    exact ⟨[], by rw [List.append_nil, cut_eq_none hcut], .inl rfl, by simp, by simp⟩
  | some zone =>
    have hpair : cut (· == '%') s = ((cut (· == '%') s).1, some zone) := Prod.ext rfl hcut
    obtain ⟨sep, hsep, heq, -⟩ := cut_eq_some hpair
    obtain rfl : sep = '%' := by simpa using hsep
    exact ⟨'%' :: zone, heq, .inr ⟨zone, rfl⟩, by simp, by simp⟩

/-- **An address is judged by its value** exactly if it is plain, for every zone without a dot and
a colon. -/
theorem judged_iff {host : Text} (h : isIP (stripBrackets (trim host)) ≠ 0)
    (hzone : PlainZone host) : JudgedByValue host ↔ PlainAddress host := by
  cases hquad : quad (stripBrackets (trim host)) with
  | some bytes =>
    simp only [JudgedByValue, PlainAddress, address, hquad, Option.mem_def, Option.some.injEq,
      forall_eq', Address.special]
    exact isPublicUnicastAddress_four hquad
  | none =>
    have hfamily : isIP (stripBrackets (trim host)) = 6 := by
      obtain hnone | hfour | hsix := isIP_cases (stripBrackets (trim host))
      · exact absurd hnone h
      · obtain ⟨bytes, hbytes⟩ := isIP_four hfour
        rw [hquad] at hbytes
        cases hbytes
      · exact hsix
    obtain ⟨-, ⟨bytes, hbytes⟩, -⟩ := isIP_six hfamily
    obtain ⟨zone, heq, hzoneText, hisSome, hmem⟩ := eq_append_zoneText (stripBrackets (trim host))
    have hplain : '.' ∉ zone ∧ ':' ∉ zone := by
      constructor
      · intro hdot
        obtain hpercent | ⟨z, hz, hdot⟩ := hmem '.' hdot
        · cases hpercent
        · exact (hzone z hz).1 hdot
      · intro hcolon
        obtain hpercent | ⟨z, hz, hcolon⟩ := hmem ':' hcolon
        · cases hpercent
        · exact (hzone z hz).2 hcolon
    have hsix := isPublicUnicastAddress_six heq (heq ▸ hfamily) hbytes hzoneText hplain.1 hplain.2
    simp only [JudgedByValue, PlainAddress, address, hquad, hbytes, Option.mem_def,
      Option.map_some, Option.some.injEq, forall_eq', Address.special]
    rw [hsix, hisSome]

theorem judged_iff_loopback : JudgedByValue "[::1]".toList := by
  have hnoZone : (cut (· == '%') (stripBrackets (trim "[::1]".toList))).2 = none := by
    decide +kernel
  refine (judged_iff (by decide +kernel) ?_).2 ?_
  · intro zone hmem
    rw [hnoZone] at hmem
    cases hmem
  · intro a ha
    have hvalue : address (stripBrackets (trim "[::1]".toList)) = some (.v6 1) := by decide +kernel
    rw [hvalue] at ha
    cases ha
    intro hisSome
    rw [hnoZone] at hisSome
    cases hisSome

/-- `[127.0.0.1]` is public: its first octet is `NaN`. -/
theorem bracketed_loopback_is_public :
    ¬ ∀ host, isIP (stripBrackets (trim host)) ≠ 0 → JudgedByValue host := by
  intro h
  have hjudged := h "[127.0.0.1]".toList (by decide +kernel) (.v4 (value [127, 0, 0, 1]))
    (by decide +kernel)
  exact absurd hjudged (by decide +kernel)

end ChordV.Api.PublicAddress
