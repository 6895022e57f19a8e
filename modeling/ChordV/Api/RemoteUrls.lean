import ChordV.Lib.Fallible
import ChordV.Api.PublicAddress

/-!
# The guard of outbound requests

`fetchPublicHttpUrl` of `remote-url.utils.ts`.  The addresses are checked twice in each hop: the
host of the URL is looked up and checked, and the connection looks it up again through a dispatcher
that checks what it returns.

* The URL parser, the name lookups and the server are parameters.  A `Hop` has one answer for each
  lookup, so that a name may have other addresses the second time.  A connection that is reused was
  opened with such an answer too.
* `isPrivateOrReservedIp` compares an IPv6 address as a text.
* `guards_agree` says for which texts it is as strict as `isPublicUnicastAddress`, and that a run
  with such texts sends to public addresses only.
-/

namespace ChordV.Api.RemoteUrls

open Lib Lib.Fallible Lib.Js Lib.Ip PublicAddress

/-! ## The guard of a text -/

/-- The address is refused. -/
def isPrivateOrReservedIp (address : Text) : Bool :=
  let ipVersion := isIP address
  if ipVersion = 4 then
    let parts := (address.splitOn '.').map number
    if parts.length ≠ 4 ∨
        parts.any (fun part => !part.isInteger || part.lt (ofNat 0) || (ofNat 255).lt part) then
      true
    else
      let a := parts.getD 0 .nan
      let b := parts.getD 1 .nan
      a == ofNat 0 || a == ofNat 10 || a == ofNat 127 || (a == ofNat 169 && b == ofNat 254) ||
        (a == ofNat 172 && (ofNat 16).le b && b.le (ofNat 31)) ||
        (a == ofNat 192 && b == ofNat 168) ||
        (a == ofNat 100 && (ofNat 64).le b && b.le (ofNat 127)) || (ofNat 224).le a
  else if ipVersion = 6 then
    let normalized := address.map Char.toLower
    normalized == "::".toList || normalized == "::1".toList ||
      ["fc", "fd", "fe8", "fe9", "fea", "feb", "ff"].any fun start =>
        start.toList.isPrefixOf normalized
  else true

/-! ## Lookups -/

/-- How a request fails. -/
inductive Failure where
  | badRequest (message : String)
  | other (message : String)
deriving DecidableEq, Repr

/-- An answer of the lookup. -/
structure LookupAddress where
  address : Text
  family : Nat
deriving DecidableEq, Repr

/-- What a lookup ends with. -/
inductive Answer where
  | addresses (list : List LookupAddress)
  | failed (message : String)
  | timedOut (timeoutMs : Nat)

/-- The option `family` of a lookup. -/
inductive LookupFamily where
  | unset
  | number (n : Nat)
  | name (s : String)

/-- Four, six, or zero for both. -/
def normalizeLookupFamily : LookupFamily → Nat
  | .number n => if n = 4 ∨ n = 6 then n else 0
  | .name s => if s = "IPv4" then 4 else if s = "IPv6" then 6 else 0
  | .unset => 0

/-- The lookup within its time. -/
def lookupHostnameWithTimeout (errorPrefix : String) : Answer → Except Failure (List LookupAddress)
  | .addresses list => .ok list
  | .failed message => .error (.other message)
  | .timedOut timeoutMs =>
    .error
      (.badRequest (errorPrefix ++ " DNS lookup timed out after " ++ toString timeoutMs ++ "ms."))

/-- The address is not refused. -/
def assertPublicIp (address : Text) (errorPrefix : String) : Except Failure Unit :=
  require (isPrivateOrReservedIp address = false)
    (.badRequest (errorPrefix ++ " resolves to a private or reserved address."))

/-- The addresses of a name, of the family that is asked for. -/
def lookupPublicHostname (errorPrefix : String) (answer : Answer) (family : LookupFamily) :
    Except Failure (List LookupAddress) := do
  let addresses ← lookupHostnameWithTimeout errorPrefix answer
  require (addresses.length ≠ 0) (.badRequest (errorPrefix ++ " host did not resolve."))
  let family := normalizeLookupFamily family
  let matchingAddresses :=
    if 0 < family then addresses.filter (·.family == family) else addresses
  require (matchingAddresses.length ≠ 0)
    (.badRequest (errorPrefix ++ " host did not resolve to a supported address family."))
  matchingAddresses.forM fun address => assertPublicIp address.address errorPrefix
  return matchingAddresses

/-! ## The network -/

/-- What is read of a `URL`. -/
structure Url where
  protocol : String
  hostname : Text
  href : String
deriving DecidableEq, Repr

/-- What is read of an answer. -/
structure Response where
  status : Nat
  location : Option String
deriving DecidableEq, Repr

/-- What one hop meets. -/
structure Hop where
  /-- The lookup of the check. -/
  checked : Text → Answer
  /-- The lookup of the connection, and the family it asks for. -/
  connected : Text → Answer
  family : LookupFamily
  /-- Which of the addresses are tried. -/
  tries : List Nat
  response : Except String Response

/-- The URL parser and the network. -/
structure Network where
  /-- `new URL(text)` -/
  parseUrl : String → Option Url
  /-- `new URL(location, base)` -/
  resolveUrl : String → Url → Option Url
  /-- The host that the client of the requests connects to. -/
  connectHost : Text → Text
  /-- The environment allows private addresses, for tests. -/
  allowsPrivate : Bool
  hop : Nat → Hop

/-- The options of the caller. -/
structure Settings where
  maxRedirects : Option Nat
  errorPrefix : Option String
  /-- The caller sets a lookup or its time limit. -/
  ownLookup : Bool
  requireHttps : Bool

/-- How the errors begin. -/
def Settings.prefixText (settings : Settings) : String := settings.errorPrefix.getD "Remote URL"

/-! ## Requests -/

/-- The URL is one of https, or of http where it may be. -/
def parseHttpUrl (url : Option Url) (settings : Settings) : Except Failure Url :=
  match url with
  | none => .error (.badRequest (settings.prefixText ++ " must be a valid HTTP(S) URL."))
  | some url =>
    if settings.requireHttps then do
      require (url.protocol = "https:")
        (.badRequest (settings.prefixText ++ " must use HTTPS (no downgrade allowed)."))
      return url
    else do
      require (url.protocol = "http:" ∨ url.protocol = "https:")
        (.badRequest (settings.prefixText ++ " must use HTTP or HTTPS."))
      return url

/-- The host is public, or private ones are allowed. -/
def assertPublicHostname (allowsPrivate : Bool) (hostname : Text) (errorPrefix : String)
    (answer : Answer) : Except Failure Unit :=
  if allowsPrivate then .ok ()
  else if isIP hostname ≠ 0 then assertPublicIp hostname errorPrefix
  else do
    let addresses ← lookupPublicHostname errorPrefix answer .unset
    require (addresses.length ≠ 0) (.badRequest (errorPrefix ++ " host did not resolve."))

/-- The addresses that are contacted.  An address is used as it is, and a name is looked up by the
dispatcher. -/
def connect (net : Network) (settings : Settings) (hop : Hop) (hostname : Text) :
    Except Failure (List Text) :=
  let host := net.connectHost hostname
  if isIP host ≠ 0 then .ok [host]
  else do
    let errorPrefix := if settings.ownLookup then settings.prefixText else "Remote URL"
    let addresses ← lookupPublicHostname errorPrefix (hop.connected host) hop.family
    return (hop.tries.filterMap fun i => addresses[i]?).map (·.address)

/-- The addresses a request is sent to, and what comes back. -/
def fetchWithPublicDispatcher (net : Network) (settings : Settings) (hop : Hop) (url : Url) :
    List Text × Except Failure Response :=
  match connect net settings hop url.hostname with
  | .ok sent => (sent, hop.response.mapError .other)
  | .error (.badRequest message) => ([], .error (.badRequest message))
  | .error (.other _) => ([], .error (.other "fetch failed"))

/-- The answer sends the client elsewhere. -/
def isRedirectStatus (status : Nat) : Bool := [301, 302, 303, 307, 308].contains status

/-- The answer, and where it came from. -/
structure Fetched where
  response : Response
  resolvedUrl : String

/-- What follows a response: the result, or the URL of the next hop. -/
def afterResponse (net : Network) (settings : Settings) (currentUrl : Url) (response : Response) :
    Except Failure (Fetched ⊕ Url) :=
  if !isRedirectStatus response.status then
    .ok (.inl { response, resolvedUrl := currentUrl.href })
  else
    match response.location with
    | none => .error (.badRequest (settings.prefixText ++ " redirected without a Location header."))
    | some location =>
      if location = "" then
        .error (.badRequest (settings.prefixText ++ " redirected without a Location header."))
      else
        match net.resolveUrl location currentUrl with
        | none => .error (.other "Invalid URL")
        | some url => (parseHttpUrl (net.parseUrl url.href) settings).map .inr

/-- The loop over the hops, with the number of hops that are left. -/
def fetchHops (net : Network) (settings : Settings) :
    Nat → Nat → Url → List Text × Except Failure Fetched
  | 0, _, _ => ([], .error (.badRequest (settings.prefixText ++ " redirected too many times.")))
  | left + 1, redirectCount, currentUrl =>
    let hop := net.hop redirectCount
    match assertPublicHostname net.allowsPrivate currentUrl.hostname settings.prefixText
        (hop.checked currentUrl.hostname) with
    | .error failure => ([], .error failure)
    | .ok () =>
      let fetched := fetchWithPublicDispatcher net settings hop currentUrl
      match fetched.2.bind (afterResponse net settings currentUrl) with
      | .error failure => (fetched.1, .error failure)
      | .ok (.inl result) => (fetched.1, .ok result)
      | .ok (.inr nextUrl) =>
        let rest := fetchHops net settings left (redirectCount + 1) nextUrl
        (fetched.1 ++ rest.1, rest.2)

/-- The addresses that requests are sent to, and the result. -/
def fetchPublicHttpUrl (net : Network) (settings : Settings) (rawUrl : String) :
    List Text × Except Failure Fetched :=
  match parseHttpUrl (net.parseUrl rawUrl) settings with
  | .error failure => ([], .error failure)
  | .ok url => fetchHops net settings (settings.maxRedirects.getD 5 + 1) 0 url

/-! ## The two guards -/

/-- The spellings that the guard knows: no mapped address that is not public, and `::` and `::1` in
their shortest form. -/
def PlainSpelling (t : Text) : Prop :=
  ∀ v, address t = some (.v6 v) →
    (mapped.contains 128 v = true → special4 (v % 2 ^ 32) = false) ∧
      (v ≤ 1 → t.map Char.toLower = "::".toList ∨ t.map Char.toLower = "::1".toList)

theorem isPrivateOrReservedIp_four {t : Text} {bytes : List Nat} (h : quad t = some bytes) :
    isPrivateOrReservedIp t = special4 (value bytes) := by
  have hfamily : isIP t = 4 := by simp [isIP, h]
  obtain ⟨p, q, r, s, a, b, c, d, hsplit, ha, hb, hc, hd, rfl⟩ := fourParts_eq_some.1 h
  have hrange : ∀ n < 256, (!(ofNat n).isInteger || (ofNat n).lt (ofNat 0) ||
      (ofNat 255).lt (ofNat n)) = false := by
    intro n hn
    have hint := isInteger_ofNat (n := n) (hn.trans (by norm_num))
    have hlow : (ofNat n).lt (ofNat 0) = false := by
      rw [← Bool.not_eq_true, ofNat_lt_ofNat (hn.trans (by norm_num)) (by norm_num)]
      omega
    have hhigh : (ofNat 255).lt (ofNat n) = false := by
      rw [← Bool.not_eq_true, ofNat_lt_ofNat (by norm_num) (hn.trans (by norm_num))]
      omega
    rw [hint, hlow, hhigh]
    rfl
  have ha' := octet_lt ha
  have hb' := octet_lt hb
  have hc' := octet_lt hc
  have hd' := octet_lt hd
  have hparts : (t.splitOn '.').map number = [ofNat a, ofNat b, ofNat c, ofNat d] := by
    simp only [hsplit, List.map_cons, List.map_nil, number_of_octet ha, number_of_octet hb,
      number_of_octet hc, number_of_octet hd]
  have hany : [ofNat a, ofNat b, ofNat c, ofNat d].any
      (fun part => !part.isInteger || part.lt (ofNat 0) || (ofNat 255).lt part) = false := by
    simp only [List.any_cons, List.any_nil, hrange a ha', hrange b hb', hrange c hc', hrange d hd',
      Bool.or_self]
  rw [Bool.eq_iff_iff, special4_value ha' hb' hc' hd']
  simp (disch := omega) only [isPrivateOrReservedIp, hfamily, if_true, hparts, hany,
    List.length_cons, List.length_nil, Nat.reduceAdd, ne_eq, not_true_eq_false, Bool.false_eq_true,
    or_self, if_false, List.getD_cons_zero, List.getD_cons_succ, ofNat_byte_eq, ofNat_byte_le,
    Bool.or_eq_true, Bool.and_eq_true, decide_eq_true_eq, beq_iff_eq]
  simp only [and_assoc, or_comm, or_left_comm, or_assoc]

/-- A text without a zone is judged by its value. -/
theorem isPublicUnicastAddress_of_address {t : Text} {a : Address} (hzone : '%' ∉ t)
    (ha : address t = some a) : isPublicUnicastAddress t = !a.special := by
  cases hquad : quad t with
  | some bytes =>
    have hchars : ∀ c ∈ t, isAddressChar c = true := by
      intro c hc
      obtain hdigit | rfl := digit_or_dot_of_quad hquad c hc
      · simp [isAddressChar, isSome_hexDigit_of_isDigit hdigit]
      · rfl
    obtain ⟨htrim, hstrip⟩ := bare_of_isAddressChar hchars
    have hread : quad (stripBrackets (trim t)) = some bytes := by rw [htrim, hstrip, hquad]
    simp only [address, hquad, Option.some.injEq] at ha
    subst ha
    refine (isPublicUnicastAddress_four hread).2 fun hopen => ?_
    rw [htrim] at hopen
    exact absurd (hchars '[' (List.mem_of_mem_head? hopen)) (by decide)
  | none =>
    have hcut : cut (· == '%') t = (t, none) := cut_of_forall fun c hc => by
      rw [beq_eq_false_iff_ne]
      rintro rfl
      exact hzone hc
    simp only [address, hquad, hcut, Option.map_eq_some_iff] at ha
    obtain ⟨bytes, hbytes, rfl⟩ := ha
    obtain ⟨htrim, hstrip⟩ := bare_of_isAddressChar (isAddressChar_of_ipv6 hbytes)
    have hhost : stripBrackets (trim t) = t ++ [] := by rw [htrim, hstrip, List.append_nil]
    have hfamily : isIP (t ++ []) = 6 := by
      rw [List.append_nil]
      simp [isIP, hquad, hcut, hbytes]
    exact (isPublicUnicastAddress_six hhost hfamily hbytes (.inl rfl) (by simp) (by simp)).2
      fun hne => absurd rfl hne

/-- The starts of private addresses. -/
def starts : List String := ["fc", "fd", "fe8", "fe9", "fea", "feb", "ff"]

theorem isPrivateOrReservedIp_six {t : Text} (h : isIP t = 6) :
    isPrivateOrReservedIp t = true ↔
      t.map Char.toLower = "::".toList ∨ t.map Char.toLower = "::1".toList ∨
        ∃ start ∈ starts, start.toList <+: t.map Char.toLower := by
  simp [isPrivateOrReservedIp, h, starts, or_assoc]

/-- An address of the blocks begins with one of the texts. -/
theorem exists_start {t : Text} {bytes : List Nat} (h : ipv6 t = some bytes)
    (hblock : blocks6.any (·.contains 128 (value bytes)) = true) :
    ∃ start ∈ starts, start.toList <+: t.map Char.toLower := by
  obtain ⟨hlen, hbytes⟩ := bytes_of_ipv6 h
  obtain ⟨rest, bytes', -, rfl⟩ | ⟨piece, word, rest, bytes', hword, rfl, rfl⟩ := first_of_ipv6 h
  · rw [bytesOfWord] at hlen hbytes hblock
    simp only [List.cons_append, List.nil_append] at hlen hbytes hblock
    rw [blocks6_value (by simpa using hlen) hbytes] at hblock
    omega
  · rw [bytesOfWord] at hlen hbytes hblock
    simp only [List.cons_append, List.nil_append] at hlen hbytes hblock
    rw [blocks6_value (by simpa using hlen) hbytes] at hblock
    obtain ⟨c₁, c₂, c₃, c₄, rfl, h₁, h₂, h₃⟩ := digits_of_group hword (by omega)
    have hlt := group_lt hword
    have hone : word / 4096 = 15 := by omega
    rw [hone] at h₁
    simp only [List.cons_append, List.nil_append, List.map_cons, toLower_of_hexDigit h₁,
      toLower_of_hexDigit h₂, toLower_of_hexDigit h₃]
    generalize rest.map Char.toLower = rest'
    obtain hlocal | hlink | hmulticast := hblock
    · obtain htwo | htwo : word / 256 % 16 = 12 ∨ word / 256 % 16 = 13 := by omega
      · rw [htwo]
        exact ⟨"fc", by decide, _, rfl⟩
      · rw [htwo]
        exact ⟨"fd", by decide, _, rfl⟩
    · have htwo : word / 256 % 16 = 14 := by omega
      rw [htwo]
      obtain hthree | hthree | hthree | hthree : word / 16 % 16 = 8 ∨ word / 16 % 16 = 9 ∨
          word / 16 % 16 = 10 ∨ word / 16 % 16 = 11 := by omega
      · rw [hthree]
        exact ⟨"fe8", by decide, _, rfl⟩
      · rw [hthree]
        exact ⟨"fe9", by decide, _, rfl⟩
      · rw [hthree]
        exact ⟨"fea", by decide, _, rfl⟩
      · rw [hthree]
        exact ⟨"feb", by decide, _, rfl⟩
    · have htwo : word / 256 % 16 = 15 := by omega
      rw [htwo]
      exact ⟨"ff", by decide, _, rfl⟩

/-- A text that begins so has a first group that is not zero. -/
theorem le_value_of_start {t : Text} {bytes : List Nat} (h : ipv6 t = some bytes) {start : String}
    (hstart : start ∈ starts) (hbegins : start.toList <+: t.map Char.toLower) :
    2 ^ 112 ≤ value bytes := by
  have hheads : ∀ start ∈ starts, start.toList.head? = some 'f' := by decide
  have hhead := hheads start hstart
  obtain ⟨c, t', rfl, hc⟩ : ∃ c t', t = c :: t' ∧ c.toLower = 'f' := by
    obtain ⟨rest, hrest⟩ := hbegins
    cases t with
    | nil =>
      rw [List.map_nil, List.append_eq_nil_iff] at hrest
      rw [hrest.1] at hhead
      cases hhead
    | cons c t' =>
      refine ⟨c, t', rfl, ?_⟩
      have hne : start.toList ≠ [] := by
        intro hnil
        rw [hnil] at hhead
        cases hhead
      have hfirst : (start.toList ++ rest).head? = some 'f' := by
        rw [List.head?_append_of_ne_nil _ hne, hhead]
      rw [hrest] at hfirst
      exact Option.some.inj hfirst
  have hdigit : Json.hexDigit c = some 15 := by
    rw [← hexDigit_toLower, hc]
    rfl
  obtain ⟨hlen, hbytes⟩ := bytes_of_ipv6 h
  obtain ⟨rest, bytes', heq, -⟩ | ⟨piece, word, rest, bytes', hword, heq, rfl⟩ := first_of_ipv6 h
  · cases heq
    cases hdigit
  · have hpos : 15 ≤ word := by
      unfold group at hword
      split at hword
      · cases piece with
        | nil => cases hword
        | cons c' piece =>
          cases heq
          exact le_of_inBase (by decide) hword hdigit
      · cases hword
    have hvalue : value (bytesOfWord word) = word := by
      simp only [bytesOfWord, value, List.foldl_cons, List.foldl_nil]
      omega
    have hcount : bytes'.length = 14 := by
      simpa [bytesOfWord] using hlen
    rw [value_append, hvalue, hcount]
    norm_num
    omega

/-- A value below the first group belongs to no such text, and is private in two spellings only. -/
theorem isPrivateOrReservedIp_low {t : Text} {bytes : List Nat} (h : isIP t = 6)
    (hipv6 : ipv6 t = some bytes) (hlow : value bytes < 2 ^ 112) :
    isPrivateOrReservedIp t = true ↔
      t.map Char.toLower = "::".toList ∨ t.map Char.toLower = "::1".toList := by
  rw [isPrivateOrReservedIp_six h, ← or_assoc]
  refine or_iff_left ?_
  rintro ⟨start, hstart, hprefix⟩
  exact absurd (le_value_of_start hipv6 hstart hprefix) (by omega)

/-- The value of the two spellings. -/
theorem value_of_short {t : Text} {bytes : List Nat} (hipv6 : ipv6 t = some bytes)
    (hshort : t.map Char.toLower = "::".toList ∨ t.map Char.toLower = "::1".toList) :
    value bytes ≤ 1 := by
  have hlower := ipv6_map_toLower hipv6
  obtain heq | heq := hshort
  · rw [heq, show ipv6 "::".toList = some (List.replicate 16 0) by decide +kernel] at hlower
    cases hlower
    decide
  · rw [heq, show ipv6 "::1".toList = some (List.replicate 15 0 ++ [1]) by decide +kernel] at hlower
    cases hlower
    decide

/-- The outbound guard lets nothing through that the inbound one would refuse, exactly for the
plain spellings. -/
theorem letThrough_iff {t : Text} (h : isIP t ≠ 0) (hzone : '%' ∉ t) :
    (isPrivateOrReservedIp t = false → isPublicUnicastAddress t = true) ↔ PlainSpelling t := by
  cases hquad : quad t with
  | some bytes =>
    have ha : address t = some (.v4 (value bytes)) := by simp [address, hquad]
    rw [isPublicUnicastAddress_of_address hzone ha, isPrivateOrReservedIp_four hquad, PlainSpelling,
      ha]
    simp [Address.special]
  | none =>
    have hfamily : isIP t = 6 := by
      obtain hnone | hfour | hsix := isIP_cases t
      · exact absurd hnone h
      · obtain ⟨bytes, hbytes⟩ := isIP_four hfour
        rw [hquad] at hbytes
        cases hbytes
      · exact hsix
    have hcut : cut (· == '%') t = (t, none) := cut_of_forall fun c hc => by
      rw [beq_eq_false_iff_ne]
      rintro rfl
      exact hzone hc
    obtain ⟨-, ⟨bytes, hbytes⟩, -⟩ := isIP_six hfamily
    rw [hcut] at hbytes
    have ha : address t = some (.v6 (value bytes)) := by simp [address, hquad, hcut, hbytes]
    have hmappedLow : mapped.contains 128 (value bytes) = true →
        2 ≤ value bytes ∧ value bytes < 2 ^ 112 := by
      simp only [Block.contains, mapped, beq_iff_eq]
      norm_num
      omega
    have hspecial := isPrivateOrReservedIp_low hfamily hbytes
    simp only [PlainSpelling, ha, Option.some.injEq, Address.v6.injEq, forall_eq',
      isPublicUnicastAddress_of_address hzone ha, Address.special, special6]
    constructor
    · intro hguard
      constructor
      · intro hmapped
        -- A mapped address has no spelling that the guard knows.
        obtain ⟨hlow, hhigh⟩ := hmappedLow hmapped
        have hthrough : isPrivateOrReservedIp t = false := by
          rw [← Bool.not_eq_true, hspecial hhigh]
          intro hshort
          exact absurd (value_of_short hbytes hshort) (by omega)
        simpa [hmapped] using hguard hthrough
      · intro hvalue
        rw [← hspecial (by omega)]
        by_contra hthrough
        have hpublic := hguard (Bool.eq_false_of_not_eq_true hthrough)
        have hmapped : mapped.contains 128 (value bytes) ≠ true := by
          intro hmapped
          exact absurd (hmappedLow hmapped).1 (by omega)
        have hzeroOne : value bytes = 0 ∨ value bytes = 1 := by omega
        rw [if_neg hmapped] at hpublic
        obtain hzero | hone := hzeroOne
        · simp [hzero] at hpublic
        · simp [hone] at hpublic
    · rintro ⟨hplain, hshort⟩ hthrough
      rw [Bool.not_eq_true']
      split
      next hmapped => exact hplain hmapped
      next hmapped =>
        rw [← Bool.not_eq_true] at hthrough ⊢
        simp only [Bool.or_eq_true, beq_iff_eq]
        rintro ((hzero | hone) | hblock)
        · exact hthrough ((hspecial (by omega)).2 (hshort (by omega)))
        · exact hthrough ((hspecial (by omega)).2 (hshort (by omega)))
        · exact hthrough
            ((isPrivateOrReservedIp_six hfamily).2 (.inr (.inr (exists_start hbytes hblock))))

/-! ## Runs -/

/-- What the parameters of a network are known for. -/
structure Network.Documented (net : Network) : Prop where
  /-- The host of an IPv6 URL is in brackets. -/
  bracketed : ∀ text url, net.parseUrl text = some url → isIP url.hostname ≠ 6
  /-- A connection takes only brackets off the host. -/
  unbracketed : ∀ name, name.head? ≠ some '[' → net.connectHost name = name
  /-- A name in brackets has no addresses. -/
  unresolved : ∀ i name, name.head? = some '[' →
    ∃ message, (net.hop i).checked name = .failed message
  /-- An address of a lookup has no zone. -/
  noZone : ∀ i name list, (net.hop i).connected name = .addresses list →
    ∀ answer ∈ list, '%' ∉ answer.address

/-- Every address of a lookup has a plain spelling. -/
def Network.PlainAnswers (net : Network) : Prop :=
  ∀ i name list, (net.hop i).connected name = .addresses list →
    ∀ answer ∈ list, PlainSpelling answer.address

/-- The text is an address of the public internet, and the inbound guard agrees. -/
def SafeTarget (t : Text) : Prop :=
  isPublicUnicastAddress t = true ∧ ∃ a, address t = some a ∧ a.special = false

theorem isIP_of_letThrough {t : Text} (h : isPrivateOrReservedIp t = false) : isIP t ≠ 0 := by
  intro hzero
  simp [isPrivateOrReservedIp, hzero] at h

theorem safeTarget_of_letThrough {t : Text} (hzone : '%' ∉ t) (hplain : PlainSpelling t)
    (h : isPrivateOrReservedIp t = false) : SafeTarget t := by
  have hfamily := isIP_of_letThrough h
  have hpublic := (letThrough_iff hfamily hzone).2 hplain h
  refine ⟨hpublic, ?_⟩
  cases ha : address t with
  | some a =>
    rw [isPublicUnicastAddress_of_address hzone ha, Bool.not_eq_true'] at hpublic
    exact ⟨a, rfl, hpublic⟩
  | none =>
    -- A text of a family has a value.
    unfold address at ha
    split at ha
    · cases ha
    next hquad =>
      rw [Option.map_eq_none_iff] at ha
      obtain hnone | hfour | hsix := isIP_cases t
      · exact absurd hnone hfamily
      · obtain ⟨bytes, hbytes⟩ := isIP_four hfour
        rw [hquad] at hbytes
        cases hbytes
      · obtain ⟨-, ⟨bytes, hbytes⟩, -⟩ := isIP_six hsix
        rw [ha] at hbytes
        cases hbytes

/-- A guarded lookup returns answers that were let through. -/
theorem letThrough_of_lookup {errorPrefix : String} {answer : Answer} {family : LookupFamily}
    {found : List LookupAddress} (h : lookupPublicHostname errorPrefix answer family = .ok found) :
    ∃ list, answer = .addresses list ∧
      ∀ x ∈ found, x ∈ list ∧ isPrivateOrReservedIp x.address = false := by
  obtain ⟨list, hanswer, h⟩ := bind_eq_ok.1 h
  obtain ⟨-, -, h⟩ := bind_eq_ok.1 h
  obtain ⟨-, -, h⟩ := bind_eq_ok.1 h
  obtain ⟨_, hchecks, h⟩ := bind_eq_ok.1 h
  rw [pure_eq_ok, Except.ok.injEq] at h
  subst h
  refine ⟨list, ?_, fun x hx => ⟨?_, ?_⟩⟩
  · cases answer with
    | addresses list' =>
      cases hanswer
      rfl
    | failed message => cases hanswer
    | timedOut timeoutMs => cases hanswer
  · split at hx
    · exact (List.mem_filter.1 hx).1
    · exact hx
  · exact require_eq_ok.1 (forM_eq_ok.1 hchecks x hx)

/-- The addresses of one hop, behind the check of its host. -/
theorem safeTarget_of_connect {net : Network} (hdoc : net.Documented) (hplain : net.PlainAnswers)
    {settings : Settings} {i : Nat} {hostname : Text} {errorPrefix : String} {sent : List Text}
    (hfamily : isIP hostname ≠ 6)
    (hcheck : assertPublicHostname false hostname errorPrefix ((net.hop i).checked hostname) =
      .ok ())
    (h : connect net settings (net.hop i) hostname = .ok sent) : ∀ t ∈ sent, SafeTarget t := by
  intro t ht
  have hopen : hostname.head? ≠ some '[' := by
    intro hopen
    -- The lookup of a name in brackets fails, and so does the check.
    obtain ⟨message, hfailed⟩ := hdoc.unresolved i hostname hopen
    simp only [assertPublicHostname, Bool.false_eq_true, if_false, hfailed] at hcheck
    split at hcheck
    next hne =>
      obtain hnone | hfour | hsix := isIP_cases hostname
      · exact absurd hnone hne
      · obtain ⟨bytes, hbytes⟩ := isIP_four hfour
        obtain hdigit | hdot := digit_or_dot_of_quad hbytes '[' (List.mem_of_mem_head? hopen)
        · exact absurd hdigit (by decide)
        · cases hdot
      · exact absurd hsix hfamily
    · cases hcheck
  have hhost := hdoc.unbracketed hostname hopen
  simp only [connect, hhost] at h
  by_cases hne : isIP hostname ≠ 0
  · rw [if_pos hne] at h
    -- The host is an IPv4 address, and the check let it through.
    cases h
    rw [List.mem_singleton] at ht
    subst ht
    obtain hnone | hfour | hsix := isIP_cases t
    · exact absurd hnone hne
    · obtain ⟨bytes, hbytes⟩ := isIP_four hfour
      have hzone : '%' ∉ t := by
        intro hmem
        obtain hdigit | hdot := digit_or_dot_of_quad hbytes '%' hmem
        · exact absurd hdigit (by decide)
        · cases hdot
      have hspelling : PlainSpelling t := by
        intro v hv
        simp [address, hbytes] at hv
      simp only [assertPublicHostname, Bool.false_eq_true, if_false, if_pos hne] at hcheck
      exact safeTarget_of_letThrough hzone hspelling (require_eq_ok.1 hcheck)
    · exact absurd hsix hfamily
  · rw [if_neg hne] at h
    obtain ⟨found, hfound, h⟩ := bind_eq_ok.1 h
    rw [pure_eq_ok, Except.ok.injEq] at h
    subst h
    obtain ⟨x, hx, rfl⟩ := List.mem_map.1 ht
    obtain ⟨j, -, hj⟩ := List.mem_filterMap.1 hx
    obtain ⟨list, hlist, hthrough⟩ := letThrough_of_lookup hfound
    obtain ⟨hmem, hpublic⟩ := hthrough x (List.mem_of_getElem? hj)
    exact safeTarget_of_letThrough (hdoc.noZone i _ list hlist x hmem)
      (hplain i _ list hlist x hmem) hpublic

/-- The parser of a URL is the network's. -/
theorem parseUrl_of_parseHttpUrl {url : Option Url} {settings : Settings} {result : Url}
    (h : parseHttpUrl url settings = .ok result) : url = some result := by
  cases url with
  | none => cases h
  | some url =>
    simp only [parseHttpUrl] at h
    split at h
    · obtain ⟨-, -, h⟩ := bind_eq_ok.1 h
      cases h
      rfl
    · obtain ⟨-, -, h⟩ := bind_eq_ok.1 h
      cases h
      rfl

/-- The URL of the next hop comes from the parser. -/
theorem parseUrl_of_afterResponse {net : Network} {settings : Settings} {currentUrl nextUrl : Url}
    {response : Response}
    (h : afterResponse net settings currentUrl response = .ok (.inr nextUrl)) :
    ∃ text, net.parseUrl text = some nextUrl := by
  unfold afterResponse at h
  split at h
  · cases h
  · split at h
    · cases h
    · split at h
      · cases h
      · split at h
        · cases h
        next url _ =>
          obtain ⟨next, hnext, heq⟩ := map_eq_ok.1 h
          cases heq
          exact ⟨url.href, parseUrl_of_parseHttpUrl hnext⟩

/-- One hop after the other, for any number of hops that are left. -/
theorem safeTarget_of_fetchHops {net : Network} (hdoc : net.Documented) (hplain : net.PlainAnswers)
    (hswitch : net.allowsPrivate = false) (settings : Settings)
    (left redirectCount : Nat) {url : Url}
    (hurl : isIP url.hostname ≠ 6) :
    ∀ t ∈ (fetchHops net settings left redirectCount url).1, SafeTarget t := by
  induction left generalizing redirectCount url with
  | zero =>
    intro t ht
    cases ht
  | succ left ih =>
    rw [fetchHops, hswitch]
    cases hcheck : assertPublicHostname false url.hostname settings.prefixText
        ((net.hop redirectCount).checked url.hostname) with
    | error failure =>
      intro t ht
      cases ht
    | ok _ =>
      have hsent : ∀ t ∈ (fetchWithPublicDispatcher net settings (net.hop redirectCount) url).1,
          SafeTarget t := by
        intro t ht
        unfold fetchWithPublicDispatcher at ht
        split at ht
        next sent hconnect => exact safeTarget_of_connect hdoc hplain hurl hcheck hconnect t ht
        · cases ht
        · cases ht
      simp only
      split
      · exact hsent
      · exact hsent
      next nextUrl hafter =>
        obtain ⟨response, -, hnext⟩ := bind_eq_ok.1 hafter
        obtain ⟨text, htext⟩ := parseUrl_of_afterResponse hnext
        intro t ht
        obtain ht | ht := List.mem_append.1 ht
        · exact hsent t ht
        · exact ih (redirectCount + 1) (hdoc.bracketed text nextUrl htext) t ht

theorem safeTarget_of_fetchPublicHttpUrl {net : Network} (hdoc : net.Documented)
    (hplain : net.PlainAnswers) (hswitch : net.allowsPrivate = false) (settings : Settings)
    (rawUrl : String) : ∀ t ∈ (fetchPublicHttpUrl net settings rawUrl).1, SafeTarget t := by
  unfold fetchPublicHttpUrl
  split
  · intro t ht
    cases ht
  next url hurl =>
    exact safeTarget_of_fetchHops hdoc hplain hswitch settings _ 0
      (hdoc.bracketed rawUrl url (parseUrl_of_parseHttpUrl hurl))

/-- **The outbound guard is as strict as the inbound one exactly for the plain spellings,** and
with plain answers no run sends to an address that is not public. -/
theorem guards_agree (t : Text) (net : Network) (settings : Settings) (rawUrl : String) :
    (isIP t ≠ 0 → '%' ∉ t →
      ((isPrivateOrReservedIp t = false → isPublicUnicastAddress t = true) ↔ PlainSpelling t)) ∧
    (net.Documented → net.allowsPrivate = false → net.PlainAnswers →
      ∀ t ∈ (fetchPublicHttpUrl net settings rawUrl).1, SafeTarget t) :=
  ⟨letThrough_iff, fun hdoc hswitch hplain =>
    safeTarget_of_fetchPublicHttpUrl hdoc hplain hswitch settings rawUrl⟩

/-- A URL with a name. -/
def exampleUrl : Url :=
  { protocol := "https:", hostname := "example.com".toList, href := "https://example.com/" }

/-- Every name has one address, and the first response is a redirect. -/
def networkOf (answer : String) : Network where
  parseUrl _ := some exampleUrl
  resolveUrl _ _ := some exampleUrl
  connectHost name := if name.head? = some '[' then name.tail.takeWhile (· != ']') else name
  allowsPrivate := false
  hop redirectCount :=
    { checked := fun name =>
        if name.head? = some '[' then .failed "ENOTFOUND" else .addresses [⟨answer.toList, 6⟩]
      connected := fun _ => .addresses [⟨answer.toList, 6⟩]
      family := .unset
      tries := [0]
      response := .ok
        { status := if redirectCount = 0 then 302 else 200, location := some "/latest" } }

/-- A caller without options. -/
def defaults : Settings :=
  { maxRedirects := none, errorPrefix := none, ownLookup := false, requireHttps := true }

theorem networkOf_documented {answer : String} (h : '%' ∉ answer.toList) :
    (networkOf answer).Documented where
  bracketed text url hurl := by
    cases hurl
    decide +kernel
  unbracketed _ hopen := if_neg hopen
  unresolved i name hname := ⟨"ENOTFOUND", if_pos hname⟩
  noZone i name list hlist x hx := by
    cases hlist
    rwa [List.mem_singleton.1 hx]

theorem guards_agree_example :
    PlainSpelling "::1".toList ∧
      ∀ t ∈ (fetchPublicHttpUrl (networkOf "2606:4700::1111") defaults "https://example.com/").1,
        SafeTarget t := by
  have h := guards_agree "::1".toList (networkOf "2606:4700::1111") defaults "https://example.com/"
  refine ⟨(h.1 (by decide +kernel) (by decide +kernel)).1 ?_,
    h.2 (networkOf_documented (by decide +kernel)) rfl ?_⟩
  · intro hthrough
    exact absurd hthrough (by decide +kernel)
  · intro i name list hlist x hx v hv
    cases hlist
    rw [List.mem_singleton.1 hx, show address "2606:4700::1111".toList =
      some (.v6 (0x26064700 * 2 ^ 96 + 0x1111)) by decide +kernel] at hv
    cases hv
    exact ⟨by decide +kernel, fun hle => absurd hle (by decide +kernel)⟩

/-- `::ffff:127.0.0.1` is no text that the guard knows. -/
theorem mapped_loopback_is_fetched :
    (¬ ∀ t, isIP t ≠ 0 → '%' ∉ t →
      isPrivateOrReservedIp t = false → isPublicUnicastAddress t = true) ∧
    ¬ ∀ (net : Network) (settings : Settings) (rawUrl : String), net.Documented →
      net.allowsPrivate = false → ∀ t ∈ (fetchPublicHttpUrl net settings rawUrl).1,
        SafeTarget t := by
  constructor
  · intro h
    exact absurd (h "::ffff:127.0.0.1".toList (by decide +kernel) (by decide +kernel)
      (by decide +kernel)) (by decide +kernel)
  · intro h
    have hsafe := h (networkOf "::ffff:127.0.0.1") defaults "https://example.com/"
      (networkOf_documented (by decide +kernel)) rfl "::ffff:127.0.0.1".toList (by decide +kernel)
    exact absurd hsafe.1 (by decide +kernel)

end ChordV.Api.RemoteUrls
