import SilenceWatch.Auth.Network
import SilenceWatch.Library.BlockList
import SilenceWatch.Library.Json

/-!
# Outgoing requests to the URLs of users

The addresses that a request may be sent to: those that are named in the URL are checked
before anything is opened, those that a name resolves to inside the lookup that the
connection uses.
-/

namespace SilenceWatch

open Ip (Address BlockList Subnet)
open Json (Units units)

section Addresses

/-- An octet as `node:net` reads it: decimal, without leading zeros. -/
def isNodeOctet (octet : List Char) : Bool :=
  isOctet octet && (octet.length = 1 || octet.head? ≠ some '0')

/-- `isIPv4` of `node:net`, with the number of the address. -/
def nodeIPv4? (address : List Char) : Option ℕ :=
  let octets := address.splitOn '.'
  if octets.length = 4 ∧ octets.all isNodeOctet then
    some (octets.foldl (fun n octet => 256 * n + digitsValue octet) 0)
  else none

/-- The groups of the pieces between colons, of which the last may be dotted. -/
def groupValues? : List (List Char) → Option (List ℕ)
  | [] => some []
  | [piece] =>
    if isHextet piece then some [Numeral.value 16 piece]
    else (nodeIPv4? piece).map fun n => [n / 2 ^ 16, n % 2 ^ 16]
  | piece :: rest =>
    if isHextet piece then (groupValues? rest).map (Numeral.value 16 piece :: ·) else none

/-- The number of an address of eight groups. -/
def ofGroups (groups : List ℕ) : ℕ := groups.foldl (fun n group => 2 ^ 16 * n + group) 0

/-- An address without a zone. -/
def groups? (address : List Char) : Option (List ℕ) :=
  match splitDoubleColon address with
  | [whole] => (groupValues? (groupsOf whole)).filter (·.length = 8)
  | [head, tail] =>
    if (groupsOf head).all isHextet then
      ((groupValues? (groupsOf tail)).filter fun groups =>
        (groupsOf head).length + groups.length ≤ 7).map fun groups =>
          (groupsOf head).map (Numeral.value 16) ++
            List.replicate (8 - (groupsOf head).length - groups.length) 0 ++ groups
    else none
  | _ => none

/-- A character of a zone. -/
def isZoneChar (c : Char) : Bool := c.isAlphanum || ['-', '.', ':'].contains c

/-- `isIPv6` of `node:net`, with the number of the address. -/
def nodeIPv6? (address : List Char) : Option ℕ :=
  let zone := address.dropWhile (· ≠ '%')
  if zone = [] ∨ (2 ≤ zone.length ∧ zone.tail.all isZoneChar) then
    (groups? (address.takeWhile (· ≠ '%'))).map ofGroups
  else none

/-- `isIP` of `node:net`. -/
def isIP (address : List Char) : Bool := (nodeIPv4? address).isSome || (nodeIPv6? address).isSome

/-- The family of a subnet. -/
inductive Family
  | ipv4
  | ipv6

/-- `addSubnet`. -/
def addSubnet (list : BlockList) (network : String) (bits : ℕ) : Family → BlockList
  | .ipv4 => list ++ ((nodeIPv4? network.toList).map fun n => Subnet.mk (.v4 n) bits).toList
  | .ipv6 => list ++ ((nodeIPv6? network.toList).map fun n => Subnet.mk (.v6 n) bits).toList

/-- `buildBlockList`. -/
def buildBlockList : BlockList :=
  [("0.0.0.0", 8, Family.ipv4), ("10.0.0.0", 8, .ipv4), ("100.64.0.0", 10, .ipv4),
    ("127.0.0.0", 8, .ipv4), ("169.254.0.0", 16, .ipv4), ("172.16.0.0", 12, .ipv4),
    ("192.0.0.0", 24, .ipv4), ("192.0.2.0", 24, .ipv4), ("192.88.99.0", 24, .ipv4),
    ("192.168.0.0", 16, .ipv4), ("198.18.0.0", 15, .ipv4), ("198.51.100.0", 24, .ipv4),
    ("203.0.113.0", 24, .ipv4), ("224.0.0.0", 4, .ipv4), ("240.0.0.0", 4, .ipv4),
    -- IPv4-compatible, the unspecified address and loopback
    ("::", 96, .ipv6),
    -- NAT64
    ("64:ff9b::", 96, .ipv6), ("64:ff9b:1::", 48, .ipv6),
    ("100::", 64, .ipv6),
    -- Teredo and 6to4
    ("2001::", 32, .ipv6), ("2002::", 16, .ipv6),
    ("2001:db8::", 32, .ipv6), ("fc00::", 7, .ipv6), ("fec0::", 10, .ipv6), ("fe80::", 10, .ipv6),
    ("ff00::", 8, .ipv6)].foldl
      (fun list subnet => addSubnet list subnet.1 subnet.2.1 subnet.2.2) []

variable {address text piece rest : List Char} {pieces : List (List Char)} {groups : List ℕ} {n : ℕ}

/-- An IPv4 address has digits and dots only, and a number of thirty-two bits. -/
theorem nodeIPv4?_spec (h : nodeIPv4? text = some n) :
    (∀ c ∈ text, c.isDigit = true ∨ c = '.') ∧ n < 2 ^ 32 := by
  unfold nodeIPv4? at h
  dsimp only at h
  split_ifs at h with hquad
  obtain ⟨hlength, hoctets⟩ := hquad
  have hoctet : ∀ octet ∈ text.splitOn '.', octet.all Char.isDigit = true ∧
      digitsValue octet ≤ 255 := by
    intro octet hoctet
    have hnode := List.all_eq_true.mp hoctets octet hoctet
    rw [isNodeOctet, isOctet, Bool.and_eq_true, Bool.and_eq_true, Bool.and_eq_true] at hnode
    exact ⟨hnode.1.1.2, of_decide_eq_true hnode.1.2⟩
  refine ⟨isDigit_or_dot fun octet h => (hoctet octet h).1, ?_⟩
  obtain ⟨a, b, c, d, hsplit⟩ : ∃ a b c d, text.splitOn '.' = [a, b, c, d] :=
    List.length_eq_four.mp hlength
  rw [hsplit] at h hoctet
  have ha := (hoctet a (by simp)).2
  have hb := (hoctet b (by simp)).2
  have hc := (hoctet c (by simp)).2
  have hd := (hoctet d (by simp)).2
  simp only [List.foldl_cons, List.foldl_nil, Option.some.injEq] at h
  omega

/-- An IPv4 address has no colon. -/
theorem colon_notMem_of_nodeIPv4? (h : nodeIPv4? text = some n) : ':' ∉ text := by
  intro hmem
  rcases (nodeIPv4?_spec h).1 ':' hmem with hdigit | hdot
  · exact absurd hdigit (by decide)
  · exact absurd hdot (by decide)

theorem groupValues?_cons_cons (piece next : List Char) (pieces : List (List Char)) :
    groupValues? (piece :: next :: pieces) =
      if isHextet piece then (groupValues? (next :: pieces)).map (Numeral.value 16 piece :: ·)
      else none := rfl

/-- Every piece stands for a group, but for a dotted one, which stands for two. -/
theorem length_groupValues?_le (h : groupValues? pieces = some groups) :
    groups.length ≤ pieces.length + 1 := by
  induction pieces generalizing groups with
  | nil => cases h; simp
  | cons piece pieces ih =>
    cases pieces with
    | nil =>
      rw [groupValues?] at h
      split_ifs at h
      · cases h; simp
      · obtain ⟨n, -, rfl⟩ := Option.map_eq_some_iff.mp h
        simp
    | cons next pieces =>
      rw [groupValues?_cons_cons] at h
      split_ifs at h
      obtain ⟨later, hlater, rfl⟩ := Option.map_eq_some_iff.mp h
      have hle := ih hlater
      simp only [List.length_cons] at hle ⊢
      omega

/-- A text without colons is no IPv6 address. -/
theorem nodeIPv6?_of_colon_notMem (h : ':' ∉ text) : nodeIPv6? text = none := by
  have hpart : ':' ∉ text.takeWhile (· ≠ '%') := fun hmem =>
    h ((List.takeWhile_sublist _).subset hmem)
  have hwhole : splitDoubleColon (text.takeWhile (· ≠ '%')) = [text.takeWhile (· ≠ '%')] := by
    have happend := splitDoubleColon_append hpart []
    rw [List.append_nil] at happend
    rw [happend]
    simp [splitDoubleColon]
  have hshort : (groupsOf (text.takeWhile (· ≠ '%'))).length ≤ 1 := by
    unfold groupsOf
    split_ifs
    · simp
    · rw [List.splitOn_eq_singleton hpart, List.length_singleton]
  have hnone : groups? (text.takeWhile (· ≠ '%')) = none := by
    simp only [groups?, hwhole]
    rw [Option.filter_eq_none_iff]
    intro groups hgroups hlength
    have hle := length_groupValues?_le hgroups
    have hlength := of_decide_eq_true hlength
    omega
  simp only [nodeIPv6?, hnone, Option.map_none, ite_self]

section Characters

theorem isZoneChar_of_isHexDigit {c : Char} (h : Numeral.isHexDigit c = true) : isZoneChar c = true :=
  forall_ascii (P := fun c => Numeral.isHexDigit c = true → isZoneChar c = true) (by decide +kernel)
    (toNat_lt_of_isHexDigit h) h

theorem isZoneChar_of_isDigit_or_dot {c : Char} (h : c.isDigit = true ∨ c = '.') :
    isZoneChar c = true := by
  rcases h with hdigit | rfl
  · simp [isZoneChar, Char.isAlphanum, hdigit]
  · rfl

theorem isZoneChar_of_isHextet (h : isHextet piece = true) : ∀ c ∈ piece, isZoneChar c = true := by
  rw [isHextet, Bool.and_eq_true, List.all_eq_true] at h
  exact fun c hc => isZoneChar_of_isHexDigit (h.2 c hc)

theorem isZoneChar_of_groupValues? (h : groupValues? pieces = some groups) :
    ∀ piece ∈ pieces, ∀ c ∈ piece, isZoneChar c = true := by
  induction pieces generalizing groups with
  | nil => simp
  | cons piece pieces ih =>
    cases pieces with
    | nil =>
      rw [groupValues?] at h
      simp only [List.mem_singleton, forall_eq]
      split_ifs at h with hpiece
      · exact isZoneChar_of_isHextet hpiece
      · obtain ⟨n, hn, -⟩ := Option.map_eq_some_iff.mp h
        exact fun c hc => isZoneChar_of_isDigit_or_dot ((nodeIPv4?_spec hn).1 c hc)
    | cons next pieces =>
      rw [groupValues?_cons_cons] at h
      split_ifs at h with hpiece
      obtain ⟨later, hlater, -⟩ := Option.map_eq_some_iff.mp h
      exact List.forall_mem_cons.mpr ⟨isZoneChar_of_isHextet hpiece, ih hlater⟩

/-- The pieces of an address. -/
theorem isZoneChar_of_groups? (h : (groups? text).isSome = true) {half : List Char}
    (hhalf : half ∈ splitDoubleColon text) (hpiece : piece ∈ groupsOf half) :
    ∀ c ∈ piece, isZoneChar c = true := by
  obtain ⟨groups, hgroups⟩ := Option.isSome_iff_exists.mp h
  unfold groups? at hgroups
  split at hgroups
  · next whole hsplit =>
    rw [hsplit, List.mem_singleton] at hhalf
    obtain ⟨hvalues, -⟩ := Option.filter_eq_some_iff.mp hgroups
    rw [hhalf] at hpiece
    exact isZoneChar_of_groupValues? hvalues piece hpiece
  · next head tail hsplit =>
    split_ifs at hgroups with hhead
    obtain ⟨later, hlater, -⟩ := Option.map_eq_some_iff.mp hgroups
    obtain ⟨hvalues, -⟩ := Option.filter_eq_some_iff.mp hlater
    rw [hsplit, List.mem_cons, List.mem_singleton] at hhalf
    rcases hhalf with rfl | rfl
    · exact isZoneChar_of_isHextet (List.all_eq_true.mp hhead piece hpiece)
    · exact isZoneChar_of_groupValues? hvalues piece hpiece
  · cases hgroups

theorem splitDoubleColon_ne_nil (text : List Char) : splitDoubleColon text ≠ [] := by
  fun_induction splitDoubleColon text with
  | case1 => simp
  | case2 => simp
  | case3 => simp
  | case4 c d rest _ ih => simpa [List.modifyHead_eq_nil_iff] using ih

/-- What is split at `::` and then at colons is there in one of the pieces. -/
theorem exists_mem_splitDoubleColon {c : Char} (hc : c ∈ text) (hcolon : c ≠ ':') :
    ∃ half ∈ splitDoubleColon text, ∃ piece ∈ groupsOf half, c ∈ piece := by
  suffices hhalf : ∃ half ∈ splitDoubleColon text, c ∈ half by
    obtain ⟨half, hmem, hc⟩ := hhalf
    refine ⟨half, hmem, ?_⟩
    have hjoin : [':'].intercalate (half.splitOn ':') = half := List.intercalate_splitOn ':'
    rw [← hjoin] at hc
    rcases mem_intercalate hc with h | hpiece
    · exact absurd h hcolon
    · rwa [groupsOf, if_neg]
      rintro rfl
      obtain ⟨piece, hpiece, hc⟩ := hpiece
      rw [List.splitOn_nil, List.mem_singleton] at hpiece
      rw [hpiece] at hc
      cases hc
  induction text using splitDoubleColon.induct with
  | case1 => cases hc
  | case2 d => exact ⟨[d], by simp [splitDoubleColon], hc⟩
  | case3 d e rest hcolons ih =>
    have hrest : c ∈ rest := by
      rcases List.mem_cons.mp hc with rfl | hc
      · exact absurd hcolons.1 hcolon
      · rcases List.mem_cons.mp hc with rfl | hc
        · exact absurd hcolons.2 hcolon
        · exact hc
    obtain ⟨half, hmem, hhalf⟩ := ih hrest
    exact ⟨half, by simp [splitDoubleColon, hcolons, hmem], hhalf⟩
  | case4 d e rest hcolons ih =>
    rw [splitDoubleColon, if_neg hcolons]
    cases hsplit : splitDoubleColon (e :: rest) with
    | nil => exact absurd hsplit (splitDoubleColon_ne_nil _)
    | cons half halves =>
      rw [List.modifyHead_cons]
      rcases List.mem_cons.mp hc with rfl | hrest
      · exact ⟨c :: half, List.mem_cons_self, List.mem_cons_self⟩
      · obtain ⟨half', hmem, hhalf⟩ := ih hrest
        rw [hsplit] at hmem
        rcases List.mem_cons.mp hmem with rfl | hlater
        · exact ⟨d :: half', List.mem_cons_self, List.mem_cons_of_mem _ hhalf⟩
        · exact ⟨half', List.mem_cons_of_mem _ hlater, hhalf⟩

/-- The characters of a zone, and the sign before it. -/
theorem isZoneChar_or_of_zone {c : Char}
    (hzone : text.dropWhile (· ≠ '%') = [] ∨
      2 ≤ (text.dropWhile (· ≠ '%')).length ∧
        (text.dropWhile (· ≠ '%')).tail.all isZoneChar = true)
    (hc : c ∈ text.dropWhile (· ≠ '%')) : isZoneChar c = true ∨ c = '%' := by
  have hhead := List.head?_dropWhile_not (p := (· ≠ '%')) text
  cases hdrop : text.dropWhile (· ≠ '%') with
  | nil =>
    rw [hdrop] at hc
    cases hc
  | cons mark tail =>
    rw [hdrop] at hc hzone hhead
    rcases List.mem_cons.mp hc with rfl | hmem
    · exact Or.inr (by simpa using hhead)
    · rcases hzone with hnil | ⟨-, htail⟩
      · cases hnil
      · exact Or.inl (List.all_eq_true.mp htail c hmem)

/-- An address has no brackets. -/
theorem isZoneChar_or_of_isIP (h : isIP text = true) :
    ∀ c ∈ text, isZoneChar c = true ∨ c = '%' := by
  intro c hc
  rw [isIP, Bool.or_eq_true] at h
  rcases h with hv4 | hv6
  · obtain ⟨n, hn⟩ := Option.isSome_iff_exists.mp hv4
    exact Or.inl (isZoneChar_of_isDigit_or_dot ((nodeIPv4?_spec hn).1 c hc))
  · unfold nodeIPv6? at hv6
    dsimp only at hv6
    split_ifs at hv6 with hzone
    · rw [Option.isSome_map] at hv6
      rw [← List.takeWhile_append_dropWhile (p := (· ≠ '%')) (l := text)] at hc
      rcases List.mem_append.mp hc with hpart | hzoned
      · left
        by_cases hcolon : c = ':'
        · rw [hcolon]
          rfl
        · obtain ⟨half, hhalf, piece, hpiece, hmem⟩ := exists_mem_splitDoubleColon hpart hcolon
          exact isZoneChar_of_groups? hv6 hhalf hpiece c hmem
      · exact isZoneChar_or_of_zone hzone hzoned
    · cases hv6

end Characters

/-- The group of an IPv4-mapped address. -/
theorem value_ffff {group : List Char} (h : group.map Char.toLower = ['f', 'f', 'f', 'f']) :
    isHextet group = true ∧ Numeral.value 16 group = 0xffff := by
  have hdigit : ∀ c ∈ group, Numeral.isHexDigit c = true := by
    intro c hc
    have hlower : c.toLower = 'f' := by
      have hmem := List.mem_map_of_mem (f := Char.toLower) hc
      rw [h] at hmem
      simpa using hmem
    exact forall_ascii (P := fun c => c.toLower = 'f' → Numeral.isHexDigit c = true) (by decide +kernel)
      (toNat_lt_of_toLower (hlower ▸ by decide)) hlower
  refine ⟨?_, ?_⟩
  · have hlength := congrArg List.length h
    rw [List.length_map] at hlength
    simpa [isHextet, hlength] using hdigit
  · rw [← Numeral.value_map_toLower (le_refl 16) fun c hc =>
      (isDigit_of_isHexDigit (hdigit c hc)).1, h]
    rfl

theorem ofGroups_mapped (n : ℕ) :
    ofGroups [0, 0, 0, 0, 0, 0xffff, n / 2 ^ 16, n % 2 ^ 16] = Ip.mapped n := by
  simp only [ofGroups, List.foldl_cons, List.foldl_nil, Ip.mapped]
  omega

/-- **What the pattern captures** of an address is the IPv4 address that it maps. -/
theorem nodeIPv6?_of_mapped? (h : mapped? text = some rest) :
    nodeIPv6? text = (nodeIPv4? rest).map Ip.mapped := by
  obtain ⟨hdot, hrest⟩ := isDigit_or_dot_of_mapped? h
  obtain ⟨group, htext, hgroup, hcolon, hcolon'⟩ := mapped?_eq_some h
  obtain ⟨hhextet, hvalue⟩ := value_ffff hgroup
  have hgroupne : group ≠ [] := by
    rintro rfl
    cases hgroup
  have hpieces : ∀ piece ∈ [group, rest], piece ≠ [] ∧ ':' ∉ piece := by
    simp [hgroupne, hcolon, List.ne_nil_of_mem hdot, hcolon']
  have hjoin : group ++ ':' :: rest = [':'].intercalate [group, rest] := by
    rw [List.intercalate_cons_cons, List.intercalate_singleton]
    simp
  have hplain : ∀ c ∈ text, c ≠ '%' := by
    rw [htext]
    rintro c hc rfl
    simp only [List.mem_cons, List.mem_append] at hc
    rcases hc with hc | hc | hc | hc | hc
    · cases hc
    · cases hc
    · exact absurd (isZoneChar_of_isHextet hhextet '%' hc) (by decide)
    · cases hc
    · exact absurd (isZoneChar_of_isDigit_or_dot (hrest '%' hc)) (by decide)
  have hpart : text.takeWhile (· ≠ '%') = text := by
    rw [List.takeWhile_eq_self_iff]
    exact fun c hc => decide_eq_true (hplain c hc)
  have hzone : text.dropWhile (· ≠ '%') = [] := by
    rw [List.dropWhile_eq_nil_iff]
    exact fun c hc => decide_eq_true (hplain c hc)
  have hsplit : splitDoubleColon text = [[], [':'].intercalate [group, rest]] := by
    have hhalf := splitDoubleColon_join hpieces []
    rw [List.append_nil] at hhalf
    rw [htext, hjoin, splitDoubleColon, if_pos ⟨rfl, rfl⟩, hhalf]
    simp [splitDoubleColon]
  have hquad : isHextet rest = false := by
    rw [Bool.eq_false_iff]
    intro hall
    rw [isHextet, Bool.and_eq_true, List.all_eq_true] at hall
    exact absurd (hall.2 '.' hdot) (by decide)
  simp only [nodeIPv6?, hpart, hzone, true_or, if_true, groups?, hsplit, groupsOf_join hpieces,
    groupValues?, hhextet, hquad, hvalue]
  cases nodeIPv4? rest with
  | none => rfl
  | some n => exact congrArg some (ofGroups_mapped n)

end Addresses

/-- What `new URL` makes of a text. -/
structure Url where
  protocol : String
  username : String
  password : String
  hostname : String
  port : String
  pathname : String
  search : String

/-- The options of `send`. -/
structure SendOptions where
  url : String
  method : Option String
  body : Option String
  contentType : Option String
  headers : List (String × String)
  timeoutMs : Option ℕ

/-- The request that is handed to `node:http` or `node:https`. Of two headers of one name the
later one counts. -/
structure HttpRequest where
  protocol : String
  hostname : String
  port : Option ℕ
  path : String
  method : String
  headers : List (String × String)
  timeout : ℕ

/-- An address as a resolver returns it. -/
structure LookupAddress where
  address : List Char
  family : ℕ

/-- What `lookup` calls back with. -/
inductive LookupResult
  | failed (message : String)
  | one (address : List Char) (family : ℕ)
  | all (addresses : List LookupAddress)

/-- The addresses that a connection may be opened to. -/
def LookupResult.addresses : LookupResult → List (List Char)
  | .failed _ => []
  | .one address _ => [address]
  | .all addresses => addresses.map LookupAddress.address

/-- `SafeHttpService`: what it reads of the configuration, and `new URL`. -/
structure SafeHttpService where
  allowPrivateNotificationTargets : Bool
  notificationTimeoutMs : ℕ
  newUrl : String → Option Url

namespace SafeHttpService

variable (service : SafeHttpService)

/-- `isAllowedAddress`. -/
def isAllowedAddress (address : List Char) : Bool :=
  if service.allowPrivateNotificationTargets then true
  else
    let candidate := (mapped? address).getD address
    match nodeIPv4? candidate with
    | some n => !buildBlockList.check (.v4 n)
    | none =>
      match nodeIPv6? candidate with
      | some n => !buildBlockList.check (.v6 n)
      | none => false

/-- `hostname.replace(/^\[|\]$/g, '')`. -/
def stripBrackets (hostname : List Char) : List Char :=
  let opened := if hostname.head? = some '[' then hostname.tail else hostname
  if opened.getLast? = some ']' then opened.dropLast else opened

/-- `assertLiteralHostIsAllowed`. -/
def assertLiteralHostIsAllowed (url : Url) : Except String Unit :=
  let host := stripBrackets url.hostname.toList
  if isIP host ∧ ¬ service.isAllowedAddress host then
    .error (url.hostname ++ " is a private or reserved address; set " ++
      "ALLOW_PRIVATE_NOTIFICATION_TARGETS=true if this is intentional")
  else .ok ()

/-- `guardedLookup`, of what the resolver answers. -/
def guardedLookup (hostname : String) (wantsAll : Bool) :
    Except String (List LookupAddress) → LookupResult
  | .error message => .failed message
  | .ok addresses =>
    match addresses.filter (service.isAllowedAddress ·.address) with
    | [] => .failed (hostname ++ " resolves to a blocked address range")
    | first :: rest => if wantsAll then .all (first :: rest) else .one first.address first.family

/-- The request of `send`. -/
def request (url : Url) (options : SendOptions) : HttpRequest where
  protocol := url.protocol
  hostname := url.hostname
  port := if url.port = "" then none else url.port.toNat?
  path := url.pathname ++ url.search
  method := options.method.getD "POST"
  headers := [("user-agent", "SilenceWatch/1.0 (+https://silencewatch.com)"),
      ("accept", "application/json, text/plain;q=0.9, */*;q=0.8")] ++
    (match options.body with
    | none => []
    | some body => [("content-type", options.contentType.getD "application/json"),
        ("content-length", toString body.utf8ByteSize)]) ++
    options.headers
  timeout := options.timeoutMs.getD service.notificationTimeoutMs

/-- `send` up to its request. -/
def send (options : SendOptions) : Except String HttpRequest := do
  let url ← (service.newUrl options.url).elim (.error "Invalid URL") .ok
  if url.protocol ≠ "https:" ∧ url.protocol ≠ "http:" then
    throw ("unsupported protocol " ++ url.protocol)
  if url.username ≠ "" ∨ url.password ≠ "" then
    throw "URLs with embedded credentials are rejected"
  service.assertLiteralHostIsAllowed url
  return service.request url options

/-- `firstLine`. -/
def firstLine (text : Units) : Units :=
  let line := text.takeWhile (· ≠ 10)
  if line.length > 200 then line.take 200 ++ units ['…'] else line

/-- What `send` makes of a response, of whose text it has read the beginning. A redirect is an
error, and never followed. -/
def settle (status : ℕ) (text : Units) : Except Units (ℕ × Units) :=
  if 300 ≤ status ∧ status < 400 then
    .error (units ("redirect (" ++ toString status ++ ") not followed").toList)
  else if 200 ≤ status ∧ status < 300 then .ok (status, text)
  else
    .error (units ("HTTP " ++ toString status).toList ++
      if text = [] then [] else units [':', ' '] ++ firstLine text)

/-- An attempt of Node to open a connection: whether it asks for all addresses, and what the
resolver answers this time. -/
structure Attempt where
  wantsAll : Bool
  answer : Except String (List LookupAddress)

/-- The addresses that Node may connect to in an attempt: the host itself if it is one, else those that the
`lookup` of the request returns. -/
def targets (request : HttpRequest) (attempt : Attempt) : List (List Char) :=
  if isIP request.hostname.toList then [request.hostname.toList]
  else (service.guardedLookup request.hostname attempt.wantsAll attempt.answer).addresses

/-- The addresses that `send` may connect to, with these answers of the resolver. -/
def connections (options : SendOptions) (attempts : List Attempt) : List (List Char) :=
  match service.send options with
  | .error _ => []
  | .ok request => attempts.flatMap (service.targets request)

/-- The number of an IPv4 address lies in a blocked range. -/
def InBlockedRange (n : ℕ) : Prop :=
  ∃ network bits, ⟨.v4 network, bits⟩ ∈ buildBlockList ∧
    n / 2 ^ (32 - bits) = network / 2 ^ (32 - bits)

/-- An IPv6 address, by its number, carries an IPv4 address. -/
inductive Embeds (n : ℕ) : ℕ → Prop
  /-- IPv4-mapped, `::ffff:a.b.c.d`. -/
  | mapped : Embeds n (Ip.mapped n)
  /-- IPv4-compatible, `::a.b.c.d`. -/
  | compatible : Embeds n n
  /-- NAT64 with the well-known prefix, `64:ff9b::a.b.c.d`. -/
  | nat64 : Embeds n (0x0064ff9b * 2 ^ 96 + n)
  /-- NAT64 with a prefix for local use, of 48, 56, 64 or 96 bits. -/
  | nat64Local (rest : ℕ) (hrest : rest < 2 ^ 80)
      (h : n = rest / 2 ^ 64 * 2 ^ 16 + rest / 2 ^ 40 % 2 ^ 16 ∨
        n = rest / 2 ^ 64 % 2 ^ 8 * 2 ^ 24 + rest / 2 ^ 32 % 2 ^ 24 ∨
        n = rest / 2 ^ 24 % 2 ^ 32 ∨ n = rest % 2 ^ 32) :
      Embeds n (0x0064ff9b0001 * 2 ^ 80 + rest)
  /-- 6to4, `2002:aabb:ccdd::/48`. -/
  | sixToFour (rest : ℕ) (hrest : rest < 2 ^ 80) : Embeds n (0x2002 * 2 ^ 112 + n * 2 ^ 80 + rest)
  /-- Teredo, with the address of a client, of which all bits are inverted. -/
  | teredoClient (rest : ℕ) (hrest : rest < 2 ^ 64) :
      Embeds n (0x20010000 * 2 ^ 96 + rest * 2 ^ 32 + (2 ^ 32 - 1 - n))
  /-- Teredo, with the address of a server. -/
  | teredoServer (rest : ℕ) (hrest : rest < 2 ^ 64) :
      Embeds n (0x20010000 * 2 ^ 96 + n * 2 ^ 64 + rest)

section Blocked

variable {service : SafeHttpService} {address : List Char} {n v : ℕ}

/-- Addresses that carry an address of a blocked range are blocked. -/
theorem check_of_embeds (hn : n < 2 ^ 32) (hblocked : InBlockedRange n) (h : Embeds n v) :
    buildBlockList.check (.v6 v) = true := by
  cases h with
  | mapped =>
    obtain ⟨network, bits, hmem, hsame⟩ := hblocked
    rw [BlockList.check_mapped hn]
    exact BlockList.check_of_mem hmem (decide_eq_true hsame)
  | compatible =>
    have hmem : ⟨.v6 0, 96⟩ ∈ buildBlockList := by decide
    exact BlockList.check_of_div hmem (by omega)
  | nat64 =>
    have hmem : ⟨.v6 (0x0064ff9b * 2 ^ 96), 96⟩ ∈ buildBlockList := by decide
    exact BlockList.check_of_div hmem (by omega)
  | nat64Local rest hrest =>
    have hmem : ⟨.v6 (0x0064ff9b0001 * 2 ^ 80), 48⟩ ∈ buildBlockList := by decide
    exact BlockList.check_of_div hmem (by omega)
  | sixToFour rest hrest =>
    have hmem : ⟨.v6 (0x2002 * 2 ^ 112), 16⟩ ∈ buildBlockList := by decide
    exact BlockList.check_of_div hmem (by omega)
  | teredoClient rest hrest =>
    have hmem : ⟨.v6 (0x20010000 * 2 ^ 96), 32⟩ ∈ buildBlockList := by decide
    exact BlockList.check_of_div hmem (by omega)
  | teredoServer rest hrest =>
    have hmem : ⟨.v6 (0x20010000 * 2 ^ 96), 32⟩ ∈ buildBlockList := by decide
    exact BlockList.check_of_div hmem (by omega)

/-- An IPv4 address is allowed if its number is not blocked. -/
theorem isAllowedAddress_of_ipv4 (hprivate : service.allowPrivateNotificationTargets = false)
    (h : nodeIPv4? address = some n) :
    service.isAllowedAddress address = !buildBlockList.check (.v4 n) := by
  have hmapped := mapped?_of_colon_notMem (colon_notMem_of_nodeIPv4? h)
  simp [isAllowedAddress, hprivate, hmapped, h]

/-- **An IPv6 address is allowed if its number is not blocked**, however it is written. -/
theorem isAllowedAddress_of_ipv6 (hprivate : service.allowPrivateNotificationTargets = false)
    (h : nodeIPv6? address = some v) :
    service.isAllowedAddress address = !buildBlockList.check (.v6 v) := by
  cases hmapped : mapped? address with
  | none =>
    have hipv4 : nodeIPv4? address = none := by
      rw [Option.eq_none_iff_forall_ne_some]
      intro n hn
      rw [nodeIPv6?_of_colon_notMem (colon_notMem_of_nodeIPv4? hn)] at h
      cases h
    simp [isAllowedAddress, hprivate, hmapped, hipv4, h]
  | some quad =>
    rw [nodeIPv6?_of_mapped? hmapped] at h
    obtain ⟨n, hn, rfl⟩ := Option.map_eq_some_iff.mp h
    rw [BlockList.check_mapped (nodeIPv4?_spec hn).2]
    simp [isAllowedAddress, hprivate, hmapped, hn]

/-- What a request of `send` is made of. -/
theorem send_eq_ok {options : SendOptions} {request : HttpRequest}
    (h : service.send options = .ok request) :
    ∃ url, service.newUrl options.url = some url ∧
      service.assertLiteralHostIsAllowed url = .ok () ∧ request = service.request url options := by
  unfold send at h
  cases hurl : service.newUrl options.url with
  | none =>
    rw [hurl] at h
    cases h
  | some url =>
    rw [hurl] at h
    refine ⟨url, rfl, ?_⟩
    dsimp only [Option.elim_some, bind, Except.bind] at h
    split_ifs at h
    cases hassert : service.assertLiteralHostIsAllowed url with
    | error message =>
      rw [hassert] at h
      cases h
    | ok _ =>
      rw [hassert] at h
      exact ⟨rfl, (Except.ok.inj h).symm⟩

/-- The host of a URL that is an address has no brackets. -/
theorem stripBrackets_of_isIP {hostname : List Char} (h : isIP hostname = true) :
    stripBrackets hostname = hostname := by
  have hplain := isZoneChar_or_of_isIP h
  have hopen : hostname.head? ≠ some '[' := by
    intro hhead
    rcases hplain '[' (List.mem_of_mem_head? hhead) with hc | hc
    · exact absurd hc (by decide)
    · exact absurd hc (by decide)
  have hclose : hostname.getLast? ≠ some ']' := by
    intro hlast
    rcases hplain ']' (List.mem_of_mem_getLast? hlast) with hc | hc
    · exact absurd hc (by decide)
    · exact absurd hc (by decide)
  simp only [stripBrackets, if_neg hopen, if_neg hclose]

/-- What the guarded lookup returns is allowed. -/
theorem isAllowedAddress_of_guardedLookup {hostname : String} {wantsAll : Bool}
    {answer : Except String (List LookupAddress)}
    (h : address ∈ (service.guardedLookup hostname wantsAll answer).addresses) :
    service.isAllowedAddress address = true := by
  cases answer with
  | error message => cases h
  | ok addresses =>
    have hfiltered : ∀ entry ∈ addresses.filter (service.isAllowedAddress ·.address),
        service.isAllowedAddress entry.address = true :=
      fun entry hentry => (List.mem_filter.mp hentry).2
    unfold guardedLookup at h
    cases hallowed : addresses.filter (service.isAllowedAddress ·.address) with
    | nil =>
      simp only [hallowed] at h
      cases h
    | cons first rest =>
      rw [hallowed] at hfiltered
      simp only [hallowed] at h
      cases wantsAll with
      | true =>
        obtain ⟨entry, hentry, rfl⟩ := List.mem_map.mp h
        exact hfiltered entry hentry
      | false =>
        rw [List.mem_singleton.mp h]
        exact hfiltered first List.mem_cons_self

/-- **Connections** are opened to allowed addresses only. -/
theorem isAllowedAddress_of_connections {options : SendOptions} {attempts : List Attempt}
    (h : address ∈ service.connections options attempts) :
    service.isAllowedAddress address = true := by
  unfold connections at h
  cases hsend : service.send options with
  | error message =>
    rw [hsend] at h
    cases h
  | ok request =>
    rw [hsend] at h
    obtain ⟨attempt, -, htarget⟩ := List.mem_flatMap.mp h
    unfold targets at htarget
    split_ifs at htarget with hliteral
    · obtain ⟨url, -, hassert, rfl⟩ := send_eq_ok hsend
      rw [List.mem_singleton.mp htarget]
      change isIP url.hostname.toList = true at hliteral
      change service.isAllowedAddress url.hostname.toList = true
      by_contra hblocked
      rw [assertLiteralHostIsAllowed, stripBrackets_of_isIP hliteral, if_pos ⟨hliteral, hblocked⟩]
        at hassert
      cases hassert
    · exact isAllowedAddress_of_guardedLookup htarget

end Blocked

/-- **No request reaches a blocked address.** Unless private targets are allowed, every
connection goes to an allowed address, whatever the resolver answers in each attempt, and no
address of a blocked range is allowed, nor an IPv6 address that carries one. -/
theorem send_law (service : SafeHttpService)
    (hprivate : service.allowPrivateNotificationTargets = false) :
    (∀ options attempts, ∀ address ∈ service.connections options attempts,
      service.isAllowedAddress address = true) ∧
    (∀ address n, nodeIPv4? address = some n → InBlockedRange n →
      service.isAllowedAddress address = false) ∧
    ∀ address v n, nodeIPv6? address = some v → n < 2 ^ 32 → InBlockedRange n → Embeds n v →
      service.isAllowedAddress address = false := by
  refine ⟨fun options attempts address h => isAllowedAddress_of_connections h, ?_, ?_⟩
  · rintro address n hn ⟨network, bits, hmem, hsame⟩
    have hcheck : buildBlockList.check (.v4 n) = true :=
      BlockList.check_of_mem hmem (decide_eq_true hsame)
    rw [isAllowedAddress_of_ipv4 hprivate hn, hcheck]
    rfl
  · intro address v n hv hn hblocked hembeds
    rw [isAllowedAddress_of_ipv6 hprivate hv, check_of_embeds hn hblocked hembeds]
    rfl

/-- A service that reads URLs of one host, without paths. -/
def hooks : SafeHttpService where
  allowPrivateNotificationTargets := false
  notificationTimeoutMs := 10000
  newUrl url := some ⟨"https:", "", "", url, "", "/", ""⟩

/-- A name that resolves to a public address first and to that of the metadata service then is
connected to at the first one only. Neither spelling of the metadata service is allowed. -/
theorem send_law_rebinding :
    (∀ address ∈ hooks.connections ⟨"hooks.example.com", none, some "{}", none, [], none⟩
        [⟨true, .ok [⟨"93.184.216.34".toList, 4⟩, ⟨"10.0.0.1".toList, 4⟩]⟩,
          ⟨true, .ok [⟨"169.254.169.254".toList, 4⟩]⟩],
      address = "93.184.216.34".toList ∧ hooks.isAllowedAddress address = true) ∧
    hooks.isAllowedAddress "169.254.169.254".toList = false ∧
    hooks.isAllowedAddress "::FFFF:169.254.169.254".toList = false ∧
    hooks.isAllowedAddress "2002:a9fe:a9fe::1".toList = false := by
  have hmetadata : InBlockedRange 0xa9fea9fe :=
    ⟨0xa9fe0000, 16, by decide, by decide⟩
  refine ⟨fun address h => ⟨?_, (send_law hooks rfl).1 _ _ address h⟩,
    (send_law hooks rfl).2.1 _ 0xa9fea9fe (by decide) hmetadata,
    (send_law hooks rfl).2.2 _ _ 0xa9fea9fe (by decide) (by decide) hmetadata .mapped,
    (send_law hooks rfl).2.2 _ _ 0xa9fea9fe (by decide) (by decide) hmetadata
      (.sixToFour 1 (by decide))⟩
  have hconnections : hooks.connections ⟨"hooks.example.com", none, some "{}", none, [], none⟩
      [⟨true, .ok [⟨"93.184.216.34".toList, 4⟩, ⟨"10.0.0.1".toList, 4⟩]⟩,
        ⟨true, .ok [⟨"169.254.169.254".toList, 4⟩]⟩] = ["93.184.216.34".toList] := by
    decide
  rw [hconnections] at h
  exact List.mem_singleton.mp h

end SafeHttpService

end SilenceWatch
