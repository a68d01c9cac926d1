import SilenceWatch.Library.Numerals
import SilenceWatch.Schedule.CronSyntax

/-!
# Networks of sign-ups

`networkOf` and `addressOf`, which turn the text of a client address into the bucket that
the sign-up ceilings count in, beside what such a text denotes. The buckets of IPv6 texts
go by value. Those of IPv4 texts repeat the octets as they are written, and an IPv4-mapped
address is only recognised in one dotted spelling.
-/

namespace SilenceWatch

/-- `/^[0-9a-f]{1,4}$/i`. -/
def isHextet (group : List Char) : Bool :=
  group.length ≠ 0 && group.length ≤ 4 && group.all Numeral.isHexDigit

/-- `isIPv4`. -/
def isIPv4 (octets : List (List Char)) : Bool :=
  octets.length = 4 && octets.all fun octet => isNumber 3 octet && digitsValue octet ≤ 255

/-- `split('::')`. -/
def splitDoubleColon : List Char → List (List Char)
  | [] => [[]]
  | [c] => [[c]]
  | c :: d :: rest =>
    if c = ':' ∧ d = ':' then [] :: splitDoubleColon rest
    else (splitDoubleColon (d :: rest)).modifyHead (c :: ·)

/-- The groups of one half of an address, none if it is empty. -/
def groupsOf (half : List Char) : List (List Char) := if half = [] then [] else half.splitOn ':'

/-- The groups of an address in small letters and without leading zeros, if they are eight
and each is one. -/
def canonicalGroups (groups : List (List Char)) : Option (List (List Char)) :=
  if groups.length ≠ 8 then none
  else if groups.any fun group => !isHextet group then none
  else some (groups.map Numeral.canonical)

/-- `expandIPv6`. -/
def expandIPv6 (address : List Char) : Option (List (List Char)) :=
  match splitDoubleColon address with
  | [head] => canonicalGroups (groupsOf head)
  | [head, tail] =>
    canonicalGroups (groupsOf head ++
      List.replicate (8 - (groupsOf head).length - (groupsOf tail).length) ['0'] ++ groupsOf tail)
  | _ => none

/-- What `/^::ffff:(\d+\.\d+\.\d+\.\d+)$/i` captures. -/
def mapped? (ip : List Char) : Option (List Char) :=
  let quad := (ip.drop 7).splitOn '.'
  if (ip.take 7).map Char.toLower = [':', ':', 'f', 'f', 'f', 'f', ':'] ∧ quad.length = 4 ∧
      quad.all (fun octet => octet.length ≠ 0 && octet.all Char.isDigit) then
    some (ip.drop 7)
  else none

/-- The bucket of what cannot be read. -/
def unknownNetwork : List Char := "unknown".toList

/-- `networkOf`: the /24 of an IPv4 address, the /48 of an IPv6 one. -/
def networkOf : Option (List Char) → List Char
  | none => unknownNetwork
  | some [] => unknownNetwork
  | some ip =>
    let address := (mapped? ip).getD ip
    if ':' ∈ address then
      match expandIPv6 address with
      | none => unknownNetwork
      | some groups => [':'].intercalate (groups.take 3) ++ "::/48".toList
    else if isIPv4 (address.splitOn '.') then
      ['.'].intercalate ((address.splitOn '.').take 3) ++ ".0/24".toList
    else unknownNetwork

/-- `addressOf`: an IPv4 address, the /64 of an IPv6 one. -/
def addressOf : Option (List Char) → List Char
  | none => unknownNetwork
  | some [] => unknownNetwork
  | some ip =>
    let address := (mapped? ip).getD ip
    if ':' ∈ address then
      match expandIPv6 address with
      | none => unknownNetwork
      | some groups => [':'].intercalate (groups.take 4) ++ "::/64".toList
    else if isIPv4 (address.splitOn '.') then address
    else unknownNetwork

/-- The text is a decimal number up to 255, leading zeros allowed. -/
def isOctet (digits : List Char) : Bool :=
  digits.length ≠ 0 && digits.all Char.isDigit && digitsValue digits ≤ 255

/-- An octet as it is written, in decimal. -/
structure Octet where
  digits : List Char
  valid : isOctet digits = true

/-- A group of sixteen bits as it is written, in hexadecimal. -/
structure Hextet where
  digits : List Char
  valid : isHextet digits = true

/-- The value of a group. -/
def Hextet.value (group : Hextet) : ℕ := Numeral.value 16 group.digits

/-- Four octets with dots between them. -/
structure DottedQuad where
  first : Octet
  second : Octet
  third : Octet
  fourth : Octet

namespace DottedQuad

/-- The octets as they are written. -/
def digits (quad : DottedQuad) : List (List Char) :=
  [quad.first.digits, quad.second.digits, quad.third.digits, quad.fourth.digits]

def text (quad : DottedQuad) : List Char := ['.'].intercalate quad.digits

/-- The two groups the octets stand for in an IPv6 address. -/
def groups (quad : DottedQuad) : List ℕ :=
  [digitsValue quad.first.digits * 256 + digitsValue quad.second.digits,
    digitsValue quad.third.digits * 256 + digitsValue quad.fourth.digits]

end DottedQuad

/-- A spelling of an IPv6 address: the groups, those left out for `::` if there is one, and
the last two in dotted form or not. -/
structure IPv6Spelling where
  head : List Hextet
  /-- The groups after `::`. -/
  tail : Option (List Hextet)
  quad : Option DottedQuad
  /-- There are eight groups; `::` stands for those that are missing. -/
  fits : match tail with
    | none => head.length + 2 * quad.toList.length = 8
    | some tail => head.length + tail.length + 2 * quad.toList.length ≤ 8

namespace IPv6Spelling

def text (spelling : IPv6Spelling) : List Char :=
  let quad := spelling.quad.toList.map DottedQuad.text
  match spelling.tail with
  | none => [':'].intercalate (spelling.head.map Hextet.digits ++ quad)
  | some tail =>
    [':'].intercalate (spelling.head.map Hextet.digits) ++ [':', ':'] ++
      [':'].intercalate (tail.map Hextet.digits ++ quad)

/-- The values of the eight groups. -/
def groups (spelling : IPv6Spelling) : List ℕ :=
  let quad := spelling.quad.toList.flatMap DottedQuad.groups
  match spelling.tail with
  | none => spelling.head.map Hextet.value ++ quad
  | some tail =>
    spelling.head.map Hextet.value ++
      List.replicate (8 - spelling.head.length - tail.length - quad.length) 0 ++
      tail.map Hextet.value ++ quad

/-- The groups as they are written, a zero for each one left out. -/
def written (spelling : IPv6Spelling) : List (List Char) :=
  let quad := spelling.quad.toList.map DottedQuad.text
  match spelling.tail with
  | none => spelling.head.map Hextet.digits ++ quad
  | some tail =>
    spelling.head.map Hextet.digits ++
      List.replicate (8 - spelling.head.length - (tail.length + quad.length)) ['0'] ++
      (tail.map Hextet.digits ++ quad)

end IPv6Spelling

/-- A spelling of an IP address. -/
inductive Spelling where
  | ipv4 (quad : DottedQuad)
  | ipv6 (spelling : IPv6Spelling)

/-- An IP address, by its numbers. -/
inductive IpAddress where
  | v4 (first second third fourth : ℕ)
  | v6 (groups : List ℕ)
  deriving DecidableEq

/-- The /24 of an IPv4 address, the /48 of an IPv6 one. -/
inductive IpNetwork where
  | v4 (first second third : ℕ)
  | v6 (groups : List ℕ)
  deriving DecidableEq

def IpAddress.network : IpAddress → IpNetwork
  | .v4 first second third _ => .v4 first second third
  | .v6 groups => .v6 (groups.take 3)

/-- The address of eight groups, where an IPv4-mapped one is its IPv4 address. -/
def IpAddress.ofGroups : List ℕ → IpAddress
  | [0, 0, 0, 0, 0, 0xffff, high, low] => .v4 (high / 256) (high % 256) (low / 256) (low % 256)
  | groups => .v6 groups

/-- The address of four octets, read in decimal. -/
def DottedQuad.address (quad : DottedQuad) : IpAddress :=
  .v4 (digitsValue quad.first.digits) (digitsValue quad.second.digits)
    (digitsValue quad.third.digits) (digitsValue quad.fourth.digits)

namespace Spelling

def text : Spelling → List Char
  | .ipv4 quad => quad.text
  | .ipv6 spelling => spelling.text

/-- What a spelling denotes. -/
def address : Spelling → IpAddress
  | .ipv4 quad => quad.address
  | .ipv6 spelling => .ofGroups spelling.groups

/-- The dotted part of a spelling. -/
def quad? : Spelling → Option DottedQuad
  | .ipv4 quad => some quad
  | .ipv6 spelling => spelling.quad

/-- A spelling in groups only, whose first 48 bits are zero. -/
def LowGroups : Spelling → Prop
  | .ipv4 _ => False
  | .ipv6 spelling => spelling.quad = none ∧ spelling.groups.take 3 = [0, 0, 0]

instance : ∀ p : Spelling, Decidable p.LowGroups
  | .ipv4 _ => inferInstanceAs (Decidable False)
  | .ipv6 _ => inferInstanceAs (Decidable (_ ∧ _))

/-- The buckets of two spellings go by what they denote. -/
def GoByAddress (p q : Spelling) : Prop :=
  (p.address = q.address →
      networkOf (some p.text) = networkOf (some q.text) ∧
        addressOf (some p.text) = addressOf (some q.text)) ∧
    (p.address.network ≠ q.address.network → networkOf (some p.text) ≠ networkOf (some q.text))
  deriving Decidable

/-- Two spellings of one address are both in groups, or both dotted with as many digits for
each octet; and two spellings in groups, of low addresses, are of one network, so that no
IPv4-mapped address is among them that the other is not a neighbour of. -/
def Alike (p q : Spelling) : Prop :=
  (p.address = q.address → p.quad?.map (·.digits.map List.length) =
      q.quad?.map (·.digits.map List.length)) ∧
    (p.LowGroups → q.LowGroups → p.address.network = q.address.network)
  deriving Decidable

end Spelling

section Texts

variable {c : Char} {piece rest group : List Char} {pieces pieces' : List (List Char)}

theorem toNat_lt_of_isHexDigit (h : Numeral.isHexDigit c = true) : c.toNat < 128 := by
  simp only [Numeral.isHexDigit, Char.isDigit, Bool.or_eq_true, Bool.and_eq_true, decide_eq_true_eq,
    Char.le_def, UInt32.le_iff_toNat_le, ge_iff_le] at h
  have hcode : c.toNat = c.val.toNat := rfl
  have hbounds : '9'.val.toNat = 57 ∧ 'f'.val.toNat = 102 ∧ 'F'.val.toNat = 70 := by decide
  omega

/-- A digit of a group is a hexadecimal digit, and none of the two separators. -/
theorem isDigit_of_isHexDigit (h : Numeral.isHexDigit c = true) :
    Numeral.IsDigit 16 c ∧ c ≠ ':' ∧ c ≠ '.' :=
  forall_ascii (P := fun c => Numeral.isHexDigit c = true →
    Numeral.IsDigit 16 c ∧ c ≠ ':' ∧ c ≠ '.') (by decide +kernel) (toNat_lt_of_isHexDigit h) h

/-- What is lowered to a character of these is one. -/
theorem toNat_lt_of_toLower (h : c.toLower.toNat < 128) : c.toNat < 128 := by
  by_contra hcode
  unfold Char.toLower at h
  rw [dif_neg] at h
  · exact hcode h
  · simp only [ge_iff_le, UInt32.le_iff_toNat_le, not_and_or]
    have hcode' : c.toNat = c.val.toNat := rfl
    have hbound : 'Z'.val.toNat = 90 := by decide
    omega

/-- Only a colon is lowered to one. -/
theorem eq_colon_of_toLower (h : c.toLower = ':') : c = ':' :=
  forall_ascii (P := fun c => c.toLower = ':' → c = ':') (by decide +kernel)
    (toNat_lt_of_toLower (h ▸ by decide)) h

theorem splitDoubleColon_cons (hc : c ≠ ':') (rest : List Char) :
    splitDoubleColon (c :: rest) = (splitDoubleColon rest).modifyHead (c :: ·) := by
  cases rest with
  | nil => rfl
  | cons d rest => simp [splitDoubleColon, hc]

theorem splitDoubleColon_colon {d : Char} (hd : d ≠ ':') (rest : List Char) :
    splitDoubleColon (':' :: d :: rest) =
      (splitDoubleColon (d :: rest)).modifyHead (':' :: ·) := by
  simp [splitDoubleColon, hd]

theorem splitDoubleColon_append (hpiece : ':' ∉ piece) (rest : List Char) :
    splitDoubleColon (piece ++ rest) = (splitDoubleColon rest).modifyHead (piece ++ ·) := by
  induction piece with
  | nil => cases hrest : splitDoubleColon rest <;> simp [hrest]
  | cons c piece ih =>
    rw [List.mem_cons, not_or] at hpiece
    rw [List.cons_append, splitDoubleColon_cons (Ne.symm hpiece.1), ih hpiece.2]
    cases splitDoubleColon rest <;> rfl

/-- Nonempty pieces without a colon, joined with single ones, are not split. -/
theorem splitDoubleColon_join (hpieces : ∀ piece ∈ pieces, piece ≠ [] ∧ ':' ∉ piece)
    (rest : List Char) :
    splitDoubleColon ([':'].intercalate pieces ++ rest) =
      (splitDoubleColon rest).modifyHead ([':'].intercalate pieces ++ ·) := by
  induction pieces with
  | nil => cases hrest : splitDoubleColon rest <;> simp [hrest]
  | cons piece pieces ih =>
    obtain ⟨⟨_, hpiece⟩, hrest⟩ := List.forall_mem_cons.mp hpieces
    cases pieces with
    | nil =>
      rw [List.intercalate_singleton]
      exact splitDoubleColon_append hpiece rest
    | cons next pieces =>
      have hjoin := ih hrest
      obtain ⟨⟨hne, hnext⟩, _⟩ := List.forall_mem_cons.mp hrest
      rw [List.intercalate_cons_cons, List.append_assoc, List.append_assoc,
        splitDoubleColon_append hpiece, List.singleton_append]
      obtain ⟨d, text, htext⟩ : ∃ d text, [':'].intercalate (next :: pieces) = d :: text ∧
          d ≠ ':' := by
        obtain ⟨d, next, rfl⟩ := List.exists_cons_of_ne_nil hne
        have hd : d ≠ ':' := fun h => hnext (h ▸ List.mem_cons_self)
        cases pieces with
        | nil => exact ⟨d, next, by rw [List.intercalate_singleton], hd⟩
        | cons later pieces => exact ⟨d, _, by rw [List.intercalate_cons_cons]; rfl, hd⟩
      rw [htext.1, List.cons_append, splitDoubleColon_colon htext.2, ← List.cons_append, ← htext.1,
        hjoin]
      cases splitDoubleColon rest <;> simp

/-- The groups of a half that is joined of nonempty pieces without a colon. -/
theorem groupsOf_join (hpieces : ∀ piece ∈ pieces, piece ≠ [] ∧ ':' ∉ piece) :
    groupsOf ([':'].intercalate pieces) = pieces := by
  cases pieces with
  | nil => rfl
  | cons piece pieces =>
    have hsplit := List.splitOn_intercalate ':' (fun piece hpiece => (hpieces piece hpiece).2)
      (List.cons_ne_nil piece pieces)
    have hne : [':'].intercalate (piece :: pieces) ≠ [] := by
      intro hnil
      rw [hnil, List.splitOn_nil] at hsplit
      exact (hpieces piece List.mem_cons_self).1 (List.cons.inj hsplit).1.symm
    rw [groupsOf, if_neg hne, hsplit]

/-- An address without `::`. -/
theorem expandIPv6_join (hpieces : ∀ piece ∈ pieces, piece ≠ [] ∧ ':' ∉ piece) :
    expandIPv6 ([':'].intercalate pieces) = canonicalGroups pieces := by
  have hsplit := splitDoubleColon_join hpieces []
  simp only [List.append_nil, splitDoubleColon, List.modifyHead_cons] at hsplit
  simp only [expandIPv6, hsplit, groupsOf_join hpieces]

/-- An address with `::`, which stands for the groups that are missing. -/
theorem expandIPv6_compressed (hpieces : ∀ piece ∈ pieces, piece ≠ [] ∧ ':' ∉ piece)
    (hpieces' : ∀ piece ∈ pieces', piece ≠ [] ∧ ':' ∉ piece) :
    expandIPv6 ([':'].intercalate pieces ++ [':', ':'] ++ [':'].intercalate pieces') =
      canonicalGroups
        (pieces ++ List.replicate (8 - pieces.length - pieces'.length) ['0'] ++ pieces') := by
  have htail := splitDoubleColon_join hpieces' []
  simp only [List.append_nil, splitDoubleColon, List.modifyHead_cons] at htail
  have hsplit := splitDoubleColon_join hpieces ([':', ':'] ++ [':'].intercalate pieces')
  simp only [List.cons_append, List.nil_append, splitDoubleColon, and_self, if_true, htail,
    List.modifyHead_cons, List.append_nil] at hsplit
  rw [List.append_assoc, List.cons_append, List.singleton_append]
  simp only [expandIPv6, hsplit, groupsOf_join hpieces, groupsOf_join hpieces']

end Texts

/-- A group is a nonempty hexadecimal numeral without separators. -/
theorem Hextet.piece {group : List Char} (h : isHextet group = true) :
    group ≠ [] ∧ (∀ c ∈ group, Numeral.IsDigit 16 c) ∧ ':' ∉ group ∧ '.' ∉ group := by
  simp only [isHextet, Bool.and_eq_true, decide_eq_true_eq, List.all_eq_true, ne_eq,
    List.length_eq_zero_iff] at h
  obtain ⟨⟨hne, _⟩, hall⟩ := h
  have hdigit := fun c hc => isDigit_of_isHexDigit (hall c hc)
  exact ⟨hne, fun c hc => (hdigit c hc).1, fun hc => (hdigit _ hc).2.1 rfl,
    fun hc => (hdigit _ hc).2.2 rfl⟩

theorem Octet.isDigit (octet : Octet) : ∀ c ∈ octet.digits, c.isDigit = true := by
  have hvalid := octet.valid
  rw [isOctet, Bool.and_eq_true, Bool.and_eq_true] at hvalid
  exact List.all_eq_true.mp hvalid.1.2

theorem Octet.le (octet : Octet) : digitsValue octet.digits ≤ 255 := by
  have hvalid := octet.valid
  rw [isOctet, Bool.and_eq_true] at hvalid
  exact of_decide_eq_true hvalid.2

/-- An octet has no separators. -/
theorem Octet.notMem (octet : Octet) {c : Char} (hc : c.isDigit = false) : c ∉ octet.digits := by
  intro hmem
  rw [octet.isDigit c hmem] at hc
  cases hc

namespace DottedQuad

variable {quad : DottedQuad}

theorem notMem_of_mem_digits {octet : List Char} (h : octet ∈ quad.digits) {c : Char}
    (hc : c.isDigit = false) : c ∉ octet := by
  simp only [digits, List.mem_cons, List.not_mem_nil, or_false] at h
  rcases h with rfl | rfl | rfl | rfl
  · exact quad.first.notMem hc
  · exact quad.second.notMem hc
  · exact quad.third.notMem hc
  · exact quad.fourth.notMem hc

/-- The octets are the parts of the text. -/
theorem splitOn_text (quad : DottedQuad) : quad.text.splitOn '.' = quad.digits :=
  List.splitOn_intercalate '.' (fun _ h => notMem_of_mem_digits h rfl) (List.cons_ne_nil _ _)

/-- The texts have digits and dots only. -/
theorem mem_text {c : Char} (hc : c ∈ quad.text) : c.isDigit = true ∨ c = '.' := by
  by_cases hdigit : c.isDigit = true
  · exact Or.inl hdigit
  · have hdigit : c.isDigit = false := by simpa using hdigit
    right
    simp only [text, digits, List.intercalate_cons_cons, List.intercalate_singleton,
      List.mem_append, List.mem_singleton] at hc
    have h₁ := quad.first.notMem hdigit
    have h₂ := quad.second.notMem hdigit
    have h₃ := quad.third.notMem hdigit
    have h₄ := quad.fourth.notMem hdigit
    simpa only [h₁, h₂, h₃, h₄, false_or, or_false, or_self] using hc

theorem colon_notMem_text : ':' ∉ quad.text := by
  intro hmem
  rcases mem_text hmem with h | h
  · exact absurd h (by decide)
  · exact absurd h (by decide)

theorem text_ne_nil : quad.text ≠ [] := by
  intro hnil
  have hsplit := quad.splitOn_text
  rw [hnil, List.splitOn_nil, digits] at hsplit
  simp at hsplit

theorem dot_mem_text : '.' ∈ quad.text := by
  by_contra hmem
  have hsplit := quad.splitOn_text
  rw [List.splitOn_eq_singleton hmem, digits] at hsplit
  simp at hsplit

end DottedQuad

/-- A text whose parts between dots are digits has digits and dots only. -/
theorem isDigit_or_dot {text : List Char}
    (hparts : ∀ octet ∈ text.splitOn '.', octet.all Char.isDigit = true) :
    ∀ c ∈ text, c.isDigit = true ∨ c = '.' := by
  intro c hc
  have hjoin : ['.'].intercalate (text.splitOn '.') = text := List.intercalate_splitOn '.'
  rw [← hjoin] at hc
  rcases mem_intercalate hc with hdot | ⟨octet, hoctet, hmem⟩
  · exact Or.inr hdot
  · exact Or.inl (List.all_eq_true.mp (hparts octet hoctet) c hmem)

/-- What the pattern of an IPv4-mapped address captures. -/
theorem isDigit_or_dot_of_mapped? {ip rest : List Char} (h : mapped? ip = some rest) :
    '.' ∈ rest ∧ ∀ c ∈ rest, c.isDigit = true ∨ c = '.' := by
  unfold mapped? at h
  dsimp only at h
  split at h
  · next hmatch =>
    obtain ⟨-, hlength, hdigits⟩ := hmatch
    cases h
    refine ⟨?_, isDigit_or_dot fun octet hoctet => ?_⟩
    · by_contra hdot
      rw [List.splitOn_eq_singleton hdot] at hlength
      cases hlength
    · have hall := List.all_eq_true.mp hdigits octet hoctet
      rw [Bool.and_eq_true] at hall
      exact hall.2
  · cases h

/-- What the pattern of an IPv4-mapped address matches. -/
theorem mapped?_eq_some {ip rest : List Char} (h : mapped? ip = some rest) :
    ∃ group, ip = ':' :: ':' :: (group ++ ':' :: rest) ∧
      group.map Char.toLower = ['f', 'f', 'f', 'f'] ∧ ':' ∉ group ∧ ':' ∉ rest := by
  have hrest : ':' ∉ rest := by
    intro hmem
    rcases (isDigit_or_dot_of_mapped? h).2 ':' hmem with hdigit | hdot
    · exact absurd hdigit (by decide)
    · exact absurd hdot (by decide)
  unfold mapped? at h
  dsimp only at h
  split at h
  · next hmatch =>
    obtain ⟨hstart, _, _⟩ := hmatch
    cases h
    match ip, hstart, hrest with
    | a :: b :: c :: d :: e :: f :: g :: rest, hstart, hrest =>
      simp only [List.take_succ_cons, List.take_zero, List.map_cons, List.map_nil,
        List.cons.injEq, and_true] at hstart
      obtain ⟨ha, hb, hc, hd, he, hf, hg⟩ := hstart
      cases eq_colon_of_toLower ha
      cases eq_colon_of_toLower hb
      cases eq_colon_of_toLower hg
      refine ⟨[c, d, e, f], rfl, by simp [hc, hd, he, hf], ?_, hrest⟩
      intro hmem
      have hlower : (':' : Char).toLower = 'f' := by
        simp only [List.mem_cons, List.not_mem_nil, or_false] at hmem
        rcases hmem with h | h | h | h
        · rw [h, hc]
        · rw [h, hd]
        · rw [h, he]
        · rw [h, hf]
      exact absurd hlower (by decide)
  · cases h

/-- A text without dots is no IPv4-mapped address. -/
theorem mapped?_of_notMem {ip : List Char} (h : '.' ∉ ip) : mapped? ip = none := by
  have hsplit := List.splitOn_eq_singleton (fun hmem => h (List.mem_of_mem_drop (i := 7) hmem))
  simp [mapped?, hsplit]

/-- A text without colons is no IPv4-mapped address. -/
theorem mapped?_of_colon_notMem {ip : List Char} (h : ':' ∉ ip) : mapped? ip = none := by
  cases hmapped : mapped? ip with
  | none => rfl
  | some rest =>
    obtain ⟨group, rfl, -⟩ := mapped?_eq_some hmapped
    exact absurd List.mem_cons_self h

namespace IPv6Spelling

variable {spelling spelling' : IPv6Spelling} {quad : DottedQuad}

/-- What is written between the colons. -/
theorem piece (half : List Hextet) (quad : Option DottedQuad) :
    ∀ piece ∈ half.map Hextet.digits ++ quad.toList.map DottedQuad.text,
      piece ≠ [] ∧ ':' ∉ piece := by
  intro piece hpiece
  rcases List.mem_append.mp hpiece with hgroup | hquad
  · obtain ⟨group, _, rfl⟩ := List.mem_map.mp hgroup
    obtain ⟨hne, _, hcolon, _⟩ := Hextet.piece group.valid
    exact ⟨hne, hcolon⟩
  · obtain ⟨quad, _, rfl⟩ := List.mem_map.mp hquad
    exact ⟨DottedQuad.text_ne_nil, DottedQuad.colon_notMem_text⟩

/-- The groups that `expandIPv6` finds are those that are written. -/
theorem expandIPv6_text (spelling : IPv6Spelling) :
    expandIPv6 spelling.text = canonicalGroups spelling.written := by
  unfold text written
  cases spelling.tail with
  | none => exact expandIPv6_join (piece _ _)
  | some tail =>
    dsimp only
    have hhead := piece spelling.head none
    rw [Option.toList_none, List.map_nil, List.append_nil] at hhead
    rw [expandIPv6_compressed hhead (piece _ _)]
    simp only [List.length_map, List.length_append]

/-- A dotted part is no group. -/
theorem canonicalGroups_of_quad (h : spelling.quad = some quad) :
    canonicalGroups spelling.written = none := by
  have hmem : quad.text ∈ spelling.written := by
    unfold written
    rw [h]
    cases spelling.tail with
    | none => simp
    | some tail => simp
  have hquad : isHextet quad.text = false := by
    cases hvalid : isHextet quad.text with
    | false => rfl
    | true => exact absurd DottedQuad.dot_mem_text (Hextet.piece hvalid).2.2.2
  unfold canonicalGroups
  split
  · rfl
  · rw [if_pos]
    exact List.any_eq_true.mpr ⟨quad.text, hmem, by rw [hquad]; rfl⟩

/-- A spelling in groups only has eight of them. -/
theorem written_spec (h : spelling.quad = none) :
    spelling.written.length = 8 ∧ (∀ group ∈ spelling.written, isHextet group = true) ∧
      spelling.groups = spelling.written.map (Numeral.value 16) := by
  have hfits := spelling.fits
  have hzero : isHextet ['0'] = true := by decide
  have hvalues : ∀ half : List Hextet,
      half.map Hextet.value = (half.map Hextet.digits).map (Numeral.value 16) := by
    intro half
    rw [List.map_map]
    rfl
  have hgroups : ∀ half : List Hextet, ∀ group ∈ half.map Hextet.digits,
      isHextet group = true := by
    intro half group hgroup
    obtain ⟨group, _, rfl⟩ := List.mem_map.mp hgroup
    exact group.valid
  unfold written groups
  rw [h] at hfits ⊢
  cases htail : spelling.tail with
  | none =>
    simp only [htail, Option.toList_none, List.length_nil] at hfits
    simp only [Option.toList_none, List.map_nil, List.flatMap_nil, List.append_nil]
    exact ⟨by simpa using hfits, hgroups _, hvalues _⟩
  | some tail =>
    simp only [htail, Option.toList_none, List.length_nil] at hfits
    simp only [Option.toList_none, List.map_nil, List.flatMap_nil, List.append_nil,
      List.length_nil]
    refine ⟨?_, fun group hgroup => ?_, ?_⟩
    · simp only [List.length_append, List.length_map, List.length_replicate]
      omega
    · rcases List.mem_append.mp hgroup with hgroup | hgroup
      · rcases List.mem_append.mp hgroup with hgroup | hgroup
        · exact hgroups _ group hgroup
        · rw [(List.mem_replicate.mp hgroup).2]
          exact hzero
      · exact hgroups _ group hgroup
    · rw [List.map_append, List.map_append, List.map_replicate, hvalues, hvalues]
      rfl

/-- Every spelling has a colon. -/
theorem colon_mem_text (spelling : IPv6Spelling) : ':' ∈ spelling.text := by
  have hfits := spelling.fits
  unfold text
  cases htail : spelling.tail with
  | some tail => simp
  | none =>
    rw [htail] at hfits
    dsimp only at hfits ⊢
    have hquad : spelling.quad.toList.length ≤ 1 := by cases spelling.quad <;> simp
    match hhead : spelling.head with
    | first :: second :: rest =>
      rw [List.map_cons, List.map_cons, List.cons_append, List.cons_append,
        List.intercalate_cons_cons]
      simp
    | [first] =>
      rw [hhead, List.length_singleton] at hfits
      omega
    | [] =>
      rw [hhead, List.length_nil] at hfits
      omega

/-- A spelling in groups only has no dot. -/
theorem dot_notMem_text (h : spelling.quad = none) : '.' ∉ spelling.text := by
  have hdot : ∀ half : List Hextet, '.' ∉ [':'].intercalate (half.map Hextet.digits) := by
    intro half hmem
    rcases mem_intercalate hmem with hc | ⟨group, hgroup, hc⟩
    · exact absurd hc (by decide)
    · obtain ⟨group, _, rfl⟩ := List.mem_map.mp hgroup
      exact (Hextet.piece group.valid).2.2.2 hc
  unfold text
  rw [h]
  cases spelling.tail with
  | none => simpa using hdot spelling.head
  | some tail => simp [hdot]

/-- A text that begins with `::` has its groups after it. -/
theorem tail_of_text {rest : List Char} (h : spelling.text = ':' :: ':' :: rest) :
    spelling.head = [] ∧ ∃ tail, spelling.tail = some tail ∧
      rest = [':'].intercalate (tail.map Hextet.digits ++
        spelling.quad.toList.map DottedQuad.text) := by
  have hfirst : ∀ (group : Hextet) (groups : List (List Char)) (more : List Char),
      [':'].intercalate (group.digits :: groups) ++ more ≠ ':' :: ':' :: rest := by
    intro group groups more htext
    obtain ⟨hne, _, hcolon, _⟩ := Hextet.piece group.valid
    obtain ⟨c, digits, hdigits⟩ := List.exists_cons_of_ne_nil hne
    have hc : c = ':' := by
      rw [hdigits] at htext
      cases groups with
      | nil =>
        rw [List.intercalate_singleton] at htext
        exact (List.cons.inj htext).1
      | cons next groups =>
        rw [List.intercalate_cons_cons] at htext
        exact (List.cons.inj htext).1
    rw [hdigits, hc] at hcolon
    exact hcolon List.mem_cons_self
  have hfits := spelling.fits
  unfold text at h
  cases htail : spelling.tail with
  | none =>
    rw [htail] at hfits h
    dsimp only at hfits h
    have hquad : spelling.quad.toList.length ≤ 1 := by cases spelling.quad <;> simp
    cases hhead : spelling.head with
    | nil =>
      rw [hhead, List.length_nil] at hfits
      omega
    | cons group groups =>
      rw [hhead, List.map_cons, List.cons_append] at h
      exact absurd ((List.append_nil _).trans h) (hfirst group _ [])
  | some tail =>
    rw [htail] at h
    dsimp only at h
    cases hhead : spelling.head with
    | nil =>
      rw [hhead] at h
      exact ⟨rfl, tail, rfl, (List.cons.inj (List.cons.inj h).2).2.symm⟩
    | cons group groups =>
      rw [hhead, List.map_cons, List.append_assoc] at h
      exact absurd h (hfirst group _ _)

end IPv6Spelling

theorem networkOf_some {ip : List Char} (h : ip ≠ []) :
    networkOf (some ip) =
      let address := (mapped? ip).getD ip
      if ':' ∈ address then
        match expandIPv6 address with
        | none => unknownNetwork
        | some groups => [':'].intercalate (groups.take 3) ++ "::/48".toList
      else if isIPv4 (address.splitOn '.') then
        ['.'].intercalate ((address.splitOn '.').take 3) ++ ".0/24".toList
      else unknownNetwork := by
  cases ip with
  | nil => exact absurd rfl h
  | cons c rest => rfl

theorem addressOf_some {ip : List Char} (h : ip ≠ []) :
    addressOf (some ip) =
      let address := (mapped? ip).getD ip
      if ':' ∈ address then
        match expandIPv6 address with
        | none => unknownNetwork
        | some groups => [':'].intercalate (groups.take 4) ++ "::/64".toList
      else if isIPv4 (address.splitOn '.') then address
      else unknownNetwork := by
  cases ip with
  | nil => exact absurd rfl h
  | cons c rest => rfl

/-- The buckets of a spelling in groups only. -/
theorem IPv6Spelling.buckets {spelling : IPv6Spelling} (h : spelling.quad = none) :
    networkOf (some spelling.text) =
        [':'].intercalate ((spelling.written.take 3).map Numeral.canonical) ++ "::/48".toList ∧
      addressOf (some spelling.text) =
        [':'].intercalate ((spelling.written.take 4).map Numeral.canonical) ++ "::/64".toList := by
  have hcolon := spelling.colon_mem_text
  have hmapped := mapped?_of_notMem (dot_notMem_text h)
  have hne : spelling.text ≠ [] := List.ne_nil_of_mem hcolon
  obtain ⟨hlength, hvalid, _⟩ := written_spec h
  have hgroups : expandIPv6 spelling.text = some (spelling.written.map Numeral.canonical) := by
    have hall : (spelling.written.any fun group => !isHextet group) = false := by
      rw [List.any_eq_false]
      intro group hgroup
      rw [hvalid group hgroup]
      decide
    rw [expandIPv6_text, canonicalGroups, if_neg (not_not.mpr hlength), hall]
    rfl
  rw [networkOf_some hne, addressOf_some hne]
  simp only [hmapped, Option.getD_none, if_pos hcolon, hgroups, List.map_take, and_self]

/-- An IPv4-mapped text in dotted form is the one that the pattern matches. -/
theorem IPv6Spelling.mapped {spelling : IPv6Spelling} {quad : DottedQuad} {rest : List Char}
    (hquad : spelling.quad = some quad) (h : mapped? spelling.text = some rest) :
    rest = quad.text ∧ spelling.groups = [0, 0, 0, 0, 0, 0xffff] ++ quad.groups := by
  obtain ⟨group, htext, hgroup, hcolon, hrest⟩ := mapped?_eq_some h
  obtain ⟨hhead, tail, htail, hjoin⟩ := tail_of_text htext
  rw [hquad, Option.toList_some, List.map_singleton] at hjoin
  have hpieces : ∀ piece ∈ tail.map Hextet.digits ++ [quad.text], ':' ∉ piece :=
    fun p hp => (piece tail (some quad) p hp).2
  have hsplit := List.splitOn_intercalate ':' hpieces (by simp)
  rw [← hjoin, List.splitOn_append_cons_self_of_not_mem hcolon,
    List.splitOn_eq_singleton hrest] at hsplit
  cases tail with
  | nil => simp at hsplit
  | cons first later =>
    rw [List.map_cons, List.cons_append, List.cons.injEq] at hsplit
    obtain ⟨hfirst, hlater⟩ := hsplit
    cases later with
    | cons second later => simp at hlater
    | nil =>
      simp only [List.map_nil, List.nil_append, List.cons.injEq, and_true] at hlater
      have hvalue : first.value = 0xffff := by
        have hlower := Numeral.value_map_toLower (by decide) (Hextet.piece first.valid).2.1
        rw [← hfirst, hgroup] at hlower
        rw [Hextet.value, ← hfirst, ← hlower]
        decide
      refine ⟨hlater, ?_⟩
      unfold groups
      rw [hhead, htail, hquad]
      simp [hvalue, DottedQuad.groups, List.replicate]

/-- Eight groups are those of one address. -/
theorem IpAddress.ofGroups_injective : Function.Injective IpAddress.ofGroups := by
  have hcases : ∀ groups, (∃ high low, groups = [0, 0, 0, 0, 0, 0xffff, high, low]) ∨
      IpAddress.ofGroups groups = .v6 groups := by
    intro groups
    unfold IpAddress.ofGroups
    split
    · exact Or.inl ⟨_, _, rfl⟩
    · exact Or.inr rfl
  intro groups groups' h
  rcases hcases groups with ⟨high, low, rfl⟩ | hv6
  · rcases hcases groups' with ⟨high', low', rfl⟩ | hv6'
    · have hparts := h
      simp only [IpAddress.ofGroups, IpAddress.v4.injEq] at hparts
      have hhigh : high = high' := by omega
      have hlow : low = low' := by omega
      rw [hhigh, hlow]
    · rw [hv6'] at h
      cases h
  · rcases hcases groups' with ⟨high', low', rfl⟩ | hv6'
    · rw [hv6] at h
      cases h
    · rw [hv6, hv6'] at h
      exact IpAddress.v6.inj h

/-- A network of groups is read off the first three, except for a mapped address. -/
theorem IpAddress.network_ofGroups (groups : List ℕ) :
    (IpAddress.ofGroups groups).network = .v6 (groups.take 3) ∨ groups.take 3 = [0, 0, 0] := by
  unfold IpAddress.ofGroups
  split
  · exact Or.inr rfl
  · exact Or.inl rfl

/-- The buckets of a spelling with a dotted part, if it is known at all. -/
theorem Spelling.buckets_of_quad {p : Spelling} {quad : DottedQuad} (hquad : p.quad? = some quad)
    (hknown : networkOf (some p.text) ≠ unknownNetwork) :
    networkOf (some p.text) = ['.'].intercalate (quad.digits.take 3) ++ ".0/24".toList ∧
      addressOf (some p.text) = quad.text ∧ p.address = quad.address := by
  have hread : p.text ≠ [] ∧ (mapped? p.text).getD p.text = quad.text ∧
      p.address = quad.address := by
    cases p with
    | ipv4 quad' =>
      cases hquad
      exact ⟨DottedQuad.text_ne_nil,
        by rw [text, mapped?_of_colon_notMem DottedQuad.colon_notMem_text]; rfl, rfl⟩
    | ipv6 spelling =>
      have hcolon := spelling.colon_mem_text
      have hne : spelling.text ≠ [] := List.ne_nil_of_mem hcolon
      refine ⟨hne, ?_⟩
      cases hmapped : mapped? spelling.text with
      | none =>
        -- Only the pattern admits a dotted part; as a group it is refused.
        refine absurd ?_ hknown
        rw [text, networkOf_some hne]
        simp only [hmapped, Option.getD_none, if_pos hcolon, spelling.expandIPv6_text,
          IPv6Spelling.canonicalGroups_of_quad hquad]
      | some rest =>
        obtain ⟨rfl, hgroups⟩ := IPv6Spelling.mapped hquad hmapped
        refine ⟨by rw [text, hmapped]; rfl, ?_⟩
        have h₂ := quad.second.le
        have h₄ := quad.fourth.le
        rw [address, hgroups]
        simp only [DottedQuad.groups, List.cons_append, List.nil_append, IpAddress.ofGroups,
          DottedQuad.address, IpAddress.v4.injEq]
        omega
  obtain ⟨hne, haddress, hvalue⟩ := hread
  have hcolon : ':' ∉ quad.text := DottedQuad.colon_notMem_text
  rw [networkOf_some hne] at hknown ⊢
  rw [addressOf_some hne]
  simp only [haddress, if_neg hcolon, quad.splitOn_text] at hknown ⊢
  cases hvalid : isIPv4 quad.digits with
  | false =>
    rw [hvalid] at hknown
    exact absurd rfl hknown
  | true => exact ⟨rfl, rfl, hvalue⟩

section Numbers

variable {digits digits' : List Char}

/-- As many digits with the same value are the same digits. -/
theorem eq_of_digitsValue (hdigits : ∀ c ∈ digits, c.isDigit = true)
    (hdigits' : ∀ c ∈ digits', c.isDigit = true) (hlength : digits.length = digits'.length)
    (hvalue : digitsValue digits = digitsValue digits') : digits = digits' := by
  have hbound : ∀ c : Char, c.isDigit = true → 48 ≤ c.toNat ∧ c.toNat ≤ 57 := by
    intro c hc
    simp only [Char.isDigit, Bool.and_eq_true, decide_eq_true_eq, ge_iff_le,
      UInt32.le_iff_toNat_le] at hc
    exact hc
  induction digits using List.reverseRecOn generalizing digits' with
  | nil => exact (List.length_eq_zero_iff.mp hlength.symm).symm
  | append_singleton digits c ih =>
    cases digits' using List.reverseRecOn with
    | nil => simp at hlength
    | append_singleton digits' c' =>
      have hc := hbound c (hdigits c (by simp))
      have hc' := hbound c' (hdigits' c' (by simp))
      rw [digitsValue, List.foldl_append, digitsValue, List.foldl_append] at hvalue
      change 10 * digitsValue digits + (c.toNat - 48) =
        10 * digitsValue digits' + (c'.toNat - 48) at hvalue
      rw [ih (fun d hd => hdigits d (List.mem_append_left _ hd))
        (fun d hd => hdigits' d (List.mem_append_left _ hd)) (by simpa using hlength) (by omega)]
      have hsame : c = c' := by
        rw [← Char.ofNat_toNat c, ← Char.ofNat_toNat c']
        congr 1
        omega
      rw [hsame]

/-- Groups have the same canonical forms exactly if they have the same values. -/
theorem map_canonical_eq_iff {groups groups' : List (List Char)}
    (hgroups : ∀ group ∈ groups, isHextet group = true)
    (hgroups' : ∀ group ∈ groups', isHextet group = true) :
    groups.map Numeral.canonical = groups'.map Numeral.canonical ↔
      groups.map (Numeral.value 16) = groups'.map (Numeral.value 16) := by
  induction groups generalizing groups' with
  | nil => simp
  | cons group groups ih =>
    cases groups' with
    | nil => simp
    | cons group' groups' =>
      obtain ⟨hgroup, hrest⟩ := List.forall_mem_cons.mp hgroups
      obtain ⟨hgroup', hrest'⟩ := List.forall_mem_cons.mp hgroups'
      obtain ⟨hne, hdigits, -⟩ := Hextet.piece hgroup
      obtain ⟨hne', hdigits', -⟩ := Hextet.piece hgroup'
      rw [List.map_cons, List.map_cons, List.map_cons, List.map_cons, List.cons.injEq,
        List.cons.injEq, ih hrest hrest',
        Numeral.canonical_eq_iff (by decide) (by decide) hne hne' hdigits hdigits']

/-- Joined pieces without the separator are read off their text. -/
theorem intercalate_inj {c : Char} {pieces pieces' : List (List Char)}
    (hpieces : ∀ piece ∈ pieces, c ∉ piece) (hpieces' : ∀ piece ∈ pieces', c ∉ piece)
    (hne : pieces ≠ []) (hne' : pieces' ≠ [])
    (h : [c].intercalate pieces = [c].intercalate pieces') : pieces = pieces' := by
  rw [← List.splitOn_intercalate c hpieces hne, h, List.splitOn_intercalate c hpieces' hne']

end Numbers

/-- Two quads are written alike if they are of one address, with as many digits for each
octet. -/
theorem DottedQuad.digits_eq_iff {quad quad' : DottedQuad} :
    quad.digits = quad'.digits ↔
      quad.address = quad'.address ∧
        quad.digits.map List.length = quad'.digits.map List.length := by
  constructor
  · intro h
    refine ⟨?_, by rw [h]⟩
    simp only [digits, List.cons.injEq, and_true] at h
    obtain ⟨h₁, h₂, h₃, h₄⟩ := h
    rw [address, address, h₁, h₂, h₃, h₄]
  · rintro ⟨hvalues, hlengths⟩
    simp only [address, IpAddress.v4.injEq] at hvalues
    simp only [digits, List.map_cons, List.map_nil, List.cons.injEq, and_true] at hlengths
    obtain ⟨h₁, h₂, h₃, h₄⟩ := hvalues
    obtain ⟨l₁, l₂, l₃, l₄⟩ := hlengths
    rw [digits, digits, eq_of_digitsValue quad.first.isDigit quad'.first.isDigit l₁ h₁,
      eq_of_digitsValue quad.second.isDigit quad'.second.isDigit l₂ h₂,
      eq_of_digitsValue quad.third.isDigit quad'.third.isDigit l₃ h₃,
      eq_of_digitsValue quad.fourth.isDigit quad'.fourth.isDigit l₄ h₄]

/-- The /24 of two dotted texts is the same if their first three octets are. -/
theorem DottedQuad.take_eq_of_bucket {quad quad' : DottedQuad}
    (h : ['.'].intercalate (quad.digits.take 3) ++ ".0/24".toList =
      ['.'].intercalate (quad'.digits.take 3) ++ ".0/24".toList) :
    quad.digits.take 3 = quad'.digits.take 3 := by
  have hnot : ∀ quad : DottedQuad, ∀ octet ∈ quad.digits.take 3, '.' ∉ octet :=
    fun quad octet hoctet => quad.notMem_of_mem_digits (List.mem_of_mem_take hoctet) rfl
  exact intercalate_inj (hnot quad) (hnot quad') (by simp [digits]) (by simp [digits])
    (List.append_cancel_right h)

/-- The buckets of two spellings in groups are the same if their first groups are. -/
theorem IPv6Spelling.bucket_eq_iff {spelling spelling' : IPv6Spelling} {n : ℕ} (ending : List Char)
    (h : spelling.quad = none) (h' : spelling'.quad = none) (hn : 0 < n) :
    [':'].intercalate ((spelling.written.take n).map Numeral.canonical) ++ ending =
        [':'].intercalate ((spelling'.written.take n).map Numeral.canonical) ++ ending ↔
      spelling.groups.take n = spelling'.groups.take n := by
  obtain ⟨hlength, hvalid, hgroups⟩ := written_spec h
  obtain ⟨hlength', hvalid', hgroups'⟩ := written_spec h'
  have hcolon : ∀ groups : List (List Char), (∀ group ∈ groups, isHextet group = true) →
      ∀ piece ∈ (groups.take n).map Numeral.canonical, ':' ∉ piece := by
    intro groups hvalid piece hpiece hmem
    obtain ⟨group, hgroup, rfl⟩ := List.mem_map.mp hpiece
    obtain ⟨d, hd, hlower⟩ := Numeral.mem_canonical hmem
    rw [eq_colon_of_toLower hlower] at hd
    exact (Hextet.piece (hvalid group (List.mem_of_mem_take hgroup))).2.2.1 hd
  have hne : ∀ groups : List (List Char), groups.length = 8 →
      (groups.take n).map Numeral.canonical ≠ [] := by
    intro groups hlength hnil
    have hzero := congrArg List.length hnil
    rw [List.length_map, List.length_take, List.length_nil] at hzero
    omega
  rw [List.append_cancel_right_eq, hgroups, hgroups', ← List.map_take, ← List.map_take,
    ← map_canonical_eq_iff (fun group hgroup => hvalid group (List.mem_of_mem_take hgroup))
      fun group hgroup => hvalid' group (List.mem_of_mem_take hgroup)]
  exact ⟨intercalate_inj (hcolon _ hvalid) (hcolon _ hvalid') (hne _ hlength) (hne _ hlength'),
    fun h => by rw [h]⟩

namespace Spelling

variable {p q : Spelling}

theorem GoByAddress.symm (h : p.GoByAddress q) : q.GoByAddress p :=
  ⟨fun haddress => ⟨(h.1 haddress.symm).1.symm, (h.1 haddress.symm).2.symm⟩,
    fun hnetwork => (h.2 hnetwork.symm).symm⟩

theorem Alike.symm (h : p.Alike q) : q.Alike p :=
  ⟨fun haddress => (h.1 haddress.symm).symm, fun hq hp => (h.2 hp hq).symm⟩

/-- A spelling with a dotted part is not in groups only. -/
theorem not_lowGroups_of_quad {quad : DottedQuad} (h : p.quad? = some quad) : ¬ p.LowGroups := by
  cases p with
  | ipv4 _ => exact fun hlow => hlow
  | ipv6 spelling =>
    rintro ⟨hnone, -⟩
    rw [quad?, hnone] at h
    cases h

/-- Two spellings with dotted parts. -/
theorem goByAddress_of_quads {quad quad' : DottedQuad} (hp : p.quad? = some quad)
    (hq : q.quad? = some quad') (hknown : networkOf (some p.text) ≠ unknownNetwork)
    (hknown' : networkOf (some q.text) ≠ unknownNetwork) : p.GoByAddress q ↔ p.Alike q := by
  obtain ⟨hnetwork, haddress, hvalue⟩ := buckets_of_quad hp hknown
  obtain ⟨hnetwork', haddress', hvalue'⟩ := buckets_of_quad hq hknown'
  unfold GoByAddress Alike
  rw [hnetwork, hnetwork', haddress, haddress', hvalue, hvalue', hp, hq, Option.map_some,
    Option.map_some, Option.some.injEq]
  constructor
  · rintro ⟨hsame, -⟩
    refine ⟨fun h => ?_, fun hlow => absurd hlow (not_lowGroups_of_quad hp)⟩
    rw [← quad.splitOn_text, (hsame h).2, quad'.splitOn_text]
  · rintro ⟨hlengths, -⟩
    refine ⟨fun h => ?_, fun hother hbucket => hother ?_⟩
    · have hdigits := DottedQuad.digits_eq_iff.mpr ⟨h, hlengths h⟩
      rw [DottedQuad.text, DottedQuad.text, hdigits]
      exact ⟨rfl, rfl⟩
    · have htake := DottedQuad.take_eq_of_bucket hbucket
      simp only [DottedQuad.digits, List.take_succ_cons, List.take_zero, List.cons.injEq,
        and_true] at htake
      obtain ⟨h₁, h₂, h₃⟩ := htake
      rw [DottedQuad.address, DottedQuad.address, IpAddress.network, IpAddress.network, h₁, h₂, h₃]

/-- A spelling with a dotted part and one in groups only. -/
theorem goByAddress_of_quad {quad : DottedQuad} {spelling : IPv6Spelling}
    (hp : p.quad? = some quad) (hq : spelling.quad = none)
    (hknown : networkOf (some p.text) ≠ unknownNetwork) :
    p.GoByAddress (.ipv6 spelling) ↔ p.Alike (.ipv6 spelling) := by
  obtain ⟨hnetwork, -, -⟩ := buckets_of_quad hp hknown
  have hbucket : networkOf (some p.text) ≠ networkOf (some (ipv6 spelling).text) := by
    intro hsame
    have hcolon : ':' ∈ networkOf (some (ipv6 spelling).text) := by
      rw [text, (IPv6Spelling.buckets hq).1]
      exact List.mem_append_right _ (by decide)
    rw [← hsame, hnetwork] at hcolon
    rcases List.mem_append.mp hcolon with hmem | hmem
    · rcases mem_intercalate hmem with hdot | ⟨octet, hoctet, hmem⟩
      · exact absurd hdot (by decide)
      · exact quad.notMem_of_mem_digits (List.mem_of_mem_take hoctet) rfl hmem
    · exact absurd hmem (by decide)
  unfold GoByAddress Alike
  have hnone : (ipv6 spelling).quad? = none := hq
  rw [hp, hnone]
  constructor
  · rintro ⟨hsame, -⟩
    exact ⟨fun h => absurd (hsame h).1 hbucket, fun hlow => absurd hlow (not_lowGroups_of_quad hp)⟩
  · rintro ⟨hlengths, -⟩
    refine ⟨fun h => ?_, fun _ => hbucket⟩
    have hfalse := hlengths h
    cases hfalse

/-- Two spellings in groups only. -/
theorem goByAddress_of_groups {spelling spelling' : IPv6Spelling} (hp : spelling.quad = none)
    (hq : spelling'.quad = none) :
    (ipv6 spelling).GoByAddress (ipv6 spelling') ↔ (ipv6 spelling).Alike (ipv6 spelling') := by
  obtain ⟨hnetwork, haddress⟩ := IPv6Spelling.buckets hp
  obtain ⟨hnetwork', haddress'⟩ := IPv6Spelling.buckets hq
  unfold GoByAddress Alike
  simp only [text, hnetwork, hnetwork', haddress, haddress', ne_eq,
    IPv6Spelling.bucket_eq_iff _ hp hq (by decide : 0 < 3),
    IPv6Spelling.bucket_eq_iff _ hp hq (by decide : 0 < 4), quad?, hp, hq, address, LowGroups]
  have hsame : IpAddress.ofGroups spelling.groups = IpAddress.ofGroups spelling'.groups →
      spelling.groups.take 3 = spelling'.groups.take 3 ∧
        spelling.groups.take 4 = spelling'.groups.take 4 := by
    intro h
    rw [IpAddress.ofGroups_injective h]
    exact ⟨rfl, rfl⟩
  constructor
  · rintro ⟨-, hother⟩
    refine ⟨fun _ => trivial, fun hlow hlow' => ?_⟩
    by_contra hnot
    exact hother hnot (hlow.2.trans hlow'.2.symm)
  · rintro ⟨-, hlow⟩
    refine ⟨hsame, fun hnot htake => hnot ?_⟩
    rcases IpAddress.network_ofGroups spelling.groups with h | h
    · rcases IpAddress.network_ofGroups spelling'.groups with h' | h'
      · rw [h, h', htake]
      · exact hlow ⟨trivial, htake.trans h'⟩ ⟨trivial, h'⟩
    · exact hlow ⟨trivial, h⟩ ⟨trivial, htake.symm.trans h⟩

/-- **Buckets and spellings.** The buckets of two known spellings go by what they denote
exactly if they are written alike. -/
theorem goByAddress_iff (hp : networkOf (some p.text) ≠ unknownNetwork)
    (hq : networkOf (some q.text) ≠ unknownNetwork) : p.GoByAddress q ↔ p.Alike q := by
  cases hpquad : p.quad? with
  | some quad =>
    cases hqquad : q.quad? with
    | some quad' => exact goByAddress_of_quads hpquad hqquad hp hq
    | none =>
      cases q with
      | ipv4 quad' => cases hqquad
      | ipv6 spelling => exact goByAddress_of_quad hpquad hqquad hp
  | none =>
    cases p with
    | ipv4 quad => cases hpquad
    | ipv6 spelling =>
      cases hqquad : q.quad? with
      | some quad' =>
        have hswapped := goByAddress_of_quad hqquad hpquad hq
        exact ⟨fun h => (hswapped.mp h.symm).symm, fun h => (hswapped.mpr h.symm).symm⟩
      | none =>
        cases q with
        | ipv4 quad' => cases hqquad
        | ipv6 spelling' => exact goByAddress_of_groups hpquad hqquad

/-- `203.0.113.7`. -/
def ofQuad : DottedQuad where
  first := ⟨['2', '0', '3'], by decide⟩
  second := ⟨['0'], by decide⟩
  third := ⟨['1', '1', '3'], by decide⟩
  fourth := ⟨['7'], by decide⟩

/-- `::FFFF:203.0.113.7`. -/
def ofMapped : IPv6Spelling where
  head := []
  tail := some [⟨['F', 'F', 'F', 'F'], by decide⟩]
  quad := some ofQuad
  fits := by decide

/-- `::ffff:cb00:7107`, the same address. -/
def ofHexadecimal : IPv6Spelling where
  head := []
  tail := some [⟨['f', 'f', 'f', 'f'], by decide⟩, ⟨['c', 'b', '0', '0'], by decide⟩,
    ⟨['7', '1', '0', '7'], by decide⟩]
  quad := none
  fits := by decide

/-- The dotted spelling of a mapped address. -/
theorem goByAddress_ofMapped : (ipv6 ofMapped).GoByAddress (ipv4 ofQuad) :=
  (goByAddress_iff (by decide) (by decide)).mpr (by decide)

/-- The hexadecimal spelling of a mapped address is in another bucket. -/
theorem not_goByAddress_ofHexadecimal :
    ¬ ∀ p q : Spelling, networkOf (some p.text) ≠ unknownNetwork →
      networkOf (some q.text) ≠ unknownNetwork → p.GoByAddress q := by
  intro h
  have hsame := h (ipv4 ofQuad) (ipv6 ofHexadecimal) (by decide) (by decide)
  revert hsame
  decide

end Spelling

end SilenceWatch
