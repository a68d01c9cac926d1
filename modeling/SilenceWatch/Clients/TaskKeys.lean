import SilenceWatch.Clients.Declarations
import SilenceWatch.Library.Hex
import SilenceWatch.Library.Json

/-!
# The keys of a Laravel schedule

A key that is too long is cut, and made unique by its hash. The cut counts bytes, so that it
may fall within a character; the key is then no text any more, and the declaration that holds
it cannot be encoded. A key that is short enough may, in turn, be spelt like one that was cut.
-/

namespace SilenceWatch.Laravel

open Utf8

section Json

/-- A string of JSON, which is a text. -/
def jsonString (text : Bytes) : Option (Json.Value ℤ) :=
  if IsEncoding text then some (.string (Json.units (decode text))) else none

/-- A task of the request, with its grace period. -/
def jsonCheck (check : Task × ℤ) : Option (Json.Value ℤ) :=
  match jsonString check.1.key, jsonString check.1.name with
  | some key, some name =>
    some <| .object
      [(Json.units "key".toList, key), (Json.units "name".toList, name),
        (Json.units "cron".toList, .string (Json.units check.1.cron)),
        (Json.units "timezone".toList, .string (Json.units check.1.timezone)),
        (Json.units "grace_seconds".toList, .number check.2)]
  | _, _ => none

/-- The values of a list, if each has one. -/
def jsonChecks : List (Task × ℤ) → Option (List (Json.Value ℤ))
  | [] => some []
  | check :: checks =>
    match jsonCheck check, jsonChecks checks with
    | some value, some values => some (value :: values)
    | _, _ => none

/-- `json_encode`, which fails on a string that is no text. -/
def Payload.json (payload : Payload) : Option (Json.Value ℤ) :=
  (jsonChecks payload.checks).map fun checks =>
    .object
      [(Json.units "environment".toList, .string (Json.units payload.environment)),
        (Json.units "source".toList, .string (Json.units "laravel".toList)),
        (Json.units "prune".toList, .bool payload.prune),
        (Json.units "checks".toList, .array checks)]

/-- A request can be encoded where the keys and the names of its tasks are texts. -/
theorem Payload.isSome_json {payload : Payload}
    (h : ∀ check ∈ payload.checks, IsEncoding check.1.key ∧ IsEncoding check.1.name) :
    payload.json.isSome = true := by
  unfold Payload.json
  rw [Option.isSome_map]
  revert h
  induction payload.checks with
  | nil => exact fun _ => rfl
  | cons check checks ih =>
    intro h
    obtain ⟨hkey, hname⟩ := h check List.mem_cons_self
    obtain ⟨values, hvalues⟩ := Option.isSome_iff_exists.mp
      (ih fun check hcheck => h check (List.mem_cons_of_mem _ hcheck))
    unfold jsonChecks jsonCheck jsonString
    rw [if_pos hkey, if_pos hname, hvalues]
    rfl

end Json

section Texts

variable {text : Bytes}

/-- What is left of a text without the ASCII before it. -/
theorem isEncoding_drop {start : Bytes} (hstart : IsEncoding start)
    (hstarts : start.isPrefixOf text = true) (htext : IsEncoding text) :
    IsEncoding (text.drop start.length) := by
  obtain ⟨rest, rfl⟩ := List.isPrefixOf_iff_prefix.mp hstarts
  rw [List.drop_left]
  exact (isEncoding_append hstart).mp htext

theorem isEncoding_bytes (literal : String) : IsEncoding (bytes literal) := isEncoding_encode _

/-- A trimmed text is a text. -/
theorem isEncoding_trim (htext : IsEncoding text) : IsEncoding (trim text) := by
  have hascii : ∀ c : UInt8, [0, 9, 10, 11, 13, 32].contains c.toNat = true → c.toNat < 0x80 := by
    intro c hc
    simp only [List.contains_eq_mem, decide_eq_true_eq, List.mem_cons, List.not_mem_nil,
      or_false] at hc
    omega
  unfold trim
  dsimp only
  generalize hp : (fun c : UInt8 => [0, 9, 10, 11, 13, 32].contains c.toNat) = p
  have hp' : ∀ c, p c = true → c.toNat < 0x80 := hp ▸ hascii
  have hfront : IsEncoding (text.dropWhile p) := by
    rw [← List.takeWhile_append_dropWhile (p := p) (l := text)] at htext
    exact (isEncoding_append
      (isEncoding_ascii fun c hc => hp' c (List.mem_takeWhile_imp hc))).mp htext
  have hsplit : (text.dropWhile p).rdropWhile p ++ (text.dropWhile p).rtakeWhile p =
      text.dropWhile p := by
    unfold List.rdropWhile List.rtakeWhile
    rw [← List.reverse_append, List.takeWhile_append_dropWhile, List.reverse_reverse]
  rw [← hsplit, isEncoding_append_ascii fun c hc => hp' c (List.mem_rtakeWhile_imp hc)] at hfront
  exact hfront

/-- The first byte of a character tells how many it has. -/
theorem encodeChar_eq_cons (c : Char) : ∃ first rest,
    String.utf8EncodeChar c = first :: rest ∧ rest.length = mbLength first - 1 := by
  have hvalid : c.val.toNat < 0xD800 ∨ 0xDFFF < c.val.toNat ∧ c.val.toNat < 0x110000 := c.valid
  have hlength (n : ℕ) (hn : n < 256) : mbLength (UInt8.ofNat n) =
      if 0xC2 ≤ n ∧ n < 0xE0 then 2 else if 0xE0 ≤ n ∧ n < 0xF0 then 3
      else if 0xF0 ≤ n ∧ n < 0xF8 then 4 else 1 := by
    unfold mbLength
    rw [UInt8.toNat_ofNat_of_lt' hn]
  unfold String.utf8EncodeChar
  dsimp only
  generalize c.val.toNat = v at hvalid
  by_cases hone : v ≤ 0x7F
  · rw [if_pos hone]
    refine ⟨_, _, rfl, ?_⟩
    rw [hlength _ (by omega), if_neg (by omega), if_neg (by omega), if_neg (by omega)]
    rfl
  rw [if_neg hone]
  by_cases htwo : v ≤ 0x7FF
  · rw [if_pos htwo]
    refine ⟨_, _, rfl, ?_⟩
    rw [hlength _ (by omega), if_pos (by omega)]
    rfl
  rw [if_neg htwo]
  by_cases hthree : v ≤ 0xFFFF
  · rw [if_pos hthree]
    refine ⟨_, _, rfl, ?_⟩
    rw [hlength _ (by omega), if_neg (by omega), if_pos (by omega)]
    rfl
  · rw [if_neg hthree]
    refine ⟨_, _, rfl, ?_⟩
    rw [hlength _ (by omega), if_neg (by omega), if_neg (by omega), if_pos (by omega)]
    rfl

/-- The first characters of a text. -/
theorem mbTake_encode (n : ℕ) (text : List Char) :
    mbTake n (encode text) = encode (text.take n) := by
  induction n generalizing text with
  | zero => rfl
  | succ n ih =>
    cases text with
    | nil => rfl
    | cons c text =>
      obtain ⟨first, rest, hfirst, hrest⟩ := encodeChar_eq_cons c
      have hcons (text : List Char) : encode (c :: text) = first :: (rest ++ encode text) := by
        unfold encode
        rw [List.flatMap_cons, hfirst, List.cons_append]
      rw [hcons, mbTake, ← hrest, List.take_left, List.drop_left, ih, List.take_succ_cons, hcons,
        List.cons_append]

end Texts

section Keys

/-- SHA-1 as PHP writes it: the forty digits of a digest of twenty bytes. -/
def hexDigest (digest : Bytes → Vector UInt8 20) (text : Bytes) : Bytes :=
  encode (Hex.encode (digest text).toList)

/-- What a key is cut to that is too long. -/
def cut (sha1 : Bytes → Bytes) (key : Bytes) : Bytes :=
  key.take (300 - 41) ++ bytes "#" ++ sha1 key

/-- What tells tasks apart: the name of a callback, and the normalised command of the others. -/
inductive Identity where
  | named (name : Bytes)
  | commanded (command : Bytes)

/-- The key of an identity before it is cut. -/
def Identity.fullKey : Identity → Option Bytes
  | .named name => if name = [] then none else some (bytes "call:" ++ name)
  | .commanded command =>
    if (bytes "php artisan ").isPrefixOf command then
      some (bytes "artisan:" ++ command.drop (bytes "php artisan ").length)
    else some (bytes "exec:" ++ command)

/-- The identity of an event. -/
def Event.identity (event : Event) : Identity :=
  if event.isCallback then .named (event.description.getD [])
  else .commanded (trim event.command)

/-- The command and the name of an event are texts. -/
def Event.IsEncoding (event : Event) : Prop :=
  Utf8.IsEncoding event.command ∧ ∀ name ∈ event.description, Utf8.IsEncoding name

variable {digest : Bytes → Vector UInt8 20} {event event' : Event} {key key' : Bytes}

/-- The digest is one of forty ASCII characters. -/
theorem hexDigest_spec (digest : Bytes → Vector UInt8 20) (text : Bytes) :
    (hexDigest digest text).length = 40 ∧ ∀ c ∈ hexDigest digest text, c.toNat < 0x80 := by
  have hall : ("0123456789abcdefABCDEF".toList.all fun c => decide (c.toNat < 0x80)) = true := by
    decide
  have hascii : ∀ c ∈ Hex.encode (digest text).toList, c.toNat < 0x80 := fun c hc =>
    of_decide_eq_true
      (List.all_eq_true.mp hall c (Hex.mem_of_isDigit (Hex.isDigit_of_mem_encode hc)))
  unfold hexDigest
  rw [encode_eq_map hascii]
  constructor
  · rw [List.length_map, Hex.length_encode, Vector.length_toList]
  · intro b hb
    obtain ⟨c, hc, rfl⟩ := List.mem_map.mp hb
    have hsmall := hascii c hc
    rwa [UInt8.toNat_ofNat_of_lt' (Nat.lt_trans hsmall (by decide))]

theorem length_cut (h : 300 < key.length) : (cut (hexDigest digest) key).length = 300 := by
  unfold cut
  rw [List.length_append, List.length_append, List.length_take, (hexDigest_spec digest key).1]
  have hsharp : (bytes "#").length = 1 := by decide
  omega

/-- A cut key is a text exactly if it is cut between characters. -/
theorem isEncoding_cut (digest : Bytes → Vector UInt8 20) :
    Utf8.IsEncoding (cut (hexDigest digest) key) ↔ Utf8.IsEncoding (key.take (300 - 41)) := by
  unfold cut
  rw [isEncoding_append_ascii (hexDigest_spec digest key).2,
    isEncoding_append_ascii fun c hc => ?_]
  obtain rfl : c = 35 := List.mem_singleton.mp hc
  decide

/-- The key of an event is that of its identity. -/
theorem fullKey_eq (event : Event) : fullKey event = event.identity.fullKey := by
  unfold fullKey Event.identity
  split_ifs
  · cases event.description with
    | none => rfl
    | some name =>
      rw [Option.filter_some, Option.getD_some, Identity.fullKey]
      by_cases hname : name = []
      · rw [if_neg (by simpa using hname), if_pos hname]
        rfl
      · rw [if_pos (by simpa using hname), if_neg hname]
        rfl
  · rfl

/-- A key before it is cut belongs to one identity. -/
theorem Identity.fullKey_inj {identity identity' : Identity} (h : identity.fullKey = some key)
    (h' : identity'.fullKey = some key) : identity = identity' := by
  have hcall : bytes "call:" = [99, 97, 108, 108, 58] := by decide
  have hartisan : bytes "artisan:" = [97, 114, 116, 105, 115, 97, 110, 58] := by decide
  have hexec : bytes "exec:" = [101, 120, 101, 99, 58] := by decide
  unfold Identity.fullKey at h h'
  rw [hcall, hartisan, hexec] at h h'
  cases identity with
  | named name =>
    cases identity' with
    | named name' =>
      dsimp only at h h'
      split_ifs at h h'
      obtain rfl := Option.some_inj.mp h
      rw [List.append_cancel_left (Option.some_inj.mp h')]
    | commanded command =>
      dsimp only at h h'
      split_ifs at h h'
      · obtain rfl := Option.some_inj.mp h
        simp at h'
      · obtain rfl := Option.some_inj.mp h
        simp at h'
  | commanded command =>
    cases identity' with
    | named name =>
      dsimp only at h h'
      split_ifs at h h'
      · obtain rfl := Option.some_inj.mp h
        simp at h'
      · obtain rfl := Option.some_inj.mp h
        simp at h'
    | commanded command' =>
      dsimp only at h h'
      split_ifs at h h' with hphp hphp'
      · obtain rfl := Option.some_inj.mp h
        obtain ⟨rest, rfl⟩ := List.isPrefixOf_iff_prefix.mp hphp
        obtain ⟨rest', rfl⟩ := List.isPrefixOf_iff_prefix.mp hphp'
        rw [List.drop_left, List.drop_left] at h'
        rw [List.append_cancel_left (Option.some_inj.mp h')]
      · obtain rfl := Option.some_inj.mp h
        simp at h'
      · obtain rfl := Option.some_inj.mp h
        simp at h'
      · obtain rfl := Option.some_inj.mp h
        rw [List.append_cancel_left (Option.some_inj.mp h')]

/-- The key of an event before it is cut is a text. -/
theorem Event.IsEncoding.fullKey (h : event.IsEncoding) (hkey : Laravel.fullKey event = some key) :
    Utf8.IsEncoding key := by
  unfold Laravel.fullKey at hkey
  dsimp only at hkey
  split_ifs at hkey with hcallback hartisan
  · obtain ⟨name, hname, rfl⟩ := Option.map_eq_some_iff.mp hkey
    exact (isEncoding_append (isEncoding_bytes _)).mpr
      (h.2 name (Option.eq_some_of_filter_eq_some hname))
  · obtain rfl := Option.some_inj.mp hkey
    exact (isEncoding_append (isEncoding_bytes _)).mpr
      (isEncoding_drop (isEncoding_bytes _) hartisan (isEncoding_trim h.1))
  · obtain rfl := Option.some_inj.mp hkey
    exact (isEncoding_append (isEncoding_bytes _)).mpr (isEncoding_trim h.1)

/-- What follows the kind of a key is a text. -/
theorem isEncoding_withoutKind (h : Utf8.IsEncoding key) : Utf8.IsEncoding (withoutKind key) := by
  have hdrop (literal : String) {rest : Bytes}
      (hrest : dropPrefix? (bytes literal) key = some rest) : Utf8.IsEncoding rest := by
    unfold dropPrefix? at hrest
    split_ifs at hrest with hstarts
    obtain rfl := Option.some_inj.mp hrest
    exact isEncoding_drop (isEncoding_bytes _) hstarts h
  unfold withoutKind
  cases hartisan : dropPrefix? (bytes "artisan:") key with
  | some rest => exact hdrop _ hartisan
  | none =>
    cases hexec : dropPrefix? (bytes "exec:") key with
    | some rest => exact hdrop _ hexec
    | none =>
      cases hcall : dropPrefix? (bytes "call:") key with
      | some rest => exact hdrop _ hcall
      | none => exact h

/-- The name of a task is a text if its key is. -/
theorem Event.IsEncoding.nameOf {sha1 : Bytes → Bytes} (h : event.IsEncoding)
    (hkey : keyOf sha1 event = some key) (htext : Utf8.IsEncoding key) :
    Utf8.IsEncoding (nameOf sha1 event) := by
  have hname : Utf8.IsEncoding
      ((event.description.filter (· ≠ [])).getD (withoutKind ((keyOf sha1 event).getD []))) := by
    cases hdescription : event.description.filter (· ≠ []) with
    | none =>
      rw [hkey]
      exact isEncoding_withoutKind htext
    | some name => exact h.2 name (Option.eq_some_of_filter_eq_some hdescription)
  unfold Laravel.nameOf
  dsimp only
  split_ifs
  · obtain ⟨text, htext⟩ := isEncoding_iff.mp hname
    rw [htext, mbTake_encode]
    exact (isEncoding_append (isEncoding_encode _)).mpr (isEncoding_bytes _)
  · exact hname

end Keys

section Soundness

/-- What the keys of a schedule are for: each is a text of 300 characters at most, none is that
of two commands or names, and the requests of a declaration can be encoded at any instant. -/
structure KeysSound (sha1 : Bytes → Bytes) (settings : Settings) (defaultTimezone : List Char)
    (nextRuns : NextRuns) (schedule : List Event) : Prop where
  text : ∀ event ∈ schedule, ∀ key, keyOf sha1 event = some key →
    ∃ text, key = encode text ∧ text.length ≤ 300
  distinct : ∀ event ∈ schedule, ∀ event' ∈ schedule, ∀ key, keyOf sha1 event = some key →
    keyOf sha1 event' = some key → event.identity = event'.identity
  encodes : ∀ now, ∀ payload ∈ settings.payloads
      (fun key => (read sha1 defaultTimezone (gap nextRuns now) schedule).oneServer.contains key)
      (tasks sha1 defaultTimezone nextRuns schedule now), payload.json.isSome = true

/-- No key of a schedule is cut within a character. -/
def CutAtCharacters (schedule : List Event) : Prop :=
  ∀ event ∈ schedule, ∀ key, fullKey event = some key → 300 < key.length →
    Utf8.IsEncoding (key.take (300 - 41))

/-- No key of a schedule that is short enough is spelt like what another one is cut to. -/
def CutsNew (sha1 : Bytes → Bytes) (schedule : List Event) : Prop :=
  ∀ event ∈ schedule, ∀ event' ∈ schedule, ∀ key key', fullKey event = some key →
    fullKey event' = some key' → key.length ≤ 300 → 300 < key'.length → key ≠ cut sha1 key'

/-- No two keys of a schedule have one digest. -/
def DigestsApart (digest : Bytes → Vector UInt8 20) (schedule : List Event) : Prop :=
  ∀ event ∈ schedule, ∀ event' ∈ schedule, ∀ key key', fullKey event = some key →
    fullKey event' = some key' → digest key = digest key' → key = key'

variable {digest : Bytes → Vector UInt8 20} {schedule : List Event} {settings : Settings}
  {defaultTimezone : List Char} {nextRuns : NextRuns} {key key' : Bytes}

theorem bounded_eq (sha1 : Bytes → Bytes) (key : Bytes) :
    bounded sha1 key = if 300 < key.length then cut sha1 key else key := rfl

/-- The digits of a digest tell it. -/
theorem hexDigest_inj (h : hexDigest digest key = hexDigest digest key') :
    digest key = digest key' := by
  unfold hexDigest at h
  have htext := congrArg decode h
  rw [show decode (encode _) = _ from decode_encode _,
    show decode (encode _) = _ from decode_encode _] at htext
  have hbytes := congrArg Hex.decode htext
  rw [Hex.decode_encode, Hex.decode_encode] at hbytes
  exact Vector.toList_inj.mp hbytes

/-- Keys that are cut to the same are the same, unless their digests are. -/
theorem eq_of_cut_eq (h : 300 < key.length) (h' : 300 < key'.length)
    (hcut : cut (hexDigest digest) key = cut (hexDigest digest) key') :
    digest key = digest key' := by
  unfold cut at hcut
  have hstart : (key.take (300 - 41) ++ bytes "#").length =
      (key'.take (300 - 41) ++ bytes "#").length := by
    simp only [List.length_append, List.length_take]
    omega
  exact hexDigest_inj (List.append_inj hcut hstart).2

/-- A key is a text of 300 characters at most, exactly if it is not cut within a character. -/
theorem text_bounded_iff (digest : Bytes → Vector UInt8 20) (htext : Utf8.IsEncoding key) :
    (∃ text, bounded (hexDigest digest) key = encode text ∧ text.length ≤ 300) ↔
      (300 < key.length → Utf8.IsEncoding (key.take (300 - 41))) := by
  rw [bounded_eq]
  by_cases hlong : 300 < key.length
  · rw [if_pos hlong, imp_iff_right hlong, ← isEncoding_cut digest, isEncoding_iff]
    refine exists_congr fun text => and_iff_left_of_imp fun hcut => ?_
    have hlength := length_le_encode text
    rw [← hcut, length_cut hlong] at hlength
    exact hlength
  · rw [if_neg hlong]
    refine iff_of_true ?_ fun h => absurd h hlong
    obtain ⟨text, rfl⟩ := isEncoding_iff.mp htext
    exact ⟨text, rfl, Nat.le_trans (length_le_encode text) (Nat.not_lt.mp hlong)⟩

/-- Keys tell identities apart, exactly if no key is spelt like one that was cut. -/
theorem distinct_iff (hdigest : DigestsApart digest schedule) :
    (∀ event ∈ schedule, ∀ event' ∈ schedule, ∀ key,
      keyOf (hexDigest digest) event = some key → keyOf (hexDigest digest) event' = some key →
        event.identity = event'.identity) ↔ CutsNew (hexDigest digest) schedule := by
  constructor
  · rintro hdistinct event hevent event' hevent' key key' hkey hkey' hshort hlong rfl
    have hown : keyOf (hexDigest digest) event = some (cut (hexDigest digest) key') := by
      unfold keyOf
      rw [hkey, Option.map_some, bounded_eq, if_neg (Nat.not_lt.mpr hshort)]
    have hcut : keyOf (hexDigest digest) event' = some (cut (hexDigest digest) key') := by
      unfold keyOf
      rw [hkey', Option.map_some, bounded_eq, if_pos hlong]
    have hsame := hdistinct event hevent event' hevent' _ hown hcut
    rw [fullKey_eq, hsame, ← fullKey_eq, hkey'] at hkey
    have hlength := congrArg List.length (Option.some_inj.mp hkey)
    omega
  · intro hnew event hevent event' hevent' key hkey hkey'
    obtain ⟨full, hfull, hbounded⟩ := Option.map_eq_some_iff.mp hkey
    obtain ⟨full', hfull', hbounded'⟩ := Option.map_eq_some_iff.mp hkey'
    have hsame : full = full' := by
      rw [← hbounded', bounded_eq, bounded_eq] at hbounded
      split_ifs at hbounded with hlong hlong' hlong'
      · exact hdigest event hevent event' hevent' full full' hfull hfull'
          (eq_of_cut_eq hlong hlong' hbounded)
      · exact absurd hbounded.symm
          (hnew event' hevent' event hevent full' full hfull' hfull (by omega) hlong)
      · exact absurd hbounded
          (hnew event hevent event' hevent' full full' hfull hfull' (by omega) hlong')
      · exact hbounded
    subst hsame
    rw [fullKey_eq] at hfull hfull'
    exact Identity.fullKey_inj hfull hfull'

/-- The key and the name of a declared task are those of an event. -/
theorem exists_event_of_mem_tasks {sha1 : Bytes → Bytes} {now : ℕ} {task : Task}
    (h : task ∈ tasks sha1 defaultTimezone nextRuns schedule now) :
    ∃ event ∈ schedule, keyOf sha1 event = some task.key ∧ task.name = nameOf sha1 event := by
  have hrival := (List.mem_filter.mp (List.argmin_mem (mem_tasks.mp h))).1
  obtain ⟨event, hevent, hjudge⟩ := List.mem_filterMap.mp hrival
  refine ⟨event, hevent, ?_⟩
  unfold judge at hjudge
  cases hkey : keyOf sha1 event with
  | none =>
    rw [hkey] at hjudge
    dsimp only at hjudge
    split_ifs at hjudge
    · cases hjudge
    · cases hjudge
  | some key =>
    rw [hkey] at hjudge
    dsimp only at hjudge
    split_ifs at hjudge
    · cases hjudge
    · cases hjudge
    · cases hjudge
    · obtain rfl := Option.some_inj.mp hjudge
      exact ⟨rfl, rfl⟩

/-- The requests of a declaration are about its tasks. -/
theorem mem_of_mem_payloads {runsOnOneServer : Bytes → Bool} {declared : List Task}
    {payload : Payload} (h : payload ∈ settings.payloads runsOnOneServer declared)
    {check : Task × ℤ} (hcheck : check ∈ payload.checks) : check.1 ∈ declared := by
  have hgroup (group : List Task) (environment : List Char)
      (hpayload : payload ∈ if group.isEmpty then [] else [settings.payload group environment]) :
      check.1 ∈ group := by
    split_ifs at hpayload
    · exact absurd hpayload List.not_mem_nil
    · obtain rfl := List.mem_singleton.mp hpayload
      obtain ⟨task, htask, rfl⟩ := List.mem_map.mp hcheck
      exact htask
  unfold Settings.payloads at h
  rcases List.mem_append.mp h with hshared | hperInstance
  · exact mem_splitBy.mp (Or.inl (hgroup _ _ hshared))
  · exact mem_splitBy.mp (Or.inr (hgroup _ _ hperInstance))

/-- **Task keys.** The keys of a schedule are sound, if and only if none is cut within a
character and none that is short enough is spelt like what another one is cut to. -/
theorem keysSound_iff (digest : Bytes → Vector UInt8 20) (settings : Settings)
    (defaultTimezone : List Char) (nextRuns : NextRuns) (schedule : List Event)
    (hschedule : ∀ event ∈ schedule, event.IsEncoding) (hdigest : DigestsApart digest schedule) :
    KeysSound (hexDigest digest) settings defaultTimezone nextRuns schedule ↔
      CutAtCharacters schedule ∧ CutsNew (hexDigest digest) schedule := by
  constructor
  · intro hsound
    refine ⟨fun event hevent key hkey => ?_, (distinct_iff hdigest).mp hsound.distinct⟩
    rw [← text_bounded_iff digest ((hschedule event hevent).fullKey hkey)]
    exact hsound.text event hevent _ (by unfold keyOf; rw [hkey]; rfl)
  · rintro ⟨hcut, hnew⟩
    have htext : ∀ event ∈ schedule, ∀ key, keyOf (hexDigest digest) event = some key →
        ∃ text, key = encode text ∧ text.length ≤ 300 := by
      intro event hevent key hkey
      obtain ⟨full, hfull, rfl⟩ := Option.map_eq_some_iff.mp hkey
      exact (text_bounded_iff digest ((hschedule event hevent).fullKey hfull)).mpr
        (hcut event hevent full hfull)
    refine ⟨htext, (distinct_iff hdigest).mpr hnew, fun now payload hpayload => ?_⟩
    refine Payload.isSome_json fun check hcheck => ?_
    obtain ⟨event, hevent, hkey, hname⟩ :=
      exists_event_of_mem_tasks (mem_of_mem_payloads hpayload hcheck)
    obtain ⟨text, hencode, _⟩ := htext event hevent _ hkey
    have hkeyText : Utf8.IsEncoding check.1.key := hencode ▸ isEncoding_encode text
    exact ⟨hkeyText, hname ▸ (hschedule event hevent).nameOf hkey hkeyText⟩

/-- A callback with a name. -/
def callback (name : Bytes) : Event where
  isCallback := true
  description := some name
  command := []
  expression := "0 * * * *".toList
  timezone := none
  runsInEnvironment := true
  onOneServer := false
  withoutOverlapping := false
  filters := 0
  rejects := 0

theorem fullKey_callback {name : Bytes} (hne : name ≠ []) :
    fullKey (callback name) = some (bytes "call:" ++ name) := by
  rw [fullKey_eq]
  unfold Identity.fullKey Event.identity
  exact if_neg hne

/-- A name of one letter, as often as it is said. -/
def letters (n : ℕ) : Bytes := encode (List.replicate n 'x')

theorem letters_eq (n : ℕ) : letters n = List.replicate n 120 := by
  unfold letters
  rw [encode_eq_map, List.map_replicate]
  · rfl
  · intro c hc
    rw [List.eq_of_mem_replicate hc]
    decide

theorem length_letters (n : ℕ) : (letters n).length = n := by
  rw [letters_eq, List.length_replicate]

theorem isEncoding_letters (n : ℕ) : Utf8.IsEncoding (letters n) := isEncoding_encode _

theorem letters_append (m n : ℕ) : letters m ++ letters n = letters (m + n) := by
  rw [letters_eq, letters_eq, letters_eq, List.replicate_append_replicate]

/-- The digest of `artisan:inspire`. -/
def inspireDigest : Vector UInt8 20 :=
  #v[250, 58, 109, 87, 254, 72, 177, 60, 150, 5, 121, 190, 55, 90, 34, 217, 46, 137, 7, 205]

/-- The digest of `call:` and 320 letters. -/
def lettersDigest : Vector UInt8 20 :=
  #v[207, 185, 86, 83, 72, 244, 254, 119, 203, 187, 62, 111, 228, 209, 219, 74, 7, 111,
    48, 41]

/-- The digests of the two keys. -/
def twoDigests (key : Bytes) : Vector UInt8 20 :=
  if key.length ≤ 300 then inspireDigest else lettersDigest

/-- A command, and a callback whose key is cut. -/
theorem keysSound_inspire : KeysSound (hexDigest twoDigests)
    ⟨['p'], true, 300, [], none⟩ ['U'] (fun _ _ _ => none)
    [inspire "0 * * * *", callback (letters 320)] := by
  have hinspire : fullKey (inspire "0 * * * *") = some (bytes "artisan:inspire") := by decide
  have hcallback : fullKey (callback (letters 320)) = some (bytes "call:" ++ letters 320) :=
    fullKey_callback fun h => by simpa [h] using length_letters 320
  have hshort : (bytes "artisan:inspire").length = 15 := by decide
  have hlong : (bytes "call:" ++ letters 320).length = 325 := by
    rw [List.length_append, length_letters]
    rfl
  have hkeys : ∀ event ∈ [inspire "0 * * * *", callback (letters 320)], ∀ key,
      fullKey event = some key → key = bytes "artisan:inspire" ∨ key = bytes "call:" ++ letters 320 := by
    intro event hevent key hkey
    simp only [List.mem_cons, List.not_mem_nil, or_false] at hevent
    rcases hevent with rfl | rfl
    · exact Or.inl (Option.some_inj.mp (hkey.symm.trans hinspire))
    · exact Or.inr (Option.some_inj.mp (hkey.symm.trans hcallback))
  refine (keysSound_iff _ _ _ _ _ ?_ ?_).mpr ⟨?_, ?_⟩
  · intro event hevent
    simp only [List.mem_cons, List.not_mem_nil, or_false] at hevent
    rcases hevent with rfl | rfl
    · exact ⟨isEncoding_bytes _, fun name hname => by cases hname⟩
    · refine ⟨isEncoding_nil, fun name hname => ?_⟩
      obtain rfl := Option.some_inj.mp hname
      exact isEncoding_letters _
  · intro event hevent event' hevent' key key' hkey hkey' hdigest
    have happart : inspireDigest ≠ lettersDigest := by decide
    unfold twoDigests at hdigest
    rcases hkeys event hevent key hkey with rfl | rfl <;>
      rcases hkeys event' hevent' key' hkey' with rfl | rfl
    · rfl
    · rw [hshort, hlong] at hdigest
      exact absurd hdigest happart
    · rw [hshort, hlong] at hdigest
      exact absurd hdigest.symm happart
    · rfl
  · intro event hevent key hkey hcut
    rcases hkeys event hevent key hkey with rfl | rfl
    · omega
    -- Behind the 259th byte, within the letters.
    · rw [show 320 = 254 + 66 from rfl, ← letters_append, ← List.append_assoc,
        List.take_left' (by rw [List.length_append, length_letters]; rfl)]
      exact (isEncoding_append (isEncoding_bytes _)).mpr (isEncoding_letters _)
  · intro event hevent event' hevent' key key' hkey hkey' hle hcut
    rcases hkeys event hevent key hkey with rfl | rfl
    · rcases hkeys event' hevent' key' hkey' with rfl | rfl
      · omega
      · intro heq
        have hsame := congrArg List.length heq
        rw [hshort, length_cut hcut] at hsame
        omega
    · omega

/-- A name whose letter of two bytes stands where its key is cut. -/
def longName : Bytes :=
  letters 253 ++ ([195, 169] ++ letters 60)

/-- A callback with a long name. -/
def longNamed : Event := callback longName

/-- A key is cut within a letter, and is no text. -/
theorem not_keysSound_longNamed : ¬ ∀ digest settings defaultTimezone nextRuns schedule,
    (∀ event ∈ schedule, Event.IsEncoding event) → DigestsApart digest schedule →
      KeysSound (hexDigest digest) settings defaultTimezone nextRuns schedule := by
  intro h
  have hname : Utf8.IsEncoding longName :=
    (isEncoding_append (isEncoding_letters _)).mpr
      ((isEncoding_append (by decide)).mpr (isEncoding_letters _))
  have hkey : fullKey longNamed = some (bytes "call:" ++ longName) :=
    fullKey_callback (List.append_ne_nil_of_right_ne_nil _ (List.cons_ne_nil _ _))
  have hsound := h (fun _ => inspireDigest) ⟨['p'], true, 300, [], none⟩ ['U'] (fun _ _ _ => none)
    [longNamed] ?_ ?_
  · have htext := hsound.text longNamed List.mem_cons_self _ (congrArg _ hkey)
    rw [text_bounded_iff _ ((isEncoding_append (isEncoding_bytes _)).mpr hname)] at htext
    have hcall : (bytes "call:").length = 5 := by decide
    have hsplit (front back : Bytes) : bytes "call:" ++ (front ++ ([195, 169] ++ back)) =
        (bytes "call:" ++ front ++ [195]) ++ ([169] ++ back) := by
      rw [List.append_assoc, List.append_assoc]
      rfl
    unfold longName at htext
    rw [hsplit] at htext
    have hcut := htext (by
      rw [List.length_append, List.length_append, List.length_append, hcall, length_letters,
        List.length_append, length_letters]
      decide)
    rw [List.take_left' (by rw [List.length_append, List.length_append, hcall, length_letters]; rfl),
      isEncoding_append ((isEncoding_append (isEncoding_bytes _)).mpr (isEncoding_letters _))]
      at hcut
    exact absurd hcut (by decide)
  · intro event hevent
    obtain rfl := List.mem_singleton.mp hevent
    refine ⟨isEncoding_nil, fun name hname' => ?_⟩
    obtain rfl := Option.some_inj.mp hname'
    exact hname
  · intro event hevent event' hevent' key key' hkey hkey' _
    obtain rfl := List.mem_singleton.mp hevent
    obtain rfl := List.mem_singleton.mp hevent'
    exact Option.some_inj.mp (hkey.symm.trans hkey')

end Soundness

end SilenceWatch.Laravel
