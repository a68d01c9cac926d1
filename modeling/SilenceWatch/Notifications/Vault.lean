import Mathlib.Data.List.Nodup
import SilenceWatch.Library.Aead
import SilenceWatch.Library.Base64
import SilenceWatch.Library.Json
import SilenceWatch.Library.Utf8

/-!
# The vault of channel configurations

A configuration is sealed under a key and bound to its channel: what was sealed opens for its
channel under its key and nowhere else, and nothing else opens but what was never sealed.
-/

namespace SilenceWatch

open Aead (Bytes)
open Json (NumberFormat Units Value)

/-- What the vault uses of `node:crypto`: `aes-256-gcm`, `sha256` and `hkdfSync`. -/
structure NodeCrypto where
  cipher : Aead.Cipher
  sha256 : Bytes → Bytes
  hkdfSync : (secret salt purpose : String) → (length : ℕ) → Bytes

/-- `deriveKey`. -/
def deriveKey (crypto : NodeCrypto) (secret purpose : String) : Bytes :=
  crypto.hkdfSync secret "silencewatch" purpose 32

/-- `sha256Hex`. -/
def sha256Hex (crypto : NodeCrypto) (value : Bytes) : List Char :=
  (crypto.sha256 value).flatMap fun b => [(b.toNat / 16).digitChar, (b.toNat % 16).digitChar]

/-- `Buffer.from(text)`. -/
def utf8 (text : List Char) : Bytes := text.flatMap String.utf8EncodeChar

/-- What is thrown: a `ChannelConfigError`, by `node:crypto` or by `JSON.parse`. -/
inductive Thrown
  | channelConfigError (message : String)
  | cryptoError
  | syntaxError

/-- `{ sealed: text }`. -/
def sealedConfig {ν : Type} (text : List Char) : Value ν :=
  .object [(Json.units "sealed".toList, .string (Json.units text))]

/-- The `sealed` text of a stored value, if there is one. -/
def sealed? {ν : Type} (stored : Value ν) : Option Units :=
  match stored.get? (Json.units "sealed".toList) with
  | some (.string text) => some text
  | _ => none

/-- The parts of a sealed text, as they are written. What comes behind the fifth is ignored. -/
structure Parts where
  version : Units
  keyId : Units
  iv : Units
  body : Units
  tag : Units
  deriving DecidableEq

/-- `stored.sealed.split('.')`, where the parts that are read are there. -/
def parts? (text : Units) : Option Parts :=
  match text.splitOn (UInt16.ofNat '.'.toNat) with
  | version :: keyId :: iv :: body :: tag :: _ => some ⟨version, keyId, iv, body, tag⟩
  | _ => none

/-- `Buffer.from(part, 'base64url')`. -/
def decodedPart (part : Units) : Bytes := Base64.decode (part.map UInt16.toNat)

/-- `ChannelConfigVault`: its key. -/
structure ChannelConfigVault where
  key : Bytes
  deriving DecidableEq

namespace ChannelConfigVault

/-- `VERSION`. -/
def version : List Char := "v1".toList

variable {ν : Type} (crypto : NodeCrypto) (numbers : NumberFormat ν)

/-- `constructor`. -/
def ofSecret (secret : String) : ChannelConfigVault := ⟨deriveKey crypto secret "channel-config"⟩

/-- Which key it is. -/
def keyId (vault : ChannelConfigVault) : List Char := (sha256Hex crypto vault.key).take 8

/-- `isSealed`. -/
def isSealed (stored : Value ν) : Bool := (sealed? stored).isSome

/-- `seal`, with the random bytes. -/
def sealConfig (vault : ChannelConfigVault) (iv : Bytes) (channelId : String) (config : Value ν) :
    Value ν :=
  let (body, tag) := crypto.cipher.encrypt vault.key iv (utf8 channelId.toList)
    (utf8 (Json.print numbers config))
  sealedConfig (List.intercalate ['.']
    [version, vault.keyId crypto, Base64.encode iv, Base64.encode body, Base64.encode tag])

/-- What the `try` of `open` does. -/
def decipher (vault : ChannelConfigVault) (channelId : String) (parts : Parts) :
    Except Thrown (Value ν) := do
  let text ← (crypto.cipher.decrypt vault.key (decodedPart parts.iv) (utf8 channelId.toList)
    (decodedPart parts.body) (decodedPart parts.tag)).elim (.error .cryptoError) .ok
  (Json.read numbers (Utf8.decode text)).elim (.error .syntaxError) .ok

/-- `open`. -/
def openConfig (vault : ChannelConfigVault) (channelId : String) (stored : Value ν) :
    Except Thrown (Value ν) :=
  match sealed? stored with
  | none => .ok stored
  | some text =>
    match (parts? text).filter (·.version = Json.units version) with
    | none => .error (.channelConfigError
        "the channel configuration is not in a format this version reads")
    | some parts =>
      if parts.keyId ≠ Json.units (vault.keyId crypto) then
        .error (.channelConfigError
          ("the channel configuration was sealed with another SECRET_KEY: run `silencewatch reseal` " ++
            "with OLD_SECRET_KEY set to the previous value"))
      else
        tryCatch (decipher crypto numbers vault channelId parts) fun _ =>
          .error (.channelConfigError
            "the channel configuration is damaged or belongs to another channel")

end ChannelConfigVault

/-- A call of `seal`. -/
structure Seal (ν : Type) where
  vault : ChannelConfigVault
  iv : Bytes
  channelId : String
  config : Value ν

variable {ν : Type} (crypto : NodeCrypto) (numbers : NumberFormat ν)

/-- What a seal encrypts. -/
def Seal.call (s : Seal ν) : Aead.Call :=
  ⟨s.vault.key, s.iv, utf8 s.channelId.toList, utf8 (Json.print numbers s.config)⟩

/-- What a seal returns. -/
def Seal.stored (s : Seal ν) : Value ν :=
  s.vault.sealConfig crypto numbers s.iv s.channelId s.config

/-- The decoded parts of a text are those that the seal produced together. -/
def Seal.Produces (s : Seal ν) (text : Units) : Prop :=
  ∃ parts, parts? text = some parts ∧ parts.version = Json.units ChannelConfigVault.version ∧
    parts.keyId = Json.units (s.vault.keyId crypto) ∧ decodedPart parts.iv = s.iv ∧
    crypto.cipher.output (s.call numbers) = (decodedPart parts.body, decodedPart parts.tag)

/-- A `ChannelConfigError` is raised. -/
def Raises {α : Type} (result : Except Thrown α) : Prop :=
  ∃ message, result = .error (.channelConfigError message)

variable {crypto} {numbers} {seals : Set (Seal ν)} {vault : ChannelConfigVault} {channelId : String}
  {stored config : Value ν} {text : Units}

section Parts

/-- A sealed text is recognised. -/
theorem sealed?_sealedConfig (text : List Char) :
    sealed? (sealedConfig text : Value ν) = some (Json.units text) := by
  simp [sealed?, sealedConfig, Value.get?]

/-- Text in base64url is decoded from its units. -/
theorem decodedPart_encode (bytes : Bytes) :
    decodedPart (Json.units (Base64.encode bytes)) = bytes := by
  rw [decodedPart, Json.map_toNat_units, Base64.decode_encode]
  intro c hc
  have hascii := (Base64.toNat_of_mem_encode hc).2.1
  omega

/-- A character of a part: printable ASCII, and no full stop. -/
def IsPartChar (c : Char) : Prop := 0x20 ≤ c.toNat ∧ c.toNat < 0x7F ∧ c ≠ '.'
  deriving Decidable

/-- The id of a key is a part. -/
theorem isPartChar_of_mem_keyId {c : Char} (hc : c ∈ vault.keyId crypto) : IsPartChar c := by
  have hall : ∀ n < 16, IsPartChar n.digitChar := by decide
  obtain ⟨b, -, hb⟩ := List.mem_flatMap.mp (List.mem_of_mem_take hc)
  have hlt := b.toNat_lt
  rcases List.mem_cons.mp hb with rfl | hb
  · exact hall _ (by omega)
  · rw [List.mem_singleton.mp hb]
    exact hall _ (by omega)

/-- Joined parts are taken apart. -/
theorem parts?_intercalate {version keyId iv body tag : List Char}
    (hparts : ∀ part ∈ [version, keyId, iv, body, tag], ∀ c ∈ part, IsPartChar c) :
    parts? (Json.units (List.intercalate ['.'] [version, keyId, iv, body, tag])) =
      some ⟨Json.units version, Json.units keyId, Json.units iv, Json.units body,
        Json.units tag⟩ := by
  have hsplit : (Json.units (List.intercalate ['.'] [version, keyId, iv, body, tag])).splitOn
      (UInt16.ofNat '.'.toNat) = [version, keyId, iv, body, tag].map Json.units := by
    rw [Json.units_intercalate (by decide), List.splitOn_intercalate]
    · intro part hpart
      obtain ⟨chars, hchars, rfl⟩ := List.mem_map.mp hpart
      refine Json.ofNat_notMem_units (by decide) ?_ ?_
      · intro c hc
        have hascii := (hparts chars hchars c hc).2.1
        omega
      · intro hdot
        exact (hparts chars hchars '.' hdot).2.2 rfl
    · simp
  rw [parts?, hsplit]
  rfl

end Parts

section Opening

/-- What was never sealed opens to itself. -/
theorem openConfig_of_not_isSealed (h : ChannelConfigVault.isSealed stored = false) :
    vault.openConfig crypto numbers channelId stored = .ok stored := by
  unfold ChannelConfigVault.isSealed at h
  rw [Option.isSome_eq_false_iff, Option.isNone_iff_eq_none] at h
  rw [ChannelConfigVault.openConfig, h]

/-- A sealed configuration opens exactly if it is deciphered. -/
theorem openConfig_eq_ok_iff (hsealed : sealed? stored = some text) :
    vault.openConfig crypto numbers channelId stored = .ok config ↔
      ∃ parts, parts? text = some parts ∧
        parts.version = Json.units ChannelConfigVault.version ∧
        parts.keyId = Json.units (vault.keyId crypto) ∧
        vault.decipher crypto numbers channelId parts = .ok config := by
  rw [ChannelConfigVault.openConfig, hsealed]
  dsimp only
  cases hparts : parts? text with
  | none => simp
  | some parts =>
    rw [Option.filter_some]
    by_cases hversion : parts.version = Json.units ChannelConfigVault.version
    · rw [if_pos (decide_eq_true hversion)]
      by_cases hkey : parts.keyId = Json.units (vault.keyId crypto)
      · dsimp only
        rw [if_neg (not_not.mpr hkey)]
        cases hdecipher : vault.decipher crypto numbers channelId parts with
        | ok opened => simp [tryCatch, tryCatchThe, MonadExceptOf.tryCatch, Except.tryCatch,
          hversion, hkey, hdecipher]
        | error thrown => simp [tryCatch, tryCatchThe, MonadExceptOf.tryCatch, Except.tryCatch,
          hversion, hkey, hdecipher]
      · simp [hkey]
    · simp [hversion]

/-- Whatever is thrown while deciphering, a `ChannelConfigError` is raised. -/
theorem openConfig_error {thrown : Thrown}
    (h : vault.openConfig crypto numbers channelId stored = .error thrown) :
    ∃ message, thrown = .channelConfigError message := by
  unfold ChannelConfigVault.openConfig at h
  split at h
  · cases h
  · split at h
    · exact ⟨_, (Except.error.inj h).symm⟩
    · next parts _ =>
      split at h
      · exact ⟨_, (Except.error.inj h).symm⟩
      · cases hdecipher : vault.decipher crypto numbers channelId parts with
        | ok opened =>
          rw [hdecipher] at h
          cases h
        | error thrown' =>
          rw [hdecipher] at h
          exact ⟨_, (Except.error.inj h).symm⟩

/-- What does not open raises a `ChannelConfigError`. -/
theorem raises_of_not_ok
    (h : ∀ config, vault.openConfig crypto numbers channelId stored ≠ .ok config) :
    Raises (vault.openConfig crypto numbers channelId stored) := by
  cases hopen : vault.openConfig crypto numbers channelId stored with
  | ok config => exact absurd hopen (h config)
  | error thrown =>
    obtain ⟨message, rfl⟩ := openConfig_error hopen
    exact ⟨message, rfl⟩

/-- Ids are known by their bytes. -/
theorem utf8_injective {text text' : List Char} (h : utf8 text = utf8 text') : text = text' := by
  rw [← Utf8.decode_encode text, ← Utf8.decode_encode text']
  exact congrArg Utf8.decode h

/-- Deciphering gives what is encrypted in the call that the parts came out of. -/
theorem decipher_eq_ok_iff (hideal : crypto.cipher.Ideal (Seal.call numbers '' seals))
    {parts : Parts} : vault.decipher crypto numbers channelId parts = .ok config ↔
      ∃ s ∈ seals, s.vault = vault ∧ s.channelId = channelId ∧ s.config = config ∧
        decodedPart parts.iv = s.iv ∧
        crypto.cipher.output (s.call numbers) =
          (decodedPart parts.body, decodedPart parts.tag) := by
  have hopens : vault.decipher crypto numbers channelId parts = .ok config ↔
      ∃ bytes, crypto.cipher.decrypt vault.key (decodedPart parts.iv) (utf8 channelId.toList)
        (decodedPart parts.body) (decodedPart parts.tag) = some bytes ∧
        Json.read numbers (Utf8.decode bytes) = some config := by
    unfold ChannelConfigVault.decipher
    cases hdecrypt : crypto.cipher.decrypt vault.key (decodedPart parts.iv) (utf8 channelId.toList)
        (decodedPart parts.body) (decodedPart parts.tag) with
    | none => simp [Except.bind, bind]
    | some bytes =>
      cases hread : Json.read numbers (Utf8.decode bytes) with
      | none => simp [Except.bind, bind, hread]
      | some value => simp [Except.bind, bind, hread]
  have htext : ∀ s : Seal ν, Json.read numbers (Utf8.decode (s.call numbers).text) =
      some s.config := by
    intro s
    have hdecode : Utf8.decode (s.call numbers).text = Json.print numbers s.config :=
      Utf8.decode_encode _
    rw [hdecode, Json.read_print]
  rw [hopens]
  constructor
  · rintro ⟨bytes, hdecrypt, hread⟩
    obtain ⟨_, ⟨s, hs, rfl⟩, hkey, hiv, haad, houtput, rfl⟩ :=
      hideal.decrypt_eq_some_iff.mp hdecrypt
    rw [htext s] at hread
    refine ⟨s, hs, ?_, ?_, Option.some_inj.mp hread, hiv.symm, houtput⟩
    · exact congrArg ChannelConfigVault.mk hkey
    · exact String.toList_inj.mp (utf8_injective haad)
  · rintro ⟨s, hs, rfl, rfl, rfl, hiv, houtput⟩
    exact ⟨_, hideal.decrypt_eq_some_iff.mpr
      ⟨_, ⟨s, hs, rfl⟩, rfl, hiv.symm, rfl, houtput, rfl⟩, htext s⟩

/-- **A sealed configuration opens to what was sealed** under this key for this channel. -/
theorem openConfig_eq_ok_iff_produces (hideal : crypto.cipher.Ideal (Seal.call numbers '' seals))
    (hsealed : sealed? stored = some text) :
    vault.openConfig crypto numbers channelId stored = .ok config ↔
      ∃ s ∈ seals, s.vault = vault ∧ s.channelId = channelId ∧ s.Produces crypto numbers text ∧
        s.config = config := by
  rw [openConfig_eq_ok_iff hsealed]
  constructor
  · rintro ⟨parts, hparts, hversion, hkey, hdecipher⟩
    obtain ⟨s, hs, rfl, rfl, rfl, hiv, houtput⟩ := (decipher_eq_ok_iff hideal).mp hdecipher
    exact ⟨s, hs, rfl, rfl, ⟨parts, hparts, hversion, hkey, hiv, houtput⟩, rfl⟩
  · rintro ⟨s, hs, rfl, rfl, ⟨parts, hparts, hversion, hkey, hiv, houtput⟩, rfl⟩
    exact ⟨parts, hparts, hversion, hkey,
      (decipher_eq_ok_iff hideal).mpr ⟨s, hs, rfl, rfl, rfl, hiv, houtput⟩⟩

/-- The parts of a sealed text. -/
def Seal.parts (crypto : NodeCrypto) (numbers : NumberFormat ν) (s : Seal ν) : List (List Char) :=
  let (body, tag) := crypto.cipher.output (s.call numbers)
  [ChannelConfigVault.version, s.vault.keyId crypto, Base64.encode s.iv, Base64.encode body,
    Base64.encode tag]

theorem Seal.isPartChar (crypto : NodeCrypto) (numbers : NumberFormat ν) (s : Seal ν) :
    ∀ part ∈ s.parts crypto numbers, ∀ c ∈ part, IsPartChar c := by
  intro part hpart c hc
  simp only [Seal.parts, List.mem_cons, List.not_mem_nil, or_false] at hpart
  rcases hpart with rfl | rfl | rfl | rfl | rfl
  · have hversion : ChannelConfigVault.version.all (IsPartChar ·) = true := by decide
    exact of_decide_eq_true (List.all_eq_true.mp hversion c hc)
  · exact isPartChar_of_mem_keyId hc
  · exact Base64.toNat_of_mem_encode hc
  · exact Base64.toNat_of_mem_encode hc
  · exact Base64.toNat_of_mem_encode hc

/-- A seal returns its parts, joined. -/
theorem Seal.stored_eq (crypto : NodeCrypto) (numbers : NumberFormat ν) (s : Seal ν) :
    s.stored crypto numbers = sealedConfig (List.intercalate ['.'] (s.parts crypto numbers)) := rfl

/-- What a seal returns is sealed, and its parts are those of the seal. -/
theorem Seal.produces_stored (crypto : NodeCrypto) (numbers : NumberFormat ν) (s : Seal ν) :
    ∃ text, sealed? (s.stored crypto numbers) = some text ∧ s.Produces crypto numbers text := by
  refine ⟨_, sealed?_sealedConfig _, _, parts?_intercalate (s.isPartChar crypto numbers), rfl, rfl,
    decodedPart_encode _, ?_⟩
  rw [decodedPart_encode, decodedPart_encode]
  rfl

/-- A seal opens for its channel under its key, and nowhere else. -/
theorem openConfig_stored_iff
    (hideal : crypto.cipher.Ideal (Seal.call numbers '' seals)) {s : Seal ν}
    (hs : s ∈ seals) :
    vault.openConfig crypto numbers channelId (s.stored crypto numbers) = .ok config ↔
      (channelId = s.channelId ∧ vault = s.vault) ∧ config = s.config := by
  obtain ⟨text, hsealed, hproduces⟩ := s.produces_stored crypto numbers
  have hopens : s.vault.openConfig crypto numbers s.channelId (s.stored crypto numbers) =
      .ok s.config :=
    (openConfig_eq_ok_iff_produces hideal hsealed).mpr ⟨s, hs, rfl, rfl, hproduces, rfl⟩
  constructor
  · intro hopen
    obtain ⟨s', hs', rfl, rfl, ⟨parts', hparts', -, -, hiv', houtput'⟩, -⟩ :=
      (openConfig_eq_ok_iff_produces hideal hsealed).mp hopen
    obtain ⟨parts, hparts, -, -, hiv, houtput⟩ := hproduces
    obtain rfl : parts = parts' := Option.some_inj.mp (hparts.symm.trans hparts')
    obtain ⟨hkeys, haad⟩ := hideal.separate _ ⟨s', hs', rfl⟩ _ ⟨s, hs, rfl⟩ (hiv'.symm.trans hiv)
      (houtput'.trans houtput.symm)
    have hchannel : s'.channelId = s.channelId := String.toList_inj.mp (utf8_injective haad)
    have hvault : s'.vault = s.vault := congrArg ChannelConfigVault.mk hkeys
    rw [hchannel, hvault, hopens] at hopen
    exact ⟨⟨hchannel, hvault⟩, (Except.ok.inj hopen).symm⟩
  · rintro ⟨⟨rfl, rfl⟩, rfl⟩
    exact hopens

end Opening

/-- **Seal and open are inverse and bound to the channel.** What was sealed opens for its channel
under its key, and nowhere else; what was not sealed together under this key for this channel
does not open; no other exception escapes; and what is not sealed opens to itself. -/
theorem openConfig_law (hideal : crypto.cipher.Ideal (Seal.call numbers '' seals)) :
    (∀ s ∈ seals, ∀ (vault : ChannelConfigVault) (channelId : String),
      (channelId = s.channelId ∧ vault = s.vault →
        vault.openConfig crypto numbers channelId (s.stored crypto numbers) = .ok s.config) ∧
      (¬ (channelId = s.channelId ∧ vault = s.vault) →
        Raises (vault.openConfig crypto numbers channelId (s.stored crypto numbers)))) ∧
    (∀ (vault : ChannelConfigVault) (channelId : String) (stored : Value ν) (text : Units),
      sealed? stored = some text →
      (∀ s ∈ seals, s.vault = vault → s.channelId = channelId → ¬ s.Produces crypto numbers text) →
        Raises (vault.openConfig crypto numbers channelId stored)) ∧
    (∀ (vault : ChannelConfigVault) (channelId : String) (stored : Value ν) (thrown : Thrown),
      vault.openConfig crypto numbers channelId stored = .error thrown →
        ∃ message, thrown = .channelConfigError message) ∧
    ∀ (vault : ChannelConfigVault) (channelId : String) (stored : Value ν),
      ChannelConfigVault.isSealed stored = false →
        vault.openConfig crypto numbers channelId stored = .ok stored := by
  refine ⟨?_, ?_, fun vault channelId stored thrown => openConfig_error,
    fun vault channelId stored => openConfig_of_not_isSealed⟩
  · intro s hs vault channelId
    constructor
    · intro hsame
      exact (openConfig_stored_iff hideal hs).mpr ⟨hsame, rfl⟩
    · intro hother
      exact raises_of_not_ok fun config hopen =>
        hother ((openConfig_stored_iff hideal hs).mp hopen).1
  · intro vault channelId stored text hsealed hnot
    refine raises_of_not_ok fun config hopen => ?_
    obtain ⟨s, hs, hvault, hchannel, hproduces, -⟩ :=
      (openConfig_eq_ok_iff_produces hideal hsealed).mp hopen
    exact hnot s hs hvault hchannel hproduces

section Example

/-- Numbers of one digit. -/
def digitFormat : NumberFormat (Fin 10) where
  print n := [n.val.digitChar]
  read text := Fin.ofNat 10 (Numeral.value 10 text)
  isLiteral_print := by decide
  read_print := by decide

/-- A cipher of which these calls are made, with what comes out of each. -/
def cipherOf (made : List (Aead.Call × Bytes × Bytes)) : Aead.Cipher where
  encrypt key iv aad text :=
    ((made.find? (·.1 = ⟨key, iv, aad, text⟩)).map Prod.snd).getD ([], [])
  decrypt key iv aad body tag :=
    (made.find? fun entry => entry.1.key = key ∧ entry.1.iv = iv ∧ entry.1.aad = aad ∧
      entry.2 = (body, tag)).map (·.1.text)

/-- Calls that come out differently make an ideal cipher. -/
theorem ideal_cipherOf (calls : List Aead.Call) (outputs : List (Bytes × Bytes))
    (hlength : calls.length = outputs.length) (hcalls : calls.Nodup) (houtputs : outputs.Nodup) :
    (cipherOf (calls.zip outputs)).Ideal {call | call ∈ calls} := by
  have hmember : ∀ call ∈ calls, ∃ output, (call, output) ∈ calls.zip outputs := by
    intro call hcall
    rw [← List.map_fst_zip hlength.le] at hcall
    obtain ⟨⟨_, output⟩, hmade, rfl⟩ := List.mem_map.mp hcall
    exact ⟨output, hmade⟩
  have hcall : ∀ entry ∈ calls.zip outputs, ∀ entry' ∈ calls.zip outputs,
      entry.1 = entry'.1 → entry = entry' := fun entry hentry entry' hentry' =>
    List.inj_on_of_nodup_map (by rwa [List.map_fst_zip hlength.le]) hentry hentry'
  have hsame : ∀ entry ∈ calls.zip outputs, ∀ entry' ∈ calls.zip outputs,
      entry.2 = entry'.2 → entry = entry' := fun entry hentry entry' hentry' =>
    List.inj_on_of_nodup_map (by rwa [List.map_snd_zip hlength.ge]) hentry hentry'
  have houtput : ∀ entry ∈ calls.zip outputs,
      (cipherOf (calls.zip outputs)).output entry.1 = entry.2 := by
    intro entry hentry
    have hfound : ((calls.zip outputs).find? (·.1 = entry.1)).isSome :=
      List.find?_isSome.mpr ⟨entry, hentry, decide_eq_true rfl⟩
    obtain ⟨entry', hfind⟩ := Option.isSome_iff_exists.mp hfound
    have hfirst : entry'.1 = entry.1 := by simpa using List.find?_some hfind
    rw [hcall entry' (List.mem_of_find?_eq_some hfind) entry hentry hfirst] at hfind
    exact congrArg (fun found => (found.map Prod.snd).getD ([], [])) hfind
  have hdecrypted : ∀ {key iv aad body tag entry}, (calls.zip outputs).find? (fun entry =>
      entry.1.key = key ∧ entry.1.iv = iv ∧ entry.1.aad = aad ∧ entry.2 = (body, tag)) =
        some entry →
      entry.1.key = key ∧ entry.1.iv = iv ∧ entry.1.aad = aad ∧ entry.2 = (body, tag) :=
    fun hfind => by simpa using List.find?_some hfind
  refine ⟨?_, ?_, ?_⟩
  · intro call hcalled
    obtain ⟨output, hmade⟩ := hmember call hcalled
    rw [houtput _ hmade]
    have hfound : ((calls.zip outputs).find? fun entry => entry.1.key = call.key ∧
        entry.1.iv = call.iv ∧ entry.1.aad = call.aad ∧ entry.2 = (output.1, output.2)).isSome :=
      List.find?_isSome.mpr ⟨_, hmade, decide_eq_true ⟨rfl, rfl, rfl, rfl⟩⟩
    obtain ⟨entry, hfind⟩ := Option.isSome_iff_exists.mp hfound
    obtain rfl := hsame entry (List.mem_of_find?_eq_some hfind) _ hmade (hdecrypted hfind).2.2.2
    exact congrArg (Option.map (·.1.text)) hfind
  · intro key iv aad body tag text hdecrypt
    obtain ⟨⟨call, output⟩, hfind, rfl⟩ := Option.map_eq_some_iff.mp hdecrypt
    have hmade := List.mem_of_find?_eq_some hfind
    obtain ⟨hkey, hiv, haad, hbody⟩ := hdecrypted hfind
    exact ⟨call, (List.of_mem_zip hmade).1, hkey, hiv, haad, (houtput _ hmade).trans hbody⟩
  · intro call hcalled other hother _ hboth
    obtain ⟨output, hmade⟩ := hmember call hcalled
    obtain ⟨output', hmade'⟩ := hmember other hother
    rw [houtput _ hmade, houtput _ hmade'] at hboth
    obtain ⟨rfl, -⟩ := Prod.mk.inj (hsame _ hmade _ hmade' hboth)
    exact ⟨rfl, rfl⟩

/-- `{"url":"https://a.test","retries":3}`, sealed for a channel. -/
def webhookSeal : Seal (Fin 10) where
  vault := ⟨List.replicate 32 7⟩
  iv := List.replicate 12 1
  channelId := "2b6a7d2e-3d7e-4a7c-9c0e-8f4b5f0f6a11"
  config := .object [(Json.units "url".toList, .string (Json.units "https://a.test".toList)),
    (Json.units "retries".toList, .number 3)]

/-- What `aes-256-gcm` and `sha256` give there. -/
def webhookCrypto : NodeCrypto where
  cipher := cipherOf [(webhookSeal.call digitFormat,
    [13, 195, 252, 197, 252, 157, 214, 44, 185, 160, 168, 81, 3, 13, 95, 30, 201, 213, 96, 145, 107,
      227, 25, 63, 122, 67, 38, 22, 20, 221, 83, 200, 224, 136, 59, 205],
    [9, 234, 106, 185, 86, 218, 230, 248, 3, 68, 69, 234, 61, 202, 244, 35])]
  sha256 _ := [75, 176, 111, 142, 78, 58, 119, 21, 210, 1, 213, 115, 208, 170, 66, 55, 98, 229, 93,
    171, 214, 26, 44, 2, 39, 143, 165, 108, 198, 210, 148, 224]
  hkdfSync _ _ _ _ := List.replicate 32 7

/-- The seal opens for its channel, and for no other. -/
theorem openConfig_law_webhook :
    webhookSeal.vault.openConfig webhookCrypto digitFormat webhookSeal.channelId
        (webhookSeal.stored webhookCrypto digitFormat) = .ok webhookSeal.config ∧
      Raises (webhookSeal.vault.openConfig webhookCrypto digitFormat
        "00000000-0000-4000-8000-000000000000"
        (webhookSeal.stored webhookCrypto digitFormat)) := by
  have hideal : webhookCrypto.cipher.Ideal (Seal.call digitFormat '' {webhookSeal}) := by
    have hcalls : Seal.call digitFormat '' {webhookSeal} =
        {call | call ∈ [webhookSeal.call digitFormat]} := by
      simp
    rw [hcalls]
    exact ideal_cipherOf [_] [_] rfl (List.nodup_singleton _) (List.nodup_singleton _)
  have hlaw := (openConfig_law hideal).1 webhookSeal rfl webhookSeal.vault
  exact ⟨(hlaw _).1 ⟨rfl, rfl⟩, (hlaw _).2 fun h => absurd h.1 (by decide +kernel)⟩

end Example

end SilenceWatch
