import Mathlib.Data.Set.Basic

/-!
# Authenticated encryption with associated data

A cipher is ideal for the calls that are made of its encryption: it decrypts what came out of
one of them, for its key and its associated data, and nothing else.
-/

namespace Aead

abbrev Bytes := List UInt8

/-- A cipher. Decryption may fail. -/
structure Cipher where
  encrypt : (key iv aad text : Bytes) → Bytes × Bytes
  decrypt : (key iv aad body tag : Bytes) → Option Bytes

/-- A call of the encryption. -/
structure Call where
  key : Bytes
  iv : Bytes
  aad : Bytes
  text : Bytes
  deriving DecidableEq

/-- The body and the tag that come out of a call. -/
def Cipher.output (cipher : Cipher) (call : Call) : Bytes × Bytes :=
  cipher.encrypt call.key call.iv call.aad call.text

/-- A cipher that is ideal for the calls that are made of it. -/
structure Cipher.Ideal (cipher : Cipher) (calls : Set Call) : Prop where
  /-- What was encrypted is decrypted. -/
  correct : ∀ call ∈ calls, cipher.decrypt call.key call.iv call.aad (cipher.output call).1
    (cipher.output call).2 = some call.text
  /-- What is decrypted was encrypted. -/
  authentic : ∀ {key iv aad body tag text}, cipher.decrypt key iv aad body tag = some text →
    ∃ call ∈ calls, call.key = key ∧ call.iv = iv ∧ call.aad = aad ∧
      cipher.output call = (body, tag)
  /-- No output belongs to two keys, or to two associated data. -/
  separate : ∀ call ∈ calls, ∀ other ∈ calls, call.iv = other.iv →
    cipher.output call = cipher.output other → call.key = other.key ∧ call.aad = other.aad

variable {cipher : Cipher} {calls : Set Call} {key iv aad body tag text : Bytes} {call : Call}

namespace Cipher.Ideal

/-- **What is decrypted is the text of the call it came out of.** -/
theorem decrypt_eq_some_iff (hideal : cipher.Ideal calls) :
    cipher.decrypt key iv aad body tag = some text ↔
      ∃ call ∈ calls, call.key = key ∧ call.iv = iv ∧ call.aad = aad ∧
        cipher.output call = (body, tag) ∧ call.text = text := by
  constructor
  · intro hdecrypt
    obtain ⟨call, hcall, rfl, rfl, rfl, houtput⟩ := hideal.authentic hdecrypt
    have hcorrect := hideal.correct call hcall
    rw [houtput, hdecrypt] at hcorrect
    exact ⟨call, hcall, rfl, rfl, rfl, houtput, (Option.some_inj.mp hcorrect).symm⟩
  · rintro ⟨call, hcall, rfl, rfl, rfl, houtput, rfl⟩
    have hcorrect := hideal.correct call hcall
    rw [houtput] at hcorrect
    exact hcorrect

end Cipher.Ideal

end Aead
