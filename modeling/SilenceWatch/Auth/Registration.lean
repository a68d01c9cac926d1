import SilenceWatch.Database.Schema
import SilenceWatch.Library.Run

/-!
# Registering with a passkey first

Ceremonies that create an account by registering its first passkey, any number of them
and in any interleaving. The address is asked for before the account exists, and is
judged when the ceremony starts and when the credential has been verified. What the
passkey plugin does then, and in this order, is to store the credential under the user
it was told and to create a session.
-/

namespace SilenceWatch

open Relational Transition

/-- The columns of a user that a registration reads. -/
structure AuthUser where
  id : Uuid
  email : String
  lastLoginAt : Option ℤ
  deriving DecidableEq

/-- `user_pkey` and `user_email_key`. -/
def AuthUser.Distinct (u u' : AuthUser) : Prop := u.id ≠ u'.id ∧ u.email ≠ u'.email
  deriving Decidable

/-- A row of `passkey`. The browser that registered it, and whether that browser was
signed in to the account, are records that nothing reads. -/
structure Passkey where
  userId : Uuid
  browser : ℕ
  signedIn : Bool
  deriving DecidableEq

/-- A row of `session`. -/
structure AuthSession where
  userId : Uuid
  browser : ℕ
  deriving DecidableEq

/-- How far a ceremony has come. -/
inductive CeremonyPhase where
  | begun
  /-- `resolveUser` found the address available. -/
  | asked
  /-- The credential is verified, and `afterVerification` has looked for the address. -/
  | found (existing : Option Uuid)
  /-- It has judged the account it found, if any, to be unfinished. -/
  | admitted (existing : Option Uuid)
  /-- It has returned the user. -/
  | verified (userId : Uuid)
  /-- The plugin has stored the passkey. -/
  | stored (userId : Uuid)
  /-- It has created the session. -/
  | signedIn
  | refused
  deriving DecidableEq

/-- A registration ceremony, for the address its browser typed in. -/
structure Ceremony where
  browser : ℕ
  email : String
  phase : CeremonyPhase
  deriving DecidableEq

/-- The tables of the accounts, and the ceremonies under way. -/
structure Registrations where
  users : SerialTable AuthUser AuthUser.Distinct AuthUser.id
  passkeys : List Passkey
  /-- The user of each row of `account`. -/
  accounts : List Uuid
  /-- The user of each row of `recovery_code`. -/
  recoveryCodes : List Uuid
  sessions : List AuthSession
  ceremonies : List Ceremony

/-- What happens. -/
inductive RegistrationEvent where
  /-- A browser starts a ceremony. -/
  | begin (browser : ℕ) (email : String)
  /-- A ceremony takes its next step, which may fail: the sign-up policy refuses, a statement
  fails, the account is disabled. -/
  | advance (n : ℕ) (allowed : Bool) (now : ℤ)
  /-- A browser signs in with a passkey of the account. -/
  | signIn (browser : ℕ) (userId : Uuid) (now : ℤ)
  /-- A browser adds a passkey to the account it is signed in to. -/
  | addPasskey (browser : ℕ) (userId : Uuid)

/-- `recordSuccessfulLogin`, as far as a registration reads it. -/
def AuthUser.login (now : ℤ) (u : AuthUser) : AuthUser := { u with lastLoginAt := some now }

/-- The date of a login may be written freely. -/
theorem AuthUser.keepsDistinct_login (now : ℤ) :
    KeepsDistinct AuthUser.Distinct (AuthUser.login now) := by
  intro u u' h
  exact ⟨h, h⟩

namespace Registrations

/-- `findByEmail`. -/
def findByEmail (s : Registrations) (email : String) : Option Uuid :=
  (s.users.rows.find? fun u => u.email = email).map AuthUser.id

/-- `isUnfinishedRegistration`. -/
def isUnfinishedRegistration (s : Registrations) (userId : Uuid) : Bool :=
  match s.users.rows.find? fun u => u.id = userId with
  | none => false
  | some user =>
    decide (user.lastLoginAt = none) &&
      decide ((s.passkeys.filter fun p => p.userId = userId).length +
        (s.accounts.filter fun id => id = userId).length +
        (s.recoveryCodes.filter fun id => id = userId).length +
        (s.sessions.filter fun x => x.userId = userId).length = 0)

/-- An address without an account, or with one that may be finished, is available. -/
def isAvailable (s : Registrations) : Option Uuid → Bool
  | none => true
  | some userId => s.isUnfinishedRegistration userId

/-- `internalAdapter.createUser`, `none` when the address has been taken meanwhile. -/
def createUser (s : Registrations) (email : String) : Option Registrations :=
  if ∀ u ∈ s.users.rows, u.Distinct ⟨s.users.next, email, none⟩ then
    some { s with users := s.users.insertOrSkip (fun id => ⟨id, email, none⟩) fun _ => rfl }
  else none

/-- A session is created, which records the sign-in. -/
def createSession (s : Registrations) (browser : ℕ) (userId : Uuid) (now : ℤ) :
    Registrations :=
  { s with
    users := s.users.update (fun u => u.id = userId) (AuthUser.login now)
      (AuthUser.keepsDistinct_login now) fun _ => rfl
    sessions := s.sessions ++ [⟨userId, browser⟩] }

/-- The next step of a ceremony: the tables, and how far it has come then. -/
def proceed (s : Registrations) (c : Ceremony) (allowed : Bool) (now : ℤ) :
    Registrations × CeremonyPhase :=
  match c.phase with
  | .begun =>
    if s.isAvailable (s.findByEmail c.email) && allowed then (s, .asked) else (s, .refused)
  | .asked => (s, .found (s.findByEmail c.email))
  | .found existing =>
    if s.isAvailable existing then (s, .admitted existing) else (s, .refused)
  | .admitted (some userId) => (s, .verified userId)
  | .admitted none =>
    if allowed then
      match s.createUser c.email with
      | none => (s, .refused)
      | some s' => (s', .verified s.users.next)
    else (s, .refused)
  | .verified userId =>
    if allowed then
      ({ s with passkeys := s.passkeys ++ [⟨userId, c.browser, false⟩] }, .stored userId)
    else (s, .refused)
  | .stored userId =>
    if allowed then (s.createSession c.browser userId now, .signedIn) else (s, .refused)
  | .signedIn => (s, .signedIn)
  | .refused => (s, .refused)

/-- The accounts after one event. -/
def step (s : Registrations) : RegistrationEvent → Registrations
  | .begin browser email =>
    { s with ceremonies := s.ceremonies ++ [⟨browser, email, .begun⟩] }
  | .advance n allowed now =>
    match s.ceremonies[n]? with
    | none => s
    | some c =>
      let (s', phase) := s.proceed c allowed now
      { s' with ceremonies := s.ceremonies.set n { c with phase } }
  | .signIn browser userId now =>
    if ∃ p ∈ s.passkeys, p.userId = userId then s.createSession browser userId now else s
  | .addPasskey browser userId =>
    if ⟨userId, browser⟩ ∈ s.sessions then
      { s with passkeys := s.passkeys ++ [⟨userId, browser, true⟩] }
    else s

/-- No account holds passkeys of two browsers, unless the later one was added by someone
signed in to it. -/
def OneOwner (s : Registrations) : Prop :=
  s.passkeys.Pairwise fun p q => p.userId = q.userId → p.browser ≠ q.browser → q.signedIn = true
  deriving Decidable

end Registrations

/-- The ceremony has been admitted to the account, and has not stored its passkey. -/
def CeremonyPhase.Holds (userId : Uuid) (phase : CeremonyPhase) : Prop :=
  phase = .admitted (some userId) ∨ phase = .verified userId
  deriving Decidable

/-- The account a phase is about. -/
def CeremonyPhase.account? : CeremonyPhase → Option Uuid
  | .found existing => existing
  | .admitted existing => existing
  | .verified userId => some userId
  | .stored userId => some userId
  | _ => none

/-- The account that `afterVerification` is about to judge. -/
def CeremonyPhase.judged? : CeremonyPhase → Option Uuid
  | .found existing => existing
  | _ => none

/-- No other ceremony has been admitted to the account and not stored its passkey. -/
def Registrations.Free (s : Registrations) (n : ℕ) (userId : Uuid) : Prop :=
  ∀ m ∈ List.range s.ceremonies.length, m ≠ n → ∀ c ∈ s.ceremonies[m]?, ¬ c.phase.Holds userId
  deriving Decidable

/-- A ceremony is admitted to an account that is free. -/
def AdmittedAlone (s : Registrations) : RegistrationEvent → Prop
  | .advance n _ _ =>
    ∀ c ∈ s.ceremonies[n]?, ∀ userId ∈ c.phase.judged?,
      s.isUnfinishedRegistration userId = true → s.Free n userId
  | _ => True

instance (s : Registrations) : DecidablePred (AdmittedAlone s)
  | .begin _ _ => inferInstanceAs (Decidable True)
  | .advance n _ _ => inferInstanceAs (Decidable (∀ c ∈ s.ceremonies[n]?,
      ∀ userId ∈ c.phase.judged?, s.isUnfinishedRegistration userId = true → s.Free n userId))
  | .signIn _ _ _ => inferInstanceAs (Decidable True)
  | .addPasskey _ _ => inferInstanceAs (Decidable True)

namespace Registrations

variable {s : Registrations} {n : ℕ} {c : Ceremony} {phase : CeremonyPhase} {userId : Uuid}

/-- What holds of every state: the ceremonies that have been admitted to an account and have
not stored its passkey are at most one, and the account is still blank. -/
structure Orderly (s : Registrations) : Prop where
  alone : ∀ (n m : ℕ) (c c' : Ceremony) (userId : Uuid), s.ceremonies[n]? = some c →
    s.ceremonies[m]? = some c' → c.phase.Holds userId → c'.phase.Holds userId → n = m
  blank : ∀ c ∈ s.ceremonies, ∀ userId, c.phase.Holds userId →
    (∀ p ∈ s.passkeys, p.userId ≠ userId) ∧ ∀ x ∈ s.sessions, x.userId ≠ userId
  known : ∀ c ∈ s.ceremonies, ∀ userId, c.phase.account? = some userId → userId < s.users.next
  stored : ∀ c ∈ s.ceremonies, ∀ userId, c.phase = .stored userId →
    ∃ p ∈ s.passkeys, p.userId = userId
  passkeys : ∀ p ∈ s.passkeys, p.userId < s.users.next
  sessions : ∀ x ∈ s.sessions, x.userId < s.users.next
  oneOwner : s.OneOwner

/-- An account that is held is one the ceremony is about. -/
theorem account?_of_holds (h : phase.Holds userId) : phase.account? = some userId := by
  rcases h with rfl | rfl
  · rfl
  · rfl

/-- The account of an address is a row of the table. -/
theorem findByEmail_lt {email : String} (h : s.findByEmail email = some userId) :
    userId < s.users.next := by
  obtain ⟨u, hu, rfl⟩ := Option.map_eq_some_iff.mp h
  exact s.users.fresh u (List.mem_of_find?_eq_some hu)

/-- An unfinished account holds no passkey and no session. -/
theorem blank_of_unfinished (h : s.isUnfinishedRegistration userId = true) :
    (∀ p ∈ s.passkeys, p.userId ≠ userId) ∧ ∀ x ∈ s.sessions, x.userId ≠ userId := by
  unfold isUnfinishedRegistration at h
  split at h
  · cases h
  · simp only [Bool.and_eq_true, decide_eq_true_eq, Nat.add_eq_zero_iff, List.length_eq_zero_iff,
      List.filter_eq_nil_iff] at h
    exact ⟨h.2.1.1.1, h.2.2⟩

/-- A ceremony moves on: it holds an account it held before, or a blank one that no other
ceremony holds. -/
theorem Orderly.setPhase (h : s.Orderly) (hc : s.ceremonies[n]? = some c)
    (hholds : ∀ userId, phase.Holds userId → c.phase.Holds userId ∨
      (((∀ p ∈ s.passkeys, p.userId ≠ userId) ∧ ∀ x ∈ s.sessions, x.userId ≠ userId) ∧
        ∀ (m : ℕ) (c' : Ceremony), m ≠ n → s.ceremonies[m]? = some c' →
          ¬ c'.phase.Holds userId))
    (haccount : ∀ userId, phase.account? = some userId → userId < s.users.next)
    (hstored : ∀ userId, phase = .stored userId → ∃ p ∈ s.passkeys, p.userId = userId) :
    Orderly { s with ceremonies := s.ceremonies.set n { c with phase } } := by
  have hmem : c ∈ s.ceremonies := List.mem_of_getElem? hc
  have hother : ∀ (m : ℕ) (c' : Ceremony), m ≠ n → s.ceremonies[m]? = some c' →
      ∀ userId, phase.Holds userId → ¬ c'.phase.Holds userId := by
    intro m c' hm hc' userId hphase hheld
    rcases hholds userId hphase with hold | hnew
    · exact hm (h.alone m n c' c userId hc' hc hheld hold)
    · exact hnew.2 m c' hm hc' hheld
  have hcases : ∀ (m : ℕ) (c' : Ceremony),
      (s.ceremonies.set n { c with phase })[m]? = some c' →
        (m = n ∧ c'.phase = phase) ∨ (m ≠ n ∧ s.ceremonies[m]? = some c') := by
    intro m c' hc'
    by_cases hm : m = n
    · subst hm
      left
      rw [List.getElem?_set_self (List.getElem?_eq_some_iff.mp hc).1] at hc'
      cases hc'
      exact ⟨rfl, rfl⟩
    · right
      rw [List.getElem?_set_ne (Ne.symm hm)] at hc'
      exact ⟨hm, hc'⟩
  have hmemcases : ∀ c' ∈ s.ceremonies.set n { c with phase },
      c'.phase = phase ∨ c' ∈ s.ceremonies := by
    intro c' hc'
    rcases List.mem_or_eq_of_mem_set hc' with hold | rfl
    · exact Or.inr hold
    · exact Or.inl rfl
  constructor
  case alone =>
    intro m m' c₁ c₂ userId hc₁ hc₂ hh₁ hh₂
    rcases hcases m c₁ hc₁ with ⟨hm, hp₁⟩ | ⟨hm, hold₁⟩
    · rcases hcases m' c₂ hc₂ with ⟨hm', _⟩ | ⟨hm', hold₂⟩
      · exact hm.trans hm'.symm
      · rw [hp₁] at hh₁
        exact absurd hh₂ (hother m' c₂ hm' hold₂ userId hh₁)
    · rcases hcases m' c₂ hc₂ with ⟨_, hp₂⟩ | ⟨_, hold₂⟩
      · rw [hp₂] at hh₂
        exact absurd hh₁ (hother m c₁ hm hold₁ userId hh₂)
      · exact h.alone m m' c₁ c₂ userId hold₁ hold₂ hh₁ hh₂
  case blank =>
    intro c' hc' userId hheld
    rcases hmemcases c' hc' with hphase | hold
    · rw [hphase] at hheld
      rcases hholds userId hheld with hheld' | hnew
      · exact h.blank c hmem userId hheld'
      · exact hnew.1
    · exact h.blank c' hold userId hheld
  case known =>
    intro c' hc' userId hfor
    rcases hmemcases c' hc' with hphase | hold
    · rw [hphase] at hfor
      exact haccount userId hfor
    · exact h.known c' hold userId hfor
  case stored =>
    intro c' hc' userId hfor
    rcases hmemcases c' hc' with hphase | hold
    · rw [hphase] at hfor
      exact hstored userId hfor
    · exact h.stored c' hold userId hfor
  case passkeys => exact h.passkeys
  case sessions => exact h.sessions
  case oneOwner => exact h.oneOwner

/-- More users take nothing away. -/
theorem Orderly.withUsers (h : s.Orderly)
    {users : SerialTable AuthUser AuthUser.Distinct AuthUser.id}
    (hnext : s.users.next ≤ users.next) : Orderly { s with users } where
  alone := h.alone
  blank := h.blank
  known := fun c hc userId hfor => Nat.lt_of_lt_of_le (h.known c hc userId hfor) hnext
  stored := h.stored
  passkeys := fun p hp => Nat.lt_of_lt_of_le (h.passkeys p hp) hnext
  sessions := fun x hx => Nat.lt_of_lt_of_le (h.sessions x hx) hnext
  oneOwner := h.oneOwner

/-- An account that no ceremony holds takes a passkey: its first one, or one of somebody
signed in. -/
theorem Orderly.addPasskey (h : s.Orderly) {p : Passkey} (hp : p.userId < s.users.next)
    (hfree : ∀ c ∈ s.ceremonies, ¬ c.phase.Holds p.userId)
    (hfirst : p.signedIn = true ∨ ∀ q ∈ s.passkeys, q.userId ≠ p.userId) :
    Orderly { s with passkeys := s.passkeys ++ [p] } where
  alone := h.alone
  blank := by
    intro c hc userId hheld
    refine ⟨fun q hq => ?_, (h.blank c hc userId hheld).2⟩
    rcases List.mem_append.mp hq with hold | hnew
    · exact (h.blank c hc userId hheld).1 q hold
    · rw [List.mem_singleton.mp hnew]
      rintro rfl
      exact hfree c hc hheld
  known := h.known
  stored := by
    intro c hc userId hphase
    obtain ⟨q, hq, huser⟩ := h.stored c hc userId hphase
    exact ⟨q, List.mem_append_left _ hq, huser⟩
  passkeys := by
    intro q hq
    rcases List.mem_append.mp hq with hold | hnew
    · exact h.passkeys q hold
    · rw [List.mem_singleton.mp hnew]
      exact hp
  sessions := h.sessions
  oneOwner := by
    refine List.pairwise_append.mpr ⟨h.oneOwner, List.pairwise_singleton _ _, ?_⟩
    intro q hq q' hq' hsame _
    rw [List.mem_singleton.mp hq'] at hsame ⊢
    exact hfirst.resolve_right fun hnone => hnone q hq hsame

/-- So does one that is signed in to, which changes no passkey. -/
theorem Orderly.createSession (h : s.Orderly) {browser : ℕ} {now : ℤ}
    (huser : ∃ p ∈ s.passkeys, p.userId = userId) :
    (s.createSession browser userId now).Orderly where
  alone := h.alone
  blank := by
    intro c hc userId' hheld
    refine ⟨(h.blank c hc userId' hheld).1, fun x hx => ?_⟩
    rcases List.mem_append.mp hx with hold | hnew
    · exact (h.blank c hc userId' hheld).2 x hold
    · rw [List.mem_singleton.mp hnew]
      rintro rfl
      obtain ⟨p, hp, hsame⟩ := huser
      exact (h.blank c hc userId hheld).1 p hp hsame
  known := h.known
  stored := h.stored
  passkeys := h.passkeys
  sessions := by
    intro x hx
    rcases List.mem_append.mp hx with hold | hnew
    · exact h.sessions x hold
    · rw [List.mem_singleton.mp hnew]
      obtain ⟨p, hp, hsame⟩ := huser
      exact hsame ▸ h.passkeys p hp
  oneOwner := h.oneOwner

/-- A ceremony stops being about an account. -/
theorem Orderly.setIdle (h : s.Orderly) (hc : s.ceremonies[n]? = some c)
    (hidle : phase.account? = none) :
    Orderly { s with ceremonies := s.ceremonies.set n { c with phase } } := by
  refine h.setPhase hc (fun userId hheld => ?_) (fun userId hfor => ?_) fun userId hstored => ?_
  · rw [account?_of_holds hheld] at hidle
    cases hidle
  · rw [hfor] at hidle
    cases hidle
  · rw [hstored] at hidle
    cases hidle

section Advance

variable {allowed : Bool} {now : ℤ}

/-- A ceremony that found an account holds it alone once it is admitted. -/
theorem Orderly.advance_found (h : s.Orderly) (hc : s.ceremonies[n]? = some c)
    (halone : AdmittedAlone s (.advance n allowed now)) {existing : Option ℕ}
    (hphase : c.phase = .found existing) :
    Orderly { (s.proceed c allowed now).1 with
      ceremonies := s.ceremonies.set n { c with phase := (s.proceed c allowed now).2 } } := by
  have hmem : c ∈ s.ceremonies := List.mem_of_getElem? hc
  simp only [proceed, hphase]
  split
  · next havailable =>
    refine h.setPhase hc (fun userId hheld => ?_) (fun userId hfor => ?_)
      fun userId hstored => by cases hstored
    · rcases hheld with hheld | hheld
      · cases hheld
        refine Or.inr ⟨blank_of_unfinished havailable, fun m c' hm hc' => ?_⟩
        exact halone c hc userId (by rw [hphase]; rfl) havailable m
          (List.mem_range.mpr (List.getElem?_eq_some_iff.mp hc').1) hm c' hc'
      · cases hheld
    · exact h.known c hmem userId (by rw [hphase]; exact hfor)
  · exact h.setIdle hc rfl

/-- An account that a ceremony creates is nobody else's. -/
theorem Orderly.advance_admitted_none (h : s.Orderly) (hc : s.ceremonies[n]? = some c)
    (hphase : c.phase = .admitted none) :
    Orderly { (s.proceed c allowed now).1 with
      ceremonies := s.ceremonies.set n { c with phase := (s.proceed c allowed now).2 } } := by
  simp only [proceed, hphase]
  split
  · cases hcreate : s.createUser c.email with
    | none => exact h.setIdle hc rfl
    | some s' =>
      unfold createUser at hcreate
      split at hcreate
      · next hfree =>
        cases hcreate
        have hnext : (s.users.insertOrSkip (fun id => ⟨id, c.email, none⟩)
            fun _ => rfl).next = s.users.next + 1 := by
          simp only [SerialTable.insertOrSkip, dif_pos hfree]
        refine (h.withUsers (by rw [hnext]; omega)).setPhase hc (fun userId hheld => ?_)
          (fun userId hfor => ?_) fun userId hstored => by cases hstored
        · have hnew : userId = s.users.next := by
            have hfor := account?_of_holds hheld
            exact (Option.some.inj hfor).symm
          subst hnew
          refine Or.inr ⟨⟨fun p hp => Nat.ne_of_lt (h.passkeys p hp),
            fun x hx => Nat.ne_of_lt (h.sessions x hx)⟩, fun m c' _ hc' hheld' => ?_⟩
          exact absurd (h.known c' (List.mem_of_getElem? hc') _ (account?_of_holds hheld'))
            (Nat.lt_irrefl _)
        · have hnew : s.users.next = userId := Option.some.inj hfor
          rw [← hnew, hnext]
          exact Nat.lt_succ_self _
      · cases hcreate
  · exact h.setIdle hc rfl

/-- An account that was found stays the one that the ceremony holds. -/
theorem Orderly.advance_admitted_some (h : s.Orderly) (hc : s.ceremonies[n]? = some c)
    {existing : ℕ} (hphase : c.phase = .admitted (some existing)) :
    Orderly { (s.proceed c allowed now).1 with
      ceremonies := s.ceremonies.set n { c with phase := (s.proceed c allowed now).2 } } := by
  have hmem : c ∈ s.ceremonies := List.mem_of_getElem? hc
  simp only [proceed, hphase]
  have hheld : c.phase.Holds existing := Or.inl hphase
  refine h.setPhase hc (fun userId hheld' => ?_) (fun userId hfor => ?_)
    fun userId hstored => by cases hstored
  · have hsame := Option.some.inj (account?_of_holds hheld')
    rw [← hsame]
    exact Or.inl hheld
  · rw [← Option.some.inj hfor]
    exact h.known c hmem existing (account?_of_holds hheld)

/-- A passkey that is stored belongs to the account that the ceremony held alone. -/
theorem Orderly.advance_verified (h : s.Orderly) (hc : s.ceremonies[n]? = some c) {userId : ℕ}
    (hphase : c.phase = .verified userId) :
    Orderly { (s.proceed c allowed now).1 with
      ceremonies := s.ceremonies.set n { c with phase := (s.proceed c allowed now).2 } } := by
  have hmem : c ∈ s.ceremonies := List.mem_of_getElem? hc
  simp only [proceed, hphase]
  split
  · have hheld : c.phase.Holds userId := Or.inr hphase
    -- While the passkey is stored the ceremony holds nothing, and nobody else holds the account.
    have hidle : Orderly { s with
        ceremonies := s.ceremonies.set n { c with phase := .refused } } := h.setIdle hc rfl
    have hc' : (s.ceremonies.set n { c with phase := .refused })[n]? =
        some { c with phase := .refused } :=
      List.getElem?_set_self (List.getElem?_eq_some_iff.mp hc).1
    have hfree : ∀ c' ∈ s.ceremonies.set n { c with phase := .refused },
        ¬ c'.phase.Holds userId := by
      intro c' hmem' hheld'
      obtain ⟨m, hm⟩ := List.getElem?_of_mem hmem'
      by_cases hmn : m = n
      · subst hmn
        rw [hc'] at hm
        cases hm
        rcases hheld' with hheld' | hheld' <;> cases hheld'
      · rw [List.getElem?_set_ne (Ne.symm hmn)] at hm
        exact hmn (h.alone m n c' c userId hm hc hheld' hheld)
    have hadded := hidle.addPasskey (p := ⟨userId, c.browser, false⟩)
      (h.known c hmem userId (account?_of_holds hheld)) hfree
      (Or.inr (h.blank c hmem userId hheld).1)
    have hstored : Orderly { s with
        passkeys := s.passkeys ++ [⟨userId, c.browser, false⟩]
        ceremonies := (s.ceremonies.set n { c with phase := .refused }).set n
          { c with phase := .stored userId } } := by
      refine hadded.setPhase (c := { c with phase := .refused }) hc' (fun userId' hheld' => ?_)
        (fun userId' hfor => ?_) fun userId' hphase' => ?_
      · rcases hheld' with hheld' | hheld' <;> cases hheld'
      · rw [← Option.some.inj hfor]
        exact h.known c hmem userId (account?_of_holds hheld)
      · cases hphase'
        exact ⟨_, List.mem_append_right _ (List.mem_singleton.mpr rfl), rfl⟩
    simpa only [List.set_set] using hstored
  · exact h.setIdle hc rfl

/-- An event that admits a ceremony alone keeps the order. -/
theorem Orderly.advance (h : s.Orderly) (hc : s.ceremonies[n]? = some c)
    (halone : AdmittedAlone s (.advance n allowed now)) :
    Orderly { (s.proceed c allowed now).1 with
      ceremonies := s.ceremonies.set n { c with phase := (s.proceed c allowed now).2 } } := by
  cases hphase : c.phase with
  | begun =>
    simp only [proceed, hphase]
    split
    · exact h.setIdle hc rfl
    · exact h.setIdle hc rfl
  | asked =>
    simp only [proceed, hphase]
    refine h.setPhase hc (fun userId hheld => ?_) (fun userId hfor => findByEmail_lt hfor)
      fun userId hstored => by cases hstored
    rcases hheld with hheld | hheld <;> cases hheld
  | found existing => exact h.advance_found hc halone hphase
  | admitted existing =>
    cases existing with
    | none => exact h.advance_admitted_none hc hphase
    | some existing => exact h.advance_admitted_some hc hphase
  | verified userId => exact h.advance_verified hc hphase
  | stored userId =>
    have hmem : c ∈ s.ceremonies := List.mem_of_getElem? hc
    simp only [proceed, hphase]
    split
    · exact (h.createSession (h.stored c hmem userId hphase)).setIdle hc rfl
    · exact h.setIdle hc rfl
  | signedIn =>
    simp only [proceed, hphase]
    exact h.setIdle hc rfl
  | refused =>
    simp only [proceed, hphase]
    exact h.setIdle hc rfl

end Advance

/-- Every event that admits a ceremony alone keeps the order. -/
theorem Orderly.step (h : s.Orderly) {e : RegistrationEvent} (halone : AdmittedAlone s e) :
    (s.step e).Orderly := by
  cases e with
  | begin browser email =>
    have hnew : ∀ {c : Ceremony}, c ∈ s.ceremonies ++ [⟨browser, email, .begun⟩] →
        c ∈ s.ceremonies ∨ c.phase = .begun := by
      intro c hc
      rcases List.mem_append.mp hc with hold | hlast
      · exact Or.inl hold
      · rw [List.mem_singleton.mp hlast]
        exact Or.inr rfl
    constructor
    case alone =>
      intro n m c c' userId hc hc' hheld hheld'
      have hold : ∀ {k : ℕ} {c : Ceremony},
          (s.ceremonies ++ [⟨browser, email, .begun⟩])[k]? = some c → c.phase.Holds userId →
            s.ceremonies[k]? = some c := by
        intro k c hk hheld
        by_cases hlt : k < s.ceremonies.length
        · rwa [List.getElem?_append_left hlt] at hk
        · rw [List.getElem?_append_right (Nat.le_of_not_lt hlt)] at hk
          rw [List.mem_singleton.mp (List.mem_of_getElem? hk)] at hheld
          rcases hheld with hheld | hheld <;> cases hheld
      exact h.alone n m c c' userId (hold hc hheld) (hold hc' hheld') hheld hheld'
    case blank =>
      intro c hc userId hheld
      rcases hnew hc with hold | hbegun
      · exact h.blank c hold userId hheld
      · rw [hbegun] at hheld
        rcases hheld with hheld | hheld <;> cases hheld
    case known =>
      intro c hc userId hfor
      rcases hnew hc with hold | hbegun
      · exact h.known c hold userId hfor
      · rw [hbegun] at hfor
        cases hfor
    case stored =>
      intro c hc userId hphase
      rcases hnew hc with hold | hbegun
      · exact h.stored c hold userId hphase
      · rw [hbegun] at hphase
        cases hphase
    case passkeys => exact h.passkeys
    case sessions => exact h.sessions
    case oneOwner => exact h.oneOwner
  | advance n allowed now =>
    simp only [Registrations.step]
    cases hc : s.ceremonies[n]? with
    | none => exact h
    | some c => exact h.advance hc halone
  | signIn browser userId now =>
    simp only [Registrations.step]
    split
    · next huser => exact h.createSession huser
    · exact h
  | addPasskey browser userId =>
    simp only [Registrations.step]
    split
    · next hsession =>
      refine h.addPasskey (h.sessions _ hsession) (fun c hc hheld => ?_) (Or.inl rfl)
      exact (h.blank c hc userId hheld).2 _ hsession rfl
    · exact h

end Registrations

/-- **One registration, one owner**, where no ceremony is admitted to an account while
another one is about to store a passkey in it: then no account ever holds passkeys of two
browsers, unless the later one was added by someone signed in to it. -/
theorem registration_has_one_owner {s : Registrations} {es : List RegistrationEvent}
    (hstart : s.ceremonies = []) (hpasskeys : ∀ p ∈ s.passkeys, p.userId < s.users.next)
    (hsessions : ∀ x ∈ s.sessions, x.userId < s.users.next) (howner : s.OneOwner)
    (halone : Along Registrations.step AdmittedAlone s es) :
    Throughout Registrations.step Registrations.OneOwner s es := by
  have horderly : s.Orderly := by
    constructor
    case alone =>
      intro n m c c' userId hc
      rw [hstart] at hc
      cases hc
    case passkeys => exact hpasskeys
    case sessions => exact hsessions
    case oneOwner => exact howner
    all_goals
      rw [hstart]
      exact fun c hc => absurd hc List.not_mem_nil
  exact (throughout_of_step (fun s e h hP => h.step hP) horderly halone).mono fun s h => h.oneOwner

/-- Nobody has registered. -/
def noAccounts : Registrations where
  users := SerialTable.empty
  passkeys := []
  accounts := []
  recoveryCodes := []
  sessions := []
  ceremonies := []

/-- The first browser fails to store its passkey, and the second finishes its registration;
a third one is refused, and a passkey is added by the one that is signed in. -/
theorem registration_has_one_owner_sample :
    Throughout Registrations.step Registrations.OneOwner noAccounts
      [.begin 1 "ann@example.com", .advance 0 true 0, .advance 0 true 0, .advance 0 true 0,
        .advance 0 true 0, .advance 0 false 0, .begin 2 "ann@example.com", .advance 1 true 0,
        .advance 1 true 0, .advance 1 true 0, .advance 1 true 0, .advance 1 true 0,
        .advance 1 true 0, .begin 3 "ann@example.com", .advance 2 true 0, .addPasskey 2 0] :=
  registration_has_one_owner rfl (by simp [noAccounts]) (by simp [noAccounts])
    List.Pairwise.nil (by decide)

/-- Two browsers are asked for their passkeys before either account exists. The second
looks for the address when the first has created its account and not stored its passkey,
and both passkeys end up in it. -/
theorem two_browsers_share_account :
    let s := run Registrations.step noAccounts
      [.begin 1 "ann@example.com", .begin 2 "ann@example.com", .advance 0 true 0,
        .advance 1 true 0, .advance 0 true 0, .advance 0 true 0, .advance 0 true 0,
        .advance 1 true 0, .advance 1 true 0, .advance 0 true 0, .advance 1 true 0,
        .advance 1 true 0]
    s.passkeys = [⟨0, 1, false⟩, ⟨0, 2, false⟩] ∧ ¬ s.OneOwner := by
  decide

end SilenceWatch
