import Mathlib.Algebra.Order.Group.Int
import SilenceWatch.Auth.Network
import SilenceWatch.Library.Run
import SilenceWatch.Library.Table
import SilenceWatch.Library.Window

/-!
# Sign-up ceilings

A sign-up is decided on counts of accounts and of recorded attempts, then the account is
created, then the attempt is recorded, each in statements of its own and under no lock. Any
number of sign-ups with their steps interleaved: the ceilings hold as long as a request
that the rules let pass finds room beside those that were let pass before it.
-/

namespace SilenceWatch

open Relational Transition Chronicle

/-- What the rules take from the platform. -/
structure SignupPlatform where
  toLowerCase : List Char → List Char
  hmacSha256Hex : List Char → List Char → List Char
  disposableEmailDomains : List (List Char)

/-- The settings of sign-ups; a ceiling of zero turns its rule off. -/
structure SignupConfig where
  adminEmail : List Char
  signupEnabled : Bool
  secretKey : List Char
  blockedEmailDomains : List (List Char)
  blockDisposableEmail : Bool
  maxAccountsPerAddress : ℕ
  maxPerNetworkPerHour : ℕ

/-- `SignupRequest`, as far as the rules read it. -/
structure SignupRequest where
  email : List Char
  ip : Option (List Char)
  deriving DecidableEq

/-- The columns of a user that a sign-up reads and writes. -/
structure SignupAccount where
  email : List Char
  signupNetwork : Option (List Char)
  deriving DecidableEq

/-- `user_email_key`. -/
def SignupAccount.Distinct (a a' : SignupAccount) : Prop := a.email ≠ a'.email
  deriving Decidable

/-- A row of `signup_attempt`. -/
structure SignupAttempt where
  network : List Char
  accepted : Bool
  createdAt : ℤ
  deriving DecidableEq

/-- The tables, the clock, and the requests under way by how far they have come. -/
structure Signups where
  now : ℤ
  accounts : Table SignupAccount SignupAccount.Distinct
  attempts : List SignupAttempt
  /-- Within the ceiling of accounts, by their count. -/
  counted : List SignupRequest
  /-- Decided, without an account. -/
  admitted : List SignupRequest
  /-- With an account, not recorded. -/
  created : List SignupRequest
  /-- A record that nothing reads: the network and the instant of each sign-up accepted. -/
  accepted : List (List Char × ℤ)

/-- What happens. A request carries on, or fails with whatever statement it had reached. -/
inductive SignupEvent where
  | elapse (ms : ℕ)
  /-- The decision up to the count of accounts, and what the look at the setup link says. -/
  | begin (request : SignupRequest) (linkAccepted : Bool)
  /-- The decision from the count of attempts on. -/
  | conclude (request : SignupRequest)
  | create (request : SignupRequest)
  | record (request : SignupRequest)
  /-- A decided request whose account is not created. -/
  | abort (request : SignupRequest)
  /-- An accepted sign-up whose record is lost. -/
  | lose (request : SignupRequest)

/-- `domainSuffixes`. -/
def domainSuffixes (domain : List Char) : List (List Char) :=
  let labels := domain.splitOn '.'
  (List.range (labels.length - 1)).map fun index => ['.'].intercalate (labels.drop index)

/-- An hour, in milliseconds. -/
def signupWindow : ℤ := 3600000

section Rules

variable (platform : SignupPlatform) (cfg : SignupConfig)

/-- `extraBlocked`. -/
def extraBlocked : List (List Char) :=
  (cfg.blockedEmailDomains.map fun domain => platform.toLowerCase (strip isSpace domain)).filter
    fun domain => domain ≠ []

/-- `isEmailAllowed`. -/
def isEmailAllowed (email : List Char) : Bool :=
  let domain := platform.toLowerCase (email.reverse.takeWhile (· ≠ '@')).reverse
  domain ≠ [] && (domainSuffixes domain).all fun suffix =>
    suffix ∉ extraBlocked platform cfg &&
      !(cfg.blockDisposableEmail && suffix ∈ platform.disposableEmailDomains)

/-- `signupNetworkOf`. -/
def signupNetworkOf (ip : Option (List Char)) : Option (List Char) :=
  if cfg.maxAccountsPerAddress = 0 then none
  else
    some ((platform.hmacSha256Hex cfg.secretKey
      ("silencewatch:signup-network:".toList ++ addressOf ip)).take 32)

/-- The request asks for the administrator's account. -/
def SignupRequest.IsAdmin (request : SignupRequest) : Prop :=
  platform.toLowerCase request.email = cfg.adminEmail
  deriving Decidable

namespace Signups

/-- `UsersRepository.countFromNetwork`. -/
def countFromNetwork (s : Signups) (signupNetwork : List Char) : ℕ :=
  s.accounts.rows.countP fun a => a.signupNetwork = some signupNetwork

/-- `SignupAttemptsRepository.countAcceptedSince`. -/
def countAcceptedSince (s : Signups) (network : List Char) (since : ℤ) : ℕ :=
  s.attempts.countP fun a => a.network = network ∧ a.accepted = true ∧ since ≤ a.createdAt

/-- `isAddressWithinQuota`. -/
def isAddressWithinQuota (s : Signups) : Option (List Char) → Bool
  | none => true
  | some signupNetwork =>
    if cfg.maxAccountsPerAddress = 0 then true
    else s.countFromNetwork signupNetwork < cfg.maxAccountsPerAddress

/-- `isNetworkWithinQuota`. -/
def isNetworkWithinQuota (s : Signups) (network : List Char) : Bool :=
  if cfg.maxPerNetworkPerHour = 0 then true
  else s.countAcceptedSince network (s.now - signupWindow) < cfg.maxPerNetworkPerHour

/-- `SignupGuardService.record`. -/
def recordAttempt (s : Signups) (network : List Char) (accepted : Bool) : Signups :=
  if cfg.maxPerNetworkPerHour = 0 then s
  else { s with attempts := s.attempts ++ [⟨network, accepted, s.now⟩] }

/-- `SignupPolicyService.decide`, up to the count of accounts. The administrator's account
is created with the setup link only, and skips the rules. -/
def beginDecision (s : Signups) (request : SignupRequest) (linkAccepted : Bool) : Signups :=
  let email := platform.toLowerCase request.email
  if email = cfg.adminEmail then
    if linkAccepted then { s with admitted := s.admitted ++ [request] } else s
  else if !cfg.signupEnabled then s
  else if !isEmailAllowed platform cfg email then
    s.recordAttempt cfg (networkOf request.ip) false
  else if !s.isAddressWithinQuota cfg (signupNetworkOf platform cfg request.ip) then
    s.recordAttempt cfg (networkOf request.ip) false
  else { s with counted := s.counted ++ [request] }

/-- The rest of the decision. -/
def concludeDecision (s : Signups) (request : SignupRequest) : Signups :=
  let s := { s with counted := s.counted.erase request }
  if !s.isNetworkWithinQuota cfg (networkOf request.ip) then
    s.recordAttempt cfg (networkOf request.ip) false
  else { s with admitted := s.admitted ++ [request] }

/-- The account is created, unless its address is taken. -/
def createAccount (s : Signups) (request : SignupRequest) : Signups :=
  let s := { s with admitted := s.admitted.erase request }
  match s.accounts.insert?
      ⟨platform.toLowerCase request.email, signupNetworkOf platform cfg request.ip⟩ with
  | none => s
  | some accounts =>
    { s with
      accounts := accounts
      created := s.created ++ [request]
      accepted := s.accepted ++ [(networkOf request.ip, s.now)] }

/-- The state after an event. -/
def step (s : Signups) : SignupEvent → Signups
  | .elapse ms => { s with now := s.now + ms }
  | .begin request linkAccepted => s.beginDecision platform cfg request linkAccepted
  | .conclude request => if request ∈ s.counted then s.concludeDecision cfg request else s
  | .create request => if request ∈ s.admitted then s.createAccount platform cfg request else s
  | .record request =>
    if request ∈ s.created then
      { s with created := s.created.erase request }.recordAttempt cfg (networkOf request.ip) true
    else s
  | .abort request =>
    { s with counted := s.counted.erase request, admitted := s.admitted.erase request }
  | .lose request => { s with created := s.created.erase request }

/-- The accounts recorded with a sign-up network, without the administrator's. -/
def accountsFrom (s : Signups) (signupNetwork : List Char) : ℕ :=
  s.accounts.rows.countP fun a =>
    a.signupNetwork = some signupNetwork ∧ a.email ≠ cfg.adminEmail

/-- The requests that were let pass and may still become such accounts. -/
def admittedFrom (s : Signups) (signupNetwork : List Char) : ℕ :=
  s.admitted.countP fun r =>
    signupNetworkOf platform cfg r.ip = some signupNetwork ∧ ¬ r.IsAdmin platform cfg

/-- The instants of the sign-ups accepted from a network. -/
def acceptedFrom (s : Signups) (network : List Char) : List ℤ :=
  (s.accepted.filter fun entry => entry.1 = network).map Prod.snd

/-- No sign-up network has more accounts than its ceiling, and no network had more sign-ups
accepted in an hour, from its first instant to its last. -/
def WithinCeilings (s : Signups) : Prop :=
  (∀ signupNetwork, s.accountsFrom cfg signupNetwork ≤ cfg.maxAccountsPerAddress) ∧
    ∀ network, WindowBounded (signupWindow + 1) cfg.maxPerNetworkPerHour (s.acceptedFrom network)

/-- There is room for a request beside those that were let pass. -/
def HasRoom (s : Signups) (request : SignupRequest) : Prop :=
  (¬ request.IsAdmin platform cfg → ∀ signupNetwork ∈ signupNetworkOf platform cfg request.ip,
      s.accountsFrom cfg signupNetwork + s.admittedFrom platform cfg signupNetwork <
        cfg.maxAccountsPerAddress) ∧
    recentCount (signupWindow + 1) s.now (s.acceptedFrom (networkOf request.ip)) +
        (s.admitted.countP fun r => networkOf r.ip = networkOf request.ip) <
      cfg.maxPerNetworkPerHour

/-- Where an event lets a request pass, there is room for it. -/
def AdmitsWithRoom (s : Signups) : SignupEvent → Prop
  | .begin request linkAccepted =>
    request.IsAdmin platform cfg → linkAccepted = true → s.HasRoom platform cfg request
  | .conclude request => request ∈ s.counted →
      s.isNetworkWithinQuota cfg (networkOf request.ip) = true → s.HasRoom platform cfg request
  | _ => True

/-- A decision begins when no other request is under way, none of the administrator's is
let pass, and no record is lost. -/
def OneAtATime (s : Signups) : SignupEvent → Prop
  | .begin request linkAccepted =>
    s.counted = [] ∧ s.admitted = [] ∧ s.created = [] ∧
      (request.IsAdmin platform cfg → linkAccepted = false)
  | .lose _ => False
  | _ => True

instance (s : Signups) : ∀ e, Decidable (s.OneAtATime platform cfg e)
  | .begin _ _ => inferInstanceAs (Decidable (_ ∧ _ ∧ _ ∧ (_ → _)))
  | .lose _ => .isFalse id
  | .elapse _ => .isTrue trivial
  | .conclude _ => .isTrue trivial
  | .create _ => .isTrue trivial
  | .record _ => .isTrue trivial
  | .abort _ => .isTrue trivial

end Signups

end Rules

namespace Signups

section

variable {platform : SignupPlatform} {cfg : SignupConfig} {s : Signups} {request : SignupRequest}
  {e : SignupEvent}

theorem acceptedFrom_snoc (s : Signups) (network network' : List Char) (instant : ℤ) :
    ({ s with accepted := s.accepted ++ [(network', instant)] } : Signups).acceptedFrom network =
      s.acceptedFrom network ++ (if network' = network then [instant] else []) := by
  unfold acceptedFrom
  by_cases hsame : network' = network
  · simp [hsame]
  · simp [hsame]

variable (platform cfg) in
/-- There is room for all requests that were let pass. -/
structure RoomForAll (s : Signups) : Prop where
  accounts : ∀ signupNetwork,
    s.accountsFrom cfg signupNetwork + s.admittedFrom platform cfg signupNetwork ≤
      cfg.maxAccountsPerAddress
  windows : ∀ network,
    WindowBounded (signupWindow + 1) cfg.maxPerNetworkPerHour (s.acceptedFrom network)
  recent : ∀ network,
    recentCount (signupWindow + 1) s.now (s.acceptedFrom network) +
      (s.admitted.countP fun r => networkOf r.ip = network) ≤ cfg.maxPerNetworkPerHour

theorem RoomForAll.withinCeilings (h : s.RoomForAll platform cfg) : s.WithinCeilings cfg :=
  ⟨fun signupNetwork => Nat.le_trans (Nat.le_add_right _ _) (h.accounts signupNetwork), h.windows⟩

/-- A record of an attempt leaves everything else. -/
theorem RoomForAll.recordAttempt (h : s.RoomForAll platform cfg) (network : List Char)
    (accepted : Bool) : (s.recordAttempt cfg network accepted).RoomForAll platform cfg := by
  unfold Signups.recordAttempt
  split
  · exact h
  · exact ⟨h.accounts, h.windows, h.recent⟩

/-- Where there is room for it, a request may be let pass. -/
theorem RoomForAll.admit (h : s.RoomForAll platform cfg)
    (hroom : s.HasRoom platform cfg request) :
    ({ s with admitted := s.admitted ++ [request] } : Signups).RoomForAll platform cfg := by
  obtain ⟨haccounts, hrecent⟩ := hroom
  refine ⟨fun signupNetwork => ?_, h.windows, fun network => ?_⟩
  · unfold admittedFrom
    rw [List.countP_append, List.countP_singleton]
    have hbefore := h.accounts signupNetwork
    split
    · next hcounts =>
      obtain ⟨hnetwork, hadmin⟩ := of_decide_eq_true hcounts
      have hfree := haccounts hadmin signupNetwork hnetwork
      unfold admittedFrom at hfree
      change s.accountsFrom cfg signupNetwork + _ ≤ _
      omega
    · exact hbefore
  · rw [List.countP_append, List.countP_singleton]
    have hbefore := h.recent network
    change recentCount (signupWindow + 1) s.now (s.acceptedFrom network) + _ ≤ _
    split
    · next hcounts =>
      have hnetwork := of_decide_eq_true hcounts
      subst hnetwork
      omega
    · exact hbefore

/-- A request that goes leaves more room. -/
theorem RoomForAll.erase (h : s.RoomForAll platform cfg) (request : SignupRequest) :
    ({ s with admitted := s.admitted.erase request } : Signups).RoomForAll platform cfg := by
  have hfewer : ∀ p : SignupRequest → Bool,
      (s.admitted.erase request).countP p ≤ s.admitted.countP p :=
    fun p => List.erase_sublist.countP_le
  refine ⟨fun signupNetwork => ?_, h.windows, fun network => ?_⟩
  · exact Nat.le_trans (Nat.add_le_add_left (hfewer _) _) (h.accounts signupNetwork)
  · exact Nat.le_trans (Nat.add_le_add_left (hfewer _) _) (h.recent network)

/-- The account of a request that was let pass takes the room that was left for it. -/
theorem RoomForAll.createAccount (h : s.RoomForAll platform cfg) (hmem : request ∈ s.admitted) :
    (s.createAccount platform cfg request).RoomForAll platform cfg := by
  unfold Signups.createAccount
  dsimp only
  split
  · exact h.erase request
  · next accounts hinsert =>
    have hrows := Table.insert?_eq_some hinsert
    refine ⟨fun signupNetwork => ?_, fun network => ?_, fun network => ?_⟩
    · have hbefore := h.accounts signupNetwork
      have herase := countP_erase_add (fun r => decide (signupNetworkOf platform cfg r.ip =
        some signupNetwork ∧ ¬ r.IsAdmin platform cfg)) hmem
      unfold accountsFrom admittedFrom at hbefore ⊢
      dsimp only
      rw [hrows, List.countP_append, List.countP_singleton]
      by_cases hcounts : signupNetworkOf platform cfg request.ip = some signupNetwork ∧
          ¬ request.IsAdmin platform cfg
      · rw [if_pos (decide_eq_true hcounts)] at herase
        split
        · omega
        · omega
      · rw [if_neg fun h => hcounts (of_decide_eq_true h)] at herase
        split
        · next hnew => exact absurd (of_decide_eq_true hnew) hcounts
        · omega
    · refine (acceptedFrom_snoc s network _ s.now).symm ▸ ?_
      have hrecent := h.recent network
      have herase := countP_erase_add (fun r => decide (networkOf r.ip = network)) hmem
      split
      · next hsame =>
        rw [if_pos (decide_eq_true hsame)] at herase
        exact (h.windows network).snoc (by omega)
      · rw [List.append_nil]
        exact h.windows network
    · have hrecent := h.recent network
      have herase := countP_erase_add (fun r => decide (networkOf r.ip = network)) hmem
      have hone := recentCount_snoc_le (signupWindow + 1) s.now s.now (s.acceptedFrom network)
      refine (acceptedFrom_snoc s network _ s.now).symm ▸ ?_
      dsimp only
      split
      · next hsame =>
        rw [if_pos (decide_eq_true hsame)] at herase
        omega
      · next hother =>
        rw [if_neg (by simpa using hother)] at herase
        rw [List.append_nil]
        omega

/-- **One step.** What lets a request pass with room keeps room for all. -/
theorem RoomForAll.step (h : s.RoomForAll platform cfg)
    (he : s.AdmitsWithRoom platform cfg e) : (s.step platform cfg e).RoomForAll platform cfg := by
  cases e with
  | elapse ms =>
    refine ⟨h.accounts, h.windows, fun network => ?_⟩
    have hmono : recentCount (signupWindow + 1) (s.now + ms) (s.acceptedFrom network) ≤
        recentCount (signupWindow + 1) s.now (s.acceptedFrom network) :=
      recentCount_mono (by omega) _
    exact Nat.le_trans (Nat.add_le_add_right hmono _) (h.recent network)
  | begin request linkAccepted =>
    unfold Signups.step beginDecision
    dsimp only
    split
    · next hadmin =>
      split
      · next hlink => exact h.admit (he hadmin hlink)
      · exact h
    · split
      · exact h
      · split
        · exact h.recordAttempt _ _
        · split
          · exact h.recordAttempt _ _
          · exact ⟨h.accounts, h.windows, h.recent⟩
  | conclude request =>
    unfold Signups.step
    dsimp only
    split
    · next hmem =>
      have hcounted : ({ s with counted := s.counted.erase request } : Signups).RoomForAll
          platform cfg := ⟨h.accounts, h.windows, h.recent⟩
      unfold concludeDecision
      dsimp only
      split
      · exact hcounted.recordAttempt _ _
      · next hquota =>
        rw [Bool.not_eq_true, Bool.not_eq_false'] at hquota
        exact hcounted.admit (he hmem hquota)
    · exact h
  | create request =>
    unfold Signups.step
    dsimp only
    split
    · next hmem => exact h.createAccount hmem
    · exact h
  | record request =>
    unfold Signups.step
    dsimp only
    split
    · have hcreated : ({ s with created := s.created.erase request } : Signups).RoomForAll
          platform cfg := ⟨h.accounts, h.windows, h.recent⟩
      exact hcreated.recordAttempt _ _
    · exact h
  | abort request =>
    have herased := h.erase request
    exact ⟨herased.accounts, herased.windows, herased.recent⟩
  | lose request => exact ⟨h.accounts, h.windows, h.recent⟩

/-- No request is under way, the ceilings hold, and every sign-up accepted so far has a
record that is not older. -/
structure Settled (cfg : SignupConfig) (s : Signups) : Prop where
  counted : s.counted = []
  admitted : s.admitted = []
  created : s.created = []
  withinCeilings : s.WithinCeilings cfg
  past : ∀ entry ∈ s.accepted, entry.2 ≤ s.now
  recorded : ∀ network since,
    (s.acceptedFrom network).countP (fun instant => since ≤ instant) ≤
      s.countAcceptedSince network since

variable (platform cfg) in
/-- One request at most is under way, what it has counted still stands, and all sign-ups
accepted before it are recorded. -/
structure Alone (s : Signups) : Prop where
  single : s.counted.length + s.admitted.length + s.created.length ≤ 1
  counted : ∀ r ∈ s.counted, ¬ r.IsAdmin platform cfg ∧
    ∀ signupNetwork ∈ signupNetworkOf platform cfg r.ip,
      s.countFromNetwork signupNetwork < cfg.maxAccountsPerAddress
  past : ∀ entry ∈ s.accepted, entry.2 ≤ s.now
  recorded : ∀ network since,
    (s.acceptedFrom network).countP (fun instant => since ≤ instant) ≤
      s.countAcceptedSince network since + s.created.countP fun r => networkOf r.ip = network

theorem Settled.alone (h : s.Settled cfg) : s.Alone platform cfg := by
  refine ⟨?_, ?_, h.past, fun network since => ?_⟩
  · rw [h.counted, h.admitted, h.created]
    decide
  · rw [h.counted]
    exact fun r hr => absurd hr List.not_mem_nil
  · exact Nat.le_trans (h.recorded network since) (Nat.le_add_right _ _)

theorem Settled.roomForAll (h : s.Settled cfg) : s.RoomForAll platform cfg := by
  obtain ⟨haccounts, hwindows⟩ := h.withinCeilings
  refine ⟨fun signupNetwork => ?_, hwindows, fun network => ?_⟩
  · rw [admittedFrom, h.admitted]
    exact haccounts signupNetwork
  · rw [h.admitted]
    have hwindow := hwindows network s.now
    refine Nat.le_trans (List.countP_mono_left fun instant hinstant hrecent => ?_) hwindow
    obtain ⟨entry, hentry, rfl⟩ := List.mem_map.mp hinstant
    exact decide_eq_true ⟨of_decide_eq_true hrecent, h.past entry (List.mem_filter.mp hentry).1⟩

/-- A rejected attempt is not counted. -/
theorem countAcceptedSince_recordAttempt (cfg : SignupConfig) (s : Signups)
    (network network' : List Char)
    (accepted : Bool) (since : ℤ) :
    (s.recordAttempt cfg network' accepted).countAcceptedSince network since =
      s.countAcceptedSince network since +
        if cfg.maxPerNetworkPerHour ≠ 0 ∧ network' = network ∧ accepted = true ∧ since ≤ s.now then
          1
        else 0 := by
  unfold recordAttempt countAcceptedSince
  split
  · next hoff => simp [hoff]
  · next hon =>
    rw [List.countP_append, List.countP_singleton]
    simp [hon]

/-- One at a time, what the rules count is what there is. -/
theorem Alone.hasRoom (h : s.Alone platform cfg)
    (hhour : 0 < cfg.maxPerNetworkPerHour) (hmem : request ∈ s.counted)
    (hquota : s.isNetworkWithinQuota cfg (networkOf request.ip) = true) :
    s.HasRoom platform cfg request := by
  have hsingle := h.single
  have hcounted : 0 < s.counted.length := List.length_pos_of_mem hmem
  have hadmitted : s.admitted = [] := List.length_eq_zero_iff.mp (by omega)
  have hcreated : s.created = [] := List.length_eq_zero_iff.mp (by omega)
  refine ⟨fun _ signupNetwork hnetwork => ?_, ?_⟩
  · have hfew := (h.counted request hmem).2 signupNetwork hnetwork
    have hle : s.accountsFrom cfg signupNetwork ≤ s.countFromNetwork signupNetwork :=
      List.countP_mono_left fun _ _ hfrom => decide_eq_true (of_decide_eq_true hfrom).1
    rw [admittedFrom, hadmitted]
    exact Nat.lt_of_le_of_lt hle hfew
  · have hrecorded := h.recorded (networkOf request.ip) (s.now - signupWindow)
    rw [hcreated] at hrecorded
    rw [isNetworkWithinQuota, if_neg (by omega)] at hquota
    have hlt := of_decide_eq_true hquota
    have hsame : recentCount (signupWindow + 1) s.now (s.acceptedFrom (networkOf request.ip)) =
        (s.acceptedFrom (networkOf request.ip)).countP
          fun instant => s.now - signupWindow ≤ instant := by
      refine List.countP_congr fun instant _ => ?_
      rw [decide_eq_true_iff, decide_eq_true_iff]
      omega
    rw [hadmitted, hsame]
    exact Nat.lt_of_le_of_lt hrecorded hlt

/-- A rejected attempt is recorded, and is not one of those accepted. -/
theorem Alone.rejected (h : s.Alone platform cfg) (hhour : 0 < cfg.maxPerNetworkPerHour)
    (network : List Char) : (s.recordAttempt cfg network false).Alone platform cfg := by
  have hrecorded := fun network' since => countAcceptedSince_recordAttempt cfg s network'
    network false since
  unfold Signups.recordAttempt at hrecorded ⊢
  rw [if_neg (by omega)] at hrecorded ⊢
  refine ⟨h.single, h.counted, h.past, fun network' since => ?_⟩
  rw [hrecorded, if_neg fun h => Bool.noConfusion h.2.2.1]
  exact h.recorded network' since

/-- A request that the rules let pass is the only one, and has room. -/
theorem Alone.begin {linkAccepted : Bool} (h : s.Alone platform cfg)
    (hpositive : 0 < cfg.maxAccountsPerAddress) (hhour : 0 < cfg.maxPerNetworkPerHour)
    (he : s.OneAtATime platform cfg (.begin request linkAccepted)) :
    (s.step platform cfg (.begin request linkAccepted)).Alone platform cfg := by
  obtain ⟨hcounted, hadmitted, hcreated, hlink⟩ := he
  unfold Signups.step beginDecision
  dsimp only
  split
  · next hadmin =>
    rw [hlink hadmin]
    exact h
  · next hadmin =>
    split
    · exact h
    · split
      · exact h.rejected hhour _
      · split
        · exact h.rejected hhour _
        · next hquota =>
          rw [Bool.not_eq_true, Bool.not_eq_false'] at hquota
          refine ⟨?_, fun r hr => ?_, h.past, h.recorded⟩
          · rw [hcounted, hadmitted, hcreated]
            simp
          · rw [hcounted] at hr
            cases List.mem_singleton.mp hr
            refine ⟨hadmin, fun signupNetwork hnetwork => ?_⟩
            rw [Option.mem_def.mp hnetwork, isAddressWithinQuota, if_neg (by omega)] at hquota
            exact of_decide_eq_true hquota

theorem Alone.conclude (h : s.Alone platform cfg) (hhour : 0 < cfg.maxPerNetworkPerHour) :
    (s.step platform cfg (.conclude request)).Alone platform cfg := by
  unfold Signups.step
  dsimp only
  split
  · next hmem =>
    have hlength := List.length_erase_of_mem hmem
    have hpos := List.length_pos_of_mem hmem
    have hsingle := h.single
    have hsub : ∀ r ∈ s.counted.erase request, r ∈ s.counted :=
      fun r hr => List.mem_of_mem_erase hr
    have hleft : ({ s with counted := s.counted.erase request } : Signups).Alone platform cfg := by
      refine ⟨?_, fun r hr => h.counted r (hsub r hr), h.past, h.recorded⟩
      dsimp only
      omega
    unfold concludeDecision
    dsimp only
    split
    · exact hleft.rejected hhour _
    · refine ⟨?_, hleft.counted, hleft.past, hleft.recorded⟩
      dsimp only
      rw [List.length_append, List.length_singleton]
      omega
  · exact h

/-- An account that is created is accepted now, and its attempt is yet to be recorded. -/
theorem Alone.create (h : s.Alone platform cfg) :
    (s.step platform cfg (.create request)).Alone platform cfg := by
  unfold Signups.step
  dsimp only
  split
  · next hmem =>
    have hlength := List.length_erase_of_mem hmem
    have hpos := List.length_pos_of_mem hmem
    have hsingle := h.single
    have hcounted : s.counted = [] := List.length_eq_zero_iff.mp (by omega)
    have hcreated : s.created = [] := List.length_eq_zero_iff.mp (by omega)
    unfold createAccount
    dsimp only
    split
    · refine ⟨?_, h.counted, h.past, h.recorded⟩
      dsimp only
      omega
    · refine ⟨?_, fun r hr => ?_, fun entry hentry => ?_, fun network since => ?_⟩
      · dsimp only
        rw [hcounted, hcreated]
        simp only [List.length_nil, List.nil_append, List.length_singleton]
        omega
      · rw [hcounted] at hr
        exact absurd hr List.not_mem_nil
      · rcases List.mem_append.mp hentry with hold | hnew
        · exact h.past entry hold
        · rw [List.mem_singleton.mp hnew]
      · have hbefore := h.recorded network since
        refine (acceptedFrom_snoc s network _ s.now).symm ▸ ?_
        change _ ≤ s.countAcceptedSince network since + _
        rw [List.countP_append, List.countP_append, List.countP_singleton]
        split
        · next hsame =>
          have hone : [s.now].countP (fun instant => since ≤ instant) ≤ 1 :=
            List.countP_le_length
          rw [if_pos (decide_eq_true hsame)]
          omega
        · rw [List.countP_nil]
          omega
  · exact h

/-- The attempt that is recorded is the one that was yet to be. -/
theorem Alone.record (h : s.Alone platform cfg) (hhour : 0 < cfg.maxPerNetworkPerHour) :
    (s.step platform cfg (.record request)).Alone platform cfg := by
  unfold Signups.step
  dsimp only
  split
  · next hmem =>
    have hlength := List.length_erase_of_mem hmem
    have hpos := List.length_pos_of_mem hmem
    have hsingle := h.single
    have hrecorded := fun network since => countAcceptedSince_recordAttempt cfg
      { s with created := s.created.erase request } network (networkOf request.ip) true since
    unfold Signups.recordAttempt at hrecorded ⊢
    rw [if_neg (by omega)] at hrecorded ⊢
    refine ⟨?_, h.counted, h.past, fun network since => ?_⟩
    · dsimp only
      omega
    · rw [hrecorded]
      have hbefore := h.recorded network since
      have herase := countP_erase_add (fun r => decide (networkOf r.ip = network)) hmem
      change (s.acceptedFrom network).countP _ ≤ s.countAcceptedSince network since + _ + _
      dsimp only
      by_cases hsame : networkOf request.ip = network
      · rw [if_pos (decide_eq_true hsame)] at herase
        by_cases hsince : since ≤ s.now
        · rw [if_pos ⟨by omega, hsame, rfl, hsince⟩]
          omega
        · -- Nothing was accepted after the clock.
          have hnone : (s.acceptedFrom network).countP (fun instant => since ≤ instant) = 0 := by
            refine List.countP_eq_zero.mpr fun instant hinstant hlate => ?_
            obtain ⟨entry, hentry, rfl⟩ := List.mem_map.mp hinstant
            have hpast := h.past entry (List.mem_filter.mp hentry).1
            have hlate := of_decide_eq_true hlate
            omega
          omega
      · rw [if_neg fun h => hsame (of_decide_eq_true h)] at herase
        omega
  · exact h

theorem Alone.abort (h : s.Alone platform cfg) :
    (s.step platform cfg (.abort request)).Alone platform cfg := by
  have hcounted := (List.erase_sublist (a := request) (l := s.counted)).length_le
  have hadmitted := (List.erase_sublist (a := request) (l := s.admitted)).length_le
  have hsingle := h.single
  refine ⟨?_, fun r hr => h.counted r (List.mem_of_mem_erase hr), h.past, h.recorded⟩
  dsimp only [Signups.step]
  omega

/-- **One step**, one at a time. -/
theorem Alone.step (h : s.Alone platform cfg) (hpositive : 0 < cfg.maxAccountsPerAddress)
    (hhour : 0 < cfg.maxPerNetworkPerHour) (he : s.OneAtATime platform cfg e) :
    (s.step platform cfg e).Alone platform cfg := by
  cases e with
  | elapse ms =>
    refine ⟨h.single, h.counted, fun entry hentry => ?_, h.recorded⟩
    have hpast := h.past entry hentry
    change entry.2 ≤ s.now + ms
    omega
  | begin request linkAccepted => exact h.begin hpositive hhour he
  | conclude request => exact h.conclude hhour
  | create request => exact h.create
  | record request => exact h.record hhour
  | abort request => exact h.abort
  | lose request => exact he.elim

variable (platform) in
/-- **Sign-up ceilings.** Where every request that is let pass finds room, the ceilings hold
throughout; and it does where sign-ups are decided one at a time, all are recorded, and the
administrator's does not skip the rules. -/
theorem ceilings_hold (hpositive : 0 < cfg.maxAccountsPerAddress)
    (hhour : 0 < cfg.maxPerNetworkPerHour) (hsettled : s.Settled cfg) :
    (∀ es, Along (step platform cfg) (AdmitsWithRoom platform cfg) s es →
        Throughout (step platform cfg) (WithinCeilings cfg) s es) ∧
      ∀ es, Along (step platform cfg) (OneAtATime platform cfg) s es →
        Along (step platform cfg) (AdmitsWithRoom platform cfg) s es := by
  constructor
  · intro es hes
    have hroom := throughout_of_step (I := RoomForAll platform cfg) (fun _ _ h he => h.step he)
      hsettled.roomForAll hes
    exact hroom.mono fun _ h => h.withinCeilings
  · intro es hes
    refine along_of_step (I := Alone platform cfg) (fun _ _ h he => h.step hpositive hhour he)
      (fun s e h he => ?_) hsettled.alone hes
    cases e with
    | begin request linkAccepted =>
      intro hadmin hlink
      rw [he.2.2.2 hadmin] at hlink
      cases hlink
    | conclude request => exact fun hmem hquota => h.hasRoom hhour hmem hquota
    | _ => trivial

end

section Sample

/-- Small letters of addresses in ASCII, and the digest of the one address below. -/
def samplePlatform : SignupPlatform where
  toLowerCase := List.map Char.toLower
  hmacSha256Hex _ _ := "f3b0ccb0bd38a2ef7374dc102fcb11450500f1cc8c47af54d7c7da6f585b906c".toList
  disposableEmailDomains := []

/-- One account for each address, and one sign-up an hour for each network. -/
def sampleConfig : SignupConfig where
  adminEmail := "admin@example.com".toList
  signupEnabled := true
  secretKey := "0123456789abcdef0123456789abcdef".toList
  blockedEmailDomains := []
  blockDisposableEmail := false
  maxAccountsPerAddress := 1
  maxPerNetworkPerHour := 1

/-- No account and no attempt yet. -/
def ofNothing : Signups where
  now := 0
  accounts := Table.empty
  attempts := []
  counted := []
  admitted := []
  created := []
  accepted := []

/-- A sign-up from the one address. -/
def signupOf (email : String) : SignupRequest := ⟨email.toList, some "203.0.113.7".toList⟩

theorem settled_ofNothing : Settled sampleConfig ofNothing where
  counted := rfl
  admitted := rfl
  created := rfl
  withinCeilings := ⟨fun _ => Nat.zero_le _, fun _ => windowBounded_nil⟩
  past _ h := absurd h List.not_mem_nil
  recorded _ _ := Nat.zero_le _

/-- Two sign-ups one after the other: the second one is refused. -/
theorem ceilings_hold_ofNothing :
    Throughout (step samplePlatform sampleConfig) (WithinCeilings sampleConfig) ofNothing
      [.begin (signupOf "ann@example.com") false, .conclude (signupOf "ann@example.com"),
        .create (signupOf "ann@example.com"), .elapse 5, .record (signupOf "ann@example.com"),
        .begin (signupOf "bob@example.com") false, .conclude (signupOf "bob@example.com")] := by
  have hall := ceilings_hold samplePlatform (by decide) (by decide) settled_ofNothing
  exact hall.1 _ (hall.2 _ (by decide))

/-- Two sign-ups that are both decided before either has its account. -/
theorem not_ceilings_hold_together :
    ¬ ∀ (platform : SignupPlatform) (cfg : SignupConfig) (s : Signups) (es : List SignupEvent),
      0 < cfg.maxAccountsPerAddress → 0 < cfg.maxPerNetworkPerHour → s.Settled cfg →
        Throughout (step platform cfg) (WithinCeilings cfg) s es := by
  intro h
  have hlast := (h samplePlatform sampleConfig ofNothing
    [.begin (signupOf "ann@example.com") false, .begin (signupOf "bob@example.com") false,
      .conclude (signupOf "ann@example.com"), .conclude (signupOf "bob@example.com"),
      .create (signupOf "ann@example.com"), .create (signupOf "bob@example.com")]
    (by decide) (by decide) settled_ofNothing).last
  have htwo := hlast.1 "f3b0ccb0bd38a2ef7374dc102fcb1145".toList
  revert htwo
  decide

end Sample

end Signups

end SilenceWatch
