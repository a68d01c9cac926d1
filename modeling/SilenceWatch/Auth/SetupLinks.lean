import SilenceWatch.ApiKeys.Resolve
import SilenceWatch.Auth.Signup

/-!
# Setup links

The account of the administrator is created with a link that the server prints, and the link
is spent when the account exists. Decisions, creations and what follows them are statements of
their own, of any number of requests and in any order, beside links that are printed, purges
and whatever else is kept in the same table. The account exists only because a link was
printed less than half an hour before a decision, and a link that was spent opens nothing.
-/

namespace SilenceWatch

open Relational Transition

/-- `SETUP_LINK_TTL_MS`. -/
def setupLinkTtlMs : ℤ := 30 * 60000

/-- A row of `verification`. -/
structure Verification where
  identifier : List Char
  value : List Char
  expiresAt : ℤ
  deriving DecidableEq

/-- A link as it was printed, for the administrator's address. -/
structure SetupLink where
  token : List Char
  issuedAt : ℤ
  deriving DecidableEq

/-- An account of the administrator that was created, with the token that its request carried
and the instant that was decided at. -/
structure AdminCreation where
  token : List Char
  decidedAt : ℤ
  deriving DecidableEq

/-- How far a request for an account is. -/
inductive SetupStage where
  | idle
  | asked (email : List Char) (setupToken : Option (List Char))
  | decided (email : List Char) (setupToken : Option (List Char)) (decidedAt : ℤ)
  | created (setupToken : Option (List Char))
  deriving DecidableEq

/-- The tables, the requests, and what happened so far. -/
structure SetupWorld where
  verifications : List Verification
  emails : List (List Char)
  requests : ℕ → SetupStage
  issued : List SetupLink
  spent : List (List Char)
  made : List AdminCreation

/-- What may happen next. A decision on another address is what the rules make of it. -/
inductive SetupEvent where
  | issue (token : List Char) (now : ℤ)
  | ask (request : ℕ) (email : List Char) (setupToken : Option (List Char))
  | decide (request : ℕ) (now : ℤ) (othersAllowed : Bool)
  | create (request : ℕ)
  | follow (request : ℕ)
  | abort (request : ℕ)
  | purgeExpired (now : ℤ)
  | keep (row : Verification)
  | forget (identifier : List Char)
  | deleteAccount (email : List Char)

section Service

variable (sha256Hex : Sha256Hex) (platform : SignupPlatform) (cfg : SignupConfig)

/-- `identifierOf`. -/
def identifierOf (token : List Char) : List Char := "setup:".toList ++ sha256Hex.digest token

namespace SetupWorld

/-- A request goes on to another stage. -/
def setRequest (w : SetupWorld) (request : ℕ) (stage : SetupStage) : SetupWorld :=
  { w with requests := Function.update w.requests request stage }

/-- `SetupLinkService.issue`. -/
def issue (w : SetupWorld) (token : List Char) (now : ℤ) : SetupWorld :=
  { w with
    verifications := w.verifications ++
      [⟨identifierOf sha256Hex token, cfg.adminEmail, now + setupLinkTtlMs⟩]
    issued := w.issued ++ [⟨token, now⟩] }

/-- `SetupLinkService.accepts`. -/
def accepts (w : SetupWorld) (now : ℤ) (setupToken : Option (List Char)) (email : List Char) :
    Bool :=
  match setupToken with
  | none => false
  | some token =>
    if token = [] ∨ platform.toLowerCase email ≠ cfg.adminEmail then false
    else
      match w.verifications.find? fun row =>
          row.identifier = identifierOf sha256Hex token ∧ now < row.expiresAt with
      | none => false
      | some row => row.value = platform.toLowerCase email

/-- `SetupLinkService.spend`. -/
def spend (w : SetupWorld) (token : List Char) : SetupWorld :=
  { w with
    verifications := w.verifications.filter fun row =>
      row.identifier ≠ identifierOf sha256Hex token
    spent := w.spent ++ [token] }

/-- `SignupPolicyService.decide`. -/
def decides (w : SetupWorld) (now : ℤ) (email : List Char) (setupToken : Option (List Char))
    (othersAllowed : Bool) : Bool :=
  if platform.toLowerCase email = cfg.adminEmail then
    w.accepts sha256Hex platform cfg now setupToken email
  else othersAllowed

/-- The row of the user, unless its address is taken. -/
def createUser (w : SetupWorld) (request : ℕ) (email : List Char)
    (setupToken : Option (List Char)) (decidedAt : ℤ) : SetupWorld :=
  if w.emails.contains (platform.toLowerCase email) then w.setRequest request .idle
  else
    { w.setRequest request (.created setupToken) with
      emails := w.emails ++ [platform.toLowerCase email]
      made :=
        if platform.toLowerCase email = cfg.adminEmail then
          w.made ++ [⟨setupToken.getD [], decidedAt⟩]
        else w.made }

/-- The state after an event. -/
def step (w : SetupWorld) : SetupEvent → SetupWorld
  | .issue token now => w.issue sha256Hex cfg token now
  | .ask request email setupToken =>
    match w.requests request with
    | .idle => w.setRequest request (.asked email setupToken)
    | _ => w
  | .decide request now othersAllowed =>
    match w.requests request with
    | .asked email setupToken =>
      if w.decides sha256Hex platform cfg now email setupToken othersAllowed then
        w.setRequest request (.decided email setupToken now)
      else w.setRequest request .idle
    | _ => w
  | .create request =>
    match w.requests request with
    | .decided email setupToken decidedAt =>
      w.createUser platform cfg request email setupToken decidedAt
    | _ => w
  | .follow request =>
    match w.requests request with
    | .created none => w.setRequest request .idle
    | .created (some token) => (w.spend sha256Hex token).setRequest request .idle
    | _ => w
  | .abort request => w.setRequest request .idle
  | .purgeExpired now =>
    { w with verifications := w.verifications.filter fun row => ¬ row.expiresAt < now }
  | .keep row => { w with verifications := w.verifications ++ [row] }
  | .forget identifier =>
    { w with verifications := w.verifications.filter fun row => row.identifier ≠ identifier }
  | .deleteAccount email => { w with emails := w.emails.filter (· ≠ email) }

/-- No two of the tokens that meet have one digest: a drawn token and those spent before it, or a
token that a request carries and those of the links; and what else is kept in the table is no
link. -/
def CollisionFree (w : SetupWorld) : SetupEvent → Prop
  | .issue token _ => ∀ spent ∈ w.spent, sha256Hex.digest spent ≠ sha256Hex.digest token
  | .decide request _ _ =>
    ∀ email token, w.requests request = .asked email (some token) →
      ∀ link ∈ w.issued, sha256Hex.digest link.token = sha256Hex.digest token →
        link.token = token
  | .keep row => ∀ token, row.identifier ≠ identifierOf sha256Hex token
  | _ => True

/-- The token is of a link that was live at the instant. -/
def WasLive (w : SetupWorld) (token : List Char) (instant : ℤ) : Prop :=
  ∃ link ∈ w.issued, link.token = token ∧ instant < link.issuedAt + setupLinkTtlMs

/-- Every link in the table was printed, no spent one is there, and whoever was let pass for
the administrator's address had one that was live. -/
structure Guarded (w : SetupWorld) : Prop where
  rows : ∀ row ∈ w.verifications, ∀ token, row.identifier = identifierOf sha256Hex token →
    ∃ link ∈ w.issued, row.identifier = identifierOf sha256Hex link.token ∧
      row.expiresAt = link.issuedAt + setupLinkTtlMs
  spent : ∀ token ∈ w.spent, ∀ row ∈ w.verifications,
    row.identifier ≠ identifierOf sha256Hex token
  decided : ∀ request email setupToken decidedAt,
    w.requests request = .decided email setupToken decidedAt →
      platform.toLowerCase email = cfg.adminEmail →
        w.WasLive (setupToken.getD []) decidedAt
  made : ∀ creation ∈ w.made, w.WasLive creation.token creation.decidedAt
  account : cfg.adminEmail ∈ w.emails → w.made ≠ []

end SetupWorld

end Service

section Steps

variable {sha256Hex : Sha256Hex} {platform : SignupPlatform} {cfg : SignupConfig}
  {w w' : SetupWorld}

/-- One identifier is of one digest. -/
theorem digest_eq_of_identifierOf {token token' : List Char}
    (h : identifierOf sha256Hex token = identifierOf sha256Hex token') :
    sha256Hex.digest token = sha256Hex.digest token' :=
  List.append_cancel_left h

namespace SetupWorld

/-- What was live stays so while more links are printed. -/
theorem WasLive.mono {token : List Char} {instant : ℤ} (h : w.WasLive token instant)
    (hissued : ∀ link ∈ w.issued, link ∈ w'.issued) : w'.WasLive token instant := by
  obtain ⟨link, hlink, htoken, hlive⟩ := h
  exact ⟨link, hissued link hlink, htoken, hlive⟩

/-- A token that is accepted is of a link in the table, which has not expired. -/
theorem exists_of_accepts {now : ℤ} {setupToken : Option (List Char)} {email : List Char}
    (h : w.accepts sha256Hex platform cfg now setupToken email = true) :
    ∃ token row, setupToken = some token ∧ row ∈ w.verifications ∧
      row.identifier = identifierOf sha256Hex token ∧ now < row.expiresAt := by
  unfold accepts at h
  split at h
  · cases h
  · next token =>
    split at h
    · cases h
    · split at h
      · cases h
      · next row hrow =>
        have hsuits := List.find?_some hrow
        obtain ⟨hid, hlive⟩ := of_decide_eq_true hsuits
        exact ⟨token, row, rfl, List.mem_of_find?_eq_some hrow, hid, hlive⟩

namespace Guarded

variable (h : w.Guarded sha256Hex platform cfg)

include h

/-- A request goes on to a stage that is not a decision, or to one that had a live link. -/
theorem setRequest {request : ℕ} {stage : SetupStage}
    (hstage : ∀ email setupToken decidedAt, stage = .decided email setupToken decidedAt →
      platform.toLowerCase email = cfg.adminEmail → w.WasLive (setupToken.getD []) decidedAt) :
    (w.setRequest request stage).Guarded sha256Hex platform cfg := by
  refine ⟨h.rows, h.spent, ?_, h.made, h.account⟩
  intro other email setupToken decidedAt hother
  by_cases hsame : other = request
  · simp only [hsame, SetupWorld.setRequest, Function.update_self] at hother
    exact hstage email setupToken decidedAt hother
  · simp only [SetupWorld.setRequest, Function.update_of_ne hsame] at hother
    exact h.decided other email setupToken decidedAt hother

/-- Rows may go. -/
theorem shrink {verifications : List Verification}
    (hsub : ∀ row ∈ verifications, row ∈ w.verifications) :
    { w with verifications }.Guarded sha256Hex platform cfg :=
  ⟨fun row hrow => h.rows row (hsub row hrow),
    fun token htoken row hrow => h.spent token htoken row (hsub row hrow),
    h.decided, h.made, h.account⟩

/-- Whoever is let pass for the administrator's address has a link that is live. -/
theorem wasLive_of_decides {now : ℤ} {email : List Char} {setupToken : Option (List Char)}
    {othersAllowed : Bool}
    (hapart : ∀ token, setupToken = some token → ∀ link ∈ w.issued,
      sha256Hex.digest link.token = sha256Hex.digest token → link.token = token)
    (hdecides : w.decides sha256Hex platform cfg now email setupToken othersAllowed = true)
    (hadmin : platform.toLowerCase email = cfg.adminEmail) :
    w.WasLive (setupToken.getD []) now := by
  unfold decides at hdecides
  rw [if_pos hadmin] at hdecides
  obtain ⟨token, row, rfl, hrow, hid, hlive⟩ := exists_of_accepts hdecides
  obtain ⟨link, hlink, hlinked, hexpires⟩ := h.rows row hrow token hid
  have hdigest := digest_eq_of_identifierOf (hlinked.symm.trans hid)
  exact ⟨link, hlink, hapart token rfl link hlink hdigest, hexpires ▸ hlive⟩

/-- The row of the user. -/
theorem createUser {request : ℕ} {email : List Char} {setupToken : Option (List Char)}
    {decidedAt : ℤ} (hstage : w.requests request = .decided email setupToken decidedAt) :
    (w.createUser platform cfg request email setupToken decidedAt).Guarded
      sha256Hex platform cfg := by
  unfold SetupWorld.createUser
  split
  · exact h.setRequest fun _ _ _ hidle => by cases hidle
  · have hnext : (w.setRequest request (.created setupToken)).Guarded sha256Hex platform cfg :=
      h.setRequest fun _ _ _ hcreated => by cases hcreated
    by_cases hadmin : platform.toLowerCase email = cfg.adminEmail
    · rw [if_pos hadmin]
      refine ⟨hnext.rows, hnext.spent, hnext.decided, fun creation hcreation => ?_, ?_⟩
      · rcases List.mem_append.mp hcreation with hold | hnew
        · exact h.made creation hold
        · rw [List.mem_singleton.mp hnew]
          exact h.decided request email setupToken decidedAt hstage hadmin
      · exact fun _ => List.append_ne_nil_of_right_ne_nil _ (List.cons_ne_nil _ _)
    · rw [if_neg hadmin]
      refine ⟨hnext.rows, hnext.spent, hnext.decided, hnext.made, fun hmem => ?_⟩
      rcases List.mem_append.mp hmem with hold | hnew
      · exact h.account hold
      · exact absurd (List.mem_singleton.mp hnew).symm hadmin

/-- **One step.** -/
theorem step {e : SetupEvent} (hfree : w.CollisionFree sha256Hex e) :
    (w.step sha256Hex platform cfg e).Guarded sha256Hex platform cfg := by
  cases e with
  | issue token now =>
    have hissued (link : SetupLink) (hlink : link ∈ w.issued) :
        link ∈ (w.issue sha256Hex cfg token now).issued := List.mem_append_left _ hlink
    constructor
    case rows =>
      intro row hrow other hother
      rcases List.mem_append.mp hrow with hold | hnew
      · obtain ⟨link, hlink, hlinked⟩ := h.rows row hold other hother
        exact ⟨link, hissued link hlink, hlinked⟩
      · rw [List.mem_singleton.mp hnew]
        exact ⟨⟨token, now⟩, List.mem_append_right _ (List.mem_singleton_self _), rfl, rfl⟩
    case spent =>
      intro other hother row hrow
      rcases List.mem_append.mp hrow with hold | hnew
      · exact h.spent other hother row hold
      · rw [List.mem_singleton.mp hnew]
        exact fun heq => hfree other hother (digest_eq_of_identifierOf heq).symm
    case decided =>
      exact fun request email setupToken decidedAt hstage hadmin =>
        (h.decided request email setupToken decidedAt hstage hadmin).mono hissued
    case made => exact fun creation hcreation => (h.made creation hcreation).mono hissued
    case account => exact h.account
  | ask request email setupToken =>
    simp only [SetupWorld.step]
    split
    · exact h.setRequest fun _ _ _ hasked => by cases hasked
    · exact h
  | decide request now othersAllowed =>
    simp only [SetupWorld.step]
    split
    · next hasked =>
      split
      · next hdecides =>
        refine h.setRequest fun email setupToken decidedAt hdecided hadmin => ?_
        cases hdecided
        refine h.wasLive_of_decides (fun token htoken => ?_) hdecides hadmin
        exact hfree _ token (htoken ▸ hasked)
      · exact h.setRequest fun _ _ _ hidle => by cases hidle
    · exact h
  | create request =>
    simp only [SetupWorld.step]
    split
    · next hstage => exact h.createUser hstage
    · exact h
  | follow request =>
    simp only [SetupWorld.step]
    split
    · exact h.setRequest fun _ _ _ hidle => by cases hidle
    · next token _ =>
      have hspent : (w.spend sha256Hex token).Guarded sha256Hex platform cfg := by
        refine ⟨?_, ?_, h.decided, h.made, h.account⟩
        · exact fun row hrow => h.rows row (List.mem_filter.mp hrow).1
        · intro other hother row hrow
          obtain ⟨hold, hkept⟩ := List.mem_filter.mp hrow
          rcases List.mem_append.mp hother with hbefore | hnow
          · exact h.spent other hbefore row hold
          · rw [List.mem_singleton.mp hnow]
            exact of_decide_eq_true hkept
      exact hspent.setRequest fun _ _ _ hidle => by cases hidle
    · exact h
  | abort request => exact h.setRequest fun _ _ _ hidle => by cases hidle
  | purgeExpired now => exact h.shrink fun row hrow => (List.mem_filter.mp hrow).1
  | keep row =>
    refine ⟨fun other hother token hid => ?_, fun token htoken other hother => ?_, h.decided,
      h.made, h.account⟩
    · rcases List.mem_append.mp hother with hold | hnew
      · exact h.rows other hold token hid
      · rw [List.mem_singleton.mp hnew] at hid
        exact absurd hid (hfree token)
    · rcases List.mem_append.mp hother with hold | hnew
      · exact h.spent token htoken other hold
      · rw [List.mem_singleton.mp hnew]
        exact hfree token
  | forget identifier => exact h.shrink fun row hrow => (List.mem_filter.mp hrow).1
  | deleteAccount email =>
    exact ⟨h.rows, h.spent, h.decided, h.made, fun hmem =>
      h.account (List.mem_filter.mp hmem).1⟩

end Guarded

/-- A server whose administrator has no account, and for which no link was printed. -/
structure NeverSetUp (sha256Hex : Sha256Hex) (cfg : SignupConfig) (w : SetupWorld) : Prop where
  rows : ∀ row ∈ w.verifications, ∀ token, row.identifier ≠ identifierOf sha256Hex token
  account : cfg.adminEmail ∉ w.emails
  requests : ∀ request, w.requests request = .idle
  issued : w.issued = []
  spent : w.spent = []
  made : w.made = []

theorem NeverSetUp.guarded (h : w.NeverSetUp sha256Hex cfg) :
    w.Guarded sha256Hex platform cfg where
  rows := fun row hrow token hid => absurd hid (h.rows row hrow token)
  spent := by
    intro token htoken
    rw [h.spent] at htoken
    cases htoken
  decided := by
    intro request email setupToken decidedAt hdecided
    rw [h.requests request] at hdecided
    cases hdecided
  made := by
    intro creation hcreation
    rw [h.made] at hcreation
    cases hcreation
  account := fun hmem => absurd hmem h.account

/-- A token that was spent is not accepted. -/
theorem Guarded.accepts_spent (h : w.Guarded sha256Hex platform cfg) {token : List Char}
    (hspent : token ∈ w.spent) (now : ℤ) (email : List Char) :
    w.accepts sha256Hex platform cfg now (some token) email = false := by
  by_contra haccepts
  obtain ⟨other, row, heq, hrow, hid, _⟩ := exists_of_accepts (Bool.not_eq_false _ ▸ haccepts)
  cases heq
  exact h.spent token hspent row hrow hid

end SetupWorld

end Steps

/-- **The administrator needs a live link.** Whatever order the steps of any number of requests
come in, on a server that was never set up every account of the administrator was let pass with
a token of a link that was printed less than half an hour before, and without one there is no
such account. -/
theorem admin_needs_live_link {sha256Hex : Sha256Hex} {platform : SignupPlatform}
    {cfg : SignupConfig} {w : SetupWorld} {es : List SetupEvent}
    (hstart : w.NeverSetUp sha256Hex cfg)
    (hfree : Along (SetupWorld.step sha256Hex platform cfg)
      (SetupWorld.CollisionFree sha256Hex) w es) :
    Throughout (SetupWorld.step sha256Hex platform cfg)
      (fun w' => (∀ creation ∈ w'.made, w'.WasLive creation.token creation.decidedAt) ∧
        (cfg.adminEmail ∈ w'.emails → w'.made ≠ [])) w es := by
  have hkept := throughout_of_step (I := fun w => w.Guarded sha256Hex platform cfg)
    (fun w e h hfree => h.step hfree) hstart.guarded hfree
  exact hkept.mono fun w' h => ⟨h.made, h.account⟩

/-- **A spent link opens nothing.** In every state of every such run, a token that was spent is
refused for every address and at every instant. -/
theorem spent_link_opens_nothing {sha256Hex : Sha256Hex} {platform : SignupPlatform}
    {cfg : SignupConfig} {w : SetupWorld} {es : List SetupEvent}
    (hstart : w.NeverSetUp sha256Hex cfg)
    (hfree : Along (SetupWorld.step sha256Hex platform cfg)
      (SetupWorld.CollisionFree sha256Hex) w es) :
    Throughout (SetupWorld.step sha256Hex platform cfg)
      (fun w' => ∀ token ∈ w'.spent, ∀ now email,
        w'.accepts sha256Hex platform cfg now (some token) email = false) w es := by
  have hkept := throughout_of_step (I := fun w => w.Guarded sha256Hex platform cfg)
    (fun w e h hfree => h.step hfree) hstart.guarded hfree
  exact hkept.mono fun w' h token hspent now email => h.accepts_spent hspent now email

/-- A server that was just installed. -/
def installed : SetupWorld := ⟨[], [], fun _ => .idle, [], [], []⟩

theorem neverSetUp_installed (sha256Hex : Sha256Hex) (cfg : SignupConfig) :
    installed.NeverSetUp sha256Hex cfg where
  rows := fun row hrow => by cases hrow
  account := List.not_mem_nil
  requests := fun _ => rfl
  issued := rfl
  spent := rfl
  made := rfl

/-- The administrator opens the link, and somebody tries it again. -/
def openedTwice : List SetupEvent :=
  [.issue ['t'] 0, .ask 0 "Admin@Example.com".toList (some ['t']), .decide 0 1000 false,
    .create 0, .follow 0, .deleteAccount "admin@example.com".toList,
    .ask 1 "admin@example.com".toList (some ['t']), .decide 1 2000 false]

theorem collisionFree_openedTwice :
    Along (SetupWorld.step sampleSha256 Signups.samplePlatform Signups.sampleConfig)
      (SetupWorld.CollisionFree sampleSha256) installed openedTwice := by
  have hlink (w : SetupWorld) (hissued : w.issued = [⟨['t'], 0⟩]) {request : ℕ}
      (hasked : ∃ email, w.requests request = .asked email (some ['t'])) (now : ℤ) :
      w.CollisionFree sampleSha256 (.decide request now false) := by
    intro email token htoken link hmem _
    obtain ⟨_, hasked⟩ := hasked
    rw [hasked] at htoken
    cases htoken
    rw [hissued] at hmem
    rw [List.mem_singleton.mp hmem]
  have hissued : (run (SetupWorld.step sampleSha256 Signups.samplePlatform
      Signups.sampleConfig) installed (openedTwice.take 7)).issued = [⟨['t'], 0⟩] := by
    decide
  have hasked : (run (SetupWorld.step sampleSha256 Signups.samplePlatform
      Signups.sampleConfig) installed (openedTwice.take 7)).requests 1 =
        .asked "admin@example.com".toList (some ['t']) := by
    decide
  refine ⟨?_, trivial, ?_, trivial, trivial, trivial, trivial, ?_, trivial⟩
  · intro spent hspent
    cases hspent
  · exact hlink _ rfl ⟨_, rfl⟩ 1000
  · exact hlink _ hissued ⟨_, hasked⟩ 2000

theorem admin_needs_live_link_openedTwice :
    Throughout (SetupWorld.step sampleSha256 Signups.samplePlatform Signups.sampleConfig)
      (fun w => (∀ creation ∈ w.made, w.WasLive creation.token creation.decidedAt) ∧
        (Signups.sampleConfig.adminEmail ∈ w.emails → w.made ≠ [])) installed openedTwice :=
  admin_needs_live_link (neverSetUp_installed sampleSha256 Signups.sampleConfig)
    collisionFree_openedTwice

theorem spent_link_opens_nothing_openedTwice :
    Throughout (SetupWorld.step sampleSha256 Signups.samplePlatform Signups.sampleConfig)
      (fun w => ∀ token ∈ w.spent, ∀ now email,
        w.accepts sampleSha256 Signups.samplePlatform Signups.sampleConfig now (some token)
          email = false)
      installed openedTwice :=
  spent_link_opens_nothing (neverSetUp_installed sampleSha256 Signups.sampleConfig)
    collisionFree_openedTwice

end SilenceWatch
