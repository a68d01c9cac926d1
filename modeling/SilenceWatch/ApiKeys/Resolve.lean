import SilenceWatch.Access.ProjectAccess
import SilenceWatch.ApiKeys.Service
import SilenceWatch.Library.Hex
import SilenceWatch.Schedule.CronSyntax

/-!
# What an API key opens

A key is stored without its secret half and found again by its public half. The register keeps
what the database does not: every token that was handed out, in clear and for good, with the
project it is for and whether it was taken back. Along every run of creations, revocations,
purges and changes of who owns a project and who may sign in, a bearer token opens exactly what
the register says.
-/

namespace SilenceWatch

open Relational Transition

/-- `createHash('sha256').update(…).digest('hex')`. -/
structure Sha256Hex where
  digest : List Char → List Char
  length_digest : ∀ text, (digest text).length = 64
  isDigit_digest : ∀ text, ∀ c ∈ digest text, ('0' ≤ c ∧ c ≤ '9') ∨ ('a' ≤ c ∧ c ≤ 'f')

/-- A digit of `randomBytes(n).toString('hex')`. -/
def isHexChar (c : Char) : Bool := ('0' ≤ c && c ≤ '9') || ('a' ≤ c && c ≤ 'f')

/-- A digit of `randomBytes(n).toString('base64url')`. -/
def isBase64UrlChar (c : Char) : Bool := c.isAlphanum || c = '_' || c = '-'

/-- `timingSafeEqualHex`. -/
def timingSafeEqualHex (a b : List Char) : Bool :=
  if a.length ≠ b.length ∨ a.length = 0 then false
  else if ¬ (a.all isHexChar ∧ b.all isHexChar) then false
  else decide (Hex.decode a = Hex.decode b)

/-- `GeneratedApiKey.token`. -/
def apiKeyToken (lookupId secret : List Char) : List Char :=
  "sw_".toList ++ lookupId ++ '_' :: secret

/-- `ParsedApiKey`, with the secret in place of its digest. -/
structure ParsedApiKey where
  lookupId : List Char
  secret : List Char
  deriving DecidableEq

/-- `API_KEY_PATTERN`, all of whose parts have a fixed length. -/
def readApiKey (token : List Char) : Option ParsedApiKey :=
  let lookupId := (token.drop 3).take 16
  let secret := token.drop 20
  if token.take 3 = "sw_".toList ∧ lookupId.length = 16 ∧ lookupId.all isHexChar ∧
      (token.drop 19).take 1 = ['_'] ∧ secret.length = 43 ∧ secret.all isBase64UrlChar then
    some ⟨lookupId, secret⟩
  else none

/-- `extractBearer`. -/
def extractBearer (header : List Char) : Option (List Char) :=
  let header := strip isSpace header
  let token := (header.drop 6).dropWhile (· = ' ')
  if (header.take 6).map Char.toLower = "bearer".toList ∧ (header.drop 6).head? = some ' ' ∧
      token ≠ [] ∧ ¬ token.any isSpace then
    some token
  else none

/-- The keys, who belongs to which project, and who may not sign in. -/
structure KeyHolders where
  api : ApiKeys
  members : Table ProjectMember ProjectMember.Distinct
  /-- `user.disabled_at`. -/
  disabledAt : Uuid → Option ℤ

/-- What happens to keys, memberships and accounts. -/
inductive KeyHoldersEvent where
  | keys (e : ApiKeysEvent)
  | join (member : ProjectMember)
  | leave (projectId userId : Uuid)
  | disable (userId : Uuid) (instant : ℤ)
  | enable (userId : Uuid)
  /-- A project goes with its members and its keys. -/
  | deleteProject (projectId : Uuid)
  /-- An account goes with its memberships. -/
  | deleteUser (userId : Uuid)

/-- `ResolvedApiKey`. -/
structure ResolvedApiKey where
  apiKeyId : Uuid
  projectId : Uuid
  deriving DecidableEq

/-- What `AuthGuard` makes of the header of a request. -/
inductive BearerOutcome where
  /-- There is no bearer token: the cookie decides. -/
  | session
  | refused (message : String)
  | admitted (principal : Principal)
  deriving DecidableEq

namespace KeyHolders

/-- `findByLookupId`, the row. -/
def findByLookupId (s : KeyHolders) (lookupId : List Char) : Option ApiKey :=
  s.api.keys.rows.find? fun k => k.lookupId = lookupId

/-- The owners of a project. -/
def owners (s : KeyHolders) (projectId : Uuid) : List ProjectMember :=
  s.members.rows.filter fun m => m.projectId = projectId ∧ m.role = .owner

/-- `suspended`: the project has owners, all of them disabled. -/
def suspended (s : KeyHolders) (projectId : Uuid) : Bool :=
  decide (0 < (s.owners projectId).length) &&
    (s.owners projectId).all fun m => (s.disabledAt m.userId).isSome

variable (sha256Hex : Sha256Hex)

/-- `ApiKeyService.resolve`. -/
def resolve (s : KeyHolders) (token : List Char) : Option ResolvedApiKey :=
  match readApiKey token with
  | none => none
  | some parsed =>
    match s.findByLookupId parsed.lookupId with
    | none => none
    | some record =>
      if ¬ timingSafeEqualHex record.secretHash (sha256Hex.digest parsed.secret) then none
      else if record.revokedAt ≠ none then none
      else if s.suspended record.projectId then none
      else if record.expiresAt.any (· ≤ s.api.now) then none
      else some ⟨record.id, record.projectId⟩

/-- `AuthGuard.canActivate`, of a request that is not public. -/
def canActivate (s : KeyHolders) (authorization : Option (List Char)) : BearerOutcome :=
  match authorization.bind extractBearer with
  | none => .session
  | some token =>
    match if "sw_".toList <+: token then s.resolve sha256Hex token else none with
    | none => .refused "Invalid API key"
    | some resolved => .admitted (.apiKey resolved.apiKeyId resolved.projectId)

/-- The state after an event. -/
def step (s : KeyHolders) : KeyHoldersEvent → KeyHolders
  | .keys e => { s with api := s.api.step sha256Hex.digest e }
  | .join member =>
    match s.members.insert? member with
    | none => s
    | some members => { s with members := members }
  | .leave projectId userId =>
    { s with members := s.members.delete fun m => m.projectId = projectId ∧ m.userId = userId }
  | .disable userId instant =>
    { s with disabledAt := Function.update s.disabledAt userId (some instant) }
  | .enable userId => { s with disabledAt := Function.update s.disabledAt userId none }
  | .deleteProject projectId =>
    { s with
      members := s.members.delete fun m => m.projectId = projectId
      api := { s.api with keys := s.api.keys.delete fun k => k.projectId = projectId } }
  | .deleteUser userId =>
    { s with members := s.members.delete fun m => m.userId = userId }

/-- Nothing yet. -/
def start (now : ℤ) : KeyHolders where
  api := ⟨now, Table.empty, []⟩
  members := Table.empty
  disabledAt := fun _ => none

end KeyHolders

/-- A token that was handed out. -/
structure Grant where
  token : List Char
  apiKeyId : Uuid
  projectId : Uuid
  expiresAt : Option ℤ
  /-- It was taken back, or its project is gone. -/
  revoked : Bool
  deriving DecidableEq

/-- What the calls of `create` have drawn, and the tokens that were handed out. -/
structure Register where
  drawn : List ParsedApiKey
  grants : List Grant

namespace Register

/-- The tokens of a row that was inserted: the drawn ones with its two halves. -/
def granted (sha256Hex : Sha256Hex) (drawn : List ParsedApiKey) (key : NewApiKey) (id : Uuid) :
    List Grant :=
  (drawn.filter fun d =>
    d.lookupId = key.lookupId ∧ sha256Hex.digest d.secret = key.secretHash).map fun d =>
      ⟨apiKeyToken d.lookupId d.secret, id, key.projectId, key.expiresAt, false⟩

/-- Grants of a kind are taken back. -/
def takeBack (grants : List Grant) (p : Grant → Prop) [DecidablePred p] : List Grant :=
  grants.map fun g => if p g then { g with revoked := true } else g

/-- The register after an event that finds the keys in a state. -/
def step (sha256Hex : Sha256Hex) (s : KeyHolders) (register : Register) :
    KeyHoldersEvent → Register
  | .keys (.generate request lookupId secret) =>
    if .admitted request ∈ s.api.calls then
      { register with drawn := ⟨lookupId, secret⟩ :: register.drawn }
    else register
  | .keys (.insert key id) =>
    if .inserting key ∈ s.api.calls ∧ (s.api.keys.insert? (key.toApiKey id s.api.now)).isSome then
      { register with grants := granted sha256Hex register.drawn key id ++ register.grants }
    else register
  | .keys (.revoke projectId apiKeyId _) =>
    { register with
      grants := takeBack register.grants fun g =>
        g.apiKeyId = apiKeyId ∧ g.projectId = projectId }
  | .deleteProject projectId =>
    { register with grants := takeBack register.grants fun g => g.projectId = projectId }
  | _ => register

end Register

/-- The keys, and the register beside them. -/
structure KeyWorld where
  keys : KeyHolders
  register : Register

namespace KeyWorld

/-- The two go through the same events. -/
def step (sha256Hex : Sha256Hex) (w : KeyWorld) (e : KeyHoldersEvent) : KeyWorld where
  keys := w.keys.step sha256Hex e
  register := w.register.step sha256Hex w.keys e

def start (now : ℤ) : KeyWorld := ⟨.start now, ⟨[], []⟩⟩

/-- A grant that is good: not taken back, not expired, and its project is left with someone who
may sign in, or never had an owner. -/
structure Opens (w : KeyWorld) (g : Grant) : Prop where
  mem : g ∈ w.register.grants
  kept : g.revoked = false
  alive : ∀ expiresAt ∈ g.expiresAt, w.keys.api.now < expiresAt
  served : ¬ ((∃ m ∈ w.keys.members.rows, m.projectId = g.projectId ∧ m.role = .owner) ∧
    ∀ m ∈ w.keys.members.rows, m.projectId = g.projectId → m.role = .owner →
      w.keys.disabledAt m.userId ≠ none)

/-- What is drawn has the form of its alphabet and length, and nobody purges with a clock that
is as far ahead as dead keys are kept. -/
def Sensible (w : KeyWorld) : KeyHoldersEvent → Prop
  | .keys (.generate _ lookupId secret) =>
    lookupId.length = 16 ∧ lookupId.all isHexChar ∧ secret.length = 43 ∧
      secret.all isBase64UrlChar
  | .keys (.purgeDead instant) => instant - deadKeyRetentionMs ≤ w.keys.api.now
  | _ => True

/-- The digest tells a token from the others that were drawn with its public half. -/
def TellsApart (sha256Hex : Sha256Hex) (w : KeyWorld) (token : List Char) : Prop :=
  ∀ d ∈ w.register.drawn, ∀ parsed, readApiKey token = some parsed →
    d.lookupId = parsed.lookupId →
      sha256Hex.digest d.secret = sha256Hex.digest parsed.secret → d.secret = parsed.secret

instance (w : KeyWorld) : ∀ e, Decidable (w.Sensible e) := by
  intro e
  unfold Sensible
  split <;> infer_instance

end KeyWorld

section Tokens

variable {d : ParsedApiKey} {token : List Char}

/-- The form of what is drawn. -/
structure ParsedApiKey.WellFormed (d : ParsedApiKey) : Prop where
  lookupId_length : d.lookupId.length = 16
  lookupId_hex : d.lookupId.all isHexChar
  secret_length : d.secret.length = 43
  secret_chars : d.secret.all isBase64UrlChar

/-- A token of drawn halves is read as them. -/
theorem readApiKey_apiKeyToken (h : d.WellFormed) :
    readApiKey (apiKeyToken d.lookupId d.secret) = some d := by
  obtain ⟨hlookup, hhex, hsecret, hchars⟩ := h
  have hdrop : (apiKeyToken d.lookupId d.secret).drop 3 = d.lookupId ++ '_' :: d.secret := rfl
  have hmiddle : (apiKeyToken d.lookupId d.secret).drop 19 = '_' :: d.secret := by
    rw [show 19 = 3 + 16 from rfl, ← List.drop_drop, hdrop, List.drop_left' hlookup]
  have hlast : (apiKeyToken d.lookupId d.secret).drop 20 = d.secret := by
    rw [show 20 = 19 + 1 from rfl, ← List.drop_drop, hmiddle, List.drop_succ_cons, List.drop_zero]
  unfold readApiKey
  rw [hdrop, hmiddle, hlast, List.take_left' hlookup]
  exact if_pos ⟨rfl, hlookup, hhex, rfl, hsecret, hchars⟩

/-- What is read is the halves of the token. -/
theorem apiKeyToken_of_readApiKey (h : readApiKey token = some d) :
    token = apiKeyToken d.lookupId d.secret := by
  unfold readApiKey at h
  dsimp only at h
  split at h
  · next hform =>
    obtain ⟨hstart, hlookup, _, hunderscore, _⟩ := hform
    obtain rfl := Option.some.inj h
    have hlength : 16 ≤ (token.drop 3).length := by
      rw [List.length_take] at hlookup
      omega
    have hrest : token.drop 19 = '_' :: token.drop 20 := by
      have hsplit := List.take_append_drop 1 (token.drop 19)
      rw [hunderscore, List.drop_drop] at hsplit
      exact hsplit.symm
    unfold apiKeyToken
    dsimp only
    rw [← hrest, ← hstart, List.append_assoc, show 19 = 3 + 16 from rfl, ← List.drop_drop,
      List.take_append_drop, List.take_append_drop]
  · cases h

/-- A token of the pattern begins as the guard asks. -/
theorem prefix_of_readApiKey (h : readApiKey token = some d) : "sw_".toList <+: token := by
  rw [apiKeyToken_of_readApiKey h, apiKeyToken, List.append_assoc]
  exact List.prefix_append _ _

theorem isDigit_of_isHexChar {c : Char} (hc : isHexChar c = true) :
    Numeral.IsDigit 16 c ∧ c.toLower = c := by
  have hall : ∀ n < 103, isHexChar (Char.ofNat n) = true →
      Numeral.IsDigit 16 (Char.ofNat n) ∧ (Char.ofNat n).toLower = Char.ofNat n := by decide
  have hbound : c.toNat < 103 := by
    unfold isHexChar at hc
    simp only [Bool.or_eq_true, Bool.and_eq_true, decide_eq_true_eq] at hc
    rcases hc with ⟨_, hle⟩ | ⟨_, hle⟩
    · exact Nat.lt_of_le_of_lt (UInt32.le_iff_toNat_le.mp hle) (by decide)
    · exact Nat.lt_of_le_of_lt (UInt32.le_iff_toNat_le.mp hle) (by decide)
  have hchar := hall c.toNat hbound
  rw [Char.ofNat_toNat] at hchar
  exact hchar hc

/-- Digests are equal where they compare as equal. -/
theorem timingSafeEqualHex_iff {a b : List Char} (ha : a.length = 64) (hb : b.length = 64)
    (hachars : a.all isHexChar) (hbchars : b.all isHexChar) :
    timingSafeEqualHex a b = true ↔ a = b := by
  have hsmall : ∀ text : List Char, text.length = 64 → text.all isHexChar →
      Hex.encode (Hex.decode text) = text := by
    intro text hlength hchars
    have hspec := fun c hc => isDigit_of_isHexChar (List.all_eq_true.mp hchars c hc)
    rw [Hex.encode_decode (fun c hc => (hspec c hc).1) (by omega),
      List.map_congr_left fun c hc => (hspec c hc).2, List.map_id']
  unfold timingSafeEqualHex
  rw [if_neg (by omega), if_neg (not_not_intro ⟨hachars, hbchars⟩), decide_eq_true_eq]
  constructor
  · intro h
    rw [← hsmall a ha hachars, h, hsmall b hb hbchars]
  · rintro rfl
    rfl

theorem Sha256Hex.all_digest (sha256Hex : Sha256Hex) (text : List Char) :
    (sha256Hex.digest text).all isHexChar := by
  apply List.all_eq_true.mpr
  intro c hc
  unfold isHexChar
  rcases sha256Hex.isDigit_digest text c hc with ⟨hlow, hhigh⟩ | ⟨hlow, hhigh⟩
  · simp [hlow, hhigh]
  · simp [hlow, hhigh]

end Tokens

section Agreement

variable {sha256Hex : Sha256Hex} {s : ApiKeys} {register : Register} {g : Grant}
  {d : ParsedApiKey} {k : ApiKey}

variable (sha256Hex) in
/-- A grant is of a row, by what was drawn for it. -/
structure Grant.Records (g : Grant) (d : ParsedApiKey) (k : ApiKey) : Prop where
  token : g.token = apiKeyToken d.lookupId d.secret
  lookupId : d.lookupId = k.lookupId
  secretHash : sha256Hex.digest d.secret = k.secretHash
  apiKeyId : g.apiKeyId = k.id
  projectId : g.projectId = k.projectId
  expiresAt : g.expiresAt = k.expiresAt

variable (sha256Hex) in
/-- The rows and the grants say the same of every token that is still good for something. -/
structure Agrees (s : ApiKeys) (register : Register) : Prop where
  drawn : ∀ d ∈ register.drawn, d.WellFormed
  pending : ∀ key, .inserting key ∈ s.calls → ∃ d ∈ register.drawn,
    d.lookupId = key.lookupId ∧ sha256Hex.digest d.secret = key.secretHash
  row : ∀ k ∈ s.keys.rows, ∃ d ∈ register.drawn, ∃ g ∈ register.grants,
    g.Records sha256Hex d k ∧ (k.revokedAt = none → g.revoked = false)
  grant : ∀ g ∈ register.grants, g.revoked = false → (∀ e ∈ g.expiresAt, s.now < e) →
    ∃ k ∈ s.keys.rows, ∃ d ∈ register.drawn, g.Records sha256Hex d k ∧ k.revokedAt = none

theorem agrees_start (now : ℤ) : Agrees sha256Hex ⟨now, Table.empty, []⟩ ⟨[], []⟩ :=
  ⟨by simp, by simp, by simp, by simp⟩

/-- Calls may come and go that have no row to insert. -/
theorem Agrees.calls (h : Agrees sha256Hex s register) {calls : List CreateCall}
    (hcalls : ∀ key, .inserting key ∈ calls → .inserting key ∈ s.calls) :
    Agrees sha256Hex { s with calls := calls } register :=
  ⟨h.drawn, fun key hkey => h.pending key (hcalls key hkey), h.row, h.grant⟩

theorem Agrees.take (h : Agrees sha256Hex s register) (call : CreateCall) :
    Agrees sha256Hex (s.take call) register :=
  h.calls fun _ hkey => List.mem_of_mem_erase hkey

/-- A call that has just begun, or was just let pass, has nothing to insert. -/
theorem Agrees.snoc (h : Agrees sha256Hex s register) {call : CreateCall}
    (hcall : ∀ key, call ≠ .inserting key) :
    Agrees sha256Hex { s with calls := s.calls ++ [call] } register := by
  refine h.calls fun key hkey => ?_
  rcases List.mem_append.mp hkey with hkey | hkey
  · exact hkey
  · exact absurd (List.mem_singleton.mp hkey).symm (hcall key)

theorem Agrees.elapse (h : Agrees sha256Hex s register) (ms : ℕ) :
    Agrees sha256Hex { s with now := s.now + ms } register := by
  refine ⟨h.drawn, h.pending, h.row, fun g hg hkept halive => h.grant g hg hkept fun e he => ?_⟩
  have hlater := halive e he
  dsimp only at hlater
  omega

/-- What is drawn is known before the row is sent. -/
theorem Agrees.generate (h : Agrees sha256Hex s register) {request : CreateApiKey}
    (hd : d.WellFormed) :
    Agrees sha256Hex
      { s with calls := s.calls ++
          [.inserting (request.toNewApiKey sha256Hex.digest s.now d.lookupId d.secret)] }
      { register with drawn := d :: register.drawn } := by
  refine ⟨fun d' hd' => ?_, fun key hkey => ?_, fun k hk => ?_, fun g hg hkept halive => ?_⟩
  · rcases List.mem_cons.mp hd' with rfl | hd'
    · exact hd
    · exact h.drawn d' hd'
  · rcases List.mem_append.mp hkey with hkey | hkey
    · obtain ⟨d', hd', hmatch⟩ := h.pending key hkey
      exact ⟨d', List.mem_cons_of_mem _ hd', hmatch⟩
    · obtain rfl := CreateCall.inserting.inj (List.mem_singleton.mp hkey)
      exact ⟨d, List.mem_cons_self, rfl, rfl⟩
  · obtain ⟨d', hd', hrecord⟩ := h.row k hk
    exact ⟨d', List.mem_cons_of_mem _ hd', hrecord⟩
  · obtain ⟨k, hk, d', hd', hrecord⟩ := h.grant g hg hkept halive
    exact ⟨k, hk, d', List.mem_cons_of_mem _ hd', hrecord⟩

/-- A row that is inserted is granted with every token that was drawn for it. -/
theorem Agrees.insert (h : Agrees sha256Hex s register) {key : NewApiKey} {id : Uuid}
    (hkey : .inserting key ∈ s.calls) {keys : Table ApiKey ApiKey.Distinct}
    (hinsert : s.keys.insert? (key.toApiKey id s.now) = some keys) :
    Agrees sha256Hex { s with keys := keys }
      { register with
        grants := Register.granted sha256Hex register.drawn key id ++ register.grants } := by
  have hrows := Table.insert?_eq_some hinsert
  refine ⟨h.drawn, h.pending, fun k hk => ?_, fun g hg hkept halive => ?_⟩
  · dsimp only at hk
    rw [hrows] at hk
    rcases List.mem_append.mp hk with hk | hk
    · obtain ⟨d, hd, g, hg, hrecord⟩ := h.row k hk
      exact ⟨d, hd, g, List.mem_append_right _ hg, hrecord⟩
    · obtain rfl := List.mem_singleton.mp hk
      obtain ⟨d, hd, hlookup, hhash⟩ := h.pending key hkey
      refine ⟨d, hd, _, List.mem_append_left _ (List.mem_map_of_mem
        (List.mem_filter.mpr ⟨hd, decide_eq_true ⟨hlookup, hhash⟩⟩)), ?_, fun _ => rfl⟩
      exact ⟨rfl, hlookup, hhash, rfl, rfl, rfl⟩
  · have hmem : ∀ k, k ∈ s.keys.rows ∨ k = key.toApiKey id s.now → k ∈ keys.rows := by
      intro k hk
      rw [hrows, List.mem_append, List.mem_singleton]
      exact hk
    rcases List.mem_append.mp hg with hg | hg
    · obtain ⟨d, hd, rfl⟩ := List.mem_map.mp hg
      obtain ⟨hd, hmatch⟩ := List.mem_filter.mp hd
      obtain ⟨hlookup, hhash⟩ := of_decide_eq_true hmatch
      exact ⟨_, hmem _ (Or.inr rfl), d, hd, ⟨rfl, hlookup, hhash, rfl, rfl, rfl⟩, rfl⟩
    · obtain ⟨k, hk, hrecord⟩ := h.grant g hg hkept halive
      exact ⟨k, hmem k (Or.inl hk), hrecord⟩

theorem mem_takeBack {grants : List Grant} {p : Grant → Prop} [DecidablePred p] :
    g ∈ Register.takeBack grants p ↔
      ∃ g' ∈ grants, (p g' ∧ g = { g' with revoked := true }) ∨ (¬ p g' ∧ g = g') :=
  mem_map_updateRow

/-- A key that is revoked is taken back. -/
theorem Agrees.revoke (h : Agrees sha256Hex s register) (projectId apiKeyId : Uuid)
    (instant : ℤ) :
    Agrees sha256Hex (s.revoke projectId apiKeyId instant)
      { register with
        grants := Register.takeBack register.grants fun g =>
          g.apiKeyId = apiKeyId ∧ g.projectId = projectId } := by
  refine ⟨h.drawn, h.pending, fun k hk => ?_, fun g hg hkept halive => ?_⟩
  · obtain ⟨k', hk', hcases⟩ := mem_map_updateRow.mp hk
    obtain ⟨d, hd, g, hg, hrecord, hgood⟩ := h.row k' hk'
    by_cases hsame : g.apiKeyId = apiKeyId ∧ g.projectId = projectId
    · refine ⟨d, hd, _, mem_takeBack.mpr ⟨g, hg, Or.inl ⟨hsame, rfl⟩⟩, ?_, fun hlive => ?_⟩
      · rcases hcases with ⟨_, rfl⟩ | ⟨_, rfl⟩
        · exact ⟨hrecord.1, hrecord.2, hrecord.3, hrecord.4, hrecord.5, hrecord.6⟩
        · exact ⟨hrecord.1, hrecord.2, hrecord.3, hrecord.4, hrecord.5, hrecord.6⟩
      · rcases hcases with ⟨_, rfl⟩ | ⟨hspared, rfl⟩
        · cases hlive
        · exact absurd ⟨hrecord.apiKeyId.symm.trans hsame.1,
            hrecord.projectId.symm.trans hsame.2, hlive⟩ hspared
    · refine ⟨d, hd, g, mem_takeBack.mpr ⟨g, hg, Or.inr ⟨hsame, rfl⟩⟩, ?_, fun hlive => ?_⟩
      · rcases hcases with ⟨_, rfl⟩ | ⟨_, rfl⟩
        · exact ⟨hrecord.1, hrecord.2, hrecord.3, hrecord.4, hrecord.5, hrecord.6⟩
        · exact hrecord
      · rcases hcases with ⟨_, rfl⟩ | ⟨_, rfl⟩
        · cases hlive
        · exact hgood hlive
  · obtain ⟨g', hg', hcases⟩ := mem_takeBack.mp hg
    rcases hcases with ⟨_, rfl⟩ | ⟨hother, rfl⟩
    · cases hkept
    · obtain ⟨k, hk, d, hd, hrecord, hlive⟩ := h.grant g hg' hkept halive
      refine ⟨k, mem_map_updateRow.mpr ⟨k, hk, Or.inr ⟨fun hrevoked => ?_, rfl⟩⟩, d, hd, hrecord,
        hlive⟩
      exact hother ⟨hrecord.apiKeyId.trans hrevoked.1, hrecord.projectId.trans hrevoked.2.1⟩

/-- What is purged was good for nothing. -/
theorem Agrees.purge (h : Agrees sha256Hex s register) {cutoff : ℤ} (hcutoff : cutoff ≤ s.now) :
    Agrees sha256Hex (s.deleteDeadBefore cutoff) register := by
  refine ⟨h.drawn, h.pending, fun k hk => h.row k (Table.mem_delete.mp hk).1,
    fun g hg hkept halive => ?_⟩
  obtain ⟨k, hk, d, hd, hrecord, hlive⟩ := h.grant g hg hkept halive
  refine ⟨k, Table.mem_delete.mpr ⟨hk, ?_⟩, d, hd, hrecord, hlive⟩
  rintro (⟨revokedAt, hrevoked, _⟩ | ⟨expiresAt, hexpires, hbefore⟩)
  · rw [hlive] at hrevoked
    cases hrevoked
  · rw [← hrecord.expiresAt] at hexpires
    have hlater := halive expiresAt hexpires
    change s.now < expiresAt at hlater
    omega

/-- A project that is deleted takes back what opened it. -/
theorem Agrees.deleteProject (h : Agrees sha256Hex s register) (projectId : Uuid) :
    Agrees sha256Hex { s with keys := s.keys.delete fun k => k.projectId = projectId }
      { register with
        grants := Register.takeBack register.grants fun g => g.projectId = projectId } := by
  refine ⟨h.drawn, h.pending, fun k hk => ?_, fun g hg hkept halive => ?_⟩
  · obtain ⟨hk, hother⟩ := Table.mem_delete.mp hk
    obtain ⟨d, hd, g, hg, hrecord, hgood⟩ := h.row k hk
    have hspared : g.projectId ≠ projectId := fun heq => hother (hrecord.projectId.symm.trans heq)
    exact ⟨d, hd, g, mem_takeBack.mpr ⟨g, hg, Or.inr ⟨hspared, rfl⟩⟩, hrecord, hgood⟩
  · obtain ⟨g', hg', hcases⟩ := mem_takeBack.mp hg
    rcases hcases with ⟨_, rfl⟩ | ⟨hother, rfl⟩
    · cases hkept
    · obtain ⟨k, hk, d, hd, hrecord, hlive⟩ := h.grant g hg' hkept halive
      refine ⟨k, Table.mem_delete.mpr ⟨hk, fun heq => ?_⟩, d, hd, hrecord, hlive⟩
      exact hother (hrecord.projectId.trans heq)

/-- **One step.** -/
theorem Agrees.step {w : KeyWorld} {e : KeyHoldersEvent}
    (h : Agrees sha256Hex w.keys.api w.register) (he : w.Sensible e) :
    Agrees sha256Hex (w.step sha256Hex e).keys.api (w.step sha256Hex e).register := by
  cases e with
  | join member =>
    unfold KeyWorld.step KeyHolders.step
    dsimp only
    split
    · exact h
    · exact h
  | leave projectId userId => exact h
  | disable userId instant => exact h
  | enable userId => exact h
  | deleteUser userId => exact h
  | deleteProject projectId => exact h.deleteProject projectId
  | keys e =>
    cases e with
    | elapse ms => exact h.elapse ms
    | create request => exact h.snoc fun key hkey => by cases hkey
    | count request instant =>
      unfold KeyWorld.step KeyHolders.step ApiKeys.step
      dsimp only
      split
      · unfold ApiKeys.checkCeiling
        split
        · exact h.take _
        · exact (h.take _).snoc fun key hkey => by cases hkey
      · exact h
    | generate request lookupId secret =>
      unfold KeyWorld.step KeyHolders.step ApiKeys.step Register.step
      dsimp only
      split
      · obtain ⟨hlookup, hhex, hsecret, hchars⟩ := he
        exact (h.take _).generate (d := ⟨lookupId, secret⟩) ⟨hlookup, hhex, hsecret, hchars⟩
      · exact h
    | insert key id =>
      unfold KeyWorld.step KeyHolders.step ApiKeys.step Register.step
      dsimp only
      by_cases hkey : .inserting key ∈ w.keys.api.calls
      · rw [if_pos hkey]
        unfold ApiKeys.insertKey
        split
        · next hnone =>
          rw [if_neg]
          · exact h.take _
          · rintro ⟨_, hsome⟩
            change (w.keys.api.keys.insert? _).isSome at hsome
            rw [show w.keys.api.keys.insert? (key.toApiKey id w.keys.api.now) = none from hnone]
              at hsome
            cases hsome
        · next keys hinsert =>
          rw [if_pos ⟨hkey, Option.isSome_iff_exists.mpr ⟨keys, hinsert⟩⟩]
          have hdone := h.insert hkey hinsert
          exact hdone.calls fun key' hkey' => List.mem_of_mem_erase hkey'
      · rw [if_neg hkey, if_neg fun hboth => hkey hboth.1]
        exact h
    | fail call => exact h.take call
    | revoke projectId apiKeyId instant => exact h.revoke projectId apiKeyId instant
    | purgeDead instant => exact h.purge he

/-- **Runs.** The rows and the register agree along every sensible run. -/
theorem agrees_run {now : ℤ} {es : List KeyHoldersEvent}
    (hrun : Along (KeyWorld.step sha256Hex) KeyWorld.Sensible (KeyWorld.start now) es) :
    Agrees sha256Hex (run (KeyWorld.step sha256Hex) (KeyWorld.start now) es).keys.api
      (run (KeyWorld.step sha256Hex) (KeyWorld.start now) es).register :=
  run_of_step (I := fun w => Agrees sha256Hex w.keys.api w.register)
    (fun _ _ h he => h.step he) (agrees_start now) hrun

theorem KeyHolders.suspended_iff {s : KeyHolders} {projectId : Uuid} :
    s.suspended projectId = true ↔
      (∃ m ∈ s.members.rows, m.projectId = projectId ∧ m.role = .owner) ∧
        ∀ m ∈ s.members.rows, m.projectId = projectId → m.role = .owner →
          s.disabledAt m.userId ≠ none := by
  have howner : ∀ m, m ∈ s.owners projectId ↔
      m ∈ s.members.rows ∧ m.projectId = projectId ∧ m.role = .owner := by
    intro m
    unfold KeyHolders.owners
    rw [List.mem_filter, decide_eq_true_eq]
  unfold KeyHolders.suspended
  rw [Bool.and_eq_true, decide_eq_true_eq, List.length_pos_iff_exists_mem, List.all_eq_true]
  simp only [howner, Option.isSome_iff_ne_none]
  constructor
  · rintro ⟨⟨m, hm⟩, hall⟩
    exact ⟨⟨m, hm⟩, fun m hmem hproject hrole => hall m ⟨hmem, hproject, hrole⟩⟩
  · rintro ⟨⟨m, hm⟩, hall⟩
    exact ⟨⟨m, hm⟩, fun m hm => hall m hm.1 hm.2.1 hm.2.2⟩

/-- A row that records a grant is the one found by the public half of its token. -/
theorem KeyHolders.findByLookupId_eq {s : KeyHolders} (hk : k ∈ s.api.keys.rows) :
    s.findByLookupId k.lookupId = some k := by
  unfold KeyHolders.findByLookupId
  cases hfound : s.api.keys.rows.find? fun k' => k'.lookupId = k.lookupId with
  | none =>
    have hnone := List.find?_eq_none.mp hfound k hk
    simp at hnone
  | some k' =>
    have hlookup : k'.lookupId = k.lookupId := by simpa using List.find?_some hfound
    have hmem := List.mem_of_find?_eq_some hfound
    rw [s.api.keys.eq_of_key_eq ApiKey.lookupId (fun _ _ h => h.2) hmem hk hlookup]

/-- **Tokens.** A token resolves to the grant that opens with it. -/
theorem resolve_iff {w : KeyWorld} (h : Agrees sha256Hex w.keys.api w.register)
    {token : List Char} {resolved : ResolvedApiKey}
    (hcollision : w.TellsApart sha256Hex token) :
    w.keys.resolve sha256Hex token = some resolved ↔
      ∃ g, w.Opens g ∧ g.token = token ∧ g.apiKeyId = resolved.apiKeyId ∧
        g.projectId = resolved.projectId := by
  have hequal : ∀ {k : ApiKey}, k ∈ w.keys.api.keys.rows → ∀ secret,
      timingSafeEqualHex k.secretHash (sha256Hex.digest secret) = true ↔
        k.secretHash = sha256Hex.digest secret := by
    intro k hk secret
    obtain ⟨d, _, g, _, hrecord, _⟩ := h.row k hk
    rw [← hrecord.secretHash]
    exact timingSafeEqualHex_iff (sha256Hex.length_digest _) (sha256Hex.length_digest _)
      (sha256Hex.all_digest _) (sha256Hex.all_digest _)
  constructor
  · intro hresolve
    unfold KeyHolders.resolve at hresolve
    split at hresolve
    · cases hresolve
    · next parsed hparsed =>
      split at hresolve
      · cases hresolve
      · next k hfound =>
        have hk := List.mem_of_find?_eq_some hfound
        have hlookup : k.lookupId = parsed.lookupId := by simpa using List.find?_some hfound
        split at hresolve
        · cases hresolve
        · next hsame =>
          split at hresolve
          · cases hresolve
          · next hrevoked =>
            split at hresolve
            · cases hresolve
            · next hserved =>
              split at hresolve
              · cases hresolve
              · next hexpired =>
                obtain rfl := Option.some.inj hresolve
                obtain ⟨d, hd, g, hg, hrecord, hgood⟩ := h.row k hk
                have hhash := (hequal hk parsed.secret).mp (not_not.mp hsame)
                have hsecret := hcollision d hd parsed hparsed (hrecord.lookupId.trans hlookup)
                  (hrecord.secretHash.trans hhash)
                refine ⟨g, ⟨hg, hgood (not_not.mp hrevoked), fun e he => ?_, ?_⟩, ?_,
                  hrecord.apiKeyId, hrecord.projectId⟩
                · rw [hrecord.expiresAt] at he
                  rw [he] at hexpired
                  simpa using hexpired
                · rw [hrecord.projectId, ← KeyHolders.suspended_iff]
                  exact hserved
                · rw [hrecord.token, hrecord.lookupId, hlookup, hsecret]
                  exact (apiKeyToken_of_readApiKey hparsed).symm
  · rintro ⟨g, hopens, htoken, hid, hproject⟩
    obtain ⟨k, hk, d, hd, hrecord, hlive⟩ := h.grant g hopens.mem hopens.kept hopens.alive
    have hread : readApiKey token = some d := by
      rw [← htoken, hrecord.token]
      exact readApiKey_apiKeyToken (h.drawn d hd)
    have hserved : ¬ w.keys.suspended k.projectId = true := by
      rw [KeyHolders.suspended_iff, ← hrecord.projectId]
      exact hopens.served
    have halive : ¬ k.expiresAt.any (· ≤ w.keys.api.now) = true := by
      rw [← hrecord.expiresAt]
      cases hexpires : g.expiresAt with
      | none => simp
      | some e => simpa using hopens.alive e hexpires
    unfold KeyHolders.resolve
    rw [hread]
    dsimp only
    rw [hrecord.lookupId, KeyHolders.findByLookupId_eq hk]
    dsimp only
    rw [if_neg (not_not_intro ((hequal hk d.secret).mpr hrecord.secretHash.symm)),
      if_neg (not_not_intro hlive), if_neg hserved, if_neg halive, ← hrecord.apiKeyId,
      ← hrecord.projectId, hid, hproject]

/-- **Requests.** A request with a bearer token is let in by the grant that opens with it. -/
theorem canActivate_iff {w : KeyWorld} (h : Agrees sha256Hex w.keys.api w.register)
    {authorization : Option (List Char)} {apiKeyId projectId : Uuid}
    (hcollision : ∀ token, authorization.bind extractBearer = some token →
      w.TellsApart sha256Hex token) :
    w.keys.canActivate sha256Hex authorization = .admitted (.apiKey apiKeyId projectId) ↔
      ∃ g, w.Opens g ∧ authorization.bind extractBearer = some g.token ∧
        g.apiKeyId = apiKeyId ∧ g.projectId = projectId := by
  unfold KeyHolders.canActivate
  cases hbearer : authorization.bind extractBearer with
  | none => simp
  | some token =>
    have hresolve : ∀ resolved : ResolvedApiKey, w.keys.resolve sha256Hex token = some resolved ↔
        ∃ g, w.Opens g ∧ g.token = token ∧ g.apiKeyId = resolved.apiKeyId ∧
          g.projectId = resolved.projectId := fun _ => resolve_iff h (hcollision token hbearer)
    -- The guard's own look at the start of a token refuses none that has the pattern.
    have hguard : (if "sw_".toList <+: token then w.keys.resolve sha256Hex token else none) =
        w.keys.resolve sha256Hex token := by
      split
      · rfl
      · next hstart =>
        unfold KeyHolders.resolve
        cases hread : readApiKey token with
        | none => rfl
        | some parsed => exact absurd (prefix_of_readApiKey hread) hstart
    dsimp only
    rw [hguard]
    constructor
    · intro hadmitted
      split at hadmitted
      · cases hadmitted
      · next resolved hresolved =>
        obtain ⟨g, hopens, htoken, hid, hproject⟩ := (hresolve resolved).mp hresolved
        have hsame := Principal.apiKey.inj (BearerOutcome.admitted.inj hadmitted)
        exact ⟨g, hopens, congrArg some htoken.symm, hid.trans hsame.1, hproject.trans hsame.2⟩
    · rintro ⟨g, hopens, htoken, hid, hproject⟩
      have hresolved := (hresolve ⟨apiKeyId, projectId⟩).mpr
        ⟨g, hopens, (Option.some.inj htoken).symm, hid, hproject⟩
      rw [hresolved]

/-- No grant of a token is good, and nothing is under way that would hand it out. -/
structure Closed (sha256Hex : Sha256Hex) (w : KeyWorld) (d : ParsedApiKey) : Prop where
  grants : ∀ g ∈ w.register.grants, g.token = apiKeyToken d.lookupId d.secret →
    g.revoked = true ∨ ∃ expiresAt ∈ g.expiresAt, expiresAt ≤ w.keys.api.now
  pending : ∀ key, .inserting key ∈ w.keys.api.calls → key.lookupId ≠ d.lookupId
  apart : ∀ d' ∈ w.register.drawn, d'.lookupId = d.lookupId →
    sha256Hex.digest d'.secret = sha256Hex.digest d.secret → d'.secret = d.secret

/-- A public half is not drawn. -/
def DrawsOther (d : ParsedApiKey) : KeyHoldersEvent → Prop
  | .keys (.generate _ lookupId _) => lookupId ≠ d.lookupId
  | _ => True

instance (d : ParsedApiKey) : DecidablePred (DrawsOther d) := by
  intro e
  unfold DrawsOther
  split <;> infer_instance

section Closing

variable {w : KeyWorld}

/-- What closes a token is kept by every step that takes grants back and lets no call come. -/
theorem Closed.mono (h : Closed sha256Hex w d) {w' : KeyWorld}
    (hnow : w.keys.api.now ≤ w'.keys.api.now)
    (hgrants : ∀ g ∈ w'.register.grants, ∃ g' ∈ w.register.grants, g.token = g'.token ∧
      g.expiresAt = g'.expiresAt ∧ (g'.revoked = true → g.revoked = true))
    (hcalls : ∀ key, .inserting key ∈ w'.keys.api.calls → .inserting key ∈ w.keys.api.calls)
    (hdrawn : w'.register.drawn = w.register.drawn) : Closed sha256Hex w' d := by
  refine ⟨fun g hg htoken => ?_, fun key hkey => h.pending key (hcalls key hkey),
    hdrawn ▸ h.apart⟩
  obtain ⟨g', hg', hsame, hexpires, hrevoked⟩ := hgrants g hg
  rcases h.grants g' hg' (hsame.symm.trans htoken) with hback | ⟨e, he, hpast⟩
  · exact Or.inl (hrevoked hback)
  · exact Or.inr ⟨e, hexpires ▸ he, by omega⟩

theorem takeBack_keeps (grants : List Grant) (p : Grant → Prop) [DecidablePred p] :
    ∀ g ∈ Register.takeBack grants p, ∃ g' ∈ grants, g.token = g'.token ∧
      g.expiresAt = g'.expiresAt ∧ (g'.revoked = true → g.revoked = true) := by
  intro g hg
  obtain ⟨g', hg', hcases⟩ := mem_takeBack.mp hg
  rcases hcases with ⟨_, rfl⟩ | ⟨_, rfl⟩
  · exact ⟨g', hg', rfl, rfl, fun _ => rfl⟩
  · exact ⟨g, hg', rfl, rfl, id⟩

theorem self_keeps (grants : List Grant) :
    ∀ g ∈ grants, ∃ g' ∈ grants, g.token = g'.token ∧ g.expiresAt = g'.expiresAt ∧
      (g'.revoked = true → g.revoked = true) :=
  fun g hg => ⟨g, hg, rfl, rfl, id⟩

/-- Tokens of different public halves differ. -/
theorem apiKeyToken_ne {d' : ParsedApiKey} (hd : d.WellFormed) (hd' : d'.WellFormed)
    (hne : d'.lookupId ≠ d.lookupId) :
    apiKeyToken d'.lookupId d'.secret ≠ apiKeyToken d.lookupId d.secret := by
  intro heq
  have hread := readApiKey_apiKeyToken hd'
  rw [heq, readApiKey_apiKeyToken hd] at hread
  exact hne (congrArg ParsedApiKey.lookupId (Option.some.inj hread)).symm

/-- **One step.** Only a new draw of its public half opens a token again. -/
theorem Closed.step {e : KeyHoldersEvent} (h : Closed sha256Hex w d)
    (hagrees : Agrees sha256Hex w.keys.api w.register) (hd : d.WellFormed)
    (hother : DrawsOther d e) : Closed sha256Hex (w.step sha256Hex e) d := by
  cases e with
  | join member =>
    unfold KeyWorld.step KeyHolders.step
    dsimp only
    split
    · exact h
    · exact h.mono (Int.le_refl _) (self_keeps _) (fun _ => id) rfl
  | leave projectId userId => exact h.mono (Int.le_refl _) (self_keeps _) (fun _ => id) rfl
  | disable userId instant => exact h.mono (Int.le_refl _) (self_keeps _) (fun _ => id) rfl
  | enable userId => exact h.mono (Int.le_refl _) (self_keeps _) (fun _ => id) rfl
  | deleteUser userId => exact h.mono (Int.le_refl _) (self_keeps _) (fun _ => id) rfl
  | deleteProject projectId =>
    exact h.mono (Int.le_refl _) (takeBack_keeps _ _) (fun _ => id) rfl
  | keys e =>
    cases e with
    | elapse ms =>
      exact h.mono (Int.le_add_of_nonneg_right (Int.natCast_nonneg ms)) (self_keeps _)
        (fun _ => id) rfl
    | create request =>
      refine h.mono (Int.le_refl _) (self_keeps _) (fun key hkey => ?_) rfl
      rcases List.mem_append.mp hkey with hkey | hkey
      · exact hkey
      · cases List.mem_singleton.mp hkey
    | count request instant =>
      unfold KeyWorld.step KeyHolders.step ApiKeys.step
      dsimp only
      split
      · unfold ApiKeys.checkCeiling
        split
        · exact h.mono (Int.le_refl _) (self_keeps _) (fun _ => List.mem_of_mem_erase) rfl
        · refine h.mono (Int.le_refl _) (self_keeps _) (fun key hkey => ?_) rfl
          rcases List.mem_append.mp hkey with hkey | hkey
          · exact List.mem_of_mem_erase hkey
          · cases List.mem_singleton.mp hkey
      · exact h
    | generate request lookupId secret =>
      unfold KeyWorld.step KeyHolders.step ApiKeys.step Register.step
      dsimp only
      split
      · refine ⟨h.grants, fun key hkey => ?_, fun d' hd' hlookup => ?_⟩
        · rcases List.mem_append.mp hkey with hkey | hkey
          · exact h.pending key (List.mem_of_mem_erase hkey)
          · rw [CreateCall.inserting.inj (List.mem_singleton.mp hkey)]
            exact hother
        · rcases List.mem_cons.mp hd' with rfl | hd'
          · exact absurd hlookup hother
          · exact h.apart d' hd' hlookup
      · exact h
    | insert key id =>
      unfold KeyWorld.step KeyHolders.step ApiKeys.step Register.step
      dsimp only
      by_cases hkey : .inserting key ∈ w.keys.api.calls
      · rw [if_pos hkey]
        have hcalls : ∀ key', .inserting key' ∈ ((w.keys.api.take
            (.inserting key)).insertKey key id).calls → .inserting key' ∈ w.keys.api.calls := by
          intro key' hkey'
          unfold ApiKeys.insertKey at hkey'
          split at hkey' <;> exact List.mem_of_mem_erase hkey'
        have hnow : ((w.keys.api.take (.inserting key)).insertKey key id).now =
            w.keys.api.now := by
          unfold ApiKeys.insertKey
          split <;> rfl
        split
        · refine ⟨fun g hg htoken => ?_, fun key' hkey' => h.pending key' (hcalls key' hkey'),
            h.apart⟩
          rcases List.mem_append.mp hg with hg | hg
          · obtain ⟨d', hd', rfl⟩ := List.mem_map.mp hg
            obtain ⟨hd', hmatch⟩ := List.mem_filter.mp hd'
            have hne : d'.lookupId ≠ d.lookupId := by
              rw [(of_decide_eq_true hmatch).1]
              exact h.pending key hkey
            exact absurd htoken (apiKeyToken_ne hd (hagrees.drawn d' hd') hne)
          · dsimp only
            rw [hnow]
            exact h.grants g hg htoken
        · exact h.mono (Int.le_of_eq hnow.symm) (self_keeps _) hcalls rfl
      · rw [if_neg hkey, if_neg fun hboth => hkey hboth.1]
        exact h
    | fail call =>
      exact h.mono (Int.le_refl _) (self_keeps _) (fun _ => List.mem_of_mem_erase) rfl
    | revoke projectId apiKeyId instant =>
      exact h.mono (Int.le_refl _) (takeBack_keeps _ _) (fun _ => id) rfl
    | purgeDead instant => exact h.mono (Int.le_refl _) (self_keeps _) (fun _ => id) rfl

/-- A closed token is refused. -/
theorem Closed.refused (h : Closed sha256Hex w d)
    (hagrees : Agrees sha256Hex w.keys.api w.register) (hd : d.WellFormed)
    {authorization : Option (List Char)}
    (hbearer : authorization.bind extractBearer = some (apiKeyToken d.lookupId d.secret)) :
    w.keys.canActivate sha256Hex authorization = .refused "Invalid API key" := by
  cases hresolved : w.keys.resolve sha256Hex (apiKeyToken d.lookupId d.secret) with
  | none =>
    unfold KeyHolders.canActivate
    rw [hbearer]
    dsimp only
    rw [hresolved, ite_self]
  | some resolved =>
    have hcollision : w.TellsApart sha256Hex (apiKeyToken d.lookupId d.secret) := by
      intro d' hd' parsed hread hlookup hhash
      rw [readApiKey_apiKeyToken hd] at hread
      obtain rfl := Option.some.inj hread
      exact h.apart d' hd' hlookup hhash
    obtain ⟨g, hopens, htoken, _, _⟩ := (resolve_iff hagrees hcollision).mp hresolved
    rcases h.grants g hopens.mem htoken with hback | ⟨e, he, hpast⟩
    · rw [hopens.kept] at hback
      cases hback
    · have hlater := hopens.alive e he
      omega

end Closing

end Agreement

/-- After any sensible run a bearer token is let in as a machine of a project exactly when it
was handed out as a key of that project and was not taken back, has not expired, and the
project is not left with disabled owners only. -/
theorem bearer_opens_iff_granted (sha256Hex : Sha256Hex) (now : ℤ) (es : List KeyHoldersEvent)
    (hrun : Along (KeyWorld.step sha256Hex) KeyWorld.Sensible (KeyWorld.start now) es)
    (authorization : Option (List Char)) (apiKeyId projectId : Uuid)
    (hcollision : ∀ token, authorization.bind extractBearer = some token →
      (run (KeyWorld.step sha256Hex) (KeyWorld.start now) es).TellsApart sha256Hex token) :
    (run (KeyWorld.step sha256Hex) (KeyWorld.start now) es).keys.canActivate sha256Hex
        authorization = .admitted (.apiKey apiKeyId projectId) ↔
      ∃ g, (run (KeyWorld.step sha256Hex) (KeyWorld.start now) es).Opens g ∧
        authorization.bind extractBearer = some g.token ∧ g.apiKeyId = apiKeyId ∧
        g.projectId = projectId :=
  canActivate_iff (agrees_run hrun) hcollision

/-- A digest of its own for one secret. -/
def sampleSha256 : Sha256Hex where
  digest text :=
    if text = List.replicate 43 's' then List.replicate 64 'a' else List.replicate 64 'b'
  length_digest text := by
    split <;> exact List.length_replicate
  isDigit_digest text c hc := by
    split at hc
    · rw [List.eq_of_mem_replicate hc]
      decide
    · rw [List.eq_of_mem_replicate hc]
      decide

/-- The halves of a token. -/
def sampleDraw : ParsedApiKey := ⟨List.replicate 16 '0', List.replicate 43 's'⟩

/-- A key is created for a project, whose owner joins it. -/
def keyCreated : List KeyHoldersEvent :=
  let request : CreateApiKey := ⟨1, "deploy".toList, some 30⟩
  [.join ⟨1, 5, .owner⟩, .keys (.create request), .keys (.count request 0),
    .keys (.generate request sampleDraw.lookupId sampleDraw.secret),
    .keys (.insert (request.toNewApiKey sampleSha256.digest 0 sampleDraw.lookupId
      sampleDraw.secret) 7)]

theorem sampleSha256_apart {secret : List Char}
    (h : sampleSha256.digest sampleDraw.secret = sampleSha256.digest secret) :
    sampleDraw.secret = secret := by
  by_contra hne
  unfold sampleSha256 at h
  dsimp only at h
  rw [if_pos (show sampleDraw.secret = List.replicate 43 's' from rfl),
    if_neg fun heq => hne heq.symm] at h
  exact absurd h (by decide)

theorem drawn_keyCreated : (run (KeyWorld.step sampleSha256) (.start 0) keyCreated).register.drawn =
    [sampleDraw] := by decide

/-- The key opens its project. -/
theorem bearer_opens_iff_granted_sample :
    (run (KeyWorld.step sampleSha256) (.start 0) keyCreated).keys.canActivate sampleSha256
        (some ("bEARER  ".toList ++ apiKeyToken sampleDraw.lookupId sampleDraw.secret)) =
          .admitted (.apiKey 7 1) ↔
      ∃ g, (run (KeyWorld.step sampleSha256) (.start 0) keyCreated).Opens g ∧
        (some ("bEARER  ".toList ++ apiKeyToken sampleDraw.lookupId sampleDraw.secret)).bind
          extractBearer = some g.token ∧ g.apiKeyId = 7 ∧ g.projectId = 1 := by
  apply bearer_opens_iff_granted sampleSha256 0 keyCreated (by decide)
  intro token _ d hd parsed _ _ hhash
  rw [drawn_keyCreated, List.mem_singleton] at hd
  rw [hd] at hhash ⊢
  exact sampleSha256_apart hhash

/-- A token of which no grant is good and which no call is about to hand out is refused from
then on, whatever happens but a draw of its public half. -/
theorem closed_token_stays_closed (sha256Hex : Sha256Hex) (now : ℤ)
    (es es' : List KeyHoldersEvent) (d : ParsedApiKey) (hd : d.WellFormed)
    (hrun : Along (KeyWorld.step sha256Hex) KeyWorld.Sensible (KeyWorld.start now) es)
    (hclosed : Closed sha256Hex (run (KeyWorld.step sha256Hex) (KeyWorld.start now) es) d)
    (hlater : Along (KeyWorld.step sha256Hex) KeyWorld.Sensible
      (run (KeyWorld.step sha256Hex) (KeyWorld.start now) es) es')
    (hother : ∀ e ∈ es', DrawsOther d e) (authorization : Option (List Char))
    (hbearer : authorization.bind extractBearer = some (apiKeyToken d.lookupId d.secret)) :
    Throughout (KeyWorld.step sha256Hex)
      (fun w => w.keys.canActivate sha256Hex authorization = .refused "Invalid API key")
      (run (KeyWorld.step sha256Hex) (KeyWorld.start now) es) es' := by
  have hthroughout := throughout_of_step
    (I := fun w => Agrees sha256Hex w.keys.api w.register ∧ Closed sha256Hex w d)
    (P := fun w e => w.Sensible e ∧ DrawsOther d e)
    (fun w e h he => ⟨h.1.step he.1, h.2.step h.1 hd he.2⟩) ⟨agrees_run hrun, hclosed⟩
    (hlater.and (along_of_forall hother))
  exact hthroughout.mono fun w h => h.2.refused h.1 hd hbearer

/-- The key is revoked; then its row is purged, and another key is made. -/
theorem closed_token_stays_closed_sample :
    Throughout (KeyWorld.step sampleSha256)
      (fun w => w.keys.canActivate sampleSha256
        (some ("Bearer ".toList ++ apiKeyToken sampleDraw.lookupId sampleDraw.secret)) =
          .refused "Invalid API key")
      (run (KeyWorld.step sampleSha256) (.start 0) (keyCreated ++ [.keys (.revoke 1 7 0)]))
      [.keys (.elapse 3000000000), .keys (.purgeDead 2999999999),
        .keys (.create ⟨1, "again".toList, none⟩), .disable 5 0, .enable 5] := by
  refine closed_token_stays_closed sampleSha256 0 _ _ sampleDraw ⟨rfl, by decide, rfl, by decide⟩
    (by decide) ⟨by decide, fun key hkey => ?_, fun d hd _ hhash => ?_⟩ (by decide) (by decide) _
    (by decide)
  · have hcalls : (run (KeyWorld.step sampleSha256) (.start 0)
        (keyCreated ++ [.keys (.revoke 1 7 0)])).keys.api.calls = [] := by decide
    rw [hcalls] at hkey
    cases hkey
  · have hdrawn : (run (KeyWorld.step sampleSha256) (.start 0)
        (keyCreated ++ [.keys (.revoke 1 7 0)])).register.drawn = [sampleDraw] := by decide
    rw [hdrawn, List.mem_singleton] at hd
    rw [hd]

end SilenceWatch
