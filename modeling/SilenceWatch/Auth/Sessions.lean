import Mathlib.Data.Fintype.EquivFin
import SilenceWatch.Auth.Lockout
import SilenceWatch.Database.Schema
import SilenceWatch.Library.Run

/-!
# Sessions

Every way in ends in the creation of a session: the account is looked at, the row is inserted,
the sign-in is recorded, the sessions beyond the ceiling are listed, and those listed are
deleted. The statements of any number of sign-ins fall between those of the others and between
what support does to the account. An account stays within its ceiling whenever no sign-in to it
is under way, and a disabled account is left without a session unless a sign-in had looked at
it before it was disabled and inserts after.
-/

namespace SilenceWatch

open Relational Transition

/-- `MAX_LIVE_SESSIONS_PER_USER`. -/
def maxLiveSessionsPerUser : ℕ := 20

/-- `SESSION_TTL_SECONDS`. -/
def sessionTtlSeconds : ℤ := 30 * 86400

/-- A row of `session`. -/
structure SessionRow where
  id : Uuid
  userId : Uuid
  createdAt : ℤ
  expiresAt : ℤ
  deriving DecidableEq

/-- `session_pkey`. -/
def SessionRow.Distinct (r r' : SessionRow) : Prop := r.id ≠ r'.id
  deriving Decidable

/-- What the creation of a session reads and writes of an account. -/
structure SignInAccount where
  disabledAt : Option ℤ
  login : LoginRow
  lastLoginAt : Option ℤ
  deriving DecidableEq

/-- How far the creation of a session has come. -/
inductive SignIn where
  /-- The row is made up, the account not yet looked at. -/
  | begun (userId : Uuid) (createdAt : ℤ)
  /-- The account was not disabled. -/
  | admitted (userId : Uuid) (createdAt : ℤ)
  | inserted (userId : Uuid)
  | recorded (userId : Uuid)
  /-- The surplus was listed, and there was some. -/
  | listed (userId : Uuid) (surplus : List Uuid)
  deriving DecidableEq

/-- The sessions, the accounts, and the sign-ins under way. -/
structure Sessions where
  now : ℤ
  rows : Table SessionRow SessionRow.Distinct
  accounts : Uuid → SignInAccount
  signIns : List SignIn

/-- What happens. -/
inductive SessionsEvent where
  | elapse (ms : ℕ)
  | begin (userId : Uuid)
  | check (userId : Uuid) (createdAt : ℤ)
  | insert (userId : Uuid) (createdAt : ℤ) (id : Uuid)
  | record (userId : Uuid)
  /-- The rows of the account, in an order in which the query may return them. -/
  | list (userId : Uuid) (order : List SessionRow)
  | trim (userId : Uuid) (surplus : List Uuid)
  /-- A sign-in ends with whatever it had reached. -/
  | fail (signIn : SignIn)
  | disable (userId : Uuid)
  | enable (userId : Uuid)
  | endSessions (userId : Uuid)
  | signOut (id : Uuid)
  | purgeExpired

namespace Sessions

/-- The sessions of an account. -/
def sessionsOf (s : Sessions) (userId : Uuid) : List SessionRow :=
  s.rows.rows.filter fun r => r.userId = userId

/-- A sign-in leaves the state it was in. -/
def take (s : Sessions) (signIn : SignIn) : Sessions :=
  { s with signIns := s.signIns.erase signIn }

/-- A sign-in comes to a state. -/
def put (s : Sessions) (signIn : SignIn) : Sessions := { s with signIns := signIn :: s.signIns }

/-- Sessions are deleted. -/
def delete (s : Sessions) (p : SessionRow → Prop) [DecidablePred p] : Sessions :=
  { s with rows := s.rows.delete p }

/-- An account is written. -/
def assign (s : Sessions) (userId : Uuid) (f : SignInAccount → SignInAccount) : Sessions :=
  { s with accounts := Function.update s.accounts userId (f (s.accounts userId)) }

/-- The rows of an account in an order that `ORDER BY created_at DESC` allows. -/
def IsOrder (s : Sessions) (userId : Uuid) (order : List SessionRow) : Prop :=
  order.Perm (s.sessionsOf userId) ∧ order.Pairwise fun r r' => r'.createdAt ≤ r.createdAt
  deriving Decidable

/-- `disable`: both writes in one transaction, unless the account is disabled already. -/
def disable (s : Sessions) (userId : Uuid) : Sessions :=
  if (s.accounts userId).disabledAt ≠ none then s
  else
    (s.assign userId fun a => { a with disabledAt := some s.now }).delete fun r =>
      r.userId = userId

/-- The state after an event. -/
def step (s : Sessions) : SessionsEvent → Sessions
  | .elapse ms => { s with now := s.now + ms }
  | .begin userId => s.put (.begun userId s.now)
  | .check userId createdAt =>
    if .begun userId createdAt ∈ s.signIns then
      if (s.accounts userId).disabledAt ≠ none then s.take (.begun userId createdAt)
      else (s.take (.begun userId createdAt)).put (.admitted userId createdAt)
    else s
  | .insert userId createdAt id =>
    if .admitted userId createdAt ∈ s.signIns then
      match s.rows.insert? ⟨id, userId, createdAt, createdAt + 1000 * sessionTtlSeconds⟩ with
      | none => s.take (.admitted userId createdAt)
      | some rows =>
        { s.take (.admitted userId createdAt) with rows := rows }.put (.inserted userId)
    else s
  | .record userId =>
    if .inserted userId ∈ s.signIns then
      ((s.take (.inserted userId)).assign userId fun a =>
        { a with login := ⟨0, none⟩, lastLoginAt := some s.now }).put (.recorded userId)
    else s
  | .list userId order =>
    if .recorded userId ∈ s.signIns ∧ s.IsOrder userId order then
      let surplus := (order.drop maxLiveSessionsPerUser).map SessionRow.id
      if surplus.length = 0 then s.take (.recorded userId)
      else (s.take (.recorded userId)).put (.listed userId surplus)
    else s
  | .trim userId surplus =>
    if .listed userId surplus ∈ s.signIns then
      (s.take (.listed userId surplus)).delete fun r => r.id ∈ surplus
    else s
  | .fail signIn => s.take signIn
  | .disable userId => s.disable userId
  | .enable userId => s.assign userId fun a => { a with disabledAt := none }
  | .endSessions userId => s.delete fun r => r.userId = userId
  | .signOut id => s.delete fun r => r.id = id
  | .purgeExpired => s.delete fun r => r.expiresAt < s.now

end Sessions

/-- The sign-in has inserted a session of the account and has not trimmed them. -/
def SignIn.Trims (userId : Uuid) : SignIn → Prop
  | .inserted id | .recorded id | .listed id _ => id = userId
  | _ => False

/-- The sign-in will list the sessions of the account. -/
def SignIn.WillList (userId : Uuid) : SignIn → Prop
  | .inserted id | .recorded id => id = userId
  | _ => False

instance (userId : Uuid) : DecidablePred (SignIn.Trims userId) := by
  intro signIn
  unfold SignIn.Trims
  split <;> infer_instance

theorem SignIn.WillList.trims {userId : Uuid} {signIn : SignIn} (h : signIn.WillList userId) :
    signIn.Trims userId := by
  cases signIn with
  | begun id createdAt => exact h
  | admitted id createdAt => exact h
  | inserted id => exact h
  | recorded id => exact h
  | listed id surplus => exact h.elim

namespace Sessions

variable {s : Sessions} {userId : Uuid} {e : SessionsEvent}

/-- The sessions of an account that are not among those listed. -/
def beside (s : Sessions) (userId : Uuid) (surplus : List Uuid) : ℕ :=
  s.rows.rows.countP fun r => r.userId = userId ∧ r.id ∉ surplus

/-- The sessions of an account are within the ceiling, or someone is on the way to see to it:
a sign-in that will list them, or one that is about to delete all but twenty. -/
def Kept (userId : Uuid) (s : Sessions) : Prop :=
  (∃ signIn ∈ s.signIns, signIn.WillList userId) ∨
    s.beside userId [] ≤ maxLiveSessionsPerUser ∨
    ∃ surplus, .listed userId surplus ∈ s.signIns ∧
      s.beside userId surplus ≤ maxLiveSessionsPerUser

/-- No sign-in to the account fails between its insert and its trim. -/
def TrimsComplete (userId : Uuid) (_ : Sessions) : SessionsEvent → Prop
  | .fail signIn => ¬ signIn.Trims userId
  | _ => True

instance (userId : Uuid) (s : Sessions) : ∀ e, Decidable (TrimsComplete userId s e) := by
  intro e
  unfold TrimsComplete
  split <;> infer_instance

/-- What a listing leaves out is at most the ceiling. -/
theorem beside_of_isOrder {order : List SessionRow} (h : s.IsOrder userId order) :
    s.beside userId ((order.drop maxLiveSessionsPerUser).map SessionRow.id) ≤
      maxLiveSessionsPerUser := by
  have hcount : s.beside userId ((order.drop maxLiveSessionsPerUser).map SessionRow.id) =
      order.countP fun r => r.id ∉ (order.drop maxLiveSessionsPerUser).map SessionRow.id := by
    rw [h.1.countP_eq, sessionsOf, List.countP_filter]
    unfold beside
    refine List.countP_congr fun r _ => ?_
    simp [and_comm]
  have hdrop : (order.drop maxLiveSessionsPerUser).countP
      (fun r => r.id ∉ (order.drop maxLiveSessionsPerUser).map SessionRow.id) = 0 := by
    apply List.countP_eq_zero.mpr
    intro r hr
    rw [decide_eq_true_eq, not_not]
    exact List.mem_map_of_mem hr
  have htake := List.countP_le_length (l := order.take maxLiveSessionsPerUser)
    (p := fun r => r.id ∉ (order.drop maxLiveSessionsPerUser).map SessionRow.id)
  have hlength := List.length_take_le maxLiveSessionsPerUser order
  have hsplit := congrArg (List.countP fun r =>
    decide (r.id ∉ (order.drop maxLiveSessionsPerUser).map SessionRow.id))
    (List.take_append_drop maxLiveSessionsPerUser order)
  rw [List.countP_append, hdrop] at hsplit
  rw [hcount]
  omega

/-- Who is on the way stays on it, and no session comes. -/
theorem Kept.mono (h : s.Kept userId) {s' : Sessions}
    (hsignIns : ∀ x ∈ s.signIns, x.Trims userId → x ∈ s'.signIns)
    (hrows : ∀ surplus, s'.beside userId surplus ≤ s.beside userId surplus) :
    s'.Kept userId := by
  rcases h with ⟨x, hx, hlists⟩ | hwithin | ⟨surplus, hlisted, hbeside⟩
  · exact Or.inl ⟨x, hsignIns x hx hlists.trims, hlists⟩
  · exact Or.inr (Or.inl (Nat.le_trans (hrows []) hwithin))
  · exact Or.inr (Or.inr ⟨surplus, hsignIns _ hlisted rfl, Nat.le_trans (hrows surplus) hbeside⟩)

theorem beside_delete_le (p : SessionRow → Prop) [DecidablePred p] (surplus : List Uuid) :
    (s.delete p).beside userId surplus ≤ s.beside userId surplus :=
  List.filter_sublist.countP_le

theorem Kept.delete (h : s.Kept userId) (p : SessionRow → Prop) [DecidablePred p] :
    (s.delete p).Kept userId :=
  h.mono (fun _ hx _ => hx) (beside_delete_le p)

theorem Kept.assign (h : s.Kept userId) (id : Uuid) (f : SignInAccount → SignInAccount) :
    (s.assign id f).Kept userId :=
  h.mono (fun _ hx _ => hx) fun _ => Nat.le_refl _

/-- A sign-in that trims nothing of the account may leave. -/
theorem Kept.take (h : s.Kept userId) (signIn : SignIn) (hother : ¬ signIn.Trims userId) :
    (s.take signIn).Kept userId := by
  refine h.mono (fun x hx htrims => ?_) fun _ => Nat.le_refl _
  apply (List.mem_erase_of_ne _).mpr hx
  rintro rfl
  exact hother htrims

theorem Kept.put (h : s.Kept userId) (signIn : SignIn) : (s.put signIn).Kept userId :=
  h.mono (fun _ hx _ => List.mem_cons_of_mem _ hx) fun _ => Nat.le_refl _

/-- A sign-in that will list the sessions of the account sees to it. -/
theorem kept_put {signIn : SignIn} (hlists : signIn.WillList userId) :
    (s.put signIn).Kept userId :=
  Or.inl ⟨signIn, List.mem_cons_self, hlists⟩

/-- The session of another account is none of this one's. -/
theorem beside_insert {row : SessionRow} {rows : Table SessionRow SessionRow.Distinct}
    (hinsert : s.rows.insert? row = some rows) (hother : row.userId ≠ userId)
    (surplus : List Uuid) :
    ({ s with rows := rows } : Sessions).beside userId surplus = s.beside userId surplus := by
  unfold beside
  dsimp only
  rw [Table.insert?_eq_some hinsert, List.countP_append, List.countP_singleton,
    if_neg fun h => hother (of_decide_eq_true h).1, Nat.add_zero]

/-- A listing sees to it that no more than the ceiling is left. -/
theorem Kept.list (h : s.Kept userId) (id : Uuid) (order : List SessionRow) :
    (s.step (.list id order)).Kept userId := by
  unfold Sessions.step
  dsimp only
  split
  · next hlist =>
    by_cases hid : id = userId
    · subst hid
      have hbeside := beside_of_isOrder hlist.2
      split
      · next hnone =>
        rw [List.length_eq_zero_iff.mp hnone] at hbeside
        exact Or.inr (Or.inl hbeside)
      · exact Or.inr (Or.inr ⟨_, List.mem_cons_self, hbeside⟩)
    · split
      · exact h.take (.recorded id) hid
      · exact (h.take (.recorded id) hid).put _
  · exact h

/-- A trim leaves what was not listed. -/
theorem Kept.trim (h : s.Kept userId) (id : Uuid) (surplus : List Uuid) :
    (s.step (.trim id surplus)).Kept userId := by
  unfold Sessions.step
  dsimp only
  split
  · by_cases hid : id = userId
    · subst hid
      rcases h with ⟨x, hx, hlists⟩ | hwithin | ⟨surplus', hlisted, hbeside⟩
      · refine Or.inl ⟨x, (List.mem_erase_of_ne ?_).mpr hx, hlists⟩
        rintro rfl
        exact hlists
      · exact Or.inr (Or.inl (Nat.le_trans (beside_delete_le _ _) hwithin))
      · by_cases hsame : surplus' = surplus
        · subst hsame
          refine Or.inr (Or.inl (Nat.le_trans (Nat.le_of_eq ?_) hbeside))
          unfold beside Sessions.delete
          rw [Table.delete_rows, List.countP_filter]
          refine List.countP_congr fun r _ => ?_
          simp [and_comm]
        · refine Or.inr (Or.inr ⟨surplus', (List.mem_erase_of_ne ?_).mpr hlisted,
            Nat.le_trans (beside_delete_le _ _) hbeside⟩)
          intro heq
          exact hsame (SignIn.listed.inj heq).2
    · exact (h.take (.listed id surplus) hid).delete _
  · exact h

/-- **One step.** -/
theorem Kept.step (h : s.Kept userId) (he : TrimsComplete userId s e) :
    (s.step e).Kept userId := by
  cases e with
  | elapse ms => exact h.mono (fun _ hx _ => hx) fun _ => Nat.le_refl _
  | begin id => exact h.put _
  | check id createdAt =>
    unfold Sessions.step
    dsimp only
    split
    · split
      · exact h.take (.begun id createdAt) fun htrims => htrims
      · exact (h.take (.begun id createdAt) fun htrims => htrims).put _
    · exact h
  | insert id createdAt rowId =>
    unfold Sessions.step
    dsimp only
    split
    · split
      · exact h.take (.admitted id createdAt) fun htrims => htrims
      · next rows hinsert =>
        by_cases hid : id = userId
        · exact kept_put hid
        · refine Kept.put ?_ _
          refine h.mono (fun x hx htrims => ?_) fun surplus => ?_
          · apply (List.mem_erase_of_ne _).mpr hx
            rintro rfl
            exact htrims
          · exact Nat.le_of_eq (beside_insert (s := s.take (.admitted id createdAt)) hinsert hid _)
    · exact h
  | record id =>
    unfold Sessions.step
    dsimp only
    split
    · by_cases hid : id = userId
      · exact kept_put hid
      · exact ((h.take (.inserted id) hid).assign _ _).put _
    · exact h
  | list id order => exact h.list id order
  | trim id surplus => exact h.trim id surplus
  | fail signIn => exact h.take signIn he
  | disable id =>
    unfold Sessions.step Sessions.disable
    dsimp only
    split
    · exact h
    · exact (h.assign _ _).delete _
  | enable id => exact h.assign _ _
  | endSessions id => exact h.delete _
  | signOut id => exact h.delete _
  | purgeExpired => exact h.delete _

/-- Where nobody is on the way, the sessions are within the ceiling. -/
theorem Kept.length_le (h : s.Kept userId) (hidle : ∀ x ∈ s.signIns, ¬ x.Trims userId) :
    (s.sessionsOf userId).length ≤ maxLiveSessionsPerUser := by
  rcases h with ⟨x, hx, hlists⟩ | hwithin | ⟨surplus, hlisted, _⟩
  · exact absurd hlists.trims (hidle x hx)
  · unfold sessionsOf
    rw [← List.countP_eq_length_filter]
    refine Nat.le_trans (Nat.le_of_eq (List.countP_congr fun r _ => ?_)) hwithin
    simp
  · exact absurd rfl (hidle _ hlisted)

end Sessions

/-- However the statements of sign-ins fall, an account within the ceiling of sessions is
within it whenever no sign-in to it has inserted a session and has yet to trim them, if none
fails in between. -/
theorem sessions_within_ceiling (userId : Uuid) (s : Sessions)
    (hstart : (s.sessionsOf userId).length ≤ maxLiveSessionsPerUser)
    (es : List SessionsEvent) (hes : Along Sessions.step (Sessions.TrimsComplete userId) s es) :
    Throughout Sessions.step (fun s => (∀ x ∈ s.signIns, ¬ x.Trims userId) →
      (s.sessionsOf userId).length ≤ maxLiveSessionsPerUser) s es := by
  have hkept : s.Kept userId := by
    refine Or.inr (Or.inl (Nat.le_trans (Nat.le_of_eq ?_) hstart))
    unfold Sessions.beside Sessions.sessionsOf
    rw [← List.countP_eq_length_filter]
    refine List.countP_congr fun r _ => ?_
    simp
  exact (throughout_of_step (fun _ _ h he => h.step he) hkept hes).mono fun s h => h.length_le

namespace Sessions

variable {s : Sessions} {userId : Uuid} {e : SessionsEvent}

/-- The account is disabled, has no session, and no sign-in to it was let pass. -/
structure Barred (userId : Uuid) (s : Sessions) : Prop where
  disabled : (s.accounts userId).disabledAt ≠ none
  empty : ∀ r ∈ s.rows.rows, r.userId ≠ userId
  waiting : ∀ createdAt, .admitted userId createdAt ∉ s.signIns

/-- Sign-ins that were let pass to other accounts may come, any others may go. -/
theorem Barred.signIns (h : s.Barred userId) {signIns : List SignIn}
    (hadmitted : ∀ createdAt, .admitted userId createdAt ∈ signIns →
      .admitted userId createdAt ∈ s.signIns) :
    ({ s with signIns := signIns } : Sessions).Barred userId :=
  ⟨h.disabled, h.empty, fun createdAt hmem => h.waiting createdAt (hadmitted createdAt hmem)⟩

theorem Barred.take (h : s.Barred userId) (signIn : SignIn) : (s.take signIn).Barred userId :=
  h.signIns fun _ hmem => List.mem_of_mem_erase hmem

theorem Barred.put (h : s.Barred userId) {signIn : SignIn}
    (hother : ∀ createdAt, signIn ≠ .admitted userId createdAt) :
    (s.put signIn).Barred userId := by
  refine h.signIns fun createdAt hmem => ?_
  rcases List.mem_cons.mp hmem with heq | hmem
  · exact absurd heq.symm (hother createdAt)
  · exact hmem

theorem Barred.delete (h : s.Barred userId) (p : SessionRow → Prop) [DecidablePred p] :
    (s.delete p).Barred userId :=
  ⟨h.disabled, fun r hr => h.empty r (Table.mem_delete.mp hr).1, h.waiting⟩

/-- An account is written without being enabled. -/
theorem Barred.assign (h : s.Barred userId) (id : Uuid) {f : SignInAccount → SignInAccount}
    (hf : id = userId → (f (s.accounts userId)).disabledAt ≠ none) :
    (s.assign id f).Barred userId := by
  refine ⟨?_, h.empty, h.waiting⟩
  change (Function.update s.accounts id (f (s.accounts id)) userId).disabledAt ≠ none
  by_cases hid : id = userId
  · subst hid
    rw [Function.update_self]
    exact hf rfl
  · rw [Function.update_of_ne fun heq => hid heq.symm]
    exact h.disabled

/-- **One step.** Only `enable` lifts the bar. -/
theorem Barred.step (h : s.Barred userId) (he : e ≠ .enable userId) :
    (s.step e).Barred userId := by
  cases e with
  | elapse ms => exact ⟨h.disabled, h.empty, h.waiting⟩
  | begin id => exact h.put fun _ heq => by cases heq
  | check id createdAt =>
    unfold Sessions.step
    dsimp only
    split
    · split
      · exact h.take _
      · next henabled =>
        refine (h.take _).put fun createdAt' heq => ?_
        obtain ⟨rfl, _⟩ := SignIn.admitted.inj heq
        exact henabled h.disabled
    · exact h
  | insert id createdAt rowId =>
    unfold Sessions.step
    dsimp only
    split
    · next hadmitted =>
      have hid : id ≠ userId := fun heq => h.waiting createdAt (heq ▸ hadmitted)
      split
      · exact h.take _
      · next rows hinsert =>
        have htaken := h.take (.admitted id createdAt)
        have hrows : ∀ r ∈ rows.rows, r.userId ≠ userId := by
          intro r hr
          rw [Table.insert?_eq_some hinsert] at hr
          rcases List.mem_append.mp hr with hr | hr
          · exact h.empty r hr
          · rw [List.mem_singleton.mp hr]
            exact hid
        have hinserted : ({ s.take (.admitted id createdAt) with rows := rows } :
            Sessions).Barred userId := ⟨h.disabled, hrows, htaken.waiting⟩
        exact hinserted.put fun _ heq => by cases heq
    · exact h
  | record id =>
    unfold Sessions.step
    dsimp only
    split
    · exact ((h.take _).assign id fun _ => h.disabled).put fun _ heq => by cases heq
    · exact h
  | list id order =>
    unfold Sessions.step
    dsimp only
    split
    · split
      · exact h.take _
      · exact (h.take _).put fun _ heq => by cases heq
    · exact h
  | trim id surplus =>
    unfold Sessions.step
    dsimp only
    split
    · exact (h.take _).delete _
    · exact h
  | fail signIn => exact h.take signIn
  | disable id =>
    unfold Sessions.step Sessions.disable
    dsimp only
    split
    · exact h
    · exact (h.assign id fun _ => Option.some_ne_none _).delete _
  | enable id =>
    have hid : id ≠ userId := fun heq => he (heq ▸ rfl)
    exact h.assign id (f := fun a => { a with disabledAt := none }) fun heq => absurd heq hid
  | endSessions id => exact h.delete _
  | signOut id => exact h.delete _
  | purgeExpired => exact h.delete _

/-- What `disable` does to an account that is not. -/
theorem disable_eq (henabled : (s.accounts userId).disabledAt = none) :
    s.disable userId =
      (s.assign userId fun a => { a with disabledAt := some s.now }).delete fun r =>
        r.userId = userId :=
  if_neg (not_not_intro henabled)

/-- A sign-in that was let pass still inserts its session. -/
theorem insert_of_admitted {createdAt : ℤ} (hadmitted : .admitted userId createdAt ∈ s.signIns) :
    ∃ id, (s.step (.insert userId createdAt id)).sessionsOf userId ≠ [] := by
  obtain ⟨id, hid⟩ := Infinite.exists_notMem_finset (s.rows.rows.map SessionRow.id).toFinset
  have hfresh : ∀ r ∈ s.rows.rows, r.id ≠ id := by
    intro r hr heq
    exact hid (List.mem_toFinset.mpr (List.mem_map.mpr ⟨r, hr, heq⟩))
  let row : SessionRow := ⟨id, userId, createdAt, createdAt + 1000 * sessionTtlSeconds⟩
  have hdistinct : ∀ r ∈ s.rows.rows, SessionRow.Distinct r row := hfresh
  obtain ⟨rows, hinsert⟩ := Table.exists_insert? hdistinct
  have hmem : row ∈ rows.rows := by
    rw [Table.insert?_eq_some hinsert]
    exact List.mem_append_right _ (List.mem_singleton_self _)
  refine ⟨id, List.ne_nil_of_mem (a := row) ?_⟩
  unfold Sessions.step
  dsimp only
  rw [if_pos hadmitted, hinsert]
  exact List.mem_filter.mpr ⟨hmem, decide_eq_true rfl⟩

end Sessions

/-- Nobody is signed in. -/
def nobodySignedIn : Sessions where
  now := 0
  rows := Table.empty
  accounts := fun _ => ⟨none, ⟨0, none⟩, none⟩
  signIns := []

/-- A session of one account. -/
def sessionOf5 (id : Uuid) : SessionRow := ⟨id, 5, 0, 1000 * sessionTtlSeconds⟩

/-- The account has as many sessions as it may have. -/
def fullAccount : Sessions :=
  { nobodySignedIn with
    rows :=
      { rows := (List.range 20).map sessionOf5
        distinct := List.pairwise_map.mpr
          (List.pairwise_lt_range.imp fun {_ _} hlt => Nat.ne_of_lt hlt) } }

/-- Two more sign-ins, which insert before either lists: both list the same surplus, and both
delete it. -/
def manySignIns : List SessionsEvent :=
  let order := (List.range 22).map sessionOf5
  [.begin 5, .begin 5, .check 5 0, .check 5 0, .insert 5 0 20, .insert 5 0 21, .record 5, .record 5,
    .list 5 order, .list 5 order, .trim 5 [20, 21], .trim 5 [20, 21]]

theorem sessions_within_ceiling_sample :
    Throughout Sessions.step (fun s => (∀ x ∈ s.signIns, ¬ x.Trims 5) →
        (s.sessionsOf 5).length ≤ maxLiveSessionsPerUser) fullAccount manySignIns ∧
      (run Sessions.step fullAccount manySignIns).signIns = [] ∧
      ((run Sessions.step fullAccount manySignIns).sessionsOf 5).length = 20 :=
  ⟨sessions_within_ceiling 5 fullAccount (by decide) manySignIns (by decide), by decide, by decide⟩

end SilenceWatch
