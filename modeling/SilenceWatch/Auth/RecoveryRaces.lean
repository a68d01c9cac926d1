import SilenceWatch.Auth.RecoveryCodes
import SilenceWatch.Database.Schema
import SilenceWatch.Library.Run

/-!
# Recovery codes at the same time

`replaceAll` deletes the codes of an account and inserts new ones in one transaction, and
`spend` marks a code as used in one statement, both under READ COMMITTED: the `DELETE` finds
the rows that are committed when it starts, and an `UPDATE` finds its row so and looks at it
again before it writes. Row locks only make statements wait, which rules orders out; all are
considered here. A code is spent at most once, and an account is left with one set of codes
as long as a replacement that commits has seen all codes that are still good.
-/

namespace SilenceWatch

open Json Relational Transition

/-- `RECOVERY_CODE_COUNT`. -/
def recoveryCodeCount : ℕ := 8

/-- A row of `recovery_code`. -/
structure RecoveryCode where
  id : Uuid
  userId : Uuid
  codeHash : List Char
  usedAt : Option ℤ
  deriving DecidableEq

/-- `recovery_code_pkey` and `recovery_code_code_hash_key`. -/
def RecoveryCode.Distinct (r r' : RecoveryCode) : Prop := r.id ≠ r'.id ∧ r.codeHash ≠ r'.codeHash
  deriving Decidable

theorem keepsDistinct_usedAt (now : ℤ) :
    KeepsDistinct RecoveryCode.Distinct fun r => { r with usedAt := some now } :=
  fun _ _ h => ⟨h, h⟩

/-- How far a call of `replaceAll` has come. -/
inductive ReplacePhase where
  | waiting
  /-- Its `DELETE` has found these rows. -/
  | deleting (found : List Uuid)
  /-- Its rows are inserted as well, under these ids. -/
  | inserted (found : List Uuid) (ids : Fin recoveryCodeCount → Uuid)
  | finished

/-- It is under way no longer, or not yet. -/
def ReplacePhase.AtRest : ReplacePhase → Prop
  | .waiting => True
  | .finished => True
  | _ => False

instance : ∀ phase : ReplacePhase, Decidable phase.AtRest
  | .waiting => .isTrue trivial
  | .finished => .isTrue trivial
  | .deleting _ => .isFalse id
  | .inserted _ _ => .isFalse id

/-- How far a call of `spend` has come. -/
inductive SpendPhase where
  | waiting
  /-- Its `UPDATE` has found this row. -/
  | found (id : Uuid)
  | finished (accepted : Bool)
  deriving DecidableEq

/-- The calls: for whom each is, what the replacements draw and what was typed. -/
structure RecoveryCalls (ι κ : Type*) where
  replacer : ι → Uuid
  draws : ι → Fin recoveryCodeCount → RecoveryDraws
  spender : κ → Uuid
  typed : κ → Units

/-- The committed rows, and how far the calls have come. -/
structure RecoveryState (ι κ : Type*) where
  codes : Table RecoveryCode RecoveryCode.Distinct
  replacement : ι → ReplacePhase
  spending : κ → SpendPhase

/-- What happens. -/
inductive RecoveryEvent (ι κ : Type*) where
  /-- The `DELETE` of a replacement starts. -/
  | delete (call : ι)
  | insert (call : ι) (ids : Fin recoveryCodeCount → Uuid)
  | commit (call : ι)
  /-- A replacement fails, and is rolled back. -/
  | abort (call : ι)
  /-- The `UPDATE` of a call of `spend` starts. -/
  | spend (call : κ)
  /-- It writes and commits. -/
  | write (call : κ) (now : ℤ)

section Steps

variable {ι κ : Type*} [DecidableEq ι] [DecidableEq κ] (calls : RecoveryCalls ι κ)
  (cases : UpperCase) (hash : Units → List Char)

/-- `RecoveryCodesService.hash`, of a code that was typed. -/
def hashOfTyped (typed : Units) : List Char := hash (normaliseRecoveryCode cases typed)

/-- The hashes of the codes of a replacement. -/
def RecoveryCalls.codeHash (call : ι) (i : Fin recoveryCodeCount) : List Char :=
  hashOfTyped cases hash (units (generateRecoveryCode (calls.draws call i)))

namespace RecoveryState

variable (s : RecoveryState ι κ)

/-- The rows of a replacement. -/
def newRows (call : ι) (ids : Fin recoveryCodeCount → Uuid) : List RecoveryCode :=
  List.ofFn fun i => ⟨ids i, calls.replacer call, calls.codeHash cases hash call i, none⟩

/-- The codes of an account that are still good. -/
def usable (userId : Uuid) : List RecoveryCode :=
  s.codes.rows.filter fun r => r.userId = userId ∧ r.usedAt = none

/-- What a replacement leaves, unless a unique index refuses it. -/
def replaced? (call : ι) (found : List Uuid) (ids : Fin recoveryCodeCount → Uuid) :
    Option (Table RecoveryCode RecoveryCode.Distinct) :=
  Table.ofRows? ((s.codes.delete fun r => r.id ∈ found).rows ++ newRows calls cases hash call ids)

/-- The row that a call of `spend` looks for. -/
def Spendable (call : κ) (r : RecoveryCode) : Prop :=
  r.userId = calls.spender call ∧ r.codeHash = hashOfTyped cases hash (calls.typed call) ∧
    r.usedAt = none
  deriving Decidable

/-- A replacement comes into another phase. -/
def setReplacement (call : ι) (phase : ReplacePhase) : RecoveryState ι κ :=
  { s with replacement := Function.update s.replacement call phase }

/-- A call of `spend` comes into another phase. -/
def setSpending (call : κ) (phase : SpendPhase) : RecoveryState ι κ :=
  { s with spending := Function.update s.spending call phase }

/-- `spend`, when its `UPDATE` starts. -/
def startSpend (call : κ) : RecoveryState ι κ :=
  match s.codes.rows.find? fun r => Spendable calls cases hash call r with
  | none => s.setSpending call (.finished false)
  | some r => s.setSpending call (.found r.id)

/-- `spend`, when its `UPDATE` looks at the row again and writes. -/
def finishSpend (call : κ) (id : Uuid) (now : ℤ) : RecoveryState ι κ :=
  if ∃ r ∈ s.codes.rows, r.id = id ∧ Spendable calls cases hash call r then
    { s.setSpending call (.finished true) with
      codes := s.codes.update (fun r => r.id = id ∧ Spendable calls cases hash call r)
        (fun r => { r with usedAt := some now }) (keepsDistinct_usedAt now) }
  else s.setSpending call (.finished false)

/-- The state after an event. -/
def step (s : RecoveryState ι κ) : RecoveryEvent ι κ → RecoveryState ι κ
  | .delete call =>
    match s.replacement call with
    | .waiting => s.setReplacement call (.deleting
        ((s.codes.rows.filter fun r => r.userId = calls.replacer call).map RecoveryCode.id))
    | _ => s
  | .insert call ids =>
    match s.replacement call with
    | .deleting found => s.setReplacement call (.inserted found ids)
    | _ => s
  | .commit call =>
    match s.replacement call with
    | .inserted found ids =>
      match s.replaced? calls cases hash call found ids with
      | none => s.setReplacement call .finished
      | some codes => { s.setReplacement call .finished with codes := codes }
    | _ => s
  | .abort call => s.setReplacement call .finished
  | .spend call =>
    match s.spending call with
    | .waiting => s.startSpend calls cases hash call
    | _ => s
  | .write call now =>
    match s.spending call with
    | .found id => s.finishSpend calls cases hash call id now
    | _ => s

end RecoveryState

end Steps

section Results

variable {ι κ : Type*} [DecidableEq ι] [DecidableEq κ] {calls : RecoveryCalls ι κ}
  {cases : UpperCase} {hash : Units → List Char} {s : RecoveryState ι κ}
  {e : RecoveryEvent ι κ} {userId : Uuid}

namespace RecoveryState

variable (calls cases hash) in
/-- The codes of an account that are still good come from one replacement, and are as many as
one returns at most. -/
def OneSet (userId : Uuid) (s : RecoveryState ι κ) : Prop :=
  (s.usable userId = [] ∨ ∃ call, calls.replacer call = userId ∧
      ∀ r ∈ s.usable userId, ∃ i, r.codeHash = calls.codeHash cases hash call i) ∧
    (s.usable userId).length ≤ recoveryCodeCount

variable (calls cases hash) in
/-- A replacement of the account that commits has seen every code that is still good. -/
def CommitSeesAll (userId : Uuid) (s : RecoveryState ι κ) : RecoveryEvent ι κ → Prop
  | .commit call => ∀ found ids codes, s.replacement call = .inserted found ids →
      calls.replacer call = userId → s.replaced? calls cases hash call found ids = some codes →
      ∀ r ∈ s.usable userId, r.id ∈ found
  | _ => True

variable (calls cases hash) in
/-- The same, of a call in its phase. -/
def SeesAll (userId : Uuid) (s : RecoveryState ι κ) (call : ι) : ReplacePhase → Prop
  | .inserted found ids => calls.replacer call = userId →
      (s.replaced? calls cases hash call found ids).isSome = true →
      ∀ r ∈ s.usable userId, r.id ∈ found
  | _ => True

instance (userId : Uuid) (s : RecoveryState ι κ) (call : ι) :
    ∀ phase, Decidable (SeesAll calls cases hash userId s call phase)
  | .inserted found ids => inferInstanceAs (Decidable (calls.replacer call = userId →
      (s.replaced? calls cases hash call found ids).isSome = true →
      ∀ r ∈ s.usable userId, r.id ∈ found))
  | .waiting => .isTrue trivial
  | .deleting _ => .isTrue trivial
  | .finished => .isTrue trivial

omit [DecidableEq ι] [DecidableEq κ] in
theorem seesAll_iff {call : ι} : SeesAll calls cases hash userId s call (s.replacement call) ↔
    CommitSeesAll calls cases hash userId s (.commit call) := by
  unfold CommitSeesAll
  dsimp only
  cases s.replacement call with
  | inserted found ids =>
    constructor
    · rintro h _ _ codes ⟨⟩ huser hcodes
      exact h huser (Option.isSome_iff_exists.mpr ⟨codes, hcodes⟩)
    · intro h huser hsome
      obtain ⟨codes, hcodes⟩ := Option.isSome_iff_exists.mp hsome
      exact h found ids codes rfl huser hcodes
  | _ => exact iff_of_true trivial (fun _ _ _ h => by cases h)

instance (userId : Uuid) (s : RecoveryState ι κ) (e : RecoveryEvent ι κ) :
    Decidable (CommitSeesAll calls cases hash userId s e) :=
  match e with
  | .commit _ => decidable_of_iff _ seesAll_iff
  | .delete _ => .isTrue trivial
  | .insert _ _ => .isTrue trivial
  | .abort _ => .isTrue trivial
  | .spend _ => .isTrue trivial
  | .write _ _ => .isTrue trivial

omit [DecidableEq ι] [DecidableEq κ] in
/-- With fewer codes, a set is still one set. -/
theorem OneSet.sublist {s' : RecoveryState ι κ} (h : s.OneSet calls cases hash userId)
    (hfewer : (s'.usable userId).Sublist (s.usable userId)) :
    s'.OneSet calls cases hash userId := by
  refine ⟨?_, Nat.le_trans hfewer.length_le h.2⟩
  rcases h.1 with hnone | ⟨call, hcall, hfrom⟩
  · left
    rw [hnone] at hfewer
    exact List.sublist_nil.mp hfewer
  · exact Or.inr ⟨call, hcall, fun r hr => hfrom r (hfewer.subset hr)⟩

variable (calls cases hash s userId) in
omit [DecidableEq ι] in
/-- A spent code is not good any more, and the others stay as they are. -/
theorem usable_finishSpend_sublist (call : κ) (id : Uuid) (now : ℤ) :
    ((s.finishSpend calls cases hash call id now).usable userId).Sublist (s.usable userId) := by
  unfold finishSpend
  split
  · refine filter_map_updateRow_sublist (fun r _ hgood => ?_) s.codes.rows
    cases hgood.2
  · exact List.Sublist.refl _

variable (userId) in
omit [DecidableEq ι] [DecidableEq κ] in
/-- What is good after a replacement: what was and was not found, and what it inserted. -/
theorem usable_replaced {call : ι} {found : List Uuid} {ids : Fin recoveryCodeCount → Uuid}
    {codes : Table RecoveryCode RecoveryCode.Distinct}
    (hcodes : s.replaced? calls cases hash call found ids = some codes) :
    (codes.rows.filter fun r => r.userId = userId ∧ r.usedAt = none) =
      (s.usable userId).filter (fun r => r.id ∉ found) ++
        if calls.replacer call = userId then newRows calls cases hash call ids else [] := by
  rw [Table.ofRows?_eq_some hcodes, List.filter_append, Table.delete_rows]
  congr 1
  · unfold usable
    rw [List.filter_filter, List.filter_filter]
    exact List.filter_congr fun r _ => Bool.and_comm _ _
  · split
    · next huser =>
      refine List.filter_eq_self.mpr fun r hr => ?_
      obtain ⟨i, rfl⟩ := List.mem_ofFn.mp hr
      exact decide_eq_true ⟨huser, rfl⟩
    · next hother =>
      refine List.filter_eq_nil_iff.mpr fun r hr => ?_
      obtain ⟨i, rfl⟩ := List.mem_ofFn.mp hr
      exact fun huser => hother (of_decide_eq_true huser).1

omit [DecidableEq κ] in
/-- A replacement leaves one set exactly if it has seen all codes that are still good. -/
theorem oneSet_replaced_iff {call : ι} {found : List Uuid} {ids : Fin recoveryCodeCount → Uuid}
    {codes : Table RecoveryCode RecoveryCode.Distinct}
    (hcodes : s.replaced? calls cases hash call found ids = some codes)
    (huser : calls.replacer call = userId) :
    ({ s.setReplacement call .finished with codes := codes } :
        RecoveryState ι κ).OneSet calls cases hash userId ↔
      ∀ r ∈ s.usable userId, r.id ∈ found := by
  have husable := usable_replaced userId hcodes
  rw [if_pos huser] at husable
  have hlength : (newRows calls cases hash call ids).length = recoveryCodeCount := List.length_ofFn
  unfold OneSet
  rw [usable, husable]
  constructor
  · rintro ⟨_, hcount⟩ r hr
    rw [List.length_append, hlength] at hcount
    have hnone : (s.usable userId).filter (fun r => r.id ∉ found) = [] :=
      List.length_eq_zero_iff.mp (by omega)
    by_contra hmissed
    exact List.filter_eq_nil_iff.mp hnone r hr (decide_eq_true hmissed)
  · intro hseen
    have hnone : (s.usable userId).filter (fun r => r.id ∉ found) = [] :=
      List.filter_eq_nil_iff.mpr fun r hr hmissed => of_decide_eq_true hmissed (hseen r hr)
    rw [hnone, List.nil_append]
    refine ⟨Or.inr ⟨call, huser, fun r hr => ?_⟩, Nat.le_of_eq hlength⟩
    obtain ⟨i, rfl⟩ := List.mem_ofFn.mp hr
    exact ⟨i, rfl⟩

/-- **One step.** An account that has one set of codes is left with one exactly if the
replacement that commits, if one does, has seen all codes that are still good. -/
theorem oneSet_step_iff (h : s.OneSet calls cases hash userId) :
    (s.step calls cases hash e).OneSet calls cases hash userId ↔
      s.CommitSeesAll calls cases hash userId e := by
  cases e with
  | commit call =>
    unfold step CommitSeesAll
    dsimp only
    split
    · next found ids hphase =>
      split
      · next hrefused =>
        refine ⟨fun _ found' ids' codes hphase' _ hcodes => ?_, fun _ => h⟩
        rw [hphase] at hphase'
        cases hphase'
        rw [hrefused] at hcodes
        cases hcodes
      · next codes hcodes =>
        by_cases huser : calls.replacer call = userId
        · rw [oneSet_replaced_iff hcodes huser]
          constructor
          · intro hseen found' ids' codes' hphase' _ _
            rw [hphase] at hphase'
            cases hphase'
            exact hseen
          · exact fun hall => hall found ids codes hphase huser hcodes
        · refine ⟨fun _ _ _ _ _ huser' => absurd huser' huser, fun _ => h.sublist ?_⟩
          have husable := usable_replaced userId hcodes
          rw [if_neg huser, List.append_nil] at husable
          rw [usable, husable]
          exact List.filter_sublist
    · next hother =>
      exact ⟨fun _ found ids _ hphase => absurd hphase (hother found ids), fun _ => h⟩
  | delete call =>
    refine iff_of_true ?_ trivial
    unfold step
    dsimp only
    split
    · exact h
    · exact h
  | insert call ids =>
    refine iff_of_true ?_ trivial
    unfold step
    dsimp only
    split
    · exact h
    · exact h
  | abort call => exact iff_of_true h trivial
  | spend call =>
    refine iff_of_true ?_ trivial
    unfold step startSpend
    dsimp only
    split
    · split
      · exact h
      · exact h
    · exact h
  | write call now =>
    refine iff_of_true ?_ trivial
    unfold step
    dsimp only
    split
    · exact h.sublist (usable_finishSpend_sublist calls cases hash s userId _ _ _)
    · exact h

/-- **One set.** An account that has one set of codes has one in every state of a run exactly
if each replacement of the run has seen, when it commits, all codes that are still good. -/
theorem throughout_oneSet_iff (h : s.OneSet calls cases hash userId)
    (es : List (RecoveryEvent ι κ)) :
    Throughout (step calls cases hash) (OneSet calls cases hash userId) s es ↔
      Along (step calls cases hash) (CommitSeesAll calls cases hash userId) s es :=
  throughout_iff_along_within (I := OneSet calls cases hash userId)
    (R := OneSet calls cases hash userId) (fun _ _ h => oneSet_step_iff h) (fun _ _ _ h => h) h h

theorem add_lt_alphabet (i : Fin recoveryCodeCount) : 8 + i.val < recoveryAlphabet.length := by
  have hlength : recoveryAlphabet.length = 32 := by decide
  have hi : i.val < 8 := i.isLt
  omega

theorem lt_alphabet (i : Fin recoveryCodeCount) : i.val < recoveryAlphabet.length :=
  Nat.lt_of_le_of_lt (Nat.le_add_left _ 8) (add_lt_alphabet i)

/-- Two replacements for a new account that draw different codes. -/
def twoReplacements : RecoveryCalls Bool Bool where
  replacer _ := 0
  draws call i _ _ := if call then ⟨i, lt_alphabet i⟩ else ⟨8 + i, add_lt_alphabet i⟩
  spender _ := 0
  typed _ := units (generateRecoveryCode fun _ _ => ⟨0, by decide⟩)

/-- Both delete before either commits. -/
def bothDelete : List (RecoveryEvent Bool Bool) :=
  [.delete true, .delete false, .insert true fun i => i, .insert false fun i => 8 + i,
    .commit true, .commit false]

/-- An account without codes. -/
def noCodes : RecoveryState Bool Bool := ⟨Table.empty, fun _ => .waiting, fun _ => .waiting⟩

/-- A hash for the examples. -/
def plainHash (text : Units) : List Char := text.map fun u => Char.ofNat u.toNat

theorem oneSet_noCodes : noCodes.OneSet twoReplacements deseretCase plainHash 0 :=
  ⟨Or.inl rfl, Nat.zero_le _⟩

/-- One replacement after the other, and between them a code of the first one is used. -/
def inTurn : List (RecoveryEvent Bool Bool) :=
  [.delete true, .insert true fun i => i, .commit true, .spend true, .write true 1000,
    .delete false, .insert false fun i => 8 + i, .commit false]

theorem throughout_oneSet_alone :
    Throughout (step twoReplacements deseretCase plainHash)
        (OneSet twoReplacements deseretCase plainHash 0) noCodes inTurn ∧
      ((run (step twoReplacements deseretCase plainHash) noCodes inTurn).usable 0).length = 8 ∧
      (run (step twoReplacements deseretCase plainHash) noCodes inTurn).spending true =
        .finished true :=
  ⟨(throughout_oneSet_iff oneSet_noCodes inTurn).mpr (by decide), by decide, by decide⟩

/-- Replacements of one account at the same time leave two sets. -/
theorem not_oneSet :
    ¬ ∀ (calls : RecoveryCalls Bool Bool) (cases : UpperCase) (hash : Units → List Char)
      (s : RecoveryState Bool Bool) (userId : Uuid) (es : List (RecoveryEvent Bool Bool)),
      s.OneSet calls cases hash userId →
        (∀ call, ((run (step calls cases hash) s es).replacement call).AtRest) →
          (run (step calls cases hash) s es).OneSet calls cases hash userId := by
  intro hall
  have hlast := hall twoReplacements deseretCase plainHash noCodes 0 bothDelete oneSet_noCodes
    (by decide)
  exact absurd hlast.2 (by decide)

section Spends

variable {codeHash : List Char}

variable (calls cases hash) in
/-- The call of `spend` was for this account and this code, and was accepted. -/
def Accepted (userId : Uuid) (codeHash : List Char) (s : RecoveryState ι κ) (call : κ) : Prop :=
  s.spending call = .finished true ∧ calls.spender call = userId ∧
    hashOfTyped cases hash (calls.typed call) = codeHash

variable (calls cases hash) in
/-- At most one call was accepted, and if one was the code is not good any more. -/
def SpentOnce (userId : Uuid) (codeHash : List Char) (s : RecoveryState ι κ) : Prop :=
  ∀ call, s.Accepted calls cases hash userId codeHash call →
    (∀ call', s.Accepted calls cases hash userId codeHash call' → call' = call) ∧
      ∀ r ∈ s.usable userId, r.codeHash ≠ codeHash

variable (calls) in
/-- No replacement of the account commits. -/
def NoCommit (userId : Uuid) : RecoveryEvent ι κ → Prop
  | .commit call => calls.replacer call ≠ userId
  | _ => True

omit [DecidableEq ι] [DecidableEq κ] in
/-- Where no call is newly accepted and no code becomes good, a code is spent once as before. -/
theorem SpentOnce.mono {s' : RecoveryState ι κ} (h : s.SpentOnce calls cases hash userId codeHash)
    (haccepted : ∀ call, s'.spending call = .finished true → s.spending call = .finished true)
    (hfewer : (s'.usable userId).Sublist (s.usable userId)) :
    s'.SpentOnce calls cases hash userId codeHash := by
  have hbefore : ∀ call, s'.Accepted calls cases hash userId codeHash call →
      s.Accepted calls cases hash userId codeHash call :=
    fun call hcall => ⟨haccepted call hcall.1, hcall.2⟩
  intro call hcall
  obtain ⟨honly, hgone⟩ := h call (hbefore call hcall)
  exact ⟨fun call' hcall' => honly call' (hbefore call' hcall'),
    fun r hr => hgone r (hfewer.subset hr)⟩

omit [DecidableEq ι] in
/-- A call that is not accepted comes into another phase. -/
theorem accepted_setSpending {call : κ} {phase : SpendPhase} (hphase : phase ≠ .finished true)
    (call' : κ) (h : (s.setSpending call phase).spending call' = .finished true) :
    s.spending call' = .finished true := by
  unfold setSpending at h
  dsimp only at h
  by_cases hsame : call' = call
  · rw [hsame, Function.update_self] at h
    exact absurd h hphase
  · rwa [Function.update_of_ne hsame] at h

omit [DecidableEq ι] in
/-- **One write.** It accepts the call only if the code is still good, and then no other. -/
theorem SpentOnce.finishSpend (h : s.SpentOnce calls cases hash userId codeHash) (call : κ)
    (id : Uuid) (now : ℤ) :
    (s.finishSpend calls cases hash call id now).SpentOnce calls cases hash userId codeHash := by
  by_cases hfound : ∃ r ∈ s.codes.rows, r.id = id ∧ Spendable calls cases hash call r
  · have hstate : s.finishSpend calls cases hash call id now =
        { s.setSpending call (.finished true) with
          codes := s.codes.update (fun r => r.id = id ∧ Spendable calls cases hash call r)
            (fun r => { r with usedAt := some now }) (keepsDistinct_usedAt now) } := if_pos hfound
    have hfewer := usable_finishSpend_sublist calls cases hash s userId call id now
    obtain ⟨r, hr, hid, huser, hhash, hunused⟩ := hfound
    by_cases hcode : calls.spender call = userId ∧
        hashOfTyped cases hash (calls.typed call) = codeHash
    · -- The row is good, so no call was accepted before; afterwards no row with the hash is.
      have hgood : r ∈ s.usable userId :=
        List.mem_filter.mpr ⟨hr, decide_eq_true ⟨huser.trans hcode.1, hunused⟩⟩
      have hnone : ∀ call', ¬ s.Accepted calls cases hash userId codeHash call' :=
        fun call' hcall' => (h call' hcall').2 r hgood (hhash.trans hcode.2)
      rw [hstate]
      intro call₁ hcall₁
      have honly : ∀ call', ({ s.setSpending call (.finished true) with
          codes := s.codes.update (fun r => r.id = id ∧ Spendable calls cases hash call r)
            (fun r => { r with usedAt := some now }) (keepsDistinct_usedAt now) } :
              RecoveryState ι κ).Accepted calls cases hash userId codeHash call' →
          call' = call := by
        intro call' hcall'
        by_contra hother
        have hspending : Function.update s.spending call (SpendPhase.finished true) call' =
            .finished true := hcall'.1
        rw [Function.update_of_ne hother] at hspending
        exact hnone call' ⟨hspending, hcall'.2⟩
      refine ⟨fun call' hcall' => (honly call' hcall').trans (honly call₁ hcall₁).symm, ?_⟩
      intro r' hr' hsame
      obtain ⟨hmem, hr'good⟩ := List.mem_filter.mp hr'
      rw [Table.update_rows] at hmem
      obtain ⟨hr'user, hr'unused⟩ := of_decide_eq_true hr'good
      obtain ⟨r₀, hr₀, hcases⟩ := mem_map_updateRow.mp hmem
      rcases hcases with ⟨_, rfl⟩ | ⟨hkept, rfl⟩
      · cases hr'unused
      · -- The hash is unique, so it is the row that was just spent.
        have hrow : r' = r := by
          refine s.codes.eq_of_key_eq RecoveryCode.codeHash (fun _ _ hd => hd.2) hr₀ hr ?_
          rw [hsame, hhash, hcode.2]
        rw [hrow] at hkept
        exact hkept ⟨hid, huser, hhash, hunused⟩
    · -- It was for another account or another code.
      have hother : ∀ call', (s.finishSpend calls cases hash call id now).Accepted calls cases hash
          userId codeHash call' → s.Accepted calls cases hash userId codeHash call' := by
        intro call' hcall'
        rw [hstate] at hcall'
        have hspending : Function.update s.spending call (SpendPhase.finished true) call' =
            .finished true := hcall'.1
        by_cases hsame : call' = call
        · rw [hsame] at hcall'
          exact absurd hcall'.2 hcode
        · rw [Function.update_of_ne hsame] at hspending
          exact ⟨hspending, hcall'.2⟩
      intro call₁ hcall₁
      obtain ⟨honly, hgone⟩ := h call₁ (hother call₁ hcall₁)
      exact ⟨fun call' hcall' => honly call' (hother call' hcall'),
        fun r hr => hgone r (hfewer.subset hr)⟩
  · have hstate : s.finishSpend calls cases hash call id now =
      s.setSpending call (.finished false) :=
      if_neg hfound
    rw [hstate]
    exact h.mono (accepted_setSpending (by decide)) (List.Sublist.refl _)

/-- **One step.** Without a replacement of the account that commits, a code stays spent once. -/
theorem SpentOnce.step (h : s.SpentOnce calls cases hash userId codeHash)
    (he : NoCommit calls userId e) :
    (s.step calls cases hash e).SpentOnce calls cases hash userId codeHash := by
  cases e with
  | commit call =>
    unfold RecoveryState.step
    dsimp only
    split
    · next found ids hphase =>
      split
      · exact h.mono (fun _ h => h) (List.Sublist.refl _)
      · next codes hcodes =>
        refine h.mono (fun _ h => h) ?_
        have husable := usable_replaced userId hcodes
        have hother : calls.replacer call ≠ userId := he
        rw [if_neg hother, List.append_nil] at husable
        rw [usable, husable]
        exact List.filter_sublist
    · exact h
  | delete call =>
    unfold RecoveryState.step
    dsimp only
    split
    · exact h
    · exact h
  | insert call ids =>
    unfold RecoveryState.step
    dsimp only
    split
    · exact h
    · exact h
  | abort call => exact h
  | spend call =>
    unfold RecoveryState.step startSpend
    dsimp only
    split
    · split
      · exact h.mono (accepted_setSpending (by decide)) (List.Sublist.refl _)
      · exact h.mono (accepted_setSpending nofun) (List.Sublist.refl _)
    · exact h
  | write call now =>
    unfold RecoveryState.step
    dsimp only
    split
    · exact h.finishSpend _ _ _
    · exact h

/-- **One run.** Without a replacement of the account that commits, two accepted calls with
spellings of one code are the same call. -/
theorem call_eq_of_accepted (hfresh : ∀ call, s.spending call ≠ .finished true)
    {es : List (RecoveryEvent ι κ)} (hes : ∀ e ∈ es, NoCommit calls userId e) {call call' : κ}
    (hcall : (run (RecoveryState.step calls cases hash) s es).spending call = .finished true)
    (hcall' : (run (RecoveryState.step calls cases hash) s es).spending call' = .finished true)
    (huser : calls.spender call = userId) (huser' : calls.spender call' = userId)
    (hsame : normaliseRecoveryCode cases (calls.typed call) =
      normaliseRecoveryCode cases (calls.typed call')) : call = call' := by
  have hstart : s.SpentOnce calls cases hash userId (hashOfTyped cases hash (calls.typed call)) :=
    fun other hother => absurd hother.1 (hfresh other)
  have hlast := run_of_step (I := SpentOnce calls cases hash userId _)
    (P := fun _ e => NoCommit calls userId e) (fun _ _ h he => h.step he) hstart
    (along_of_forall hes)
  have hhash : hashOfTyped cases hash (calls.typed call') =
      hashOfTyped cases hash (calls.typed call) := congrArg hash hsame.symm
  exact (hlast call' ⟨hcall', huser', hhash⟩).1 call ⟨hcall, huser, rfl⟩

/-- **Recovery codes.** Normalising twice is normalising once, except where removing separators
brings the halves of a letter together that has an upper case; every spelling of a generated
code is normalised like the code, and distinct codes are not; and of the calls of `spend` with
spellings of one code at most one is accepted. -/
theorem recoveryCodes_law (cases : UpperCase) (hash : Units → List Char)
    (calls : RecoveryCalls ι κ) :
    (∀ code, normaliseRecoveryCode cases (normaliseRecoveryCode cases code) =
        normaliseRecoveryCode cases code ↔ JoinsCaseless cases code) ∧
      (∀ draws typed, Spells (generateRecoveryCode draws) typed →
        normaliseRecoveryCode cases (units typed) =
          normaliseRecoveryCode cases (units (generateRecoveryCode draws))) ∧
      (∀ draws draws', generateRecoveryCode draws ≠ generateRecoveryCode draws' →
        normaliseRecoveryCode cases (units (generateRecoveryCode draws)) ≠
          normaliseRecoveryCode cases (units (generateRecoveryCode draws'))) ∧
      ∀ (s : RecoveryState ι κ) (es : List (RecoveryEvent ι κ)) (userId : Uuid),
        (∀ call, s.spending call ≠ .finished true) → (∀ e ∈ es, NoCommit calls userId e) →
          ∀ call call',
            (run (RecoveryState.step calls cases hash) s es).spending call = .finished true →
            (run (RecoveryState.step calls cases hash) s es).spending call' = .finished true →
            calls.spender call = userId → calls.spender call' = userId →
            normaliseRecoveryCode cases (calls.typed call) =
              normaliseRecoveryCode cases (calls.typed call') → call = call' := by
  refine ⟨normaliseRecoveryCode_normalise_iff cases,
    fun draws typed hspells => normaliseRecoveryCode_spells cases hspells,
    fun draws draws' hne hsame => hne ?_, ?_⟩
  · rw [draws_eq_of_normalise_eq cases hsame]
  · intro s es userId hfresh hes call call' hcall hcall' huser huser' hsame
    exact call_eq_of_accepted hfresh hes hcall hcall' huser huser' hsame

/-- `1111-1111-1111`. -/
def allOnes : RecoveryDraws := fun _ _ => ⟨1, by decide⟩

/-- A code, typed twice in spellings of its own. -/
def typedTwice : RecoveryCalls Bool Bool where
  replacer _ := 0
  draws _ _ := allOnes
  spender _ := 7
  typed call := units (if call then "1111-1111-1111".toList else " llll iiii llll ".toList)

/-- An account that holds the code. -/
def oneCode : RecoveryState Bool Bool where
  codes := ⟨[⟨3, 7, "111111111111".toList, none⟩], List.pairwise_singleton _ _⟩
  replacement _ := .waiting
  spending _ := .waiting

/-- Both find the code before either spends it. -/
theorem recoveryCodes_law_typedTwice :
    normaliseRecoveryCode deseretCase (units (' ' :: generateRecoveryCode allOnes)) =
        normaliseRecoveryCode deseretCase (units (generateRecoveryCode allOnes)) ∧
      ∀ call call' : Bool,
        (run (RecoveryState.step typedTwice deseretCase plainHash) oneCode
          [.spend true, .spend false, .write true 5, .write false 6]).spending call =
            .finished true →
        (run (RecoveryState.step typedTwice deseretCase plainHash) oneCode
          [.spend true, .spend false, .write true 5, .write false 6]).spending call' =
            .finished true →
        normaliseRecoveryCode deseretCase (typedTwice.typed call) =
          normaliseRecoveryCode deseretCase (typedTwice.typed call') → call = call' := by
  obtain ⟨_, hspells, _, hspends⟩ := recoveryCodes_law deseretCase plainHash typedTwice
  refine ⟨hspells _ _ (Relation.ReflTransGen.single (.insert [] _ (by decide))), ?_⟩
  intro call call' hcall hcall' hsame
  refine hspends oneCode _ 7 (fun _ h => nomatch h) (fun e he => ?_) call call' hcall hcall' rfl rfl
    hsame
  simp only [List.mem_cons, List.not_mem_nil, or_false] at he
  rcases he with rfl | rfl | rfl | rfl
  · trivial
  · trivial
  · trivial
  · trivial

end Spends

end RecoveryState

end Results

end SilenceWatch
