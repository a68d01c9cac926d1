import SilenceWatch.Checks.History
import SilenceWatch.Library.Numerals

/-!
# The audit trail

The two lists of `AuditService`: the events of a project, and those of an account that belong
to no project. Both are pages in the order of ids, from the newest down, and their cursor is
an id, which the database compares with a `bigint` column.
-/

namespace SilenceWatch

open Relational

/-- A row of `audit_event`. -/
structure AuditEvent (Detail : Type) where
  id : ℕ
  occurredAt : ℤ
  action : String
  actorUserId : Option Uuid
  actorEmail : Option String
  actorApiKeyId : Option Uuid
  projectId : Option Uuid
  targetType : Option String
  targetId : Option String
  targetLabel : Option String
  ip : Option String
  detail : Option Detail

/-- `AuditEventDto`. -/
structure AuditEventDto (Detail : Type) where
  id : String
  occurredAt : ℤ
  action : String
  actorEmail : Option String
  actorIsApiKey : Bool
  targetType : Option String
  targetId : Option String
  targetLabel : Option String
  ip : Option String
  detail : Option Detail

/-- `BigInt`, of decimal digits. -/
def bigIntOf (text : String) : ℕ := Numeral.value 10 text.toList

/-- One to nineteen decimal digits. -/
def IsDigitCursor (text : String) : Prop :=
  1 ≤ text.toList.length ∧ text.toList.length ≤ 19 ∧ text.toList.all Char.isDigit
  deriving Decidable

/-- `parseCursor` of the audit controller: anything unusable is treated as no cursor at all. -/
def AuditController.parseCursor (raw : Option String) : Option String :=
  raw.filter fun text => IsDigitCursor text

variable {Detail : Type}

/-- `toDto` of the audit service. -/
def AuditEvent.toDto (row : AuditEvent Detail) : AuditEventDto Detail where
  id := toString row.id
  occurredAt := row.occurredAt
  action := row.action
  actorEmail := row.actorEmail
  actorIsApiKey := row.actorApiKeyId.isSome
  targetType := row.targetType
  targetId := row.targetId
  targetLabel := row.targetLabel
  ip := row.ip
  detail := row.detail

namespace AuditService

/-- A page of the events that a list is about, newest first, below the cursor. -/
def page (about : AuditEvent Detail → Prop) [DecidablePred about]
    (events : List (AuditEvent Detail))
    (limit : ℕ) (cursor : Option String) : Except QueryError (Page (AuditEventDto Detail)) := do
  let cursor ← bindBigint (cursor.map bigIntOf)
  let rows := findMany (fun e => about e ∧ ∀ last ∈ cursor, e.id < last) AuditEvent.id AuditEvent.id
    none (limit + 1) events
  return paginate (fun e => toString e.id) rows limit AuditEvent.toDto

/-- `listForProject`. -/
def listForProject (events : List (AuditEvent Detail)) (projectId : Uuid) (limit : ℕ)
    (cursor : Option String) : Except QueryError (Page (AuditEventDto Detail)) :=
  page (fun e => e.projectId = some projectId) events limit cursor

/-- `listForUser`: events about an account itself, which belong to no project. -/
def listForUser (events : List (AuditEvent Detail)) (userId : Uuid) (limit : ℕ)
    (cursor : Option String) : Except QueryError (Page (AuditEventDto Detail)) :=
  page (fun e => e.actorUserId = some userId ∧ e.projectId = none) events limit cursor

/-- The database answers exactly if the cursor fits the column. -/
theorem page_ok_iff {about : AuditEvent Detail → Prop} [DecidablePred about]
    {events : List (AuditEvent Detail)} {limit : ℕ} {cursor : Option String} :
    (∃ answer, page about events limit cursor = .ok answer) ↔
      ∀ text ∈ cursor, FitsBigint (bigIntOf text) := by
  unfold page bindBigint
  by_cases hfits : ∀ n ∈ cursor.map bigIntOf, FitsBigint n
  · rw [if_pos hfits]
    refine iff_of_true ⟨_, rfl⟩ fun text htext => hfits _ ?_
    rw [htext]
    rfl
  · rw [if_neg hfits]
    apply iff_of_false
    · rintro ⟨answer, hanswer⟩
      cases hanswer
    · intro htexts
      apply hfits
      intro n hn
      obtain ⟨text, htext, rfl⟩ := Option.map_eq_some_iff.mp hn
      exact htexts text htext

end AuditService

end SilenceWatch
