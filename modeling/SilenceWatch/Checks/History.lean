import Mathlib.Algebra.Group.Nat.Defs
import Mathlib.Data.Prod.Lex
import SilenceWatch.Access.ProjectAccess
import SilenceWatch.Library.Numerals
import SilenceWatch.Library.Paging

/-!
# Lists of checks, pings and incidents

The pages of `ChecksController`: the access check, the query of `ChecksRepository` with one
row more than the page holds, and the page with the cursor of the next one. Instants are
milliseconds, also where the page writes them out as text.
-/

namespace SilenceWatch

open Relational

/-- `PageDto`. -/
structure Page (Dto : Type) where
  items : List Dto
  nextCursor : Option String
  deriving DecidableEq

/-- `paginate`: the extra row only says there is more, and its predecessor's id becomes the
cursor for the next request. -/
def paginate {Row Dto : Type} (idText : Row → String) (rows : List Row) (limit : ℕ)
    (map : Row → Dto) : Page Dto :=
  let hasMore := limit < rows.length
  let page := if hasMore then rows.take limit else rows
  { items := page.map map
    nextCursor := if hasMore then page.getLast?.map idText else none }

/-- `parseBigIntCursor`: one to nineteen digits, and anything else is treated as no cursor. -/
def parseBigIntCursor (cursor : Option String) : Option ℕ :=
  cursor.bind fun text =>
    let digits := text.toList
    if 1 ≤ digits.length ∧ digits.length ≤ 19 ∧ digits.all Char.isDigit then
      some (digits.foldl (fun n c => 10 * n + (c.toNat - '0'.toNat)) 0)
    else none

/-- What the database refuses a query for. -/
inductive QueryError where
  /-- A number does not fit the type of the column it is compared with. -/
  | valueOutOfRange
  deriving DecidableEq

/-- A `bigint` column can hold the number. -/
def FitsBigint (n : ℕ) : Prop := n < 2 ^ 63
  deriving Decidable

/-- The cursor of a query as the database takes it. -/
def bindBigint (cursor : Option ℕ) : Except QueryError (Option ℕ) :=
  if ∀ n ∈ cursor, FitsBigint n then .ok cursor else .error .valueOutOfRange

/-- The value of a hexadecimal digit. -/
def hexValue (c : Char) : ℕ :=
  if c.isDigit then c.toNat - '0'.toNat
  else if 'a' ≤ c then c.toNat - 'a'.toNat + 10
  else c.toNat - 'A'.toNat + 10

/-- The id that a text names, if it matches `UUID`. -/
def uuidOf? (text : String) : Option Uuid :=
  let groups := text.toList.splitOn '-'
  if groups.map List.length = [8, 4, 4, 4, 12] ∧ groups.flatten.all Numeral.isHexDigit then
    some (groups.flatten.foldl (fun n c => 16 * n + hexValue c) 0)
  else none

/-- `parseUuidCursor`. -/
def parseUuidCursor (cursor : Option String) : Option Uuid := cursor.bind uuidOf?

/-- The last digits of a number, in hexadecimal. -/
def hexDigits : ℕ → ℕ → List Char
  | 0, _ => []
  | width + 1, n => hexDigits width (n / 16) ++ [(n % 16).digitChar]

/-- The text of an id. -/
def uuidText (id : Uuid) : String :=
  let group := fun (width after : ℕ) => hexDigits width (id / 16 ^ after)
  String.ofList (['-'].intercalate
    [group 8 24, group 4 20, group 4 16, group 4 12, group 12 0])

/-- `historyQuerySchema`. -/
structure HistoryQuery where
  limit : ℕ
  cursor : Option String
  one_le_limit : 1 ≤ limit
  limit_le : limit ≤ 200

/-- `listChecksQuerySchema`, which accepts a uuid as cursor only. -/
structure ListChecksQuery where
  state : Option CheckState
  environment : Option String
  tag : Option String
  search : Option String
  orphaned : Option Bool
  limit : ℕ
  cursor : Option Uuid
  one_le_limit : 1 ≤ limit
  limit_le : limit ≤ 200

/-- `CheckDto`. -/
structure CheckDto extends Schedule where
  id : Uuid
  projectId : Uuid
  name : String
  slug : String
  key : Option String
  pingKey : Uuid
  pingUrl : String
  pausedReason : Option PausedReason
  graceSeconds : ℤ
  state : CheckState
  lastPingAt : Option ℤ
  lastDurationMs : Option ℤ
  nextDueAt : Option ℤ
  source : CheckSource
  environment : Option String
  tags : List String
  orphanedAt : Option ℤ
  createdAt : ℤ
  deriving DecidableEq

/-- `PingDto`, whose id is text. -/
structure PingDto where
  id : String
  checkId : Uuid
  receivedAt : ℤ
  kind : PingKind
  exitCode : Option ℤ
  durationMs : Option ℤ
  body : Option String
  sourceIp : Option String
  userAgent : Option String
  deriving DecidableEq

/-- `IncidentDto`. -/
structure IncidentDto where
  id : Uuid
  checkId : Uuid
  startedAt : ℤ
  resolvedAt : Option ℤ
  deriving DecidableEq

/-- `toCheckDto`. -/
def toCheckDto (check : Check) (baseUrl : String) : CheckDto where
  toSchedule := check.toSchedule
  id := check.id
  projectId := check.projectId
  name := check.name
  slug := check.slug
  key := check.key
  pingKey := check.pingKey
  pingUrl := baseUrl ++ "/p/" ++ uuidText check.pingKey
  pausedReason := check.pausedReason
  graceSeconds := check.graceSeconds
  state := check.state
  lastPingAt := check.lastPingAt
  lastDurationMs := check.lastDurationMs
  nextDueAt := check.nextDueAt
  source := check.source
  environment := check.environment
  tags := check.tags
  orphanedAt := check.orphanedAt
  createdAt := check.createdAt

/-- `toPingDto`. -/
def toPingDto (ping : Ping) : PingDto where
  id := toString ping.id
  checkId := ping.checkId
  receivedAt := ping.receivedAt
  kind := ping.kind
  exitCode := ping.exitCode
  durationMs := ping.durationMs
  body := ping.body
  sourceIp := ping.sourceIp
  userAgent := ping.userAgent

/-- `toIncidentDto`. -/
def toIncidentDto (incident : Incident) : IncidentDto where
  id := incident.id
  checkId := incident.checkId
  startedAt := incident.startedAt
  resolvedAt := incident.resolvedAt

/-- The condition of `list`; `ILIKE` is the database's. -/
def ListChecksQuery.Selects (query : ListChecksQuery) (iLike : String → String → Bool)
    (projectIds : List Uuid) (c : Check) : Prop :=
  c.projectId ∈ projectIds ∧
    (∀ state ∈ query.state, c.state = state) ∧
    (∀ environment ∈ query.environment, c.environment = some environment) ∧
    (∀ tag ∈ query.tag, tag ∈ c.tags) ∧
    (∀ orphaned ∈ query.orphaned, c.orphanedAt.isSome = orphaned) ∧
    ∀ search ∈ query.search, iLike c.name search = true
  deriving Decidable

/-- Where a check stands in lists: `createdAt desc, id desc`. -/
def Check.place (c : Check) : ℤ ×ₗ ℕ := toLex (c.createdAt, c.id)

/-- Where a ping stands in the history of its check: `receivedAt desc, id desc`. -/
def Ping.place (p : Ping) : ℤ ×ₗ ℕ := toLex (p.receivedAt, p.id)

/-- Where an incident stands in the history of its check: `startedAt desc, id desc`. -/
def Incident.place (i : Incident) : ℤ ×ₗ ℕ := toLex (i.startedAt, i.id)

namespace Database

/-- `ChecksRepository.list`. -/
def listChecks (db : Database) (iLike : String → String → Bool) (projectIds : List Uuid)
    (query : ListChecksQuery) : List Check :=
  findMany (query.Selects iLike projectIds) Check.place Check.id query.cursor (query.limit + 1)
    db.checks.rows

/-- `ChecksRepository.listPings`. -/
def listPings (db : Database) (checkId : Uuid) (limit : ℕ) (cursorId : Option ℕ) : List Ping :=
  findMany (fun p => p.checkId = checkId) Ping.place Ping.id cursorId (limit + 1) db.pings.rows

/-- `ChecksRepository.listIncidents`. -/
def listIncidents (db : Database) (checkId : Uuid) (limit : ℕ) (cursor : Option Uuid) :
    List Incident :=
  findMany (fun i => i.checkId = checkId) Incident.place Incident.id cursor (limit + 1)
    db.incidents.rows

end Database

namespace ChecksService

/-- `ChecksService.list`. -/
def list (baseUrl : String) (iLike : String → String → Bool) (db : Database)
    (projectIds : List Uuid) (query : ListChecksQuery) : Page CheckDto :=
  if projectIds.length = 0 then ⟨[], none⟩
  else
    let rows := db.listChecks iLike projectIds query
    paginate (fun check => uuidText check.id) rows query.limit fun check =>
      toCheckDto check baseUrl

/-- `ChecksService.listPings`. -/
def listPings (db : Database) (checkId : Uuid) (limit : ℕ) (cursor : Option String) :
    Except QueryError (Page PingDto) :=
  (bindBigint (parseBigIntCursor cursor)).map fun cursorId =>
    let rows := db.listPings checkId limit cursorId
    paginate (fun ping => toString ping.id) rows limit toPingDto

/-- `ChecksService.listIncidents`. -/
def listIncidents (db : Database) (checkId : Uuid) (limit : ℕ) (cursor : Option String) :
    Page IncidentDto :=
  let rows := db.listIncidents checkId limit (parseUuidCursor cursor)
  paginate (fun incident => uuidText incident.id) rows limit toIncidentDto

end ChecksService

/-- What a history is refused for. -/
inductive HistoryError where
  | access (error : AccessError)
  | query (error : QueryError)
  deriving DecidableEq

namespace ChecksController

/-- `GET checks`. -/
def list (baseUrl : String) (iLike : String → String → Bool) (db : Database)
    (principal : Principal) (query : ListChecksQuery) : Page CheckDto :=
  ChecksService.list baseUrl iLike db (db.visibleProjectIds principal) query

/-- `GET checks/:checkId/pings`. -/
def pings (db : Database) (principal : Principal) (checkId : Uuid) (query : HistoryQuery) :
    Except HistoryError (Page PingDto) := do
  let _ ← (db.assertCheckAccess principal checkId .member).mapError .access
  (ChecksService.listPings db checkId query.limit query.cursor).mapError .query

/-- `GET checks/:checkId/incidents`. -/
def incidents (db : Database) (principal : Principal) (checkId : Uuid) (query : HistoryQuery) :
    Except AccessError (Page IncidentDto) :=
  (db.assertCheckAccess principal checkId .member).map fun _ =>
    ChecksService.listIncidents db checkId query.limit query.cursor

end ChecksController

example : parseUuidCursor (some (uuidText 0x0b9f1c3e4c1a4f6e9d2a7b8c9d0e1f2a)) =
    some 0x0b9f1c3e4c1a4f6e9d2a7b8c9d0e1f2a := by
  decide

end SilenceWatch
