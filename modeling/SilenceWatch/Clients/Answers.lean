import SilenceWatch.Checks.Schema
import SilenceWatch.Checks.Slug
import SilenceWatch.Checks.Walks
import SilenceWatch.Library.JsonSize

/-!
# Answers to declarations

`POST /api/v1/checks/sync` answers with the ping key of every check, and with the keys that it
flagged or refused. The clients discard what is longer than a bound of theirs. How long an
answer gets is a sum over the keys of the payload and of the database.
-/

namespace SilenceWatch

open Json (Measure NumberFormat Units Value units)

/-- The format of numbers, of which an answer has none. -/
def noNumbers : NumberFormat Unit where
  print _ := ['0']
  read _ := ()
  isLiteral_print _ := rfl
  read_print _ := rfl

/-- A text as a value. -/
def jsonText (text : String) : Value Unit := .string (units text.toList)

/-- One check of a `SyncResultDto`. -/
def UpsertedCheck.toJson (baseUrl : String) (row : UpsertedCheck) : Value Unit :=
  .object
    [(units "key".toList, jsonText row.key),
      (units "id".toList, jsonText (uuidText row.id)),
      (units "pingKey".toList, jsonText (uuidText row.pingKey)),
      (units "pingUrl".toList, jsonText (baseUrl ++ "/p/" ++ uuidText row.pingKey)),
      (units "created".toList, .bool row.created)]

/-- What `syncWithinQuota` returns, as `SyncResultDto`. -/
def SyncResult.toJson (baseUrl : String) (result : SyncResult) : Value Unit :=
  .object
    ([(units "checks".toList, .array (result.checks.map (UpsertedCheck.toJson baseUrl))),
        (units "orphaned".toList, .array (result.orphaned.map jsonText))] ++
      if result.skipped.isEmpty then []
      else [(units "skipped".toList, .array (result.skipped.map jsonText))])

/-- The text of the response. -/
def SyncResult.text (baseUrl : String) (result : SyncResult) : List Char :=
  Json.print noNumbers (result.toJson baseUrl)

/-- `_MAX_RESPONSE_BYTES`. -/
def Python.maxResponseBytes : ℕ := 256 * 1024

/-- The part of `sync` that reads the response. -/
def Python.readResponse (body : List UInt8) : Option (List UInt8) :=
  let raw := body.take (maxResponseBytes + 1)
  if maxResponseBytes < raw.length then none else some raw

/-- `MAX_RESPONSE_CHARS`. -/
def Java.maxResponseChars : ℕ := 256 * 1024

/-- The body of a response as `parsePingKeys` goes on with it. -/
def Java.readResponse (body : List UInt8) : Option Units :=
  let body := units (Utf8.decode body)
  if maxResponseChars < body.length then none else some body

/-- The Python client goes on with the whole text. -/
def Python.Reads (text : List Char) : Prop :=
  readResponse (Utf8.encode text) = some (Utf8.encode text)

/-- The Java client goes on with the whole text. -/
def Java.Reads (text : List Char) : Prop :=
  readResponse (Utf8.encode text) = some (units text)

section Size

variable (m : Measure) (baseUrl : String)

/-- The size of keys in an array, without its brackets. -/
def keysSize (keys : List String) : ℕ :=
  (keys.map fun key => m.quoted key.toList).sum + (keys.length - 1)

/-- The size of a check in an answer. Its two ids have 36 characters each, and its address
has one of them again. -/
def checkSize (key : String) (created : Bool) : ℕ :=
  164 + m.quoted key.toList + (baseUrl.toList.map m.escaped).sum + if created then 4 else 5

theorem sum_escaped_hexDigits (width n : ℕ) :
    ((hexDigits width n).map m.escaped).sum = width := by
  have hplain : (hexDigits width n).all Measure.isPlain = true :=
    List.all_eq_true.mpr fun c hc =>
      forall_mem_hexDigits (P := fun c => Measure.isPlain c = true) (by decide) hc
  rw [m.sum_escaped_plain hplain, length_hexDigits]

theorem sum_escaped_uuidText (id : Uuid) : ((uuidText id).toList.map m.escaped).sum = 36 := by
  have hdash : m.escaped '-' = 1 := m.escaped_plain rfl
  unfold uuidText
  rw [String.toList_ofList]
  simp only [List.intercalate, List.intersperse, List.flatten_cons, List.flatten_nil,
    List.map_append, List.sum_append, sum_escaped_hexDigits, List.map_cons, List.map_nil,
    List.sum_cons, List.sum_nil, hdash]
  omega

theorem of_print_text (text : String) :
    m.of (Json.print noNumbers (jsonText text)) = m.quoted text.toList :=
  Json.of_print_string noNumbers m text.toList

/-- The keys of objects are plain. -/
theorem of_escape_plain (key : String) (h : key.toList.all Measure.isPlain = true) :
    m.of (Json.escape (units key.toList)) = key.toList.length := by
  rw [Json.of_escape, m.sum_escaped_plain h]

/-- An array of texts. -/
theorem of_print_texts (keys : List String) :
    m.of (Json.print noNumbers (.array (keys.map jsonText))) = 2 + keysSize m keys := by
  rw [Json.of_print_array, List.map_map, List.length_map, keysSize, ← Nat.add_assoc]
  congr 3
  exact List.map_congr_left fun key _ => of_print_text m key

theorem of_print_check (row : UpsertedCheck) :
    m.of (Json.print noNumbers (row.toJson baseUrl)) = checkSize m baseUrl row.key row.created := by
  have hid (id : Uuid) : m.quoted (uuidText id).toList = 38 := by
    rw [Measure.quoted, sum_escaped_uuidText]
  have hpath : (("/p/".toList).map m.escaped).sum = 3 := m.sum_escaped_plain rfl
  have haddress : m.quoted (baseUrl ++ "/p/" ++ uuidText row.pingKey).toList =
      41 + (baseUrl.toList.map m.escaped).sum := by
    rw [Measure.quoted, String.toList_append, String.toList_append, List.map_append,
      List.map_append, List.sum_append, List.sum_append, hpath, sum_escaped_uuidText]
    omega
  have hkey : m.of (Json.escape (units "key".toList)) = 3 := of_escape_plain m "key" rfl
  have hidKey : m.of (Json.escape (units "id".toList)) = 2 := of_escape_plain m "id" rfl
  have hpingKey : m.of (Json.escape (units "pingKey".toList)) = 7 :=
    of_escape_plain m "pingKey" rfl
  have hpingUrl : m.of (Json.escape (units "pingUrl".toList)) = 7 :=
    of_escape_plain m "pingUrl" rfl
  have hcreated : m.of (Json.escape (units "created".toList)) = 7 :=
    of_escape_plain m "created" rfl
  rw [UpsertedCheck.toJson, Json.of_print_object]
  simp only [List.map_cons, List.map_nil, List.sum_cons, List.sum_nil, Json.sizeOfMember,
    of_print_text, Json.of_print_bool, hid, haddress, hkey, hidKey, hpingKey, hpingUrl, hcreated,
    List.length_cons, List.length_nil, checkSize]
  omega

/-- A property with an array of texts. -/
theorem sizeOfMember_texts (name : String) (h : name.toList.all Measure.isPlain = true)
    (keys : List String) :
    Json.sizeOfMember noNumbers m (units name.toList, .array (keys.map jsonText)) =
      5 + name.toList.length + keysSize m keys := by
  rw [Json.sizeOfMember, of_escape_plain m name h, of_print_texts]
  omega

theorem sizeOfMember_checks (rows : List UpsertedCheck) :
    Json.sizeOfMember noNumbers m
        (units "checks".toList, .array (rows.map (UpsertedCheck.toJson baseUrl))) =
      11 + (rows.map fun row => checkSize m baseUrl row.key row.created).sum +
        (rows.length - 1) := by
  have hname : m.of (Json.escape (units "checks".toList)) = 6 := of_escape_plain m "checks" rfl
  have hsizes : (rows.map (UpsertedCheck.toJson baseUrl)).map
      (fun value => m.of (Json.print noNumbers value)) =
        rows.map fun row => checkSize m baseUrl row.key row.created := by
    rw [List.map_map]
    exact List.map_congr_left fun row _ => of_print_check m baseUrl row
  rw [Json.sizeOfMember, hname, Json.of_print_array, hsizes, List.length_map]
  omega

/-- **The size of a response.** -/
theorem of_text (result : SyncResult) :
    m.of (result.text baseUrl) =
      27 + (result.checks.map fun row => checkSize m baseUrl row.key row.created).sum +
        (result.checks.length - 1) + keysSize m result.orphaned +
        if result.skipped = [] then 0 else 13 + keysSize m result.skipped := by
  have horphaned := sizeOfMember_texts m "orphaned" rfl result.orphaned
  have hskipped := sizeOfMember_texts m "skipped" rfl result.skipped
  have hchecks := sizeOfMember_checks m baseUrl result.checks
  have hlengths : "orphaned".toList.length = 8 ∧ "skipped".toList.length = 7 := ⟨rfl, rfl⟩
  rw [hlengths.1] at horphaned
  rw [hlengths.2] at hskipped
  rw [SyncResult.text, SyncResult.toJson, Json.of_print_object, List.map_append, List.sum_append,
    List.length_append, List.map_cons, List.map_cons, List.map_nil, List.sum_cons, List.sum_cons,
    List.sum_nil, hchecks, horphaned]
  by_cases hempty : result.skipped = []
  · rw [if_pos hempty, if_pos (List.isEmpty_iff.mpr hempty), List.map_nil, List.sum_nil]
    simp only [List.length_cons, List.length_nil]
    omega
  · rw [if_neg hempty, if_neg fun h => hempty (List.isEmpty_iff.mp h), List.map_singleton,
      List.sum_singleton, hskipped]
    simp only [List.length_cons, List.length_nil]
    omega

end Size

section Reading

variable {text : List Char}

theorem Python.reads_iff : Python.Reads text ↔ Json.utf8.of text ≤ 256 * 1024 := by
  unfold Python.Reads Python.readResponse Python.maxResponseBytes
  dsimp only
  rw [List.length_take, Measure.of_utf8]
  constructor
  · intro h
    split at h
    · cases h
    · omega
  · intro h
    rw [if_neg (by omega), List.take_of_length_le (by omega)]

theorem Java.reads_iff : Java.Reads text ↔ Json.utf16.of text ≤ 256 * 1024 := by
  have hdecode : Utf8.decode (Utf8.encode text) = text := Utf8.decode_encode text
  unfold Java.Reads Java.readResponse Java.maxResponseChars
  rw [hdecode, Measure.of_utf16]
  dsimp only
  constructor
  · intro h
    split at h
    · cases h
    · omega
  · exact fun h => if_neg (Nat.not_lt.mpr h)

/-- What the Python client takes has no more code units than bytes. -/
theorem Python.Reads.java (h : Python.Reads text) : Java.Reads text :=
  Java.reads_iff.mpr (Nat.le_trans (Measure.of_utf16_le text) (Python.reads_iff.mp h))

end Reading

section Answer

variable {quotas : QuotaConfig} {cron : CronParser} {syncSlug : SyncSlug} {now : ℤ}
  {projectId : Uuid} {request : SyncRequest} {generated : String → Uuid × Uuid}
  {db db' : Database} {result : SyncResult} {rows accepted : List SyncRow}

/-- The keys that a declaration flags: of the checks that were declared in its environment,
those that it does not name. -/
def SyncRequest.orphans (db : Database) (projectId : Uuid) (request : SyncRequest) :
    List String :=
  (db.checks.rows.filter fun c =>
    request.prune ∧ c.Orphaned projectId request.environment request.keys).filterMap Check.key

/-- The size of the answer to a declaration, from the payload and the database before it. -/
def SyncRequest.answerSize (m : Measure) (quotas : QuotaConfig) (baseUrl : String) (db : Database)
    (projectId : Uuid) (request : SyncRequest) : ℕ :=
  let skipped := request.beyondQuota quotas db projectId
  let accepted := request.keys.filter fun key => key ∉ skipped
  27 + (accepted.map fun key =>
      checkSize m baseUrl key ¬ DeclaredIn projectId request.environment key db.checks.rows).sum +
    (accepted.length - 1) + keysSize m (request.orphans db projectId) +
    if skipped = [] then 0 else 13 + keysSize m skipped

/-- What the upsert says of a row of the payload. -/
theorem SyncRow.upsertedCheck_created (projectId : Uuid) (environment : Option String)
    (generated : String → Uuid × Uuid) (checks : List Check) (row : SyncRow) :
    (row.upsertedCheck projectId environment generated checks).key = row.key ∧
      (row.upsertedCheck projectId environment generated checks).created =
        decide (¬ DeclaredIn projectId environment row.key checks) := by
  unfold SyncRow.upsertedCheck
  cases hfind : checks.find? (Check.DeclaredAs projectId environment row.key) with
  | none =>
    refine ⟨rfl, (decide_eq_true ?_).symm⟩
    rintro ⟨c, hc, hdeclared⟩
    exact List.find?_eq_none.mp hfind c hc (decide_eq_true hdeclared)
  | some existing =>
    refine ⟨rfl, (decide_eq_false (not_not.mpr ⟨existing, ?_, ?_⟩)).symm⟩
    · exact List.mem_of_find?_eq_some hfind
    · simpa using List.find?_some hfind

namespace Synced

variable (hs : Synced quotas cron syncSlug now projectId request generated db db' result
  rows accepted)

include hs

/-- A row that the payload declares is not flagged, before its upsert or after. -/
theorem orphaned_eq : result.orphaned = request.orphans db projectId := by
  have hkey (c : Check) : (c.upserted projectId request.environment accepted).key = c.key := by
    unfold Check.upserted
    split <;> rfl
  have hsame (c : Check) : (c.upserted projectId request.environment accepted).Orphaned projectId
      request.environment request.keys ↔
        c.Orphaned projectId request.environment request.keys := by
    by_cases hnamed : ∃ key ∈ c.key, key ∈ request.keys
    · obtain ⟨key, hc, hmem⟩ := hnamed
      have hnot (c' : Check) (hc' : c'.key = some key) :
          ¬ c'.Orphaned projectId request.environment request.keys := by
        rintro ⟨-, -, -, -, key', hkey', hunnamed⟩
        obtain rfl : key' = key := Option.some.inj (hkey'.symm.trans hc')
        exact hunnamed hmem
      exact iff_of_false (hnot _ ((hkey c).trans hc)) (hnot _ hc)
    · rw [hs.upserted_of_unnamed fun key hc hmem => hnamed ⟨key, hc, hmem⟩]
  rw [hs.orphaned, SyncRequest.orphans, List.filter_map, List.filterMap_map]
  simp only [Function.comp_def, hsame, hkey]

/-- **The answer has the size that its declaration gives it.** -/
theorem of_text_eq (m : Measure) (baseUrl : String) :
    m.of (result.text baseUrl) = request.answerSize m quotas baseUrl db projectId := by
  have haccepted : accepted.map SyncRow.key =
      request.keys.filter fun key => key ∉ request.beyondQuota quotas db projectId := by
    rw [← hs.keys_eq, List.filter_map, hs.kept, hs.skipped_eq]
    rfl
  have hsizes : result.checks.map (fun row => checkSize m baseUrl row.key row.created) =
      (accepted.map SyncRow.key).map fun key => checkSize m baseUrl key
        ¬ DeclaredIn projectId request.environment key db.checks.rows := by
    rw [hs.returned, List.map_map, List.map_map]
    refine List.map_congr_left fun row _ => ?_
    obtain ⟨hkey, hcreated⟩ := row.upsertedCheck_created projectId request.environment generated
      db.checks.rows
    rw [Function.comp_apply, Function.comp_apply, hkey, hcreated]
  have hlength : result.checks.length = (accepted.map SyncRow.key).length := by
    rw [hs.returned, List.length_map, List.length_map]
  rw [of_text, hsizes, hlength, haccepted, hs.orphaned_eq, hs.skipped_eq]
  rfl

end Synced

/-- **The clients read an answer exactly if its keys leave it within their bound**: both of them
where it is in bytes, and the Java client where it is in code units. -/
theorem answer_readable_iff (baseUrl : String)
    (h : syncWithinQuota quotas cron syncSlug now projectId request generated db =
      .ok (db', result)) :
    (Python.Reads (result.text baseUrl) ∧ Java.Reads (result.text baseUrl) ↔
        request.answerSize Json.utf8 quotas baseUrl db projectId ≤ 256 * 1024) ∧
      (Java.Reads (result.text baseUrl) ↔
        request.answerSize Json.utf16 quotas baseUrl db projectId ≤ 256 * 1024) := by
  obtain ⟨rows, accepted, hs⟩ := syncWithinQuota_synced h
  have hpython : Python.Reads (result.text baseUrl) ∧ Java.Reads (result.text baseUrl) ↔
      Python.Reads (result.text baseUrl) := ⟨And.left, fun h => ⟨h, h.java⟩⟩
  rw [hpython, Python.reads_iff, Java.reads_iff, hs.of_text_eq, hs.of_text_eq]
  exact ⟨Iff.rfl, Iff.rfl⟩

/-- The address of a server. -/
def sampleBaseUrl : String := "https://watch.example.com"

theorem answer_readable_report :
    ∃ db' result, syncWithinQuota sampleServer.quotas sampleServer.cron sampleServer.syncSlug 1000 1
        (declareRequest ["report", "backup"]) (fun _ => (9, 9)) declaredDatabase =
          .ok (db', result) ∧
      (declareRequest ["report", "backup"]).answerSize Json.utf8 sampleServer.quotas sampleBaseUrl
        declaredDatabase 1 = 258 ∧
      Python.Reads (result.text sampleBaseUrl) ∧ Java.Reads (result.text sampleBaseUrl) := by
  obtain ⟨⟨db', result⟩, hsync⟩ : ∃ r, syncWithinQuota sampleServer.quotas sampleServer.cron
      sampleServer.syncSlug 1000 1 (declareRequest ["report", "backup"]) (fun _ => (9, 9))
        declaredDatabase = .ok r := ⟨_, rfl⟩
  have hsize : (declareRequest ["report", "backup"]).answerSize Json.utf8 sampleServer.quotas
      sampleBaseUrl declaredDatabase 1 = 258 := by decide
  have hreads := (answer_readable_iff sampleBaseUrl hsync).1.mpr (by rw [hsize]; decide)
  exact ⟨db', result, hsync, hsize, hreads⟩

end Answer

section Quoted

/-- A key of three hundred characters, most of them quotation marks. -/
def quotedKey (n : ℕ) : String := String.ofList (hexDigits 4 n ++ List.replicate 296 '"')

/-- An hourly job under such a key. -/
def quotedJob (n : ℕ) : SyncCheck := ⟨quotedKey n, "job", none, some 3600, none, none, none⟩

/-- As many such jobs as a payload may have. -/
def quotedRequest : SyncRequest := ⟨none, true, (List.range 500).map quotedJob⟩

/-- The number of a key. -/
def keyNumber (key : String) : ℕ :=
  (key.toList.take 4).foldl (fun n c => 16 * n + hexValue c) 0

/-- A stand-in for SHA-256 that tells these keys apart. -/
def keySha256Hex (text : String) : String :=
  String.ofList ((text.toList.filter Numeral.isHexDigit ++ List.replicate 64 '0').take 64)

theorem keyNumber_quotedKey (n : ℕ) : keyNumber (quotedKey n) = n % 16 ^ 4 := by
  unfold keyNumber quotedKey
  rw [String.toList_ofList, List.take_append_of_le_length (length_hexDigits 4 n).ge,
    List.take_of_length_le (length_hexDigits 4 n).le, foldl_hexDigits, Nat.zero_mul, Nat.zero_add]

theorem quotedKey_inj {n n' : ℕ} (hn : n < 500) (hn' : n' < 500)
    (h : keyNumber (quotedKey n) = keyNumber (quotedKey n')) : n = n' := by
  rw [keyNumber_quotedKey, keyNumber_quotedKey] at h
  omega

theorem mem_quotedKeys {key : String} :
    key ∈ quotedRequest.keys ↔ ∃ n < 500, quotedKey n = key := by
  unfold quotedRequest SyncRequest.keys
  simp only [List.map_map, List.mem_map, List.mem_range, Function.comp_apply, quotedJob]

theorem quoted_quotedKey (m : Measure) (n : ℕ) : m.quoted (quotedKey n).toList = 598 := by
  have hquote : m.escaped '"' = 2 := rfl
  rw [Measure.quoted, quotedKey, String.toList_ofList, List.map_append, List.sum_append,
    sum_escaped_hexDigits, List.map_replicate, List.sum_replicate, hquote]
  rfl

/-- The schema takes such a key as it is. -/
theorem isTrimmedString_quotedKey (n : ℕ) : IsTrimmedString 300 (quotedKey n) := by
  have hchars : ∀ c ∈ (quotedKey n).toList, isSpace c = false := by
    intro c hc
    rw [quotedKey, String.toList_ofList, List.mem_append] at hc
    rcases hc with hc | hc
    · exact forall_mem_hexDigits (P := fun c => isSpace c = false) (by decide) hc
    · rw [List.eq_of_mem_replicate hc]
      decide
  have hlength : (quotedKey n).toList.length = 300 := by
    rw [quotedKey, String.toList_ofList, List.length_append, length_hexDigits,
      List.length_replicate]
  refine ⟨?_, ?_, ?_⟩
  · unfold trimmed
    rw [strip_of_forall hchars, String.ofList_toList]
  · omega
  · omega

/-- The schema takes the payload as it is. -/
theorem syncRequestSchema_quoted (isValidTimezone : String → Bool) :
    syncRequestSchema isValidTimezone ⟨none, none, none, (List.range 500).map quotedJob⟩ =
      some quotedRequest := by
  have hjob (n : ℕ) : syncCheckSchema isValidTimezone (quotedJob n) = some (quotedJob n) := by
    have hname : trimmedString 120 "job" = some "job" := by decide
    unfold syncCheckSchema quotedJob
    simp only [trimmedString_of (isTrimmedString_quotedKey n), hname, Option.mapM_none,
      Option.mapM_some, Option.bind_eq_bind, Option.bind_some, integerWithin]
    rfl
  have hjobs : ((List.range 500).map quotedJob).mapM (syncCheckSchema isValidTimezone) =
      some ((List.range 500).map quotedJob) := by
    refine mapM_eq_some_iff.mpr (List.forall₂_same.mpr fun job hmem => ?_)
    obtain ⟨n, -, rfl⟩ := List.mem_map.mp hmem
    exact hjob n
  unfold syncRequestSchema
  rw [hjobs]
  simp only [Option.mapM_none, Option.bind_eq_bind, Option.bind_some, Option.pure_def,
    List.length_map, List.length_range]
  rfl

/-- The identities of the payload. -/
def quotedIdentities : Set (String × String) :=
  fun identity => ∃ n < 500, identity = ("", quotedKey n)

theorem keySha256Hex_length (text : String) : (keySha256Hex text).toList.length = 64 := by
  rw [keySha256Hex, String.toList_ofList, List.length_take, List.length_append,
    List.length_replicate]
  omega

theorem slugFingerprint_quotedKey (n : ℕ) :
    slugFingerprint keySha256Hex "" (quotedKey n) = hexDigits 4 n ++ List.replicate 4 '0' := by
  have hdigits : (hexDigits 4 n).filter Numeral.isHexDigit = hexDigits 4 n :=
    List.filter_eq_self.mpr fun c hc => isHexDigit_of_mem_hexDigits hc
  have hquotes : (List.replicate 296 '"').filter Numeral.isHexDigit = [] :=
    List.filter_eq_nil_iff.mpr fun c hc => by
      rw [List.eq_of_mem_replicate hc]
      decide
  have htext : ("" ++ "|" ++ quotedKey n).toList.filter Numeral.isHexDigit = hexDigits 4 n := by
    have hbar : ("" ++ "|" : String).toList.filter Numeral.isHexDigit = [] := by decide
    rw [String.toList_append, List.filter_append, hbar, List.nil_append, quotedKey,
      String.toList_ofList, List.filter_append, hdigits, hquotes, List.append_nil]
  have hlength := length_hexDigits 4 n
  rw [slugFingerprint, keySha256Hex, htext, String.toList_ofList, List.take_take,
    List.take_append, hlength, List.take_of_length_le (by omega), List.take_replicate]
  rfl

theorem quotedIdentities_injOn : quotedIdentities.InjOn fun identity =>
    slugFingerprint keySha256Hex identity.1 identity.2 := by
  rintro _ ⟨n, hn, rfl⟩ _ ⟨n', hn', rfl⟩ h
  dsimp only at h
  rw [slugFingerprint_quotedKey, slugFingerprint_quotedKey, List.append_left_inj] at h
  have hvalue := foldl_hexDigits 4 n 0
  rw [h, foldl_hexDigits] at hvalue
  obtain rfl : n = n' := by omega
  rfl

/-- A server without quotas. -/
def openServer : Server := { sampleServer with quotas := ⟨false, []⟩ }

/-- What the database generates for such a key. -/
def generatedFor (key : String) : Uuid × Uuid := (keyNumber key, keyNumber key)

/-- A payload without repetitions has its rows, if each of its jobs does. -/
theorem exists_syncRows {cron : CronParser} {syncSlug : SyncSlug} {now : ℤ}
    {environment : Option String} {seen : List String} {incoming : List SyncCheck}
    (hnodup : (incoming.map SyncCheck.key).Nodup) (hseen : ∀ job ∈ incoming, job.key ∉ seen)
    (hrow : ∀ job ∈ incoming, ∃ row, job.toRow cron syncSlug now environment = .ok row) :
    ∃ rows, syncRows cron syncSlug now environment seen incoming = .ok rows := by
  induction incoming generalizing seen with
  | nil => exact ⟨[], rfl⟩
  | cons job rest ih =>
    rw [List.map_cons, List.nodup_cons] at hnodup
    have hother : ∀ other ∈ rest, other.key ∉ job.key :: seen := by
      intro other hmem hseen'
      rcases List.mem_cons.mp hseen' with hsame | hseen'
      · exact hnodup.1 (hsame ▸ List.mem_map_of_mem hmem)
      · exact hseen other (List.mem_cons_of_mem _ hmem) hseen'
    obtain ⟨row, htoRow⟩ := hrow job List.mem_cons_self
    obtain ⟨rows, hrows⟩ := ih hnodup.2 hother fun other hmem =>
      hrow other (List.mem_cons_of_mem _ hmem)
    refine ⟨row :: rows, ?_⟩
    rw [syncRows, if_neg (hseen job List.mem_cons_self), htoRow, hrows]
    rfl

theorem quotedRequest_keys_nodup : (quotedRequest.checks.map SyncCheck.key).Nodup := by
  have hkeys : quotedRequest.checks.map SyncCheck.key = (List.range 500).map quotedKey := by
    rw [quotedRequest, List.map_map]
    rfl
  rw [hkeys]
  refine List.Nodup.map_on (fun n hn n' hn' hsame => ?_) List.nodup_range
  rw [List.mem_range] at hn hn'
  exact quotedKey_inj hn hn' (by rw [hsame])

/-- Each of its jobs has its row. -/
theorem exists_toRow_quoted (syncSlug : SyncSlug) : ∀ job ∈ quotedRequest.checks,
    ∃ row, job.toRow openServer.cron syncSlug 0 quotedRequest.environment = .ok row := by
  unfold quotedRequest
  rw [List.forall_mem_map]
  exact fun n _ => ⟨_, rfl⟩

/-- A payload that has its rows is only refused by an index. -/
theorem exists_sync_of_rows {quotas : QuotaConfig} {cron : CronParser} {syncSlug : SyncSlug}
    {now : ℤ} {projectId : Uuid} {request : SyncRequest} {generated : String → Uuid × Uuid}
    {db : Database}
    (hrows : ∃ rows, syncRows cron syncSlug now request.environment [] request.checks = .ok rows)
    (h : syncWithinQuota quotas cron syncSlug now projectId request generated db ≠
      .error .uniqueViolation) :
    ∃ db' result, syncWithinQuota quotas cron syncSlug now projectId request generated db =
      .ok (db', result) := by
  obtain ⟨rows, hrows⟩ := hrows
  unfold syncWithinQuota at h ⊢
  simp only [hrows, Bind.bind, Except.bind] at h ⊢
  split at h
  · exact absurd rfl h
  · exact ⟨_, _, rfl⟩

/-- The payload goes through. -/
theorem exists_sync_quoted : ∃ db' result,
    syncWithinQuota openServer.quotas openServer.cron (syncSlug id keySha256Hex) 0 1 quotedRequest
      generatedFor sampleDatabase = .ok (db', result) := by
  have hfresh : FreshFor sampleDatabase quotedRequest.keys generatedFor := by
    refine ⟨fun _ _ c hc => absurd hc List.not_mem_nil, fun key hkey key' hkey' hne => ?_⟩
    obtain ⟨n, hn, rfl⟩ := mem_quotedKeys.mp hkey
    obtain ⟨n', hn', rfl⟩ := mem_quotedKeys.mp hkey'
    have hapart : keyNumber (quotedKey n) ≠ keyNumber (quotedKey n') := fun hsame =>
      hne (congrArg quotedKey (quotedKey_inj hn hn' hsame))
    simp only [generatedFor]
    exact ⟨hapart, hapart⟩
  have hfree : SlugsFree openServer keySha256Hex 1 sampleDatabase id 0 quotedRequest := by
    refine slugsFree_of_derived keySha256Hex_length quotedIdentities_injOn
      (fun c hc => absurd hc List.not_mem_nil) id 0 fun key hkey => ?_
    obtain ⟨n, hn, rfl⟩ := mem_quotedKeys.mp hkey
    exact ⟨n, hn, rfl⟩
  have hrows : ∃ rows, syncRows openServer.cron (syncSlug id keySha256Hex) 0
      quotedRequest.environment [] quotedRequest.checks = .ok rows :=
    exists_syncRows quotedRequest_keys_nodup (fun _ _ => List.not_mem_nil) (exists_toRow_quoted _)
  exact exists_sync_of_rows hrows (hfree.2 generatedFor hfresh)

/-- The answer to new keys is at least as long as they are. -/
theorem le_answerSize {m : Measure} {quotas : QuotaConfig} {baseUrl : String} {db : Database}
    {projectId : Uuid} {request : SyncRequest} {bound : ℕ}
    (hskipped : request.beyondQuota quotas db projectId = [])
    (hkeys : ∀ key ∈ request.keys, bound ≤ m.quoted key.toList) :
    (168 + bound) * request.keys.length ≤ request.answerSize m quotas baseUrl db projectId := by
  have hsize : ∀ key ∈ request.keys, 168 + bound ≤ checkSize m baseUrl key
      ¬ DeclaredIn projectId request.environment key db.checks.rows := by
    intro key hkey
    have hquoted := hkeys key hkey
    unfold checkSize
    split <;> omega
  have hsum := List.card_nsmul_le_sum (request.keys.map fun key => checkSize m baseUrl key
    ¬ DeclaredIn projectId request.environment key db.checks.rows) (168 + bound)
      (List.forall_mem_map.mpr hsize)
  have hall : request.keys.filter (fun key => key ∉ ([] : List String)) = request.keys :=
    List.filter_eq_self.mpr fun key _ => rfl
  rw [List.length_map] at hsum
  have hproduct : (168 + bound) * request.keys.length = request.keys.length • (168 + bound) :=
    Nat.mul_comm _ _
  unfold SyncRequest.answerSize
  rw [hskipped]
  dsimp only
  rw [hall, hproduct]
  refine hsum.trans ?_
  omega

/-- A law of the answers to valid payloads. -/
def EveryAnswer (P : List Char → Prop) : Prop :=
  ∀ (isValidTimezone : String → Bool) (payload : SyncPayload) (request : SyncRequest)
    (quotas : QuotaConfig) (cron : CronParser) (slugify sha256Hex : String → String) (now : ℤ)
    (projectId : Uuid) (generated : String → Uuid × Uuid) (db db' : Database)
    (result : SyncResult) (baseUrl : String),
    syncRequestSchema isValidTimezone payload = some request →
    syncWithinQuota quotas cron (syncSlug slugify sha256Hex) now projectId request generated db =
      .ok (db', result) → P (result.text baseUrl)

/-- Five hundred new keys full of quotation marks have an answer that neither client reads. -/
theorem not_everyAnswer : ¬ EveryAnswer Python.Reads ∧ ¬ EveryAnswer Java.Reads := by
  obtain ⟨db', result, hsync⟩ := exists_sync_quoted
  obtain ⟨rows, accepted, hs⟩ := syncWithinQuota_synced hsync
  have hlarge (m : Measure) : 256 * 1024 < m.of (result.text sampleBaseUrl) := by
    have hlength : quotedRequest.keys.length = 500 := by
      rw [SyncRequest.keys, quotedRequest, List.length_map, List.length_map, List.length_range]
    have hkeys : ∀ key ∈ quotedRequest.keys, 598 ≤ m.quoted key.toList := by
      intro key hkey
      obtain ⟨n, -, rfl⟩ := mem_quotedKeys.mp hkey
      rw [quoted_quotedKey]
    have hle : (168 + 598) * quotedRequest.keys.length ≤
        quotedRequest.answerSize m openServer.quotas sampleBaseUrl sampleDatabase 1 :=
      le_answerSize rfl hkeys
    rw [hlength] at hle
    rw [hs.of_text_eq]
    omega
  have hanswer {P : List Char → Prop} (h : EveryAnswer P) : P (result.text sampleBaseUrl) :=
    h (fun _ => true) _ _ _ _ _ _ _ _ _ _ _ _ _ (syncRequestSchema_quoted _) hsync
  constructor
  · exact fun h => absurd (Python.reads_iff.mp (hanswer h)) (Nat.not_le.mpr (hlarge _))
  · exact fun h => absurd (Java.reads_iff.mp (hanswer h)) (Nat.not_le.mpr (hlarge _))

end Quoted

end SilenceWatch
