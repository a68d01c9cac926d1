import SilenceWatch.Ingest.Service
import SilenceWatch.Library.Numerals
import SilenceWatch.Library.Utf8

/-!
# From a request to the parameters of the statement

What a heartbeat carries comes from anybody: the address may be a header's, the body any
bytes. The routes and the service cut every part to what a column can hold, since a
refused insert would be a lost heartbeat.
-/

namespace SilenceWatch

section Requests

/-- `MAX_EXIT_CODE`. -/
def maxExitCode : ℤ := 255

/-- `MAX_USER_AGENT_LENGTH`. -/
def maxUserAgentLength : ℕ := 300

/-- `PING_BODY_MAX_BYTES`. -/
structure PingConfig where
  pingBodyMaxBytes : ℕ
  range : pingBodyMaxBytes ≤ 100000

/-- The largest body the routes read. -/
def PingConfig.bodyLimit (cfg : PingConfig) : ℕ := max 65536 (cfg.pingBodyMaxBytes * 4)

/-- The heartbeat routes, below `/p/:pingKey`. -/
inductive PingRoute where
  | success
  | start
  | fail
  | exitCode (raw : List Char)

/-- What a heartbeat route is given. -/
structure PingRequest where
  pingKey : Uuid
  route : PingRoute
  /-- The text under `duration_ms`, if there is one. -/
  durationMs : Option (List Char)
  body : Option (List UInt8)
  ip : Option (List Char)
  userAgent : Option (List Char)

/-- The number a text of one to `most` digits spells. -/
def parseDigits (most : ℕ) (raw : List Char) : Option ℤ :=
  if raw ≠ [] ∧ raw.length ≤ most ∧ raw.all Char.isDigit then some (Numeral.value 10 raw) else none

/-- `parseExitCode`. -/
def parseExitCode (raw : Option (List Char)) : Option ℤ :=
  (raw.bind (parseDigits 3)).filter fun value => value ≤ maxExitCode

/-- `parseDurationMs`. -/
def parseDurationMs (raw : Option (List Char)) : Option ℤ := raw.bind (parseDigits 10)

/-- The kind of heartbeat a route stands for; none is answered `BAD REQUEST`. -/
def PingRoute.kind? : PingRoute → Option PingKind
  | .success => some .success
  | .start => some .start
  | .fail => some .fail
  | .exitCode raw =>
    (parseExitCode (some raw)).map fun code => if code = 0 then .success else .fail

/-- The parameter `:exitCode` of the route. -/
def PingRoute.exitCode? : PingRoute → Option (List Char)
  | .exitCode raw => some raw
  | _ => none

/-- `truncateBody`: the first bytes of the payload, without NUL. -/
def truncateBody (maxBodyBytes : ℕ) (body : Option (List UInt8)) : Option String :=
  body.bind fun bytes =>
    if bytes = [] ∨ maxBodyBytes = 0 then none
    else
      let text := (Utf8.decode (bytes.take maxBodyBytes)).filter (· ≠ '\x00')
      if text = [] then none else some (String.ofList text)

/-- `truncate`. -/
def truncate (value : Option (List Char)) (most : ℕ) : Option String :=
  value.bind fun value => if value = [] then none else some (String.ofList (value.take most))

/-- `[0-9a-fA-F:.]`. -/
def IsAddressChar (c : Char) : Prop :=
  c.isDigit ∨ 'a' ≤ c ∧ c ≤ 'f' ∨ 'A' ≤ c ∧ c ≤ 'F' ∨ c = ':' ∨ c = '.'
  deriving Decidable

/-- `normaliseIp`: anything unusual becomes null. -/
def normaliseIp (ip : Option (List Char)) : Option String :=
  ip.bind fun ip =>
    let withoutZone := ip.takeWhile (· ≠ '%')
    if withoutZone = [] ∨ 45 < withoutZone.length then none
    else if withoutZone.all (IsAddressChar ·) then some (String.ofList withoutZone)
    else none

/-- The command of a request, with its texts as `ingest` binds them. -/
def PingRequest.command (cfg : PingConfig) (r : PingRequest) : Option IngestCommand :=
  r.route.kind?.map fun kind => {
    pingKey := r.pingKey
    kind := kind
    exitCode := parseExitCode r.route.exitCode?
    durationMs := parseDurationMs r.durationMs
    body := truncateBody cfg.pingBodyMaxBytes r.body
    ip := normaliseIp r.ip
    userAgent := truncate r.userAgent maxUserAgentLength }

/-- What reaches a route: a body within the limit, and a header without NUL, which the
HTTP parser refuses. -/
structure PingRequest.Admitted (cfg : PingConfig) (r : PingRequest) : Prop where
  body : ∀ bytes ∈ r.body, bytes.length ≤ cfg.bodyLimit
  userAgent : ∀ value ∈ r.userAgent, '\x00' ∉ value

end Requests

section Columns

/-- The values of `INTEGER`. -/
def IsInt4 (n : ℤ) : Prop := -2147483648 ≤ n ∧ n ≤ 2147483647

/-- The values of `TIMESTAMPTZ`, in milliseconds. -/
def IsTimestamp (t : ℤ) : Prop := -210866803200000 ≤ t ∧ t < 9224318016000000

/-- The values of `TEXT`. -/
def IsText (s : String) : Prop := '\x00' ∉ s.toList

/-- The types and the constraints of a row of `ping`. What `INET` takes is up to the
database. -/
structure Ping.Storable (inet : String → Prop) (p : Ping) : Prop where
  receivedAt : IsTimestamp p.receivedAt
  exitCode : ∀ code ∈ p.exitCode, IsInt4 code
  durationMs : ∀ ms ∈ p.durationMs, IsInt4 ms
  body : ∀ text ∈ p.body, IsText text
  /-- `ping_body_bounded`. -/
  bounded : ∀ text ∈ p.body, text.length ≤ 10000
  sourceIp : ∀ address ∈ p.sourceIp, inet address
  userAgent : ∀ text ∈ p.userAgent, IsText text

/-- The types of the columns of `check` that the statement writes, and the constraints. -/
structure Check.Storable (c : Check) : Prop where
  lastPingAt : ∀ t ∈ c.lastPingAt, IsTimestamp t
  lastStartedAt : ∀ t ∈ c.lastStartedAt, IsTimestamp t
  nextDueAt : ∀ t ∈ c.nextDueAt, IsTimestamp t
  lastDurationMs : ∀ ms ∈ c.lastDurationMs, IsInt4 ms
  /-- `check_schedule_coherent`. -/
  coherent : (c.scheduleType = .interval ∧ c.periodSeconds ≠ none ∧ c.cronExpression = none) ∨
    (c.scheduleType = .cron ∧ c.cronExpression ≠ none ∧ c.periodSeconds = none)
  /-- `check_period_range`. -/
  period : ∀ seconds ∈ c.periodSeconds, 30 ≤ seconds ∧ seconds ≤ 31536000
  /-- `check_grace_range`. -/
  grace : 0 ≤ c.graceSeconds ∧ c.graceSeconds ≤ 604800
  /-- `check_duration_positive`. -/
  duration : ∀ ms ∈ c.lastDurationMs, 0 ≤ ms

/-- Every value bound to the statement has the type of its parameter, and the rows it
writes for a stored check meet the types and the constraints of their tables. -/
structure IngestParams.Fits (inet : String → Prop) (p : IngestParams) : Prop where
  exitCode : ∀ code ∈ p.exitCode, IsInt4 code
  durationMs : ∀ ms ∈ p.durationMs, IsInt4 ms
  ping : ∀ prev : Check, prev.Storable → ∀ id, (p.toPing prev id).Storable inet
  check : ∀ prev : Check, prev.Storable → (p.write prev prev).Storable

end Columns

section Instants

/-- The instants of a `Date`, from the epoch on. -/
def IsDate (t : ℤ) : Prop := 0 ≤ t ∧ t ≤ 8640000000000000

/-- What the deadline of a heartbeat comes from: a clock that shows a `Date` of which a
year later is one too, a schedule as `check_period_range` admits it, and an evaluator
that returns a `Date`. -/
structure DeadlineSources (cron : CronParser) (metadata : Schedule) (now : ℤ) : Prop where
  clock : IsDate now ∧ IsDate (now + 31536000 * 1000)
  period : ∀ seconds ∈ metadata.periodSeconds, 30 ≤ seconds ∧ seconds ≤ 31536000
  cron : ∀ expression timezone due, cron expression timezone now = .ok due → IsDate due

theorem IsDate.isTimestamp {t : ℤ} (h : IsDate t) : IsTimestamp t := by
  unfold IsDate at h
  unfold IsTimestamp
  omega

/-- A deadline is one the column takes. -/
theorem DeadlineSources.isTimestamp {cron : CronParser} {metadata : Schedule} {now due : ℤ}
    {kind : PingKind} (h : DeadlineSources cron metadata now)
    (hdue : due ∈ ingestDeadline cron metadata kind now) : IsTimestamp due := by
  refine IsDate.isTimestamp ?_
  unfold ingestDeadline at hdue
  split at hdue
  · cases hdue
  · cases hnext : computeNextDueAt cron metadata now with
    | error e => simp [hnext, Except.toOption] at hdue
    | ok instant =>
      have heq : instant = due := by simpa [hnext, Except.toOption] using hdue
      subst heq
      cases htype : metadata.scheduleType with
      | interval =>
        obtain ⟨period, hperiod, rfl⟩ := computeNextDueAt_interval htype hnext
        obtain ⟨hleast, hmost⟩ := h.period period hperiod
        have hclock := h.clock
        unfold IsDate at hclock ⊢
        omega
      | cron =>
        unfold computeNextDueAt at hnext
        rw [htype] at hnext
        dsimp only at hnext
        split at hnext
        · cases hnext
        · split at hnext
          · cases hnext
          · split at hnext
            · next heval =>
              cases hnext
              exact h.cron _ _ _ heval
            · cases hnext

end Instants

section Values

variable {raw : Option (List Char)} {n : ℤ}

/-- Clamping gives a value of the column between the bounds. -/
theorem clampInt_mem {value : Option ℤ} {least : ℤ} (hleast : -int32Max ≤ least)
    (hle : least ≤ int32Max) (h : n ∈ clampInt value least) :
    IsInt4 n ∧ least ≤ n := by
  obtain ⟨v, _, rfl⟩ := Option.map_eq_some_iff.mp h
  unfold IsInt4
  unfold int32Max at *
  omega

/-- A stored body is text, and has as many characters as the first bytes of the payload
besides NUL. -/
theorem truncateBody_mem {maxBodyBytes : ℕ} {body : Option (List UInt8)} {text : String}
    (h : text ∈ truncateBody maxBodyBytes body) :
    IsText text ∧ ∃ bytes ∈ body, text.length =
      (Utf8.decode (bytes.take maxBodyBytes)).countP fun c => c ≠ '\x00' := by
  obtain ⟨bytes, hbody, h⟩ := Option.bind_eq_some_iff.mp h
  split at h
  · cases h
  · dsimp only at h
    split at h
    · cases h
    · cases h
      refine ⟨?_, bytes, hbody, ?_⟩
      · unfold IsText
        rw [String.toList_ofList]
        intro hmem
        simpa using (List.mem_filter.mp hmem).2
      · rw [String.length_ofList, List.countP_eq_length_filter]

/-- A payload with characters besides NUL is stored. -/
theorem truncateBody_eq_some {maxBodyBytes : ℕ} {bytes : List UInt8}
    (h : 0 < (Utf8.decode (bytes.take maxBodyBytes)).countP fun c => c ≠ '\x00') :
    truncateBody maxBodyBytes (some bytes) = some (String.ofList
      ((Utf8.decode (bytes.take maxBodyBytes)).filter fun c => c ≠ '\x00')) := by
  have hbytes : ¬ (bytes = [] ∨ maxBodyBytes = 0) := by
    rintro (rfl | rfl)
    · simp [Utf8.decode, Utf8.decodeFrom] at h
    · simp [Utf8.decode, Utf8.decodeFrom] at h
  have htext : (Utf8.decode (bytes.take maxBodyBytes)).filter (fun c => c ≠ '\x00') ≠ [] := by
    rw [List.countP_eq_length_filter] at h
    exact List.ne_nil_of_length_pos h
  simp only [truncateBody, Option.bind_some, if_neg hbytes, if_neg htext]

theorem truncate_mem {value : Option (List Char)} {most : ℕ} {text : String}
    (hvalue : ∀ chars ∈ value, '\x00' ∉ chars) (h : text ∈ truncate value most) :
    IsText text := by
  obtain ⟨chars, hchars, h⟩ := Option.bind_eq_some_iff.mp h
  split at h
  · cases h
  · cases h
    unfold IsText
    rw [String.toList_ofList]
    exact fun hmem => hvalue chars hchars (List.mem_of_mem_take hmem)

end Values

section Rows

variable {inet : String → Prop} {p : IngestParams} {prev : Check}

/-- The duration of a row is one the column takes. -/
theorem measured_mem (hreported : ∀ ms ∈ p.durationMs, IsInt4 ms ∧ 0 ≤ ms) {ms : ℤ}
    (h : ms ∈ p.measured prev) : IsInt4 ms ∧ 0 ≤ ms := by
  unfold IngestParams.measured at h
  split at h
  · cases h
  · split at h
    · next reported hsome =>
      cases h
      exact hreported _ hsome
    · obtain ⟨startedAt, _, rfl⟩ := Option.map_eq_some_iff.mp h
      unfold IsInt4 int32Max
      omega

/-- The row over a stored check meets the constraints. -/
theorem write_storable (hprev : prev.Storable) (hreceived : IsTimestamp p.receivedAt)
    (hdue : ∀ due ∈ p.nextDueAt, IsTimestamp due)
    (hreported : ∀ ms ∈ p.durationMs, IsInt4 ms ∧ 0 ≤ ms) : (p.write prev prev).Storable := by
  have hlast : ∀ ms ∈ (p.measured prev).or prev.lastDurationMs, IsInt4 ms ∧ 0 ≤ ms := by
    intro ms hms
    rcases Option.or_eq_some_iff.mp hms with hmeasured | ⟨_, hkept⟩
    · exact measured_mem hreported hmeasured
    · exact ⟨hprev.lastDurationMs ms hkept, hprev.duration ms hkept⟩
  refine ⟨fun t ht => ?_, fun t ht => ?_, fun t ht => ?_, fun ms hms => (hlast ms hms).1,
    hprev.coherent, hprev.period, hprev.grace, fun ms hms => (hlast ms hms).2⟩
  · by_cases hstart : p.kind = .start
    · exact hprev.lastPingAt t (by simpa [IngestParams.write, hstart] using ht)
    · have heq : p.receivedAt = t := by simpa [IngestParams.write, hstart] using ht
      exact heq ▸ hreceived
  · by_cases hstart : p.kind = .start
    · have heq : p.receivedAt = t := by simpa [IngestParams.write, hstart] using ht
      exact heq ▸ hreceived
    · simp [IngestParams.write, hstart] at ht
  · by_cases hstart : p.kind = .start
    · exact hprev.nextDueAt t (by simpa [IngestParams.write, hstart] using ht)
    · exact hdue t (by simpa [IngestParams.write, hstart] using ht)

/-- There are checks to write over. -/
theorem exists_storable : ∃ c : Check, c.Storable := by
  refine ⟨⟨⟨.interval, some 60, none, "UTC"⟩, 1, 1, "backup", "backup", none, 1, 0,
    .new, none, none,
    none, none, none, .api, none, [], none, 0⟩, ?_⟩
  exact ⟨by simp, by simp, by simp, by simp, by simp, by simp, by simp, by simp⟩

end Rows

section Fits

variable (inet : String → Prop) (cfg : PingConfig) (r : PingRequest)

/-- The first bytes of the body have no more characters, NUL aside, than the table takes. -/
def PingRequest.BodyFits : Prop :=
  ∀ bytes ∈ r.body,
    (Utf8.decode (bytes.take cfg.pingBodyMaxBytes)).countP (fun c => c ≠ '\x00') ≤ 10000

/-- The address is one that `normaliseIp` drops, or one that the column takes. -/
def PingRequest.AddressFits : Prop :=
  ∀ ip ∈ r.ip, let address := ip.takeWhile fun c => c ≠ '%'
    address = [] ∨ 45 < address.length ∨ (∃ c ∈ address, ¬ IsAddressChar c) ∨
      inet (String.ofList address)

variable {inet cfg r}

/-- A configured limit of ten thousand bytes is enough. -/
theorem bodyFits_of_le (h : cfg.pingBodyMaxBytes ≤ 10000) : r.BodyFits cfg := by
  intro bytes _
  refine Nat.le_trans List.countP_le_length (Nat.le_trans (Utf8.length_decode_le _) ?_)
  exact Nat.le_trans (List.length_take_le _ _) h

theorem bodyFits_iff :
    r.BodyFits cfg ↔ ∀ text ∈ truncateBody cfg.pingBodyMaxBytes r.body, text.length ≤ 10000 := by
  constructor
  · intro h text htext
    obtain ⟨_, bytes, hbytes, hlength⟩ := truncateBody_mem htext
    exact hlength ▸ h bytes hbytes
  · intro h bytes hbytes
    by_contra hlong
    have hsome : truncateBody cfg.pingBodyMaxBytes (some bytes) = _ :=
      truncateBody_eq_some (by omega)
    have hbody : some bytes = r.body := hbytes.symm
    rw [hbody] at hsome
    have hle := h _ hsome
    rw [String.length_ofList, ← List.countP_eq_length_filter] at hle
    exact hlong hle

theorem addressFits_iff : r.AddressFits inet ↔ ∀ address ∈ normaliseIp r.ip, inet address := by
  unfold PingRequest.AddressFits normaliseIp
  cases r.ip with
  | none => simp
  | some ip =>
    simp only [Option.mem_some_iff, forall_eq', Option.bind_some]
    generalize ip.takeWhile (fun c => decide (c ≠ '%')) = address
    by_cases hlength : address = [] ∨ 45 < address.length
    · rw [if_pos hlength]
      simpa using hlength.imp_right Or.inl
    · rw [if_neg hlength]
      rw [not_or] at hlength
      by_cases hchars : address.all (IsAddressChar ·) = true
      · have hnone : ¬ ∃ c ∈ address, ¬ IsAddressChar c := by
          rintro ⟨c, hc, hnot⟩
          exact hnot (of_decide_eq_true (List.all_eq_true.mp hchars c hc))
        simp only [if_pos hchars, hlength.1, hlength.2, hnone, false_or, Option.mem_some_iff,
          forall_eq']
      · have hsome : ∃ c ∈ address, ¬ IsAddressChar c := by simpa using hchars
        rw [if_neg hchars]
        simp [hsome]

/-- The commands of the routes hold no number that its column does not take. -/
theorem ingestParams_ints (cron : CronParser) (metadata : Schedule) (now : ℤ)
    (command : IngestCommand) :
    (∀ code ∈ (ingestParams cron metadata now command).exitCode, IsInt4 code) ∧
      ∀ ms ∈ (ingestParams cron metadata now command).durationMs, IsInt4 ms ∧ 0 ≤ ms :=
  ⟨fun _ h => (clampInt_mem (by decide) (by decide) h).1,
    fun _ h => clampInt_mem (by decide) (by decide) h⟩

/-- The texts of a command are those of its request, cut. -/
theorem command_texts {command : IngestCommand} (h : r.command cfg = some command) :
    command.body = truncateBody cfg.pingBodyMaxBytes r.body ∧ command.ip = normaliseIp r.ip ∧
      command.userAgent = truncate r.userAgent maxUserAgentLength := by
  obtain ⟨kind, _, rfl⟩ := Option.map_eq_some_iff.mp h
  exact ⟨rfl, rfl, rfl⟩

/-- **Which heartbeats the statement takes.** For every request that reaches a route, all
values bound to the statement fit the columns and the constraints exactly if the first
bytes of the body have at most ten thousand characters besides NUL, and the address is
one that is dropped or one that `INET` takes. -/
theorem fits_iff (inet : String → Prop) (cron : CronParser) (metadata : Schedule) (now : ℤ)
    (cfg : PingConfig) (r : PingRequest) (command : IngestCommand)
    (hcommand : r.command cfg = some command) (hadmitted : r.Admitted cfg)
    (hsources : DeadlineSources cron metadata now) :
    (ingestParams cron metadata now command).Fits inet ↔ r.BodyFits cfg ∧ r.AddressFits inet := by
  obtain ⟨hbody, hip, huserAgent⟩ := command_texts hcommand
  obtain ⟨hcode, hduration⟩ := ingestParams_ints cron metadata now command
  have hreceived : IsTimestamp now := hsources.clock.1.isTimestamp
  rw [bodyFits_iff, addressFits_iff, ← hbody, ← hip]
  constructor
  · intro h
    obtain ⟨prev, hprev⟩ := exists_storable
    have hrow := h.ping prev hprev 0
    exact ⟨hrow.bounded, hrow.sourceIp⟩
  · rintro ⟨hbounded, haddress⟩
    refine ⟨hcode, fun ms h => (hduration ms h).1, fun prev hprev id => ?_, fun prev hprev =>
      write_storable hprev hreceived (fun due h => hsources.isTimestamp h) hduration⟩
    exact {
      receivedAt := hreceived
      exitCode := hcode
      durationMs := fun ms h => (measured_mem hduration h).1
      body := fun text h => (truncateBody_mem (hbody.symm.trans h)).1
      bounded := hbounded
      sourceIp := haddress
      userAgent := fun text h => truncate_mem hadmitted.userAgent (huserAgent.symm.trans h) }

/-- A job that reports its exit code from an address that is one. -/
def reportingRequest : PingRequest where
  pingKey := 20
  route := .exitCode ['3']
  durationMs := some ['1', '5', '0', '0']
  body := some [111, 107, 255]
  ip := some ['1', '0', '.', '0', '.', '0', '.', '7']
  userAgent := none

/-- The heartbeat of the job is taken. -/
theorem fits_ofReport :
    ∃ command, reportingRequest.command ⟨10000, by decide⟩ = some command ∧
      (ingestParams (fun _ _ _ => .error "no cron evaluator") ⟨.interval, some 3600, none, "UTC"⟩ 0
        command).Fits fun address => address = "10.0.0.7" := by
  refine ⟨_, rfl, (fits_iff _ _ _ 0 _ reportingRequest _ rfl ⟨?_, ?_⟩ ⟨?_, ?_, ?_⟩).mpr ⟨?_, ?_⟩⟩
  · intro bytes hbytes
    cases hbytes
    exact Nat.le_trans (by decide : 3 ≤ 65536) (Nat.le_max_left _ _)
  · intro value hvalue
    cases hvalue
  · unfold IsDate
    omega
  · intro seconds hseconds
    cases hseconds
    decide
  · intro _ _ due hdue
    cases hdue
  · exact bodyFits_of_le (Nat.le_refl _)
  · intro ip hip
    cases hip
    exact Or.inr (Or.inr (Or.inr rfl))

/-- A body of 10001 letters. -/
def chattyRequest : PingRequest where
  pingKey := 20
  route := .success
  durationMs := none
  body := some ((List.replicate 10001 'a').flatMap String.utf8EncodeChar)
  ip := none
  userAgent := none

theorem length_chattyRequest :
    ((List.replicate 10001 'a').flatMap String.utf8EncodeChar).length = 10001 := by
  rw [List.length_flatMap, List.map_replicate, List.sum_replicate_nat]
  rfl

/-- With a limit above the one of the table, a long body is refused with its heartbeat. -/
theorem not_fits_ofLongBody :
    ¬ ∀ (inet : String → Prop) (cron : CronParser) (metadata : Schedule) (now : ℤ)
        (cfg : PingConfig) (r : PingRequest) (command : IngestCommand),
      r.command cfg = some command → r.Admitted cfg → DeadlineSources cron metadata now →
      (ingestParams cron metadata now command).Fits inet := by
  intro h
  have hadmitted : chattyRequest.Admitted ⟨20000, by decide⟩ := by
    refine ⟨?_, ?_⟩
    · intro bytes hbytes
      cases hbytes
      rw [length_chattyRequest]
      exact Nat.le_trans (by decide) (Nat.le_max_left _ _)
    · intro value hvalue
      cases hvalue
  have hsources : DeadlineSources (fun _ _ _ => .error "no cron evaluator")
      ⟨.interval, some 3600, none, "UTC"⟩ 0 := by
    refine ⟨?_, ?_, ?_⟩
    · unfold IsDate
      omega
    · intro seconds hseconds
      cases hseconds
      decide
    · intro _ _ due hdue
      cases hdue
  obtain ⟨prev, hprev⟩ := exists_storable
  have hfits := h (fun _ => True) _ _ 0 _ chattyRequest _ rfl hadmitted hsources
  have hshort : chattyRequest.BodyFits ⟨20000, by decide⟩ :=
    bodyFits_iff.mpr (hfits.ping prev hprev 0).bounded
  have hbody := hshort _ rfl
  rw [List.take_of_length_le (by rw [length_chattyRequest]; decide), Utf8.decode_encode,
    List.countP_replicate] at hbody
  revert hbody
  decide

end Fits

end SilenceWatch
