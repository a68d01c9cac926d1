import SilenceWatch.Ingest.Revocation

/-!
# The budget of unknown keys

One address asks an instance for keys that no check has, as many at a time as it likes.
Each key costs a lookup. The budget of the address is tested before the lookup is sent,
and charged when it has found nothing.
-/

namespace SilenceWatch

open Keyed Transition

/-- An instance that is probed, with a record of when the lookups that found no check were
charged. -/
structure ProbedInstance where
  server : ServerInstance
  clock : ℤ
  wasted : List ℤ

/-- What happens to it. -/
inductive ProbeEvent where
  | ingest (heartbeat : Heartbeat)
  | query (pingKey : Uuid) (db : Database)
  | store (pingKey : Uuid)
  | settle (pingKey : Uuid)
  | fail (pingKey : Uuid)
  | elapse (ms : ℕ)

/-- The key a probe asks for. -/
def ProbeEvent.pingKey? : ProbeEvent → Option Uuid
  | .ingest heartbeat => some heartbeat.command.pingKey
  | _ => none

/-- The answer, if any, of a load that found no check. -/
def foundNothing (told : List (PendingHeartbeat × Option CheckMetadata)) : Bool :=
  told.any fun pair => pair.2 = none

/-- The heartbeat gets as far as sending its lookup, or waiting for one. -/
def ServerInstance.Looks (server : ServerInstance) (now : ℤ) (heartbeat : Heartbeat) : Prop :=
  heartbeat.wellFormed = true ∧
    (server.perKeyLimiter.hit heartbeat.command.pingKey now).2 ≤ 0 ∧
    server.cache.peek now heartbeat.command.pingKey = none ∧
    ¬ server.unknownKeyLimiter.Exceeded heartbeat.source now
  deriving Decidable

namespace ProbedInstance

variable (cron : CronParser)

/-- The instance after one event. -/
def step (s : ProbedInstance) : ProbeEvent → ProbedInstance
  | .ingest heartbeat => { s with server := (s.server.ingest cron s.clock ⟨heartbeat, false⟩).1 }
  | .query pingKey db => { s with server.cache := s.server.cache.query pingKey db }
  | .store pingKey => { s with server.cache := s.server.cache.answer s.clock pingKey }
  | .settle pingKey =>
    let (cache, told) := s.server.cache.settle pingKey
    { s with
      server := (({ s.server with cache } : ServerInstance).resumeAll cron s.clock told).1
      wasted := if foundNothing told then s.wasted ++ [s.clock] else s.wasted }
  | .fail pingKey => { s with server.cache := s.server.cache.fail pingKey }
  | .elapse ms => { s with clock := s.clock + ms }

/-- The lookups under way and the budget spent leave room for the lookup of a heartbeat that
sends one. -/
def SendsWithinBudget (s : ProbedInstance) : ProbeEvent → Prop
  | .ingest heartbeat => s.server.Looks s.clock heartbeat →
      s.server.cache.inFlight.size +
        s.server.unknownKeyLimiter.spent heartbeat.source s.clock < s.server.unknownKeyLimiter.limit
  | _ => True

instance (s : ProbedInstance) : DecidablePred s.SendsWithinBudget
  | .ingest heartbeat => inferInstanceAs (Decidable (s.server.Looks s.clock heartbeat → _))
  | .query .. | .store _ | .settle _ | .fail _ | .elapse _ => .isTrue trivial

/-- No lookup is sent, and none joined, while the budget of the address is spent. -/
def SendsNothingWhenSpent (s : ProbedInstance) : ProbeEvent → Prop
  | .ingest heartbeat => s.server.unknownKeyLimiter.Exceeded heartbeat.source s.clock →
      (s.step cron (.ingest heartbeat)).server.cache = s.server.cache
  | _ => True

/-- In no window of the address more lookups have found no check than its budget. -/
def WithinBudget (source : String) (s : ProbedInstance) : Prop :=
  ∀ window ∈ s.server.unknownKeyLimiter.windows.get? source,
    (s.wasted.filter fun t =>
      window.resetAt - s.server.unknownKeyLimiter.windowMs ≤ t).length ≤
        s.server.unknownKeyLimiter.limit

/-- The instance keeps nothing of the key. -/
def KeepsNothing (s : ProbedInstance) (pingKey : Uuid) : Prop :=
  s.server.cache.entries.get? pingKey = none ∧ s.server.cache.inFlight.get? pingKey = none

/-- A load is the lookup of one probe of the address, and finds nothing. -/
def IsProbe (source : String) (load : Load PendingHeartbeat) : Prop :=
  ∃ pending, load.callers = [pending] ∧ pending.heartbeat.source = source ∧
    ∀ metadata, load.phase.metadata = some metadata → metadata = none

/-- What holds while lookups are sent within the budget: what is under way fits into the
window. -/
structure Probed (source : String) (s : ProbedInstance) : Prop where
  loads : ∀ pingKey load, s.server.cache.inFlight.get? pingKey = some load → IsProbe source load
  fits : s.server.cache.inFlight.size + s.server.unknownKeyLimiter.spent source s.clock ≤
    s.server.unknownKeyLimiter.limit
  lasting : 0 < s.server.unknownKeyLimiter.windowMs
  unopened : s.server.unknownKeyLimiter.windows.get? source = none → s.wasted = []
  opened : ∀ window, s.server.unknownKeyLimiter.windows.get? source = some window →
    window.count ≤ s.server.unknownKeyLimiter.limit ∧
      (s.wasted.filter fun t =>
        window.resetAt - s.server.unknownKeyLimiter.windowMs ≤ t).length ≤ window.count ∧
      ∀ t ∈ s.wasted, t < window.resetAt

variable {cron} {s : ProbedInstance} {source : String} {heartbeat : Heartbeat} {pingKey key : Uuid}
  {e : ProbeEvent}

/-- **A probe** for a key that the instance keeps nothing of sends a lookup, or leaves the
cache alone. It charges nothing. -/
theorem ingest_cases (cron : CronParser)
    (hnothing : s.KeepsNothing heartbeat.command.pingKey) :
    (s.server.ingest cron s.clock ⟨heartbeat, false⟩).1.unknownKeyLimiter =
        s.server.unknownKeyLimiter ∧
      ((s.server.ingest cron s.clock ⟨heartbeat, false⟩).1.cache = s.server.cache ∨
        (s.server.Looks s.clock heartbeat ∧
          (s.server.ingest cron s.clock ⟨heartbeat, false⟩).1.cache =
            { s.server.cache with
              inFlight := s.server.cache.inFlight.set heartbeat.command.pingKey
                ⟨.querying, [⟨heartbeat, false⟩]⟩ })) := by
  have hfresh : s.server.cache.fresh? s.clock heartbeat.command.pingKey = none := by
    simp [CheckMetadataCache.fresh?, hnothing.1]
  have hpeek : s.server.cache.peek s.clock heartbeat.command.pingKey = none := by
    simp [CheckMetadataCache.peek, hfresh]
  simp only [ServerInstance.ingest]
  by_cases hformed : heartbeat.wellFormed = false
  · rw [if_pos hformed]
    exact ⟨rfl, Or.inl rfl⟩
  · rw [if_neg hformed]
    by_cases hlimited : 0 < (s.server.perKeyLimiter.hit heartbeat.command.pingKey s.clock).2
    · rw [if_pos hlimited]
      exact ⟨rfl, Or.inl rfl⟩
    · rw [if_neg hlimited, hpeek]
      dsimp only
      by_cases hexceeded : s.server.unknownKeyLimiter.Exceeded heartbeat.source s.clock
      · rw [if_pos hexceeded]
        exact ⟨rfl, Or.inl rfl⟩
      · rw [if_neg hexceeded]
        simp only [CheckMetadataCache.get, hfresh, hnothing.2]
        exact ⟨trivial, Or.inr ⟨⟨by simpa using hformed, by omega, hpeek, hexceeded⟩, trivial⟩⟩

/-- While the budget is spent no lookup is sent. -/
theorem ingest_exceeded
    (h : s.server.unknownKeyLimiter.Exceeded heartbeat.source s.clock) :
    (s.server.ingest cron s.clock ⟨heartbeat, false⟩).1.cache = s.server.cache := by
  simp only [ServerInstance.ingest]
  split
  · rfl
  · split
    · rfl
    · split
      · rfl
      · rfl

/-- Those who waited for a load leave the cache alone when they go on. -/
theorem resumeAll_cache (told : List (PendingHeartbeat × Option CheckMetadata))
    (server : ServerInstance) (now : ℤ) :
    (server.resumeAll cron now told).1.cache = server.cache := by
  induction told generalizing server with
  | nil => rfl
  | cons first told ih =>
    rcases first with ⟨pending, metadata⟩
    simp only [ServerInstance.resumeAll, ih]
    cases metadata with
    | none => rfl
    | some metadata => rfl

/-- What is kept of a key comes from a probe for it. -/
theorem KeepsNothing.step (h : s.KeepsNothing key)
    (hprobe : ∀ heartbeat, e = .ingest heartbeat → s.KeepsNothing heartbeat.command.pingKey)
    (hother : e.pingKey? ≠ some key) : (s.step cron e).KeepsNothing key := by
  have hset : ∀ {pingKey : Uuid} {load load' : Load PendingHeartbeat},
      s.server.cache.inFlight.get? pingKey = some load →
        (s.server.cache.inFlight.set pingKey load').get? key = none := by
    intro pingKey load load' hload
    rw [OrderedMap.get?_set]
    split
    · next hsame =>
      rw [← hsame, h.2] at hload
      cases hload
    · exact h.2
  cases e with
  | ingest heartbeat =>
    rcases (ingest_cases cron (hprobe heartbeat rfl)).2 with hcache | ⟨-, hcache⟩
    · simp only [KeepsNothing, ProbedInstance.step, hcache]
      exact h
    · simp only [KeepsNothing, ProbedInstance.step, hcache]
      refine ⟨h.1, ?_⟩
      rw [OrderedMap.get?_set, if_neg]
      · exact h.2
      · rintro rfl
        exact hother rfl
  | query pingKey db =>
    rcases s.server.cache.query_cases pingKey db with hcache | ⟨callers, hload, hcache⟩
    · simp only [KeepsNothing, ProbedInstance.step, hcache]
      exact h
    · simp only [KeepsNothing, ProbedInstance.step, hcache]
      exact ⟨h.1, hset hload⟩
  | store pingKey =>
    rcases s.server.cache.answer_cases s.clock pingKey with
      hcache | ⟨metadata, callers, hload, hcache⟩
    · simp only [KeepsNothing, ProbedInstance.step, hcache]
      exact h
    · simp only [KeepsNothing, ProbedInstance.step, hcache]
      refine ⟨?_, hset hload⟩
      cases hentry : (s.server.cache.store s.clock pingKey metadata).entries.get? key with
      | none => rfl
      | some entry =>
        rcases CheckMetadataCache.get?_of_store hentry with ⟨hsame, -⟩ | hkept
        · rw [← hsame, h.2] at hload
          cases hload
        · rw [h.1] at hkept
          cases hkept
  | settle pingKey =>
    have hcache : (s.step cron (.settle pingKey)).server.cache =
        (s.server.cache.settle pingKey).1 := by
      simp only [ProbedInstance.step, resumeAll_cache]
    rcases s.server.cache.settle_cases pingKey with
      hsettle | ⟨metadata, callers, hload, hsettle⟩
    · simp only [KeepsNothing, hcache, hsettle]
      exact h
    · simp only [KeepsNothing, hcache, hsettle, OrderedMap.get?_delete]
      refine ⟨h.1, ?_⟩
      split
      · rfl
      · exact h.2
  | fail pingKey =>
    rcases s.server.cache.fail_cases pingKey with hcache | hcache
    · simp only [KeepsNothing, ProbedInstance.step, hcache]
      exact h
    · simp only [KeepsNothing, ProbedInstance.step, hcache, OrderedMap.get?_delete]
      refine ⟨h.1, ?_⟩
      split
      · rfl
      · exact h.2
  | elapse ms => exact h

/-- Probes for different keys that nothing is kept of find nothing kept of theirs. -/
theorem along_keepsNothing {es : List ProbeEvent}
    (hdistinct : (es.filterMap ProbeEvent.pingKey?).Nodup)
    (hnothing : ∀ pingKey ∈ es.filterMap ProbeEvent.pingKey?, s.KeepsNothing pingKey) :
    Along (step cron)
      (fun s e => ∀ heartbeat, e = .ingest heartbeat →
        s.KeepsNothing heartbeat.command.pingKey) s es := by
  induction es generalizing s with
  | nil => trivial
  | cons e es ih =>
    have hprobe : ∀ heartbeat, e = .ingest heartbeat →
        s.KeepsNothing heartbeat.command.pingKey := by
      rintro heartbeat rfl
      exact hnothing _ (by simp [ProbeEvent.pingKey?])
    refine ⟨hprobe, ih ?_ fun pingKey hlater => ?_⟩
    · exact hdistinct.sublist ((List.sublist_cons_self e es).filterMap _)
    · have hasked : pingKey ∈ (e :: es).filterMap ProbeEvent.pingKey? :=
        ((List.sublist_cons_self e es).filterMap _).subset hlater
      refine (hnothing pingKey hasked).step hprobe fun hsame => ?_
      rw [List.filterMap_cons, hsame] at hdistinct
      exact (List.nodup_cons.mp hdistinct).1 hlater

/-- A step that charges nothing keeps what is under way within the window. -/
theorem Probed.uncharged (h : s.Probed source) {server : ServerInstance}
    (hlimiter : server.unknownKeyLimiter = s.server.unknownKeyLimiter)
    (hloads : ∀ pingKey load, server.cache.inFlight.get? pingKey = some load →
      IsProbe source load)
    (hfits : server.cache.inFlight.size + s.server.unknownKeyLimiter.spent source s.clock ≤
      s.server.unknownKeyLimiter.limit) : Probed source { s with server } where
  loads := hloads
  fits := by
    dsimp only
    rw [hlimiter]
    exact hfits
  lasting := by
    dsimp only
    rw [hlimiter]
    exact h.lasting
  unopened := by
    dsimp only
    rw [hlimiter]
    exact h.unopened
  opened := by
    dsimp only
    rw [hlimiter]
    exact h.opened

/-- A load that changes phase is the same probe. -/
theorem Probed.advance (h : s.Probed source) {load load' : Load PendingHeartbeat}
    (hload : s.server.cache.inFlight.get? pingKey = some load) (hprobe : IsProbe source load')
    {cache : CheckMetadataCache PendingHeartbeat}
    (hcache : cache.inFlight = s.server.cache.inFlight.set pingKey load') :
    Probed source { s with server.cache := cache } := by
  refine h.uncharged rfl (fun key other hother => ?_) ?_
  · rw [hcache, OrderedMap.get?_set] at hother
    split at hother
    · cases hother
      exact hprobe
    · exact h.loads key other hother
  · rw [hcache, OrderedMap.size_set_of_some hload]
    exact h.fits

/-- **A charge** fits into the window, or opens one. -/
theorem Probed.charge (h : s.Probed source)
    {inFlight : OrderedMap Uuid (Load PendingHeartbeat)}
    (hloads : ∀ pingKey load, inFlight.get? pingKey = some load → IsProbe source load)
    (hsize : inFlight.size + 1 = s.server.cache.inFlight.size) :
    Probed source { s with
      server.cache.inFlight := inFlight
      server.unknownKeyLimiter := (s.server.unknownKeyLimiter.hit source s.clock).1
      wasted := s.wasted ++ [s.clock] } := by
  have hfits := h.fits
  have hlasting := h.lasting
  have ⟨hlimit, hms⟩ := s.server.unknownKeyLimiter.hit_settings source s.clock
  rcases s.server.unknownKeyLimiter.get?_hit source s.clock with
    ⟨hover, hwindow⟩ | ⟨window, hthere, hlasts, hwindow⟩
  · -- a new window opens, after everything that was charged before
    have hbefore : ∀ t ∈ s.wasted, t < s.clock := by
      intro t ht
      cases hthere : s.server.unknownKeyLimiter.windows.get? source with
      | none =>
        rw [h.unopened hthere] at ht
        cases ht
      | some window =>
        have hreset := (h.opened window hthere).2.2 t ht
        have hnow := hover window hthere
        omega
    have hnone : (s.wasted.filter fun t => s.clock ≤ t) = [] :=
      List.filter_eq_nil_iff.mpr fun t ht => by simpa using hbefore t ht
    refine ⟨hloads, ?_, ?_, ?_, fun window' hwindow' => ?_⟩
    · simp only [RateLimiter.spent, hwindow, hlimit]
      split <;> omega
    · simpa only [hms] using hlasting
    · simp only [hwindow, reduceCtorEq, false_implies]
    · rw [hwindow] at hwindow'
      cases hwindow'
      simp only [hms, hlimit, Int.add_sub_cancel, List.filter_append, hnone]
      refine ⟨by omega, by simp, fun t ht => ?_⟩
      rcases List.mem_append.mp ht with hold | hnew
      · have := hbefore t hold
        omega
      · rw [List.mem_singleton.mp hnew]
        omega
  · have hspent : s.server.unknownKeyLimiter.spent source s.clock = window.count := by
      simp only [RateLimiter.spent, hthere, if_pos hlasts]
    rw [hspent] at hfits
    have hroom : ¬ s.server.unknownKeyLimiter.limit ≤ window.count := by omega
    rw [if_neg hroom] at hwindow
    obtain ⟨hcount, hcharged, hbefore⟩ := h.opened window hthere
    refine ⟨hloads, ?_, ?_, ?_, fun window' hwindow' => ?_⟩
    · simp only [RateLimiter.spent, hwindow, hlimit, if_pos hlasts]
      omega
    · simpa only [hms] using hlasting
    · simp only [hwindow, reduceCtorEq, false_implies]
    · rw [hwindow] at hwindow'
      cases hwindow'
      simp only [hms, hlimit, List.filter_append, List.length_append]
      refine ⟨by omega, ?_, fun t ht => ?_⟩
      · have hone := List.length_filter_le
          (fun t => decide (window.resetAt - s.server.unknownKeyLimiter.windowMs ≤ t)) [s.clock]
        rw [List.length_singleton] at hone
        omega
      · rcases List.mem_append.mp ht with hold | hnew
        · exact hbefore t hold
        · rw [List.mem_singleton.mp hnew]
          exact hlasts

/-- **One step** of a probe whose lookup is sent within the budget. -/
theorem Probed.step (h : s.Probed source)
    (hsource : ∀ heartbeat, e = .ingest heartbeat → heartbeat.source = source)
    (hunknown : ∀ pingKey db, e = .query pingKey db → lookupSql pingKey db = none)
    (hnothing : ∀ heartbeat, e = .ingest heartbeat → s.KeepsNothing heartbeat.command.pingKey)
    (hwithin : s.SendsWithinBudget e) : Probed source (s.step cron e) := by
  cases e with
  | ingest heartbeat =>
    obtain ⟨hlimiter, hcache | ⟨hlooks, hcache⟩⟩ :=
      ingest_cases cron (hnothing heartbeat rfl)
    · refine h.uncharged hlimiter ?_ ?_
      · rw [hcache]
        exact h.loads
      · rw [hcache]
        exact h.fits
    · refine h.uncharged hlimiter (fun key load hload => ?_) ?_
      · rw [hcache, OrderedMap.get?_set] at hload
        split at hload
        · cases hload
          exact ⟨_, rfl, hsource heartbeat rfl, fun _ hphase => by cases hphase⟩
        · exact h.loads key load hload
      · rw [hcache, OrderedMap.size_set_of_none (hnothing heartbeat rfl).2]
        have hroom := hwithin hlooks
        rw [hsource heartbeat rfl] at hroom
        omega
  | query pingKey db =>
    rcases s.server.cache.query_cases pingKey db with hcache | ⟨callers, hload, hcache⟩
    · simp only [ProbedInstance.step, hcache]
      exact h
    · simp only [ProbedInstance.step]
      obtain ⟨pending, hcallers, hpending, -⟩ := h.loads pingKey _ hload
      have hprobe : IsProbe source ⟨.answered (lookupSql pingKey db), callers⟩ := by
        refine ⟨pending, hcallers, hpending, fun metadata hphase => ?_⟩
        cases hphase
        exact hunknown pingKey db rfl
      exact h.advance hload hprobe (congrArg CheckMetadataCache.inFlight hcache)
  | store pingKey =>
    rcases s.server.cache.answer_cases s.clock pingKey with
      hcache | ⟨metadata, callers, hload, hcache⟩
    · simp only [ProbedInstance.step, hcache]
      exact h
    · simp only [ProbedInstance.step]
      obtain ⟨pending, hcallers, hpending, hnone⟩ := h.loads pingKey _ hload
      have hprobe : IsProbe source ⟨.stored metadata, callers⟩ := by
        refine ⟨pending, hcallers, hpending, fun _ hphase => ?_⟩
        cases hphase
        exact hnone metadata rfl
      exact h.advance hload hprobe (congrArg CheckMetadataCache.inFlight hcache)
  | settle pingKey =>
    rcases s.server.cache.settle_cases pingKey with
      hsettle | ⟨metadata, callers, hload, hsettle⟩
    · simp only [ProbedInstance.step, hsettle]
      exact h
    · obtain ⟨pending, hcallers, hpending, hnone⟩ := h.loads pingKey _ hload
      obtain rfl : callers = [pending] := hcallers
      obtain rfl := hnone metadata rfl
      simp only [ProbedInstance.step, hsettle, List.map_singleton, ServerInstance.resumeAll,
        ServerInstance.resume, hpending]
      refine h.charge (fun key load hother => ?_) (OrderedMap.size_delete_of_some hload)
      rw [OrderedMap.get?_delete] at hother
      split at hother
      · cases hother
      · exact h.loads key load hother
  | fail pingKey =>
    rcases s.server.cache.fail_cases pingKey with hcache | hcache
    · simp only [ProbedInstance.step, hcache]
      exact h
    · simp only [ProbedInstance.step, hcache]
      refine h.uncharged rfl (fun key load hother => ?_) ?_
      · rw [OrderedMap.get?_delete] at hother
        split at hother
        · cases hother
        · exact h.loads key load hother
      · exact Nat.le_trans
          (Nat.add_le_add_right (OrderedMap.size_delete_le _ _) _) h.fits
  | elapse ms =>
    refine ⟨h.loads, ?_, h.lasting, h.unopened, h.opened⟩
    have hlater : s.clock ≤ s.clock + ms := by omega
    exact Nat.le_trans (Nat.add_le_add_left (RateLimiter.spent_le hlater) _) h.fits

/-- What is charged within the budget is within it. -/
theorem Probed.withinBudget (h : s.Probed source) : s.WithinBudget source := by
  intro window hwindow
  have ⟨hcount, hcharged, _⟩ := h.opened window hwindow
  exact Nat.le_trans hcharged hcount

end ProbedInstance

/-- **The budget of unknown keys bounds the lookups that find no check**, where every lookup
is sent while the lookups under way and the budget spent leave room for it. No lookup is
sent while the budget is spent. -/
theorem probes_within_budget (cron : CronParser) (source : String) (s : ProbedInstance)
    (probes : List ProbeEvent) (hidle : s.server.cache.inFlight.entries = [])
    (hunwasted : s.wasted = [])
    (hwindow : ∀ window ∈ s.server.unknownKeyLimiter.windows.get? source,
      window.count ≤ s.server.unknownKeyLimiter.limit)
    (hlasting : 0 < s.server.unknownKeyLimiter.windowMs)
    (hsource : ∀ heartbeat, .ingest heartbeat ∈ probes → heartbeat.source = source)
    (hdistinct : (probes.filterMap ProbeEvent.pingKey?).Nodup)
    (hunseen : ∀ pingKey ∈ probes.filterMap ProbeEvent.pingKey?,
      s.server.cache.entries.get? pingKey = none)
    (hunknown : ∀ pingKey db, .query pingKey db ∈ probes → lookupSql pingKey db = none)
    (hwithin : Along (ProbedInstance.step cron) ProbedInstance.SendsWithinBudget s probes) :
    Throughout (ProbedInstance.step cron) (ProbedInstance.WithinBudget source) s probes ∧
      Along (ProbedInstance.step cron) (ProbedInstance.SendsNothingWhenSpent cron) s probes := by
  have hnothing : ∀ pingKey ∈ probes.filterMap ProbeEvent.pingKey?, s.KeepsNothing pingKey := by
    intro pingKey hasked
    refine ⟨hunseen pingKey hasked, ?_⟩
    simp [OrderedMap.get?, hidle]
  have hstart : s.Probed source := by
    refine ⟨fun pingKey load hload => ?_, ?_, hlasting, fun _ => hunwasted, fun window h => ?_⟩
    · simp [OrderedMap.get?, hidle] at hload
    · rw [OrderedMap.size, hidle, List.length_nil, Nat.zero_add, RateLimiter.spent]
      split
      · next window h =>
        split
        · exact hwindow window h
        · exact Nat.zero_le _
      · exact Nat.zero_le _
    · rw [hunwasted]
      exact ⟨hwindow window h, Nat.zero_le _, fun t ht => by cases ht⟩
  have hprobes : Along (ProbedInstance.step cron) (fun _ e =>
      (∀ heartbeat, e = .ingest heartbeat → heartbeat.source = source) ∧
        ∀ pingKey db, e = .query pingKey db → lookupSql pingKey db = none) s probes := by
    refine along_of_forall fun e he => ⟨?_, ?_⟩
    · rintro heartbeat rfl
      exact hsource heartbeat he
    · rintro pingKey db rfl
      exact hunknown pingKey db he
  have hadmitted := (hprobes.and (ProbedInstance.along_keepsNothing hdistinct hnothing)).and hwithin
  constructor
  · refine (throughout_of_step (fun s e h hstep => ?_) hstart hadmitted).mono
      fun _ h => h.withinBudget
    exact h.step hstep.1.1.1 hstep.1.1.2 hstep.1.2 hstep.2
  · refine hwithin.mono fun s e _ => ?_
    cases e with
    | ingest heartbeat => exact ProbedInstance.ingest_exceeded
    | query | store | settle | fail | elapse => trivial

/-- An instance that starts, and is probed. -/
def probedInstance : ProbedInstance := ⟨newServerInstance, 0, []⟩

/-- Probes for as many keys, each sent when the answer to the one before is there. -/
def patientProbes (n : ℕ) : List ProbeEvent :=
  (List.range n).flatMap fun pingKey =>
    [.ingest (heartbeatOf pingKey), .query pingKey sampleDatabase, .store pingKey, .settle pingKey,
      .elapse 100]

/-- Probes for as many keys, all sent before the first answer. -/
def hastyProbes (n : ℕ) : List ProbeEvent :=
  (List.range n).map (fun pingKey => .ingest (heartbeatOf pingKey)) ++
    (List.range n).map (fun pingKey => .query pingKey sampleDatabase) ++
    (List.range n).map .store ++ (List.range n).map .settle

/-- A patient prober stays within the budget. -/
theorem probes_within_budget_patient :
    Throughout (ProbedInstance.step sampleServer.cron) (ProbedInstance.WithinBudget "192.0.2.1")
        probedInstance (patientProbes 3) ∧
      Along (ProbedInstance.step sampleServer.cron)
        (ProbedInstance.SendsNothingWhenSpent sampleServer.cron) probedInstance
        (patientProbes 3) ∧
      (run (ProbedInstance.step sampleServer.cron) probedInstance
        (patientProbes 3)).wasted = [0, 100, 200] := by
  have h := probes_within_budget sampleServer.cron "192.0.2.1" probedInstance (patientProbes 3)
    rfl rfl (by decide) (by decide) ?_ (by decide) (fun _ _ => rfl) ?_ (by decide)
  · exact ⟨h.1, h.2, by decide⟩
  · intro heartbeat hmem
    simp only [patientProbes, List.mem_flatMap] at hmem
    obtain ⟨pingKey, -, hmem⟩ := hmem
    simp at hmem
    rw [hmem]
    rfl
  · intro pingKey db hmem
    simp only [patientProbes, List.mem_flatMap] at hmem
    obtain ⟨key, -, hmem⟩ := hmem
    simp at hmem
    rw [hmem.2]
    rfl

/-- A hasty one has sixty-one lookups within a budget of sixty. -/
theorem hasty_probes_exceed_budget :
    ¬ ∀ (cron : CronParser) (source : String) (s : ProbedInstance) (probes : List ProbeEvent),
      s.server.cache.inFlight.entries = [] → s.wasted = [] →
      (∀ window ∈ s.server.unknownKeyLimiter.windows.get? source,
        window.count ≤ s.server.unknownKeyLimiter.limit) →
      0 < s.server.unknownKeyLimiter.windowMs →
      (∀ heartbeat, .ingest heartbeat ∈ probes → heartbeat.source = source) →
      (probes.filterMap ProbeEvent.pingKey?).Nodup →
      (∀ pingKey ∈ probes.filterMap ProbeEvent.pingKey?,
        s.server.cache.entries.get? pingKey = none) →
      (∀ pingKey db, .query pingKey db ∈ probes → lookupSql pingKey db = none) →
      Throughout (ProbedInstance.step cron) (ProbedInstance.WithinBudget source) s probes ∧
        Along (ProbedInstance.step cron) (ProbedInstance.SendsNothingWhenSpent cron) s probes := by
  intro h
  have hlast := (h sampleServer.cron "192.0.2.1" probedInstance (hastyProbes 61)
    rfl rfl (by decide) (by decide) ?_ (by decide) (fun _ _ => rfl) ?_).1.last
  · revert hlast
    unfold ProbedInstance.WithinBudget
    decide +kernel
  · intro heartbeat hmem
    simp [hastyProbes] at hmem
    obtain ⟨pingKey, -, hmem⟩ := hmem
    rw [← hmem]
    rfl
  · intro pingKey db hmem
    simp [hastyProbes] at hmem
    rw [← hmem.2]
    rfl

end SilenceWatch
