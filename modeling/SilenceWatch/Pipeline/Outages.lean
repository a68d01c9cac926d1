import SilenceWatch.Pipeline.States

/-!
# The incident log mirrors the outages

State and incident are reconciled by two statements after the fact. An observer of the
system keeps for every check the periods it was down; as long as a tick completes
between the changes of its state, the incidents of the check are these periods.
-/

namespace SilenceWatch

open Relational Transition Chronicle

/-- The system under an observer, who reads the states and remembers. -/
structure OutageWatch where
  pipeline : Pipeline
  /-- Since the tick began nothing was written besides, and its batches sufficed. -/
  quiet : Bool
  /-- The last action completed such a tick. -/
  swept : Bool
  /-- Such a tick has completed since the last change of the state of the check. -/
  settled : Uuid → Bool
  /-- The maximal periods the check was down. -/
  outages : Uuid → List (Span ℤ)

/-- The action writes a check or an incident besides the tick, or fails it. -/
def Action.disturbs : Action → Bool
  | .write _ => true
  | .tickFails => true
  | .purgeIncidents _ _ => true
  | _ => false

/-- The rows that others lock while the action takes a statement of the tick. -/
def Action.tickLocks : Action → Option (Uuid → Bool)
  | .tick locked => some locked
  | _ => none

/-- The action writes no check and no incident besides the tick, and one batch takes all
the incidents that the tick has to open or to resolve. -/
def Pipeline.Undisturbed (st : Settings) (s : Pipeline) (a : Action) : Prop :=
  a.disturbs = false ∧ ∀ locked ∈ a.tickLocks,
    (s.tick = .opening → (∀ c ∈ s.db.checks.rows, locked c.id = false) ∧
      s.db.checks.rows.countP (fun c => s.db.NeedsIncident c) ≤ st.detectionBatchSize) ∧
    (s.tick = .resolving → (∀ i ∈ s.db.incidents.rows, locked i.id = false) ∧
      s.db.incidents.rows.countP (fun i => s.db.Resolvable i) ≤ st.detectionBatchSize)
  deriving Decidable

/-- The action begins a tick. -/
def Pipeline.Begins (s : Pipeline) (a : Action) : Prop :=
  a.tickLocks.isSome ∧ s.tick = .idle
  deriving Decidable

/-- The action ends a tick when it leaves the loop idle. -/
def Pipeline.Ends (s : Pipeline) (a : Action) : Prop :=
  a.tickLocks.isSome ∧ (s.tick matches .resolving | .recovering _)
  deriving Decidable

/-- What an observer makes of a state before and after an action: a check that has just
been created counts as settled, one that is removed is forgotten. -/
def settledAfter (state state' : Option CheckState) (settled : Bool) : Bool :=
  match state, state' with
  | some state, some state' => decide (state = state') && settled
  | _, _ => true

/-- The periods a check was down, after an action at `now`. -/
def outagesAfter (now : ℤ) (state state' : Option CheckState) (outages : List (Span ℤ)) :
    List (Span ℤ) :=
  match state' with
  | none => []
  | some .down => if state = some .down then outages else outages ++ [⟨now, none⟩]
  | some _ => outages.map (Span.finish now)

/-- One action, observed. -/
def OutageWatch.step (srv : Server) (st : Settings) (w : OutageWatch) (a : Action) : OutageWatch :=
  let s := w.pipeline
  let s' := act srv st s a
  let quiet := decide (s.Undisturbed st a ∧ (s.Begins a ∨ w.quiet = true))
  let swept := quiet && decide (s.Ends a ∧ s'.tick = .idle)
  { pipeline := s'
    quiet
    swept
    settled := fun checkId =>
      swept || settledAfter (s.db.stateOf checkId) (s'.db.stateOf checkId) (w.settled checkId)
    outages := fun checkId =>
      outagesAfter s'.clock (s.db.stateOf checkId) (s'.db.stateOf checkId) (w.outages checkId) }

/-- An observer who has seen nothing yet. -/
def OutageWatch.start (s : Pipeline) : OutageWatch where
  pipeline := s
  quiet := false
  swept := false
  settled := fun _ => true
  outages := fun _ => []

/-- A change of the state of the check waits until a quiet tick has completed after the
change before. -/
def OutageWatch.Awaits (srv : Server) (st : Settings) (checkId : Uuid) (w : OutageWatch)
    (a : Action) : Prop :=
  (act srv st w.pipeline a).db.stateOf checkId ≠ w.pipeline.db.stateOf checkId →
    (w.pipeline.db.stateOf checkId).isSome → w.settled checkId = true
  deriving Decidable

/-- Quota does not give the check back while it is down, and detection does not move it
before its last incident is resolved. -/
def Pipeline.SparesOutage (st : Settings) (checkId : Uuid) (s : Pipeline) (a : Action) : Prop :=
  (s.GivesBack checkId a → s.db.stateOf checkId ≠ some .down) ∧
    (s.Advances st checkId a → s.db.openIncidents checkId = [])
  deriving Decidable

section Tick

variable {srv : Server} {st : Settings} {w : OutageWatch} {a : Action}

/-- What a quiet tick has reconciled by now, and what the last one had at its end. -/
structure OutageWatch.Reconciled (w : OutageWatch) : Prop where
  opened : w.quiet = true → (w.pipeline.tick matches .announcing _ | .resolving | .recovering _) →
    w.pipeline.db.Opened
  cleared : w.quiet = true → (w.pipeline.tick matches .recovering _) → w.pipeline.db.Cleared
  swept : w.swept = true → w.pipeline.db.Opened ∧ w.pipeline.db.Cleared

/-- An observed action was quiet if it disturbed nothing and began or continued a tick. -/
theorem OutageWatch.step_quiet (h : (w.step srv st a).quiet = true) :
    w.pipeline.Undisturbed st a ∧ (w.pipeline.Begins a ∨ w.quiet = true) := by
  simpa [OutageWatch.step] using h

/-- An observed action completes a quiet tick. -/
theorem OutageWatch.step_swept (h : (w.step srv st a).swept = true) :
    (w.step srv st a).quiet = true ∧ w.pipeline.Ends a ∧
      (act srv st w.pipeline a).tick = .idle := by
  simpa [OutageWatch.step] using h

/-- What one quiet action leaves of what its tick has reconciled. -/
structure Leaves (s : Pipeline) (a : Action) (s' : Pipeline) : Prop where
  opened : (s'.tick matches .announcing _ | .resolving | .recovering _) → s'.db.Opened
  cleared : (s'.tick matches .recovering _) → s'.db.Cleared
  ended : s.Ends a → s'.tick = .idle → s'.db.Opened ∧ s'.db.Cleared

/-- An action beside the tick leaves what it has reconciled. -/
theorem Leaves.of_same {s s' : Pipeline} {a : Action}
    (hopened : (s.tick matches .announcing _ | .resolving | .recovering _) → s.db.Opened)
    (hcleared : (s.tick matches .recovering _) → s.db.Cleared)
    (htick : s'.tick = s.tick) (hchecks : s'.db.checks = s.db.checks)
    (hincidents : s'.db.incidents = s.db.incidents) (hends : ¬ s.Ends a) : Leaves s a s' where
  opened h := by
    unfold Database.Opened
    rw [hchecks, hincidents]
    exact hopened (htick ▸ h)
  cleared h := by
    unfold Database.Cleared Database.Resolvable
    rw [hchecks, hincidents]
    exact hcleared (htick ▸ h)
  ended h := absurd h hends

/-- **A quiet tick reconciles incidents with states**, one action. -/
theorem OutageWatch.Reconciled.leaves (h : w.Reconciled)
    (hundisturbed : w.pipeline.Undisturbed st a) (hquiet : w.pipeline.Begins a ∨ w.quiet = true) :
    Leaves w.pipeline a (act srv st w.pipeline a) := by
  have hrest (hbegins : ¬ w.pipeline.Begins a) : w.quiet = true :=
    hquiet.resolve_left hbegins
  have hstep := act_cases srv st w.pipeline a
  generalize act srv st w.pipeline a = s' at hstep
  cases hstep with
  | write => exact absurd hundisturbed.1 Bool.noConfusion
  | tickFails => exact absurd hundisturbed.1 Bool.noConfusion
  | purgeIncidents => exact absurd hundisturbed.1 Bool.noConfusion
  | startTick htick =>
    refine ⟨fun hphase => ?_, fun hphase => ?_, fun hends => ?_⟩
    · cases hphase
    · cases hphase
    · simp [Pipeline.Ends, htick] at hends
  | advance htick hphase =>
    refine ⟨fun hmatch => ?_, fun hmatch => ?_, fun hends => ?_⟩
    · rcases hphase with rfl | rfl <;> cases hmatch
    · rcases hphase with rfl | rfl <;> cases hmatch
    · simp [Pipeline.Ends, htick] at hends
  | @openIncidents locked htick =>
    obtain ⟨hfree, hcount⟩ := (hundisturbed.2 locked rfl).1 htick
    refine ⟨fun _ => opened_openIncidentsSql hfree hcount, fun hmatch => ?_, fun hends => ?_⟩
    · dsimp only at hmatch
      by_cases hnone :
          (openIncidentsSql w.pipeline.clock st.detectionBatchSize locked w.pipeline.db).2 = []
      · simp [hnone] at hmatch
      · simp [hnone] at hmatch
    · simp [Pipeline.Ends, htick] at hends
  | announce htick _ =>
    have hq := hrest fun hbegins => by simp [Pipeline.Begins, htick] at hbegins
    refine ⟨fun _ => ?_, fun hmatch => ?_, fun hends => ?_⟩
    · exact h.opened hq (by rw [htick])
    · cases hmatch
    · simp [Pipeline.Ends, htick] at hends
  | announceFails htick _ =>
    refine ⟨fun hmatch => ?_, fun hmatch => ?_, fun hends => ?_⟩
    · cases hmatch
    · cases hmatch
    · simp [Pipeline.Ends, htick] at hends
  | @resolveIncidents locked htick =>
    have hq := hrest fun hbegins => by simp [Pipeline.Begins, htick] at hbegins
    obtain ⟨hfree, hcount⟩ := (hundisturbed.2 locked rfl).2 htick
    have hopened : (resolveIncidentsSql w.pipeline.clock st.detectionBatchSize locked
        w.pipeline.db).1.Opened := opened_resolveIncidentsSql (h.opened hq (by rw [htick]))
    have hcleared : (resolveIncidentsSql w.pipeline.clock st.detectionBatchSize locked
        w.pipeline.db).1.Cleared := cleared_resolveIncidentsSql hfree hcount
    exact ⟨fun _ => hopened, fun _ => hcleared, fun _ _ => ⟨hopened, hcleared⟩⟩
  | recover htick _ =>
    have hq := hrest fun hbegins => by simp [Pipeline.Begins, htick] at hbegins
    refine ⟨fun hmatch => ?_, fun hmatch => ?_, fun _ _ => ?_⟩
    · cases hmatch
    · cases hmatch
    · exact ⟨h.opened hq (by rw [htick]), h.cleared hq (by rw [htick])⟩
  | recoverFails htick _ =>
    have hq := hrest fun hbegins => by simp [Pipeline.Begins, htick] at hbegins
    refine ⟨fun hmatch => ?_, fun hmatch => ?_, fun _ _ => ?_⟩
    · cases hmatch
    · cases hmatch
    · exact ⟨h.opened hq (by rw [htick]), h.cleared hq (by rw [htick])⟩
  | drain _ hstep =>
    have hq := hrest fun hbegins => Bool.noConfusion hbegins.1
    have hdb := hstep.redelivers.1
    exact Leaves.of_same (h.opened hq) (h.cleared hq) rfl (by dsimp only; rw [hdb])
      (by dsimp only; rw [hdb]) fun hends => Bool.noConfusion hends.1
  | _ =>
    have hq := hrest fun hbegins => Bool.noConfusion hbegins.1
    exact Leaves.of_same (h.opened hq) (h.cleared hq) rfl rfl rfl fun hends =>
      Bool.noConfusion hends.1

/-- An observed action keeps track of what is reconciled. -/
theorem OutageWatch.Reconciled.step (h : w.Reconciled) : (w.step srv st a).Reconciled := by
  have hleaves (hq : (w.step srv st a).quiet = true) :
      Leaves w.pipeline a (act srv st w.pipeline a) :=
    h.leaves (OutageWatch.step_quiet hq).1 (OutageWatch.step_quiet hq).2
  refine ⟨fun hq => (hleaves hq).opened, fun hq => (hleaves hq).cleared, fun hswept => ?_⟩
  obtain ⟨hq, hends, hidle⟩ := OutageWatch.step_swept hswept
  exact (hleaves hq).ended hends hidle

end Tick

section Mirror

variable {srv : Server} {st : Settings} {s : Pipeline} {w : OutageWatch} {a : Action}
  {checkId : Uuid}

/-- How far the log of a check may lag, given its state and whether a tick has completed
since it changed. -/
def FitsState (state : Option CheckState) (settled : Bool) : SpanPhase → Prop
  | .resting => state ≠ some .down
  | .begun => state = some .down ∧ settled = false
  | .running => state = some .down
  | .ended => (state = some .up ∨ state = some .paused) ∧ settled = false

/-- The log of the check mirrors its outages, as far as its state allows. -/
structure OutageWatch.Mirrored (checkId : Uuid) (w : OutageWatch) : Prop where
  absent : w.pipeline.db.stateOf checkId = none → w.pipeline.db.incidentLog checkId = []
  mirrors : ∃ phase,
    Mirrors w.pipeline.clock (w.pipeline.db.incidentLog checkId) (w.outages checkId) phase ∧
      FitsState (w.pipeline.db.stateOf checkId) (w.settled checkId) phase

/-- A state that does not change. -/
theorem settledAfter_self (state : CheckState) (settled : Bool) :
    settledAfter (some state) (some state) settled = settled := by
  simp [settledAfter]

/-- A state that changes. -/
theorem settledAfter_of_ne {state state' : CheckState} (settled : Bool) (hne : state ≠ state') :
    settledAfter (some state) (some state') settled = false := by
  simp [settledAfter, hne]

/-- Outages end when the check is not down. -/
theorem outagesAfter_of_ne_down {now : ℤ} {state : Option CheckState} {state' : CheckState}
    {outages : List (Span ℤ)} (hne : state' ≠ .down) :
    outagesAfter now state (some state') outages = outages.map (Span.finish now) := by
  cases state' with
  | down => exact absurd rfl hne
  | _ => rfl

/-- What an action makes of the log and the outages of a check whose state it leaves. -/
theorem mirrors_of_same {now : ℤ} {log outages : List (Span ℤ)} {phase : SpanPhase}
    {state : CheckState} {settled : Bool} (h : Mirrors now log outages phase)
    (hfits : FitsState (some state) settled phase) :
    Mirrors now log (outagesAfter now (some state) (some state) outages) phase := by
  by_cases hdown : state = .down
  · subst hdown
    exact h
  · have hphase : phase = .resting ∨ phase = .ended := by
      cases phase with
      | resting => exact Or.inl rfl
      | begun => exact absurd (Option.some.inj hfits.1) hdown
      | running => exact absurd (Option.some.inj hfits) hdown
      | ended => exact Or.inr rfl
    rw [outagesAfter_of_ne_down hdown, map_finish_eq_self (h.periods_stop hphase)]
    exact h

/-- A check that changes its state while its log rests. -/
theorem mirrors_of_resting {now : ℤ} {log outages : List (Span ℤ)} {state : Option CheckState}
    {state' : CheckState} {settled : Bool} (h : Mirrors now log outages .resting)
    (hstate : state ≠ some .down) (hsettled : settled = false ∨ state' ≠ .down) :
    ∃ phase, Mirrors now log (outagesAfter now state (some state') outages) phase ∧
      FitsState (some state') settled phase := by
  by_cases hdown : state' = .down
  · subst hdown
    refine ⟨.begun, ?_, rfl, hsettled.resolve_right fun hne => hne rfl⟩
    simp only [outagesAfter, if_neg hstate]
    exact h.begins
  · refine ⟨.resting, ?_, fun heq => hdown (Option.some.inj heq)⟩
    rw [outagesAfter_of_ne_down hdown, map_finish_eq_self (h.periods_stop (Or.inl rfl))]
    exact h

/-- A check that comes up or is paused while its log runs. -/
theorem mirrors_of_running {now : ℤ} {log outages : List (Span ℤ)} {state : Option CheckState}
    {state' : CheckState} (h : Mirrors now log outages .running)
    (hstate' : state' = .up ∨ state' = .paused) :
    ∃ phase, Mirrors now log (outagesAfter now state (some state') outages) phase ∧
      FitsState (some state') false phase := by
  have hdown : state' ≠ .down := by
    rintro rfl
    simp at hstate'
  refine ⟨.ended, ?_, by simpa using hstate', rfl⟩
  rw [outagesAfter_of_ne_down hdown]
  exact h.ends

/-- Detection moves no check that is down. -/
theorem Pipeline.Advances.ne_down (h : s.Advances st checkId a) :
    s.db.stateOf checkId ≠ some .down := by
  have hdue (limit : ℕ) (locked : Uuid → Bool)
      (hbatch : ∃ c ∈ dueBatch s.clock limit locked s.db, c.id = checkId) :
      s.db.stateOf checkId ≠ some .down := by
    obtain ⟨c, hc, rfl⟩ := hbatch
    obtain ⟨hrow, ⟨_, _, _, hstate, _⟩, _⟩ := mem_of_mem_select _ _ hc
    rw [Database.stateOf_of_mem hrow]
    rcases hstate with hstate | hstate | hstate <;> simp [hstate]
  unfold Pipeline.Advances Pipeline.dueChecks at h
  split at h
  · exact hdue _ _ h
  · split at h
    · exact hdue _ _ h
    · simp at h
  · simp at h

/-- A settled check has a log that rests or runs. -/
theorem FitsState.of_settled {state : Option CheckState} {settled : Bool} {phase : SpanPhase}
    (h : FitsState state settled phase) (hsettled : settled = true) :
    phase = .resting ∨ phase = .running ∧ state = some .down := by
  cases phase with
  | resting => exact Or.inl rfl
  | begun => exact absurd (hsettled.symm.trans h.2) (by simp)
  | running => exact Or.inr ⟨rfl, h⟩
  | ended => exact absurd (hsettled.symm.trans h.2) (by simp)

/-- A detection transition that waits for a quiet tick finds the last incident resolved. -/
theorem OutageWatch.Mirrored.openIncidents_eq_nil (h : w.Mirrored checkId)
    (hadvances : w.pipeline.Advances st checkId a) (hsettled : w.settled checkId = true) :
    w.pipeline.db.openIncidents checkId = [] := by
  obtain ⟨_, phase, hmirrors, hfits⟩ := h
  rw [Database.openIncidents_eq_nil_iff]
  intro entry hentry hopen
  rcases hfits.of_settled hsettled with rfl | ⟨_, hdown⟩
  · have hphase := hmirrors.open_iff.mp ⟨entry, hentry, hopen⟩
    simp at hphase
  · exact hadvances.ne_down hdown

/-- **The log of a check follows its outages**, one action that leaves its incidents. -/
theorem OutageWatch.Mirrored.of_same_log (h : w.Mirrored checkId)
    (hawaits : w.Awaits srv st checkId a ∨ w.pipeline.Advances st checkId a)
    (hspares : w.pipeline.SparesOutage st checkId a)
    {state' : CheckState} (hstate' : (act srv st w.pipeline a).db.stateOf checkId = some state') :
    ∃ phase, Mirrors (act srv st w.pipeline a).clock (w.pipeline.db.incidentLog checkId)
        (outagesAfter (act srv st w.pipeline a).clock (w.pipeline.db.stateOf checkId)
          (some state') (w.outages checkId)) phase ∧
      FitsState (some state')
        (settledAfter (w.pipeline.db.stateOf checkId) (some state') (w.settled checkId)) phase := by
  obtain ⟨_, phase, hmirrors, hfits⟩ := h
  have hclock : w.pipeline.clock ≤ (act srv st w.pipeline a).clock := clock_le_act
  replace hmirrors := hmirrors.mono hclock
  have hstep := act_stateStep srv st w.pipeline a checkId
  rw [hstate'] at hstep
  cases hstate : w.pipeline.db.stateOf checkId with
  | none =>
    rw [hstate] at hstep hfits
    have hphase : phase = .resting := by
      cases phase with
      | resting => rfl
      | _ => simp [FitsState] at hfits
    subst hphase
    cases hstep with
    | created => exact mirrors_of_resting hmirrors (by simp) (Or.inr (by simp))
  | some state =>
    rw [hstate] at hfits
    by_cases hsame : state = state'
    · subst hsame
      rw [settledAfter_self]
      exact ⟨phase, mirrors_of_same hmirrors hfits, hfits⟩
    · rw [settledAfter_of_ne _ hsame]
      by_cases hadvances : w.pipeline.Advances st checkId a
      · -- A detection transition finds the log at rest: nothing is down or open.
        have hclosed := Database.openIncidents_eq_nil_iff.mp (hspares.2 hadvances)
        have hdown := hadvances.ne_down
        rw [hstate] at hdown
        have hphase : phase = .resting := by
          cases phase with
          | resting => rfl
          | begun => exact absurd hfits.1 hdown
          | running => exact absurd hfits hdown
          | ended =>
            obtain ⟨entry, hentry, hopen⟩ := hmirrors.open_iff.mpr (Or.inr rfl)
            exact absurd hopen (hclosed entry hentry)
        subst hphase
        exact mirrors_of_resting hmirrors hdown (Or.inl rfl)
      · have hsettled : w.settled checkId = true := by
          refine hawaits.resolve_right hadvances ?_ (by rw [hstate]; rfl)
          rw [hstate', hstate]
          exact fun heq => hsame (Option.some.inj heq).symm
        rcases hfits.of_settled hsettled with rfl | ⟨rfl, hdown⟩
        · exact mirrors_of_resting hmirrors hfits (Or.inl rfl)
        · refine mirrors_of_running hmirrors ?_
          obtain rfl := Option.some.inj hdown
          rw [hstate] at hstep
          rcases hstep.of_down rfl fun heq => hsame (Option.some.inj heq).symm with
            hnone | hup | hpaused | hgives
          · exact absurd hnone (Option.some_ne_none _)
          · exact Or.inl (Option.some.inj hup)
          · exact Or.inr (Option.some.inj hpaused)
          · exact absurd hstate (hspares.1 hgives)

/-- **The log of a check follows its outages**, one action. -/
theorem OutageWatch.Mirrored.changes (h : w.Mirrored checkId)
    (hawaits : w.Awaits srv st checkId a ∨ w.pipeline.Advances st checkId a)
    (hkeeps : a.KeepsIncidents) (hspares : w.pipeline.SparesOutage st checkId a) :
    ∃ phase, Mirrors (act srv st w.pipeline a).clock
        ((act srv st w.pipeline a).db.incidentLog checkId)
        (outagesAfter (act srv st w.pipeline a).clock (w.pipeline.db.stateOf checkId)
          ((act srv st w.pipeline a).db.stateOf checkId) (w.outages checkId)) phase ∧
      FitsState ((act srv st w.pipeline a).db.stateOf checkId)
        (settledAfter (w.pipeline.db.stateOf checkId)
          ((act srv st w.pipeline a).db.stateOf checkId) (w.settled checkId)) phase := by
  have hlog := act_logStep srv st w.pipeline checkId hkeeps
  have hclock : w.pipeline.clock ≤ (act srv st w.pipeline a).clock := clock_le_act
  cases hstate' : (act srv st w.pipeline a).db.stateOf checkId with
  | none =>
    rw [act_incidentLog_of_absent hkeeps h.absent hstate']
    exact ⟨.resting, Mirrors.resting List.Forall₂.nil, Option.some_ne_none _ ∘ Eq.symm⟩
  | some state' =>
    cases hlog with
    | same hlog =>
      rw [hlog]
      exact h.of_same_log hawaits hspares hstate'
    | removed hnone _ => simp [hstate'] at hnone
    | opened hchecks hdown hclosed hlog =>
      -- The entry of a period that has begun.
      obtain ⟨_, phase, hmirrors, hfits⟩ := h
      have hsame : w.pipeline.db.stateOf checkId = some state' := by
        rw [← hstate']
        unfold Database.stateOf Database.findCheck
        rw [hchecks]
      obtain rfl := Option.some.inj (hdown.symm.trans hsame)
      have hphase : phase = .begun := by
        rw [hdown] at hfits
        cases phase with
        | resting => exact absurd rfl hfits
        | begun => rfl
        | running =>
          obtain ⟨entry, hentry, hopen⟩ := hmirrors.open_iff.mpr (Or.inl rfl)
          exact absurd hopen (hclosed entry hentry)
        | ended => simp [FitsState] at hfits
      subst hphase
      rw [hlog, hdown, settledAfter_self]
      exact ⟨.running, (hmirrors.mono hclock).opens, rfl⟩
    | resolved hchecks hstate hopen hlog =>
      -- The entry of a period that is over.
      obtain ⟨_, phase, hmirrors, hfits⟩ := h
      have hsame : w.pipeline.db.stateOf checkId = some state' := by
        rw [← hstate']
        unfold Database.stateOf Database.findCheck
        rw [hchecks]
      rw [hsame] at hstate hfits ⊢
      have hdown : state' ≠ .down := by
        rintro rfl
        simp at hstate
      have hphase : phase = .ended := by
        rcases hmirrors.open_iff.mp hopen with rfl | rfl
        · exact absurd (Option.some.inj hfits) hdown
        · rfl
      subst hphase
      have hover := hmirrors.periods_stop (Or.inr rfl)
      rw [hlog, outagesAfter_of_ne_down hdown, map_finish_eq_self hover]
      exact ⟨.resting, (hmirrors.mono hclock).closes, fun heq => hdown (Option.some.inj heq)⟩

/-- When a quiet tick has completed, the log has caught up. -/
theorem FitsState.of_swept {db : Database} {now : ℤ} {outages : List (Span ℤ)}
    {settled : Bool} {phase : SpanPhase} (hopened : db.Opened) (hcleared : db.Cleared)
    (hmirrors : Mirrors now (db.incidentLog checkId) outages phase)
    (h : FitsState (db.stateOf checkId) settled phase) :
    FitsState (db.stateOf checkId) true phase := by
  cases phase with
  | resting => exact h
  | running => exact h
  | begun =>
    obtain ⟨c, hc, rfl, hdown⟩ := Database.exists_of_stateOf h.1
    obtain ⟨i, hi, hcheck, hopen⟩ := hopened c hc hdown
    have hentry : i.span ∈ db.incidentLog c.id :=
      List.mem_map_of_mem (List.mem_filter.mpr ⟨hi, by simpa using hcheck⟩)
    have hphase := hmirrors.open_iff.mp ⟨i.span, hentry, hopen⟩
    simp at hphase
  | ended =>
    obtain ⟨entry, hentry, hopen⟩ := hmirrors.open_iff.mpr (Or.inr rfl)
    obtain ⟨i, hi, rfl⟩ := List.mem_map.mp hentry
    have hof := List.mem_filter.mp hi
    rcases h.1 with hstate | hstate
    · obtain ⟨c, hc, hid, hup⟩ := Database.exists_of_stateOf hstate
      exact absurd ⟨hopen, c, hc, hid.trans (of_decide_eq_true hof.2).symm, Or.inl hup⟩
        (hcleared i hof.1)
    · obtain ⟨c, hc, hid, hpaused⟩ := Database.exists_of_stateOf hstate
      exact absurd ⟨hopen, c, hc, hid.trans (of_decide_eq_true hof.2).symm, Or.inr hpaused⟩
        (hcleared i hof.1)

/-- **The log of a check mirrors its outages**, one observed action. -/
theorem OutageWatch.Mirrored.step (h : w.Mirrored checkId) (hreconciled : w.Reconciled)
    (hawaits : w.Awaits srv st checkId a ∨ w.pipeline.Advances st checkId a)
    (hkeeps : a.KeepsIncidents)
    (hspares : w.pipeline.SparesOutage st checkId a) : (w.step srv st a).Mirrored checkId := by
  obtain ⟨phase, hmirrors, hfits⟩ := h.changes hawaits hkeeps hspares
  refine ⟨fun hnone => act_incidentLog_of_absent hkeeps h.absent hnone, phase, hmirrors, ?_⟩
  have hreconciled' : (w.step srv st a).Reconciled := hreconciled.step
  change FitsState _ ((w.step srv st a).swept || _) phase
  cases hswept : (w.step srv st a).swept with
  | false => exact hfits
  | true =>
    obtain ⟨hopened, hcleared⟩ := hreconciled'.swept hswept
    exact hfits.of_swept hopened hcleared hmirrors

end Mirror

section Claim

variable {srv : Server} {st : Settings} {s : Pipeline}

/-- The observer does not interfere. -/
theorem run_watched_pipeline (w : OutageWatch) (actions : List Action) :
    (run (OutageWatch.step srv st) w actions).pipeline = run (act srv st) w.pipeline actions := by
  induction actions generalizing w with
  | nil => rfl
  | cons a actions ih => exact ih (w.step srv st a)

/-- A check has at most one open incident, by the index on them. -/
theorem Database.length_openIncidents_le (db : Database) (checkId : Uuid) :
    (db.openIncidents checkId).length ≤ 1 := by
  have hone : ∀ i ∈ db.openIncidents checkId, i.checkId = checkId ∧ i.resolvedAt = none := by
    intro i hi
    obtain ⟨hof, hopen⟩ := List.mem_filter.mp hi
    exact ⟨of_decide_eq_true (List.mem_filter.mp hof).2, of_decide_eq_true hopen⟩
  have hdistinct : (db.openIncidents checkId).Pairwise Incident.Distinct :=
    (db.incidents.distinct.filter _).filter _
  match hopen : db.openIncidents checkId with
  | [] => simp
  | [_] => simp
  | i :: j :: _ =>
    rw [hopen] at hone hdistinct
    have hi := hone i List.mem_cons_self
    have hj := hone j (List.mem_cons_of_mem _ List.mem_cons_self)
    have hij := (List.pairwise_cons.mp hdistinct).1 j List.mem_cons_self
    exact absurd ⟨hi.1.trans hj.1.symm, hi.2, hj.2⟩ hij.2

/-- A check with an open incident has exactly one. -/
theorem Database.length_openIncidents_eq {db : Database} {checkId : Uuid}
    (h : ∃ i ∈ db.incidents.rows, i.checkId = checkId ∧ i.resolvedAt = none) :
    (db.openIncidents checkId).length = 1 := by
  obtain ⟨i, hi, hcheck, hopen⟩ := h
  have hmem : i ∈ db.openIncidents checkId :=
    List.mem_filter.mpr ⟨List.mem_filter.mpr ⟨hi, by simpa using hcheck⟩, by simpa using hopen⟩
  have hle := db.length_openIncidents_le checkId
  have hpos := List.length_pos_of_mem hmem
  omega

/-- In a cleared database a check that is up or paused has no open incident. -/
theorem Database.Cleared.openIncidents_eq_nil {db : Database} (h : db.Cleared) {c : Check}
    (hc : c ∈ db.checks.rows) (hstate : c.state = .up ∨ c.state = .paused) :
    db.openIncidents c.id = [] := by
  refine List.filter_eq_nil_iff.mpr fun i hi hopen => ?_
  obtain ⟨hrow, hcheck⟩ := List.mem_filter.mp hi
  exact h i hrow ⟨of_decide_eq_true hopen, c, hc, (of_decide_eq_true hcheck).symm, hstate⟩

/-- A fresh start has reconciled nothing. -/
theorem OutageWatch.reconciled_start (s : Pipeline) : (OutageWatch.start s).Reconciled where
  opened hquiet := absurd hquiet Bool.false_ne_true
  cleared hquiet := absurd hquiet Bool.false_ne_true
  swept hswept := absurd hswept Bool.false_ne_true

/-- At a fresh start there are no outages and no incidents. -/
theorem Pipeline.Fresh.mirrored (h : s.Fresh) (checkId : Uuid) :
    (OutageWatch.start s).Mirrored checkId := by
  have hlog : s.db.incidentLog checkId = [] := by
    unfold Database.incidentLog incidentsOf
    rw [h.incidents]
    rfl
  have hstate : s.db.stateOf checkId = none := by
    rw [Database.stateOf_eq_none_iff, h.checks]
    simp
  refine ⟨fun _ => hlog, .resting, ?_, ?_⟩
  · change Mirrors s.clock (s.db.incidentLog checkId) [] .resting
    rw [hlog]
    exact Mirrors.resting List.Forall₂.nil
  · change s.db.stateOf checkId ≠ some .down
    rw [hstate]
    simp

/-- **The incident log mirrors the outages.** In every run a check never has two open
incidents, and when a quiet tick has completed every check that is down has one and no
check that is up or paused has any. In a run in which the state of a check changes, but
for detection transitions, only after a quiet tick has completed since the last change,
its incidents are its outages, one by one in order, whenever such a tick has completed
since its last change: as long as quota does not give the check back while it is down
and detection does not move it while its last incident is open. -/
theorem incidents_mirror_outages (srv : Server) (st : Settings) {s : Pipeline} (hfresh : s.Fresh)
    (actions : List Action) {w : OutageWatch}
    (hw : w = run (OutageWatch.step srv st) (OutageWatch.start s) actions) :
    (∀ checkId, (w.pipeline.db.openIncidents checkId).length ≤ 1) ∧
      (w.swept = true → ∀ c ∈ w.pipeline.db.checks.rows,
        (c.state = .down → (w.pipeline.db.openIncidents c.id).length = 1) ∧
          (c.state = .up ∨ c.state = .paused → w.pipeline.db.openIncidents c.id = [])) ∧
      ∀ checkId,
        Along (OutageWatch.step srv st)
          (fun w a => (w.Awaits srv st checkId a ∨ w.pipeline.Advances st checkId a) ∧
            a.KeepsIncidents ∧ w.pipeline.SparesOutage st checkId a) (OutageWatch.start s) actions →
        w.settled checkId = true →
          List.Forall₂ Span.Follows (w.pipeline.db.incidentLog checkId) (w.outages checkId) := by
  subst hw
  have hreconciled : (run (OutageWatch.step srv st) (OutageWatch.start s) actions).Reconciled :=
    run_of_step (P := fun _ _ => True) (fun _ _ hw _ => hw.step) (OutageWatch.reconciled_start s)
      (along_of_forall fun _ _ => trivial)
  refine ⟨fun checkId => Database.length_openIncidents_le _ checkId, fun hswept c hc => ?_, ?_⟩
  · obtain ⟨hopened, hcleared⟩ := hreconciled.swept hswept
    exact ⟨fun hdown => Database.length_openIncidents_eq (hopened c hc hdown),
      fun hstate => hcleared.openIncidents_eq_nil hc hstate⟩
  · intro checkId halong hsettled
    obtain ⟨_, _, phase, hmirrors, hfits⟩ := run_of_step
      (I := fun w : OutageWatch => w.Reconciled ∧ w.Mirrored checkId)
      (fun w a hw ha => ⟨hw.1.step, hw.2.step hw.1 ha.1 ha.2.1 ha.2.2⟩)
      ⟨OutageWatch.reconciled_start s, hfresh.mirrored checkId⟩ halong
    refine hmirrors.follows ?_
    rcases hfits.of_settled hsettled with hresting | ⟨hrunning, _⟩
    · exact Or.inl hresting
    · exact Or.inr hrunning

/-- A check goes down, reports a success and goes down again. -/
def twoOutages : List Action :=
  sampleOutage ++ sampleTick ++
    [.write (.ingest ⟨.interval, some 3600, none, "UTC"⟩ (successCommand 20))] ++ sampleTick ++
    [.elapse 3900001] ++ sampleTick

/-- Two outages, two incidents, of which the second is open. -/
theorem incidents_mirror_outages_twice :
    List.Forall₂ Span.Follows
      ((run (OutageWatch.step sampleServer defaultSettings) (OutageWatch.start samplePipeline)
        twoOutages).pipeline.db.incidentLog 10)
      [⟨3900001, some 3900001⟩, ⟨7800002, none⟩] := by
  have h := (incidents_mirror_outages sampleServer defaultSettings
    (s := samplePipeline) ⟨rfl, rfl, rfl, rfl, by decide, rfl, rfl⟩ twoOutages rfl).2.2 10
    (by decide) (by decide)
  exact h

/-- The check of a job that quota paused is resumed by a person, reports a failure and is
given back by the quota while it is down; then it is overdue. -/
def givenBackWhileDown : List Action :=
  let quietTick := List.replicate 4 (.tick fun _ => false)
  [.write (.create 1 hourlyRequest "backup" 10 20),
    .write (.create 1 hourlyRequest "archive" 11 21),
    .write (.setPlan 1 (some "free")), .write (.pauseExcess 1 1)] ++ quietTick ++
  [.write (.update 11 (pauseRequest false))] ++ quietTick ++
  [.write (.ingest ⟨.interval, some 3600, none, "UTC"⟩ { successCommand 21 with kind := .fail })] ++
  sampleTick ++ [.write (.setPlan 1 none), .write (.resume 1 maxSafeInteger)] ++ quietTick ++
  [.elapse 3900001] ++ sampleTick

/-- A check that quota gives back while it is down keeps its incident open, so that its
next outage has none. -/
theorem not_incidentsMirrorOutages_givenBackWhileDown :
    ¬ ∀ (srv : Server) (st : Settings) (s : Pipeline) (actions : List Action) (checkId : Uuid)
        (w : OutageWatch), s.Fresh →
      w = run (OutageWatch.step srv st) (OutageWatch.start s) actions →
        Along (OutageWatch.step srv st) (fun w a => w.Awaits srv st checkId a ∧ a.KeepsIncidents)
          (OutageWatch.start s) actions →
        w.settled checkId = true →
          List.Forall₂ Span.Follows (w.pipeline.db.incidentLog checkId) (w.outages checkId) := by
  intro h
  have hlength := (h sampleServer defaultSettings samplePipeline givenBackWhileDown 11 _
    ⟨rfl, rfl, rfl, rfl, by decide, rfl, rfl⟩ rfl (by decide)
    (by decide)).length_eq
  revert hlength
  decide

end Claim

end SilenceWatch
