import SilenceWatch.Library.Run

/-!
# The connection that listens

One connection is meant to carry the notifications of every channel. Channels are subscribed
to before it is up, while it comes up and after; attempts, their queries, the errors of
clients old and new and the timer of the next attempt come in any order. Unless it was stopped,
the process at every moment listens on each channel or has asked to, or is connecting, or has
the next attempt scheduled, within half a minute.
-/

namespace SilenceWatch

open Transition

/-- How far a call of `connect` has come, by its client. -/
inductive ConnectPhase where
  | connecting (client : ℕ)
  /-- The query for the channel at a position is under way. -/
  | listening (client position : ℕ)
  /-- The attempt has failed and its client is being ended. -/
  | ending (client : ℕ)
  deriving DecidableEq

/-- The fields of the service, the calls of `connect` under way, and what was asked of the
clients: the channels they were told to listen on, and the `LISTEN` of late subscribers that
they have yet to answer. -/
structure PgListener where
  handlers : List (String × List ℕ)
  client : Option ℕ
  /-- The delay that the timer was set to. -/
  reconnectTimer : Option ℕ
  reconnectDelayMs : ℕ
  stopped : Bool
  connects : List ConnectPhase
  listened : List (ℕ × String)
  late : List (ℕ × String)
  /-- The clients made so far. -/
  made : ℕ

/-- What happens. -/
inductive PgListenerEvent where
  | subscribe (channel : String) (handler : ℕ)
  | onModuleDestroy
  /-- `client.connect()` has succeeded. -/
  | connected (client : ℕ)
  /-- The query of the loop for the channel at a position has. -/
  | answered (client position : ℕ)
  /-- One of the two has failed. -/
  | connectFailed (phase : ConnectPhase)
  /-- `client.end()` of a failed attempt is over. -/
  | ended (client : ℕ)
  | lateAnswered (client : ℕ) (channel : String)
  | lateFailed (client : ℕ) (channel : String)
  /-- A client, whichever, emits an error. -/
  | error
  /-- The timer fires. -/
  | timeout

namespace PgListener

/-- `this.handlers.keys()`. -/
def channels (s : PgListener) : List String := s.handlers.map Prod.fst

/-- `connect`, up to its first await. -/
def connect (s : PgListener) : PgListener :=
  if s.stopped then s
  else { s with connects := .connecting s.made :: s.connects, made := s.made + 1 }

/-- `scheduleReconnect`. -/
def scheduleReconnect (s : PgListener) : PgListener :=
  if s.stopped ∨ s.reconnectTimer.isSome then s
  else
    { s with
      client := none
      reconnectTimer := some s.reconnectDelayMs
      reconnectDelayMs := min (s.reconnectDelayMs * 2) 30000 }

/-- The next round of the loop over the channels, which sees those that were subscribed to
meanwhile, or what follows the loop. -/
def proceed (s : PgListener) (client position : ℕ) : PgListener :=
  if position < s.handlers.length then
    { s with connects := .listening client position :: s.connects }
  else { s with client := some client, reconnectDelayMs := 1000 }

/-- `subscribe`. -/
def subscribe (s : PgListener) (channel : String) (handler : ℕ) : PgListener :=
  if channel ∈ s.channels then
    { s with
      handlers := s.handlers.map fun entry =>
        if entry.1 = channel ∧ handler ∉ entry.2 then (entry.1, entry.2 ++ [handler]) else entry }
  else
    let s := { s with handlers := s.handlers ++ [(channel, [handler])] }
    match s.client with
    | none => s
    | some client => { s with late := (client, channel) :: s.late }

/-- A call of `connect` leaves the state it was in. -/
def take (s : PgListener) (phase : ConnectPhase) : PgListener :=
  { s with connects := s.connects.erase phase }

/-- The state after an event. -/
def step (s : PgListener) : PgListenerEvent → PgListener
  | .subscribe channel handler => s.subscribe channel handler
  | .onModuleDestroy => { s with stopped := true, reconnectTimer := none, client := none }
  | .connected client =>
    if .connecting client ∈ s.connects then (s.take (.connecting client)).proceed client 0 else s
  | .answered client position =>
    if .listening client position ∈ s.connects then
      let s := s.take (.listening client position)
      { s with
        listened := (s.channels[position]?.map (client, ·)).toList ++ s.listened }.proceed client
          (position + 1)
    else s
  | .connectFailed phase =>
    match phase with
    | .connecting client | .listening client _ =>
      if phase ∈ s.connects then
        { s.take phase with connects := .ending client :: (s.take phase).connects }
      else s
    | .ending _ => s
  | .ended client =>
    if .ending client ∈ s.connects then (s.take (.ending client)).scheduleReconnect else s
  | .lateAnswered client channel =>
    if (client, channel) ∈ s.late then
      { s with
        late := s.late.erase (client, channel)
        listened := (client, channel) :: s.listened }
    else s
  | .lateFailed client channel =>
    if (client, channel) ∈ s.late then
      { s with late := s.late.erase (client, channel) }.scheduleReconnect
    else s
  | .error => s.scheduleReconnect
  | .timeout =>
    if s.reconnectTimer.isSome then { s with reconnectTimer := none }.connect else s

/-- The module is initialised with what was subscribed to before. -/
def start (handlers : List (String × List ℕ)) : PgListener :=
  connect
    { handlers, client := none, reconnectTimer := none, reconnectDelayMs := 1000,
      stopped := false, connects := [], listened := [], late := [], made := 0 }

/-- The client listens on a channel, or has been asked to. -/
def Asked (s : PgListener) (client : ℕ) (channel : String) : Prop :=
  (client, channel) ∈ s.listened ∨ (client, channel) ∈ s.late

/-- No notification is missed unawares: the current client is asked for every channel, or a
new one is on its way or to come. -/
def Attentive (s : PgListener) : Prop :=
  s.stopped = false →
    (∃ client, s.client = some client ∧ ∀ channel ∈ s.channels, s.Asked client channel) ∨
      s.connects ≠ [] ∨ s.reconnectTimer.isSome

/-- What the attempts under way have behind them, and how long one is waited for. -/
structure Orderly (s : PgListener) : Prop where
  /-- The loop has asked for the channels before its position. -/
  visited : ∀ client position, .listening client position ∈ s.connects →
    position < s.channels.length ∧ ∀ i < position, ∀ channel, s.channels[i]? = some channel →
      (client, channel) ∈ s.listened
  timer : ∀ delay ∈ s.reconnectTimer, 1000 ≤ delay ∧ delay ≤ 30000
  delay : 1000 ≤ s.reconnectDelayMs ∧ s.reconnectDelayMs ≤ 30000

/-- A handler is registered for a channel. -/
def Handles (s : PgListener) (channel : String) (handler : ℕ) : Prop :=
  ∃ registered, (channel, registered) ∈ s.handlers ∧ handler ∈ registered

/-- The invariant. -/
structure Sound (s : PgListener) : Prop extends Orderly s where
  attentive : s.Attentive

variable {s : PgListener} {e : PgListenerEvent}

/-- A reconnection that is asked for is scheduled, or was. -/
theorem scheduleReconnect_spec (s : PgListener) :
    s.scheduleReconnect.stopped = s.stopped ∧
      (s.stopped = false → s.scheduleReconnect.reconnectTimer.isSome) := by
  unfold scheduleReconnect
  split
  · next h =>
    refine ⟨rfl, fun hrunning => ?_⟩
    rcases h with hstopped | htimer
    · rw [hrunning] at hstopped
      cases hstopped
    · exact htimer
  · exact ⟨rfl, fun _ => rfl⟩

theorem Orderly.scheduleReconnect (h : s.Orderly) : s.scheduleReconnect.Sound := by
  obtain ⟨hstopped, hscheduled⟩ := s.scheduleReconnect_spec
  refine ⟨?_, fun hrunning => Or.inr (Or.inr (hscheduled (hstopped ▸ hrunning)))⟩
  unfold PgListener.scheduleReconnect
  split
  · exact h
  · refine ⟨h.visited, fun delay hmem => ?_, ?_⟩
    · obtain rfl := Option.some.inj hmem
      exact h.delay
    · have hdelay := h.delay
      dsimp only
      omega

/-- An attempt that is started is under way. -/
theorem Orderly.connect (h : s.Orderly) : s.connect.Sound := by
  unfold PgListener.connect
  split
  · next hstopped =>
    refine ⟨h, fun hrunning => ?_⟩
    rw [hrunning] at hstopped
    cases hstopped
  · refine ⟨⟨fun client position hmem => ?_, h.timer, h.delay⟩,
      fun _ => Or.inr (Or.inl (List.cons_ne_nil _ _))⟩
    rcases List.mem_cons.mp hmem with heq | hmem
    · cases heq
    · exact h.visited client position hmem

/-- The loop goes on with the channel it is at, or it has been through all. -/
theorem Orderly.proceed (h : s.Orderly) {client position : ℕ}
    (hbehind : ∀ i < position, ∀ channel, s.channels[i]? = some channel →
      (client, channel) ∈ s.listened) : (s.proceed client position).Sound := by
  have hlength : s.channels.length = s.handlers.length := List.length_map _
  unfold PgListener.proceed
  split
  · next hposition =>
    refine ⟨⟨fun client' position' hmem => ?_, h.timer, h.delay⟩,
      fun _ => Or.inr (Or.inl (List.cons_ne_nil _ _))⟩
    rcases List.mem_cons.mp hmem with heq | hmem
    · obtain ⟨rfl, rfl⟩ := ConnectPhase.listening.inj heq
      exact ⟨by change position' < s.channels.length; omega, hbehind⟩
    · exact h.visited client' position' hmem
  · refine ⟨⟨h.visited, h.timer, by dsimp only; omega⟩, fun _ => Or.inl ⟨client, rfl, ?_⟩⟩
    intro channel hchannel
    obtain ⟨i, hi⟩ := List.getElem?_of_mem hchannel
    have hlt : i < s.channels.length := (List.getElem?_eq_some_iff.mp hi).1
    exact Or.inl (hbehind i (by omega) channel hi)

/-- Fewer calls under way, and more that was listened on. -/
theorem Orderly.mono (h : s.Orderly) {connects : List ConnectPhase} {listened : List (ℕ × String)}
    (hconnects : ∀ client position, .listening client position ∈ connects →
      .listening client position ∈ s.connects)
    (hlistened : ∀ entry ∈ s.listened, entry ∈ listened) :
    ({ s with connects, listened } : PgListener).Orderly := by
  refine ⟨fun client position hmem => ?_, h.timer, h.delay⟩
  obtain ⟨hposition, hbehind⟩ := h.visited client position (hconnects client position hmem)
  exact ⟨hposition, fun i hi channel hchannel => hlistened _ (hbehind i hi channel hchannel)⟩

theorem Orderly.take (h : s.Orderly) (phase : ConnectPhase) : (s.take phase).Orderly :=
  h.mono (fun _ _ hmem => List.mem_of_mem_erase hmem) fun _ hmem => hmem

/-- A subscriber to a channel of its own comes after those there were. -/
theorem Sound.subscribe (h : s.Sound) (channel : String) (handler : ℕ) :
    (s.subscribe channel handler).Sound := by
  unfold PgListener.subscribe
  split
  · -- The channels stay as they are.
    have hchannels : (s.handlers.map fun entry =>
        if entry.1 = channel ∧ handler ∉ entry.2 then (entry.1, entry.2 ++ [handler])
        else entry).map Prod.fst = s.channels := by
      rw [List.map_map]
      refine List.map_congr_left fun entry _ => ?_
      change (if entry.1 = channel ∧ handler ∉ entry.2 then (entry.1, entry.2 ++ [handler])
        else entry).1 = entry.1
      split <;> rfl
    refine ⟨⟨fun client position hmem => ?_, h.timer, h.delay⟩, fun hrunning => ?_⟩
    · unfold channels
      rw [hchannels]
      exact h.visited client position hmem
    · rcases h.attentive hrunning with ⟨client, hclient, hasked⟩ | hrest
      · refine Or.inl ⟨client, hclient, fun channel' hmem => hasked channel' ?_⟩
        rwa [← hchannels]
      · exact Or.inr hrest
  · have hchannels : ({ s with handlers := s.handlers ++ [(channel, [handler])] } :
        PgListener).channels = s.channels ++ [channel] := List.map_append
    have horderly : ({ s with handlers := s.handlers ++ [(channel, [handler])] } :
        PgListener).Orderly := by
      refine ⟨fun client position hmem => ?_, h.timer, h.delay⟩
      obtain ⟨hposition, hbehind⟩ := h.visited client position hmem
      rw [hchannels, List.length_append]
      refine ⟨by omega, fun i hi channel' hget => hbehind i hi channel' ?_⟩
      rwa [List.getElem?_append_left (by omega)] at hget
    dsimp only
    split
    · next hnone =>
      refine ⟨horderly, fun hrunning => ?_⟩
      rcases h.attentive hrunning with ⟨client, hclient, _⟩ | hrest
      · rw [show s.client = none from hnone] at hclient
        cases hclient
      · exact Or.inr hrest
    · next client hclient =>
      refine ⟨⟨horderly.visited, horderly.timer, horderly.delay⟩, fun hrunning => ?_⟩
      rcases h.attentive hrunning with ⟨client', hclient', hasked⟩ | hrest
      · obtain rfl := Option.some.inj ((show s.client = some client from hclient).symm.trans
          hclient')
        refine Or.inl ⟨client, hclient, fun channel' hmem => ?_⟩
        change channel' ∈ ({ s with handlers := s.handlers ++ [(channel, [handler])] } :
          PgListener).channels at hmem
        rw [hchannels] at hmem
        rcases List.mem_append.mp hmem with hmem | hmem
        · rcases hasked channel' hmem with hlistened | hlate
          · exact Or.inl hlistened
          · exact Or.inr (List.mem_cons_of_mem _ hlate)
        · rw [List.mem_singleton.mp hmem]
          exact Or.inr List.mem_cons_self
      · exact Or.inr hrest

/-- **One step.** -/
theorem Sound.step (h : s.Sound) (e : PgListenerEvent) : (s.step e).Sound := by
  cases e with
  | subscribe channel handler => exact h.subscribe channel handler
  | onModuleDestroy =>
    exact ⟨⟨h.visited, fun delay hmem => (by cases hmem), h.delay⟩,
      fun hrunning => by cases hrunning⟩
  | connected client =>
    unfold PgListener.step
    dsimp only
    split
    · exact (h.toOrderly.take _).proceed fun i hi => absurd hi (Nat.not_lt_zero i)
    · exact h
  | answered client position =>
    unfold PgListener.step
    dsimp only
    split
    · next hmem =>
      obtain ⟨_, hbehind⟩ := h.visited client position hmem
      refine ((h.toOrderly.take (.listening client position)).mono (fun _ _ => id)
        fun entry hentry => List.mem_append_right _ hentry).proceed ?_
      intro i hi channel hchannel
      by_cases heq : i = position
      · subst heq
        refine List.mem_append_left _ ?_
        rw [show (s.take (.listening client i)).channels[i]? = some channel from hchannel]
        exact List.mem_singleton_self _
      · exact List.mem_append_right _ (hbehind i (by omega) channel hchannel)
    · exact h
  | connectFailed phase =>
    have hended : ∀ client, ({ s.take phase with
        connects := .ending client :: (s.take phase).connects } : PgListener).Sound := by
      intro client
      have hconnects : ∀ client' position, .listening client' position ∈
          ConnectPhase.ending client :: (s.take phase).connects →
            .listening client' position ∈ (s.take phase).connects := by
        intro client' position hmem
        rcases List.mem_cons.mp hmem with heq | hmem
        · cases heq
        · exact hmem
      exact ⟨(h.toOrderly.take phase).mono hconnects fun _ hmem => hmem,
        fun _ => Or.inr (Or.inl (List.cons_ne_nil _ _))⟩
    unfold PgListener.step
    dsimp only
    cases phase with
    | connecting client =>
      dsimp only
      split
      · exact hended client
      · exact h
    | listening client position =>
      dsimp only
      split
      · exact hended client
      · exact h
    | ending client => exact h
  | ended client =>
    unfold PgListener.step
    dsimp only
    split
    · exact (h.toOrderly.take _).scheduleReconnect
    · exact h
  | lateAnswered client channel =>
    unfold PgListener.step
    dsimp only
    split
    · have hmono := h.toOrderly.mono (fun _ _ => id)
        fun entry hentry => List.mem_cons_of_mem (client, channel) hentry
      refine ⟨⟨hmono.visited, h.timer, h.delay⟩, fun hrunning => ?_⟩
      rcases h.attentive hrunning with ⟨client', hclient, hasked⟩ | hrest
      · refine Or.inl ⟨client', hclient, fun channel' hmem => ?_⟩
        by_cases hsame : (client', channel') = (client, channel)
        · exact Or.inl (hsame ▸ List.mem_cons_self)
        · rcases hasked channel' hmem with hlistened | hlate
          · exact Or.inl (List.mem_cons_of_mem _ hlistened)
          · exact Or.inr ((List.mem_erase_of_ne hsame).mpr hlate)
      · exact Or.inr hrest
    · exact h
  | lateFailed client channel =>
    unfold PgListener.step
    dsimp only
    split
    · exact Orderly.scheduleReconnect ⟨h.visited, h.timer, h.delay⟩
    · exact h
  | error => exact h.toOrderly.scheduleReconnect
  | timeout =>
    unfold PgListener.step
    dsimp only
    split
    · exact Orderly.connect ⟨h.visited, fun delay hmem => (by cases hmem), h.delay⟩
    · exact h

section Handlers

variable {channel : String} {handler : ℕ}

theorem handlers_scheduleReconnect (s : PgListener) :
    s.scheduleReconnect.handlers = s.handlers := by
  unfold scheduleReconnect
  split <;> rfl

theorem handlers_proceed (s : PgListener) (client position : ℕ) :
    (s.proceed client position).handlers = s.handlers := by
  unfold proceed
  split <;> rfl

theorem handlers_connect (s : PgListener) : s.connect.handlers = s.handlers := by
  unfold connect
  split <;> rfl

/-- A subscriber is registered. -/
theorem handles_subscribe (s : PgListener) (channel : String) (handler : ℕ) :
    (s.subscribe channel handler).Handles channel handler := by
  unfold subscribe
  split
  · next hmem =>
    obtain ⟨⟨_, registered⟩, hentry, rfl⟩ := List.mem_map.mp hmem
    by_cases hknown : handler ∈ registered
    · exact ⟨registered, List.mem_map.mpr ⟨_, hentry, if_neg fun h => h.2 hknown⟩, hknown⟩
    · exact ⟨registered ++ [handler], List.mem_map.mpr ⟨_, hentry, if_pos ⟨rfl, hknown⟩⟩,
        List.mem_append_right _ (List.mem_singleton_self _)⟩
  · have hnew : (channel, [handler]) ∈ s.handlers ++ [(channel, [handler])] :=
      List.mem_append_right _ (List.mem_singleton_self _)
    dsimp only
    split
    · exact ⟨[handler], hnew, List.mem_singleton_self _⟩
    · exact ⟨[handler], hnew, List.mem_singleton_self _⟩

/-- Another subscriber takes no place from one that is registered. -/
theorem Handles.subscribe (h : s.Handles channel handler) (channel' : String) (handler' : ℕ) :
    (s.subscribe channel' handler').Handles channel handler := by
  obtain ⟨registered, hentry, hregistered⟩ := h
  unfold PgListener.subscribe
  split
  · by_cases hadded : channel = channel' ∧ handler' ∉ registered
    · exact ⟨registered ++ [handler'], List.mem_map.mpr ⟨_, hentry, if_pos hadded⟩,
        List.mem_append_left _ hregistered⟩
    · exact ⟨registered, List.mem_map.mpr ⟨_, hentry, if_neg hadded⟩, hregistered⟩
  · have hkept : (channel, registered) ∈ s.handlers ++ [(channel', [handler'])] :=
      List.mem_append_left _ hentry
    dsimp only
    split
    · exact ⟨registered, hkept, hregistered⟩
    · exact ⟨registered, hkept, hregistered⟩

/-- Only a subscriber changes what is registered. -/
theorem handlers_step (s : PgListener) (e : PgListenerEvent)
    (hother : ∀ channel handler, e ≠ .subscribe channel handler) :
    (s.step e).handlers = s.handlers := by
  cases e with
  | subscribe channel handler => exact absurd rfl (hother channel handler)
  | onModuleDestroy => rfl
  | error => exact s.handlers_scheduleReconnect
  | connected client =>
    unfold step
    dsimp only
    split
    · exact handlers_proceed _ _ _
    · rfl
  | answered client position =>
    unfold step
    dsimp only
    split
    · exact handlers_proceed _ _ _
    · rfl
  | connectFailed phase =>
    unfold step
    cases phase with
    | connecting | listening =>
      dsimp only
      split <;> rfl
    | ending => rfl
  | ended client =>
    unfold step
    dsimp only
    split
    · exact handlers_scheduleReconnect _
    · rfl
  | lateAnswered client channel =>
    unfold step
    dsimp only
    split <;> rfl
  | lateFailed client channel =>
    unfold step
    dsimp only
    split
    · exact handlers_scheduleReconnect _
    · rfl
  | timeout =>
    unfold step
    dsimp only
    split
    · exact handlers_connect _
    · rfl

/-- **One step.** -/
theorem Handles.step (h : s.Handles channel handler) (e : PgListenerEvent) :
    (s.step e).Handles channel handler := by
  by_cases hsubscribe : ∃ channel' handler', e = .subscribe channel' handler'
  · obtain ⟨channel', handler', rfl⟩ := hsubscribe
    exact h.subscribe channel' handler'
  · have hsame := s.handlers_step e fun channel' handler' heq => hsubscribe ⟨_, _, heq⟩
    unfold Handles
    rw [hsame]
    exact h

/-- **A whole run.** -/
theorem Handles.run (h : s.Handles channel handler) (es : List PgListenerEvent) :
    (run PgListener.step s es).Handles channel handler := by
  induction es generalizing s with
  | nil => exact h
  | cons e es ih => exact ih (h.step e)

end Handlers

end PgListener

/-- Whatever comes and in any order, unless it was stopped the process listens on every channel
that was subscribed to through its current client, or has asked to, or it is connecting, or it
will within half a minute; and who has subscribed is registered from then on. -/
theorem listens_or_reconnects (handlers : List (String × List ℕ)) (es : List PgListenerEvent) :
    Throughout PgListener.step
      (fun s => s.Attentive ∧ ∀ delay ∈ s.reconnectTimer, 1000 ≤ delay ∧ delay ≤ 30000)
      (PgListener.start handlers) es ∧
    (∀ channel registered handler, (channel, registered) ∈ handlers → handler ∈ registered →
      (run PgListener.step (PgListener.start handlers) es).Handles channel handler) ∧
    ∀ before channel handler after, es = before ++ .subscribe channel handler :: after →
      (run PgListener.step (PgListener.start handlers) es).Handles channel handler := by
  have hstart : (PgListener.start handlers).Sound := by
    refine PgListener.Orderly.connect ⟨fun client position hmem => ?_, fun delay hmem => ?_, ?_⟩
    · cases hmem
    · cases hmem
    · dsimp only
      omega
  have hrun := throughout_of_step (P := fun _ _ => True) (fun _ e h _ => h.step e) hstart
    (along_of_forall fun _ (_ : _ ∈ es) => trivial)
  refine ⟨hrun.mono fun s h => ⟨h.attentive, h.timer⟩, ?_, ?_⟩
  · intro channel registered handler hentry hhandler
    refine PgListener.Handles.run ⟨registered, ?_, hhandler⟩ es
    rw [PgListener.start, PgListener.handlers_connect]
    exact hentry
  · rintro before channel handler after rfl
    rw [run_append]
    exact (PgListener.handles_subscribe _ channel handler).run after

end SilenceWatch
