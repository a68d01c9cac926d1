import Mathlib.Logic.Function.Basic
import Mathlib.Order.Lattice
import SilenceWatch.Library.Run

/-!
# Creations counted under a lock

Counting and then creating is two statements. Clients that do both while they hold the lock
of whoever pays keep a ceiling, whatever order their statements come in and whatever is
written under no lock, as long as such writes add nothing to the count. The rule is stated
for any store, any requests and any way to choose the lock of a request.
-/

namespace Guarded

open Transition

variable {Client Key Request Write Store : Type*}

/-- How far a client is with its request: `waiting` for the lock that was looked up, if any. -/
inductive Phase (Key Request : Type*) where
  | idle
  | asked (request : Request)
  | waiting (request : Request) (key : Option Key)
  | locked (request : Request)
  | admitted (request : Request)

/-- A service that creates under a lock. -/
structure Service (Key Request Write Store : Type*) where
  /-- The count made on arrival, under no lock. -/
  welcomes : Store → Request → Bool
  /-- The lock a request takes, if it takes one. -/
  key : Store → Request → Option Key
  /-- The count made under the lock. -/
  admits : Store → Request → Bool
  /-- The creation, which may fail. -/
  create : Store → Request → Option Store
  /-- What is written under no lock. -/
  write : Store → Write → Store

/-- The store, who holds which lock, and the clients. -/
structure State (Client Key Request Store : Type*) where
  store : Store
  locks : Key → Option Client
  clients : Client → Phase Key Request

/-- What may happen next: a request arrives, a client issues its next statement or fails, or
something is written under no lock. -/
inductive Event (Client Request Write : Type*) where
  | ask (client : Client) (request : Request)
  | proceed (client : Client)
  | abort (client : Client)
  | write (write : Write)

section Steps

variable [DecidableEq Client] (service : Service Key Request Write Store)

namespace State

/-- A client goes on to another phase. -/
def setClient (s : State Client Key Request Store) (client : Client) (phase : Phase Key Request) :
    State Client Key Request Store :=
  { s with clients := Function.update s.clients client phase }

/-- A request ends, and with its transaction the locks it held. -/
def finish (s : State Client Key Request Store) (client : Client) :
    State Client Key Request Store :=
  { s with
    locks := fun key => if s.locks key = some client then none else s.locks key
    clients := Function.update s.clients client .idle }

variable [DecidableEq Key]

/-- The next statement of a client. -/
def next (s : State Client Key Request Store) (client : Client) :
    State Client Key Request Store :=
  match s.clients client with
  | .idle => s
  | .asked request => s.setClient client (.waiting request (service.key s.store request))
  | .waiting request none => s.setClient client (.locked request)
  | .waiting request (some key) =>
    if s.locks key = none then
      { s.setClient client (.locked request) with
        locks := Function.update s.locks key (some client) }
    else s
  | .locked request =>
    if service.admits s.store request then s.setClient client (.admitted request)
    else s.finish client
  | .admitted request =>
    match service.create s.store request with
    | none => s.finish client
    | some store => { s with store }.finish client

/-- The state after an event. -/
def step (s : State Client Key Request Store) :
    Event Client Request Write → State Client Key Request Store
  | .ask client request =>
    match s.clients client with
    | .idle =>
      if service.welcomes s.store request then s.setClient client (.asked request) else s
    | _ => s
  | .proceed client => s.next service client
  | .abort client => s.finish client
  | .write write => { s with store := service.write s.store write }

end State

/-- What a ceiling rests on: the requests of a kind take one lock and are admitted only where
there is room for one more, each creation of the kind adds one at most, and nothing else adds
any. `Sound` is what every write keeps. `Live` says when the resource can still be created;
what has ended does not come back. -/
structure Ceiling (count : Store → ℕ) (limit : ℕ) (key : Key) (Sound Live : Store → Prop)
    (Concerns : Request → Prop) : Prop where
  key_eq : ∀ {store request}, Sound store → Live store → Concerns request →
    service.key store request = some key
  room : ∀ {store request}, Sound store → Live store → Concerns request →
    service.admits store request = true → count store + 1 ≤ limit
  create : ∀ {store request store'}, Sound store →
    service.create store request = some store' →
      Sound store' ∧ (Live store' → Live store) ∧ count store' ≤ count store + 1 ∧
        (¬ (Live store ∧ Concerns request) → count store' ≤ count store)
  write : ∀ {store} w, Sound store → Sound (service.write store w) ∧
    (Live (service.write store w) → Live store) ∧ count (service.write store w) ≤ count store

end Steps

/-- What a phase has to show for a request of the kind: the right lock looked up or held, and
the room that was counted. -/
def Phase.Fits (Concerns : Request → Prop) (key : Key) (mine room : Prop) :
    Phase Key Request → Prop
  | .waiting request looked => Concerns request → looked = some key
  | .locked request => Concerns request → mine
  | .admitted request => Concerns request → mine ∧ room
  | _ => True

theorem Phase.Fits.mono {Concerns : Request → Prop} {key : Key} {mine room mine' room' : Prop}
    {phase : Phase Key Request} (h : phase.Fits Concerns key mine room)
    (himp : mine → mine' ∧ (room → room')) : phase.Fits Concerns key mine' room' := by
  cases phase with
  | locked request => exact fun hconcerns => (himp (h hconcerns)).1
  | admitted request =>
    intro hconcerns
    obtain ⟨hmine, hroom⟩ := h hconcerns
    exact ⟨(himp hmine).1, (himp hmine).2 hroom⟩
  | _ => exact h

/-- The count is within its bound, and while more can be created every client fits. -/
structure Kept (count : Store → ℕ) (limit most : ℕ) (key : Key) (Sound Live : Store → Prop)
    (Concerns : Request → Prop) (s : State Client Key Request Store) : Prop where
  sound : Sound s.store
  bounded : count s.store ≤ most
  fits : Live s.store → ∀ client, (s.clients client).Fits Concerns key
    (s.locks key = some client) (count s.store + 1 ≤ limit)

section Rule

variable [DecidableEq Client] {service : Service Key Request Write Store}
  {count : Store → ℕ} {limit most : ℕ} {key : Key} {Sound Live : Store → Prop}
  {Concerns : Request → Prop} {s : State Client Key Request Store} {client : Client}

namespace Kept

variable (h : Kept count limit most key Sound Live Concerns s)

include h

theorem setClient {phase : Phase Key Request}
    (hphase : Live s.store → phase.Fits Concerns key (s.locks key = some client)
      (count s.store + 1 ≤ limit)) :
    Kept count limit most key Sound Live Concerns (s.setClient client phase) where
  sound := h.sound
  bounded := h.bounded
  fits := by
    intro hlive other
    by_cases hsame : other = client
    · rw [hsame]
      simp only [State.setClient, Function.update_self]
      exact hphase hlive
    · simp only [State.setClient, Function.update_of_ne hsame]
      exact h.fits hlive other

/-- A client that ends leaves the others their locks. -/
theorem finish : Kept count limit most key Sound Live Concerns (s.finish client) where
  sound := h.sound
  bounded := h.bounded
  fits := by
    intro hlive other
    by_cases hsame : other = client
    · rw [hsame]
      simp only [State.finish, Function.update_self]
      trivial
    · simp only [State.finish, Function.update_of_ne hsame]
      refine (h.fits hlive other).mono fun hmine => ⟨?_, id⟩
      have hother : ¬ s.locks key = some client := fun heq =>
        hsame (Option.some.inj (hmine.symm.trans heq))
      rw [if_neg hother]
      exact hmine

omit [DecidableEq Client] in
/-- A store that counts no more leaves every client its room. -/
theorem shrink {store : Store} (hsound : Sound store) (hcount : count store ≤ count s.store)
    (hlive : Live store → Live s.store) :
    Kept count limit most key Sound Live Concerns { s with store } where
  sound := hsound
  bounded := hcount.trans h.bounded
  fits := by
    intro hnow other
    refine (h.fits (hlive hnow) other).mono fun hmine => ⟨hmine, fun hroom => ?_⟩
    dsimp only
    omega

/-- The holder of the lock creates: nobody else is at work on the same resource. -/
theorem create {store : Store} {request : Request} (hsound : Sound store)
    (hclient : s.clients client = .admitted request) (hconcerns : Concerns request)
    (hlive : Live s.store) (hcount : count store ≤ count s.store + 1) (hmost : limit ≤ most) :
    Kept count limit most key Sound Live Concerns ({ s with store }.finish client) := by
  have hmine := h.fits hlive client
  rw [hclient] at hmine
  obtain ⟨hlock, hroom⟩ := hmine hconcerns
  constructor
  case sound => exact hsound
  case bounded =>
    show count store ≤ most
    omega
  case fits =>
    intro _ other
    by_cases hsame : other = client
    · rw [hsame]
      simp only [State.finish, Function.update_self]
      trivial
    · simp only [State.finish, Function.update_of_ne hsame]
      refine (h.fits hlive other).mono fun hother => ?_
      rw [hlock] at hother
      exact absurd (Option.some.inj hother).symm hsame

variable [DecidableEq Key]

/-- A lock that nobody holds goes to the client that waits for it. -/
theorem lock {request : Request} {looked : Key} (hfree : s.locks looked = none)
    (hclient : s.clients client = .waiting request (some looked)) :
    Kept count limit most key Sound Live Concerns
      { s.setClient client (.locked request) with
        locks := Function.update s.locks looked (some client) } where
  sound := h.sound
  bounded := h.bounded
  fits := by
    intro hlive other
    by_cases hsame : other = client
    · rw [hsame]
      simp only [State.setClient, Function.update_self]
      intro hconcerns
      have hwaiting := h.fits hlive client
      rw [hclient] at hwaiting
      have hkey : looked = key := Option.some.inj (hwaiting hconcerns)
      rw [hkey, Function.update_self]
    · simp only [State.setClient, Function.update_of_ne hsame]
      refine (h.fits hlive other).mono fun hmine => ⟨?_, id⟩
      have hapart : key ≠ looked := by
        intro heq
        rw [heq, hfree] at hmine
        cases hmine
      rw [Function.update_of_ne hapart]
      exact hmine

/-- Every step keeps the count within its bound. -/
theorem step (hceiling : Ceiling service count limit key Sound Live Concerns) (hmost : limit ≤ most)
    (e : Event Client Request Write) :
    Kept count limit most key Sound Live Concerns (s.step service e) := by
  cases e with
  | ask client request =>
    simp only [State.step]
    split
    · split
      · exact h.setClient fun _ => trivial
      · exact h
    · exact h
  | proceed client =>
    simp only [State.step, State.next]
    split
    case h_1 => exact h
    case h_2 request hclient => exact h.setClient fun hlive => hceiling.key_eq h.sound hlive
    case h_3 request hclient =>
      refine h.setClient fun hlive hconcerns => ?_
      -- a request of the kind has looked a lock up
      have hwaiting := h.fits hlive client
      rw [hclient] at hwaiting
      cases hwaiting hconcerns
    case h_4 request looked hclient =>
      split
      · next hfree => exact h.lock hfree hclient
      · exact h
    case h_5 request hclient =>
      split
      · next hadmits =>
        refine h.setClient fun hlive hconcerns =>
          ⟨?_, hceiling.room h.sound hlive hconcerns hadmits⟩
        have hlocked := h.fits hlive client
        rw [hclient] at hlocked
        exact hlocked hconcerns
      · exact h.finish
    case h_6 request hclient =>
      split
      · exact h.finish
      · next store hstore =>
        obtain ⟨hsound, hlive, hone, hnone⟩ := hceiling.create h.sound hstore
        by_cases hkind : Live s.store ∧ Concerns request
        · exact h.create hsound hclient hkind.2 hkind.1 hone hmost
        · exact (h.shrink hsound (hnone hkind) hlive).finish
  | abort client => exact h.finish
  | write w =>
    obtain ⟨hsound, hlive, hcount⟩ := hceiling.write w h.sound
    exact h.shrink hsound hcount hlive

end Kept

variable [DecidableEq Key] in
/-- **Ceiling rule.** From clients that are all idle, the count never exceeds the limit, or
what it was at the start. -/
theorem count_throughout (hceiling : Ceiling service count limit key Sound Live Concerns)
    (hsound : Sound s.store) (hidle : ∀ client, s.clients client = .idle)
    (es : List (Event Client Request Write)) :
    Throughout (State.step service) (fun s' => count s'.store ≤ max limit (count s.store))
      s es := by
  have hstart : Kept count limit (max limit (count s.store)) key Sound Live Concerns s := by
    refine ⟨hsound, le_max_right _ _, fun _ client => ?_⟩
    rw [hidle client]
    trivial
  have hkept : Throughout (State.step service)
      (Kept count limit (max limit (count s.store)) key Sound Live Concerns) s es :=
    throughout_of_step (P := fun _ _ => True)
      (fun _ e hs _ => hs.step hceiling (le_max_left _ _) e) hstart
      (along_of_forall fun _ _ => trivial)
  exact hkept.mono fun _ hs => hs.bounded

end Rule

end Guarded
