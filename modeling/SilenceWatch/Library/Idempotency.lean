import SilenceWatch.Library.Run

/-!
# Requests that are made twice

A service that knows each request by a key. What it does with a key that comes again is
its own; what it documents of that is stated of a request and those before it. Where the keys of
a run say what is asked, and keys that are used again are used again in time, nothing is
refused and there is one answer to each key.
-/

namespace Idempotency

open Transition

/-- What a service answers. The answers of the requests that it carries out are numbered. -/
inductive Answer where
  | given (n : ℕ)
  /-- The key came with other parameters. -/
  | refused
  /-- The request that the key came with first is still in progress. -/
  | inProgress
  | failed
  deriving DecidableEq

/-- A request, with the time at which it arrives and what it is answered. -/
structure Exchange (κ β : Type*) where
  key : κ
  body : β
  time : ℕ
  answer : Answer

variable {κ β : Type*}

/-- Of two requests under one key the second asks what the first did, in time. -/
def Repeats (kept : ℕ) (r r' : Exchange κ β) : Prop :=
  r.key = r'.key → r.body = r'.body ∧ r'.time < r.time + kept

/-- What the service documents of a request, after the ones before it. -/
structure Documented (kept : ℕ) (before : List (Exchange κ β)) (r : Exchange κ β) : Prop where
  /-- A key is refused only if it came with something else. -/
  refuses : r.answer = .refused → ∃ r' ∈ before, r'.key = r.key ∧ r'.body ≠ r.body
  /-- A request is in conflict only with another one under its key. -/
  conflicts : r.answer = .inProgress → ∃ r' ∈ before, r'.key = r.key
  /-- A key that is still kept, and always came with the same, gets the answer it got. -/
  replays : (∀ r' ∈ before, Repeats kept r' r) → ∀ r' ∈ before, r'.key = r.key →
    ∀ n m, r'.answer = .given n → r.answer = .given m → n = m
  /-- Requests under other keys are carried out by themselves. -/
  creates : ∀ r' ∈ before, r'.key ≠ r.key → ∀ n m, r'.answer = .given n → r.answer = .given m →
    n ≠ m

/-- Every request of a run is answered as documented. -/
def DocumentedRun (kept : ℕ) (rs : List (Exchange κ β)) : Prop :=
  Along (fun before r => r :: before) (Documented kept) [] rs

/-- Two requests get one answer exactly if they come under one key. -/
def OneAnswer (r r' : Exchange κ β) : Prop :=
  ∀ n m, r.answer = .given n → r'.answer = .given m → (n = m ↔ r.key = r'.key)

/-- What a request is answered, after requests that it may repeat. -/
structure Answered (before : List (Exchange κ β)) (r : Exchange κ β) : Prop where
  not_refused : r.answer ≠ .refused
  conflict : r.answer = .inProgress → ∃ r' ∈ before, r'.key = r.key
  oneAnswer : ∀ r' ∈ before, OneAnswer r' r

variable {kept : ℕ} {before rs : List (Exchange κ β)} {r : Exchange κ β}

/-- One request. -/
theorem Documented.answered (h : Documented kept before r)
    (hrepeats : ∀ r' ∈ before, Repeats kept r' r) : Answered before r where
  not_refused hrefused := by
    obtain ⟨r', hr', hkey, hbody⟩ := h.refuses hrefused
    exact hbody (hrepeats r' hr' hkey).1
  conflict := h.conflicts
  oneAnswer r' hr' n m hn hm := by
    constructor
    · intro heq
      by_contra hkey
      exact h.creates r' hr' hkey n m hn hm heq
    · intro hkey
      exact h.replays hrepeats r' hr' hkey n m hn hm

/-- **Runs.** Where keys repeat what they came with, every request is answered so. -/
theorem answered_along (hdocumented : Along (fun before r => r :: before) (Documented kept) before rs)
    (hbefore : ∀ r ∈ rs, ∀ r' ∈ before, Repeats kept r' r)
    (hrepeats : rs.Pairwise (Repeats kept)) :
    Along (fun before r => r :: before) Answered before rs := by
  induction rs generalizing before with
  | nil => trivial
  | cons r rest ih =>
    obtain ⟨hfirst, hrest⟩ := List.pairwise_cons.mp hrepeats
    refine ⟨hdocumented.1.answered (hbefore r List.mem_cons_self),
      ih hdocumented.2 (fun r' hr' r'' hr'' => ?_) hrest⟩
    rcases List.mem_cons.mp hr'' with rfl | hr''
    · exact hfirst r' hr'
    · exact hbefore r' (List.mem_cons_of_mem _ hr') r'' hr''

/-- What the requests before each one are. -/
theorem run_before (before rs : List (Exchange κ β)) :
    run (fun before r => r :: before) before rs = rs.reverse ++ before := by
  induction rs generalizing before with
  | nil => rfl
  | cons r rest ih => rw [run_cons, ih, List.reverse_cons, List.append_assoc, List.singleton_append]

/-- **One request of a run**, after the ones before it. -/
theorem answered_of_run {earlier later : List (Exchange κ β)}
    (hdocumented : DocumentedRun kept (earlier ++ r :: later))
    (hrepeats : (earlier ++ r :: later).Pairwise (Repeats kept)) : Answered earlier.reverse r := by
  have hall := answered_along hdocumented (fun _ _ _ h => absurd h List.not_mem_nil) hrepeats
  have hthen := hall.later
  rw [run_before, List.append_nil] at hthen
  exact hthen.1

/-- A service that gives each key an answer of its own does what it documents. -/
theorem documented_of_page (page : κ → ℕ) (hpage : ∀ r' ∈ before, page r'.key = page r.key →
      r'.key = r.key)
    (hgiven : ∀ r' ∈ r :: before, ∀ n, r'.answer = .given n → n = page r'.key)
    (hrefused : r.answer ≠ .refused)
    (hconflict : r.answer = .inProgress → ∃ r' ∈ before, r'.key = r.key) :
    Documented kept before r where
  refuses h := absurd h hrefused
  conflicts := hconflict
  replays _ r' hr' hkey n m hn hm := by
    rw [hgiven r' (List.mem_cons_of_mem _ hr') n hn, hgiven r List.mem_cons_self m hm, hkey]
  creates r' hr' hkey n m hn hm heq := by
    rw [hgiven r' (List.mem_cons_of_mem _ hr') n hn, hgiven r List.mem_cons_self m hm] at heq
    exact hkey (hpage r' hr' heq)

end Idempotency
