import SilenceWatch.Common.RateLimiter
import SilenceWatch.Library.Run

/-!
# The windows of the rate limiter

What a sequence of hits at non-decreasing times leaves of a limiter, and what it grants. A
window of a key lasts from the hit that opens it until its reset; it is live before that
instant and expired from it on.
-/

namespace SilenceWatch

open Keyed Transition

/-- A call of `hit`. -/
structure RateHit (Key : Type) where
  key : Key
  now : ℤ

namespace RateLimiter

variable {Key : Type} [DecidableEq Key]

/-- The limiter after a call. -/
def step (limiter : RateLimiter Key) (h : RateHit Key) : RateLimiter Key :=
  (limiter.hit h.key h.now).1

/-- The calls, each with its answer. -/
def answers (limiter : RateLimiter Key) : List (RateHit Key) → List (RateHit Key × ℤ)
  | [] => []
  | h :: hits => (h, (limiter.hit h.key h.now).2) :: (limiter.step h).answers hits

/-- How many hits on a key are allowed among the calls made from one instant until before
another. -/
def allowed (limiter : RateLimiter Key) (key : Key) (since before : ℤ)
    (hits : List (RateHit Key)) : ℕ :=
  (limiter.answers hits).countP fun a =>
    a.1.key = key ∧ a.2 = 0 ∧ since ≤ a.1.now ∧ a.1.now < before

/-- The resets of the windows, in the order of the map. -/
def resets (limiter : RateLimiter Key) : List ℤ :=
  limiter.windows.entries.map fun entry => entry.2.resetAt

/-- The map holds no more than it may, in the order in which the windows end. -/
structure Bounded (limiter : RateLimiter Key) : Prop where
  size_le : limiter.windows.size ≤ limiter.maxKeys
  ordered : limiter.resets.Pairwise (· ≤ ·)

/-- A call opens a window for its key. -/
def Opens (limiter : RateLimiter Key) (h : RateHit Key) : Prop :=
  ∀ window ∈ limiter.windows.get? h.key, window.resetAt ≤ h.now

/-- A call evicts the live window of a key. -/
def Evicts (limiter : RateLimiter Key) (key : Key) (h : RateHit Key) : Prop :=
  ∃ window ∈ limiter.windows.get? key, h.now < window.resetAt ∧
    (limiter.step h).windows.get? key = none

/-- If a call evicts a live window, no expired one is left. -/
def EvictsLast (limiter : RateLimiter Key) (h : RateHit Key) : Prop :=
  ∀ key, limiter.Evicts key h → ∀ key' ≠ h.key, ∀ window ∈ (limiter.step h).windows.get? key',
    h.now < window.resetAt

/-- What a call of `hit` does: it opens a window behind those that are kept, it is refused, or
it is counted. -/
inductive HitCase (limiter : RateLimiter Key) (h : RateHit Key) : RateLimiter Key → ℤ → Prop
  | opened (kept : OrderedMap Key RateWindow) (windows : OrderedMap Key RateWindow)
      (hopens : limiter.Opens h) (hkept : kept.entries.Sublist limiter.windows.entries)
      (hnew : kept.get? h.key = none) (hroom : 1 ≤ limiter.maxKeys → kept.size < limiter.maxKeys)
      (hlive : kept = limiter.windows.delete h.key ∨ ∀ e ∈ kept.entries, h.now < e.2.resetAt)
      (hwindows : windows.entries = kept.entries ++ [(h.key, ⟨1, h.now + limiter.windowMs⟩)]) :
      HitCase limiter h { limiter with windows } 0
  | refused (window : RateWindow) (hwindow : limiter.windows.get? h.key = some window)
      (hlasts : h.now < window.resetAt) (hspent : limiter.limit ≤ window.count) :
      HitCase limiter h limiter (window.retryAfter h.now)
  | counted (window : RateWindow) (hwindow : limiter.windows.get? h.key = some window)
      (hlasts : h.now < window.resetAt) (hroom : window.count < limiter.limit) :
      HitCase limiter h
        { limiter with
          windows := limiter.windows.set h.key { window with count := window.count + 1 } } 0

variable {limiter : RateLimiter Key} {key : Key} {now : ℤ} {window : RateWindow}
  {h : RateHit Key} {hits : List (RateHit Key)} {after : RateLimiter Key} {answer since before : ℤ}

omit [DecidableEq Key] in
/-- An eviction leaves live windows, and room for another one. -/
theorem evict_cases (limiter : RateLimiter Key) (now : ℤ) :
    ∃ windows, limiter.evict now = { limiter with windows } ∧
      windows.entries.Sublist limiter.windows.entries ∧
      (∀ e ∈ windows.entries, now < e.2.resetAt) ∧
      (1 ≤ limiter.maxKeys → windows.size < limiter.maxKeys) := by
  have hfilter : ∀ e ∈ (limiter.windows.filter fun entry => ¬ entry.2.resetAt ≤ now).entries,
      now < e.2.resetAt := by
    intro e he
    simpa using (List.mem_filter.mp he).2
  unfold evict
  dsimp only
  split
  · next hfull =>
    refine ⟨_, rfl, (List.drop_sublist _ _).trans List.filter_sublist, ?_, ?_⟩
    · intro e he
      exact hfilter e (List.mem_of_mem_drop he)
    · intro hmax
      have hdrop : ∀ n, ((limiter.windows.filter fun entry =>
        ¬ entry.2.resetAt ≤ now).drop n).size =
          (limiter.windows.filter fun entry => ¬ entry.2.resetAt ≤ now).size - n :=
        fun n => List.length_drop
      rw [hdrop]
      omega
  · next hroom =>
    exact ⟨_, rfl, List.filter_sublist, hfilter, fun _ => Nat.lt_of_not_le hroom⟩

/-- A key that was deleted is written behind the others. -/
theorem entries_set_delete (m : OrderedMap Key RateWindow) :
    ((m.delete key).set key window).entries = (m.delete key).entries ++ [(key, window)] := by
  have hgone : (m.delete key).get? key = none := by rw [OrderedMap.get?_delete, if_pos rfl]
  exact if_neg (OrderedMap.get?_eq_none.mp hgone)

/-- **The cases of a hit.** -/
theorem hit_cases (limiter : RateLimiter Key) (h : RateHit Key) :
    HitCase limiter h (limiter.step h) (limiter.hit h.key h.now).2 := by
  have hopened : limiter.Opens h → ∀ limiter' : RateLimiter Key,
      (limiter' = if limiter.maxKeys ≤ limiter.windows.size then limiter.evict h.now
        else limiter) →
      HitCase limiter h { limiter' with
        windows := (limiter'.windows.delete h.key).set h.key
          ⟨1, h.now + limiter'.windowMs⟩ } 0 := by
    rintro hopens limiter' rfl
    have hgone : ∀ m : OrderedMap Key RateWindow, (m.delete h.key).get? h.key = none := by
      intro m
      rw [OrderedMap.get?_delete, if_pos rfl]
    split
    · obtain ⟨windows, heq, hsub, hlive, hroom⟩ := evict_cases limiter h.now
      rw [heq]
      refine .opened (windows.delete h.key) _ hopens (List.filter_sublist.trans hsub)
        (hgone _) ?_ ?_ (entries_set_delete windows)
      · intro hmax
        exact Nat.lt_of_le_of_lt (OrderedMap.size_delete_le _ _) (hroom hmax)
      · exact Or.inr fun e he => hlive e (List.mem_of_mem_filter he)
    · next hroom =>
      refine .opened (limiter.windows.delete h.key) _ hopens List.filter_sublist (hgone _) ?_
        (Or.inl rfl) (entries_set_delete limiter.windows)
      intro _
      exact Nat.lt_of_le_of_lt (OrderedMap.size_delete_le _ _) (Nat.lt_of_not_le hroom)
  unfold step hit
  cases hwindow : limiter.windows.get? h.key with
  | none =>
    refine hopened ?_ _ rfl
    intro window hmem
    rw [hwindow] at hmem
    cases hmem
  | some window =>
    dsimp only
    split
    · next hover =>
      refine hopened ?_ _ rfl
      intro window' hmem
      rw [hwindow] at hmem
      cases hmem
      exact hover
    · next hlasts =>
      split
      · next hspent => exact .refused window hwindow (Int.lt_of_not_ge hlasts) hspent
      · next hroom =>
        exact .counted window hwindow (Int.lt_of_not_ge hlasts) (Nat.lt_of_not_le hroom)

/-- A hit changes windows only. -/
theorem HitCase.settings (hcase : HitCase limiter h after answer) :
    after.limit = limiter.limit ∧ after.windowMs = limiter.windowMs ∧
      after.maxKeys = limiter.maxKeys := by
  cases hcase with
  | opened => exact ⟨rfl, rfl, rfl⟩
  | refused => exact ⟨rfl, rfl, rfl⟩
  | counted => exact ⟨rfl, rfl, rfl⟩

/-- Another key keeps its window, or loses it to an eviction. -/
theorem HitCase.get?_other (hcase : HitCase limiter h after answer) (hne : key ≠ h.key) :
    after.windows.get? key = limiter.windows.get? key ∨ after.windows.get? key = none := by
  cases hcase with
  | opened kept windows _ hkept _ _ _ hwindows =>
    cases hafter : windows.get? key with
    | none => exact Or.inr rfl
    | some window =>
      left
      have hmem := OrderedMap.get?_eq_some.mp hafter
      rw [hwindows, List.mem_append, List.mem_singleton] at hmem
      rcases hmem with hmem | heq
      · exact (OrderedMap.get?_eq_some.mpr (hkept.subset hmem)).symm
      · cases heq
        exact absurd rfl hne
  | refused => exact Or.inl rfl
  | counted =>
    left
    dsimp only
    rw [OrderedMap.get?_set, if_neg hne]

/-- The key of a hit has a window afterwards: a new one, or the live one, in which the hit is
counted if there is room for it. -/
theorem HitCase.get?_own (hcase : HitCase limiter h after answer) :
    (limiter.Opens h ∧ answer = 0 ∧
        after.windows.get? h.key = some ⟨1, h.now + limiter.windowMs⟩) ∨
      ∃ window, limiter.windows.get? h.key = some window ∧ h.now < window.resetAt ∧
        ((limiter.limit ≤ window.count ∧ answer = window.retryAfter h.now ∧ after = limiter) ∨
          (window.count < limiter.limit ∧ answer = 0 ∧
            after.windows.get? h.key = some { window with count := window.count + 1 })) := by
  cases hcase with
  | opened kept windows hopens _ _ _ _ hwindows =>
    refine Or.inl ⟨hopens, rfl, OrderedMap.get?_eq_some.mpr ?_⟩
    dsimp only
    rw [hwindows]
    exact List.mem_append_right _ (List.mem_singleton_self _)
  | refused window hwindow hlasts hspent =>
    exact Or.inr ⟨window, hwindow, hlasts, Or.inl ⟨hspent, rfl, rfl⟩⟩
  | counted window hwindow hlasts hroom =>
    refine Or.inr ⟨window, hwindow, hlasts, Or.inr ⟨hroom, rfl, ?_⟩⟩
    dsimp only
    rw [OrderedMap.get?_set, if_pos rfl]

/-- A refusal asks for a second or more, and for enough to outlast the window. -/
theorem retryAfter_bounds (window : RateWindow) (now : ℤ) :
    1 ≤ window.retryAfter now ∧ window.resetAt ≤ now + 1000 * window.retryAfter now := by
  unfold RateWindow.retryAfter
  omega

section Order

/-- The resets after a hit: some of those there were, and that of the new window. -/
theorem HitCase.resets (hcase : HitCase limiter h after answer) :
    after.resets = limiter.resets ∨
      ∃ kept, kept.Sublist limiter.resets ∧
        after.resets = kept ++ [h.now + limiter.windowMs] := by
  cases hcase with
  | opened kept windows _ hkept _ _ _ hwindows =>
    right
    refine ⟨_, hkept.map fun entry => entry.2.resetAt, ?_⟩
    simp only [RateLimiter.resets, hwindows, List.map_append, List.map_singleton]
  | refused => exact Or.inl rfl
  | counted window hwindow =>
    left
    have hthere : h.key ∈ limiter.windows.entries.map Prod.fst := by
      by_contra hnew
      rw [OrderedMap.get?_eq_none.mpr hnew] at hwindow
      cases hwindow
    simp only [RateLimiter.resets, OrderedMap.set, if_pos hthere, List.map_map]
    refine List.map_congr_left fun entry hentry => ?_
    by_cases hkey : entry.1 = h.key
    · have hsame : limiter.windows.get? h.key = some entry.2 := by
        rw [← hkey]
        exact OrderedMap.get?_eq_some.mpr hentry
      rw [hwindow] at hsame
      cases hsame
      simp only [Function.comp_apply, if_pos hkey]
    · simp only [Function.comp_apply, if_neg hkey]

/-- **Step.** The map stays within its bounds. -/
theorem HitCase.bounded (hcase : HitCase limiter h after answer) (hmax : 1 ≤ limiter.maxKeys)
    (hbefore : ∀ reset ∈ limiter.resets, reset ≤ h.now + limiter.windowMs)
    (hbounded : limiter.Bounded) : after.Bounded := by
  constructor
  · cases hcase with
    | opened kept windows _ _ _ hroom _ hwindows =>
      have hsize : windows.size = kept.size + 1 := by
        simp only [OrderedMap.size, hwindows, List.length_append, List.length_singleton]
      have hkept := hroom hmax
      dsimp only
      omega
    | refused => exact hbounded.size_le
    | counted window hwindow =>
      dsimp only
      rw [OrderedMap.size_set_of_some hwindow]
      exact hbounded.size_le
  · rcases hcase.resets with hsame | ⟨kept, hkept, hopened⟩
    · rw [hsame]
      exact hbounded.ordered
    · rw [hopened]
      refine List.pairwise_append.mpr ⟨hbounded.ordered.sublist hkept,
        List.pairwise_singleton _ _, ?_⟩
      intro reset hreset last hlast
      rw [List.mem_singleton.mp hlast]
      exact hbefore reset (hkept.subset hreset)

/-- **Run.** The map stays within its bounds while time does not go back. -/
theorem throughout_bounded (hmax : 1 ≤ limiter.maxKeys)
    (htimes : hits.Pairwise fun h h' => h.now ≤ h'.now)
    (hbefore : ∀ h ∈ hits, ∀ reset ∈ limiter.resets, reset ≤ h.now + limiter.windowMs)
    (hbounded : limiter.Bounded) : Throughout step Bounded limiter hits := by
  induction hits generalizing limiter with
  | nil => exact hbounded
  | cons h hits ih =>
    obtain ⟨hfirst, hrest⟩ := List.pairwise_cons.mp htimes
    have hcase := hit_cases limiter h
    obtain ⟨-, hms, hkeys⟩ := hcase.settings
    refine ⟨hbounded, ih (hkeys ▸ hmax) hrest ?_ ?_⟩
    · intro h' hh' reset hreset
      rw [hms]
      rcases hcase.resets with hsame | ⟨kept, hkept, hopened⟩
      · rw [hsame] at hreset
        exact hbefore h' (List.mem_cons_of_mem _ hh') reset hreset
      · rw [hopened, List.mem_append, List.mem_singleton] at hreset
        rcases hreset with hreset | rfl
        · exact hbefore h' (List.mem_cons_of_mem _ hh') reset (hkept.subset hreset)
        · exact Int.add_le_add_right (hfirst h' hh') _
    · exact hcase.bounded hmax (hbefore h List.mem_cons_self) hbounded

/-- **Step.** Live windows go last. -/
theorem evictsLast (limiter : RateLimiter Key) (h : RateHit Key) : limiter.EvictsLast h := by
  have hcase := hit_cases limiter h
  unfold EvictsLast Evicts
  generalize limiter.step h = after, (limiter.hit h.key h.now).2 = answer at hcase ⊢
  rintro key ⟨window, hwindow, hlasts, hgone⟩ key' hne window' hwindow'
  cases hcase with
  | opened kept windows hopens _ _ _ hlive hwindows =>
    rcases hlive with rfl | hlive
    · have hother : key ≠ h.key := by
        rintro rfl
        exact absurd (hopens window hwindow) (Int.not_le.mpr hlasts)
      have hkept : (limiter.windows.delete h.key).get? key = some window := by
        rw [OrderedMap.get?_delete, if_neg hother]
        exact hwindow
      have hmem := List.mem_append_left [(h.key, (⟨1, h.now + limiter.windowMs⟩ : RateWindow))]
        (OrderedMap.get?_eq_some.mp hkept)
      rw [← hwindows] at hmem
      rw [OrderedMap.get?_eq_some.mpr hmem] at hgone
      cases hgone
    · have hmem := OrderedMap.get?_eq_some.mp hwindow'
      rw [hwindows, List.mem_append, List.mem_singleton] at hmem
      rcases hmem with hmem | heq
      · exact hlive _ hmem
      · cases heq
        exact absurd rfl hne
  | refused =>
    rw [hwindow] at hgone
    cases hgone
  | counted =>
    rw [OrderedMap.get?_set] at hgone
    split at hgone
    · cases hgone
    · rw [hwindow] at hgone
      cases hgone

end Order

section Grants

/-- A hit that is allowed between the two instants is one more. -/
theorem allowed_cons : limiter.allowed key since before (h :: hits) =
    (limiter.step h).allowed key since before hits +
      if h.key = key ∧ (limiter.hit h.key h.now).2 = 0 ∧ since ≤ h.now ∧ h.now < before then 1
      else 0 := by
  simp only [allowed, answers, List.countP_cons, decide_eq_true_eq]

/-- Nothing is allowed before an instant among hits that are made from it on. -/
theorem allowed_of_late (hlate : ∀ h ∈ hits, before ≤ h.now) :
    limiter.allowed key since before hits = 0 := by
  induction hits generalizing limiter with
  | nil => rfl
  | cons h hits ih =>
    have hfirst := hlate h List.mem_cons_self
    rw [allowed_cons, ih fun h' hh' => hlate h' (List.mem_cons_of_mem _ hh'), if_neg (by omega)]

/-- A longer time allows no fewer. -/
theorem allowed_mono (limiter : RateLimiter Key) (key : Key) (since : ℤ)
    (hits : List (RateHit Key)) {before' : ℤ} (hle : before ≤ before') :
    limiter.allowed key since before hits ≤ limiter.allowed key since before' hits :=
  List.countP_mono_left fun a _ ha => by
    simp only [decide_eq_true_eq] at ha ⊢
    exact ⟨ha.1, ha.2.1, ha.2.2.1, Int.lt_of_lt_of_le ha.2.2.2 hle⟩

/-- Within a live window that is not evicted, a key is allowed what is left of its budget. -/
theorem allowed_of_live (since : ℤ) (htimes : hits.Pairwise fun h h' => h.now ≤ h'.now)
    (hkept : Along step (fun limiter h => ¬ limiter.Evicts key h) limiter hits)
    (hwindow : limiter.windows.get? key = some window) (hcount : window.count ≤ limiter.limit) :
    limiter.allowed key since window.resetAt hits + window.count ≤ limiter.limit := by
  induction hits generalizing limiter window with
  | nil => simpa [allowed, answers] using hcount
  | cons h hits ih =>
    obtain ⟨hfirst, hrest⟩ := List.pairwise_cons.mp htimes
    by_cases hover : window.resetAt ≤ h.now
    · rw [allowed_of_late]
      · omega
      · intro h' hh'
        rcases List.mem_cons.mp hh' with rfl | hh'
        · exact hover
        · exact Int.le_trans hover (hfirst h' hh')
    · have hcase := hit_cases limiter h
      have hlimit := hcase.settings.1
      rw [allowed_cons]
      by_cases hkey : key = h.key
      · subst hkey
        rcases hcase.get?_own with ⟨hopens, -⟩ | ⟨window', hwindow', hlasts, hown⟩
        · exact absurd (hopens window hwindow) hover
        · obtain rfl : window = window' := Option.some_inj.mp (hwindow.symm.trans hwindow')
          rcases hown with ⟨hspent, hanswer, hsame⟩ | ⟨hroom, hanswer, hnext⟩
          · have hasks := (retryAfter_bounds window h.now).1
            have hle := ih hrest hkept.2 (by rw [hsame]; exact hwindow)
              (by rw [hsame]; exact hcount)
            rw [if_neg (by omega)]
            omega
          · have hle := ih hrest hkept.2 hnext (by dsimp only; omega)
            dsimp only at hle
            split
            · omega
            · omega
      · rcases hcase.get?_other hkey with hsame | hgone
        · have hle := ih hrest hkept.2 (hsame.trans hwindow) (by omega)
          rw [if_neg (fun hcond => hkey hcond.1.symm)]
          omega
        · exact absurd ⟨window, hwindow, Int.lt_of_not_ge hover, hgone⟩ hkept.1

/-- A key whose window is over is allowed no more than the limit within the length of a
window. -/
theorem allowed_of_expired (hlimit : 1 ≤ limiter.limit)
    (htimes : hits.Pairwise fun h h' => h.now ≤ h'.now)
    (hkept : Along step (fun limiter h => ¬ limiter.Evicts key h) limiter hits)
    (hsince : ∀ h ∈ hits, since ≤ h.now)
    (hexpired : ∀ window ∈ limiter.windows.get? key, ∀ h ∈ hits, window.resetAt ≤ h.now) :
    limiter.allowed key since (since + limiter.windowMs) hits ≤ limiter.limit := by
  induction hits generalizing limiter with
  | nil => exact Nat.zero_le _
  | cons h hits ih =>
    obtain ⟨hfirst, hrest⟩ := List.pairwise_cons.mp htimes
    have hcase := hit_cases limiter h
    obtain ⟨hlimit', hms, -⟩ := hcase.settings
    rw [allowed_cons]
    by_cases hkey : key = h.key
    · subst hkey
      rcases hcase.get?_own with ⟨-, -, hnew⟩ | ⟨window, hwindow, hlasts, -⟩
      · have hle := allowed_of_live since hrest hkept.2 hnew (by dsimp only; omega)
        have hshorter := hsince h List.mem_cons_self
        have hmono := (limiter.step h).allowed_mono h.key since hits
          (Int.add_le_add_right hshorter limiter.windowMs)
        dsimp only at hle
        split
        · omega
        · omega
      · exact absurd (hexpired window hwindow h List.mem_cons_self) (Int.not_le.mpr hlasts)
    · have hle := ih (hlimit' ▸ hlimit) hrest hkept.2
        (fun h' hh' => hsince h' (List.mem_cons_of_mem _ hh')) (by
          intro window hwindow h' hh'
          rcases hcase.get?_other hkey with hsame | hgone
          · exact hexpired window (hsame ▸ hwindow) h' (List.mem_cons_of_mem _ hh')
          · rw [hgone] at hwindow
            cases hwindow)
      rw [hms, hlimit'] at hle
      rw [if_neg (fun hcond => hkey hcond.1.symm)]
      omega

/-- A key with a live window that is not evicted is allowed what is left of it, and one more
window, within the length of a window. -/
theorem allowed_of_two (hlimit : 1 ≤ limiter.limit)
    (htimes : hits.Pairwise fun h h' => h.now ≤ h'.now)
    (hkept : Along step (fun limiter h => ¬ limiter.Evicts key h) limiter hits)
    (hsince : ∀ h ∈ hits, since ≤ h.now) (hwindow : limiter.windows.get? key = some window)
    (hcount : window.count ≤ limiter.limit) :
    limiter.allowed key since (since + limiter.windowMs) hits + window.count ≤
      2 * limiter.limit := by
  induction hits generalizing limiter window with
  | nil =>
    simp only [allowed, answers, List.countP_nil]
    omega
  | cons h hits ih =>
    obtain ⟨hfirst, hrest⟩ := List.pairwise_cons.mp htimes
    by_cases hover : window.resetAt ≤ h.now
    · have hle := allowed_of_expired hlimit htimes hkept hsince (by
        intro window' hwindow' h' hh'
        obtain rfl : window = window' := Option.some_inj.mp (hwindow.symm.trans hwindow')
        rcases List.mem_cons.mp hh' with rfl | hh'
        · exact hover
        · exact Int.le_trans hover (hfirst h' hh'))
      omega
    · have hcase := hit_cases limiter h
      obtain ⟨hlimit', hms, -⟩ := hcase.settings
      have hsince' : ∀ h' ∈ hits, since ≤ h'.now :=
        fun h' hh' => hsince h' (List.mem_cons_of_mem _ hh')
      have hle := fun window' hwindow' hcount' =>
        @ih (limiter.step h) window' (hlimit' ▸ hlimit) hrest hkept.2 hsince' hwindow' hcount'
      rw [hms, hlimit'] at hle
      rw [allowed_cons]
      by_cases hkey : key = h.key
      · subst hkey
        rcases hcase.get?_own with ⟨hopens, -⟩ | ⟨window', hwindow', hlasts, hown⟩
        · exact absurd (hopens window hwindow) hover
        · obtain rfl : window = window' := Option.some_inj.mp (hwindow.symm.trans hwindow')
          rcases hown with ⟨hspent, hanswer, hsame⟩ | ⟨hroom, hanswer, hnext⟩
          · have hasks := (retryAfter_bounds window h.now).1
            have hrest := hle window (by rw [hsame]; exact hwindow) hcount
            rw [if_neg (by omega)]
            omega
          · have hrest := hle _ hnext (by dsimp only; omega)
            dsimp only at hrest
            split
            · omega
            · omega
      · rcases hcase.get?_other hkey with hsame | hgone
        · have hrest := hle window (hsame.trans hwindow) hcount
          rw [if_neg (fun hcond => hkey hcond.1.symm)]
          omega
        · exact absurd ⟨window, hwindow, Int.lt_of_not_ge hover, hgone⟩ hkept.1

/-- No window counts more than the limit. -/
def WithinLimit (limiter : RateLimiter Key) : Prop :=
  ∀ key, ∀ window ∈ limiter.windows.get? key, window.count ≤ limiter.limit

/-- **Step.** Windows stay within the limit. -/
theorem HitCase.withinLimit (hcase : HitCase limiter h after answer) (hlimit : 1 ≤ limiter.limit)
    (hwithin : limiter.WithinLimit) : after.WithinLimit := by
  intro key window hwindow
  rw [hcase.settings.1]
  by_cases hkey : key = h.key
  · subst hkey
    rcases hcase.get?_own with ⟨-, -, hnew⟩ | ⟨window', hwindow', -, hown⟩
    · obtain rfl := Option.some_inj.mp (hwindow.symm.trans hnew)
      exact hlimit
    · rcases hown with ⟨-, -, rfl⟩ | ⟨hroom, -, hnext⟩
      · exact hwithin h.key window hwindow
      · obtain rfl := Option.some_inj.mp (hwindow.symm.trans hnext)
        exact hroom
  · rcases hcase.get?_other hkey with hsame | hgone
    · exact hwithin key window (hsame ▸ hwindow)
    · rw [hgone] at hwindow
      cases hwindow

/-- A key whose live windows are not evicted is allowed no more than twice the limit within
the length of a window. -/
theorem allowed_le_twice (hlimit : 1 ≤ limiter.limit)
    (htimes : hits.Pairwise fun h h' => h.now ≤ h'.now)
    (hkept : Along step (fun limiter h => ¬ limiter.Evicts key h) limiter hits)
    (hwithin : limiter.WithinLimit) :
    limiter.allowed key since (since + limiter.windowMs) hits ≤ 2 * limiter.limit := by
  induction hits generalizing limiter with
  | nil => exact Nat.zero_le _
  | cons h hits ih =>
    obtain ⟨hfirst, hrest⟩ := List.pairwise_cons.mp htimes
    by_cases hearly : h.now < since
    · have hcase := hit_cases limiter h
      obtain ⟨hlimit', hms, -⟩ := hcase.settings
      have hle := ih (hlimit' ▸ hlimit) hrest hkept.2 (hcase.withinLimit hlimit hwithin)
      rw [hms, hlimit'] at hle
      rw [allowed_cons, if_neg (by omega)]
      exact hle
    · have hsince : ∀ h' ∈ h :: hits, since ≤ h'.now := by
        intro h' hh'
        rcases List.mem_cons.mp hh' with rfl | hh'
        · exact Int.not_lt.mp hearly
        · exact Int.le_trans (Int.not_lt.mp hearly) (hfirst h' hh')
      cases hwindow : limiter.windows.get? key with
      | none =>
        have hle := allowed_of_expired hlimit htimes hkept hsince (by
          intro window hmem
          rw [hwindow] at hmem
          cases hmem)
        omega
      | some window =>
        have hle := allowed_of_two hlimit htimes hkept hsince hwindow (hwithin key window hwindow)
        omega

end Grants

section Retry

/-- While others hit, a key keeps its window or loses it. -/
theorem get?_run_of_others (limiter : RateLimiter Key) (hothers : ∀ h ∈ hits, h.key ≠ key) :
    (run step limiter hits).windows.get? key = limiter.windows.get? key ∨
      (run step limiter hits).windows.get? key = none := by
  induction hits generalizing limiter with
  | nil => exact Or.inl rfl
  | cons h hits ih =>
    have hlater := ih (limiter.step h) fun h' hh' => hothers h' (List.mem_cons_of_mem _ hh')
    rw [run_cons]
    rcases hlater with hsame | hgone
    · rw [hsame]
      exact (hit_cases limiter h).get?_other fun heq => hothers h List.mem_cons_self heq.symm
    · exact Or.inr hgone

/-- A key that waited as long as it was told to is allowed. -/
theorem allowed_after_retry {h' : RateHit Key} (hkey : h'.key = h.key)
    (hothers : ∀ b ∈ hits, b.key ≠ h.key) (hrefused : (limiter.hit h.key h.now).2 ≠ 0)
    (hwaited : h.now + 1000 * (limiter.hit h.key h.now).2 ≤ h'.now) :
    ((run step limiter (h :: hits)).hit h'.key h'.now).2 = 0 := by
  rcases (hit_cases limiter h).get?_own with ⟨-, hanswer, -⟩ | ⟨window, hwindow, -, hown⟩
  · exact absurd hanswer hrefused
  · rcases hown with ⟨-, hanswer, hsame⟩ | ⟨-, hanswer, -⟩
    · rw [hanswer] at hwaited
      have hover : window.resetAt ≤ h'.now :=
        Int.le_trans (retryAfter_bounds window h.now).2 hwaited
      have hopens : (run step limiter (h :: hits)).Opens h' := by
        intro window' hwindow'
        rw [run_cons, hsame, hkey] at hwindow'
        rcases get?_run_of_others limiter hothers with hkept | hgone
        · rw [hkept, hwindow] at hwindow'
          cases hwindow'
          exact hover
        · rw [hgone] at hwindow'
          cases hwindow'
      rcases (hit_cases (run step limiter (h :: hits)) h').get?_own with
        ⟨-, hzero, -⟩ | ⟨window', hwindow', hlasts, -⟩
      · exact hzero
      · exact absurd (hopens window' hwindow') (Int.not_le.mpr hlasts)
    · exact absurd hanswer hrefused

end Retry

/-- What a limiter without windows promises to a sequence of hits. -/
structure WindowLaw (limiter : RateLimiter Key) (hits : List (RateHit Key)) : Prop where
  /-- The map stays within its bounds. -/
  bounded : Throughout step Bounded limiter hits
  /-- A live window is evicted only when no expired one is left. -/
  evictsLast : Along step EvictsLast limiter hits
  /-- From the hit that opens a window to its end, a key is allowed the limit at most. -/
  perWindow : ∀ key, Along step (fun limiter h => ¬ limiter.Evicts key h) limiter hits →
    ∀ earlier h later, hits = earlier ++ h :: later → h.key = key →
      (run step limiter earlier).Opens h →
      1 + ((run step limiter earlier).step h).allowed key h.now (h.now + limiter.windowMs) later ≤
        limiter.limit
  /-- Within the length of a window, a key is allowed twice the limit at most. -/
  perInterval : ∀ key, Along step (fun limiter h => ¬ limiter.Evicts key h) limiter hits →
    ∀ since, limiter.allowed key since (since + limiter.windowMs) hits ≤ 2 * limiter.limit
  /-- A key that is refused, and waits as long as it is told to, is allowed. -/
  retry : ∀ earlier h between h' later, hits = earlier ++ h :: (between ++ h' :: later) →
    h'.key = h.key → (∀ b ∈ between, b.key ≠ h.key) →
    ((run step limiter earlier).hit h.key h.now).2 ≠ 0 →
    h.now + 1000 * ((run step limiter earlier).hit h.key h.now).2 ≤ h'.now →
    ((run step limiter (earlier ++ h :: between)).hit h'.key h'.now).2 = 0

/-- A run changes windows only. -/
theorem run_settings (limiter : RateLimiter Key) (hits : List (RateHit Key)) :
    (run step limiter hits).limit = limiter.limit ∧
      (run step limiter hits).windowMs = limiter.windowMs := by
  induction hits generalizing limiter with
  | nil => exact ⟨rfl, rfl⟩
  | cons h hits ih =>
    obtain ⟨hlimit, hms, -⟩ := (hit_cases limiter h).settings
    obtain ⟨hlimit', hms'⟩ := ih (limiter.step h)
    exact ⟨hlimit'.trans hlimit, hms'.trans hms⟩

/-- **The law of the rate limiter's windows.** -/
theorem window_law (limit maxKeys : ℕ) (windowMs : ℤ) (hlimit : 1 ≤ limit) (hmax : 1 ≤ maxKeys)
    (hits : List (RateHit Key)) (htimes : hits.Pairwise fun h h' => h.now ≤ h'.now) :
    (new limit windowMs maxKeys : RateLimiter Key).WindowLaw hits := by
  have hnone : ∀ key, ¬ ∃ window,
      (new limit windowMs maxKeys : RateLimiter Key).windows.get? key = some window := by
    rintro key ⟨window, hwindow⟩
    cases hwindow
  constructor
  · refine throughout_bounded hmax htimes ?_ ⟨Nat.zero_le _, List.Pairwise.nil⟩
    intro h _ reset hreset
    cases hreset
  · exact (along_of_forall fun _ _ => trivial).mono fun limiter h _ => limiter.evictsLast h
  · rintro _ hkept earlier h later rfl rfl hopens
    obtain ⟨hlimit', hms⟩ := run_settings (new limit windowMs maxKeys) earlier
    have hlater := hkept.later.2
    rcases (hit_cases (run step (new limit windowMs maxKeys) earlier) h).get?_own with
      ⟨-, -, hnew⟩ | ⟨window, hwindow, hlasts, -⟩
    · have htimes' := (List.pairwise_append.mp htimes).2.1
      have hle := allowed_of_live h.now (List.pairwise_cons.mp htimes').2 hlater hnew (by
        rw [(hit_cases _ h).settings.1, hlimit']
        exact hlimit)
      rw [(hit_cases _ h).settings.1, hlimit', hms] at hle
      rw [Nat.add_comm]
      exact hle
    · exact absurd (hopens window hwindow) (Int.not_le.mpr hlasts)
  · intro key hkept since
    refine allowed_le_twice hlimit htimes hkept ?_
    intro key window hwindow
    exact absurd ⟨window, hwindow⟩ (hnone key)
  · rintro earlier h between h' later rfl hkey hothers hrefused hwaited
    rw [run_append]
    exact allowed_after_retry hkey hothers hrefused hwaited

/-- One key that hits three times, and a second one. -/
theorem window_law_twoKeys :
    (new 1 1000 2 : RateLimiter ℕ).WindowLaw [⟨1, 0⟩, ⟨2, 300⟩, ⟨1, 999⟩, ⟨1, 1999⟩] :=
  window_law 1 2 1000 (Nat.le_refl 1) (by decide) _ (by decide)

end RateLimiter

end SilenceWatch
