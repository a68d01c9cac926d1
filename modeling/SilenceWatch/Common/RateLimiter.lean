import Mathlib.Data.Int.Order.Basic
import SilenceWatch.Library.OrderedMap

/-!
# Rate limits

A limiter of hits by key, in windows of fixed length that start with the first hit.
-/

namespace SilenceWatch

open Keyed

/-- The window of one key. -/
structure RateWindow where
  count : ℕ
  resetAt : ℤ
  deriving DecidableEq

/-- The seconds until a window is over, rounded up and at least one. -/
def RateWindow.retryAfter (window : RateWindow) (now : ℤ) : ℤ :=
  max 1 (-((now - window.resetAt) / 1000))

/-- `RateLimiter`. -/
structure RateLimiter (Key : Type) where
  limit : ℕ
  windowMs : ℤ
  /-- Upper bound on tracked keys. -/
  maxKeys : ℕ
  windows : OrderedMap Key RateWindow

namespace RateLimiter

variable {Key : Type} [DecidableEq Key]

/-- The limiter without windows. -/
def new (limit : ℕ) (windowMs : ℤ) (maxKeys : ℕ := 100000) : RateLimiter Key :=
  { limit, windowMs, maxKeys, windows := OrderedMap.empty }

/-- Expired windows go; if there are still too many, the least recently created ones do. -/
def evict (limiter : RateLimiter Key) (now : ℤ) : RateLimiter Key :=
  let windows := limiter.windows.filter fun entry => ¬ entry.2.resetAt ≤ now
  if limiter.maxKeys ≤ windows.size then
    let excess := windows.size - limiter.maxKeys * 9 / 10
    -- the loop tests the count after it has dropped a window
    { limiter with windows := windows.drop (max 1 excess) }
  else { limiter with windows }

/-- Records a hit, with zero when it is allowed, or the delay in seconds. -/
def hit (limiter : RateLimiter Key) (key : Key) (now : ℤ) : RateLimiter Key × ℤ :=
  let opened :=
    let limiter := if limiter.maxKeys ≤ limiter.windows.size then limiter.evict now else limiter
    { limiter with
      windows := (limiter.windows.delete key).set key ⟨1, now + limiter.windowMs⟩ }
  match limiter.windows.get? key with
  | none => (opened, 0)
  | some window =>
    if window.resetAt ≤ now then (opened, 0)
    else if limiter.limit ≤ window.count then (limiter, window.retryAfter now)
    else
      ({ limiter with
          windows := limiter.windows.set key { window with count := window.count + 1 } }, 0)

/-- The key has already spent its budget. -/
def Exceeded (limiter : RateLimiter Key) (key : Key) (now : ℤ) : Prop :=
  ∃ window ∈ limiter.windows.get? key, now < window.resetAt ∧ limiter.limit ≤ window.count
  deriving Decidable

/-- What the window of a key has spent, which is nothing once it is over. -/
def spent (limiter : RateLimiter Key) (key : Key) (now : ℤ) : ℕ :=
  match limiter.windows.get? key with
  | some window => if now < window.resetAt then window.count else 0
  | none => 0

variable {limiter : RateLimiter Key} {key : Key} {now : ℤ} {window : RateWindow}

/-- Time gives budget back, and takes none. -/
theorem spent_le {now' : ℤ} (h : now ≤ now') : limiter.spent key now' ≤ limiter.spent key now := by
  unfold spent
  cases limiter.windows.get? key with
  | none => exact Nat.le_refl 0
  | some window =>
    dsimp only
    by_cases hlasts : now' < window.resetAt
    · have hlasted : now < window.resetAt := by omega
      exact Nat.le_of_eq (by rw [if_pos hlasts, if_pos hlasted])
    · rw [if_neg hlasts]
      exact Nat.zero_le _

/-- A hit changes windows only. -/
theorem hit_settings (limiter : RateLimiter Key) (key : Key) (now : ℤ) :
    (limiter.hit key now).1.limit = limiter.limit ∧
      (limiter.hit key now).1.windowMs = limiter.windowMs := by
  have hevict : (limiter.evict now).limit = limiter.limit ∧
      (limiter.evict now).windowMs = limiter.windowMs := by
    unfold evict
    dsimp only
    split
    · exact ⟨rfl, rfl⟩
    · exact ⟨rfl, rfl⟩
  have hopened : ∀ windows : OrderedMap Key RateWindow,
      ({ (if limiter.maxKeys ≤ limiter.windows.size then limiter.evict now else limiter) with
        windows } : RateLimiter Key).limit = limiter.limit ∧
      ({ (if limiter.maxKeys ≤ limiter.windows.size then limiter.evict now else limiter) with
        windows } : RateLimiter Key).windowMs = limiter.windowMs := by
    intro windows
    split
    · exact hevict
    · exact ⟨rfl, rfl⟩
  unfold hit
  cases limiter.windows.get? key with
  | none => exact hopened _
  | some window =>
    dsimp only
    split
    · exact hopened _
    · split
      · exact ⟨rfl, rfl⟩
      · exact ⟨rfl, rfl⟩

/-- The window of a key after a hit: one that lasts takes the hit if it may, otherwise a new
one opens with it. -/
theorem get?_hit (limiter : RateLimiter Key) (key : Key) (now : ℤ) :
    ((∀ window ∈ limiter.windows.get? key, window.resetAt ≤ now) ∧
        (limiter.hit key now).1.windows.get? key = some ⟨1, now + limiter.windowMs⟩) ∨
      ∃ window, limiter.windows.get? key = some window ∧ now < window.resetAt ∧
        (limiter.hit key now).1.windows.get? key =
          some (if limiter.limit ≤ window.count then window
            else { window with count := window.count + 1 }) := by
  have hevict : (limiter.evict now).windowMs = limiter.windowMs := by
    unfold evict
    dsimp only
    split
    · rfl
    · rfl
  have hms : (if limiter.maxKeys ≤ limiter.windows.size then limiter.evict now
      else limiter).windowMs = limiter.windowMs := by
    split
    · exact hevict
    · rfl
  unfold hit
  cases hwindow : limiter.windows.get? key with
  | none =>
    left
    refine ⟨by simp, ?_⟩
    dsimp only
    rw [OrderedMap.get?_set, if_pos rfl, hms]
  | some window =>
    dsimp only
    split
    · next hover =>
      left
      refine ⟨by simpa using hover, ?_⟩
      rw [OrderedMap.get?_set, if_pos rfl, hms]
    · next hlasts =>
      right
      refine ⟨window, rfl, by omega, ?_⟩
      split
      · exact hwindow
      · rw [OrderedMap.get?_set, if_pos rfl]

end RateLimiter

end SilenceWatch
