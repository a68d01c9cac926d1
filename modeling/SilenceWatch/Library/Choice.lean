import SilenceWatch.Library.OrderedMap
import Mathlib.Data.List.MinMax

/-!
# The first least item of each key

Items that come one after the other, of which a map keeps one for each key: an item takes the
place of the one that is kept if it ranks strictly before it. What is kept in the end is the
first of the least items of its key, at the place where its key came first.
-/

namespace Keyed

section Least

variable {α β : Type*} [DecidableEq α] [LinearOrder β] {rank : α → β} {a : α}
  {before after : List α}

/-- An item that was not there before is the first least one if the items before it rank behind
it and none of the items after it ranks before it. -/
theorem argmin_split (hnew : a ∉ before) : (before ++ a :: after).argmin rank = some a ↔
    (∀ b ∈ before, rank a < rank b) ∧ ∀ b ∈ after, rank a ≤ rank b := by
  have hindex : (before ++ a :: after).idxOf a = before.length := by
    rw [List.idxOf_append_of_notMem hnew, List.idxOf_cons_self, Nat.add_zero]
  rw [List.argmin_eq_some_iff, hindex]
  constructor
  · rintro ⟨_, hleast, hfirst⟩
    refine ⟨fun b hb => lt_of_not_ge fun hle => ?_, fun b hb => hleast b (by simp [hb])⟩
    have hplace := hfirst b (List.mem_append_left _ hb) hle
    rw [List.idxOf_append_of_mem hb] at hplace
    exact absurd (List.idxOf_lt_length_of_mem hb) (Nat.not_lt.mpr hplace)
  · rintro ⟨hbefore, hafter⟩
    refine ⟨by simp, fun b hb => ?_, fun b hb hle => ?_⟩
    · rcases List.mem_append.mp hb with hb | hb
      · exact (hbefore b hb).le
      · rcases List.mem_cons.mp hb with rfl | hb
        · exact le_rfl
        · exact hafter b hb
    · by_cases hb' : b ∈ before
      · exact absurd hle (not_le_of_gt (hbefore b hb'))
      · rw [List.idxOf_append_of_notMem hb']
        exact Nat.le_add_right _ _

/-- **Stability.** Under a family of ranks the same item is the first least one, exactly if one
item is ranked strictly before those that come before it, and not behind those after it, by each
of the ranks. -/
theorem argmin_stable_iff {ι : Type*} [Nonempty ι] {ranks : ι → α → β} {items : List α}
    (hne : items ≠ []) :
    (∀ i j, items.argmin (ranks i) = items.argmin (ranks j)) ↔
      ∃ before a after, items = before ++ a :: after ∧
        ∀ i, (∀ b ∈ before, ranks i a < ranks i b) ∧ ∀ b ∈ after, ranks i a ≤ ranks i b := by
  constructor
  · intro hsame
    obtain ⟨i₀⟩ := ‹Nonempty ι›
    cases hleast : items.argmin (ranks i₀) with
    | none => exact absurd (List.argmin_eq_none.mp hleast) hne
    | some a =>
      obtain ⟨before, after, hitems, hnew⟩ := List.eq_append_cons_of_mem (List.argmin_mem hleast)
      refine ⟨before, a, after, hitems, fun i => (argmin_split hnew).mp ?_⟩
      rw [← hitems, hsame i i₀, hleast]
  · rintro ⟨before, a, after, rfl, hranks⟩ i j
    have hnew : a ∉ before := fun ha => lt_irrefl _ ((hranks i).1 a ha)
    rw [(argmin_split hnew).mpr (hranks i), (argmin_split hnew).mpr (hranks j)]

end Least

/-- The first least image is that of the first item whose image is least. -/
theorem argmin_map {α β γ : Type*} [LinearOrder γ] (f : α → β) (rank : β → γ) (items : List α) :
    (items.map f).argmin rank = (items.argmin (rank ∘ f)).map f := by
  induction items with
  | nil => rfl
  | cons item items ih =>
    rw [List.map_cons, List.argmin_cons, List.argmin_cons, ih]
    cases items.argmin (rank ∘ f) with
    | none => rfl
    | some least =>
      dsimp only [Option.map_some, Function.comp_apply]
      split_ifs <;> rfl

namespace OrderedMap

variable {Key Item Rank : Type*} [DecidableEq Key] [LinearOrder Rank] (keyOf : Item → Key)
  (rank : Item → Rank)

/-- An item is kept if it is the first one of its key, or ranks before the one that is kept. -/
def choose (m : OrderedMap Key Item) (item : Item) : OrderedMap Key Item :=
  match m.get? (keyOf item) with
  | none => m.set (keyOf item) item
  | some kept => if rank item < rank kept then m.set (keyOf item) item else m

variable {keyOf rank} {m : OrderedMap Key Item} {item : Item} {key : Key}

/-- The keys after one is set. -/
theorem keys_set (m : OrderedMap Key Item) (key : Key) (item : Item) :
    (m.set key item).entries.map Prod.fst =
      if key ∈ m.entries.map Prod.fst then m.entries.map Prod.fst
      else m.entries.map Prod.fst ++ [key] := by
  unfold set
  dsimp only
  split_ifs
  · rw [List.map_map]
    refine List.map_congr_left fun entry _ => ?_
    by_cases hentry : entry.1 = key
    · simp [hentry]
    · simp [hentry]
  · rw [List.map_append, List.map_singleton]

/-- The items of a map are those of its keys. -/
theorem values_eq (m : OrderedMap Key Item) :
    m.entries.map Prod.snd = (m.entries.map Prod.fst).filterMap m.get? := by
  have hget : ∀ entry ∈ m.entries, (m.get? ∘ Prod.fst) entry = some entry.2 :=
    fun entry hentry => get?_eq_some.mpr hentry
  rw [List.filterMap_map, List.filterMap_congr hget, ← List.filterMap_eq_map]
  rfl

/-- The keys in the order in which they came first. -/
def keyOrder (keys : List Key) (key : Key) : List Key :=
  if key ∈ keys then keys else keys ++ [key]

theorem keys_choose : (m.choose keyOf rank item).entries.map Prod.fst =
    keyOrder (m.entries.map Prod.fst) (keyOf item) := by
  unfold choose keyOrder
  cases hkept : m.get? (keyOf item) with
  | none => exact keys_set m _ _
  | some kept =>
    have hthere : keyOf item ∈ m.entries.map Prod.fst := by
      by_contra hnew
      rw [get?_eq_none.mpr hnew] at hkept
      cases hkept
    rw [if_pos hthere]
    dsimp only
    split_ifs
    · rw [keys_set, if_pos hthere]
    · rfl

/-- The order of the keys does not depend on the ranks. -/
theorem keys_foldl_choose (items : List Item) (m : OrderedMap Key Item) :
    (items.foldl (choose keyOf rank) m).entries.map Prod.fst =
      (items.map keyOf).foldl keyOrder (m.entries.map Prod.fst) := by
  induction items generalizing m with
  | nil => rfl
  | cons item items ih => rw [List.foldl_cons, ih, keys_choose, List.map_cons, List.foldl_cons]

theorem get?_choose : (m.choose keyOf rank item).get? key =
    if keyOf item = key then
      match m.get? key with
      | none => some item
      | some kept => if rank item < rank kept then some item else some kept
    else m.get? key := by
  unfold choose
  by_cases hkey : keyOf item = key
  · subst hkey
    rw [if_pos rfl]
    cases hkept : m.get? (keyOf item) with
    | none => simp [get?_set]
    | some kept =>
      dsimp only
      split_ifs
      · simp [get?_set]
      · exact hkept
  · rw [if_neg hkey]
    cases m.get? (keyOf item) with
    | none => simp [get?_set, Ne.symm hkey]
    | some kept =>
      dsimp only
      split_ifs
      · simp [get?_set, Ne.symm hkey]
      · rfl

/-- **What is kept.** Of the items of a key the first least one is kept. -/
theorem get?_foldl_choose (items : List Item) (key : Key) :
    (items.foldl (choose keyOf rank) empty).get? key =
      (items.filter fun item => keyOf item = key).argmin rank := by
  induction items using List.reverseRecOn with
  | nil => rfl
  | append_singleton items item ih =>
    rw [List.foldl_append, List.foldl_cons, List.foldl_nil, get?_choose, ih, List.filter_append]
    by_cases hkey : keyOf item = key
    · rw [if_pos hkey, List.filter_cons_of_pos (by simpa using hkey), List.filter_nil,
        List.argmin_concat]
      cases (items.filter fun item => keyOf item = key).argmin rank <;> rfl
    · rw [if_neg hkey, List.filter_cons_of_neg (by simpa using hkey), List.filter_nil,
        List.append_nil]

end OrderedMap

end Keyed
