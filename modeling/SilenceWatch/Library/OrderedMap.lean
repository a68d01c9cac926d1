import Mathlib.Data.List.Nodup

/-!
# Maps in order of insertion

A map that remembers in which order its keys came. Writing to a key that is there keeps
its place, so that the first entries are those whose keys have been there the longest.
-/

namespace Keyed

/-- A map in order of insertion. -/
structure OrderedMap (Key Value : Type*) where
  entries : List (Key × Value)
  nodup : (entries.map Prod.fst).Nodup

namespace OrderedMap

variable {Key Value : Type*} [DecidableEq Key] {m : OrderedMap Key Value} {key key' : Key}
  {value value' : Value}

/-- The map without entries. -/
def empty : OrderedMap Key Value := ⟨[], List.nodup_nil⟩

/-- How many keys there are. -/
def size (m : OrderedMap Key Value) : ℕ := m.entries.length

/-- The value of a key. -/
def get? (m : OrderedMap Key Value) (key : Key) : Option Value :=
  (m.entries.find? fun entry => entry.1 = key).map Prod.snd

/-- A key that is there keeps its place; another one comes last. -/
def set (m : OrderedMap Key Value) (key : Key) (value : Value) : OrderedMap Key Value where
  entries :=
    if key ∈ m.entries.map Prod.fst then
      m.entries.map fun entry => if entry.1 = key then (key, value) else entry
    else m.entries ++ [(key, value)]
  nodup := by
    split
    · have hkeys : (m.entries.map fun entry => if entry.1 = key then (key, value) else entry).map
          Prod.fst = m.entries.map Prod.fst := by
        rw [List.map_map]
        refine List.map_congr_left fun entry _ => ?_
        by_cases hentry : entry.1 = key
        · simp [hentry]
        · simp [hentry]
      rw [hkeys]
      exact m.nodup
    · next hnew =>
      rw [List.map_append, List.map_singleton]
      refine List.nodup_append.mpr ⟨m.nodup, List.nodup_singleton _, fun a ha b hb heq => ?_⟩
      rw [heq, List.mem_singleton.mp hb] at ha
      exact hnew ha

/-- The entries that satisfy a condition stay. -/
def filter (m : OrderedMap Key Value) (p : Key × Value → Bool) : OrderedMap Key Value where
  entries := m.entries.filter p
  nodup := m.nodup.sublist (List.filter_sublist.map Prod.fst)

/-- A key goes. -/
def delete (m : OrderedMap Key Value) (key : Key) : OrderedMap Key Value :=
  m.filter fun entry => entry.1 ≠ key

/-- The keys that came first go. -/
def drop (m : OrderedMap Key Value) (n : ℕ) : OrderedMap Key Value where
  entries := m.entries.drop n
  nodup := m.nodup.sublist ((List.drop_sublist n m.entries).map Prod.fst)

/-- A key has the value it is listed with. -/
theorem get?_eq_some : m.get? key = some value ↔ (key, value) ∈ m.entries := by
  unfold get?
  constructor
  · intro h
    obtain ⟨⟨key', value'⟩, hfind, rfl⟩ := Option.map_eq_some_iff.mp h
    obtain rfl : key' = key := by simpa using List.find?_some hfind
    exact List.mem_of_find?_eq_some hfind
  · intro hmem
    cases hfind : m.entries.find? fun entry => entry.1 = key with
    | none => exact absurd (List.find?_eq_none.mp hfind _ hmem) (by simp)
    | some entry =>
      have hkey : entry.1 = key := by simpa using List.find?_some hfind
      have hsame : entry = (key, value) :=
        List.inj_on_of_nodup_map m.nodup (List.mem_of_find?_eq_some hfind) hmem hkey
      rw [hsame]
      rfl

@[simp] theorem get?_empty : (empty : OrderedMap Key Value).get? key = none := rfl

/-- What is left of a map has the values it had. -/
theorem get?_of_sublist {m' : OrderedMap Key Value} (hsub : m'.entries.Sublist m.entries)
    (h : m'.get? key = some value) : m.get? key = some value :=
  get?_eq_some.mpr (hsub.subset (get?_eq_some.mp h))

/-- A key that was written has the value written to it; the others have theirs. -/
theorem get?_set :
    (m.set key value).get? key' = if key' = key then some value else m.get? key' := by
  have hmem (value' : Value) : (key', value') ∈ (m.set key value).entries ↔
      (key' = key ∧ value' = value) ∨ (key' ≠ key ∧ (key', value') ∈ m.entries) := by
    simp only [set]
    split
    · next hthere =>
      obtain ⟨entry, hentry, hkey⟩ := List.mem_map.mp hthere
      constructor
      · intro h
        obtain ⟨⟨k, v⟩, hold, heq⟩ := List.mem_map.mp h
        by_cases hk : k = key
        · rw [if_pos hk] at heq
          cases heq
          exact Or.inl ⟨rfl, rfl⟩
        · rw [if_neg hk] at heq
          cases heq
          exact Or.inr ⟨hk, hold⟩
      · rintro (⟨rfl, rfl⟩ | ⟨hne, hold⟩)
        · exact List.mem_map.mpr ⟨entry, hentry, if_pos hkey⟩
        · exact List.mem_map.mpr ⟨(key', value'), hold, if_neg hne⟩
    · next hnew =>
      simp only [List.mem_append, List.mem_singleton, Prod.mk.injEq]
      constructor
      · rintro (hold | hlast)
        · exact Or.inr ⟨fun heq => hnew (heq ▸ List.mem_map_of_mem hold), hold⟩
        · exact Or.inl hlast
      · rintro (hlast | ⟨_, hold⟩)
        · exact Or.inr hlast
        · exact Or.inl hold
  ext value'
  rw [get?_eq_some, hmem]
  split
  · next heq => simp [heq, eq_comm]
  · next hne => simp [hne, get?_eq_some]

/-- A key that was deleted has no value; the others have theirs. -/
theorem get?_delete : (m.delete key).get? key' = if key' = key then none else m.get? key' := by
  ext value'
  rw [get?_eq_some]
  simp only [delete, filter, List.mem_filter, decide_eq_true_eq]
  split
  · next heq => simp [heq]
  · next hne => simp [hne, get?_eq_some]

/-- What a filter leaves has the values it had. -/
theorem get?_of_filter {p : Key × Value → Bool} (h : (m.filter p).get? key = some value) :
    m.get? key = some value :=
  get?_of_sublist List.filter_sublist h

/-- What is left without the first entries has the values it had. -/
theorem get?_of_drop {n : ℕ} (h : (m.drop n).get? key = some value) : m.get? key = some value :=
  get?_of_sublist (List.drop_sublist n m.entries) h

/-- A key without a value is not listed. -/
theorem get?_eq_none : m.get? key = none ↔ key ∉ m.entries.map Prod.fst := by
  simp only [get?, Option.map_eq_none_iff, List.find?_eq_none, decide_eq_true_eq, List.mem_map,
    not_exists, not_and]

/-- A new key is one more. -/
theorem size_set_of_none (h : m.get? key = none) : (m.set key value).size = m.size + 1 := by
  simp [size, set, if_neg (get?_eq_none.mp h)]

/-- A key that was there is no more than it was. -/
theorem size_set_of_some (h : m.get? key = some value') : (m.set key value).size = m.size := by
  have hthere : key ∈ m.entries.map Prod.fst := by
    by_contra hnew
    rw [get?_eq_none.mpr hnew] at h
    cases h
  simp only [size, set, if_pos hthere, List.length_map]

/-- Without a key there are no more. -/
theorem size_delete_le (m : OrderedMap Key Value) (key : Key) : (m.delete key).size ≤ m.size :=
  List.length_filter_le _ _

/-- A key that was there is one less. -/
theorem size_delete_of_some (h : m.get? key = some value) :
    (m.delete key).size + 1 = m.size := by
  have hone : m.entries.countP (fun entry => entry.1 = key) = 1 := by
    have hcount := List.count_eq_one_of_mem m.nodup
      (List.mem_map.mpr ⟨(key, value), get?_eq_some.mp h, rfl⟩)
    rw [List.count, List.countP_map] at hcount
    rw [← hcount]
    exact List.countP_congr fun entry _ => by simp
  have hsplit := List.length_eq_countP_add_countP (fun entry => decide (entry.1 = key))
    (l := m.entries)
  simp only [size, delete, filter, ← List.countP_eq_length_filter]
  rw [hsplit, hone, Nat.add_comm]
  congr 1
  exact List.countP_congr fun entry _ => by simp

end OrderedMap

end Keyed
