import Mathlib.Data.List.Nodup
import Mathlib.Data.List.Pairwise

/-!
# Tables with unique indexes

A table is the list of its rows in physical order together with the proof that
no two of them violate a unique index. The indexes are one relation `Distinct`
on rows, so a statement that would break one of them has no resulting table.
A serial table also generates the keys of its rows, none of them twice.
-/

namespace Relational

variable {Row : Type*} {Distinct : Row → Row → Prop}

/-- The rows of a table, pairwise distinct in the sense of its unique indexes. -/
structure Table (Row : Type*) (Distinct : Row → Row → Prop) where
  /-- The rows in physical order, which no query promises to follow. -/
  rows : List Row
  /-- No two rows collide on a unique index. -/
  distinct : rows.Pairwise Distinct

/-- An update that leaves every indexed column alone cannot create a collision,
whether or not the other row of a pair is updated as well. -/
def KeepsDistinct (Distinct : Row → Row → Prop) (f : Row → Row) : Prop :=
  ∀ r r', Distinct r r' → Distinct (f r) r' ∧ Distinct r (f r')

/-- The table without rows. -/
def Table.empty : Table Row Distinct := ⟨[], List.Pairwise.nil⟩

/-- The table with the given rows, unless a unique index refuses them. -/
def Table.ofRows? [DecidableRel Distinct] (rows : List Row) : Option (Table Row Distinct) :=
  if h : rows.Pairwise Distinct then some ⟨rows, h⟩ else none

/-- `INSERT`, failing on a unique violation. -/
def Table.insert? [DecidableRel Distinct] (t : Table Row Distinct) (row : Row) :
    Option (Table Row Distinct) :=
  Table.ofRows? (t.rows ++ [row])

/-- The row an `UPDATE ... SET f WHERE p` leaves in place of `r`. -/
def updateRow (p : Row → Prop) [DecidablePred p] (f : Row → Row) (r : Row) : Row :=
  if p r then f r else r

/-- `UPDATE ... SET f WHERE p` for an assignment that touches no indexed column. -/
def Table.update (t : Table Row Distinct) (p : Row → Prop) [DecidablePred p] (f : Row → Row)
    (hf : KeepsDistinct Distinct f) : Table Row Distinct where
  rows := t.rows.map (updateRow p f)
  distinct := by
    refine List.pairwise_map.mpr (t.distinct.imp fun {r r'} h => ?_)
    unfold updateRow
    by_cases hp : p r
    · by_cases hp' : p r'
      · simpa only [if_pos hp, if_pos hp'] using (hf _ _ (hf r r' h).1).2
      · simpa only [if_pos hp, if_neg hp'] using (hf r r' h).1
    · by_cases hp' : p r'
      · simpa only [if_neg hp, if_pos hp'] using (hf r r' h).2
      · simpa only [if_neg hp, if_neg hp'] using h

/-- `UPDATE ... SET f WHERE p` for an assignment that may touch an indexed
column: it fails as a whole when a unique index refuses the result. -/
def Table.update? [DecidableRel Distinct] (t : Table Row Distinct) (p : Row → Prop)
    [DecidablePred p] (f : Row → Row) : Option (Table Row Distinct) :=
  Table.ofRows? (t.rows.map (updateRow p f))

/-- `DELETE ... WHERE p`. -/
def Table.delete (t : Table Row Distinct) (p : Row → Prop) [DecidablePred p] :
    Table Row Distinct where
  rows := t.rows.filter (fun r => ¬ p r)
  distinct := t.distinct.filter _

/-- A table is determined by its rows. -/
theorem Table.eq_of_rows_eq {t t' : Table Row Distinct} (h : t.rows = t'.rows) : t = t' := by
  cases t
  cases t'
  cases h
  rfl

/-- A successful statement leaves exactly the rows it computed. -/
theorem Table.ofRows?_eq_some [DecidableRel Distinct] {rows : List Row}
    {t : Table Row Distinct} (h : Table.ofRows? rows = some t) : t.rows = rows := by
  unfold Table.ofRows? at h
  split at h
  · cases h
    rfl
  · cases h

/-- A successful insertion appends its row. -/
theorem Table.insert?_eq_some [DecidableRel Distinct] {t t' : Table Row Distinct} {row : Row}
    (h : t.insert? row = some t') : t'.rows = t.rows ++ [row] :=
  Table.ofRows?_eq_some h

/-- An insertion succeeds if no unique index refuses the row. -/
theorem Table.exists_insert? [DecidableRel Distinct] {t : Table Row Distinct} {row : Row}
    (h : ∀ r ∈ t.rows, Distinct r row) : ∃ t', t.insert? row = some t' := by
  have hdistinct : (t.rows ++ [row]).Pairwise Distinct := by
    refine List.pairwise_append.mpr ⟨t.distinct, List.pairwise_singleton _ _, ?_⟩
    intro r hr r' hr'
    rw [List.mem_singleton.mp hr']
    exact h r hr
  exact ⟨_, dif_pos hdistinct⟩

/-- A successful checked update rewrites the rows in place. -/
theorem Table.update?_eq_some [DecidableRel Distinct] {t t' : Table Row Distinct}
    {p : Row → Prop} [DecidablePred p] {f : Row → Row} (h : t.update? p f = some t') :
    t'.rows = t.rows.map (updateRow p f) :=
  Table.ofRows?_eq_some h

@[simp] theorem Table.empty_rows : (Table.empty : Table Row Distinct).rows = [] := rfl

@[simp] theorem Table.update_rows (t : Table Row Distinct) (p : Row → Prop) [DecidablePred p]
    (f : Row → Row) (hf : KeepsDistinct Distinct f) :
    (t.update p f hf).rows = t.rows.map (updateRow p f) := rfl

@[simp] theorem Table.delete_rows (t : Table Row Distinct) (p : Row → Prop) [DecidablePred p] :
    (t.delete p).rows = t.rows.filter (fun r => ¬ p r) := rfl

/-- A row after an `UPDATE` is one the assignment was applied to, or one that the
condition left alone. -/
theorem mem_map_updateRow {p : Row → Prop} [DecidablePred p] {f : Row → Row} {rows : List Row}
    {r' : Row} :
    r' ∈ rows.map (updateRow p f) ↔ ∃ r ∈ rows, (p r ∧ r' = f r) ∨ (¬ p r ∧ r' = r) := by
  rw [List.mem_map]
  refine exists_congr fun r => and_congr_right fun _ => ?_
  unfold updateRow
  by_cases hp : p r
  · simp [hp, eq_comm]
  · simp [hp, eq_comm]

/-- A deleted row is one the predicate spares. -/
theorem Table.mem_delete {t : Table Row Distinct} {p : Row → Prop} [DecidablePred p] {r : Row} :
    r ∈ (t.delete p).rows ↔ r ∈ t.rows ∧ ¬ p r := by
  simp

/-- A row survives a deletion, or it is one of those deleted. -/
theorem Table.mem_delete_or_filter {t : Table Row Distinct} {p : Row → Prop} [DecidablePred p]
    {r : Row} (hr : r ∈ t.rows) : r ∈ (t.delete p).rows ∨ r ∈ t.rows.filter p := by
  by_cases hp : p r
  · exact Or.inr (List.mem_filter.mpr ⟨hr, decide_eq_true hp⟩)
  · exact Or.inl (Table.mem_delete.mpr ⟨hr, hp⟩)

/-- A column that two distinct rows never share has no repetition in the table. -/
theorem Table.nodup_map (t : Table Row Distinct) {Key : Type*} (key : Row → Key)
    (hkey : ∀ a b, Distinct a b → key a ≠ key b) : (t.rows.map key).Nodup :=
  List.pairwise_map.mpr (t.distinct.imp fun {a b} h => hkey a b h)

/-- Two rows of a table that agree on such a column are the same row. -/
theorem Table.eq_of_key_eq (t : Table Row Distinct) {Key : Type*} (key : Row → Key)
    (hkey : ∀ a b, Distinct a b → key a ≠ key b) {r r' : Row} (hr : r ∈ t.rows)
    (hr' : r' ∈ t.rows) (h : key r = key r') : r = r' :=
  List.inj_on_of_nodup_map (t.nodup_map key hkey) hr hr' h

/-- Two rows that no unique index tells apart are the same row. -/
theorem Table.eq_of_not_distinct (t : Table Row Distinct) {r r' : Row} (hr : r ∈ t.rows)
    (hr' : r' ∈ t.rows) (h : ¬ Distinct r r') (h' : ¬ Distinct r' r) : r = r' := by
  by_contra hne
  have hsymm : Std.Symm fun a b => Distinct a b ∨ Distinct b a := ⟨fun _ _ => Or.symm⟩
  have heither : t.rows.Pairwise fun a b => Distinct a b ∨ Distinct b a := t.distinct.imp Or.inl
  exact (heither.forall hr hr' hne).elim h h'

/-- At most one row has a given value in such a column. -/
theorem Table.filter_key_cases (t : Table Row Distinct) {Key : Type*} [DecidableEq Key]
    (key : Row → Key) (hkey : ∀ a b, Distinct a b → key a ≠ key b) (k : Key) :
    (t.rows.filter fun r => key r = k) = [] ∨
      ∃ r ∈ t.rows, key r = k ∧ (t.rows.filter fun r => key r = k) = [r] := by
  have hone : ∀ r ∈ t.rows.filter fun r => key r = k, r ∈ t.rows ∧ key r = k := by
    intro r hr
    exact ⟨(List.mem_filter.mp hr).1, of_decide_eq_true (List.mem_filter.mp hr).2⟩
  have hnodup : ((t.rows.filter fun r => key r = k).map key).Nodup :=
    (List.filter_sublist.map key).nodup (t.nodup_map key hkey)
  generalize (t.rows.filter fun r => key r = k) = found at hone hnodup
  match found with
  | [] => exact Or.inl rfl
  | [r] =>
    obtain ⟨hr, hkeyr⟩ := hone r List.mem_cons_self
    exact Or.inr ⟨r, hr, hkeyr, rfl⟩
  | r :: r' :: rest =>
    have hr := (hone r List.mem_cons_self).2
    have hr' := (hone r' (List.mem_cons_of_mem _ List.mem_cons_self)).2
    simp only [List.map_cons, List.nodup_cons, List.mem_cons, not_or] at hnodup
    exact absurd (hr.trans hr'.symm) hnodup.1.1

/-- A row taken from a list leaves the count of the others. -/
theorem countP_erase_add [DecidableEq Row] {row : Row} {rows : List Row} (p : Row → Bool)
    (h : row ∈ rows) : (rows.erase row).countP p + (if p row then 1 else 0) = rows.countP p := by
  have hperm := List.perm_cons_erase h
  rw [hperm.countP_eq p, List.countP_cons]

/-- An update of rows outside a selection is invisible to it. -/
theorem filter_map_updateRow {p q : Row → Prop} [DecidablePred p] [DecidablePred q]
    {f : Row → Row} {rows : List Row} (hf : ∀ r, q (f r) ↔ q r) (hpq : ∀ r ∈ rows, q r → ¬ p r) :
    (rows.map (updateRow p f)).filter q = rows.filter q := by
  induction rows with
  | nil => rfl
  | cons r rows ih =>
    have hrest := ih fun r' hr' => hpq r' (List.mem_cons_of_mem _ hr')
    rw [List.map_cons]
    by_cases hq : q r
    · have hkept : updateRow p f r = r := if_neg (hpq r List.mem_cons_self hq)
      rw [hkept, List.filter_cons_of_pos (by simpa using hq),
        List.filter_cons_of_pos (by simpa using hq), hrest]
    · have hout : ¬ q (updateRow p f r) := by
        unfold updateRow
        split
        · rwa [hf]
        · exact hq
      rw [List.filter_cons_of_neg (by simpa using hout),
        List.filter_cons_of_neg (by simpa using hq), hrest]

/-- An update that takes its rows out of a selection leaves the others there. -/
theorem filter_map_updateRow_sublist {p q : Row → Prop} [DecidablePred p] [DecidablePred q]
    {f : Row → Row} (hf : ∀ r, p r → ¬ q (f r)) (rows : List Row) :
    ((rows.map (updateRow p f)).filter q).Sublist (rows.filter q) := by
  induction rows with
  | nil => exact List.Sublist.refl _
  | cons r rows ih =>
    rw [List.map_cons]
    by_cases hp : p r
    · have hupdated : updateRow p f r = f r := if_pos hp
      rw [hupdated, List.filter_cons_of_neg (by simpa using hf r hp)]
      exact ih.trans ((List.sublist_cons_self r rows).filter _)
    · have hkept : updateRow p f r = r := if_neg hp
      rw [hkept, List.filter_cons, List.filter_cons]
      split
      · exact ih.cons_cons r
      · exact ih

/-- A query by a column that the assignment spares finds the updated row. -/
theorem find?_map_updateRow {p q : Row → Prop} [DecidablePred p] [DecidablePred q]
    {f : Row → Row} {rows : List Row} (hf : ∀ r, q (f r) ↔ q r) :
    (rows.map (updateRow p f)).find? q = (rows.find? q).map (updateRow p f) := by
  have hsame : ∀ r, q (updateRow p f r) ↔ q r := by
    intro r
    unfold updateRow
    split
    · exact hf r
    · exact Iff.rfl
  rw [List.find?_map]
  congr 2
  funext r
  exact decide_eq_decide.mpr (hsame r)

/-- A checked update of one row succeeds if the new row collides with no other. -/
theorem Table.exists_update? [DecidableRel Distinct] {t : Table Row Distinct} {p : Row → Prop}
    [DecidablePred p] {f : Row → Row} (row : Row) (hself : ¬ Distinct row row)
    (honly : ∀ r ∈ t.rows, p r → r = row)
    (hnew : ∀ r ∈ t.rows, (Distinct r row → Distinct r (f row)) ∧
      (Distinct row r → Distinct (f row) r)) :
    ∃ t', t.update? p f = some t' := by
  have hrows : (t.rows.map (updateRow p f)).Pairwise Distinct := by
    refine List.pairwise_map.mpr (t.distinct.imp_of_mem fun {r r'} hr hr' h => ?_)
    unfold updateRow
    by_cases hp : p r
    · by_cases hp' : p r'
      · rw [honly r hr hp, honly r' hr' hp'] at h
        exact absurd h hself
      · rw [if_pos hp, if_neg hp']
        rw [honly r hr hp] at h ⊢
        exact (hnew r' hr').2 h
    · by_cases hp' : p r'
      · rw [if_neg hp, if_pos hp']
        rw [honly r' hr' hp'] at h ⊢
        exact (hnew r hr).1 h
      · rwa [if_neg hp, if_neg hp']
  exact ⟨_, dif_pos hrows⟩

/-- As many rows at most have a key of a list as the list is long. -/
theorem countP_key_mem_le {Key : Type*} [DecidableEq Key] (key : Row → Key) {rows : List Row}
    (hkeys : (rows.map key).Nodup) (keys : List Key) :
    rows.countP (fun r => key r ∈ keys) ≤ keys.length := by
  rw [List.countP_eq_length_filter, ← List.length_map (f := key)]
  have hnodup : ((rows.filter fun r => key r ∈ keys).map key).Nodup :=
    hkeys.sublist (List.filter_sublist.map key)
  refine List.Nodup.length_le_of_subset hnodup fun k hk => ?_
  obtain ⟨r, hr, rfl⟩ := List.mem_map.mp hk
  simpa using (List.mem_filter.mp hr).2

/-- Items with distinct keys are no more than the rows that have these keys. -/
theorem countP_le_countP_of_key {Item Key : Type*} {itemKey : Item → Key} (key : Row → Key)
    {items : List Item} {rows : List Row} {p : Item → Bool} {q : Row → Bool}
    (hkeys : (items.map itemKey).Nodup)
    (hrow : ∀ item ∈ items, p item → ∃ row ∈ rows, key row = itemKey item ∧ q row) :
    items.countP p ≤ rows.countP q := by
  rw [List.countP_eq_length_filter, List.countP_eq_length_filter,
    ← List.length_map (f := itemKey), ← List.length_map (f := key)]
  have hnodup : ((items.filter p).map itemKey).Nodup :=
    hkeys.sublist (List.filter_sublist.map itemKey)
  refine List.Nodup.length_le_of_subset hnodup fun k hk => ?_
  obtain ⟨item, hitem, rfl⟩ := List.mem_map.mp hk
  obtain ⟨hmem, hp⟩ := List.mem_filter.mp hitem
  obtain ⟨row, hmemrow, hsame, hq⟩ := hrow item hmem hp
  exact List.mem_map.mpr ⟨row, List.mem_filter.mpr ⟨hmemrow, hq⟩, hsame⟩

/-- Rows of one kind are no more than rows of two kinds that cover it. -/
theorem countP_le_add {p q r : Row → Bool} {rows : List Row}
    (h : ∀ row ∈ rows, p row → q row ∨ r row) :
    rows.countP p ≤ rows.countP q + rows.countP r := by
  induction rows with
  | nil => simp
  | cons row rows ih =>
    have hrest := ih fun row' hrow' => h row' (List.mem_cons_of_mem _ hrow')
    have hrow := h row List.mem_cons_self
    simp only [List.countP_cons]
    cases hp : p row with
    | false =>
      simp only [Bool.false_eq_true, if_false]
      omega
    | true =>
      rcases hrow hp with hq | hr
      · simp only [hq, if_true]
        omega
      · simp only [hr, if_true]
        omega

/-- A table whose key is generated: every row's key was handed out before `next`. -/
structure SerialTable (Row : Type*) (Distinct : Row → Row → Prop) (key : Row → ℕ)
    extends Table Row Distinct where
  /-- The next key to hand out. -/
  next : ℕ
  /-- Keys are never reused. -/
  fresh : ∀ r ∈ rows, key r < next

namespace SerialTable

variable {key : Row → ℕ}

/-- The serial table without rows. -/
def empty : SerialTable Row Distinct key where
  toTable := Table.empty
  next := 0
  fresh := by simp

/-- `INSERT ... ON CONFLICT DO NOTHING` of one row with a generated key. -/
def insertOrSkip [DecidableRel Distinct] (t : SerialTable Row Distinct key) (row : ℕ → Row)
    (hrow : ∀ n, key (row n) = n) : SerialTable Row Distinct key :=
  if h : ∀ r ∈ t.rows, Distinct r (row t.next) then
    { rows := t.rows ++ [row t.next]
      distinct := List.pairwise_append.mpr ⟨t.distinct, List.pairwise_singleton _ _,
        fun r hr r' hr' => by rw [List.mem_singleton.mp hr']; exact h r hr⟩
      next := t.next + 1
      fresh := by
        intro r hr
        rcases List.mem_append.mp hr with hr | hr
        · exact Nat.lt_succ_of_lt (t.fresh r hr)
        · rw [List.mem_singleton.mp hr, hrow]
          exact Nat.lt_succ_self _ }
  else t

/-- `UPDATE ... SET f WHERE p` for an assignment that touches no indexed column. -/
def update (t : SerialTable Row Distinct key) (p : Row → Prop) [DecidablePred p] (f : Row → Row)
    (hf : KeepsDistinct Distinct f) (hkey : ∀ r, key (f r) = key r) :
    SerialTable Row Distinct key where
  toTable := t.toTable.update p f hf
  next := t.next
  fresh := by
    intro r hr
    obtain ⟨old, hold, rfl⟩ := List.mem_map.mp hr
    unfold updateRow
    split
    · rw [hkey]
      exact t.fresh old hold
    · exact t.fresh old hold

/-- `DELETE ... WHERE p`. -/
def delete (t : SerialTable Row Distinct key) (p : Row → Prop) [DecidablePred p] :
    SerialTable Row Distinct key where
  toTable := t.toTable.delete p
  next := t.next
  fresh := fun r hr => t.fresh r (Table.mem_delete.mp hr).1

@[simp] theorem empty_rows : (empty : SerialTable Row Distinct key).rows = [] := rfl

@[simp] theorem update_rows (t : SerialTable Row Distinct key) (p : Row → Prop) [DecidablePred p]
    (f : Row → Row) (hf : KeepsDistinct Distinct f) (hkey : ∀ r, key (f r) = key r) :
    (t.update p f hf hkey).rows = t.rows.map (updateRow p f) := rfl

@[simp] theorem delete_rows (t : SerialTable Row Distinct key) (p : Row → Prop) [DecidablePred p] :
    (t.delete p).rows = t.rows.filter (fun r => ¬ p r) := rfl

/-- What an insertion leaves is what was there, and the new row where no
unique index refused it. -/
theorem mem_insertOrSkip [DecidableRel Distinct] {t : SerialTable Row Distinct key}
    {row : ℕ → Row} {hrow : ∀ n, key (row n) = n} {r : Row} :
    r ∈ (t.insertOrSkip row hrow).rows ↔
      r ∈ t.rows ∨ (r = row t.next ∧ ∀ r' ∈ t.rows, Distinct r' (row t.next)) := by
  unfold insertOrSkip
  split
  next h =>
    simp only [List.mem_append, List.mem_singleton]
    exact or_congr_right (iff_self_and.mpr fun _ => h)
  next h =>
    constructor
    · exact Or.inl
    · rintro (hr | ⟨_, hall⟩)
      · exact hr
      · exact absurd hall h

/-- An insertion is skipped, or hands out the next key. -/
theorem insertOrSkip_cases [DecidableRel Distinct] (t : SerialTable Row Distinct key)
    (row : ℕ → Row) (hrow : ∀ n, key (row n) = n) :
    t.insertOrSkip row hrow = t ∨
      ((t.insertOrSkip row hrow).rows = t.rows ++ [row t.next] ∧
        (t.insertOrSkip row hrow).next = t.next + 1) := by
  unfold insertOrSkip
  split
  · exact Or.inr ⟨rfl, rfl⟩
  · exact Or.inl rfl

/-- Keys are handed out in order. -/
theorem next_le_insertOrSkip [DecidableRel Distinct] (t : SerialTable Row Distinct key)
    (row : ℕ → Row) (hrow : ∀ n, key (row n) = n) : t.next ≤ (t.insertOrSkip row hrow).next := by
  unfold insertOrSkip
  split
  · exact Nat.le_succ t.next
  · exact Nat.le_refl _

/-- The key of a row that is still to be generated occurs nowhere. -/
theorem key_ne_next (t : SerialTable Row Distinct key) {r : Row} (hr : r ∈ t.rows) :
    key r ≠ t.next :=
  Nat.ne_of_lt (t.fresh r hr)

end SerialTable

end Relational
