import Mathlib.Data.Finset.Dedup
import Mathlib.Data.Finset.Order
import Mathlib.Data.List.Sort
import Mathlib.Data.Prod.Lex
import Mathlib.Data.Int.Order.Basic

/-!
# Pages of a listing

A listing runs over the matching rows from the highest rank down, and a page of it starts
after a row that is named by its key. The named row need not match: it only says where in
the order of ranks the page starts. A key that names no row starts no page.
-/

namespace Relational

variable {Row Key Rank : Type*} [DecidableEq Key] [LinearOrder Rank]

/-- `WHERE p ORDER BY rank DESC`. -/
def listing (p : Row → Prop) [DecidablePred p] (rank : Row → Rank) (rows : List Row) : List Row :=
  (rows.filter p).insertionSort fun r r' => rank r' ≤ rank r

/-- `findMany` with `take`, and with `cursor` and `skip: 1` where there is a cursor: of what is
listed from the place of the cursor on, the first row is skipped. -/
def findMany (p : Row → Prop) [DecidablePred p] (rank : Row → Rank) (key : Row → Key)
    (cursor : Option Key) (take : ℕ) (rows : List Row) : List Row :=
  match cursor with
  | none => (listing p rank rows).take take
  | some cursor =>
    match rows.find? fun r => key r = cursor with
    | none => []
    | some named =>
      (((listing p rank rows).filter fun r => rank r ≤ rank named).drop 1).take take

/-- A row takes the place of the one with its key, if there is one. -/
def plant (key : Row → Key) (planted : Row) (rows : List Row) : List Row :=
  (rows.filter fun r => key r ≠ key planted) ++ [planted]

variable {p p' : Row → Prop} [DecidablePred p] [DecidablePred p'] {rank : Row → Rank}
  {key : Row → Key} {rows rows' : List Row} {cursor : Option Key} {c : Key} {take : ℕ}
  {named planted : Row}

/-- Matching rows are listed. -/
theorem mem_listing {r : Row} : r ∈ listing p rank rows ↔ r ∈ rows ∧ p r := by
  unfold listing
  rw [List.mem_insertionSort]
  simp

/-- As many as match are listed. -/
theorem length_listing : (listing p rank rows).length = (rows.filter p).length :=
  List.length_insertionSort _ _

/-- The matching rows do not depend on where they are, nor on those that do not match. -/
theorem filter_perm (hrows : rows.Nodup) (hrows' : rows'.Nodup)
    (hsame : ∀ r, (r ∈ rows ∧ p r) ↔ (r ∈ rows' ∧ p' r)) :
    (rows.filter p).Perm (rows'.filter p') := by
  refine (List.perm_ext_iff_of_nodup (hrows.filter _) (hrows'.filter _)).mpr fun r => ?_
  simpa only [List.mem_filter, decide_eq_true_eq] using hsame r

/-- A listing does not depend on where its rows are. -/
theorem listing_congr (hperm : (rows.filter p).Perm (rows'.filter p'))
    (hrank : ∀ r ∈ rows, ∀ r' ∈ rows, rank r = rank r' → r = r') :
    listing p rank rows = listing p' rank rows' := by
  have hlisted : (listing p rank rows).Perm (listing p' rank rows') :=
    (List.perm_insertionSort _ _).trans (hperm.trans (List.perm_insertionSort _ _).symm)
  have hsorted : (listing p rank rows).Pairwise fun r r' => rank r' ≤ rank r :=
    List.pairwise_insertionSort _ _
  have hsorted' : (listing p' rank rows').Pairwise fun r r' => rank r' ≤ rank r :=
    List.pairwise_insertionSort _ _
  refine List.Perm.eq_of_pairwise ?_ hsorted hsorted' hlisted
  intro r r' hr hr' hle hle'
  exact hrank r (mem_listing.mp hr).1 r' (mem_listing.mp (hlisted.mem_iff.mpr hr')).1
    (le_antisymm hle' hle)

/-- **Congruence.** A page does not depend on the rows that do not match, apart from the one
its cursor names. -/
theorem findMany_congr (hperm : (rows.filter p).Perm (rows'.filter p'))
    (hrank : ∀ r ∈ rows, ∀ r' ∈ rows, rank r = rank r' → r = r')
    (hcursor : ∀ c ∈ cursor, (rows.find? fun r => key r = c) = rows'.find? fun r => key r = c) :
    findMany p rank key cursor take rows = findMany p' rank key cursor take rows' := by
  unfold findMany
  rw [listing_congr hperm hrank]
  cases cursor with
  | none => rfl
  | some c =>
    dsimp only
    rw [hcursor c rfl]

/-- Where nothing matches there is no page. -/
theorem findMany_of_none (hnone : ∀ r ∈ rows, ¬ p r) :
    findMany p rank key cursor take rows = [] := by
  have hlisting : listing p rank rows = [] :=
    List.eq_nil_iff_forall_not_mem.mpr fun r hr =>
      hnone r (mem_listing.mp hr).1 (mem_listing.mp hr).2
  unfold findMany
  rw [hlisting]
  split
  · exact List.take_nil
  · split
    · rfl
    · rw [List.filter_nil, List.drop_nil, List.take_nil]

/-- After a cursor at most one row is not enough for a page. -/
theorem findMany_of_few (hfew : (rows.filter p).length ≤ 1) :
    findMany p rank key (some c) take rows = [] := by
  unfold findMany
  dsimp only
  split
  · rfl
  · next named _ =>
    have hlength : ((listing p rank rows).filter fun r => rank r ≤ rank named).length ≤ 1 := by
      have hlisted : (listing p rank rows).length = (rows.filter p).length := length_listing
      exact Nat.le_trans (List.length_filter_le _ _) (hlisted.trans_le hfew)
    rw [List.drop_eq_nil_of_le hlength, List.take_nil]

/-- A cursor below everything that is listed starts an empty page. -/
theorem findMany_of_below (hnamed : (rows.find? fun r => key r = c) = some named)
    (hbelow : ∀ r ∈ rows, p r → rank named < rank r) :
    findMany p rank key (some c) take rows = [] := by
  have hnone : (listing p rank rows).filter (fun r => rank r ≤ rank named) = [] := by
    refine List.filter_eq_nil_iff.mpr fun r hr => ?_
    obtain ⟨hmem, hp⟩ := mem_listing.mp hr
    simpa using hbelow r hmem hp
  simp only [findMany, hnamed, hnone, List.drop_nil, List.take_nil]

/-- A cursor above everything that is listed starts a page with the second row. -/
theorem findMany_of_above (hnamed : (rows.find? fun r => key r = c) = some named)
    (habove : ∀ r ∈ rows, p r → rank r ≤ rank named) :
    findMany p rank key (some c) take rows = ((listing p rank rows).drop 1).take take := by
  have hall : (listing p rank rows).filter (fun r => rank r ≤ rank named) =
      listing p rank rows := by
    refine List.filter_eq_self.mpr fun r hr => ?_
    obtain ⟨hmem, hp⟩ := mem_listing.mp hr
    simpa using habove r hmem hp
  simp only [findMany, hnamed, hall]

/-- A planted row is found by its key. -/
theorem find?_plant :
    ((plant key planted rows).find? fun r => key r = key planted) = some planted := by
  unfold plant
  rw [List.find?_append, List.find?_eq_none.mpr]
  · simp
  · intro r hr
    simpa using (List.mem_filter.mp hr).2

/-- Other rows are where they were. -/
theorem mem_plant {r : Row} (hkey : r ∈ rows → key r ≠ key planted) (hne : r ≠ planted) :
    r ∈ plant key planted rows ↔ r ∈ rows := by
  simp only [plant, List.mem_append, List.mem_filter, decide_eq_true_eq, List.mem_singleton, hne,
    or_false]
  exact ⟨fun h => h.1, fun h => ⟨h, hkey h⟩⟩

/-- A row is found by its key. -/
theorem find?_key {r : Row} (hkeys : (rows.map key).Nodup) (hr : r ∈ rows) :
    (rows.find? fun r' => key r' = key r) = some r := by
  cases hfind : rows.find? fun r' => key r' = key r with
  | none =>
    have hnone := List.find?_eq_none.mp hfind r hr
    simp at hnone
  | some r' =>
    have hkey : key r' = key r := by simpa using List.find?_some hfind
    rw [List.inj_on_of_nodup_map hkeys (List.mem_of_find?_eq_some hfind) hr hkey]

section Walking

/-- The rows a listing is about, each of them once, in the order of the listing. -/
structure InOrder (p : Row → Prop) (rank : Row → Rank) (table rows : List Row) : Prop where
  ordered : rows.Pairwise fun r r' => rank r' < rank r
  mem_iff : ∀ r, r ∈ rows ↔ r ∈ table ∧ p r

/-- Rows stay, and those that come in and are listed rank above all that were listed. -/
structure NewestInserted (p : Row → Prop) (rank : Row → Rank) (rows rows' : List Row) : Prop where
  kept : ∀ r ∈ rows, r ∈ rows'
  newer : ∀ r' ∈ rows', r' ∉ rows → p r' → ∀ r ∈ rows, p r → rank r < rank r'

omit [DecidableEq Key] in
/-- Of rows that differ in rank, each listed row comes above the later ones. -/
theorem inOrder_listing (hkeys : (rows.map key).Nodup)
    (hrank : ∀ r r', rank r = rank r' → key r = key r') :
    InOrder p rank rows (listing p rank rows) := by
  refine ⟨?_, fun r => mem_listing⟩
  have hsorted : (listing p rank rows).Pairwise fun r r' => rank r' ≤ rank r :=
    List.pairwise_insertionSort _ _
  have hnodup : (listing p rank rows).Nodup :=
    (List.perm_insertionSort _ _).nodup_iff.mpr (hkeys.of_map.filter _)
  refine (hsorted.and hnodup).imp_of_mem fun hr hr' hboth => ?_
  refine lt_of_le_of_ne hboth.1 fun hsame => hboth.2 ?_
  exact List.inj_on_of_nodup_map hkeys (mem_listing.mp hr).1 (mem_listing.mp hr').1
    (hrank _ _ hsame.symm)

omit [DecidableEq Key] [DecidablePred p] in
/-- There is one order. -/
theorem InOrder.unique {table rows rows' : List Row} (h : InOrder p rank table rows)
    (h' : InOrder p rank table rows') : rows = rows' := by
  have hnodup : ∀ {rows : List Row}, InOrder p rank table rows → rows.Nodup := fun h =>
    h.ordered.imp fun hlt => fun heq => lt_irrefl _ (heq ▸ hlt)
  refine List.Perm.eq_of_pairwise ?_ h.ordered h'.ordered
    ((List.perm_ext_iff_of_nodup (hnodup h) (hnodup h')).mpr fun r => ?_)
  · intro r r' _ _ hlt hlt'
    exact absurd hlt (lt_asymm hlt')
  · rw [h.mem_iff, h'.mem_iff]

omit [DecidableEq Key] in
/-- Rows that come in at the newest end are listed before the others. -/
theorem NewestInserted.listing (hgrown : NewestInserted p rank rows rows')
    (hkeys : (rows.map key).Nodup) (hkeys' : (rows'.map key).Nodup)
    (hrank : ∀ r r', rank r = rank r' → key r = key r') :
    ∃ new, (∀ r ∈ new, r ∈ rows') ∧ listing p rank rows' = new ++ listing p rank rows := by
  classical
  have hold := inOrder_listing (p := p) hkeys hrank
  have hnew := inOrder_listing (p := p) hkeys' hrank
  refine ⟨(Relational.listing p rank rows').filter (· ∉ rows), ?_, ?_⟩
  · intro r hr
    exact (mem_listing.mp (List.mem_filter.mp hr).1).1
  · apply hnew.unique
    constructor
    · refine List.pairwise_append.mpr ⟨hnew.ordered.filter _, hold.ordered, ?_⟩
      intro r' hr' r hr
      obtain ⟨hlisted, hcame⟩ := List.mem_filter.mp hr'
      obtain ⟨hmem', hp'⟩ := mem_listing.mp hlisted
      obtain ⟨hmem, hp⟩ := mem_listing.mp hr
      exact hgrown.newer r' hmem' (by simpa using hcame) hp' r hmem hp
    · intro r
      simp only [List.mem_append, List.mem_filter, mem_listing, decide_eq_true_eq]
      constructor
      · rintro (⟨hlisted, -⟩ | ⟨hmem, hp⟩)
        · exact hlisted
        · exact ⟨hgrown.kept r hmem, hp⟩
      · rintro ⟨hmem, hp⟩
        by_cases hthere : r ∈ rows
        · exact Or.inr ⟨hthere, hp⟩
        · exact Or.inl ⟨⟨hmem, hp⟩, hthere⟩

/-- Rows stay where nothing comes in. -/
theorem NewestInserted.refl (p : Row → Prop) (rank : Row → Rank) (rows : List Row) :
    NewestInserted p rank rows rows :=
  ⟨fun _ hr => hr, fun _ hr hnew => absurd hr hnew⟩

omit [DecidablePred p] in
/-- What comes in later ranks above what came in before. -/
theorem NewestInserted.trans {rows'' : List Row} (h : NewestInserted p rank rows rows')
    (h' : NewestInserted p rank rows' rows'') : NewestInserted p rank rows rows'' := by
  constructor
  · intro r hr
    exact h'.kept r (h.kept r hr)
  · intro r'' hr'' hcame hp'' r hr hp
    by_cases hthere : r'' ∈ rows'
    · exact h.newer r'' hthere hcame hp'' r hr hp
    · exact h'.newer r'' hr'' hthere hp'' r (h.kept r hr) hp

omit [DecidablePred p] in
/-- A table that grows at the newest end from one instant to the next has grown so since the
first. -/
theorem newestInserted_of_step {tables : ℕ → List Row}
    (hstep : ∀ k, NewestInserted p rank (tables k) (tables (k + 1))) (k : ℕ) :
    NewestInserted p rank (tables 0) (tables k) := by
  induction k with
  | zero => exact NewestInserted.refl p rank (tables 0)
  | succ k ih => exact ih.trans (hstep k)

/-- **The page after a row** of an earlier listing goes on where that listing does. -/
theorem findMany_after {above below : List Row} (hgrown : NewestInserted p rank rows rows')
    (hkeys : (rows.map key).Nodup) (hkeys' : (rows'.map key).Nodup)
    (hrank : ∀ r r', rank r = rank r' → key r = key r')
    (hlisted : listing p rank rows = above ++ named :: below) :
    findMany p rank key (some (key named)) take rows' = below.take take := by
  obtain ⟨new, -, hlisting⟩ := hgrown.listing hkeys hkeys' hrank
  have hmem : named ∈ rows' := by
    have hthere : named ∈ listing p rank rows := by simp [hlisted]
    exact hgrown.kept named (mem_listing.mp hthere).1
  have hordered := (inOrder_listing (p := p) hkeys' hrank).ordered
  rw [hlisting, hlisted, ← List.append_assoc] at hordered
  obtain ⟨-, hrest, hbefore⟩ := List.pairwise_append.mp hordered
  have habove : (new ++ above).filter (fun r => rank r ≤ rank named) = [] := by
    refine List.filter_eq_nil_iff.mpr fun r hr => ?_
    simpa using hbefore r hr named List.mem_cons_self
  have hbelow : (named :: below).filter (fun r => rank r ≤ rank named) = named :: below := by
    refine List.filter_eq_self.mpr fun r hr => ?_
    rcases List.mem_cons.mp hr with rfl | hr
    · simp
    · simpa using le_of_lt ((List.pairwise_cons.mp hrest).1 r hr)
  simp only [findMany, find?_key hkeys' hmem]
  rw [hlisting, hlisted, ← List.append_assoc, List.filter_append, habove, hbelow]
  rfl

end Walking

section Isolation

variable {World α : Type*} {View : World → Prop} {tableOf : World → List Row} {w : World}
  {seen : Row → Prop} {time : Row → ℤ} {number : Row → ℕ} {start : Option ℕ} {reply : List Row → α}

/-- **Isolation.** Where the rows that a viewer does not see may be others, pages tell of
them unless their cursor names a row that the viewer sees, or too few rows are listed for a
cursor to leave any. -/
theorem findMany_isolated_iff
    (hkeys : ∀ w', View w' → ((tableOf w').map number).Nodup)
    (hview : ∀ w', View w' → ∀ r, seen r → (r ∈ tableOf w' ↔ r ∈ tableOf w))
    (hseen : ∀ r, p r → seen r)
    (hplant : ∀ n t, (∀ r ∈ tableOf w, number r = n → ¬ seen r) →
      ∃ w' r, View w' ∧ number r = n ∧ time r = t ∧ ¬ seen r ∧
        tableOf w' = plant number r (tableOf w))
    (hself : View w) (htake : 1 ≤ take) (hreply : ∀ rows, reply rows = reply [] → rows = []) :
    (∀ w', View w' →
        reply (findMany p (fun r => toLex (time r, number r)) number start take (tableOf w')) =
          reply (findMany p (fun r => toLex (time r, number r)) number start take (tableOf w))) ↔
      (∀ n ∈ start, ∃ r ∈ tableOf w, number r = n ∧ seen r) ∨
        ((tableOf w).filter p).length ≤ 1 := by
  constructor
  · intro hisolated
    by_contra hcondition
    simp only [not_or, not_forall, not_exists, not_and, Nat.not_le] at hcondition
    obtain ⟨⟨n, hstart, hunseen⟩, hmany⟩ := hcondition
    obtain rfl : start = some n := hstart
    obtain ⟨low, hlow⟩ := ((tableOf w).map fun r => -time r).toFinset.exists_le
    obtain ⟨high, hhigh⟩ := ((tableOf w).map time).toFinset.exists_le
    simp only [List.mem_toFinset, List.mem_map, forall_exists_index, and_imp,
      forall_apply_eq_imp_iff₂] at hlow hhigh
    -- whatever else is in the table, the planted row decides where the page starts
    have hothers : ∀ planted, number planted = n → ¬ seen planted → ∀ r, p r →
        (r ∈ plant number planted (tableOf w) ↔ r ∈ tableOf w) := by
      intro planted hnumber hplanted r hp
      refine mem_plant (fun hr hsame => ?_) ?_
      · exact hunseen r hr (hsame.trans hnumber) (hseen r hp)
      · rintro rfl
        exact hplanted (hseen r hp)
    obtain ⟨below, r, hbelow, rfl, htime, hr, htable⟩ := hplant n (-low - 1) hunseen
    obtain ⟨above, r', habove, hnumber, htime', hr', htable'⟩ :=
      hplant (number r) (high + 1) hunseen
    have hempty := hisolated below hbelow
    have hpage := hisolated above habove
    rw [htable, findMany_of_below find?_plant] at hempty
    · rw [← hempty, htable', ← hnumber, findMany_of_above find?_plant] at hpage
      · have hnil := hreply _ hpage
        have hlength := congrArg List.length hnil
        have hperm : ((plant number r' (tableOf w)).filter p).Perm ((tableOf w).filter p) := by
          have hnodup := (hkeys above habove).of_map
          rw [htable'] at hnodup
          refine filter_perm hnodup (hkeys w hself).of_map fun q => ?_
          exact and_congr_left fun hp => hothers r' hnumber hr' q hp
        rw [List.length_take, List.length_drop, length_listing, hperm.length_eq,
          List.length_nil] at hlength
        omega
      · intro q hq hp
        have hbefore := hhigh q ((hothers r' hnumber hr' q hp).mp hq)
        exact le_of_lt (Prod.Lex.toLex_lt_toLex.mpr (Or.inl (by omega)))
    · intro q hq hp
      have hafter := hlow q ((hothers r rfl hr q hp).mp hq)
      exact Prod.Lex.toLex_lt_toLex.mpr (Or.inl (by omega))
  · intro hcondition w' hw'
    have hperm : ((tableOf w').filter p).Perm ((tableOf w).filter p) := by
      refine filter_perm (hkeys w' hw').of_map (hkeys w hself).of_map fun q => ?_
      exact and_congr_left fun hp => hview w' hw' q (hseen q hp)
    have hplace : ∀ q ∈ tableOf w', ∀ q' ∈ tableOf w',
        toLex (time q, number q) = toLex (time q', number q') → q = q' := by
      intro q hq q' hq' hsame
      exact List.inj_on_of_nodup_map (hkeys w' hw') hq hq' (Prod.mk.inj hsame).2
    rcases hcondition with hnamed | hfew
    · refine congrArg reply (findMany_congr hperm hplace fun n hstart => ?_)
      obtain ⟨r, hr, rfl, hrseen⟩ := hnamed n hstart
      rw [find?_key (hkeys w hself) hr,
        find?_key (hkeys w' hw') ((hview w' hw' r hrseen).mpr hr)]
    · cases start with
      | none => exact congrArg reply (findMany_congr hperm hplace fun n hstart => by cases hstart)
      | some n =>
        rw [findMany_of_few hfew, findMany_of_few (hperm.length_eq.trans_le hfew)]

end Isolation

section Keyset

variable {after last : Rank} {place : Row → Rank}

/-- `WHERE after < key ORDER BY key LIMIT take`. -/
def pageAfter (place : Row → Rank) (after : Rank) (take : ℕ) (rows : List Row) : List Row :=
  (listing (fun r => after < place r) (fun r => OrderDual.toDual (place r)) rows).take take

/-- The keys of a table in their order. -/
def placesOf (place : Row → Rank) (rows : List Row) : List Rank :=
  (rows.map place).insertionSort (· ≤ ·)

theorem mem_placesOf : after ∈ placesOf place rows ↔ ∃ r ∈ rows, place r = after := by
  rw [placesOf, List.mem_insertionSort, List.mem_map]

theorem mem_of_mem_pageAfter {r : Row} (hr : r ∈ pageAfter place after take rows) : r ∈ rows :=
  (mem_listing.mp (List.mem_of_mem_take hr)).1

/-- The keys of rows that differ in them come strictly one after the other. -/
theorem pairwise_placesOf (hplaces : (rows.map place).Nodup) :
    (placesOf place rows).Pairwise (· < ·) := by
  have hsorted : (placesOf place rows).Pairwise (· ≤ ·) := List.pairwise_insertionSort _ _
  have hnodup : (placesOf place rows).Nodup :=
    (List.perm_insertionSort _ _).nodup_iff.mpr hplaces
  exact (hsorted.and hnodup).imp fun hboth => lt_of_le_of_ne hboth.1 hboth.2

/-- The keys of a page are the first ones after its start. -/
theorem map_pageAfter (place : Row → Rank) (after : Rank) (take : ℕ) (rows : List Row) :
    (pageAfter place after take rows).map place =
      ((placesOf place rows).filter (after < ·)).take take := by
  rw [pageAfter, List.map_take]
  congr 1
  have hsorted : ((listing (fun r => after < place r) (fun r =>
    OrderDual.toDual (place r)) rows).map
      place).Pairwise (· ≤ ·) := by
    refine List.pairwise_map.mpr ?_
    exact List.pairwise_insertionSort _ _
  have hsorted' : ((placesOf place rows).filter (after < ·)).Pairwise (· ≤ ·) :=
    (List.pairwise_insertionSort _ _).filter _
  have hlisted : ((listing (fun r => after < place r) (fun r =>
    OrderDual.toDual (place r)) rows).map
      place).Perm ((rows.map place).filter (after < ·)) := by
    rw [List.filter_map]
    exact (List.perm_insertionSort _ _).map _
  exact List.Perm.eq_of_pairwise (fun _ _ _ _ hle hle' => le_antisymm hle hle') hsorted hsorted'
    (hlisted.trans ((List.perm_insertionSort _ _).filter _).symm)

/-- After the last of the first keys come those that are left. -/
theorem filter_after_last {places : List Rank} (hsorted : places.Pairwise (· < ·))
    (hlast : last ∈ (places.take take).getLast?) : places.filter (last < ·) = places.drop take := by
  have hsplit := List.take_append_drop take places
  obtain ⟨before, hbefore⟩ := List.getLast?_eq_some_iff.mp hlast
  rw [← hsplit] at hsorted
  obtain ⟨htaken, -, hbetween⟩ := List.pairwise_append.mp hsorted
  conv_lhs => rw [← hsplit]
  rw [List.filter_append, List.filter_eq_nil_iff.mpr, List.filter_eq_self.mpr, List.nil_append]
  · intro r hr
    rw [hbefore] at hbetween
    exact decide_eq_true (hbetween last (by simp) r hr)
  · intro r hr
    rw [hbefore] at hr htaken
    rcases List.mem_append.mp hr with hr | hr
    · have hlt := (List.pairwise_append.mp htaken).2.2 r hr last (by simp)
      simpa using le_of_lt hlt
    · simpa using le_of_eq (List.mem_singleton.mp hr)

end Keyset

end Relational
