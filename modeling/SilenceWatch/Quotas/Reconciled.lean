import SilenceWatch.Monitoring.Enforcement

/-!
# What a quota pass leaves

The purpose of a pass, stated on the list of the checks of one account: the newest checks
above the limit get the mark of quota, or the oldest marked ones lose it. A pass does this
to every account, and a second one finds nothing to do.
-/

namespace SilenceWatch

open Relational Transition

/-- How many checks of a list carry no mark of quota. -/
def unmarked (own : List Check) : ℕ := own.countP fun c => c.pausedReason ≠ some .quota

/-- How many checks a plan has no room for. -/
def excess (limit : Option ℕ) (own : List Check) : ℕ :=
  limit.elim 0 fun limit => unmarked own - limit

/-- How many marked checks a plan has room for. -/
def room (limit : Option ℕ) (own : List Check) : ℕ :=
  limit.elim maxSafeInteger.toNat fun limit => limit - unmarked own

/-- The checks of an account that get the mark, the newest of those without one. -/
def newlyMarked (limit : Option ℕ) (own : List Check) : List Check :=
  select (fun c => c.pausedReason = none) Check.NewestFirst (excess limit own) own

/-- The checks of an account that lose the mark, the oldest of those with one. -/
def released (limit : Option ℕ) (own : List Check) : List Check :=
  select (fun c => c.pausedReason = some .quota) Check.OldestFirst (room limit own) own

/-- What a pass does to one check of an account. -/
def settleCheck (limit : Option ℕ) (own : List Check) (c : Check) : Check :=
  if c.id ∈ (newlyMarked limit own).map Check.id then c.quotaPause
  else if c.id ∈ (released limit own).map Check.id then c.quotaResume
  else c

/-- What a pass does to the checks of an account. -/
def settle (limit : Option ℕ) (own : List Check) : List Check := own.map (settleCheck limit own)

instance : Std.Total Check.OldestFirst where
  total c c' := by
    rcases lt_trichotomy c.createdAt c'.createdAt with h | h | h
    · exact Or.inl (Or.inl h)
    · rcases Nat.le_total c.id c'.id with hid | hid
      · exact Or.inl (Or.inr ⟨h, hid⟩)
      · exact Or.inr (Or.inr ⟨h.symm, hid⟩)
    · exact Or.inr (Or.inl h)

instance : IsTrans Check Check.OldestFirst where
  trans c d e hcd hde := by
    rcases hcd with h | ⟨h, hid⟩
    · rcases hde with h' | ⟨h', _⟩
      · exact Or.inl (lt_trans h h')
      · exact Or.inl (h' ▸ h)
    · rcases hde with h' | ⟨h', hid'⟩
      · exact Or.inl (h ▸ h')
      · exact Or.inr ⟨h.trans h', Nat.le_trans hid hid'⟩

instance : Std.Total Check.NewestFirst where
  total c c' := Std.Total.total (r := Check.OldestFirst) c' c

instance : IsTrans Check Check.NewestFirst where
  trans _ _ _ hcd hde := IsTrans.trans (r := Check.OldestFirst) _ _ _ hde hcd

section Settle

variable {limit : Option ℕ} {own : List Check} {c c' : Check}

/-- A check carries the mark or no reason at all. -/
theorem pausedReason_cases (c : Check) : c.pausedReason = none ∨ c.pausedReason = some .quota := by
  cases c.pausedReason with
  | none => exact Or.inl rfl
  | some reason =>
    cases reason
    exact Or.inr rfl

theorem unmarked_eq (own : List Check) :
    unmarked own = own.countP fun c => c.pausedReason = none := by
  refine List.countP_congr fun c _ => ?_
  rcases pausedReason_cases c with h | h
  · simp [h]
  · simp [h]

/-- Every check is marked or not. -/
theorem length_eq_unmarked_add (own : List Check) :
    own.length = unmarked own + own.countP fun c => c.pausedReason = some .quota := by
  rw [List.length_eq_countP_add_countP fun c : Check => c.pausedReason ≠ some .quota]
  congr 1
  refine List.countP_congr fun c _ => ?_
  simp

theorem mem_newlyMarked (h : c ∈ newlyMarked limit own) : c ∈ own ∧ c.pausedReason = none :=
  mem_of_mem_select _ _ h

theorem mem_released (h : c ∈ released limit own) : c ∈ own ∧ c.pausedReason = some .quota :=
  mem_of_mem_select _ _ h

/-- An id belongs to one check of a list without repetitions of ids. -/
theorem eq_of_id_mem {selected : List Check} (hids : (own.map Check.id).Nodup)
    (hsub : ∀ d ∈ selected, d ∈ own) (hc : c ∈ own) :
    c.id ∈ selected.map Check.id ↔ c ∈ selected := by
  constructor
  · intro hid
    obtain ⟨d, hd, hsame⟩ := List.mem_map.mp hid
    rwa [← List.inj_on_of_nodup_map hids (hsub d hd) hc hsame]
  · exact fun h => List.mem_map_of_mem h

/-- The checks that a pass marks are the newly marked ones. -/
theorem settleCheck_marked_iff (hids : (own.map Check.id).Nodup) (hc : c ∈ own)
    (hreason : c.pausedReason = none) :
    (settleCheck limit own c).pausedReason = some .quota ↔ c ∈ newlyMarked limit own := by
  have hmarked : c.id ∈ (newlyMarked limit own).map Check.id ↔ c ∈ newlyMarked limit own :=
    eq_of_id_mem hids (fun _ hd => (mem_newlyMarked hd).1) hc
  rw [← hmarked]
  unfold settleCheck
  split
  · next hmem => exact ⟨fun _ => hmem, fun _ => rfl⟩
  · next hnot =>
    refine ⟨fun h => ?_, fun h => absurd h hnot⟩
    split at h
    · cases h
    · rw [hreason] at h
      cases h

/-- The checks that a pass releases are the ones it selected for that. -/
theorem settleCheck_released_iff (hids : (own.map Check.id).Nodup) (hc : c ∈ own)
    (hreason : c.pausedReason = some .quota) :
    (settleCheck limit own c).pausedReason = none ↔ c ∈ released limit own := by
  have hmarked : c.id ∈ (newlyMarked limit own).map Check.id ↔ c ∈ newlyMarked limit own :=
    eq_of_id_mem hids (fun _ hd => (mem_newlyMarked hd).1) hc
  have hreleased : c.id ∈ (released limit own).map Check.id ↔ c ∈ released limit own :=
    eq_of_id_mem hids (fun _ hd => (mem_released hd).1) hc
  have hold : c.id ∉ (newlyMarked limit own).map Check.id := by
    rw [hmarked]
    intro h
    rw [(mem_newlyMarked h).2] at hreason
    cases hreason
  rw [← hreleased]
  unfold settleCheck
  rw [if_neg hold]
  split
  · next hmem => exact ⟨fun _ => hmem, fun _ => rfl⟩
  · next hnot =>
    refine ⟨fun h => ?_, fun h => absurd h hnot⟩
    rw [hreason] at h
    cases h

/-- How many checks are without the mark afterwards. -/
theorem unmarked_settle (hids : (own.map Check.id).Nodup) :
    unmarked (settle limit own) =
      unmarked own - excess limit own +
        min (room limit own) (own.countP fun c => c.pausedReason = some .quota) := by
  have hspared := countP_not_selected (fun c : Check => c.pausedReason = none) Check.NewestFirst
    Check.id (excess limit own) hids
  have hheld := countP_not_selected (fun c : Check => c.pausedReason = some .quota)
    Check.OldestFirst Check.id (room limit own) hids
  have hmarks := List.countP_eq_countP_filter_add own
    (fun c => decide (c.pausedReason = some .quota))
    (fun c => decide (c.id ∈ (released limit own).map Check.id))
  have hafter := List.countP_eq_countP_filter_add own
    (fun c => decide ((settleCheck limit own c).pausedReason ≠ some .quota))
    (fun c => decide (c.pausedReason = none))
  rw [List.countP_filter, List.countP_filter] at hmarks hafter
  -- Of those without the mark, all but the newly marked; of those with it, the released.
  have hfirst : own.countP (fun c =>
      decide ((settleCheck limit own c).pausedReason ≠ some .quota) &&
        decide (c.pausedReason = none)) = own.countP fun c => c.pausedReason = none ∧
          c.id ∉ (newlyMarked limit own).map Check.id := by
    refine List.countP_congr fun c hc => ?_
    rw [Bool.and_eq_true, decide_eq_true_iff, decide_eq_true_iff, decide_eq_true_iff, and_comm]
    refine and_congr_right fun hreason => ?_
    rw [ne_eq, settleCheck_marked_iff hids hc hreason,
      eq_of_id_mem hids (fun _ hd => (mem_newlyMarked hd).1) hc]
  have hsecond : own.countP (fun c =>
      decide ((settleCheck limit own c).pausedReason ≠ some .quota) &&
        !decide (c.pausedReason = none)) = own.countP fun c =>
          decide (c.pausedReason = some .quota) &&
            decide (c.id ∈ (released limit own).map Check.id) := by
    refine List.countP_congr fun c hc => ?_
    rw [Bool.and_eq_true, Bool.and_eq_true, Bool.not_eq_true', decide_eq_true_iff,
      decide_eq_false_iff_not, decide_eq_true_iff, decide_eq_true_iff, and_comm]
    rcases pausedReason_cases c with hreason | hreason
    · simp [hreason]
    · have hnone : ¬ (settleCheck limit own c).pausedReason = some .quota ↔
          (settleCheck limit own c).pausedReason = none := by
        rcases pausedReason_cases (settleCheck limit own c) with h | h
        · simp [h]
        · simp [h]
      rw [ne_eq, hnone, settleCheck_released_iff hids hc hreason,
        eq_of_id_mem hids (fun _ hd => (mem_released hd).1) hc]
      simp [hreason]
  have hrest : own.countP (fun c => decide (c.pausedReason = some .quota) &&
      !decide (c.id ∈ (released limit own).map Check.id)) = own.countP fun c =>
        c.pausedReason = some .quota ∧ c.id ∉ (released limit own).map Check.id := by
    refine List.countP_congr fun c _ => ?_
    rw [Bool.and_eq_true, Bool.not_eq_true', decide_eq_true_iff, decide_eq_false_iff_not,
      decide_eq_true_iff]
  have hwhole : unmarked (settle limit own) =
      own.countP fun c => decide ((settleCheck limit own c).pausedReason ≠ some .quota) := by
    unfold unmarked settle
    rw [List.countP_map]
    rfl
  unfold newlyMarked at hfirst
  unfold released at hrest hmarks hsecond
  rw [← unmarked_eq] at hspared
  omega

/-- The list stays as long as it was. -/
theorem length_settle : (settle limit own).length = own.length := List.length_map _

/-- **The count.** As many checks as the plan has room for are without the mark. -/
theorem unmarked_settle_eq (hids : (own.map Check.id).Nodup)
    (hsize : limit = none → own.length ≤ maxSafeInteger.toNat) :
    unmarked (settle limit own) = limit.elim own.length fun limit => min limit own.length := by
  rw [unmarked_settle hids]
  have hlength := length_eq_unmarked_add own
  cases limit with
  | none =>
    have hroom := hsize rfl
    simp only [excess, room, Option.elim_none]
    omega
  | some limit =>
    simp only [excess, room, Option.elim_some]
    omega

/-- **The choice.** Newly marked checks are newer than the others that were without the
mark, and released ones are older than the others that had it. -/
theorem settle_choice (hc : c ∈ newlyMarked limit own) (hc' : c' ∈ own)
    (hreason : c'.pausedReason = none) (hnot : c' ∉ newlyMarked limit own) :
    c.NewestFirst c' :=
  le_of_mem_select _ _ hc hc' hreason hnot

theorem settle_choice' (hc : c ∈ released limit own) (hc' : c' ∈ own)
    (hreason : c'.pausedReason = some .quota) (hnot : c' ∉ released limit own) :
    c.OldestFirst c' :=
  le_of_mem_select _ _ hc hc' hreason hnot

/-- An update of no check. -/
theorem map_updateRow_nil (f : Check → Check) (rows : List Check) :
    rows.map (updateRow (fun c => c.id ∈ ([] : List Uuid)) f) = rows := by
  have hid : updateRow (fun c : Check => c.id ∈ ([] : List Uuid)) f = id := by
    funext c
    exact if_neg List.not_mem_nil
  rw [hid, List.map_id]

/-- With nothing to mark, a pass resumes the oldest marked checks. -/
theorem settle_of_excess (h : excess limit own = 0) :
    settle limit own =
      own.map (updateRow (fun c => c.id ∈ (released limit own).map Check.id)
        Check.quotaResume) := by
  have hnone : newlyMarked limit own = [] := by
    rw [newlyMarked, h]
    rfl
  refine List.map_congr_left fun c _ => ?_
  rw [settleCheck, hnone, List.map_nil, if_neg List.not_mem_nil]
  rfl

/-- With no room, a pass pauses the newest checks without the mark. -/
theorem settle_of_room (h : room limit own = 0) :
    settle limit own =
      own.map (updateRow (fun c => c.id ∈ (newlyMarked limit own).map Check.id)
        Check.quotaPause) := by
  have hnone : released limit own = [] := by
    rw [released, h]
    rfl
  refine List.map_congr_left fun c _ => ?_
  rw [settleCheck, hnone, List.map_nil, if_neg List.not_mem_nil]
  rfl

/-- With nothing to mark and nothing to release, a pass leaves the checks as they are. -/
theorem settle_eq_self (h : excess limit own = 0) (h' : released limit own = []) :
    settle limit own = own := by
  rw [settle_of_excess h, h', List.map_nil, map_updateRow_nil]

end Settle

section Pass

variable {srv : Server} {db : Database} {u : User}

/-- What the code selects to pause and to resume, selected from the checks of the account. -/
theorem Database.doomed_eq (db : Database) (userId : Uuid) (count : ℕ) :
    db.doomed userId count =
      select (fun c => c.pausedReason = none) Check.NewestFirst count (db.ownedChecks userId) :=
  (select_filter _ _ _ _ _).symm

theorem Database.revived_eq (db : Database) (userId : Uuid) (room : ℤ) :
    db.revived userId room =
      select (fun c => c.pausedReason = some .quota) Check.OldestFirst room.toNat
        (db.ownedChecks userId) :=
  (select_filter _ _ _ _ _).symm

theorem ownedChecks_pauseExcess (db : Database) (userId : Uuid) (count : ℕ) :
    (pauseExcess userId count db).1.ownedChecks userId = (db.ownedChecks userId).map
      (updateRow (fun c => c.id ∈ (db.doomed userId count).map Check.id) Check.quotaPause) :=
  db.ownedChecks_of_updateRow (pauseExcess userId count db).1 _ Check.quotaPause (fun _ => rfl)
    rfl rfl userId

theorem ownedChecks_resume (db : Database) (userId : Uuid) (room : ℤ) :
    (resume userId room db).1.ownedChecks userId = (db.ownedChecks userId).map
      (updateRow (fun c => c.id ∈ (db.revived userId room).map Check.id) Check.quotaResume) := by
  by_cases hroom : room ≤ 0
  · have hnone : db.revived userId room = [] := by
      rw [Database.revived, Int.toNat_of_nonpos hroom]
      rfl
    rw [resume, if_pos hroom, hnone, List.map_nil, map_updateRow_nil]
  · refine db.ownedChecks_of_updateRow (resume userId room db).1 _ Check.quotaResume (fun _ => rfl)
      ?_ ?_ userId
    · rw [resume, if_neg hroom]
    · rw [resume, if_neg hroom]
      rfl

/-- **The visit of an account settles its checks**, as it was read at the start of the pass. -/
theorem ownedChecks_ownerWrites {start : Database} (now : ℤ)
    (hsame : db.ownedChecks u.id = start.ownedChecks u.id) :
    (run (perform srv) db
      ((ownerWrites srv.quotas (start.ownerWithChecks u)).map (Event.mk now))).ownedChecks u.id =
        settle (srv.quotas.limitsFor u.plan).checks (db.ownedChecks u.id) := by
  have hactive : (start.ownerWithChecks u).activeChecks = unmarked (db.ownedChecks u.id) := by
    rw [hsame]
    rfl
  have hmarked : (start.ownerWithChecks u).pausedByQuota =
      (db.ownedChecks u.id).countP fun c => c.pausedReason = some .quota := by
    rw [hsame]
    rfl
  have hplan : (start.ownerWithChecks u).plan = u.plan := rfl
  have hresume (room : ℤ) : run (perform srv) db ([Write.resume u.id room].map (Event.mk now)) =
      (resume u.id room db).1 := rfl
  unfold ownerWrites
  rw [hplan, hactive, hmarked]
  cases hlimit : (srv.quotas.limitsFor u.plan).checks with
  | none =>
    rw [settle_of_excess rfl]
    refine (ownedChecks_resume db u.id maxSafeInteger).trans ?_
    rw [Database.revived_eq]
    rfl
  | some limit =>
    dsimp only
    split
    · next hexcess =>
      rw [settle_of_room (by simp only [room, Option.elim_some]; omega)]
      exact (ownedChecks_pauseExcess db u.id _).trans (by rw [Database.doomed_eq]; rfl)
    · next hwithin =>
      have hnone : excess (some limit) (db.ownedChecks u.id) = 0 := by
        simp only [excess, Option.elim_some]
        omega
      split
      · rw [settle_of_excess hnone]
        refine (ownedChecks_resume db u.id _).trans ?_
        rw [Database.revived_eq, Int.toNat_sub]
        rfl
      · next hzero =>
        refine (settle_eq_self hnone ?_).symm
        rw [← List.length_eq_zero_iff, released, length_select]
        omega

/-- **What a pass leaves of the checks of an account.** -/
theorem ownedChecks_reconcile_eq (henabled : srv.quotas.enabled = true) (hsingle : db.SingleOwner)
    (hu : u ∈ db.users.rows) :
    (reconcile srv.quotas db).1.ownedChecks u.id =
      settle (srv.quotas.limitsFor u.plan).checks (db.ownedChecks u.id) := by
  by_cases hnone : db.ownedChecks u.id = []
  · rw [ownedChecks_reconcile_nil srv hsingle hnone, hnone]
    rfl
  · obtain ⟨middle, _, _, howned, hpass⟩ :=
      ownedChecks_reconcile srv henabled hsingle hu hnone
    rw [hpass, ownedChecks_ownerWrites 0 howned, howned]

/-- A pass writes checks only. -/
theorem users_reconcile (srv : Server) (db : Database) :
    (reconcile srv.quotas db).1.users = db.users := by
  rw [reconcile_eq_run srv 0 db]
  refine run_visits_users srv fun e he => ?_
  obtain ⟨w, hw, rfl⟩ := List.mem_map.mp he
  unfold reconcileWrites at hw
  split at hw
  · obtain ⟨owner, _, hw⟩ := List.mem_flatMap.mp hw
    exact ⟨owner.userId, visits_of_mem_ownerWrites hw⟩
  · cases hw

/-- A resumption that selects no check changes nothing. -/
theorem resume_eq_self {userId : Uuid} {room : ℤ} (h : db.revived userId room = []) :
    resume userId room db = (db, 0) := by
  unfold resume
  split
  · rfl
  · rw [h]
    have hrows : db.checks.update (fun c => c.id ∈ ([] : List Check).map Check.id)
        Check.quotaResume Check.quotaResume_keepsDistinct = db.checks :=
      Table.eq_of_rows_eq (map_updateRow_nil _ _)
    simp only [hrows, List.length_nil]

/-- No account holds more checks than a resumption without a limit takes back. -/
def QuotaConfig.TakesBackAll (quotas : QuotaConfig) (db : Database) : Prop :=
  ∀ u ∈ db.users.rows, (quotas.limitsFor u.plan).checks = none →
    (db.ownedChecks u.id).length ≤ maxSafeInteger.toNat

/-- As many checks of every account as its plan has room for carry no mark. -/
def QuotaConfig.Settled (quotas : QuotaConfig) (db : Database) : Prop :=
  ∀ u ∈ db.users.rows, unmarked (db.ownedChecks u.id) =
    (quotas.limitsFor u.plan).checks.elim (db.ownedChecks u.id).length fun limit =>
      min limit (db.ownedChecks u.id).length

/-- The visit of a settled account changes nothing. -/
theorem reconcileOwner_settled {result : ReconcileResult} (hsettled : srv.quotas.Settled db)
    (hu : u ∈ db.users.rows) :
    reconcileOwner srv.quotas (db.ownerWithChecks u) (db, result) = (db, result) := by
  have hcount := hsettled u hu
  have hlength := length_eq_unmarked_add (db.ownedChecks u.id)
  have hactive : (db.ownerWithChecks u).activeChecks = unmarked (db.ownedChecks u.id) := rfl
  have hmarked : (db.ownerWithChecks u).pausedByQuota =
      (db.ownedChecks u.id).countP fun c => c.pausedReason = some .quota := rfl
  have huser : (db.ownerWithChecks u).userId = u.id := rfl
  have hplan : (db.ownerWithChecks u).plan = u.plan := rfl
  unfold reconcileOwner
  rw [hplan, hactive, hmarked, huser]
  cases hlimit : (srv.quotas.limitsFor u.plan).checks with
  | none =>
    rw [hlimit, Option.elim_none] at hcount
    have hnone : db.revived u.id maxSafeInteger = [] := by
      rw [Database.revived_eq, ← List.length_eq_zero_iff, length_select]
      omega
    simp only [resume_eq_self hnone]
    rfl
  | some limit =>
    rw [hlimit, Option.elim_some] at hcount
    dsimp only
    split
    · next hexcess => omega
    · split
      · next hpaused =>
        have hnone : db.revived u.id (limit - unmarked (db.ownedChecks u.id)) = [] := by
          rw [Database.revived_eq, ← List.length_eq_zero_iff, length_select]
          omega
        simp only [resume_eq_self hnone]
        rfl
      · rfl

/-- **A pass over settled accounts changes nothing.** -/
theorem reconcile_settled (hsettled : srv.quotas.Settled db) :
    reconcile srv.quotas db = (db, ⟨0, 0, 0⟩) := by
  have hfold (users : List User) (husers : ∀ v ∈ users, v ∈ db.users.rows) :
      (users.map db.ownerWithChecks).foldl
        (fun state owner => reconcileOwner srv.quotas owner state) (db, ⟨0, 0, 0⟩) =
          (db, ⟨0, 0, 0⟩) := by
    induction users with
    | nil => rfl
    | cons v users ih =>
      rw [List.map_cons, List.foldl_cons, reconcileOwner_settled hsettled
        (husers v List.mem_cons_self)]
      exact ih fun w hw => husers w (List.mem_cons_of_mem _ hw)
  unfold reconcile
  split
  · rfl
  · exact hfold _ fun v hv => (List.mem_filter.mp hv).1

/-- A pass settles every account. -/
theorem settled_reconcile (henabled : srv.quotas.enabled = true) (hsingle : db.SingleOwner)
    (hsize : srv.quotas.TakesBackAll db) : srv.quotas.Settled (reconcile srv.quotas db).1 := by
  intro u hu
  rw [users_reconcile] at hu
  have hids : ((db.ownedChecks u.id).map Check.id).Nodup :=
    db.check_ids_nodup.sublist (List.filter_sublist.map Check.id)
  rw [ownedChecks_reconcile_eq henabled hsingle hu, length_settle]
  exact unmarked_settle_eq hids (hsize u hu)

/-- The check is there and carries the mark of quota. -/
def Database.MarkedAt (checkId : Uuid) (db : Database) : Prop :=
  ∃ c ∈ db.checks.rows, c.id = checkId ∧ c.pausedReason = some .quota
  deriving Decidable

/-- A check of a database is marked as its row says. -/
theorem Database.markedAt_iff {c : Check} (hc : c ∈ db.checks.rows) :
    db.MarkedAt c.id ↔ c.pausedReason = some .quota := by
  constructor
  · rintro ⟨d, hd, hid, hreason⟩
    rwa [← db.eq_of_check_id hd hc hid]
  · exact fun h => ⟨c, hc, rfl, h⟩

theorem settleCheck_id {limit : Option ℕ} {own : List Check} (c : Check) :
    (settleCheck limit own c).id = c.id := by
  unfold settleCheck
  split
  · rfl
  · split
    · rfl
    · rfl

/-- A pass marks the checks that its settling marks. -/
theorem markedAt_reconcile_iff (henabled : srv.quotas.enabled = true) (hsingle : db.SingleOwner)
    (hu : u ∈ db.users.rows) {c : Check} (hc : c ∈ db.ownedChecks u.id) :
    (reconcile srv.quotas db).1.MarkedAt c.id ↔
      (settleCheck (srv.quotas.limitsFor u.plan).checks (db.ownedChecks u.id) c).pausedReason =
        some .quota := by
  have hafter : settleCheck (srv.quotas.limitsFor u.plan).checks (db.ownedChecks u.id) c ∈
      (reconcile srv.quotas db).1.ownedChecks u.id := by
    rw [ownedChecks_reconcile_eq henabled hsingle hu]
    exact List.mem_map_of_mem hc
  have hrow := List.mem_of_mem_filter hafter
  rw [← Database.markedAt_iff hrow, settleCheck_id]

theorem reconcile_off (hoff : srv.quotas.enabled = false) :
    reconcile srv.quotas db = (db, ⟨0, 0, 0⟩) := by
  simp [reconcile, hoff]

/-- The checks that a pass marks are newer than the ones that it leaves without the mark. -/
theorem newest_marked (hsingle : db.SingleOwner) (hu : u ∈ db.users.rows) {c c' : Check}
    (hc : c ∈ db.ownedChecks u.id) (hc' : c' ∈ db.ownedChecks u.id)
    (hreason : c.pausedReason = none) (hreason' : c'.pausedReason = none)
    (hmarked : (reconcile srv.quotas db).1.MarkedAt c.id)
    (hspared : ¬ (reconcile srv.quotas db).1.MarkedAt c'.id) : c.NewestFirst c' := by
  have hids : ((db.ownedChecks u.id).map Check.id).Nodup :=
    db.check_ids_nodup.sublist (List.filter_sublist.map Check.id)
  cases hquotas : srv.quotas.enabled with
  | true =>
    rw [markedAt_reconcile_iff hquotas hsingle hu hc,
      settleCheck_marked_iff hids hc hreason] at hmarked
    rw [markedAt_reconcile_iff hquotas hsingle hu hc',
      settleCheck_marked_iff hids hc' hreason'] at hspared
    exact settle_choice hmarked hc' hreason' hspared
  | false =>
    rw [reconcile_off hquotas, Database.markedAt_iff (List.mem_of_mem_filter hc), hreason]
      at hmarked
    cases hmarked

/-- The checks that a pass releases are older than the ones that keep the mark. -/
theorem oldest_released (hsingle : db.SingleOwner) (hu : u ∈ db.users.rows) {c c' : Check}
    (hc : c ∈ db.ownedChecks u.id) (hc' : c' ∈ db.ownedChecks u.id)
    (hreason : c.pausedReason = some .quota) (hreason' : c'.pausedReason = some .quota)
    (hreleased : ¬ (reconcile srv.quotas db).1.MarkedAt c.id)
    (hheld : (reconcile srv.quotas db).1.MarkedAt c'.id) : c.OldestFirst c' := by
  have hids : ((db.ownedChecks u.id).map Check.id).Nodup :=
    db.check_ids_nodup.sublist (List.filter_sublist.map Check.id)
  cases hquotas : srv.quotas.enabled with
  | true =>
    rw [markedAt_reconcile_iff hquotas hsingle hu hc] at hreleased
    rw [markedAt_reconcile_iff hquotas hsingle hu hc'] at hheld
    have hfree := (pausedReason_cases _).resolve_right hreleased
    have hnot : c' ∉ released (srv.quotas.limitsFor u.plan).checks (db.ownedChecks u.id) := by
      intro hmem
      rw [(settleCheck_released_iff hids hc' hreason').mpr hmem] at hheld
      cases hheld
    exact settle_choice' ((settleCheck_released_iff hids hc hreason).mp hfree) hc' hreason' hnot
  | false =>
    rw [reconcile_off hquotas, Database.markedAt_iff (List.mem_of_mem_filter hc)] at hreleased
    exact absurd hreason hreleased

/-- **A pass settles every account and is a fixpoint.** With quotas on, as many checks of
an account as its plan has room for are without the mark of quota afterwards, all of them
on a plan without a limit. The checks that got the mark are the newest of those without
it, the ones that lost it are the oldest of those with it, and a second pass changes
nothing. -/
theorem reconcile_settles (srv : Server) (db : Database) (hsingle : db.SingleOwner)
    (hsize : srv.quotas.TakesBackAll db) :
    let db' := (reconcile srv.quotas db).1
    (∀ u ∈ db.users.rows, let own := db.ownedChecks u.id
      (db'.ownedChecks u.id).map Check.id = own.map Check.id ∧
        (srv.quotas.enabled = true → unmarked (db'.ownedChecks u.id) =
          (srv.quotas.limitsFor u.plan).checks.elim own.length fun limit => min limit own.length) ∧
        (∀ c ∈ own, ∀ c' ∈ own, c.pausedReason = none → c'.pausedReason = none →
          db'.MarkedAt c.id → ¬ db'.MarkedAt c'.id → c.NewestFirst c') ∧
        ∀ c ∈ own, ∀ c' ∈ own, c.pausedReason = some .quota → c'.pausedReason = some .quota →
          ¬ db'.MarkedAt c.id → db'.MarkedAt c'.id → c.OldestFirst c') ∧
      reconcile srv.quotas db' = (db', ⟨0, 0, 0⟩) := by
  intro db'
  refine ⟨fun u hu => ?_, ?_⟩
  · have hids : (db'.ownedChecks u.id).map Check.id = (db.ownedChecks u.id).map Check.id := by
      cases hquotas : srv.quotas.enabled with
      | true =>
        rw [ownedChecks_reconcile_eq hquotas hsingle hu, settle, List.map_map]
        exact List.map_congr_left fun c _ => settleCheck_id c
      | false => rw [show db' = db from congrArg Prod.fst (reconcile_off hquotas)]
    refine ⟨hids, fun henabled => ?_, fun c hc c' hc' => newest_marked hsingle hu hc hc',
      fun c hc c' hc' => oldest_released hsingle hu hc hc'⟩
    have hcount := settled_reconcile henabled hsingle hsize u (by rwa [users_reconcile])
    have hlength := congrArg List.length hids
    rw [List.length_map, List.length_map] at hlength
    rwa [hlength] at hcount
  · cases hquotas : srv.quotas.enabled with
    | true => exact reconcile_settled (settled_reconcile hquotas hsingle hsize)
    | false => exact reconcile_off hquotas

/-- A pass over the account that outgrew its plan. -/
theorem reconcile_settles_outgrown :
    let db := run (perform sampleServer) sampleDatabase outgrown
    let db' := (reconcile sampleServer.quotas db).1
    unmarked (db'.ownedChecks 1) = 1 ∧
      reconcile sampleServer.quotas db' = (db', ⟨0, 0, 0⟩) := by
  intro db db'
  have hsize : sampleServer.quotas.TakesBackAll db := by
    unfold QuotaConfig.TakesBackAll
    decide
  have hpass := reconcile_settles sampleServer db (by decide) hsize
  exact ⟨(hpass.1 ⟨1, "owner@example.com", some "free"⟩ (by decide)).2.1 rfl, hpass.2⟩

/-- The server without quotas. -/
def unlimitedServer : Server := { sampleServer with quotas := ⟨false, []⟩ }

/-- A check that quota paused keeps its mark on a server whose quotas were turned off:
its account has no limit, and a pass returns before it reads the accounts. -/
theorem not_reconcile_settles_off :
    ¬ ∀ (srv : Server) (db : Database), db.SingleOwner → srv.quotas.TakesBackAll db →
      srv.quotas.Settled (reconcile srv.quotas db).1 := by
  intro h
  have hpass := h unlimitedServer
    (run (perform sampleServer) sampleDatabase (outgrown ++ [⟨2000, .pauseExcess 1 1⟩]))
    (by decide) (by unfold QuotaConfig.TakesBackAll; decide)
    ⟨1, "owner@example.com", some "free"⟩ (by decide)
  revert hpass
  decide

end Pass

end SilenceWatch
