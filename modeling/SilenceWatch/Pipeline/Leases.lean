import SilenceWatch.Pipeline.Drains

/-!
# No alert is sent twice

A claim leases its rows for five minutes, all at once; the instance then sends them one
after another and marks them at the end. Nothing it writes after the claim looks at
the lease or at the status again, so that instances are kept apart by time alone.
-/

namespace SilenceWatch

open Relational Transition

/-- The claimed rows an instance has not sent. -/
def DrainPhase.unsent (phase : DrainPhase) : List Uuid :=
  phase.ids ++ phase.rows.map fun row => row.delivery.id

/-- The rows an instance has sent and not marked yet. -/
def DrainPhase.delivered : DrainPhase → List Uuid
  | .delivering _ _ delivered => delivered
  | .sending _ _ _ _ delivered => delivered
  | .retrying _ _ _ delivered => delivered
  | _ => []

/-- The rows an instance holds. -/
def DrainPhase.holds (phase : DrainPhase) : List Uuid := phase.unsent ++ phase.delivered

section Step

variable {st : Settings} {now : ℤ} {db : Database} {dr : Drain} {action : DrainAction}
  {result : DrainResult}

/-- The context of an id is its row, or nothing. -/
theorem contextOf_cases (db : Database) (id : Uuid) :
    db.contextOf id = [] ∨ ∃ row, db.contextOf id = [row] ∧ row.delivery.id = id := by
  have hdeliveries := db.deliveries.filter_key_cases Delivery.id (fun _ _ h => h.1) id
  rcases hdeliveries with hnone | ⟨d, _, hid, hone⟩
  · left
    simp [Database.contextOf, hnone]
  · have hchannels := db.channels.filter_key_cases Channel.id (fun _ _ h => h) d.channelId
    have hincidents := db.incidents.filter_key_cases Incident.id (fun _ _ h => h.1) d.incidentId
    rcases hchannels with hnone | ⟨ch, _, _, hchannel⟩
    · left
      simp [Database.contextOf, hone, hnone]
    · rcases hincidents with hnone | ⟨i, _, _, hincident⟩
      · left
        simp [Database.contextOf, hone, hchannel, hnone]
      · have hchecks := db.checks.filter_key_cases Check.id (fun _ _ h => h.1) i.checkId
        rcases hchecks with hnone | ⟨c, _, _, hcheck⟩
        · left
          simp [Database.contextOf, hone, hchannel, hincident, hnone]
        · right
          refine ⟨⟨d, ch, i, c⟩, ?_, hid⟩
          simp [Database.contextOf, hone, hchannel, hincident, hcheck]

/-- The rows of some contexts are among the ids they were asked for. -/
theorem contextSql_sublist (ids : List Uuid) (db : Database) :
    ((contextSql ids db).map fun row => row.delivery.id).Sublist ids := by
  induction ids with
  | nil => exact List.Sublist.slnil
  | cons id ids ih =>
    have hcons : contextSql (id :: ids) db = db.contextOf id ++ contextSql ids db := rfl
    rw [hcons]
    rcases contextOf_cases db id with hnone | ⟨row, hone, hid⟩
    · rw [hnone]
      exact ih.cons id
    · rw [hone, List.map_append, ← hid]
      exact ih.cons_cons row.delivery.id

/-- An instance holds what it claims. -/
theorem holds_claimed (ids : List Uuid) :
    DrainPhase.holds (if ids = [] then .idle else .claimed ids) = ids := by
  split
  · next hnone => simp [DrainPhase.holds, DrainPhase.unsent, DrainPhase.ids, DrainPhase.rows,
      DrainPhase.delivered, hnone]
  · simp [DrainPhase.holds, DrainPhase.unsent, DrainPhase.ids, DrainPhase.rows,
      DrainPhase.delivered]

/-- A step claims rows, or it holds no row that it did not hold before. -/
theorem DrainStep.holds (h : DrainStep st now db dr action result) :
    (result.drain.phase.holds.Subperm dr.phase.holds ∧
        result.drain.phase.unsent.Subperm dr.phase.unsent ∧
        result.drain.claimedAt = dr.claimedAt) ∨
      ∃ locked, action = .claim locked ∧ dr.phase = .idle ∧ result.drain.claimedAt = now ∧
        result.drain.phase.holds = (claimSql now st.notificationBatchSize locked db).2 := by
  cases h with
  | @claim t locked => exact Or.inr ⟨locked, rfl, rfl, rfl, holds_claimed _⟩
  | @fetch t ids order hperm =>
    left
    have hsubperm := (contextSql_sublist order db).subperm.trans hperm.subperm
    refine ⟨?_, ?_, rfl⟩
    · simpa [DrainPhase.holds, DrainPhase.unsent, DrainPhase.ids, DrainPhase.rows,
        DrainPhase.delivered] using hsubperm
    · simpa [DrainPhase.unsent, DrainPhase.ids, DrainPhase.rows] using hsubperm
  | succeeded =>
    left
    refine ⟨List.Perm.subperm ?_, (List.sublist_cons_self _ _).subperm, rfl⟩
    simp only [DrainPhase.holds, DrainPhase.unsent, DrainPhase.ids, DrainPhase.rows,
      DrainPhase.delivered, List.nil_append, List.map_cons, List.cons_append]
    rw [← List.append_assoc]
    exact List.perm_append_singleton _ _
  | finish => exact Or.inl ⟨List.nil_subperm, List.nil_subperm, rfl⟩
  | fails => exact Or.inl ⟨List.nil_subperm, List.nil_subperm, rfl⟩
  | count => exact Or.inl ⟨List.Subperm.refl _, List.Subperm.refl _, rfl⟩
  | send => exact Or.inl ⟨List.Subperm.refl _, List.Subperm.refl _, rfl⟩
  | failed => exact Or.inl ⟨List.Subperm.refl _, List.Subperm.refl _, rfl⟩
  | _ =>
    exact Or.inl ⟨(List.sublist_cons_self _ _).subperm, (List.sublist_cons_self _ _).subperm, rfl⟩

/-- What a step of a drain writes to a row: nothing, the lease of its claim, that it is
sent, or how an attempt ended. -/
inductive DrainWrite (dr dr' : Drain) (d d' : Delivery) : Prop
  | kept : d' = d → (d.id ∈ dr'.phase.holds → d.id ∈ dr.phase.holds) → DrainWrite dr dr' d d'
  | leased : d.id ∈ dr'.phase.holds → d'.status = d.status →
      d'.nextAttemptAt = dr'.claimedAt + claimLease → DrainWrite dr dr' d d'
  | marked : d.id ∈ dr.phase.delivered → dr'.phase.holds = [] → d'.status = .sent →
      DrainWrite dr dr' d d'
  | ended : d.id ∈ dr.phase.unsent → (dr.phase.holds.Nodup → d.id ∉ dr'.phase.holds) →
      DrainWrite dr dr' d d'

/-- A step of a drain writes to the rows it holds. -/
theorem DrainStep.writes (h : DrainStep st now db dr action result) {d' : Delivery}
    (hd' : d' ∈ result.db.deliveries.rows) :
    ∃ d ∈ db.deliveries.rows, d'.id = d.id ∧ DrainWrite dr result.drain d d' := by
  have hkept (hmem : d' ∈ db.deliveries.rows) (hclaim : ∀ locked, action ≠ .claim locked) :
      ∃ d ∈ db.deliveries.rows, d'.id = d.id ∧ DrainWrite dr result.drain d d' := by
    refine ⟨d', hmem, rfl, DrainWrite.kept rfl fun hid => ?_⟩
    rcases h.holds with ⟨hsub, _⟩ | ⟨locked, heq, _⟩
    · exact hsub.subset hid
    · exact absurd heq (hclaim locked)
  have hhead {row : ContextRow} {rows : List ContextRow} {delivered : List Uuid} {d : Delivery}
      (hid : d.id = row.delivery.id)
      (hnodup : ((row :: rows).map (fun row => row.delivery.id) ++ delivered).Nodup) :
      d.id ∉ rows.map (fun row => row.delivery.id) ++ delivered := by
    rw [hid]
    exact (List.nodup_cons.mp hnodup).1
  cases h with
  | @claim t locked =>
    obtain ⟨d, hd, ⟨hclaimed, rfl⟩ | ⟨hother, rfl⟩⟩ := mem_map_updateRow.mp hd'
    · refine ⟨d, hd, rfl, DrainWrite.leased ?_ rfl rfl⟩
      exact (holds_claimed _).symm ▸ hclaimed
    · refine ⟨d', hd, rfl, DrainWrite.kept rfl fun hid => absurd ?_ hother⟩
      rwa [holds_claimed] at hid
  | finish =>
    dsimp only at hd'
    split at hd'
    · exact hkept hd' nofun
    · obtain ⟨d, hd, ⟨hdelivered, rfl⟩ | ⟨_, rfl⟩⟩ := mem_map_updateRow.mp hd'
      · exact ⟨d, hd, rfl, DrainWrite.marked hdelivered rfl rfl⟩
      · exact hkept hd nofun
  | refuse _ =>
    obtain ⟨d, hd, ⟨hid, rfl⟩ | ⟨_, rfl⟩⟩ := mem_map_updateRow.mp hd'
    · exact ⟨d, hd, rfl, DrainWrite.ended (hid ▸ List.mem_cons_self) (hhead hid)⟩
    · exact hkept hd nofun
  | retry =>
    obtain ⟨d, hd, ⟨hid, rfl⟩ | ⟨_, rfl⟩⟩ := mem_map_updateRow.mp hd'
    · exact ⟨d, hd, rfl, DrainWrite.ended (hid ▸ List.mem_cons_self) (hhead hid)⟩
    · exact hkept hd nofun
  | _ => exact hkept hd' nofun

/-- What an instance has sent it keeps in mind until it is marked, unless it fails. -/
theorem DrainStep.delivered (h : DrainStep st now db dr action result) {id : Uuid}
    (hid : id ∈ dr.phase.delivered) :
    id ∈ result.drain.phase.delivered ∨ action = .fails ∨
      ∀ d' ∈ result.db.deliveries.rows, d'.id = id → d'.status = .sent := by
  cases h with
  | @finish t sentLastHour delivered =>
    have hsome : delivered ≠ [] := List.ne_nil_of_mem hid
    right; right
    intro d' hd' hsame
    rw [if_neg hsome] at hd'
    obtain ⟨d, hd, ⟨_, rfl⟩ | ⟨hother, rfl⟩⟩ := mem_map_updateRow.mp hd'
    · rfl
    · exact absurd (hsame ▸ hid) hother
  | succeeded => exact Or.inl (List.mem_append_left _ hid)
  | fails => exact Or.inr (Or.inl rfl)
  | claim => cases hid
  | fetch _ => cases hid
  | count => cases hid
  | _ => exact Or.inl hid

/-- What a step sends was the next row of the instance, which keeps it in mind as sent. -/
theorem DrainStep.sent_cases (h : DrainStep st now db dr action result) :
    result.sent = [] ∨ ∃ d, result.sent = [d] ∧ d.id ∈ dr.phase.unsent ∧
      d.id ∈ result.drain.phase.delivered ∧
      (dr.phase.holds.Nodup → d.id ∉ result.drain.phase.unsent) := by
  cases h with
  | succeeded =>
    refine Or.inr ⟨_, rfl, List.mem_cons_self, ?_, fun hnodup hmem => ?_⟩
    · exact List.mem_append_right _ List.mem_cons_self
    · exact (List.nodup_cons.mp hnodup).1 (List.mem_append_left _ hmem)
  | _ => exact Or.inl rfl

end Step

/-- Every alert went out once. -/
def Pipeline.SentOnce (s : Pipeline) : Prop := (s.sent.map Delivery.id).Nodup
  deriving Decidable

/-- The action leaves sent what is sent. -/
def KeepsSent (srv : Server) (st : Settings) (s : Pipeline) (a : Action) : Prop :=
  ∀ d ∈ s.db.deliveries.rows, d.status = .sent →
    ∀ d' ∈ (act srv st s a).db.deliveries.rows, d'.id = d.id → d'.status = .sent
  deriving Decidable

/-- No instance fails between a send and its mark. -/
def Pipeline.MarksSends (s : Pipeline) : Action → Prop
  | .drain instance' .fails => ∀ dr ∈ s.drains[instance']?, dr.phase.delivered = []
  | _ => True

instance (s : Pipeline) (a : Action) : Decidable (s.MarksSends a) := by
  unfold Pipeline.MarksSends
  split <;> infer_instance

/-- A claim takes no row that an instance holds. -/
def Pipeline.ClaimsUnheld (st : Settings) (s : Pipeline) : Action → Prop
  | .drain instance' (.claim locked) => ∀ dr ∈ s.drains[instance']?, dr.Idle →
      ∀ id ∈ (claimSql s.clock st.notificationBatchSize locked s.db).2,
        ∀ other ∈ s.drains, id ∉ other.phase.holds
  | _ => True

instance (st : Settings) (s : Pipeline) (a : Action) : Decidable (s.ClaimsUnheld st a) := by
  unfold Pipeline.ClaimsUnheld
  split <;> infer_instance

/-- What keeps the instances apart: a row is held by one of them only, pending and under
the lease of its claim; and what was sent is marked, or about to be. -/
structure Pipeline.Exclusive (s : Pipeline) : Prop where
  nodup : ∀ dr ∈ s.drains, dr.phase.holds.Nodup
  disjoint : ∀ (i j : ℕ) (dr dr' : Drain), s.drains[i]? = some dr → s.drains[j]? = some dr' →
    ∀ id ∈ dr.phase.holds, id ∈ dr'.phase.holds → i = j
  known : ∀ dr ∈ s.drains, ∀ id ∈ dr.phase.holds, id < s.db.deliveries.next
  leased : ∀ dr ∈ s.drains, ∀ d ∈ s.db.deliveries.rows, d.id ∈ dr.phase.holds →
    d.status = .pending ∧ d.nextAttemptAt = dr.claimedAt + claimLease
  sent : ∀ d ∈ s.sent, d.id < s.db.deliveries.next ∧ (∀ dr ∈ s.drains, d.id ∉ dr.phase.unsent) ∧
    ∀ row ∈ s.db.deliveries.rows, row.id = d.id →
      row.status = .sent ∨ ∃ dr ∈ s.drains, d.id ∈ dr.phase.delivered
  once : s.SentOnce

section Act

variable {srv : Server} {st : Settings} {s : Pipeline} {a : Action}

/-- Where the drains are after a step of one of them. -/
theorem getElem?_set_cases {drains : List Drain} {i j : ℕ} {dr dr' : Drain}
    (h : (drains.set i dr)[j]? = some dr') :
    (j = i ∧ dr' = dr) ∨ (j ≠ i ∧ drains[j]? = some dr') := by
  rw [List.getElem?_set] at h
  split at h
  · next heq =>
    split at h
    · cases h
      exact Or.inl ⟨heq.symm, rfl⟩
    · cases h
  · next hne => exact Or.inr ⟨fun heq => hne heq.symm, h⟩

/-- The instances are kept apart while they rest and no row is written: rows may go, and
rows may come under new ids. -/
theorem Pipeline.Exclusive.of_rows (h : s.Exclusive) {s' : Pipeline}
    (hdrains : s'.drains = s.drains) (hsent : s'.sent = s.sent)
    (hnext : s.db.deliveries.next ≤ s'.db.deliveries.next)
    (hnew : ∀ d ∈ s'.db.deliveries.rows,
      d ∈ s.db.deliveries.rows ∨ s.db.deliveries.next ≤ d.id) : s'.Exclusive := by
  have hrows {id : Uuid} (hid : id < s.db.deliveries.next) {d : Delivery}
      (hd : d ∈ s'.db.deliveries.rows) (hsame : d.id = id) : d ∈ s.db.deliveries.rows := by
    rcases hnew d hd with hold | hfresh
    · exact hold
    · rw [hsame] at hfresh
      exact absurd hid (Nat.not_lt.mpr hfresh)
  constructor
  · rw [hdrains]
    exact h.nodup
  · rw [hdrains]
    exact h.disjoint
  · rw [hdrains]
    exact fun dr hdr id hid => lt_of_lt_of_le (h.known dr hdr id hid) hnext
  · rw [hdrains]
    exact fun dr hdr d hd hid => h.leased dr hdr d (hrows (h.known dr hdr _ hid) hd rfl) hid
  · rw [hdrains, hsent]
    intro d hd
    obtain ⟨hknown, hunsent, hmarked⟩ := h.sent d hd
    refine ⟨lt_of_lt_of_le hknown hnext, hunsent, fun row hrow hid => ?_⟩
    exact hmarked row (hrows hknown hrow hid) hid
  · unfold Pipeline.SentOnce
    rw [hsent]
    exact h.once

/-- An action that is no step of a drain keeps the instances apart. -/
theorem Pipeline.Exclusive.act_of_ne_drain (h : s.Exclusive)
    (hdrain : ∀ instance' action, a ≠ .drain instance' action) : (act srv st s a).Exclusive := by
  obtain ⟨hdrains, hsent⟩ := SilenceWatch.act_of_ne_drain srv st s hdrain
  refine h.of_rows hdrains hsent act_deliveries_next fun d hd => ?_
  rcases act_deliveries_of_ne_drain hdrain hd with hold | ⟨_, hcreates⟩
  · exact Or.inl hold
  · exact Or.inr hcreates.fresh

end Act

section Exclusive

variable {srv : Server} {st : Settings} {s : Pipeline} {a : Action} {i : ℕ} {dr : Drain}
  {action : DrainAction} {result : DrainResult}

/-- A claim of a drain takes no row that an instance holds. -/
def Pipeline.Unheld (st : Settings) (s : Pipeline) (action : DrainAction) : Prop :=
  ∀ locked, action = .claim locked →
    ∀ id ∈ (claimSql s.clock st.notificationBatchSize locked s.db).2,
      ∀ other ∈ s.drains, id ∉ other.phase.holds

/-- Every drain is the one that took the step, or it did not move. -/
theorem mem_set_cases {drains : List Drain} {dr dr' : Drain} (h : dr' ∈ drains.set i dr) :
    dr' = dr ∨ ∃ j, j ≠ i ∧ drains[j]? = some dr' := by
  obtain ⟨j, hj⟩ := List.mem_iff_getElem?.mp h
  rcases getElem?_set_cases hj with ⟨_, rfl⟩ | ⟨hne, hold⟩
  · exact Or.inl rfl
  · exact Or.inr ⟨j, hne, hold⟩

/-- The drain that took the step is one of the drains. -/
theorem mem_set_self {drains : List Drain} {dr dr' : Drain} (h : drains[i]? = some dr) :
    dr' ∈ drains.set i dr' :=
  List.mem_set (List.getElem?_eq_some_iff.mp h).1 dr'

/-- What a drain holds after its step it held before, or it was free and pending. -/
theorem Pipeline.Unheld.holds_cases (hunheld : s.Unheld st action)
    (hstep : DrainStep st s.clock s.db dr action result) {id : Uuid}
    (hid : id ∈ result.drain.phase.holds) :
    (id ∈ dr.phase.holds ∧ result.drain.claimedAt = dr.claimedAt) ∨
      ((∀ other ∈ s.drains, id ∉ other.phase.holds) ∧
        ∃ d ∈ s.db.deliveries.rows, d.id = id ∧ d.status = .pending) := by
  rcases hstep.holds with ⟨hsub, _, hclaimedAt⟩ | ⟨locked, hclaim, _, _, heq⟩
  · exact Or.inl ⟨hsub.subset hid, hclaimedAt⟩
  · rw [heq] at hid
    obtain ⟨d, hd, rfl⟩ := List.mem_map.mp hid
    obtain ⟨hmem, hclaimable, _⟩ := mem_of_mem_select _ _ hd
    exact Or.inr ⟨hunheld locked hclaim _ hid, d, hmem, rfl, hclaimable.1⟩

/-- What a drain holds after its step no other drain holds. -/
theorem Pipeline.Exclusive.not_holds (h : s.Exclusive) (hget : s.drains[i]? = some dr)
    (hstep : DrainStep st s.clock s.db dr action result) (hunheld : s.Unheld st action) {j : ℕ}
    {dr' : Drain} (hj : s.drains[j]? = some dr') (hne : j ≠ i) {id : Uuid}
    (hid : id ∈ result.drain.phase.holds) : id ∉ dr'.phase.holds := by
  intro hid'
  rcases hunheld.holds_cases hstep hid with ⟨hbefore, _⟩ | ⟨hfree, _⟩
  · exact hne (h.disjoint j i dr' dr hj hget id hid' hbefore)
  · exact hfree dr' (List.mem_of_getElem? hj) hid'

/-- The rows held after a step of a drain are pending, and under the lease of their claim. -/
theorem Pipeline.Exclusive.leased_step (h : s.Exclusive) (hget : s.drains[i]? = some dr)
    (hstep : DrainStep st s.clock s.db dr action result) (hunheld : s.Unheld st action)
    {dr' : Drain} (hdr' : dr' ∈ s.drains.set i result.drain) {d' : Delivery}
    (hd' : d' ∈ result.db.deliveries.rows) (hid : d'.id ∈ dr'.phase.holds) :
    d'.status = .pending ∧ d'.nextAttemptAt = dr'.claimedAt + claimLease := by
  have hdr : dr ∈ s.drains := List.mem_of_getElem? hget
  obtain ⟨d, hd, hsame, hwrite⟩ := hstep.writes hd'
  rw [hsame] at hid
  rcases mem_set_cases hdr' with rfl | ⟨j, hne, hj⟩
  · rcases hunheld.holds_cases hstep hid with ⟨hheld, hclaimedAt⟩ |
      ⟨hfree, claimed, hclaimed, hclaimedid, hpending⟩
    · obtain ⟨hpending, hlease⟩ := h.leased dr hdr d hd hheld
      cases hwrite with
      | kept heq _ =>
        rw [heq, hclaimedAt]
        exact ⟨hpending, hlease⟩
      | leased _ hstatus hnext => exact ⟨hstatus.trans hpending, hnext⟩
      | marked _ hnone _ =>
        rw [hnone] at hid
        cases hid
      | ended _ hreleased => exact absurd hid (hreleased (h.nodup dr hdr))
    · have heq : claimed = d := s.db.eq_of_delivery_id hclaimed hd hclaimedid
      subst heq
      cases hwrite with
      | kept _ hheld => exact absurd (hheld hid) (hfree dr hdr)
      | leased _ hstatus hnext => exact ⟨hstatus.trans hpending, hnext⟩
      | marked hdelivered _ _ => exact absurd (List.mem_append_right _ hdelivered) (hfree dr hdr)
      | ended hunsent _ => exact absurd (List.mem_append_left _ hunsent) (hfree dr hdr)
  · obtain ⟨hpending, hlease⟩ := h.leased dr' (List.mem_of_getElem? hj) d hd hid
    cases hwrite with
    | kept heq _ =>
      rw [heq]
      exact ⟨hpending, hlease⟩
    | leased hheld _ _ => exact absurd hid (h.not_holds hget hstep hunheld hj hne hheld)
    | marked hdelivered _ _ =>
      exact absurd (h.disjoint j i dr' dr hj hget _ hid (List.mem_append_right _ hdelivered)) hne
    | ended hunsent _ =>
      exact absurd (h.disjoint j i dr' dr hj hget _ hid (List.mem_append_left _ hunsent)) hne

/-- What was sent stays marked or about to be, through a step that does not forget it. -/
theorem Pipeline.Exclusive.sent_step (h : s.Exclusive) (hget : s.drains[i]? = some dr)
    (hstep : DrainStep st s.clock s.db dr action result) (hunheld : s.Unheld st action)
    (hmarks : action = .fails → dr.phase.delivered = []) {sent : Delivery} (hsent : sent ∈ s.sent) :
    (∀ dr' ∈ s.drains.set i result.drain, sent.id ∉ dr'.phase.unsent) ∧
      ∀ row ∈ result.db.deliveries.rows, row.id = sent.id → row.status = .sent ∨
        ∃ dr' ∈ s.drains.set i result.drain, sent.id ∈ dr'.phase.delivered := by
  have hdr : dr ∈ s.drains := List.mem_of_getElem? hget
  obtain ⟨hknown, hunsent, hmarked⟩ := h.sent sent hsent
  constructor
  · intro dr' hdr' hmem
    rcases mem_set_cases hdr' with rfl | ⟨j, _, hj⟩
    · rcases hstep.holds with ⟨_, hsub, _⟩ | ⟨locked, hclaim, _, _, heq⟩
      · exact hunsent dr hdr (hsub.subset hmem)
      · have hid : sent.id ∈ result.drain.phase.holds := List.mem_append_left _ hmem
        rcases hunheld.holds_cases hstep hid with ⟨hheld, _⟩ | ⟨hfree, d, hd, hdid, hpending⟩
        · have hnew := hunheld locked hclaim sent.id (heq ▸ hid) dr hdr
          exact hnew hheld
        · rcases hmarked d hd hdid with hstatus | ⟨other, hother, hdelivered⟩
          · rw [hpending] at hstatus
            cases hstatus
          · exact hfree other hother (List.mem_append_right _ hdelivered)
    · exact hunsent dr' (List.mem_of_getElem? hj) hmem
  · intro row hrow hid
    have hkeeps (hdelivered : ∃ other ∈ s.drains, sent.id ∈ other.phase.delivered) :
        row.status = .sent ∨
          ∃ dr' ∈ s.drains.set i result.drain, sent.id ∈ dr'.phase.delivered := by
      obtain ⟨other, hother, hmem⟩ := hdelivered
      obtain ⟨j, hj⟩ := List.mem_iff_getElem?.mp hother
      by_cases hsame : j = i
      · subst hsame
        obtain rfl : dr = other := Option.some.inj (hget.symm.trans hj)
        rcases hstep.delivered hmem with hafter | hfails | hall
        · exact Or.inr ⟨result.drain, mem_set_self hget, hafter⟩
        · rw [hmarks hfails] at hmem
          cases hmem
        · exact Or.inl (hall row hrow hid)
      · right
        refine ⟨other, List.mem_iff_getElem?.mpr ⟨j, ?_⟩, hmem⟩
        rw [List.getElem?_set_ne (Ne.symm hsame)]
        exact hj
    obtain ⟨d, hd, hsame, hwrite⟩ := hstep.writes hrow
    have hbefore := hmarked d hd (hsame.symm.trans hid)
    cases hwrite with
    | kept heq _ => exact hbefore.elim (fun hstatus => Or.inl (heq ▸ hstatus)) hkeeps
    | leased _ hstatus _ => exact hbefore.elim (fun h => Or.inl (hstatus.trans h)) hkeeps
    | marked _ _ hstatus => exact Or.inl hstatus
    | ended hmem _ => exact absurd ((hsame.symm.trans hid) ▸ hmem) (hunsent dr hdr)

theorem Pipeline.Exclusive.nodup_step (h : s.Exclusive) (hget : s.drains[i]? = some dr)
    (hstep : DrainStep st s.clock s.db dr action result) {dr' : Drain}
    (hdr' : dr' ∈ s.drains.set i result.drain) : dr'.phase.holds.Nodup := by
  rcases mem_set_cases hdr' with rfl | ⟨j, _, hj⟩
  · rcases hstep.holds with ⟨⟨_, hperm, hsub⟩, _⟩ | ⟨locked, _, _, _, heq⟩
    · exact hperm.nodup_iff.mp (hsub.nodup (h.nodup dr (List.mem_of_getElem? hget)))
    · rw [heq]
      exact nodup_map_select _ _ _ _ (s.db.deliveries.nodup_map Delivery.id fun _ _ h => h.1)
  · exact h.nodup dr' (List.mem_of_getElem? hj)

theorem Pipeline.Exclusive.disjoint_step (h : s.Exclusive) (hget : s.drains[i]? = some dr)
    (hstep : DrainStep st s.clock s.db dr action result) (hunheld : s.Unheld st action) {j k : ℕ}
    {dr₁ dr₂ : Drain} (hj : (s.drains.set i result.drain)[j]? = some dr₁)
    (hk : (s.drains.set i result.drain)[k]? = some dr₂) {id : Uuid}
    (hid₁ : id ∈ dr₁.phase.holds) (hid₂ : id ∈ dr₂.phase.holds) : j = k := by
  rcases getElem?_set_cases hj with ⟨rfl, rfl⟩ | ⟨hne, hold⟩
  · rcases getElem?_set_cases hk with ⟨rfl, _⟩ | ⟨hne, hold⟩
    · rfl
    · exact absurd hid₂ (h.not_holds hget hstep hunheld hold hne hid₁)
  · rcases getElem?_set_cases hk with ⟨rfl, rfl⟩ | ⟨_, hold'⟩
    · exact absurd hid₁ (h.not_holds hget hstep hunheld hold hne hid₂)
    · exact h.disjoint j k dr₁ dr₂ hold hold' id hid₁ hid₂

theorem Pipeline.Exclusive.known_step (h : s.Exclusive) (hget : s.drains[i]? = some dr)
    (hstep : DrainStep st s.clock s.db dr action result) (hunheld : s.Unheld st action)
    {dr' : Drain} (hdr' : dr' ∈ s.drains.set i result.drain) {id : Uuid}
    (hid : id ∈ dr'.phase.holds) : id < s.db.deliveries.next := by
  rcases mem_set_cases hdr' with rfl | ⟨j, _, hj⟩
  · rcases hunheld.holds_cases hstep hid with ⟨hbefore, _⟩ | ⟨_, d, hd, rfl, _⟩
    · exact h.known dr (List.mem_of_getElem? hget) id hbefore
    · exact s.db.deliveries.fresh d hd
  · exact h.known dr' (List.mem_of_getElem? hj) id hid

/-- What a step sends was held by its drain, which has now delivered it and will not
send it again; no other drain held it. -/
theorem Pipeline.Exclusive.newly_sent (h : s.Exclusive) (hget : s.drains[i]? = some dr)
    (hstep : DrainStep st s.clock s.db dr action result) {sent : Delivery}
    (hsent : sent ∈ result.sent) :
    sent.id < s.db.deliveries.next ∧
      (∀ dr' ∈ s.drains.set i result.drain, sent.id ∉ dr'.phase.unsent) ∧
      ∃ dr' ∈ s.drains.set i result.drain, sent.id ∈ dr'.phase.delivered := by
  have hdr : dr ∈ s.drains := List.mem_of_getElem? hget
  rcases hstep.sent_cases with hnone | ⟨d, hone, hbefore, hafter, hgone⟩
  · rw [hnone] at hsent
    cases hsent
  · rw [hone] at hsent
    obtain rfl := List.mem_singleton.mp hsent
    have hheld : sent.id ∈ dr.phase.holds := List.mem_append_left _ hbefore
    refine ⟨h.known dr hdr _ hheld, fun dr' hdr' hmem => ?_,
      result.drain, mem_set_self hget, hafter⟩
    rcases mem_set_cases hdr' with rfl | ⟨j, hne, hj⟩
    · exact hgone (h.nodup dr hdr) hmem
    · have hheld' : sent.id ∈ dr'.phase.holds := List.mem_append_left _ hmem
      exact hne (h.disjoint j i dr' dr hj hget _ hheld' hheld)

theorem Pipeline.Exclusive.once_step (h : s.Exclusive) (hget : s.drains[i]? = some dr)
    (hstep : DrainStep st s.clock s.db dr action result) :
    ((s.sent ++ result.sent).map Delivery.id).Nodup := by
  rw [List.map_append]
  rcases hstep.sent_cases with hnone | ⟨d, hone, hbefore, _, _⟩
  · rw [hnone, List.map_nil, List.append_nil]
    exact h.once
  · rw [hone, List.map_singleton]
    refine List.nodup_append.mpr ⟨h.once, List.nodup_singleton _, fun id hid id' hid' heq => ?_⟩
    obtain ⟨sent, hsent, rfl⟩ := List.mem_map.mp hid
    rw [List.mem_singleton.mp hid'] at heq
    exact (h.sent sent hsent).2.1 dr (List.mem_of_getElem? hget) (heq ▸ hbefore)

/-- **A step of a drain keeps the instances apart**, unless it claims what an instance
holds or forgets what it has sent. -/
theorem Pipeline.Exclusive.step (h : s.Exclusive) (hget : s.drains[i]? = some dr)
    (hstep : DrainStep st s.clock s.db dr action result) (hunheld : s.Unheld st action)
    (hmarks : action = .fails → dr.phase.delivered = []) :
    Pipeline.Exclusive { s with
      db := result.db
      drains := s.drains.set i result.drain
      sent := s.sent ++ result.sent } where
  nodup dr' hdr' := h.nodup_step hget hstep hdr'
  disjoint j k dr₁ dr₂ hj hk id hid₁ hid₂ := h.disjoint_step hget hstep hunheld hj hk hid₁ hid₂
  known dr' hdr' id hid := by
    dsimp only
    rw [hstep.redelivers.2.1]
    exact h.known_step hget hstep hunheld hdr' hid
  leased dr' hdr' d' hd' hid := h.leased_step hget hstep hunheld hdr' hd' hid
  sent sent hsent := by
    dsimp only
    rw [hstep.redelivers.2.1]
    rcases List.mem_append.mp hsent with hold | hnew
    · obtain ⟨hunsent, hmarked⟩ := h.sent_step hget hstep hunheld hmarks hold
      exact ⟨(h.sent sent hold).1, hunsent, hmarked⟩
    · obtain ⟨hknown, hunsent, hdelivered⟩ := h.newly_sent hget hstep hnew
      exact ⟨hknown, hunsent, fun row _ _ => Or.inr hdelivered⟩
  once := h.once_step hget hstep

/-- **An action keeps the instances apart**, unless a claim takes what an instance holds
or an instance forgets what it has sent. -/
theorem Pipeline.Exclusive.act (h : s.Exclusive) (hmarks : s.MarksSends a)
    (hunheld : s.ClaimsUnheld st a) : (act srv st s a).Exclusive := by
  by_cases hdrain : ∃ instance' action, a = .drain instance' action
  · obtain ⟨instance', action, rfl⟩ := hdrain
    have hstep := act_cases srv st s (.drain instance' action)
    generalize SilenceWatch.act srv st s (.drain instance' action) = s' at hstep ⊢
    cases hstep with
    | @drain _ dr _ _ hget hstep =>
      refine h.step hget hstep ?_ ?_
      · rintro locked rfl
        refine hunheld dr hget ?_
        cases hstep with
        | claim => rfl
      · rintro rfl
        exact hmarks dr hget
    | skipDrain => exact h
  · push Not at hdrain
    exact h.act_of_ne_drain hdrain

/-- A row that is sent stays sent while the instances are kept apart. -/
theorem Pipeline.Exclusive.keepsSent (h : s.Exclusive) : KeepsSent srv st s a := by
  intro d hd hstatus d' hd' hid
  have hsame {row : Delivery} (hrow : row ∈ s.db.deliveries.rows) (hrowid : row.id = d.id) :
      row = d :=
    s.db.eq_of_delivery_id hrow hd hrowid
  by_cases hdrain : ∃ instance' action, a = .drain instance' action
  · obtain ⟨instance', action, rfl⟩ := hdrain
    have hstep := act_cases srv st s (.drain instance' action)
    generalize SilenceWatch.act srv st s (.drain instance' action) = s' at hd' hstep
    cases hstep with
    | drain hget hstep =>
      obtain ⟨old, hold, holdid, hwrite⟩ := hstep.writes hd'
      obtain rfl := hsame hold (holdid.symm.trans hid)
      cases hwrite with
      | kept heq _ => exact heq ▸ hstatus
      | leased _ hsame _ => exact hsame.trans hstatus
      | marked _ _ hsent => exact hsent
      | ended hunsent _ =>
        have hpending := (h.leased _ (List.mem_of_getElem? hget) old hold
          (List.mem_append_left _ hunsent)).1
        rw [hstatus] at hpending
        cases hpending
    | skipDrain =>
      rw [hsame hd' hid]
      exact hstatus
  · push Not at hdrain
    rcases act_deliveries_of_ne_drain hdrain hd' with hold | ⟨_, hcreates⟩
    · rw [hsame hold hid]
      exact hstatus
    · have hfresh := s.db.deliveries.fresh d hd
      rw [← hid] at hfresh
      exact absurd hfresh (Nat.not_lt.mpr hcreates.fresh)

end Exclusive

section Pace

/-- The settings the configuration admits. -/
structure Settings.Admitted (st : Settings) : Prop where
  batchSize : 1 ≤ st.notificationBatchSize ∧ st.notificationBatchSize ≤ 1000
  timeoutMs : 500 ≤ st.notificationTimeoutMs ∧ st.notificationTimeoutMs ≤ 60000
  maxAttempts : 1 ≤ st.notificationMaxAttempts ∧ st.notificationMaxAttempts ≤ 20

/-- The drain may let so much time pass: it is idle, or its send has not timed out by
then, or its next statement is due and no time passes. -/
def Drain.Allows (st : Settings) (now : ℤ) (ms : ℕ) (dr : Drain) : Prop :=
  match dr.phase with
  | .idle => True
  | .sending since _ _ _ _ => now + ms ≤ since + st.notificationTimeoutMs
  | _ => ms = 0

instance (st : Settings) (now : ℤ) (ms : ℕ) (dr : Drain) : Decidable (dr.Allows st now ms) := by
  unfold Drain.Allows
  split <;> infer_instance

/-- Time passes only during sends, and no send takes longer than its timeout. -/
def Pipeline.Timely (st : Settings) (s : Pipeline) : Action → Prop
  | .elapse ms => ∀ dr ∈ s.drains, dr.Allows st s.clock ms
  | _ => True

instance (st : Settings) (s : Pipeline) (a : Action) : Decidable (s.Timely st a) := by
  unfold Pipeline.Timely
  split <;> infer_instance

/-- How many sends a drain has still to start. -/
def DrainPhase.remaining : DrainPhase → ℕ
  | .claimed ids => ids.length
  | .counting rows => rows.length
  | .delivering rows _ _ => rows.length
  | .sending _ _ rows _ _ => rows.length
  | .retrying _ rows _ _ => rows.length
  | .idle => 0

/-- When a drain could start its next send: now, or when the send in flight times out. -/
def Drain.freeAt (st : Settings) (now : ℤ) (dr : Drain) : ℤ :=
  match dr.phase with
  | .sending since _ _ _ _ => since + st.notificationTimeoutMs
  | _ => now

/-- A drain that is under way will have started its sends in time. -/
def Drain.Paced (st : Settings) (now : ℤ) (dr : Drain) : Prop :=
  ¬ dr.Idle → now ≤ dr.freeAt st now ∧
    dr.freeAt st now + dr.phase.remaining * st.notificationTimeoutMs ≤
      dr.claimedAt + st.notificationBatchSize * st.notificationTimeoutMs

variable {srv : Server} {st : Settings} {s : Pipeline} {a : Action} {now : ℤ} {db : Database}
  {dr : Drain} {action : DrainAction} {result : DrainResult}

/-- A step of a drain keeps its pace. -/
theorem DrainStep.paced (h : DrainStep st now db dr action result)
    (htimeout : 0 ≤ st.notificationTimeoutMs) (hpaced : dr.Paced st now) :
    result.drain.Paced st now := by
  have hmono {m n : ℕ} (hle : m ≤ n) :
      m * st.notificationTimeoutMs ≤ n * st.notificationTimeoutMs :=
    Int.mul_le_mul_of_nonneg_right (Int.ofNat_le.mpr hle) htimeout
  have hsend (n : ℕ) : ((n + 1 : ℕ) : ℤ) * st.notificationTimeoutMs =
      n * st.notificationTimeoutMs + st.notificationTimeoutMs := by
    rw [Int.natCast_add, Int.add_mul, Int.natCast_one, Int.one_mul]
  cases h with
  | @claim t locked =>
    have hlength : (claimSql now st.notificationBatchSize locked db).2.length ≤
        st.notificationBatchSize := by
      have hle := length_select_le (fun d : Delivery => d.Claimable now ∧ locked d.id = false)
        Delivery.AttemptBefore st.notificationBatchSize db.deliveries.rows
      simpa only [claimSql, List.length_map] using hle
    have htime := hmono hlength
    dsimp only
    split
    · exact fun hbusy => absurd rfl hbusy
    · intro _
      simp only [Drain.freeAt, DrainPhase.remaining]
      omega
  | @fetch t ids order hperm =>
    have hlength : (contextSql order db).length ≤ ids.length := by
      have hle := (contextSql_sublist order db).length_le
      rwa [List.length_map, hperm.length_eq] at hle
    have htime := hmono hlength
    obtain ⟨_, hbefore⟩ := hpaced nofun
    intro _
    simp only [Drain.freeAt, DrainPhase.remaining] at hbefore ⊢
    omega
  | finish | fails => exact fun hbusy => absurd rfl hbusy
  | count | retry | uncounted =>
    obtain ⟨_, hbefore⟩ := hpaced nofun
    exact fun _ => ⟨le_rfl, hbefore⟩
  | succeeded | failed =>
    obtain ⟨hnow, hbefore⟩ := hpaced nofun
    intro _
    simp only [Drain.freeAt, DrainPhase.remaining] at hnow hbefore ⊢
    omega
  -- each attempt takes one channel off the list and at most one timeout of the clock
  | send | refuse | unrefused =>
    obtain ⟨_, hbefore⟩ := hpaced nofun
    intro _
    simp only [Drain.freeAt, DrainPhase.remaining, List.length_cons, hsend] at hbefore ⊢
    omega

/-- Only one action takes time. -/
theorem act_clock (helapse : ∀ ms, a ≠ .elapse ms) : (act srv st s a).clock = s.clock := by
  have hstep := act_cases srv st s a
  generalize act srv st s a = s' at hstep
  cases hstep with
  | elapse => exact absurd rfl (helapse _)
  | _ => rfl

/-- A drain keeps its pace while a send is in flight that has not timed out. -/
theorem Drain.Paced.elapse {ms : ℕ} (hpaced : dr.Paced st now) (hallows : dr.Allows st now ms) :
    dr.Paced st (now + ms) := by
  obtain ⟨t, phase⟩ := dr
  cases phase with
  | idle => exact fun hbusy => absurd rfl hbusy
  | sending since row rows sentLastHour delivered =>
    obtain ⟨_, hbefore⟩ := hpaced nofun
    exact fun _ => ⟨hallows, hbefore⟩
  | _ =>
    obtain rfl : ms = 0 := hallows
    simpa using hpaced

/-- A timely action keeps the pace of every drain. -/
theorem paced_act (htimeout : 0 ≤ st.notificationTimeoutMs) (htimely : s.Timely st a)
    (hpaced : ∀ dr ∈ s.drains, dr.Paced st s.clock) :
    ∀ dr ∈ (act srv st s a).drains, dr.Paced st (act srv st s a).clock := by
  by_cases helapse : ∃ ms, a = .elapse ms
  · obtain ⟨ms, rfl⟩ := helapse
    exact fun dr hdr => (hpaced dr hdr).elapse (htimely dr hdr)
  · push Not at helapse
    rw [act_clock helapse]
    intro dr' hdr'
    rcases act_drains hdr' with hold | ⟨dr, hdr, action, result, hstep, rfl⟩
    · exact hpaced dr' hold
    · exact hstep.paced htimeout (hpaced dr hdr)

/-- A drain that keeps its pace is over before its lease, if the sends of a batch fit
into a lease. -/
theorem Drain.Paced.withinLease (hpaced : dr.Paced st now)
    (htimeout : 0 ≤ st.notificationTimeoutMs)
    (hfits : st.notificationBatchSize * st.notificationTimeoutMs < claimLease)
    (hbusy : ¬ dr.Idle) : now < dr.claimedAt + claimLease := by
  obtain ⟨hnow, htime⟩ := hpaced hbusy
  have hsends : 0 ≤ (dr.phase.remaining : ℤ) * st.notificationTimeoutMs :=
    Int.mul_nonneg (Int.natCast_nonneg _) htimeout
  omega

/-- A drain that does nothing holds nothing. -/
theorem Drain.Idle.holds (h : dr.Idle) : dr.phase.holds = [] := by
  obtain ⟨t, phase⟩ := dr
  cases phase with
  | idle => rfl
  | _ => exact absurd h nofun

/-- A claim takes no row that an instance holds while every lease runs. -/
theorem Pipeline.Exclusive.claimsUnheld (h : s.Exclusive)
    (hlease : ∀ dr ∈ s.drains, ¬ dr.Idle → s.clock < dr.claimedAt + claimLease) :
    s.ClaimsUnheld st a := by
  unfold Pipeline.ClaimsUnheld
  split
  · intro _ _ _ id hid other hother hmem
    obtain ⟨d, hd, rfl⟩ := List.mem_map.mp hid
    obtain ⟨hrow, hclaimable, _⟩ := mem_of_mem_select _ _ hd
    have hbusy : ¬ other.Idle := by
      intro hidle
      rw [hidle.holds] at hmem
      cases hmem
    have htime := hlease other hother hbusy
    have hnext := (h.leased other hother d hrow hmem).2
    have hdue := hclaimable.2
    omega
  · trivial

end Pace

/-- No instance is doing anything, and nothing was sent yet. -/
structure Pipeline.Quiet (s : Pipeline) : Prop where
  drains : ∀ dr ∈ s.drains, dr.Idle
  sent : s.sent = []

/-- At the start nobody holds anything. -/
theorem Pipeline.Quiet.exclusive {s : Pipeline} (h : s.Quiet) : s.Exclusive := by
  have hnone {dr : Drain} (hdr : dr ∈ s.drains) : dr.phase.holds = [] := (h.drains dr hdr).holds
  constructor
  · intro dr hdr
    rw [hnone hdr]
    exact List.nodup_nil
  · intro i j dr dr' hi _ id hid
    rw [hnone (List.mem_of_getElem? hi)] at hid
    cases hid
  · intro dr hdr id hid
    rw [hnone hdr] at hid
    cases hid
  · intro dr hdr d _ hid
    rw [hnone hdr] at hid
    cases hid
  · simp [h.sent]
  · simp [Pipeline.SentOnce, h.sent]

/-- **No alert is sent twice, as long as no claim takes a row that an instance still
holds.** In a run in which no instance fails between a send and its mark, every alert
goes out once and what is marked as sent stays so, if no claim takes a row that an
instance still holds. That is the case if the sends of a batch fit into the lease of
their claim and time passes only while sends are in flight that have not timed out. -/
theorem sent_once (srv : Server) (st : Settings) (s : Pipeline) (actions : List Action)
    (hquiet : s.Quiet) (hmarks : Along (act srv st) Pipeline.MarksSends s actions) :
    (Along (act srv st) (Pipeline.ClaimsUnheld st) s actions →
      Throughout (act srv st) Pipeline.SentOnce s actions ∧
        Along (act srv st) (KeepsSent srv st) s actions) ∧
    (st.Admitted → st.notificationBatchSize * st.notificationTimeoutMs < claimLease →
      Along (act srv st) (Pipeline.Timely st) s actions →
      Throughout (act srv st) Pipeline.SentOnce s actions ∧
        Along (act srv st) (KeepsSent srv st) s actions) := by
  have hsafe (hunheld : Along (act srv st) (Pipeline.ClaimsUnheld st) s actions) :
      Throughout (act srv st) Pipeline.SentOnce s actions ∧
        Along (act srv st) (KeepsSent srv st) s actions := by
    have hboth := hmarks.and hunheld
    constructor
    · exact (throughout_of_step (fun _ _ h hcond => h.act hcond.1 hcond.2) hquiet.exclusive
        hboth).mono fun _ h => h.once
    · exact along_of_step (fun _ _ h hcond => h.act hcond.1 hcond.2) (fun _ _ h _ => h.keepsSent)
        hquiet.exclusive hboth
  refine ⟨hsafe, fun hadmitted hfits htimely => hsafe ?_⟩
  have htimeout : 0 ≤ st.notificationTimeoutMs := by
    have hmin := hadmitted.timeoutMs.1
    omega
  have hstart : s.Exclusive ∧ ∀ dr ∈ s.drains, dr.Paced st s.clock :=
    ⟨hquiet.exclusive, fun dr hdr hbusy => absurd (hquiet.drains dr hdr) hbusy⟩
  have hunheld {s : Pipeline} {a : Action}
      (h : s.Exclusive ∧ ∀ dr ∈ s.drains, dr.Paced st s.clock) : s.ClaimsUnheld st a :=
    h.1.claimsUnheld fun dr hdr hbusy => (h.2 dr hdr).withinLease htimeout hfits hbusy
  refine along_of_step (I := fun s => s.Exclusive ∧ ∀ dr ∈ s.drains, dr.Paced st s.clock) ?_
    (fun _ _ h _ => hunheld h) hstart (hmarks.and htimely)
  intro s a h hcond
  exact ⟨h.1.act hcond.1 (hunheld h), paced_act htimeout hcond.2 h.2⟩

/-- The default settings with batches of twenty alerts. -/
def smallBatches : Settings := { defaultSettings with notificationBatchSize := 20 }

/-- An instance sends an alert for nine seconds while another one looks for work. -/
def twoInstances : List Action :=
  [.addChannel ⟨1, 1, true⟩] ++ sampleOutage ++ sampleTick ++
    [.drain 0 (.claim fun _ => false), .drain 0 (.fetch [0]), .drain 0 .next, .drain 0 .next,
      .elapse 9000, .drain 1 (.claim fun _ => false), .drain 0 (.outcome true), .drain 0 .next]

/-- With batches of twenty alerts and ten seconds for each, two instances send an alert
once. -/
theorem sent_once_twoInstances :
    Throughout (act sampleServer smallBatches) Pipeline.SentOnce samplePipeline twoInstances ∧
      Along (act sampleServer smallBatches) (KeepsSent sampleServer smallBatches) samplePipeline
        twoInstances := by
  have h := sent_once sampleServer smallBatches samplePipeline twoInstances ⟨by decide, rfl⟩
    (by decide)
  have hunheld := h.1 (by decide)
  exact ⟨hunheld.1, (h.2 ⟨by decide, by decide, by decide⟩ (by decide) (by decide)).2⟩

/-- Five alerts a batch and a minute for each. -/
def slowSends : Settings :=
  { defaultSettings with notificationBatchSize := 5, notificationTimeoutMs := 60000 }

/-- An instance sends five alerts, a minute each. It has not marked them when another
instance claims them, five minutes after the first claim. -/
def leaseRunsOut : List Action :=
  [1, 2, 3, 4, 5].map (fun id => .addChannel ⟨id, 1, true⟩) ++ sampleOutage ++ sampleTick ++
    [.drain 0 (.claim fun _ => false), .drain 0 (.fetch [0, 1, 2, 3, 4]), .drain 0 .next] ++
    (List.replicate 5 [.drain 0 .next, .elapse 60000, .drain 0 (.outcome true)]).flatten ++
    [.drain 1 (.claim fun _ => false), .drain 1 (.fetch [0, 1, 2, 3, 4]), .drain 1 .next,
      .drain 1 .next, .drain 1 (.outcome true)]

/-- When the sends of a batch take as long as its lease, an alert goes out twice. -/
theorem not_sentOnce_leaseRunsOut :
    ¬ ∀ (srv : Server) (st : Settings) (s : Pipeline) (actions : List Action), st.Admitted →
      s.Quiet → Along (act srv st) Pipeline.MarksSends s actions →
      Along (act srv st) (Pipeline.Timely st) s actions →
      Throughout (act srv st) Pipeline.SentOnce s actions ∧
        Along (act srv st) (KeepsSent srv st) s actions := by
  intro h
  have hrun := (h sampleServer slowSends samplePipeline leaseRunsOut
    ⟨by decide, by decide, by decide⟩ ⟨by decide, rfl⟩ (by decide) (by decide)).1.last
  revert hrun
  decide

end SilenceWatch
