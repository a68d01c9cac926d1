import SilenceWatch.Pipeline.Deliveries

/-!
# What the drains hold

Between a claim and the end of its drain the rows are in the memory of an instance: as
ids until their contexts are fetched, as contexts until their sends are over.
-/

namespace SilenceWatch

open Relational Transition

/-- The claimed rows whose contexts a drain has not fetched yet. -/
def DrainPhase.ids : DrainPhase → List Uuid
  | .claimed ids => ids
  | _ => []

/-- The alerts a drain may still send, or is about to count as failed. -/
def DrainPhase.rows : DrainPhase → List ContextRow
  | .counting rows => rows
  | .delivering rows _ _ => rows
  | .sending _ row rows _ _ => row :: rows
  | .retrying row rows _ _ => row :: rows
  | _ => []

section Drains

variable {srv : Server} {st : Settings} {s : Pipeline} {a : Action} {now : ℤ} {db : Database}
  {dr : Drain} {action : DrainAction} {result : DrainResult}

/-- What a drain comes to hold it held before, or it fetched it for a row it claimed. -/
theorem DrainStep.mem_rows (h : DrainStep st now db dr action result) {row : ContextRow}
    (hrow : row ∈ result.drain.phase.rows) :
    row ∈ dr.phase.rows ∨
      (row.delivery ∈ db.deliveries.rows ∧ row.delivery.id ∈ dr.phase.ids) := by
  cases h with
  | claim =>
    dsimp only at hrow
    split at hrow
    · cases hrow
    · cases hrow
  | @fetch t ids order hperm =>
    right
    obtain ⟨id, hid, hmem⟩ := List.mem_flatMap.mp hrow
    simp only [Database.contextOf, List.mem_flatMap, List.mem_map, List.mem_filter,
      decide_eq_true_eq] at hmem
    obtain ⟨d, ⟨hd, rfl⟩, _, _, _, _, _, _, rfl⟩ := hmem
    exact ⟨hd, hperm.mem_iff.mp hid⟩
  | refuse _ => exact Or.inl (List.mem_cons_of_mem _ hrow)
  | retry => exact Or.inl (List.mem_cons_of_mem _ hrow)
  | succeeded => exact Or.inl (List.mem_cons_of_mem _ hrow)
  | uncounted => exact Or.inl (List.mem_cons_of_mem _ hrow)
  | unrefused => exact Or.inl (List.mem_cons_of_mem _ hrow)
  | finish => cases hrow
  | fails => cases hrow
  | _ => exact Or.inl hrow

/-- What a drain comes to claim could be claimed. -/
theorem DrainStep.mem_ids (h : DrainStep st now db dr action result) {id : Uuid}
    (hid : id ∈ result.drain.phase.ids) :
    ∃ d ∈ db.deliveries.rows, d.id = id ∧ d.Claimable now := by
  cases h with
  | claim =>
    dsimp only at hid
    split at hid
    · cases hid
    · obtain ⟨d, hd, rfl⟩ := List.mem_map.mp hid
      obtain ⟨hmem, hclaimable, _⟩ := mem_of_mem_select _ _ hd
      exact ⟨d, hmem, rfl, hclaimable⟩
  | _ => cases hid

/-- What a drain sends it held. -/
theorem DrainStep.mem_sent (h : DrainStep st now db dr action result) {d : Delivery}
    (hd : d ∈ result.sent) : ∃ row ∈ dr.phase.rows, row.delivery = d := by
  cases h with
  | succeeded => exact ⟨_, List.mem_cons_self, (List.mem_singleton.mp hd).symm⟩
  | _ => cases hd

/-- A row a drain leaves pending was pending, or the drain held it. -/
theorem DrainStep.pending (h : DrainStep st now db dr action result) {d' : Delivery}
    (hd' : d' ∈ result.db.deliveries.rows) (hpending : d'.status = .pending) :
    ∃ d ∈ db.deliveries.rows, d.SameAlert d' ∧
      (d.status = .pending ∨ ∃ row ∈ dr.phase.rows, row.delivery.id = d.id) := by
  have hkept (h : d' ∈ db.deliveries.rows) : ∃ d ∈ db.deliveries.rows, d.SameAlert d' ∧
      (d.status = .pending ∨ ∃ row ∈ dr.phase.rows, row.delivery.id = d.id) :=
    ⟨d', h, Delivery.SameAlert.refl d', Or.inl hpending⟩
  cases h with
  | claim =>
    obtain ⟨d, hd, ⟨_, rfl⟩ | ⟨_, rfl⟩⟩ := mem_map_updateRow.mp hd'
    · exact ⟨d, hd, ⟨rfl, rfl, rfl, rfl, rfl⟩, Or.inl hpending⟩
    · exact hkept hd
  | finish =>
    dsimp only at hd'
    split at hd'
    · exact hkept hd'
    · obtain ⟨d, hd, ⟨_, rfl⟩ | ⟨_, rfl⟩⟩ := mem_map_updateRow.mp hd'
      · cases hpending
      · exact hkept hd
  | refuse _ =>
    obtain ⟨d, hd, ⟨_, rfl⟩ | ⟨_, rfl⟩⟩ := mem_map_updateRow.mp hd'
    · cases hpending
    · exact hkept hd
  | retry =>
    obtain ⟨d, hd, ⟨hid, rfl⟩ | ⟨_, rfl⟩⟩ := mem_map_updateRow.mp hd'
    · exact ⟨d, hd, ⟨rfl, rfl, rfl, rfl, rfl⟩, Or.inr ⟨_, List.mem_cons_self, hid.symm⟩⟩
    · exact hkept hd
  | _ => exact hkept hd'

/-- An action that is no step of a drain touches neither the drains nor what was sent. -/
theorem act_of_ne_drain (srv : Server) (st : Settings) (s : Pipeline)
    (hdrain : ∀ instance' action, a ≠ .drain instance' action) :
    (act srv st s a).drains = s.drains ∧ (act srv st s a).sent = s.sent := by
  have hstep := act_cases srv st s a
  generalize act srv st s a = s' at hstep
  cases hstep with
  | drain _ _ => exact absurd rfl (hdrain _ _)
  | _ => exact ⟨rfl, rfl⟩

/-- A drain after an action was there before, or took the step that the action is. -/
theorem act_drains {dr' : Drain} (hdr' : dr' ∈ (act srv st s a).drains) :
    dr' ∈ s.drains ∨ ∃ dr ∈ s.drains, ∃ action result,
      DrainStep st s.clock s.db dr action result ∧ dr' = result.drain := by
  have hstep := act_cases srv st s a
  generalize act srv st s a = s' at hdr' hstep
  cases hstep with
  | drain hget hstep =>
    rcases List.mem_or_eq_of_mem_set hdr' with hmem | hmoved
    · exact Or.inl hmem
    · exact Or.inr ⟨_, List.mem_of_getElem? hget, _, _, hstep, hmoved⟩
  | _ => exact Or.inl hdr'

/-- An alert that is sent by an action was in the hands of a drain. -/
theorem act_sent {d : Delivery} (hd : d ∈ (act srv st s a).sent) :
    d ∈ s.sent ∨ ∃ dr ∈ s.drains, ∃ row ∈ dr.phase.rows, row.delivery = d := by
  have hstep := act_cases srv st s a
  generalize act srv st s a = s' at hd hstep
  cases hstep with
  | drain hget hstep =>
    rcases List.mem_append.mp hd with hmem | hnew
    · exact Or.inl hmem
    · exact Or.inr ⟨_, List.mem_of_getElem? hget, hstep.mem_sent hnew⟩
  | _ => exact Or.inl hd

end Drains

end SilenceWatch
