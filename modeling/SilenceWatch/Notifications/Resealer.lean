import Mathlib.Data.List.Forall2
import SilenceWatch.Checks.Walks
import SilenceWatch.Library.Run
import SilenceWatch.Notifications.Vault

/-!
# Resealing

Every configuration is brought under the current key, batch by batch, while other instances
do the same. A row is rewritten only if it is still as it was read, and what is written opens
under the current key, so that each row is rewritten once at most and keeps its plaintext.
-/

namespace SilenceWatch

open Aead (Bytes)
open Json (NumberFormat Value)
open Relational Transition

/-- A row of `notification_channel`. -/
structure ChannelConfigRow (J : Type) where
  id : Uuid
  config : J
  deriving DecidableEq

/-- `notification_channel_pkey`. -/
def ChannelConfigRow.Distinct {J : Type} (row row' : ChannelConfigRow J) : Prop := row.id ≠ row'.id

/-- Another configuration is no other channel. -/
theorem ChannelConfigRow.keepsDistinct {J : Type} (config : J) :
    KeepsDistinct ChannelConfigRow.Distinct fun row : ChannelConfigRow J =>
      { row with config := config } :=
  fun _ _ h => ⟨h, h⟩

/-- The rows of `notification_channel`. -/
abbrev ChannelTable (J : Type) := Table (ChannelConfigRow J) ChannelConfigRow.Distinct

/-- A column of type `jsonb`: `text::jsonb`, and a value as it is read. A sealed configuration
is read as it was written. -/
structure JsonColumn {ν : Type} (numbers : NumberFormat ν) (J : Type) where
  cast : List Char → J
  read : J → Value ν
  read_cast_sealed : ∀ text, (∀ c ∈ text, 0x20 ≤ c.toNat ∧ c.toNat < 0x7F) →
    read (cast (Json.print numbers (sealedConfig text))) = sealedConfig text

/-- A value that survives a round trip through JavaScript. -/
def JsonColumn.Survives {ν J : Type} {numbers : NumberFormat ν} (column : JsonColumn numbers J)
    (stored : J) : Prop :=
  column.cast (Json.print numbers (column.read stored)) = stored

/-- `ResealCounts`. -/
structure ResealCounts where
  sealed : ℕ
  resealed : ℕ
  unchanged : ℕ
  failed : ℕ
  deriving DecidableEq

/-- What becomes of a row that is written. -/
inductive ResealOutcome
  | sealed
  | resealed

/-- `counts[outcome] += 1`. -/
def ResealCounts.add (counts : ResealCounts) : ResealOutcome → ResealCounts
  | .sealed => { counts with sealed := counts.sealed + 1 }
  | .resealed => { counts with resealed := counts.resealed + 1 }

/-- What `one` makes of a row before it writes. -/
inductive RowPlan (ν : Type)
  | unchanged
  | failed (thrown : Thrown)
  | rewrite (config : Value ν) (outcome : ResealOutcome)

/-- `ChannelConfigResealer`: the column, the vault, and that of the key before it. -/
structure ChannelConfigResealer (ν J : Type) where
  crypto : NodeCrypto
  numbers : NumberFormat ν
  column : JsonColumn numbers J
  vault : ChannelConfigVault
  previous : Option ChannelConfigVault

/-- A call of `run` between two statements of the database: the rows of the batch that are left,
`after`, the counts, what was logged, and the rows that were passed to `one`. -/
structure ResealRun (J : Type) where
  rows : List (ChannelConfigRow J)
  after : Uuid
  returned : Bool
  counts : ResealCounts
  errors : List (Uuid × Thrown)
  visited : List Uuid

/-- `BATCH`. -/
def resealBatch : ℕ := 200

/-- A call of `run` before its first statement. -/
def ResealRun.start (J : Type) : ResealRun J := ⟨[], 0, false, ⟨0, 0, 0, 0⟩, [], []⟩

namespace ChannelConfigResealer

variable {ν J : Type} [DecidableEq J] (resealer : ChannelConfigResealer ν J)

/-- `one`, before the row is written. -/
def plan (row : ChannelConfigRow J) : RowPlan ν :=
  let config := resealer.column.read row.config
  if ¬ ChannelConfigVault.isSealed config then .rewrite config .sealed
  else
    match resealer.vault.openConfig resealer.crypto resealer.numbers (uuidText row.id) config with
    | .ok _ => .unchanged
    | .error thrown =>
      match thrown, resealer.previous with
      | .channelConfigError _, some previous =>
        match previous.openConfig resealer.crypto resealer.numbers (uuidText row.id) config with
        | .ok config => .rewrite config .resealed
        | .error thrown => .failed thrown
      | thrown, _ => .failed thrown

/-- The seal of a row, with the random bytes. -/
def sealOf (row : ChannelConfigRow J) (iv : Bytes) (config : Value ν) : Seal ν :=
  ⟨resealer.vault, iv, uuidText row.id, config⟩

/-- What is written in place of a configuration. -/
def written (s : Seal ν) : J :=
  resealer.column.cast
    (Json.print resealer.numbers (s.stored resealer.crypto resealer.numbers))

/-- A row that is still as it was read. -/
def StillAsRead (row row' : ChannelConfigRow J) : Prop :=
  row'.id = row.id ∧ row'.config =
    resealer.column.cast (Json.print resealer.numbers (resealer.column.read row.config))

instance (row row' : ChannelConfigRow J) : Decidable (resealer.StillAsRead row row') :=
  inferInstanceAs (Decidable (_ ∧ _))

/-- `UPDATE notification_channel SET config = ... WHERE id = ... AND config = ...`. -/
def write (row : ChannelConfigRow J) (s : Seal ν) (table : ChannelTable J) : ChannelTable J :=
  table.update (resealer.StillAsRead row) (fun row' => { row' with config := resealer.written s })
    (ChannelConfigRow.keepsDistinct _)

/-- `one`, of the next row of the batch. -/
def one (row : ChannelConfigRow J) (rows : List (ChannelConfigRow J)) (iv : Bytes)
    (table : ChannelTable J) (run : ResealRun J) : ChannelTable J × ResealRun J :=
  let run := { run with rows := rows, visited := run.visited ++ [row.id] }
  match resealer.plan row with
  | .unchanged =>
    (table, { run with counts := { run.counts with unchanged := run.counts.unchanged + 1 } })
  | .failed thrown =>
    (table, { run with
      counts := { run.counts with failed := run.counts.failed + 1 }
      errors := run.errors ++ [(row.id, thrown)] })
  | .rewrite config outcome =>
    (resealer.write row (resealer.sealOf row iv config) table,
      { run with counts :=
          if ∃ row' ∈ table.rows, resealer.StillAsRead row row' then run.counts.add outcome
          else run.counts })

/-- `run` up to its next statement: a row of the batch, or the next batch, or the end. -/
def advance (iv : Bytes) (table : ChannelTable J) (run : ResealRun J) :
    ChannelTable J × ResealRun J :=
  if run.returned then (table, run)
  else
    match run.rows with
    | row :: rows => resealer.one row rows iv table run
    | [] =>
      match pageAfter ChannelConfigRow.id run.after resealBatch table.rows with
      | [] => (table, { run with returned := true })
      | row :: rows =>
        (table, { run with rows := row :: rows, after := ((row :: rows).getLast (by simp)).id })

end ChannelConfigResealer

/-- A table and the calls of `run` of several instances. -/
structure ResealSystem (Instance J : Type) where
  table : ChannelTable J
  runs : Instance → ResealRun J

/-- An instance goes on to its next statement. -/
structure ResealEvent (Instance : Type) where
  who : Instance
  iv : Bytes

/-- Every instance calls `run`. -/
def ResealSystem.start (Instance : Type) {J : Type} (table : ChannelTable J) :
    ResealSystem Instance J :=
  ⟨table, fun _ => ResealRun.start J⟩

/-- A step of an instance. -/
def ChannelConfigResealer.step {ν J Instance : Type} [DecidableEq J] [DecidableEq Instance]
    (resealer : ChannelConfigResealer ν J) (sys : ResealSystem Instance J)
    (e : ResealEvent Instance) : ResealSystem Instance J :=
  let (table, run) := resealer.advance e.iv sys.table (sys.runs e.who)
  ⟨table, Function.update sys.runs e.who run⟩

section

variable {ν J Instance : Type} [DecidableEq J] [DecidableEq Instance]
  (resealer : ChannelConfigResealer ν J) (sys : ResealSystem Instance J) (e : ResealEvent Instance)

theorem ChannelConfigResealer.step_table : (resealer.step sys e).table =
    (resealer.advance e.iv sys.table (sys.runs e.who)).1 := rfl

/-- A step of one instance is none of the others. -/
theorem ChannelConfigResealer.step_runs (i : Instance) : (resealer.step sys e).runs i =
    if i = e.who then (resealer.advance e.iv sys.table (sys.runs e.who)).2 else sys.runs i :=
  Function.update_apply sys.runs e.who _ i

end

variable {ν J Instance : Type} [DecidableEq J] [DecidableEq Instance]
  {resealer : ChannelConfigResealer ν J} {table table' : ChannelTable J} {run run' : ResealRun J}
  {iv : Bytes} {seals : Set (Seal ν)}

/-- What an instance can do. -/
inductive ChannelConfigResealer.Advances (resealer : ChannelConfigResealer ν J) (iv : Bytes)
    (table : ChannelTable J) (run : ResealRun J) : ChannelTable J → ResealRun J → Prop
  | stays (hreturned : run.returned = true) : Advances resealer iv table run table run
  | ends (hreturned : run.returned = false) (hrows : run.rows = [])
      (hpage : pageAfter ChannelConfigRow.id run.after resealBatch table.rows = []) :
      Advances resealer iv table run table { run with returned := true }
  | fetches (page : List (ChannelConfigRow J)) (last : ChannelConfigRow J)
      (hreturned : run.returned = false) (hrows : run.rows = [])
      (hpage : pageAfter ChannelConfigRow.id run.after resealBatch table.rows = page)
      (hlast : last ∈ page.getLast?) :
      Advances resealer iv table run table { run with rows := page, after := last.id }
  | keeps (row : ChannelConfigRow J) (rows : List (ChannelConfigRow J)) (counts : ResealCounts)
      (hreturned : run.returned = false) (hrows : run.rows = row :: rows)
      (hplan : resealer.plan row = .unchanged) (hcounts : counts.failed = run.counts.failed) :
      Advances resealer iv table run table
        { run with rows := rows, visited := run.visited ++ [row.id], counts := counts }
  | fails (row : ChannelConfigRow J) (rows : List (ChannelConfigRow J)) (thrown : Thrown)
      (counts : ResealCounts) (hreturned : run.returned = false) (hrows : run.rows = row :: rows)
      (hplan : resealer.plan row = .failed thrown)
      (hcounts : counts.failed = run.counts.failed + 1) :
      Advances resealer iv table run table
        { run with
          rows := rows
          visited := run.visited ++ [row.id]
          counts := counts
          errors := run.errors ++ [(row.id, thrown)] }
  | writes (row : ChannelConfigRow J) (rows : List (ChannelConfigRow J)) (config : Value ν)
      (outcome : ResealOutcome) (counts : ResealCounts) (hreturned : run.returned = false)
      (hrows : run.rows = row :: rows) (hplan : resealer.plan row = .rewrite config outcome)
      (hcounts : counts.failed = run.counts.failed) :
      Advances resealer iv table run (resealer.write row (resealer.sealOf row iv config) table)
        { run with rows := rows, visited := run.visited ++ [row.id], counts := counts }

/-- An instance does one of these things. -/
theorem ChannelConfigResealer.advances (resealer : ChannelConfigResealer ν J) (iv : Bytes)
    (table : ChannelTable J) (run : ResealRun J) :
    resealer.Advances iv table run (resealer.advance iv table run).1
      (resealer.advance iv table run).2 := by
  obtain ⟨rows, after, returned, counts, errors, visited⟩ := run
  unfold advance
  cases returned with
  | true => exact .stays rfl
  | false =>
    cases rows with
    | nil =>
      cases hpage : pageAfter ChannelConfigRow.id after resealBatch table.rows with
      | nil =>
        exact .ends rfl rfl hpage
      | cons row rows =>
        exact .fetches (row :: rows) _ rfl rfl hpage (List.getLast?_eq_some_getLast (by simp))
    | cons row rows =>
      dsimp only [one]
      cases hplan : resealer.plan row with
      | unchanged => exact .keeps row rows _ rfl rfl hplan rfl
      | failed thrown => exact .fails row rows thrown _ rfl rfl hplan rfl
      | rewrite config outcome =>
        refine .writes row rows config outcome _ rfl rfl hplan ?_
        dsimp only
        split_ifs
        · cases outcome <;> rfl
        · rfl

section Plaintexts

/-- A row opens to a plaintext with one of the keys. -/
def ChannelConfigResealer.OpensTo (resealer : ChannelConfigResealer ν J) (row : ChannelConfigRow J)
    (config : Value ν) : Prop :=
  ∃ vault, (vault = resealer.vault ∨ resealer.previous = some vault) ∧
    vault.openConfig resealer.crypto resealer.numbers (uuidText row.id)
      (resealer.column.read row.config) = .ok config

/-- A row that was rewritten: it holds a seal, made of what was planned for the row before. -/
def ChannelConfigResealer.Rewritten (resealer : ChannelConfigResealer ν J) (seals : Set (Seal ν))
    (row row' : ChannelConfigRow J) : Prop :=
  ∃ iv config outcome, resealer.plan row = .rewrite config outcome ∧
    resealer.sealOf row iv config ∈ seals ∧
    row' = ⟨row.id, resealer.written (resealer.sealOf row iv config)⟩

variable {row row' : ChannelConfigRow J} {config : Value ν} {outcome : ResealOutcome}

/-- A row that is sealed under the current key. -/
def ChannelConfigResealer.SealedUnderCurrent (resealer : ChannelConfigResealer ν J)
    (row : ChannelConfigRow J) : Prop :=
  ChannelConfigVault.isSealed (resealer.column.read row.config) = true ∧
    ∃ config, resealer.vault.openConfig resealer.crypto resealer.numbers (uuidText row.id)
      (resealer.column.read row.config) = .ok config

omit [DecidableEq J] in
/-- What is left alone is sealed under the current key. -/
theorem ChannelConfigResealer.sealedUnderCurrent_of_unchanged
    (hplan : resealer.plan row = .unchanged) : resealer.SealedUnderCurrent row := by
  unfold plan at hplan
  dsimp only at hplan
  split at hplan
  · cases hplan
  · next hsealed =>
    split at hplan
    · next config hopen => exact ⟨not_not.mp hsealed, config, hopen⟩
    · split at hplan
      · split at hplan <;> cases hplan
      · cases hplan

omit [DecidableEq J] in
/-- What is sealed under the current key is left alone. -/
theorem ChannelConfigResealer.SealedUnderCurrent.unchanged (h : resealer.SealedUnderCurrent row) :
    resealer.plan row = .unchanged := by
  obtain ⟨hsealed, config, hopen⟩ := h
  unfold plan
  dsimp only
  rw [if_neg (not_not.mpr hsealed), hopen]

omit [DecidableEq J] in
/-- What fails opens with neither key. -/
theorem ChannelConfigResealer.not_opensTo_of_failed {thrown : Thrown}
    (hplan : resealer.plan row = .failed thrown) (config : Value ν) :
    ¬ resealer.OpensTo row config := by
  unfold plan at hplan
  dsimp only at hplan
  split at hplan
  · cases hplan
  · split at hplan
    · cases hplan
    · next raised hcurrent =>
      -- whatever the current key raises is a `ChannelConfigError`, so the previous key is tried
      obtain ⟨message, rfl⟩ := openConfig_error hcurrent
      rintro ⟨vault, rfl | hprevious, hopen⟩
      · rw [hcurrent] at hopen
        cases hopen
      · rw [hprevious] at hplan
        dsimp only at hplan
        rw [hopen] at hplan
        cases hplan

omit [DecidableEq J] in
/-- What is planned for a row is what the row opens to. -/
theorem ChannelConfigResealer.opensTo_of_rewrite
    (hplan : resealer.plan row = .rewrite config outcome)
    (opened : Value ν) : resealer.OpensTo row opened ↔ opened = config := by
  unfold plan at hplan
  dsimp only at hplan
  split at hplan
  · next hsealed =>
    -- the configuration was never sealed, and opens to itself
    obtain ⟨rfl, -⟩ := RowPlan.rewrite.inj hplan
    have hopens : ∀ vault : ChannelConfigVault, vault.openConfig resealer.crypto resealer.numbers
        (uuidText row.id) (resealer.column.read row.config) =
          .ok (resealer.column.read row.config) := fun vault =>
      openConfig_of_not_isSealed (by simpa using hsealed)
    constructor
    · rintro ⟨vault, -, hopen⟩
      exact (Except.ok.inj ((hopens vault).symm.trans hopen)).symm
    · rintro rfl
      exact ⟨resealer.vault, Or.inl rfl, hopens _⟩
  · split at hplan
    · cases hplan
    · next thrown hcurrent =>
      split at hplan
      · next previous hprevious =>
        split at hplan
        · next opened' hopened =>
          obtain ⟨rfl, -⟩ := RowPlan.rewrite.inj hplan
          constructor
          · rintro ⟨vault, rfl | hvault, hopen⟩
            · rw [hcurrent] at hopen
              cases hopen
            · obtain rfl := Option.some_inj.mp (hprevious.symm.trans hvault)
              exact (Except.ok.inj (hopened.symm.trans hopen)).symm
          · rintro rfl
            exact ⟨previous, Or.inr hprevious, hopened⟩
        · cases hplan
      · cases hplan

omit [DecidableEq J] in
/-- A sealed configuration is read as it was written. -/
theorem ChannelConfigResealer.read_written (resealer : ChannelConfigResealer ν J) (s : Seal ν) :
    resealer.column.read (resealer.written s) = s.stored resealer.crypto resealer.numbers := by
  rw [written, Seal.stored_eq, resealer.column.read_cast_sealed]
  intro c hc
  have hchars : ∀ parts : List (List Char), (∀ part ∈ parts, ∀ c ∈ part, IsPartChar c) →
      ∀ c ∈ List.intercalate ['.'] parts, 0x20 ≤ c.toNat ∧ c.toNat < 0x7F := by
    intro parts
    induction parts with
    | nil => simp [List.intercalate]
    | cons part parts ih =>
      intro hparts c hc
      have hpart := hparts part List.mem_cons_self
      have hrest := ih fun part' hpart' => hparts part' (List.mem_cons_of_mem _ hpart')
      cases parts with
      | nil =>
        rw [List.intercalate_singleton] at hc
        exact ⟨(hpart c hc).1, (hpart c hc).2.1⟩
      | cons next parts =>
        rw [List.intercalate_cons_cons] at hc
        rcases List.mem_append.mp hc with hc | hc
        · rcases List.mem_append.mp hc with hc | hc
          · exact ⟨(hpart c hc).1, (hpart c hc).2.1⟩
          · rw [List.mem_singleton.mp hc]
            decide
        · exact hrest c hc
  exact hchars _ (s.isPartChar _ _) c hc

omit [DecidableEq J] in
/-- **A row that was rewritten** survives, is left alone from then on, and opens to what it opened
to before. -/
theorem ChannelConfigResealer.Rewritten.spec
    (hideal : resealer.crypto.cipher.Ideal (Seal.call resealer.numbers '' seals))
    (h : resealer.Rewritten seals row row') :
    resealer.column.Survives row'.config ∧ resealer.plan row' = .unchanged ∧
      ∀ opened, resealer.OpensTo row' opened ↔ resealer.OpensTo row opened := by
  obtain ⟨iv, config, outcome, hplan, hseal, rfl⟩ := h
  have hread := resealer.read_written (resealer.sealOf row iv config)
  have hopens : ∀ (vault : ChannelConfigVault) opened,
      vault.openConfig resealer.crypto resealer.numbers (uuidText row.id)
        (resealer.column.read (resealer.written (resealer.sealOf row iv config))) = .ok opened ↔
      vault = resealer.vault ∧ opened = config := by
    intro vault opened
    rw [hread, openConfig_stored_iff hideal hseal]
    exact ⟨fun h => ⟨h.1.2, h.2⟩, fun h => ⟨⟨rfl, h.1⟩, h.2⟩⟩
  refine ⟨?_, ?_, ?_⟩
  · unfold JsonColumn.Survives
    rw [hread]
    rfl
  · have hsealed : ChannelConfigVault.isSealed (resealer.column.read
        (resealer.written (resealer.sealOf row iv config))) = true := by
      rw [hread, Seal.stored_eq]
      exact congrArg Option.isSome (sealed?_sealedConfig _)
    exact SealedUnderCurrent.unchanged ⟨hsealed, config, (hopens _ _).mpr ⟨rfl, rfl⟩⟩
  · intro opened
    rw [opensTo_of_rewrite hplan]
    constructor
    · rintro ⟨vault, -, hopen⟩
      exact ((hopens vault opened).mp hopen).2
    · rintro rfl
      exact ⟨resealer.vault, Or.inl rfl, (hopens _ _).mpr ⟨rfl, rfl⟩⟩

end Plaintexts

section Rewriting

variable {rows : List (ChannelConfigRow J)} {row row' : ChannelConfigRow J} {config : Value ν}
  {outcome : ResealOutcome}

/-- A row as it was, or rewritten. -/
def ChannelConfigResealer.Evolves (resealer : ChannelConfigResealer ν J) (seals : Set (Seal ν))
    (row row' : ChannelConfigRow J) : Prop :=
  row' = row ∨ resealer.Rewritten seals row row'

omit [DecidableEq J] in
theorem ChannelConfigResealer.Evolves.id_eq (h : resealer.Evolves seals row row') :
    row'.id = row.id := by
  rcases h with rfl | ⟨iv, config, outcome, -, -, rfl⟩ <;> rfl

omit [DecidableEq J] in
/-- A row that differs from what it was is left alone. -/
theorem ChannelConfigResealer.Evolves.plan
    (hideal : resealer.crypto.cipher.Ideal (Seal.call resealer.numbers '' seals))
    (h : resealer.Evolves seals row row') : row' = row ∨ resealer.plan row' = .unchanged :=
  h.imp_right fun hrewritten => (hrewritten.spec hideal).2.1

omit [DecidableEq J] in
/-- Ids tell the rows of a table apart. -/
theorem ChannelTable.eq_of_id_eq (table : ChannelTable J) (hrow : row ∈ table.rows)
    (hrow' : row' ∈ table.rows) (hid : row.id = row'.id) : row = row' :=
  List.inj_on_of_nodup_map (List.pairwise_map.mpr table.distinct) hrow hrow' hid

omit [DecidableEq J] in
/-- What became of a row has its id. -/
theorem evolves_of_id_eq (htable : List.Forall₂ (resealer.Evolves seals) rows table.rows)
    (hrow : row ∈ rows) (hrow' : row' ∈ table.rows) (hid : row'.id = row.id) :
    resealer.Evolves seals row row' := by
  have hpartner : ∀ {rows rows' : List (ChannelConfigRow J)},
      List.Forall₂ (resealer.Evolves seals) rows rows' → row ∈ rows →
        ∃ row'' ∈ rows', resealer.Evolves seals row row'' := by
    intro rows rows' h hrow
    induction h with
    | nil => cases hrow
    | cons hhead _ ih =>
      rcases List.mem_cons.mp hrow with rfl | hrow
      · exact ⟨_, List.mem_cons_self, hhead⟩
      · obtain ⟨row'', hrow'', hevolves⟩ := ih hrow
        exact ⟨row'', List.mem_cons_of_mem _ hrow'', hevolves⟩
  obtain ⟨row'', hrow'', hevolves⟩ := hpartner htable hrow
  rw [table.eq_of_id_eq hrow' hrow'' (hid.trans hevolves.id_eq.symm)]
  exact hevolves

omit [DecidableEq J] in
/-- A row of the table is as it was, or left alone. -/
theorem mem_or_unchanged
    (hideal : resealer.crypto.cipher.Ideal (Seal.call resealer.numbers '' seals))
    (htable : List.Forall₂ (resealer.Evolves seals) rows table.rows) (hrow' : row' ∈ table.rows) :
    row' ∈ rows ∨ resealer.plan row' = .unchanged := by
  generalize table.rows = rows' at htable hrow'
  induction htable with
  | nil => cases hrow'
  | cons hhead _ ih =>
    rcases List.mem_cons.mp hrow' with rfl | hrow'
    · rcases hhead.plan hideal with rfl | hplan
      · exact Or.inl List.mem_cons_self
      · exact Or.inr hplan
    · exact (ih hrow').imp_left (List.mem_cons_of_mem _)

omit [DecidableEq J] in
/-- What a row becomes survives as it does. -/
theorem survives_of_evolves
    (hideal : resealer.crypto.cipher.Ideal (Seal.call resealer.numbers '' seals))
    (hsurvives : ∀ row ∈ rows, resealer.column.Survives row.config)
    (htable : List.Forall₂ (resealer.Evolves seals) rows table.rows) :
    ∀ row ∈ table.rows, resealer.column.Survives row.config := by
  generalize table.rows = rows' at htable
  induction htable with
  | nil => exact fun row hrow => absurd hrow List.not_mem_nil
  | cons hhead _ ih =>
    intro row hrow
    rcases List.mem_cons.mp hrow with rfl | hrow
    · rcases hhead with rfl | hrewritten
      · exact hsurvives _ List.mem_cons_self
      · exact (hrewritten.spec hideal).1
    · exact ih (fun row' hrow' => hsurvives row' (List.mem_cons_of_mem _ hrow')) row hrow

omit [DecidableEq J] in
/-- What survives is still as it was read if it is the same. -/
theorem stillAsRead_iff (hsurvives : resealer.column.Survives row.config) :
    resealer.StillAsRead row row' ↔ row' = row := by
  unfold ChannelConfigResealer.StillAsRead
  unfold JsonColumn.Survives at hsurvives
  rw [hsurvives]
  constructor
  · rintro ⟨hid, hconfig⟩
    cases row
    cases row'
    dsimp only at hid hconfig
    rw [hid, hconfig]
  · rintro rfl
    exact ⟨rfl, rfl⟩

/-- **Writing a row** replaces the row that was read, if it is still there, and no other. -/
theorem mem_write_iff (hsurvives : resealer.column.Survives row.config) {s : Seal ν} :
    row' ∈ (resealer.write row s table).rows ↔
      (row ∈ table.rows ∧ row' = ⟨row.id, resealer.written s⟩) ∨
        (row' ∈ table.rows ∧ row' ≠ row) := by
  rw [ChannelConfigResealer.write, Table.update_rows, mem_map_updateRow]
  simp only [stillAsRead_iff hsurvives]
  constructor
  · rintro ⟨row'', hrow'', ⟨rfl, rfl⟩ | ⟨hne, rfl⟩⟩
    · exact Or.inl ⟨hrow'', rfl⟩
    · exact Or.inr ⟨hrow'', hne⟩
  · rintro (⟨hrow, rfl⟩ | ⟨hrow', hne⟩)
    · exact ⟨row, hrow, Or.inl ⟨rfl, rfl⟩⟩
    · exact ⟨row', hrow', Or.inr ⟨hne, rfl⟩⟩

/-- Writing a row rewrites it. -/
theorem forall₂_write
    (hideal : resealer.crypto.cipher.Ideal (Seal.call resealer.numbers '' seals))
    (hsurvives : resealer.column.Survives row.config)
    (htable : List.Forall₂ (resealer.Evolves seals) rows table.rows)
    (hplan : resealer.plan row = .rewrite config outcome)
    (hseal : resealer.sealOf row iv config ∈ seals) :
    List.Forall₂ (resealer.Evolves seals) rows
      (resealer.write row (resealer.sealOf row iv config) table).rows := by
  rw [ChannelConfigResealer.write, Table.update_rows, List.forall₂_map_right_iff]
  refine htable.imp fun row₀ row' hevolves => ?_
  unfold updateRow
  split
  · next hstill =>
    obtain rfl := (stillAsRead_iff hsurvives).mp hstill
    rcases hevolves.plan hideal with rfl | hunchanged
    · exact Or.inr ⟨iv, config, outcome, hplan, hseal, rfl⟩
    · rw [hunchanged] at hplan
      cases hplan
  · exact hevolves

end Rewriting

section Walking

variable {places : List Uuid} {rows : List (ChannelConfigRow J)}

/-- A call of `run` has passed the first rows of the table to `one`, and the others are ahead. -/
structure ResealRun.Walks (places : List Uuid) (run : ResealRun J) : Prop where
  ahead : run.returned = false →
    run.visited ++ (run.rows.map ChannelConfigRow.id ++ places.filter (run.after < ·)) = places
  behind : run.returned = true → run.visited = places

/-- At most as many steps are left. -/
def ResealRun.left (places : List Uuid) (run : ResealRun J) : ℕ :=
  if run.returned then 0
  else run.rows.length + 2 * (places.filter (run.after < ·)).length + 1

omit [DecidableEq J] in
theorem ResealRun.left_of_working (places : List Uuid) (hreturned : run.returned = false) :
    run.left places = run.rows.length + 2 * (places.filter (run.after < ·)).length + 1 := by
  simp [left, hreturned]

/-- The ids that follow a batch are those that are left. -/
theorem filter_after_batch (hsorted : places.Pairwise (· < ·)) {after last : Uuid}
    (hlast : last ∈ ((places.filter (after < ·)).take resealBatch).getLast?) :
    places.filter (last < ·) = (places.filter (after < ·)).drop resealBatch := by
  rw [← filter_after_last (hsorted.filter _) hlast, List.filter_filter]
  refine List.filter_congr fun place _ => ?_
  have hmem := List.mem_of_mem_take (List.mem_of_getLast? hlast)
  have hafter : after < last := by simpa using (List.mem_filter.mp hmem).2
  by_cases hplace : last < place
  · simp [hplace, hafter.trans hplace]
  · simp [hplace]

omit [DecidableEq J] in
/-- A row is passed to `one`. -/
theorem ResealRun.Walks.pass {row : ChannelConfigRow J} (hwalks : run.Walks places)
    (hreturned : run.returned = false) (hrows : run.rows = row :: rows) (hrows' : run'.rows = rows)
    (hafter : run'.after = run.after) (hreturned' : run'.returned = false)
    (hvisited : run'.visited = run.visited ++ [row.id]) :
    run'.Walks places ∧ run'.left places ≤ run.left places - 1 := by
  refine ⟨⟨fun _ => ?_, fun h => ?_⟩, ?_⟩
  · have hahead := hwalks.ahead hreturned
    rw [hrows] at hahead
    rw [hvisited, hrows', hafter]
    simpa using hahead
  · rw [hreturned'] at h
    cases h
  · rw [ResealRun.left_of_working places hreturned,
      ResealRun.left_of_working places hreturned', hrows,
      hrows', hafter, List.length_cons]
    omega

/-- **A step of a walk** passes one row to `one`, or fetches the rows that come next. -/
theorem ResealRun.Walks.advance (hsorted : places.Pairwise (· < ·))
    (hplaces : placesOf ChannelConfigRow.id table.rows = places) (hwalks : run.Walks places)
    (h : resealer.Advances iv table run table' run') :
    run'.Walks places ∧ run'.left places ≤ run.left places - 1 := by
  have hmap := map_pageAfter ChannelConfigRow.id run.after resealBatch table.rows
  rw [hplaces] at hmap
  cases h with
  | stays hreturned =>
    refine ⟨hwalks, ?_⟩
    simp [ResealRun.left, hreturned]
  | ends hreturned hrows hpage =>
    refine ⟨⟨fun h => Bool.noConfusion h, fun _ => ?_⟩, by simp [ResealRun.left]⟩
    have hahead := hwalks.ahead hreturned
    have hnothing : places.filter (run.after < ·) = [] := by
      rw [hpage, List.map_nil, eq_comm, List.take_eq_nil_iff] at hmap
      rcases hmap with hbatch | hnothing
      · cases hbatch
      · exact hnothing
    rw [hrows, hnothing] at hahead
    simpa using hahead
  | fetches page last hreturned hrows hpage hlast =>
    rw [hpage] at hmap
    have hlast' : last.id ∈ ((places.filter (run.after < ·)).take resealBatch).getLast? := by
      rw [← hmap, List.getLast?_map]
      exact Option.mem_map_of_mem _ hlast
    have hrest := filter_after_batch hsorted hlast'
    refine ⟨⟨fun _ => ?_, fun h => ?_⟩, ?_⟩
    · have hahead := hwalks.ahead hreturned
      rw [hrows] at hahead
      dsimp only
      rw [hmap, hrest, List.take_append_drop]
      simpa using hahead
    · rw [hreturned] at h
      cases h
    · have hlength := congrArg List.length hmap
      have hpositive : 0 < page.length := List.length_pos_of_mem (List.mem_of_getLast? hlast)
      rw [List.length_map, List.length_take] at hlength
      have hleft : ResealRun.left places { run with rows := page, after := last.id } =
          page.length + 2 * (places.filter (last.id < ·)).length + 1 :=
        ResealRun.left_of_working places hreturned
      rw [hleft, ResealRun.left_of_working places hreturned, hrest, hrows, List.length_drop,
        List.length_nil]
      omega
  | keeps row rows counts hreturned hrows hplan hcounts =>
    exact hwalks.pass hreturned hrows rfl rfl hreturned rfl
  | fails row rows thrown counts hreturned hrows hplan hcounts =>
    exact hwalks.pass hreturned hrows rfl rfl hreturned rfl
  | writes row rows config outcome counts hreturned hrows hplan hcounts =>
    exact hwalks.pass hreturned hrows rfl rfl hreturned rfl

end Walking

section Runs

variable {rows : List (ChannelConfigRow J)} {row row' : ChannelConfigRow J} {config : Value ν}
  {outcome : ResealOutcome} {sys : ResealSystem Instance J} {e : ResealEvent Instance}

/-- The seal that a step makes, if any, is one of the seals. -/
def ChannelConfigResealer.SealsIn (resealer : ChannelConfigResealer ν J) (seals : Set (Seal ν))
    (sys : ResealSystem Instance J) (e : ResealEvent Instance) : Prop :=
  ∀ row rows config outcome, (sys.runs e.who).returned = false →
    (sys.runs e.who).rows = row :: rows → resealer.plan row = .rewrite config outcome →
      resealer.sealOf row e.iv config ∈ seals

/-- What a call of `run` has read is what the rows were or are; what it has passed to `one` is
left alone, or failed as it was. -/
structure ResealRun.Sound (resealer : ChannelConfigResealer ν J) (rows : List (ChannelConfigRow J))
    (table : ChannelTable J) (run : ResealRun J) : Prop where
  batch : ∀ row ∈ run.rows, row ∈ rows ∨ row ∈ table.rows
  handled : ∀ row ∈ table.rows, row.id ∈ run.visited → resealer.plan row = .unchanged ∨
    ∃ thrown, resealer.plan row = .failed thrown ∧ (row.id, thrown) ∈ run.errors ∧ row ∈ rows
  counted : run.counts.failed = run.errors.length

omit [DecidableEq J] in
/-- What a row that was read has become. -/
theorem eq_or_unchanged
    (hideal : resealer.crypto.cipher.Ideal (Seal.call resealer.numbers '' seals))
    (htable : List.Forall₂ (resealer.Evolves seals) rows table.rows)
    (hread : row ∈ rows ∨ row ∈ table.rows) (hrow' : row' ∈ table.rows) (hid : row'.id = row.id) :
    row' = row ∨ resealer.plan row' = .unchanged := by
  rcases hread with hrow | hrow
  · exact (evolves_of_id_eq htable hrow hrow' hid).plan hideal
  · exact Or.inl (table.eq_of_id_eq hrow' hrow hid)

omit [DecidableEq J] in
/-- What is planned to be rewritten is as it was. -/
theorem mem_of_rewrite
    (hideal : resealer.crypto.cipher.Ideal (Seal.call resealer.numbers '' seals))
    (htable : List.Forall₂ (resealer.Evolves seals) rows table.rows)
    (hread : row ∈ rows ∨ row ∈ table.rows) (hplan : resealer.plan row = .rewrite config outcome) :
    row ∈ rows := by
  rcases hread with hrow | hrow
  · exact hrow
  · rcases mem_or_unchanged hideal htable hrow with hrow | hunchanged
    · exact hrow
    · rw [hunchanged] at hplan
      cases hplan

omit [DecidableEq J] in
/-- What is written is left alone. -/
theorem plan_written
    (hideal : resealer.crypto.cipher.Ideal (Seal.call resealer.numbers '' seals))
    (hplan : resealer.plan row = .rewrite config outcome)
    (hseal : resealer.sealOf row iv config ∈ seals) :
    resealer.plan ⟨row.id, resealer.written (resealer.sealOf row iv config)⟩ = .unchanged :=
  (ChannelConfigResealer.Rewritten.spec hideal ⟨iv, config, outcome, hplan, hseal, rfl⟩).2.1

/-- A write of one instance does not disturb another. -/
theorem ResealRun.Sound.write
    (hideal : resealer.crypto.cipher.Ideal (Seal.call resealer.numbers '' seals))
    (hsurvives : resealer.column.Survives row.config) (hrow : row ∈ rows)
    (hplan : resealer.plan row = .rewrite config outcome)
    (hseal : resealer.sealOf row iv config ∈ seals) (hsound : run.Sound resealer rows table) :
    run.Sound resealer rows (resealer.write row (resealer.sealOf row iv config) table) := by
  refine ⟨?_, ?_, hsound.counted⟩
  · intro row' hrow'
    by_cases hsame : row' = row
    · exact Or.inl (hsame ▸ hrow)
    · exact (hsound.batch row' hrow').imp_right fun hmem =>
        (mem_write_iff hsurvives).mpr (Or.inr ⟨hmem, hsame⟩)
  · intro row' hrow' hvisited
    rcases (mem_write_iff hsurvives).mp hrow' with ⟨-, rfl⟩ | ⟨hmem, -⟩
    · exact Or.inl (plan_written hideal hplan hseal)
    · exact hsound.handled row' hmem hvisited

/-- **One step of an instance** keeps what it has read and done sound. -/
theorem ResealRun.Sound.advance
    (hideal : resealer.crypto.cipher.Ideal (Seal.call resealer.numbers '' seals))
    (hsurvives : ∀ row ∈ rows, resealer.column.Survives row.config)
    (htable : List.Forall₂ (resealer.Evolves seals) rows table.rows)
    (hseals : ∀ row rows config outcome, run.returned = false → run.rows = row :: rows →
      resealer.plan row = .rewrite config outcome → resealer.sealOf row iv config ∈ seals)
    (hsound : run.Sound resealer rows table) (h : resealer.Advances iv table run table' run') :
    run'.Sound resealer rows table' := by
  cases h with
  | stays hreturned => exact hsound
  | ends hreturned hrows hpage => exact ⟨hsound.batch, hsound.handled, hsound.counted⟩
  | fetches page last hreturned hrows hpage hlast =>
    refine ⟨fun row hrow => ?_, hsound.handled, hsound.counted⟩
    rw [← hpage] at hrow
    exact Or.inr (mem_of_mem_pageAfter hrow)
  | keeps row others counts hreturned hrows hplan hcounts =>
    have hread := hsound.batch row (by rw [hrows]; exact List.mem_cons_self)
    refine ⟨fun row' hrow' => hsound.batch row' (by rw [hrows]; exact List.mem_cons_of_mem _ hrow'),
      fun row' hrow' hvisited => ?_, hcounts.trans hsound.counted⟩
    rcases List.mem_append.mp hvisited with hbefore | hnow
    · exact hsound.handled row' hrow' hbefore
    · rcases eq_or_unchanged hideal htable hread hrow' (List.mem_singleton.mp hnow) with
        rfl | hunchanged
      · exact Or.inl hplan
      · exact Or.inl hunchanged
  | fails row others thrown counts hreturned hrows hplan hcounts =>
    have hread := hsound.batch row (by rw [hrows]; exact List.mem_cons_self)
    refine ⟨fun row' hrow' => hsound.batch row' (by rw [hrows]; exact List.mem_cons_of_mem _ hrow'),
      fun row' hrow' hvisited => ?_, ?_⟩
    · rcases List.mem_append.mp hvisited with hbefore | hnow
      · refine (hsound.handled row' hrow' hbefore).imp_right ?_
        rintro ⟨thrown', hfailed, hlogged, hmem⟩
        exact ⟨thrown', hfailed, List.mem_append_left _ hlogged, hmem⟩
      · rcases eq_or_unchanged hideal htable hread hrow' (List.mem_singleton.mp hnow) with
          rfl | hunchanged
        · refine (mem_or_unchanged hideal htable hrow').symm.imp_right fun hmem => ?_
          exact ⟨thrown, hplan, List.mem_append_right _ (List.mem_singleton_self _), hmem⟩
        · exact Or.inl hunchanged
    · dsimp only
      rw [hcounts, hsound.counted, List.length_append, List.length_singleton]
  | writes row others config outcome counts hreturned hrows hplan hcounts =>
    have hread := hsound.batch row (by rw [hrows]; exact List.mem_cons_self)
    have hrow := mem_of_rewrite hideal htable hread hplan
    have hseal := hseals row others config outcome hreturned hrows hplan
    have hwritten := hsound.write hideal (hsurvives row hrow) hrow hplan hseal
    refine ⟨fun row' hrow' => hwritten.batch row'
      (by rw [hrows]; exact List.mem_cons_of_mem _ hrow'),
      fun row' hrow' hvisited => ?_, hcounts.trans hsound.counted⟩
    rcases List.mem_append.mp hvisited with hbefore | hnow
    · exact hwritten.handled row' hrow' hbefore
    · rcases (mem_write_iff (hsurvives row hrow)).mp hrow' with ⟨-, rfl⟩ | ⟨hmem, hne⟩
      · exact Or.inl (plan_written hideal hplan hseal)
      · rcases eq_or_unchanged hideal htable hread hmem (List.mem_singleton.mp hnow) with
          hsame | hunchanged
        · exact absurd hsame hne
        · exact Or.inl hunchanged

/-- The invariant of all instances together. -/
structure ResealSystem.Sound (resealer : ChannelConfigResealer ν J) (seals : Set (Seal ν))
    (rows : List (ChannelConfigRow J)) (sys : ResealSystem Instance J) : Prop where
  table : List.Forall₂ (resealer.Evolves seals) rows sys.table.rows
  runs : ∀ i, (sys.runs i).Sound resealer rows sys.table
  walks : ∀ i, (sys.runs i).Walks (placesOf ChannelConfigRow.id rows)

/-- A step leaves the table as it is, or writes a row that is planned to be rewritten. -/
theorem ChannelConfigResealer.Advances.table_cases
    (h : resealer.Advances iv table run table' run') :
    table' = table ∨ ∃ row others config outcome, run.returned = false ∧ run.rows = row :: others ∧
      resealer.plan row = .rewrite config outcome ∧
      table' = resealer.write row (resealer.sealOf row iv config) table := by
  cases h with
  | stays | ends | fetches | keeps | fails => exact Or.inl rfl
  | writes row others config outcome counts hreturned hrows hplan hcounts =>
    exact Or.inr ⟨row, others, config, outcome, hreturned, hrows, hplan, rfl⟩

omit [DecidableEq J] in
/-- The ids of a table do not change. -/
theorem map_id_of_evolves (htable : List.Forall₂ (resealer.Evolves seals) rows table.rows) :
    table.rows.map ChannelConfigRow.id = rows.map ChannelConfigRow.id := by
  generalize table.rows = rows' at htable
  induction htable with
  | nil => rfl
  | cons hhead _ ih => rw [List.map_cons, List.map_cons, hhead.id_eq, ih]

/-- **One step of the system.** -/
theorem ResealSystem.Sound.step
    (hideal : resealer.crypto.cipher.Ideal (Seal.call resealer.numbers '' seals))
    (hsurvives : ∀ row ∈ rows, resealer.column.Survives row.config)
    (hids : (rows.map ChannelConfigRow.id).Nodup) (hsound : sys.Sound resealer seals rows)
    (hseals : resealer.SealsIn seals sys e) :
    (resealer.step sys e).Sound resealer seals rows ∧
      ∀ i, ((resealer.step sys e).runs i).left (placesOf ChannelConfigRow.id rows) ≤
        (sys.runs i).left (placesOf ChannelConfigRow.id rows) - if e.who = i then 1 else 0 := by
  have hadvances := resealer.advances e.iv sys.table (sys.runs e.who)
  have hplaces : placesOf ChannelConfigRow.id sys.table.rows =
      placesOf ChannelConfigRow.id rows := by
    rw [placesOf, map_id_of_evolves hsound.table, ← placesOf]
  obtain ⟨hwalks, hleft⟩ := (hsound.walks e.who).advance (pairwise_placesOf hids) hplaces hadvances
  have hown := (hsound.runs e.who).advance hideal hsurvives hsound.table hseals hadvances
  have htable : List.Forall₂ (resealer.Evolves seals) rows (resealer.step sys e).table.rows ∧
      ∀ i, (sys.runs i).Sound resealer rows (resealer.step sys e).table := by
    rw [resealer.step_table]
    rcases hadvances.table_cases with hsame | ⟨row, others, config, outcome,
      hreturned, hrows, hplan,
      hwrite⟩
    · rw [hsame]
      exact ⟨hsound.table, hsound.runs⟩
    · have hread := (hsound.runs e.who).batch row (by rw [hrows]; exact List.mem_cons_self)
      have hrow := mem_of_rewrite hideal hsound.table hread hplan
      have hseal := hseals row others config outcome hreturned hrows hplan
      rw [hwrite]
      exact ⟨forall₂_write hideal (hsurvives row hrow) hsound.table hplan hseal,
        fun i => (hsound.runs i).write hideal (hsurvives row hrow) hrow hplan hseal⟩
  refine ⟨⟨htable.1, fun i => ?_, fun i => ?_⟩, fun i => ?_⟩
  · rw [resealer.step_runs]
    split
    · exact hown
    · exact htable.2 i
  · rw [resealer.step_runs]
    split
    · exact hwalks
    · exact hsound.walks i
  · rw [resealer.step_runs]
    by_cases hwho : i = e.who
    · rw [if_pos hwho, if_pos hwho.symm, hwho]
      exact hleft
    · rw [if_neg hwho, if_neg (Ne.symm hwho), Nat.sub_zero]

/-- **Every run of the system.** -/
theorem ResealSystem.Sound.along {es : List (ResealEvent Instance)}
    (hideal : resealer.crypto.cipher.Ideal (Seal.call resealer.numbers '' seals))
    (hsurvives : ∀ row ∈ rows, resealer.column.Survives row.config)
    (hids : (rows.map ChannelConfigRow.id).Nodup) (hsound : sys.Sound resealer seals rows)
    (hseals : Along resealer.step (resealer.SealsIn seals) sys es) (i : Instance) :
    (Transition.run resealer.step sys es).Sound resealer seals rows ∧
      ((Transition.run resealer.step sys es).runs i).left (placesOf ChannelConfigRow.id rows) ≤
        (sys.runs i).left (placesOf ChannelConfigRow.id rows) - es.countP (·.who = i) := by
  induction es generalizing sys with
  | nil => exact ⟨hsound, le_refl _⟩
  | cons e es ih =>
    obtain ⟨hnext, hleft⟩ := hsound.step hideal hsurvives hids hseals.1
    obtain ⟨hlast, hrest⟩ := ih hnext hseals.2
    refine ⟨hlast, hrest.trans ?_⟩
    rw [List.countP_cons]
    have hstep := hleft i
    simp only [decide_eq_true_eq]
    omega

/-- A run whose random bytes give these seals for the rows of the table makes no other. -/
theorem ResealSystem.Sound.along_sealsIn {es : List (ResealEvent Instance)}
    (hideal : resealer.crypto.cipher.Ideal (Seal.call resealer.numbers '' seals))
    (hsurvives : ∀ row ∈ rows, resealer.column.Survives row.config)
    (hids : (rows.map ChannelConfigRow.id).Nodup) (hsound : sys.Sound resealer seals rows)
    (hseals : ∀ e ∈ es, ∀ row ∈ rows, ∀ config outcome,
      resealer.plan row = .rewrite config outcome → resealer.sealOf row e.iv config ∈ seals) :
    Along resealer.step (resealer.SealsIn seals) sys es := by
  induction es generalizing sys with
  | nil => trivial
  | cons e es ih =>
    have hin : resealer.SealsIn seals sys e := by
      intro row others config outcome _ hrows hplan
      have hread := (hsound.runs e.who).batch row (by rw [hrows]; exact List.mem_cons_self)
      exact hseals e List.mem_cons_self row (mem_of_rewrite hideal hsound.table hread hplan) config
        outcome hplan
    exact ⟨hin, ih (hsound.step hideal hsurvives hids hin).1 fun e' he' =>
      hseals e' (List.mem_cons_of_mem _ he')⟩

omit [DecidableEq J] [DecidableEq Instance] in
/-- Every instance calls `run` on a table where no row has the id from which a walk sets out. -/
theorem ResealSystem.sound_start (hnil : ∀ row ∈ table.rows, row.id ≠ 0) :
    (ResealSystem.start Instance table).Sound resealer seals table.rows := by
  refine ⟨List.forall₂_same.mpr fun row _ => Or.inl rfl, fun i => ⟨?_, ?_, rfl⟩, fun i =>
    ⟨fun _ => ?_, ?_⟩⟩
  · exact fun row hrow => absurd hrow List.not_mem_nil
  · exact fun row _ hvisited => absurd hvisited List.not_mem_nil
  · have hall : (placesOf ChannelConfigRow.id table.rows).filter (0 < ·) =
        placesOf ChannelConfigRow.id table.rows := by
      refine List.filter_eq_self.mpr fun id hid => ?_
      obtain ⟨row, hrow, rfl⟩ := mem_placesOf.mp hid
      exact decide_eq_true (Nat.pos_of_ne_zero (hnil row hrow))
    exact hall
  · intro hreturned
    cases hreturned

/-- What is in a batch was there before, or is in the table. -/
theorem ChannelConfigResealer.Advances.mem_rows (h : resealer.Advances iv table run table' run')
    (hrow : row ∈ run'.rows) : row ∈ run.rows ∨ row ∈ table.rows := by
  cases h with
  | stays => exact Or.inl hrow
  | ends => exact Or.inl hrow
  | fetches page last hreturned hrows hpage hlast =>
    rw [← hpage] at hrow
    exact Or.inr (mem_of_mem_pageAfter hrow)
  | keeps row' others counts hreturned hrows | fails row' others thrown counts hreturned hrows
  | writes row' others config outcome counts hreturned hrows =>
    rw [hrows]
    exact Or.inl (List.mem_cons_of_mem _ hrow)

/-- What is not there any more is not written. -/
theorem write_of_not_mem (hsurvives : resealer.column.Survives row.config)
    (hrow : row ∉ table.rows) (s : Seal ν) : resealer.write row s table = table := by
  apply Table.eq_of_rows_eq
  rw [ChannelConfigResealer.write, Table.update_rows]
  conv_rhs => rw [← List.map_id table.rows]
  refine List.map_congr_left fun row' hrow' => if_neg fun hstill => hrow ?_
  rw [← (stillAsRead_iff hsurvives).mp hstill]
  exact hrow'

/-- Where no row is planned to be rewritten, nothing is, whatever was read before. -/
theorem ResealSystem.table_run_of_settled {es : List (ResealEvent Instance)}
    (hread : ∀ i, ∀ row ∈ (sys.runs i).rows, resealer.column.Survives row.config)
    (hsurvives : ∀ row ∈ sys.table.rows, resealer.column.Survives row.config)
    (hsettled : ∀ row ∈ sys.table.rows, ∀ config outcome,
      resealer.plan row ≠ .rewrite config outcome) :
    (Transition.run resealer.step sys es).table = sys.table := by
  induction es generalizing sys with
  | nil => rfl
  | cons e es ih =>
    have hadvances := resealer.advances e.iv sys.table (sys.runs e.who)
    have hsame : (resealer.step sys e).table = sys.table := by
      rcases hadvances.table_cases with hsame | ⟨row, others, config, outcome, -, hrows,
        hplan, hwrite⟩
      · exact hsame
      · refine hwrite.trans (write_of_not_mem ?_ (fun hrow => ?_) _)
        · exact hread e.who row (by rw [hrows]; exact List.mem_cons_self)
        · exact hsettled row hrow config outcome hplan
    have hruns : ∀ i, ∀ row ∈ ((resealer.step sys e).runs i).rows,
        resealer.column.Survives row.config := by
      intro i row hrow
      rw [resealer.step_runs] at hrow
      split at hrow
      · rcases hadvances.mem_rows hrow with hbefore | hfetched
        · exact hread e.who row hbefore
        · exact hsurvives row hfetched
      · exact hread i row hrow
    have hrest := ih hruns (by rw [hsame]; exact hsurvives) (by rw [hsame]; exact hsettled)
    exact hrest.trans hsame

end Runs

omit [DecidableEq J] [DecidableEq Instance] in
theorem ResealSystem.Sound.survives {sys : ResealSystem Instance J}
    {rows : List (ChannelConfigRow J)} (hsound : sys.Sound resealer seals rows)
    (hideal : resealer.crypto.cipher.Ideal (Seal.call resealer.numbers '' seals))
    (hsurvives : ∀ row ∈ rows, resealer.column.Survives row.config) :
    ∀ row ∈ sys.table.rows, resealer.column.Survives row.config :=
  survives_of_evolves hideal hsurvives hsound.table

omit [DecidableEq J] [DecidableEq Instance] in
/-- A call that has returned handled every row of the table. -/
theorem ResealSystem.Sound.handled_of_returned {sys : ResealSystem Instance J}
    {rows : List (ChannelConfigRow J)} (hsound : sys.Sound resealer seals rows) {i : Instance}
    (hreturned : (sys.runs i).returned = true) :
    ∀ row ∈ sys.table.rows, resealer.plan row = .unchanged ∨
      ∃ thrown, resealer.plan row = .failed thrown ∧ (row.id, thrown) ∈ (sys.runs i).errors ∧
        row ∈ rows := by
  intro row hrow
  refine (hsound.runs i).handled row hrow ?_
  rw [(hsound.walks i).behind hreturned, placesOf, List.mem_insertionSort,
    ← map_id_of_evolves hsound.table]
  exact List.mem_map_of_mem hrow

/-- After a call that has returned no call rewrites anything, whatever the others go on to do. -/
theorem ResealSystem.Sound.table_rerun {sys : ResealSystem Instance J}
    {rows : List (ChannelConfigRow J)} (hsound : sys.Sound resealer seals rows)
    (hideal : resealer.crypto.cipher.Ideal (Seal.call resealer.numbers '' seals))
    (hsurvives : ∀ row ∈ rows, resealer.column.Survives row.config) {i : Instance}
    (hreturned : (sys.runs i).returned = true) (es : List (ResealEvent Instance)) :
    (Transition.run resealer.step ⟨sys.table, Function.update sys.runs i (ResealRun.start J)⟩
      es).table = sys.table := by
  refine ResealSystem.table_run_of_settled ?_ (hsound.survives hideal hsurvives) ?_
  · intro i' row hrow
    dsimp only at hrow
    rw [Function.update_apply] at hrow
    split at hrow
    · cases hrow
    · rcases (hsound.runs i').batch row hrow with hmem | hmem
      · exact hsurvives row hmem
      · exact hsound.survives hideal hsurvives row hmem
  · intro row hrow config outcome hplan
    rcases hsound.handled_of_returned hreturned row hrow with hunchanged | ⟨thrown, hfailed, -⟩
    · rw [hunchanged] at hplan
      cases hplan
    · rw [hfailed] at hplan
      cases hplan

omit [DecidableEq J] [DecidableEq Instance] in
/-- The steps that a call has before it at the start. -/
theorem ResealSystem.left_start_le (table : ChannelTable J) (i : Instance) :
    ((ResealSystem.start Instance table).runs i).left
      (placesOf ChannelConfigRow.id table.rows) ≤ 2 * table.rows.length + 1 := by
  have hlength : (placesOf ChannelConfigRow.id table.rows).length = table.rows.length := by
    rw [placesOf, List.length_insertionSort, List.length_map]
  have hfilter : ((placesOf ChannelConfigRow.id table.rows).filter
      (((ResealSystem.start Instance table).runs i).after < ·)).length ≤ _ :=
    List.length_filter_le _ _
  have hrows : ((ResealSystem.start Instance table).runs i).rows.length = 0 := rfl
  rw [ResealRun.left_of_working _ rfl]
  omega

/-- **Resealing never loses a configuration.** Whatever the instances do in whatever order, each
row opens at every moment to what it opened to; once a call of `run` has returned, every row is
sealed under the current key, or opens with neither key, was counted as failed and is as it was;
a further call rewrites nothing whatever the others go on to do, and every row was passed to
`one` exactly once; and a call returns after at most two steps for each row and one more. -/
theorem resealer_law
    (table : ChannelTable J) (hnil : ∀ row ∈ table.rows, row.id ≠ 0)
    (hsurvives : ∀ row ∈ table.rows, resealer.column.Survives row.config)
    (hideal : resealer.crypto.cipher.Ideal (Seal.call resealer.numbers '' seals))
    (es : List (ResealEvent Instance))
    (hseals : Along resealer.step (resealer.SealsIn seals) (ResealSystem.start Instance table) es) :
    Throughout resealer.step
      (fun sys => List.Forall₂ (fun row row' => row'.id = row.id ∧
        ∀ config, resealer.OpensTo row' config ↔ resealer.OpensTo row config)
          table.rows sys.table.rows)
      (ResealSystem.start Instance table) es ∧
    (∀ i, ((Transition.run resealer.step (.start Instance table) es).runs i).returned = true →
      let sys := Transition.run resealer.step (.start Instance table) es
      (∀ row ∈ sys.table.rows, resealer.SealedUnderCurrent row ∨
        ((∃ thrown, (row.id, thrown) ∈ (sys.runs i).errors) ∧ row ∈ table.rows ∧
          ∀ config, ¬ resealer.OpensTo row config)) ∧
      (sys.runs i).counts.failed = (sys.runs i).errors.length ∧
      (∀ es', (Transition.run resealer.step
        ⟨sys.table, Function.update sys.runs i (ResealRun.start J)⟩ es').table = sys.table) ∧
      (sys.runs i).visited.Perm (table.rows.map ChannelConfigRow.id)) ∧
    ∀ i, 2 * table.rows.length + 1 ≤ es.countP (·.who = i) →
      ((Transition.run resealer.step (.start Instance table) es).runs i).returned = true := by
  have hids : (table.rows.map ChannelConfigRow.id).Nodup := List.pairwise_map.mpr table.distinct
  have hstart : (ResealSystem.start Instance table).Sound resealer seals table.rows :=
    ResealSystem.sound_start hnil
  have hthroughout : Throughout resealer.step (fun sys => sys.Sound resealer seals table.rows)
      (ResealSystem.start Instance table) es :=
    throughout_of_step (fun sys e hsound hin => (hsound.step hideal hsurvives hids hin).1) hstart
      hseals
  refine ⟨?_, ?_, ?_⟩
  · refine hthroughout.mono fun sys hsound => hsound.table.imp fun row row' hevolves => ?_
    refine ⟨hevolves.id_eq, fun config => ?_⟩
    rcases hevolves with rfl | hrewritten
    · exact Iff.rfl
    · exact (hrewritten.spec hideal).2.2 config
  · intro i hreturned sys
    have hsound : sys.Sound resealer seals table.rows := hthroughout.last
    refine ⟨fun row hrow => ?_, (hsound.runs i).counted,
      fun es' => hsound.table_rerun hideal hsurvives hreturned es', ?_⟩
    · refine (hsound.handled_of_returned hreturned row hrow).imp
        resealer.sealedUnderCurrent_of_unchanged ?_
      rintro ⟨thrown, hfailed, hlogged, hmem⟩
      exact ⟨⟨thrown, hlogged⟩, hmem, resealer.not_opensTo_of_failed hfailed⟩
    · rw [(hsound.walks i).behind hreturned]
      exact List.perm_insertionSort _ _
  · intro i hmany
    have hleft := (hstart.along hideal hsurvives hids hseals i).2
    have hfirst := ResealSystem.left_start_le table i
    by_contra hworking
    rw [ResealRun.left_of_working _ (by simpa using hworking)] at hleft
    omega

section Example

/-- A column that keeps the text of a value. -/
def textColumn : JsonColumn digitFormat (List Char) where
  cast text := ((Json.read digitFormat text).map (Json.print digitFormat)).getD []
  read stored := (Json.read digitFormat stored).getD .null
  read_cast_sealed := by
    intro text _
    simp [Json.read_print]

/-- `{"to":"ops@a.test"}`. -/
def mailConfig : Value (Fin 10) :=
  .object [(Json.units "to".toList, .string (Json.units "ops@a.test".toList))]

/-- The ids of four channels. -/
def webhookId : Uuid := 0x2b6a7d2e3d7e4a7c9c0e8f4b5f0f6a11
def mailId : Uuid := 0x5c1d0f6e8a424d198f7e3b9a6c2d4e05
def copiedId : Uuid := 0x7d03a9c2b15e4f60a8d4c6e1907b2f38
def settledId : Uuid := 0x9e5b41f70c2d4a8eb36f12d8e4a70c59

/-- A seal that was made before the key has changed. -/
def earlierSeal : Seal (Fin 10) :=
  ⟨⟨List.replicate 32 9⟩, List.replicate 12 2, uuidText mailId, mailConfig⟩

/-- A seal that was made since. -/
def settledSeal : Seal (Fin 10) :=
  ⟨webhookSeal.vault, List.replicate 12 5, uuidText settledId, mailConfig⟩

/-- The two configurations that are not yet under the key, with these random bytes. -/
def sealsWith (b : UInt8) : List (Seal (Fin 10)) :=
  [⟨webhookSeal.vault, List.replicate 12 b, uuidText webhookId, webhookSeal.config⟩,
    ⟨webhookSeal.vault, List.replicate 12 b, uuidText mailId, mailConfig⟩]

/-- All these seals. -/
def resealSeals : List (Seal (Fin 10)) :=
  [earlierSeal, settledSeal] ++ sealsWith 1 ++ sealsWith 3 ++ sealsWith 4

/-- What `aes-256-gcm` gives for them. -/
def resealOutputs : List (Bytes × Bytes) :=
  [([129, 54, 146, 27, 124, 120, 178, 43, 159, 144, 91, 81, 248, 239, 31, 92, 72, 19, 88], [214,
      53, 178, 77, 71, 33, 89, 109, 67, 132, 183, 173, 12, 210, 186, 83]),
    ([153, 211, 243, 71, 243, 167, 93, 92, 144, 4, 29, 17, 171, 25, 236, 199, 35, 100, 117], [195,
      130, 45, 161, 68, 138, 154, 32, 77, 56, 68, 36, 204, 143, 40, 84]),
    ([13, 195, 252, 197, 252, 157, 214, 44, 185, 160, 168, 81, 3, 13, 95, 30, 201, 213, 96, 145,
      107, 227, 25, 63, 122, 67, 38, 22, 20, 221, 83, 200, 224, 136, 59, 205], [9, 234, 106, 185,
      86, 218, 230, 248, 3, 68, 69, 234, 61, 202, 244, 35]),
    ([13, 195, 253, 216, 178, 133, 206, 97, 161, 167, 156, 64, 94, 67, 21, 66, 220, 217, 105],
      [92, 42, 133, 219, 183, 234, 186, 234, 67, 244, 57, 33, 133, 82, 233, 108]),
    ([94, 220, 214, 113, 54, 10, 100, 96, 18, 52, 55, 44, 152, 109, 208, 35, 140, 18, 148, 138,
      199, 225, 182, 92, 13, 172, 226, 197, 145, 140, 37, 203, 147, 157, 78, 95], [0, 45, 140, 156,
      108, 2, 2, 183, 196, 167, 13, 15, 91, 134, 60, 94]),
    ([94, 220, 215, 108, 120, 18, 124, 45, 10, 51, 3, 61, 197, 35, 154, 127, 153, 30, 157], [214,
      247, 230, 86, 255, 123, 8, 162, 90, 96, 74, 223, 184, 12, 122, 217]),
    ([46, 17, 93, 186, 10, 203, 65, 42, 96, 214, 217, 190, 126, 75, 252, 82, 99, 153, 190, 38, 86,
      230, 153, 37, 109, 228, 23, 49, 185, 21, 24, 49, 9, 146, 6, 220], [136, 202, 212, 76, 154, 95,
      178, 44, 243, 116, 219, 35, 94, 146, 110, 217]),
    ([46, 17, 92, 167, 68, 211, 89, 103, 120, 209, 237, 175, 35, 5, 182, 14, 118, 149, 183], [181,
      91, 181, 174, 24, 240, 26, 11, 223, 89, 225, 159, 216, 213, 183, 204])]

/-- The resealer of a server whose key has changed. -/
def webhookResealer : ChannelConfigResealer (Fin 10) (List Char) where
  crypto :=
    { cipher := cipherOf ((resealSeals.map (Seal.call digitFormat)).zip resealOutputs)
      sha256 := fun key => if key = earlierSeal.vault.key then
          [140, 12, 193, 122, 4, 148, 44, 196, 248, 224, 254, 11, 48, 38, 6, 211, 16, 136, 96, 193,
            38, 66, 139, 162, 206, 235, 95, 158, 212, 28, 43, 5]
        else webhookCrypto.sha256 key
      hkdfSync := fun secret _ _ _ =>
        if secret = "the key before" then earlierSeal.vault.key else webhookSeal.vault.key }
  numbers := digitFormat
  column := textColumn
  vault := webhookSeal.vault
  previous := some earlierSeal.vault

/-- A row that holds a seal. -/
def sealedRow (id : Uuid) (s : Seal (Fin 10)) : ChannelConfigRow (List Char) where
  id := id
  config := Json.print digitFormat (s.stored webhookResealer.crypto digitFormat)

/-- A channel that was never sealed, one that was sealed under the key before, one whose seal was
copied from there, and one that is sealed under the current key. -/
def webhookTable : ChannelTable (List Char) where
  rows := [sealedRow settledId settledSeal, sealedRow mailId earlierSeal,
    ⟨webhookId, Json.print digitFormat webhookSeal.config⟩, sealedRow copiedId earlierSeal]
  distinct := by
    have hids : [settledId, mailId, webhookId, copiedId].Nodup := by decide
    exact List.Pairwise.of_map ChannelConfigRow.id (fun _ _ hne => hne) hids

/-- An instance seals the first channel, then another reads the table; both reseal the second
channel as they have read it, and go on to their ends. -/
def webhookRuns : List (ResealEvent Bool) :=
  [⟨false, List.replicate 12 1⟩, ⟨false, List.replicate 12 1⟩, ⟨true, List.replicate 12 4⟩,
    ⟨false, List.replicate 12 3⟩, ⟨true, List.replicate 12 4⟩, ⟨true, List.replicate 12 4⟩] ++
  List.replicate 6 ⟨false, List.replicate 12 3⟩ ++ List.replicate 6 ⟨true, List.replicate 12 4⟩

theorem ideal_resealSeals : webhookResealer.crypto.cipher.Ideal
    (Seal.call webhookResealer.numbers '' {s | s ∈ resealSeals}) := by
  have hcalls : Seal.call digitFormat '' {s | s ∈ resealSeals} =
      {call | call ∈ resealSeals.map (Seal.call digitFormat)} := by
    ext call
    simp
  have hideal := ideal_cipherOf (resealSeals.map (Seal.call digitFormat)) resealOutputs rfl
    (by decide +kernel) (by decide +kernel)
  rw [← hcalls] at hideal
  exact hideal

theorem read_printed (value : Value (Fin 10)) :
    webhookResealer.column.read (Json.print digitFormat value) = value := by
  simp [webhookResealer, textColumn, Json.read_print]

/-- What a sealed row is rewritten to is what was sealed, for the same channel. -/
theorem eq_of_rewrite_sealedRow {id : Uuid} {s : Seal (Fin 10)} (hs : s ∈ resealSeals)
    {config : Value (Fin 10)} {outcome : ResealOutcome}
    (hplan : webhookResealer.plan (sealedRow id s) = .rewrite config outcome) :
    uuidText id = s.channelId ∧ s.vault ≠ webhookResealer.vault ∧ config = s.config := by
  have hread : webhookResealer.column.read (sealedRow id s).config =
      s.stored webhookResealer.crypto webhookResealer.numbers := read_printed _
  have hopens : ∀ (vault : ChannelConfigVault) opened, vault.openConfig webhookResealer.crypto
      webhookResealer.numbers (uuidText id) (webhookResealer.column.read (sealedRow id s).config) =
        .ok opened ↔ (uuidText id = s.channelId ∧ vault = s.vault) ∧ opened = s.config := by
    intro vault opened
    rw [hread]
    exact openConfig_stored_iff ideal_resealSeals hs
  obtain ⟨vault, -, hopen⟩ := (ChannelConfigResealer.opensTo_of_rewrite hplan config).mpr rfl
  obtain ⟨⟨hchannel, -⟩, hconfig⟩ := (hopens vault config).mp hopen
  refine ⟨hchannel, fun hvault => ?_, hconfig⟩
  have hsettled : webhookResealer.SealedUnderCurrent (sealedRow id s) := by
    refine ⟨?_, s.config, (hopens _ _).mpr ⟨⟨hchannel, hvault.symm⟩, rfl⟩⟩
    rw [hread, Seal.stored_eq]
    exact congrArg Option.isSome (sealed?_sealedConfig _)
  rw [hsettled.unchanged] at hplan
  cases hplan

/-- Whatever is rewritten in a run on the table, its seal is one of these. -/
theorem sealOf_mem_resealSeals {b : UInt8} (hb : b ∈ ([1, 3, 4] : List UInt8))
    {row : ChannelConfigRow (List Char)} (hrow : row ∈ webhookTable.rows) {config : Value (Fin 10)}
    {outcome : ResealOutcome} (hplan : webhookResealer.plan row = .rewrite config outcome) :
    webhookResealer.sealOf row (List.replicate 12 b) config ∈ resealSeals := by
  have hseals : ∀ s ∈ sealsWith b, s ∈ resealSeals := by
    intro s hs
    simp only [List.mem_cons, List.not_mem_nil, or_false] at hb
    unfold resealSeals
    rcases hb with rfl | rfl | rfl <;> simp [hs]
  simp only [webhookTable, List.mem_cons, List.not_mem_nil, or_false] at hrow
  rcases hrow with rfl | rfl | rfl | rfl
  · obtain ⟨-, hvault, -⟩ := eq_of_rewrite_sealedRow (by simp [resealSeals]) hplan
    exact absurd rfl hvault
  · obtain ⟨-, -, rfl⟩ := eq_of_rewrite_sealedRow (by simp [resealSeals]) hplan
    exact hseals _ (List.mem_cons_of_mem _ List.mem_cons_self)
  · have hread := read_printed webhookSeal.config
    have hplain : ChannelConfigVault.isSealed (webhookResealer.column.read
        (Json.print digitFormat webhookSeal.config)) = false := by
      rw [hread]
      decide
    obtain ⟨vault, -, hopen⟩ := (ChannelConfigResealer.opensTo_of_rewrite hplan config).mpr rfl
    obtain rfl : webhookSeal.config = config :=
      hread.symm.trans (Except.ok.inj ((openConfig_of_not_isSealed hplain).symm.trans hopen))
    exact hseals _ List.mem_cons_self
  · obtain ⟨hchannel, -, -⟩ := eq_of_rewrite_sealedRow (by simp [resealSeals]) hplan
    exact absurd hchannel (by decide +kernel)

/-- Both instances have returned, and what is not under the current key opens with neither. -/
theorem resealer_law_webhook :
    let sys := Transition.run webhookResealer.step (.start Bool webhookTable) webhookRuns
    (sys.runs false).returned = true ∧ (sys.runs true).returned = true ∧
      ∀ row ∈ sys.table.rows, webhookResealer.SealedUnderCurrent row ∨
        (row ∈ webhookTable.rows ∧ ∀ config, ¬ webhookResealer.OpensTo row config) := by
  have hnil : ∀ row ∈ webhookTable.rows, row.id ≠ 0 := by decide
  have hsurvives : ∀ row ∈ webhookTable.rows, webhookResealer.column.Survives row.config := by
    have hprinted : ∀ value, webhookResealer.column.Survives (Json.print digitFormat value) := by
      intro value
      unfold JsonColumn.Survives
      rw [read_printed]
      simp [webhookResealer, textColumn, Json.read_print]
    simp only [webhookTable, List.forall_mem_cons, List.not_mem_nil, false_implies, implies_true,
      and_true]
    exact ⟨hprinted _, hprinted _, hprinted _, hprinted _⟩
  have hseals : Along webhookResealer.step (webhookResealer.SealsIn {s | s ∈ resealSeals})
      (.start Bool webhookTable) webhookRuns := by
    refine (ResealSystem.sound_start hnil).along_sealsIn ideal_resealSeals hsurvives
      (by decide) fun e he row hrow config outcome hplan => ?_
    have hbytes : ∃ b ∈ ([1, 3, 4] : List UInt8), e.iv = List.replicate 12 b := by
      revert e
      decide
    obtain ⟨b, hb, hiv⟩ := hbytes
    rw [hiv]
    exact sealOf_mem_resealSeals hb hrow hplan
  obtain ⟨-, hafter, hreturns⟩ :=
    resealer_law webhookTable hnil hsurvives ideal_resealSeals webhookRuns hseals
  have hreturned := hreturns false (by decide)
  refine ⟨hreturned, hreturns true (by decide), fun row hrow => ?_⟩
  exact ((hafter false hreturned).1 row hrow).imp_right fun h => h.2

end Example

end SilenceWatch
