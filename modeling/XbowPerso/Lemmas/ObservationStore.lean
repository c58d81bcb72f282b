import XbowPerso.Lemmas.ObservationGraph
import XbowPerso.Lemmas.QueueLifecycle

/-!
# The store of observations and its graphs

Whatever is put, the rows of a campaign have distinct identifiers and each comes after its parents. So its records are rebuilt into
one graph from every order of them.
-/

namespace XbowPerso

/-- Rows with distinct identifiers, each after its parents. -/
structure Observations.Valid (rows : Observations) : Prop where
  nodup : (rows.map ObservationRow.id).Nodup
  parents : ∀ before row after, rows = before ++ row :: after → ∀ p ∈ row.parentIds, p ∈ before.map ObservationRow.id

namespace Observations.Valid

variable {rows : Observations}

theorem nil : Observations.Valid [] where
  nodup := List.nodup_nil
  parents before row after h := by simp at h

/-- A new row after its parents keeps the rows valid. -/
theorem concat (h : rows.Valid) {row : ObservationRow} (hnew : row.id ∉ rows.map ObservationRow.id)
    (hparents : ∀ p ∈ row.parentIds, p ∈ rows.map ObservationRow.id) : Observations.Valid (rows ++ [row]) where
  nodup := by
    rw [List.map_append, List.nodup_append]
    refine ⟨h.nodup, List.nodup_singleton _, ?_⟩
    intro a ha b hb hab
    rw [List.mem_singleton.mp hb] at hab
    exact hnew (hab ▸ ha)
  parents := by
    intro before r after hsplit
    rcases List.eq_nil_or_concat after with rfl | ⟨after', last, rfl⟩
    · obtain ⟨rfl, hlast⟩ := List.append_inj' hsplit rfl
      cases hlast
      exact hparents
    · have hsplit' : rows ++ [row] = (before ++ r :: after') ++ [last] := by
        rw [hsplit, List.concat_eq_append, List.append_assoc, List.cons_append]
      exact h.parents before r after' (List.append_inj' hsplit' rfl).1

/-- The records of valid rows are rooted, under distinct identifiers. -/
theorem rooted (h : rows.Valid) : ObservationGraph.Rooted (rows.map ObservationRow.toObservation) := by
  intro before o after hsplit p hp
  obtain ⟨rows₁, rest, rfl, rfl, hrest⟩ := List.map_eq_append_iff.mp hsplit
  obtain ⟨row, rows₂, rfl, rfl, rfl⟩ := List.map_eq_cons_iff.mp hrest
  obtain ⟨parent, hparent, rfl⟩ := List.mem_map.mp hp
  obtain ⟨r, hr, rfl⟩ := List.mem_map.mp (h.parents rows₁ row rows₂ rfl parent hparent)
  rw [List.map_map]
  exact List.mem_map.mpr ⟨r, hr, rfl⟩

theorem nodup_records (h : rows.Valid) : ((rows.map ObservationRow.toObservation).map Observation.id).Nodup := by
  have hids : (rows.map ObservationRow.toObservation).map Observation.id = (rows.map ObservationRow.id).map Ident.text := by
    rw [List.map_map, List.map_map]
    rfl
  rw [hids]
  exact h.nodup.map Ident.text_injective

end Observations.Valid

namespace ObservationStore

variable {cfg : ObservationSettings} {store : ObservationStore}

/-- Every campaign's rows are valid. -/
def Valid (store : ObservationStore) : Prop := ∀ campaign rows, store campaign = some rows → rows.Valid

theorem Valid.step (cfg : ObservationSettings) (h : Valid store) (call : Put) : Valid (step cfg store call) := by
  rcases step_cases cfg store call with heq | ⟨campaign, rows, row, hrows, hnew, hparents, heq⟩
  · rw [heq]
    exact h
  · rw [heq]
    intro c rows' hc
    dsimp only at hc
    split at hc
    · cases hc
      exact (h campaign rows hrows).concat hnew hparents
    · exact h c rows' hc

/-- A call keeps the rows of every campaign, at the front. -/
theorem keeps_step (cfg : ObservationSettings) (call : Put) {campaign : Ident} {rows : Observations} (h : store campaign = some rows) :
    ∃ rows', step cfg store call campaign = some rows' ∧ rows <+: rows' := by
  rcases step_cases cfg store call with heq | ⟨c, rows₁, row, hrows, -, -, heq⟩
  · exact ⟨rows, by rw [heq]; exact h, List.prefix_rfl⟩
  · rw [heq]
    dsimp only
    split
    · rename_i hcampaign
      rw [← hcampaign, h] at hrows
      cases hrows
      exact ⟨_, rfl, List.prefix_append _ _⟩
    · exact ⟨rows, h, List.prefix_rfl⟩

theorem Valid.run (cfg : ObservationSettings) (h : Valid store) (calls : List Put) : Valid (run cfg store calls) := by
  induction calls generalizing store with
  | nil => exact h
  | cons call calls ih => exact ih (Valid.step cfg h call)

theorem keeps_run (calls : List Put) {campaign : Ident} {rows : Observations} (h : store campaign = some rows) :
    ∃ rows', run cfg store calls campaign = some rows' ∧ rows <+: rows' := by
  induction calls generalizing store rows with
  | nil => exact ⟨rows, h, List.prefix_rfl⟩
  | cons call calls ih =>
    obtain ⟨rows₁, hstep, hrows₁⟩ := keeps_step cfg call h
    obtain ⟨rows₂, hrun, hrows₂⟩ := ih hstep
    exact ⟨rows₂, hrun, hrows₁.trans hrows₂⟩

/-- Putting what is stored changes nothing. -/
theorem step_of_stored {campaign : Ident} {rows : Observations} {row : ObservationRow} (hrows : store campaign = some rows)
    (hrow : row ∈ rows) {call : Put} (hid : storageIdentifier call.campaignId "campaign_id" = .ok campaign)
    (hprepare : call.observation.prepare cfg = .ok row) : step cfg store call = store := by
  unfold step putObservation
  rw [hid, hprepare]
  dsimp only
  rw [hrows]
  dsimp only
  cases hi : Observations.insert rows row with
  | error e => rfl
  | ok rows' =>
    rcases Observations.insert_cases hi with ⟨-, hnew, -⟩ | ⟨rfl, -⟩
    · exact absurd (List.mem_map.mpr ⟨row, hrow, rfl⟩) hnew
    · refine funext fun c => ?_
      dsimp only
      split
      · rename_i heq
        rw [heq, hrows]
      · rfl

/-- The rows of a campaign, in whatever order, make one graph. -/
theorem fromRecords_of_valid {rows : Observations} (h : rows.Valid) {records : List Observation}
    (hperm : records.Perm (rows.map ObservationRow.toObservation)) :
    ∃ graph, ObservationGraph.fromRecords records = .ok graph ∧
      ∀ id o, graph.items.get? id = some o ↔ o ∈ rows.map ObservationRow.toObservation ∧ o.id = id := by
  obtain ⟨graph, hgraph, hvalues⟩ := ObservationGraph.fromRecords_perm h.nodup_records h.rooted hperm
  refine ⟨graph, hgraph, fun id o => ?_⟩
  rw [← hvalues.mem_iff]
  constructor
  · exact ObservationGraph.id_mem_of_get?
  · rintro ⟨ho, rfl⟩
    exact ObservationGraph.mem_values.mp ho

/-- From campaigns without observations on: rows are never changed, their identifiers are distinct, their parents come before them,
putting a stored one again changes nothing, and every order of them is rebuilt into the same graph. -/
theorem observations_of_run (cfg : ObservationSettings) (store : ObservationStore)
    (hempty : ∀ campaign rows, store campaign = some rows → rows = []) (calls : List Put) (campaign : Ident) (rows : Observations)
    (hrows : run cfg store calls campaign = some rows) :
    (∀ later, ∃ rows', run cfg store (calls ++ later) campaign = some rows' ∧ rows <+: rows') ∧
      (rows.map ObservationRow.id).Nodup ∧
      (∀ before row after, rows = before ++ row :: after → ∀ p ∈ row.parentIds, p ∈ before.map ObservationRow.id) ∧
      (∀ row ∈ rows, ∀ call : Put, storageIdentifier call.campaignId "campaign_id" = .ok campaign →
        call.observation.prepare cfg = .ok row → step cfg (run cfg store calls) call = run cfg store calls) ∧
      ∀ records, records.Perm (rows.map ObservationRow.toObservation) →
        ∃ graph, ObservationGraph.fromRecords records = .ok graph ∧
          ∀ id o, graph.items.get? id = some o ↔ o ∈ rows.map ObservationRow.toObservation ∧ o.id = id := by
  have hinit : Valid store := by
    intro c rows' hc
    rw [hempty c rows' hc]
    exact .nil
  have hvalid := Valid.run cfg hinit calls campaign rows hrows
  refine ⟨fun later => ?_, hvalid.nodup, hvalid.parents, fun row hrow call hid hprepare => step_of_stored hrows hrow hid hprepare,
    fun records hperm => fromRecords_of_valid hvalid hperm⟩
  have happend : run cfg store (calls ++ later) = run cfg (run cfg store calls) later := List.foldl_append
  rw [happend]
  exact keeps_run later hrows

/-! ## A campaign with a finding and its evidence -/

def sampleStore : ObservationStore := fun c => if c = SqliteQueue.sampleCampaign then some [] else none

def samplePuts : List Put :=
  [⟨"campaign-1", ⟨"finding:f1", "finding", "sqli", "scanner", [], []⟩⟩,
    ⟨"campaign-1", ⟨"evidence:f1", "evidence", "response", "scanner", ["finding:f1"], []⟩⟩]

theorem sampleStore_empty (campaign : Ident) (rows : Observations) (h : sampleStore campaign = some rows) : rows = [] := by
  unfold sampleStore at h
  split at h
  · exact (Option.some.inj h).symm
  · cases h

theorem observations_of_run_sample : ∃ rows, run .default sampleStore samplePuts SqliteQueue.sampleCampaign = some rows ∧
    rows.length = 2 ∧ ∀ records, records.Perm (rows.map ObservationRow.toObservation) →
      ∃ graph, ObservationGraph.fromRecords records = .ok graph := by
  have hlength : (run .default sampleStore samplePuts SqliteQueue.sampleCampaign).map List.length = some 2 := by decide +kernel
  obtain ⟨rows, hrows, htwo⟩ := Option.map_eq_some_iff.mp hlength
  obtain ⟨-, -, -, -, hgraph⟩ := observations_of_run .default sampleStore sampleStore_empty samplePuts _ rows hrows
  refine ⟨rows, hrows, htwo, fun records hperm => ?_⟩
  obtain ⟨graph, hok, -⟩ := hgraph records hperm
  exact ⟨graph, hok⟩

end ObservationStore

end XbowPerso
