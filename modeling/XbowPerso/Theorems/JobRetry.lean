import XbowPerso.JobAttempt
import XbowPerso.Theorems.CircuitBreaker

/-!
# Retries of a job

What attempts store stays, under keys that the next attempt of the job uses again. The next attempt gets through wherever it would have
without them, as long as it writes under each of these keys what they stored.
-/

namespace XbowPerso

namespace JobAttempt

variable {env : JobEnv} {before after store store' : JobStore} {rows artifacts : List ArtifactRow} {row : ArtifactRow} {put : ArtifactPut}

/-! ## Looking up what is stored -/

theorem findKey?_concat (rows : List ArtifactRow) (row : ArtifactRow) (key : String) :
    findKey? (rows ++ [row]) key = (findKey? rows key).or (if row.idempotencyKey = some key then some row else none) := by
  unfold findKey?
  rw [List.find?_append]
  congr 1
  by_cases h : row.idempotencyKey = some key
  · simp [h]
  · simp [h]

theorem find?_concat (rows : Observations) (row : ObservationRow) (id : Ident) :
    Observations.find? (rows ++ [row]) id = (Observations.find? rows id).or (if row.id = id then some row else none) := by
  unfold Observations.find?
  rw [List.find?_append]
  congr 1
  by_cases h : row.id = id
  · simp [h]
  · simp [h]

/-- What a put of an artifact can do: it returns what is there under its key, or it adds its row. -/
theorem putArtifact_cases (h : putArtifact env rows put = .ok (artifacts, row)) :
    ∃ prepared, put.prepare env = .ok prepared ∧
      ((prepared.idempotencyKey.bind (findKey? rows) = some row ∧ row.sameContent prepared = true ∧ artifacts = rows) ∨
        (prepared.idempotencyKey.bind (findKey? rows) = none ∧ row = prepared ∧ artifacts = rows ++ [prepared])) := by
  unfold putArtifact at h
  split at h
  · cases h
  rename_i prepared hprepare
  refine ⟨prepared, hprepare, ?_⟩
  split at h
  · rename_i stored hstored
    split at h
    · rename_i hsame
      cases h
      exact .inl ⟨hstored, hsame, rfl⟩
    · cases h
  · rename_i hnone
    cases h
    exact .inr ⟨hnone, rfl, rfl⟩

variable {observations : Observations} {o : Observation}

theorem putObservation_cases {observations' : Observations} {cfg : ObservationSettings}
    (h : Observations.put cfg observations o = .ok observations') :
    ∃ row, o.prepare cfg = .ok row ∧ (row.parentIds.any fun p => (Observations.find? observations p).isNone) = false ∧
      ((∃ stored, Observations.find? observations row.id = some stored ∧ stored.sameContent row = true ∧ observations' = observations) ∨
        (Observations.find? observations row.id = none ∧ observations' = observations ++ [row])) := by
  unfold Observations.put at h
  split at h
  · cases h
  rename_i row hprepare
  unfold Observations.insert at h
  split at h
  · cases h
  rename_i hparents
  refine ⟨row, hprepare, (Bool.not_eq_true _).mp hparents, ?_⟩
  split at h
  · rename_i stored hstored
    split at h
    · rename_i hsame
      cases h
      exact .inl ⟨stored, hstored, hsame, rfl⟩
    · cases h
  · rename_i hnone
    cases h
    exact .inr ⟨hnone, rfl⟩

/-! ## What is stored stays -/

/-- Everything that can be looked up in a store is what it is in the other. -/
structure Extends (before after : JobStore) : Prop where
  artifacts : ∀ key row, findKey? before.artifacts key = some row → findKey? after.artifacts key = some row
  observations : ∀ id row, Observations.find? before.observations id = some row → Observations.find? after.observations id = some row

theorem Extends.refl (store : JobStore) : Extends store store := ⟨fun _ _ h => h, fun _ _ h => h⟩

theorem Extends.trans {middle : JobStore} (h : Extends before middle) (h' : Extends middle after) : Extends before after where
  artifacts key row hrow := h'.artifacts key row (h.artifacts key row hrow)
  observations id row hrow := h'.observations id row (h.observations id row hrow)

theorem extends_putArtifact (h : putArtifact env store.artifacts put = .ok (artifacts, row)) :
    Extends store { store with artifacts := artifacts } where
  artifacts key stored hstored := by
    obtain ⟨prepared, -, ⟨-, -, rfl⟩ | ⟨-, -, rfl⟩⟩ := putArtifact_cases h
    · exact hstored
    · rw [findKey?_concat, hstored]
      rfl
  observations _ _ hstored := hstored

theorem extends_putObservation
    (h : Observations.put env.observations store.observations o = .ok observations) :
    Extends store { store with observations := observations } where
  artifacts _ _ hstored := hstored
  observations id stored hstored := by
    obtain ⟨row, -, -, ⟨-, -, -, rfl⟩ | ⟨-, rfl⟩⟩ := putObservation_cases h
    · exact hstored
    · rw [find?_concat, hstored]
      rfl

/-- An attempt keeps what is stored, wherever it stops. -/
theorem extends_stopped (env : JobEnv) (writes : Nat) (a : Attempt) : Extends store (stopped env writes store a) := by
  induction a generalizing store writes with
  | done =>
    cases writes with
    | zero => exact .refl store
    | succ writes => exact .refl store
  | artifact put next ih =>
    cases writes with
    | zero => exact .refl store
    | succ writes =>
      unfold stopped
      split
      · exact .refl store
      rename_i artifacts row hput
      exact (extends_putArtifact hput).trans (ih row writes)
  | observe o next ih =>
    cases writes with
    | zero => exact .refl store
    | succ writes =>
      unfold stopped
      split
      · exact .refl store
      rename_i observations hput
      exact (extends_putObservation hput).trans (ih writes)

/-- Attempts of a job one after another, each of which may work on something else and stops somewhere. -/
inductive Attempts (env : JobEnv) (job : String) (before : JobStore) : JobStore → Prop where
  | none : Attempts env job before before
  | attempt {store : JobStore} (h : Attempts env job before store) (work : Work) (writes : Nat) :
      Attempts env job before (stopped env writes store (attempt env job work))

theorem Attempts.extends {job : String} (h : Attempts env job before after) : Extends before after := by
  induction h with
  | none => exact .refl before
  | attempt h work writes ih => exact ih.trans (extends_stopped env writes _)

/-! ## The next attempt -/

/-- Along the writes of an attempt from `store` on, what other attempts have added to `before` under the same key is the artifact that
this one gets, or has the content of its observation. -/
def Repeats (env : JobEnv) (before after : JobStore) : JobStore → Attempt → Prop
  | _, .done => True
  | store, .artifact put next =>
    ∀ artifacts row, putArtifact env store.artifacts put = .ok (artifacts, row) →
      (∀ key stored, row.idempotencyKey = some key → findKey? before.artifacts key = none →
        findKey? after.artifacts key = some stored → stored = row) ∧
      Repeats env before after { store with artifacts := artifacts } (next row)
  | store, .observe o next =>
    ∀ observations row, Observations.put env.observations store.observations o = .ok observations →
      o.prepare env.observations = .ok row →
      (∀ stored, Observations.find? before.observations row.id = none → Observations.find? after.observations row.id = some stored →
        stored.sameContent row = true) ∧
      Repeats env before after { store with observations := observations } next

/-- The store of the attempt that finds what others left, and the store of the one that does not. -/
structure Tracks (before after store store' : JobStore) : Prop where
  base : Extends before store
  left : Extends before after
  artifacts : ∀ key, findKey? store'.artifacts key = (findKey? after.artifacts key).or (findKey? store.artifacts key)
  observations : ∀ id, Observations.find? store'.observations id =
    (Observations.find? after.observations id).or (Observations.find? store.observations id)

theorem Tracks.start (h : Extends before after) : Tracks before after before after where
  base := .refl before
  left := h
  artifacts key := by
    cases hafter : findKey? after.artifacts key with
    | some row => rfl
    | none =>
      cases hbefore : findKey? before.artifacts key with
      | none => rfl
      | some row =>
        rw [h.artifacts key row hbefore] at hafter
        cases hafter
  observations id := by
    cases hafter : Observations.find? after.observations id with
    | some row => rfl
    | none =>
      cases hbefore : Observations.find? before.observations id with
      | none => rfl
      | some row =>
        rw [h.observations id row hbefore] at hafter
        cases hafter

theorem sameContent_self (row : ArtifactRow) : row.sameContent row = true := by
  simp [ArtifactRow.sameContent]

/-- The key of a row that comes from the table is the key under which it is found. -/
theorem key_of_findKey? {key : String} (h : findKey? rows key = some row) : row.idempotencyKey = some key := by
  unfold findKey? at h
  simpa using List.find?_some h

theorem Tracks.putArtifact (h : Tracks before after store store') (hput : putArtifact env store.artifacts put = .ok (artifacts, row))
    (hrepeats : ∀ key stored, row.idempotencyKey = some key → findKey? before.artifacts key = none →
      findKey? after.artifacts key = some stored → stored = row) :
    ∃ artifacts', JobAttempt.putArtifact env store'.artifacts put = .ok (artifacts', row) ∧
      Tracks before after { store with artifacts := artifacts } { store' with artifacts := artifacts' } := by
  have hbase := h.base.trans (extends_putArtifact hput)
  obtain ⟨prepared, hprepare, hcases⟩ := putArtifact_cases hput
  unfold JobAttempt.putArtifact
  rw [hprepare]
  dsimp only
  cases hkey : prepared.idempotencyKey with
  | none =>
    rw [hkey] at hcases
    rcases hcases with ⟨hsome, -, -⟩ | ⟨-, rfl, rfl⟩
    · cases hsome
    · refine ⟨store'.artifacts ++ [row], rfl, hbase, h.left, fun key => ?_, h.observations⟩
      rw [findKey?_concat, findKey?_concat, h.artifacts, hkey, Option.or_assoc]
  | some key =>
    rw [hkey, Option.bind_some] at hcases
    rw [Option.bind_some, h.artifacts]
    rcases hcases with ⟨hstored, hsame, rfl⟩ | ⟨hnone, rfl, rfl⟩
    · -- it finds the row that is there
      have hfound : (findKey? after.artifacts key).or (findKey? store.artifacts key) = some row := by
        cases hafter : findKey? after.artifacts key with
        | none => rw [Option.none_or, hstored]
        | some stored =>
          cases hbefore : findKey? before.artifacts key with
          | none => rw [hrepeats key stored (key_of_findKey? hstored) hbefore hafter, Option.some_or]
          | some old =>
            have hstore := h.base.artifacts key old hbefore
            rw [hstored] at hstore
            rw [h.left.artifacts key old hbefore] at hafter
            rw [Option.some_or, ← hafter, hstore]
      rw [hfound]
      dsimp only
      rw [if_pos hsame]
      exact ⟨store'.artifacts, rfl, hbase, h.left, h.artifacts, h.observations⟩
    · -- without the others it adds its row
      have hbefore : findKey? before.artifacts key = none := by
        rw [Option.eq_none_iff_forall_ne_some]
        intro old hold
        rw [h.base.artifacts key old hold] at hnone
        cases hnone
      cases hafter : findKey? after.artifacts key with
      | some stored =>
        have heq := hrepeats key stored hkey hbefore hafter
        rw [Option.some_or]
        dsimp only
        rw [heq, if_pos (sameContent_self row)]
        refine ⟨store'.artifacts, rfl, hbase, h.left, fun k => ?_, h.observations⟩
        rw [findKey?_concat, h.artifacts, ← Option.or_assoc, hkey]
        by_cases hk : some key = some k
        · rw [← Option.some.inj hk, hafter]
          rfl
        · rw [if_neg hk, Option.or_none]
      | none =>
        rw [Option.none_or, hnone]
        refine ⟨store'.artifacts ++ [row], rfl, hbase, h.left, fun k => ?_, h.observations⟩
        rw [findKey?_concat, findKey?_concat, h.artifacts, Option.or_assoc]

theorem Tracks.putObservation (h : Tracks before after store store')
    (hput : Observations.put env.observations store.observations o = .ok observations)
    (hrepeats : ∀ row, o.prepare env.observations = .ok row → ∀ stored, Observations.find? before.observations row.id = none →
      Observations.find? after.observations row.id = some stored → stored.sameContent row = true) :
    ∃ observations', Observations.put env.observations store'.observations o = .ok observations' ∧
      Tracks before after { store with observations := observations } { store' with observations := observations' } := by
  have hbase := h.base.trans (extends_putObservation hput)
  obtain ⟨row, hprepare, hparents, hcases⟩ := putObservation_cases hput
  have hparents' : ¬ (row.parentIds.any fun p => (Observations.find? store'.observations p).isNone) = true := by
    intro hmissing
    obtain ⟨p, hp, hnone⟩ := List.any_eq_true.mp hmissing
    rw [h.observations, Option.isNone_iff_eq_none, Option.or_eq_none_iff] at hnone
    have hfound := List.any_eq_false.mp hparents p hp
    rw [hnone.2] at hfound
    exact hfound rfl
  unfold Observations.put
  rw [hprepare]
  dsimp only
  unfold Observations.insert
  rw [if_neg hparents', h.observations]
  rcases hcases with ⟨stored, hstored, hsame, rfl⟩ | ⟨hnone, rfl⟩
  · have hfound : ∃ x, (Observations.find? after.observations row.id).or (Observations.find? store.observations row.id) = some x ∧
        x.sameContent row = true := by
      cases hafter : Observations.find? after.observations row.id with
      | none => exact ⟨stored, by rw [Option.none_or, hstored], hsame⟩
      | some x =>
        refine ⟨x, Option.some_or, ?_⟩
        cases hbefore : Observations.find? before.observations row.id with
        | none => exact hrepeats row hprepare x hbefore hafter
        | some old =>
          have hstore := h.base.observations row.id old hbefore
          rw [hstored] at hstore
          rw [h.left.observations row.id old hbefore] at hafter
          rw [← Option.some.inj hafter, ← Option.some.inj hstore]
          exact hsame
    obtain ⟨x, hx, hxsame⟩ := hfound
    rw [hx]
    dsimp only
    rw [if_pos hxsame]
    exact ⟨store'.observations, rfl, hbase, h.left, h.artifacts, h.observations⟩
  · have hbefore : Observations.find? before.observations row.id = none := by
      rw [Option.eq_none_iff_forall_ne_some]
      intro old hold
      rw [h.base.observations row.id old hold] at hnone
      cases hnone
    cases hafter : Observations.find? after.observations row.id with
    | some x =>
      rw [Option.some_or]
      dsimp only
      rw [if_pos (hrepeats row hprepare x hbefore hafter)]
      refine ⟨store'.observations, rfl, hbase, h.left, h.artifacts, fun id => ?_⟩
      rw [find?_concat, h.observations, ← Option.or_assoc]
      by_cases hid : row.id = id
      · rw [← hid, hafter]
        rfl
      · rw [if_neg hid, Option.or_none]
    | none =>
      rw [Option.none_or, hnone]
      refine ⟨store'.observations ++ [row], rfl, hbase, h.left, h.artifacts, fun id => ?_⟩
      rw [find?_concat, find?_concat, h.observations, Option.or_assoc]

/-- An attempt that repeats what is stored gets as far as it does without it. -/
theorem run_of_repeats {a : Attempt} {final : JobStore} (h : Tracks before after store store') (hrepeats : Repeats env before after store a)
    (hrun : run env store a = .ok final) : ∃ final', run env store' a = .ok final' := by
  induction a generalizing store store' with
  | done => exact ⟨store', rfl⟩
  | artifact put next ih =>
    unfold run at hrun ⊢
    split at hrun
    · cases hrun
    rename_i artifacts row hput
    obtain ⟨hrow, hnext⟩ := hrepeats artifacts row hput
    obtain ⟨artifacts', hput', htracks⟩ := h.putArtifact hput hrow
    rw [hput']
    exact ih row htracks hnext hrun
  | observe o next ih =>
    unfold run at hrun ⊢
    split at hrun
    · cases hrun
    rename_i observations hput
    obtain ⟨row, hprepare, -⟩ := putObservation_cases hput
    have hrow : ∀ row, o.prepare env.observations = .ok row → ∀ stored, Observations.find? before.observations row.id = none →
        Observations.find? after.observations row.id = some stored → stored.sameContent row = true :=
      fun row hrow => (hrepeats observations row hput hrow).1
    obtain ⟨observations', hput', htracks⟩ := h.putObservation hput hrow
    rw [hput']
    exact ih htracks (hrepeats observations row hput hprepare).2 hrun

def sampleJobs : JobEnv :=
  ⟨⟨CircuitBreaker.sampleHex, CircuitBreaker.sampleHex_valid⟩, fun _ => "artifact", fun _ => [], .default, 1024⟩

/-- A campaign without artifacts and observations. -/
def sampleStore : JobStore := ⟨[], []⟩

/-- The attempt that stores a report of one byte. -/
def sampleReport (byte : UInt8) : Attempt := attempt sampleJobs "job-1" (.report "generic" [byte])

theorem sample_reports : (run sampleJobs sampleStore (sampleReport 111)).toOption.isSome = true ∧
    (run sampleJobs sampleStore (sampleReport 112)).toOption.isSome = true ∧
      (run sampleJobs (stopped sampleJobs 2 sampleStore (sampleReport 111)) (sampleReport 112)).toOption.isNone = true := by
  refine ⟨?_, ?_, ?_⟩
  · decide +kernel
  · decide +kernel
  · decide +kernel

/-- The two reports have different digests. -/
example : sampleJobs.sha.hex [111] ≠ sampleJobs.sha.hex [112] := by decide +kernel

/-- An attempt that begins with an artifact and was stopped right after it is repeated by one that stores the same artifact. -/
theorem repeats_of_artifact {next : ArtifactRow → Attempt} :
    Repeats env sampleStore (stopped env 1 sampleStore (.artifact put next)) sampleStore (.artifact put fun row =>
      observeAll [recordArtifact env row "report-engine" [] "evidence" none
        [("platform", .str "generic"), ("artifact_kind", .str "report")]] .done) := by
  intro artifacts row hput
  have hstopped : stopped env 1 sampleStore (.artifact put next) = { sampleStore with artifacts := artifacts } := by
    unfold stopped
    rw [hput]
    rfl
  rw [hstopped]
  refine ⟨fun key stored hkey _ hstored => ?_, fun observations observation hobserved hprepare => ⟨fun stored _ hstored => ?_, trivial⟩⟩
  · obtain ⟨prepared, -, ⟨hfound, -, -⟩ | ⟨-, rfl, rfl⟩⟩ := putArtifact_cases hput
    · obtain ⟨k, -, hk⟩ := Option.bind_eq_some_iff.mp hfound
      cases hk
    · have hmem := List.mem_of_find?_eq_some hstored
      exact List.mem_singleton.mp hmem
  · cases hstored

end JobAttempt

end XbowPerso
