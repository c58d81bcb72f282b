import XbowPerso.Lemmas.SqliteQueue

/-!
# The life cycle of the jobs of the SQLite queue

Over every sequence of calls, from any workers and at any clock readings: the fields of a job fit its status, a job that has ended
stays as it is, and a job is handed out at most as often as it may be attempted.
-/

namespace XbowPerso

namespace SqliteQueue

/-- One call of a run, with the settings it reads and what it reads from its surroundings. -/
structure Event where
  settings : QueueSettings
  env : Reading
  call : QueueCall

/-- The table after a run. -/
def run (q : SqliteQueue) (events : List Event) : SqliteQueue :=
  events.foldl (fun q e => (q.call e.settings e.env e.call).2) q

/-- The identifiers that the calls of a run hand out, call by call. -/
def handedIds (q : SqliteQueue) : List Event → List (Option Ident)
  | [] => []
  | e :: events =>
    ((e.call.handed (q.call e.settings e.env e.call).1).map Job.id) ::
      handedIds (q.call e.settings e.env e.call).2 events

@[simp] theorem run_nil (q : SqliteQueue) : run q [] = q := rfl

@[simp] theorem run_cons (q : SqliteQueue) (e : Event) (events : List Event) :
    run q (e :: events) = run (q.call e.settings e.env e.call).2 events := rfl

theorem run_append (q : SqliteQueue) (events events' : List Event) :
    run q (events ++ events') = run (run q events) events' := List.foldl_append

open JobStore in
/-- Calls make a run of the life of all jobs. -/
theorem run_isRun (s : JobStore) (hs : List (Option Ident)) (q : SqliteQueue) (h : Run s hs q.store)
    (events : List Event) : Run s (hs ++ q.handedIds events) (run q events).store := by
  induction events generalizing hs q with
  | nil => simpa [handedIds] using h
  | cons e events ih =>
    have := ih _ _ (h.snoc (call_transition e.settings e.env q e.call))
    simpa [handedIds] using this

open JobStore in
theorem run_from_empty (events : List Event) :
    Run (fun _ => none) (handedIds Table.empty events) (run Table.empty events).store :=
  run_isRun _ [] Table.empty (.nil _) events

open JobStore in
/-- In every state reached: the attempts are in their bounds, a queued job has an attempt left and no claim, a running job has its
claim, a terminal job is the same after any further calls, and a job was handed out at most as often as it may be attempted. -/
theorem queue_lifecycle (events : List Event) (j : Job) (hj : j ∈ (run Table.empty events).rows) :
    (0 ≤ j.attempts ∧ j.attempts ≤ j.maxAttempts) ∧
    (j.status = .queued → j.attempts < j.maxAttempts ∧ j.claimedBy = none ∧ j.claimedAt = none) ∧
    (j.status = .running → j.claimedBy.isSome ∧ j.claimedAt.isSome) ∧
    (j.status.terminal = true → ∀ later, (run Table.empty (events ++ later)).find? j.id = some j) ∧
    (handouts j.id (handedIds Table.empty events) : Int) ≤ j.maxAttempts := by
  have hrun := run_from_empty events
  have hfind := find?_of_mem hj
  have hw : j.WellFormed := hrun.wellFormed (fun _ _ h => by cases h) j.id j hfind
  refine ⟨⟨hw.attempts_nonneg, hw.attempts_le⟩, fun hq => ⟨hw.queued hq, ?_⟩, hw.running, fun ht later => ?_, ?_⟩
  · exact hw.idle (by rw [hq]; decide)
  · rw [run_append]
    exact (run_isRun _ [] _ (.nil _) later).terminal hfind ht
  · rw [(hrun.handouts_eq j.id).1 j hfind]
    exact hw.attempts_le

def sampleId : Ident := ⟨"7c9e6679-7425-40de-944b-e07fc1f90ae7", by decide, by decide, by decide, by decide⟩
def sampleCampaign : Ident := ⟨"campaign-1", by decide, by decide, by decide, by decide⟩
def sampleWorker : Ident := ⟨"worker-1", by decide, by decide, by decide, by decide⟩

/-- A job is queued and claimed. -/
def sampleEvents : List Event :=
  [⟨.default, ⟨1000, sampleId⟩, .enqueue "campaign-1" "report" .empty 2 none⟩,
    ⟨.default, ⟨2000, sampleId⟩, .claim "worker-1"⟩]

/-- The job that is claimed. -/
def sampleJob : Job where
  id := sampleId
  campaignId := sampleCampaign
  kind := .report
  payload := "\x7b\x7d"
  status := .running
  attempts := 1
  maxAttempts := 2
  createdAt := 1000
  updatedAt := 2000
  claimedBy := some sampleWorker
  claimedAt := some 2000
  lastError := none
  dedupeKey := none

/-- The job was handed out, and at most as often as it may be attempted. -/
theorem queue_lifecycle_claimed :
    JobStore.handouts sampleJob.id (handedIds Table.empty sampleEvents) = 1 ∧
      (JobStore.handouts sampleJob.id (handedIds Table.empty sampleEvents) : Int) ≤ sampleJob.maxAttempts := by
  have hmem : sampleJob ∈ (run Table.empty sampleEvents).rows := by decide +kernel
  exact ⟨by decide +kernel, (queue_lifecycle sampleEvents sampleJob hmem).2.2.2.2⟩

end SqliteQueue

end XbowPerso
