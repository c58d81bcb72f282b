import XbowPerso.Lemmas.SqliteCalls
import XbowPerso.Lemmas.RedisEnqueue

/-!
# Enqueueing twice

Whatever calls the clients of a queue make and in whatever order their steps come: a dedupe key has one job, an `enqueue` that
repeats a payload is given that job, and an `enqueue` of another payload is refused and changes nothing.
-/

namespace XbowPerso

open Interleave

/-- On either backend, for every interleaving of the steps of any calls. -/
theorem idempotent_enqueue (calls : Nat → QueueSettings × QueueCall) :
    (∀ ls, (SqliteQueue.clients Table.empty calls).MeetsAll SqliteQueue.Fresh ls →
      Idempotent SqliteQueue.store some calls (SqliteQueue.clients Table.empty calls) ls) ∧
    (∀ turns ls, (RedisQueue.callers .empty turns calls).MeetsAll RedisQueue.Fresh ls →
      Idempotent RedisQueue.jobs RedisQueue.Reply.answer calls (RedisQueue.callers .empty turns calls) ls) := by
  constructor
  · intro ls hfresh
    have hsafe := SqliteQueue.clients_safe SqliteQueue.inv_empty calls
    exact idempotent_of_safe SqliteQueue.keyed SqliteQueue.inv_empty hsafe hfresh
  · intro turns ls hfresh
    have hsafe := RedisQueue.callers_safe RedisQueue.deduped_empty turns calls
    exact idempotent_of_safe (fun _ h => h.keyed) RedisQueue.deduped_empty hsafe hfresh

/-- A payload of two fields. -/
def samplePayload : Payload :=
  ⟨[("scope", .str "api"), ("depth", .int 2)], by decide, trivial, trivial, trivial⟩

/-- The same fields the other way round. -/
def sampleReordered : Payload :=
  ⟨[("depth", .int 2), ("scope", .str "api")], by decide, trivial, trivial, trivial⟩

theorem samplePayload_reordered : samplePayload.json.Reordered sampleReordered.json := .perm (List.Perm.swap _ _ _)

/-- Two clients ask for the job of one key. -/
def sampleCalls : Nat → QueueSettings × QueueCall
  | 0 => (.default, .enqueue "campaign-1" "report" samplePayload 2 (some "report-1"))
  | _ => (.default, .enqueue "campaign-1" "report" sampleReordered 2 (some "report-1"))

def firstUuid : Ident := ⟨"3f2504e0-4f89-41d3-9a0c-0305e82c3301", by decide, by decide, by decide, by decide⟩
def secondUuid : Ident := ⟨"6ba7b810-9dad-41d1-80b4-00c04fd430c8", by decide, by decide, by decide, by decide⟩

/-- Both clients find the key free before either inserts; the insert of the second one is refused. -/
def sampleRace : List (Nat × Reading) :=
  let first := ⟨1000, firstUuid⟩
  let second := ⟨1001, secondUuid⟩
  [(0, first), (1, second), (0, first), (1, second), (0, first), (1, second), (0, first), (1, second)]

/-- Both clients draw an identifier before either stores its job. -/
def sampleRedisRace : List (Nat × RedisReading) :=
  let first := ⟨1000, 1000, 1000, firstUuid⟩
  let second := ⟨1001, 1001, 1001, secondUuid⟩
  [(0, first), (1, second), (0, first), (1, second), (0, first), (1, second)]

/-- The job that a program has ended with. -/
def returnedJob {τ ι σ α : Type} (answer : α → Option (Except PyError QueueResult)) (p : Prog τ ι σ α) : Option Job :=
  match p.result?.bind answer with
  | some (.ok r) => r.job?
  | _ => none

theorem done_of_returnedJob {τ ι σ α : Type} (answer : α → Option (Except PyError QueueResult)) (p : Prog τ ι σ α)
    (h : (returnedJob answer p).isSome = true) : ∃ a j, p = .done a ∧ answer a = some (.ok (.job (some j))) := by
  cases p with
  | act t u n => cases h
  | done a =>
    simp only [returnedJob, Prog.result?, Option.bind_some] at h
    cases ha : answer a with
    | none => simp [ha] at h
    | some r =>
      cases r with
      | error e => simp [ha] at h
      | ok r =>
        cases r with
        | job o =>
          cases o with
          | none => simp [ha, QueueResult.job?] at h
          | some j => exact ⟨a, j, rfl, ha⟩
        | flag b => simp [ha, QueueResult.job?] at h
        | count n => simp [ha, QueueResult.job?] at h

/-- On both backends the client that came second is given the job of the first. -/
theorem idempotent_enqueue_race :
    (∃ a j a' j', ((SqliteQueue.clients Table.empty sampleCalls).run sampleRace).thread 0 = .done a ∧
      ((SqliteQueue.clients Table.empty sampleCalls).run sampleRace).thread 1 = .done a' ∧
      a = .ok (.job (some j)) ∧ a' = .ok (.job (some j')) ∧ j'.id = j.id) ∧
    (∃ a j a' j', ((RedisQueue.callers .empty (fun _ => 0) sampleCalls).run sampleRedisRace).thread 0 = .done a ∧
      ((RedisQueue.callers .empty (fun _ => 0) sampleCalls).run sampleRedisRace).thread 1 = .done a' ∧
      a.answer = some (.ok (.job (some j))) ∧ a'.answer = some (.ok (.job (some j'))) ∧ j'.id = j.id) := by
  constructor
  · obtain ⟨a, j, hdone, hans⟩ := done_of_returnedJob some
      (((SqliteQueue.clients Table.empty sampleCalls).run sampleRace).thread 0) (by decide +kernel)
    obtain ⟨a', -, hdone', -⟩ := done_of_returnedJob some
      (((SqliteQueue.clients Table.empty sampleCalls).run sampleRace).thread 1) (by decide +kernel)
    obtain ⟨j', hans', hid⟩ := ((idempotent_enqueue sampleCalls).1 sampleRace (by decide +kernel)).repeated 0 1 _ _ _ _ _ _ _
      a a' j rfl rfl samplePayload_reordered hdone hans hdone'
    exact ⟨a, j, a', j', hdone, hdone', Option.some.inj hans, Option.some.inj hans', hid⟩
  · obtain ⟨a, j, hdone, hans⟩ := done_of_returnedJob RedisQueue.Reply.answer
      (((RedisQueue.callers .empty (fun _ => 0) sampleCalls).run sampleRedisRace).thread 0) (by decide +kernel)
    obtain ⟨a', -, hdone', -⟩ := done_of_returnedJob RedisQueue.Reply.answer
      (((RedisQueue.callers .empty (fun _ => 0) sampleCalls).run sampleRedisRace).thread 1) (by decide +kernel)
    obtain ⟨j', hans', hid⟩ := ((idempotent_enqueue sampleCalls).2 (fun _ => 0) sampleRedisRace (by decide +kernel)).repeated
      0 1 _ _ _ _ _ _ _ a a' j rfl rfl samplePayload_reordered hdone hans hdone'
    exact ⟨a, j, a', j', hdone, hdone', hans, hans', hid⟩

end XbowPerso
