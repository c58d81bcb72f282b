import XbowPerso.Identifier
import XbowPerso.Lib.Json
import Mathlib.Logic.Relation
import Mathlib.Data.Prod.Lex
import Mathlib.Data.Int.Order.Basic
import Mathlib.Tactic.Simps.Basic

/-!
# Jobs

The record of a job, the updates that both queue backends make to it, and its life cycle: a queued job is claimed, a running one is
renewed, requeued or brought to a terminal status, and a queued one may be cancelled. Clock readings are whole microseconds.
-/

namespace XbowPerso

/-- The order of clock readings is the computable one, also where Mathlib knows a noncomputable one. -/
instance (priority := 2000) clockOrder : Preorder Int := Int.instLinearOrder.toPreorder

/-- The kinds of jobs that `enqueue` accepts. -/
inductive JobKind where
  | strixScan | nucleiScan | independentValidation | browserFlow | reconTask | report | pentagiFlow | pentagiStatus
  deriving DecidableEq, Repr

namespace JobKind

/-- The word of a kind. -/
def word : JobKind → String
  | strixScan => "strix_scan"
  | nucleiScan => "nuclei_scan"
  | independentValidation => "independent_validation"
  | browserFlow => "browser_flow"
  | reconTask => "recon_task"
  | report => "report"
  | pentagiFlow => "pentagi_flow"
  | pentagiStatus => "pentagi_status"

/-- The kinds, in the order in which the source lists them. -/
def all : List JobKind :=
  [strixScan, nucleiScan, independentValidation, browserFlow, reconTask, report, pentagiFlow, pentagiStatus]

/-- The kind of a word, if it is a supported one. -/
def ofWord? (w : String) : Option JobKind := all.find? (fun k => k.word = w)

/-- The word of a kind is read back. -/
@[simp] theorem ofWord?_word (k : JobKind) : ofWord? k.word = some k := by cases k <;> decide

/-- `_uses_generic_queue`: the kinds that the generic claim hands out. -/
def usesGenericQueue (k : JobKind) : Bool := !(k = pentagiFlow || k = pentagiStatus)

end JobKind

/-- The statuses of a job. -/
inductive JobStatus where
  | queued | running | completed | failed | cancelled
  deriving DecidableEq, Repr

/-- `TERMINAL`. -/
def JobStatus.terminal : JobStatus → Bool
  | queued | running => false
  | completed | failed | cancelled => true

/-- The payload of a job: a dictionary with string keys, each once, in its order. -/
structure Payload where
  fields : List (String × Json)
  distinct : (Json.obj fields).Distinct

namespace Payload

/-- The payload as a JSON value. -/
def json (p : Payload) : Json := .obj p.fields

/-- `json.dumps(payload, sort_keys=True, separators=(",", ":"), ensure_ascii=False)`. -/
def encoded (p : Payload) : String := p.json.dumpsSorted

/-- The payload without fields. -/
def empty : Payload := ⟨[], ⟨List.nodup_nil, trivial⟩⟩

end Payload

/-- The record of a job: a row of the table `jobs`, or the hash of a job key with its empty fields read as none. -/
structure Job where
  id : Ident
  campaignId : Ident
  kind : JobKind
  payload : String
  status : JobStatus
  attempts : Int
  maxAttempts : Int
  createdAt : Int
  updatedAt : Int
  claimedBy : Option Ident
  claimedAt : Option Int
  lastError : Option String
  dedupeKey : Option Ident
  deriving DecidableEq

namespace Job

/-- The value of the unique index `jobs_dedupe`: none for a job without a dedupe key. -/
def dedupe (j : Job) : Option (Ident × JobKind × Ident) := j.dedupeKey.map (fun d => (j.campaignId, j.kind, d))

/-- The update of a claim. -/
@[simps] def claimed (j : Job) (worker : Ident) (now : Int) : Job :=
  { j with
    status := .running, attempts := j.attempts + 1, claimedBy := some worker, claimedAt := some now, updatedAt := now }

/-- The update of a heartbeat. -/
@[simps] def renewed (j : Job) (now : Int) : Job := { j with claimedAt := some now, updatedAt := now }

/-- The update that ends a claim, or cancels a job that nobody claimed. -/
@[simps] def released (j : Job) (status : JobStatus) (error : Option String) (now : Int) : Job :=
  { j with status := status, updatedAt := now, lastError := error, claimedBy := none, claimedAt := none }

/-- The status that the recovery of an expired lease gives. -/
def recoveredStatus (j : Job) : JobStatus := if j.maxAttempts ≤ j.attempts then .failed else .queued

/-- The status that `finish` gives. -/
def finishedStatus (j : Job) (success : Bool) : JobStatus :=
  if success then .completed else if j.attempts < j.maxAttempts then .queued else .failed

/-- The error text of a recovered job. -/
def expiredError : String := "worker lease expired before completion"

/-- The error text of a job cancelled in the queue. -/
def cancelledError : String := "campaign cancelled before execution"

/-- `text[-4000:] or None`. -/
def errorText (text : String) : Option String :=
  let tail := String.ofList (text.toList.drop (text.toList.length - 4000))
  if tail = "" then none else some tail

/-- A job that its worker may act on: running, under that worker's identifier. -/
def OwnedBy (j : Job) (worker : Ident) : Prop := j.status = .running ∧ j.claimedBy = some worker

instance (j : Job) (worker : Ident) : Decidable (j.OwnedBy worker) := inferInstanceAs (Decidable (_ ∧ _))

/-! ## What the updates keep -/

variable (j : Job) (worker : Ident) (now : Int) (status : JobStatus) (error : Option String)

@[simp] theorem claimed_dedupe : (j.claimed worker now).dedupe = j.dedupe := rfl
@[simp] theorem renewed_dedupe : (j.renewed now).dedupe = j.dedupe := rfl
@[simp] theorem released_dedupe : (j.released status error now).dedupe = j.dedupe := rfl

/-! ## The life cycle -/

/-- One step of the life of a job. -/
inductive Step : Job → Job → Prop
  | claim (j : Job) (worker : Ident) (now : Int) (hs : j.status = .queued) (hb : j.attempts < j.maxAttempts) :
      Step j (j.claimed worker now)
  | renew (j : Job) (now : Int) (hs : j.status = .running) (hc : j.claimedBy.isSome) : Step j (j.renewed now)
  | requeue (j : Job) (error : Option String) (now : Int) (hs : j.status = .running) (hb : j.attempts < j.maxAttempts) :
      Step j (j.released .queued error now)
  | stop (j : Job) (status : JobStatus) (error : Option String) (now : Int) (hs : j.status = .running)
      (ht : status.terminal = true) : Step j (j.released status error now)
  | cancel (j : Job) (error : Option String) (now : Int) (hs : j.status = .queued) :
      Step j (j.released .cancelled error now)

/-- What the life of a job leads to, step after step. -/
abbrev Evolves : Job → Job → Prop := Relation.ReflTransGen Step

/-- The state of a job that its life may reach. -/
structure WellFormed (j : Job) : Prop where
  attempts_nonneg : 0 ≤ j.attempts
  attempts_le : j.attempts ≤ j.maxAttempts
  queued : j.status = .queued → j.attempts < j.maxAttempts
  idle : j.status ≠ .running → j.claimedBy = none ∧ j.claimedAt = none
  running : j.status = .running → j.claimedBy.isSome ∧ j.claimedAt.isSome
  tried : j.status = .running → 0 < j.attempts
  encoded : ∃ p : Payload, j.payload = p.encoded

/-- A step leads from a well-formed job to a well-formed one. -/
theorem Step.wellFormed {j j' : Job} (h : Step j j') (hw : j.WellFormed) : j'.WellFormed := by
  have h0 := hw.attempts_nonneg
  have h1 := hw.attempts_le
  cases h with
  | claim worker now hs hb =>
    exact ⟨by simp only [claimed_attempts]; omega, by simp only [claimed_attempts, claimed_maxAttempts]; omega,
      nofun, fun h => absurd rfl h, fun _ => ⟨rfl, rfl⟩, fun _ => by simp only [claimed_attempts]; omega, hw.encoded⟩
  | renew now hs hc => exact ⟨h0, h1, hw.queued, fun h => absurd hs h, fun _ => ⟨hc, rfl⟩, hw.tried, hw.encoded⟩
  | requeue error now hs hb => exact ⟨h0, h1, fun _ => hb, fun _ => ⟨rfl, rfl⟩, nofun, nofun, hw.encoded⟩
  | stop status error now hs ht =>
    have hends : status ≠ .queued ∧ status ≠ .running := by
      constructor <;> rintro rfl <;> cases ht
    exact ⟨h0, h1, fun h => absurd h hends.1, fun _ => ⟨rfl, rfl⟩, fun h => absurd h hends.2, fun h => absurd h hends.2,
      hw.encoded⟩
  | cancel error now hs => exact ⟨h0, h1, nofun, fun _ => ⟨rfl, rfl⟩, nofun, nofun, hw.encoded⟩

/-- A terminal status is never left. -/
theorem Step.not_terminal {j j' : Job} (h : Step j j') : j.status.terminal = false := by
  cases h with
  | claim worker now hs hb => rw [hs]; rfl
  | renew now hs hc => rw [hs]; rfl
  | requeue error now hs hb => rw [hs]; rfl
  | stop status error now hs ht => rw [hs]; rfl
  | cancel error now hs => rw [hs]; rfl

/-- What no step of its life changes in a job. -/
theorem Step.keeps {j j' : Job} (h : Step j j') :
    j'.id = j.id ∧ j'.campaignId = j.campaignId ∧ j'.kind = j.kind ∧ j'.payload = j.payload ∧
      j'.maxAttempts = j.maxAttempts ∧ j'.createdAt = j.createdAt ∧ j'.dedupeKey = j.dedupeKey := by
  cases h <;> exact ⟨rfl, rfl, rfl, rfl, rfl, rfl, rfl⟩

theorem Evolves.wellFormed {j j' : Job} (h : Evolves j j') (hw : j.WellFormed) : j'.WellFormed := by
  induction h with
  | refl => exact hw
  | tail _ hs ih => exact hs.wellFormed ih

theorem Evolves.keeps {j j' : Job} (h : Evolves j j') :
    j'.id = j.id ∧ j'.campaignId = j.campaignId ∧ j'.kind = j.kind ∧ j'.payload = j.payload ∧
      j'.maxAttempts = j.maxAttempts ∧ j'.createdAt = j.createdAt ∧ j'.dedupeKey = j.dedupeKey := by
  induction h with
  | refl => exact ⟨rfl, rfl, rfl, rfl, rfl, rfl, rfl⟩
  | tail _ hs ih =>
    obtain ⟨a, b, c, d, e, f, g⟩ := hs.keeps
    obtain ⟨a', b', c', d', e', f', g'⟩ := ih
    exact ⟨a.trans a', b.trans b', c.trans c', d.trans d', e.trans e', f.trans f', g.trans g'⟩

/-- A job keeps its dedupe key. -/
theorem Evolves.dedupe_eq {j j' : Job} (h : Evolves j j') : j'.dedupe = j.dedupe := by
  obtain ⟨-, hc, hk, -, -, -, hd⟩ := h.keeps
  simp only [dedupe, hc, hk, hd]

/-- A terminal job stays as it is. -/
theorem Evolves.eq_of_terminal {j j' : Job} (h : Evolves j j') (ht : j.status.terminal = true) : j' = j := by
  rcases Relation.ReflTransGen.cases_head h with h | ⟨c, hs, -⟩
  · exact h.symm
  · exact absurd ht (by rw [hs.not_terminal]; exact Bool.false_ne_true)

/-- A step costs an attempt when it is a claim, and no attempt else. -/
theorem Step.attempts_le {j j' : Job} (h : Step j j') : j.attempts ≤ j'.attempts := by
  cases h with
  | claim worker now hs hb =>
    rw [claimed_attempts]
    omega
  | renew now hs hc => exact le_refl _
  | requeue error now hs hb => exact le_refl _
  | stop status error now hs ht => exact le_refl _
  | cancel error now hs => exact le_refl _

theorem Evolves.attempts_le {j j' : Job} (h : Evolves j j') : j.attempts ≤ j'.attempts := by
  induction h with
  | refl => exact le_refl _
  | tail _ hs ih => exact ih.trans hs.attempts_le

/-- A job that runs without having been claimed again ran before, under the same worker. -/
theorem Evolves.owned_before {j j' : Job} (h : Evolves j j') (ha : j'.attempts = j.attempts) {worker : Ident}
    (ho : j'.OwnedBy worker) : j.OwnedBy worker := by
  induction h with
  | refl => exact ho
  | @tail b c hjb hs ih =>
    have h1 := Evolves.attempts_le hjb
    have h2 := hs.attempts_le
    have hb : b.attempts = j.attempts := le_antisymm (ha ▸ h2) h1
    refine ih hb ?_
    cases hs with
    | claim worker' now hq hlt =>
      rw [claimed_attempts] at ha
      omega
    | renew now hr hc => exact ⟨hr, ho.2⟩
    | requeue error now hr hlt => cases ho.1
    | stop status error now hr ht =>
      have hrun : status = .running := ho.1
      rw [hrun] at ht
      cases ht
    | cancel error now hq => cases ho.1

/-- The recovery of a running job is a step of its life. -/
theorem step_recovered (j : Job) (error : Option String) (now : Int) (hs : j.status = .running) :
    Step j (j.released j.recoveredStatus error now) := by
  unfold recoveredStatus
  split
  · exact .stop j .failed error now hs rfl
  · rename_i hb
    exact .requeue j error now hs (Int.lt_of_not_ge hb)

/-- So is the end that `finish` gives it. -/
theorem step_finished (j : Job) (success : Bool) (error : Option String) (now : Int) (hs : j.status = .running) :
    Step j (j.released (j.finishedStatus success) error now) := by
  unfold finishedStatus
  split
  · exact .stop j .completed error now hs rfl
  split
  · rename_i hb
    exact .requeue j error now hs hb
  · exact .stop j .failed error now hs rfl

end Job

end XbowPerso
