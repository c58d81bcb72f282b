import XbowPerso.ScanIngestion
import XbowPerso.Idempotence
import XbowPerso.Lemmas.SqliteQueue
import XbowPerso.Theorems.PlannerStability

/-!
# The validations of ingested findings

A validation job is enqueued before its finding is stored. Where no worker is handed the job until then, every finding that a scan has
stored has a validation that waits, runs or has run; where one is, the job fails for good, and its key keeps a new one away.
-/

namespace XbowPerso

/-! ## What a call leaves of a row -/

namespace SqliteQueue

variable {cfg : QueueSettings} {env : Reading} {q q' : SqliteQueue}

/-- Every row is a new queued job, or the row of a job that keeps its key and that is queued still, or handed out, if it was queued. -/
def RowsKept (q q' : SqliteQueue) (handed : Option Job) : Prop :=
  ∀ id j', q'.find? id = some j' →
    (∃ j, q.find? id = some j ∧ j'.dedupe = j.dedupe ∧ (j.status = .queued → j'.status = .queued ∨ handed = some j')) ∨
      (q.find? id = none ∧ j'.status = .queued)

theorem RowsKept.refl (q : SqliteQueue) (handed : Option Job) : RowsKept q q handed :=
  fun _ j' h => .inl ⟨j', h, rfl, fun hqueued => .inl hqueued⟩

theorem rowsKept_recoverExpired (cfg : QueueSettings) (now : Int) (q : SqliteQueue) (handed : Option Job) :
    RowsKept q (recoverExpired cfg now q).2 handed := by
  intro id j' h
  rw [recoverExpired_find?] at h
  obtain ⟨j, hj, rfl⟩ := Option.map_eq_some_iff.mp h
  refine .inl ⟨j, hj, recoverRow_dedupe cfg now j, fun hqueued => .inl ?_⟩
  unfold recoverRow
  rw [if_neg fun hexpired => ?_]
  · exact hqueued
  · rw [hexpired.1] at hqueued
    cases hqueued

theorem ClaimEffect.rowsKept {now : Int} {worker : Ident} {p : JobKind → Bool} {res : Option Job}
    (h : ClaimEffect cfg now worker p q res q') : RowsKept q q' res := by
  cases h with
  | idle hn => exact rowsKept_recoverExpired cfg now q none
  | handed row _ hr hc hmin hq =>
    intro id j' hj'
    rw [hq id] at hj'
    split at hj'
    · rename_i hid
      cases hj'
      rcases rowsKept_recoverExpired cfg now q none row.id row hr with ⟨j, hj, hdedupe, -⟩ | ⟨hnone, -⟩
      · rw [hid]
        exact .inl ⟨j, hj, hdedupe, fun _ => .inr rfl⟩
      · rw [recoverExpired_find?, hnone] at hr
        cases hr
    · rcases rowsKept_recoverExpired cfg now q none id j' hj' with ⟨j, hj, hdedupe, hqueued⟩ | hnew
      · refine .inl ⟨j, hj, hdedupe, fun h => .inl ?_⟩
        rcases hqueued h with hqueued | hnone
        · exact hqueued
        · cases hnone
      · exact .inr hnew

theorem OwnEffect.rowsKept {id worker : Ident} {f : Job → Job} {res handed : Option Job} (h : OwnEffect id worker f q res q')
    (hf : ∀ j, (f j).dedupe = j.dedupe) : RowsKept q q' handed := by
  cases h with
  | refused hn => exact .refl q handed
  | done j _ hj ho hq =>
    intro k j' hj'
    rw [hq k] at hj'
    split at hj'
    · rename_i hk
      cases hj'
      rw [hk]
      refine .inl ⟨j, hj, hf j, fun hqueued => ?_⟩
      rw [ho.1] at hqueued
      cases hqueued
    · exact .inl ⟨j', hj', rfl, fun hqueued => .inl hqueued⟩

theorem EnqueueEffect.rowsKept {r : EnqueueRequest} {res : Except PyError Job} {handed : Option Job} (h : EnqueueEffect r env q res q') :
    RowsKept q q' handed := by
  cases h with
  | existing e he => exact .refl q handed
  | taken j hj hd => exact .refl q handed
  | created _ hn hd hq =>
    intro id j' hj'
    rw [q.find?_insert hq, EnqueueRequest.newJob_id] at hj'
    split at hj'
    · rename_i hid
      cases hj'
      rw [hid]
      exact .inr ⟨hn, rfl⟩
    · exact .inl ⟨j', hj', rfl, fun hqueued => .inl hqueued⟩

/-- Every call but the sweep of a campaign keeps the rows. -/
theorem call_rowsKept (cfg : QueueSettings) (env : Reading) (q : SqliteQueue) {c : QueueCall}
    (hc : ∀ campaignId, c ≠ .cancelQueued campaignId) : RowsKept q (q.call cfg env c).2 (c.handed (q.call cfg env c).1) := by
  have heffect := call_effect cfg env q c
  generalize c.handed (q.call cfg env c).1 = handed, (q.call cfg env c).2 = q' at heffect ⊢
  cases heffect with
  | refused => exact .refl q none
  | enqueued _ heff => exact heff.rowsKept
  | claimed heff => exact heff.rowsKept
  | owned heff hf _ _ =>
    refine heff.rowsKept fun _ => ?_
    cases hf <;> rfl
  | swept hsweep _ => exact absurd hsweep (hc _)
  | recovered => exact rowsKept_recoverExpired cfg env.now q _

/-- What `call` is to `enqueue`. -/
theorem enqueue_rowsKept {campaignId kind : String} {payload : Payload} {maxAttempts : Int} {key : Option String} {job : Job}
    (h : q.enqueue cfg env campaignId kind payload maxAttempts key = .ok (job, q')) : RowsKept q q' none := by
  have hcall := call_rowsKept cfg env q (c := .enqueue campaignId kind payload maxAttempts key) fun _ h => by cases h
  unfold call at hcall
  dsimp only at hcall
  rw [h] at hcall
  exact hcall

end SqliteQueue

namespace ScanIngestion

variable {cfg : QueueSettings} {campaign : Ident}

/-! ## The statement -/

/-- An identifier that `normalized_finding_id` makes has no colon; the keys of repeated validations have more of them. -/
def ScannerId (finding : String) : Prop := ':' ∉ finding.toList

/-- A finding has a validation that is queued, is running or has run while the finding was stored. -/
def Validated (campaign : Ident) (s : System) (finding : String) : Prop :=
  ∃ j ∈ s.queue.rows, IsValidation campaign finding j ∧ (j.status = .queued ∨ j.status = .running ∨ j.id ∈ s.ran)

/-- The validations that are there are queued or have run. -/
def Fresh (campaign : Ident) (s : System) : Prop :=
  ∀ f, ScannerId f → ∀ j ∈ s.queue.rows, IsValidation campaign f j → j.status = .queued ∨ j.id ∈ s.ran

structure Initial (campaign : Ident) (s : System) : Prop where
  idle : ∀ h, s.scan h = .idle
  ingested : s.ingested = []
  fresh : Fresh campaign s

/-- Scans report identifiers of theirs, no worker is handed a validation whose finding is not stored, and the jobs of the campaign are not
swept. -/
def HandsStored (cfg : QueueSettings) (campaign : Ident) (s : System) : Action → Prop
  | .load _ reported => ∀ f ∈ reported, ScannerId f
  | .call c reading => (∀ campaignId, c ≠ .cancelQueued campaignId) ∧
      ∀ j, c.handed (s.queue.call cfg reading c).1 = some j → ∀ f, ScannerId f → IsValidation campaign f j → f ∈ s.findings
  | _ => True

/-- A run whose every step is so. -/
def StoredRun (cfg : QueueSettings) (campaign : Ident) : System → List Action → Prop
  | _, [] => True
  | s, a :: l => HandsStored cfg campaign s a ∧ StoredRun cfg campaign (step cfg campaign s a) l

/-! ## The jobs of a finding -/

variable {f : String}

/-- Whose validation a job is depends on its key. -/
theorem isValidation_of_dedupe {j j' : Job} (h : IsValidation campaign f j) (hdedupe : j'.dedupe = j.dedupe) :
    IsValidation campaign f j' := by
  obtain ⟨hcampaign, hkind, hkey⟩ := h
  obtain ⟨key, hkey', htext⟩ := Option.map_eq_some_iff.mp hkey
  unfold Job.dedupe at hdedupe
  rw [hkey', Option.map_some, Option.map_eq_some_iff] at hdedupe
  obtain ⟨key', hkey'', heq⟩ := hdedupe
  obtain ⟨hcampaign', hrest⟩ := Prod.mk.inj heq
  obtain ⟨hkind', hsame⟩ := Prod.mk.inj hrest
  refine ⟨hcampaign'.trans hcampaign, hkind'.trans hkind, ?_⟩
  rw [hkey'', Option.map_some, hsame, htext]

variable {payload : Payload}

/-- The key under which the validation of a finding is enqueued. -/
theorem dedupe_of_validate {r : EnqueueRequest}
    (h : EnqueueRequest.validate cfg campaign.text "independent_validation" payload 2 (some (dedupeKey f)) = .ok r) :
    ∃ key : Ident, r.dedupe = some (campaign, .independentValidation, key) ∧ key.text = PyText.strip (dedupeKey f) := by
  obtain ⟨-, ⟨campaign', kind, key⟩, hdedupe, hcampaign, hkind, hkey⟩ := @EnqueueRequest.validate_spec cfg campaign.text (dedupeKey f)
    .independentValidation payload r h
  have hsame : campaign' = campaign := Ident.text_injective (hcampaign.trans campaign.stripped)
  rw [hsame, show kind = .independentValidation from hkind] at hdedupe
  exact ⟨key, hdedupe, hkey⟩

variable {reading : Reading}

variable {job : Job}

/-- An enqueue that returns leaves a job of its key. -/
theorem validation_of_enqueue {q q' : SqliteQueue}
    (h : q.enqueue cfg reading campaign.text "independent_validation" payload 2 (some (dedupeKey f)) = .ok (job, q')) :
    ∃ j ∈ q'.rows, IsValidation campaign f j := by
  unfold SqliteQueue.enqueue at h
  split at h
  · cases h
  rename_i r hr
  obtain ⟨key, hrdedupe, htext⟩ := dedupe_of_validate hr
  have hvalidation : ∀ j : Job, j.dedupe = r.dedupe → IsValidation campaign f j := by
    intro j hj
    rw [hrdedupe] at hj
    obtain ⟨key', hkey', heq⟩ := Option.map_eq_some_iff.mp hj
    obtain ⟨hcampaign, hrest⟩ := Prod.mk.inj heq
    obtain ⟨hkind, hsame⟩ := Prod.mk.inj hrest
    refine ⟨hcampaign, hkind, ?_⟩
    rw [hkey', Option.map_some, hsame, htext]
  split at h
  · rename_i existing hexisting
    split at h
    · cases h
    cases h
    unfold SqliteQueue.selectDedupe at hexisting
    rw [hrdedupe] at hexisting
    obtain ⟨hmem, hindex⟩ := (q.lookup?_eq_some _ _).mp hexisting
    exact ⟨existing, hmem, hvalidation existing (hindex.trans hrdedupe.symm)⟩
  · rename_i hnone
    unfold SqliteQueue.insertJob at h
    split at h
    · rename_i hinsert
      split at h
      · cases h
      cases h
      refine ⟨r.newJob reading.uuid reading.now, ?_, hvalidation _ (EnqueueRequest.newJob_dedupe ..)⟩
      rw [(q.insert_eq_some hinsert).1]
      exact List.mem_append_right _ (List.mem_singleton_self _)
    · unfold SqliteQueue.afterConflict at h
      rw [hnone] at h
      cases h

/-- Where a finding has a validation, whatever its status, another one is not added. -/
theorem no_second_validation {q q' : SqliteQueue}
    (hthere : ∃ j ∈ q.rows, IsValidation campaign f j)
    (h : q.enqueue cfg reading campaign.text "independent_validation" payload 2 (some (dedupeKey f)) = .ok (job, q')) : q' = q := by
  obtain ⟨j, hj, hcampaign, hkind, hkey⟩ := hthere
  obtain ⟨key', hkey', htext'⟩ := Option.map_eq_some_iff.mp hkey
  unfold SqliteQueue.enqueue at h
  split at h
  · cases h
  rename_i r hr
  obtain ⟨key, hrdedupe, htext⟩ := dedupe_of_validate hr
  have hindex : j.dedupe = some (campaign, .independentValidation, key) := by
    unfold Job.dedupe
    rw [hkey', Option.map_some, hcampaign, hkind, Ident.text_injective (htext'.trans htext.symm)]
  have hexisting : q.selectDedupe r = some j := by
    unfold SqliteQueue.selectDedupe
    rw [hrdedupe]
    exact (q.lookup?_eq_some _ _).mpr ⟨hj, hindex⟩
  rw [hexisting] at h
  dsimp only at h
  split at h
  · cases h
  cases h
  rfl

/-! ## The invariant -/

structure Inv (campaign : Ident) (s : System) : Prop where
  fresh : Fresh campaign s
  ingested : ∀ f ∈ s.ingested, ScannerId f ∧ ∃ j ∈ s.queue.rows, IsValidation campaign f j
  scans : ∀ h version existing added left, s.scan h = .ingesting version existing added left →
    (∀ f ∈ added, ScannerId f ∧ ∃ j ∈ s.queue.rows, IsValidation campaign f j) ∧ ∀ f ∈ left, ScannerId f

variable {s : System}

theorem inv_of_initial (h : Initial campaign s) : Inv campaign s := by
  refine ⟨h.fresh, fun f hf => ?_, fun i version existing added left hscan => ?_⟩
  · rw [h.ingested] at hf
    cases hf
  · rw [h.idle i] at hscan
    cases hscan

variable {handed : Option Job}

/-- A queue whose rows are kept has the validations that it had. -/
theorem validation_kept {q q' : SqliteQueue} (hrows : SqliteQueue.RowsKept q q' handed)
    (hstays : ∀ id j, q.find? id = some j → ∃ j', q'.find? id = some j')
    (h : ∃ j ∈ q.rows, IsValidation campaign f j) : ∃ j ∈ q'.rows, IsValidation campaign f j := by
  obtain ⟨j, hj, hvalidation⟩ := h
  obtain ⟨j', hj'⟩ := hstays j.id j (q.find?_key hj)
  refine ⟨j', ((q'.find?_eq_some _ _).mp hj').1, ?_⟩
  rcases hrows j.id j' hj' with ⟨before, hbefore, hdedupe, -⟩ | ⟨hnone, -⟩
  · rw [q.find?_key hj] at hbefore
    cases hbefore
    exact isValidation_of_dedupe hvalidation hdedupe
  · rw [q.find?_key hj] at hnone
    cases hnone

/-- A queue whose rows are kept stays fresh where what was handed out is recorded. -/
theorem fresh_kept {s' : System} (h : Fresh campaign s) (hrows : SqliteQueue.RowsKept s.queue s'.queue handed)
    (hran : ∀ id ∈ s.ran, id ∈ s'.ran)
    (hhanded : ∀ j, handed = some j → ∀ f, ScannerId f → IsValidation campaign f j → j.id ∈ s'.ran) : Fresh campaign s' := by
  intro f hid j hj hvalidation
  rcases hrows j.id j (s'.queue.find?_key hj) with ⟨before, hbefore, hdedupe, hqueued⟩ | ⟨-, hqueued⟩
  · obtain ⟨hmem, hsame⟩ := (s.queue.find?_eq_some _ _).mp hbefore
    rcases h f hid before hmem (isValidation_of_dedupe hvalidation hdedupe.symm) with hstatus | hknown
    · rcases hqueued hstatus with hstatus | hgiven
      · exact .inl hstatus
      · exact .inr (hhanded j hgiven f hid hvalidation)
    · rw [hsame] at hknown
      exact .inr (hran _ hknown)
  · exact .inl hqueued

/-- No call takes a job out of the table. -/
theorem stays_call {c : QueueCall} {q : SqliteQueue} (id : Ident) (j : Job) (h : q.find? id = some j) :
    ∃ j', (q.call cfg reading c).2.find? id = some j' := by
  obtain ⟨j', hj', -⟩ := (SqliteQueue.call_transition cfg reading q c).kept id j h
  exact ⟨j', hj'⟩

/-- The table after an enqueue that returns is that of the call. -/
theorem queue_of_enqueue {q q' : SqliteQueue} {campaignId kind : String} {attempts : Int}
    {key : Option String} (h : q.enqueue cfg reading campaignId kind payload attempts key = .ok (job, q')) :
    (q.call cfg reading (.enqueue campaignId kind payload attempts key)).2 = q' := by
  unfold SqliteQueue.call
  dsimp only
  rw [h]
  rfl

/-- A change of one scan's phase. -/
theorem Inv.setScan (h : Inv campaign s) {i : Nat} {p : ScanPhase}
    (hp : ∀ version existing added left, p = .ingesting version existing added left →
      (∀ f ∈ added, ScannerId f ∧ ∃ j ∈ s.queue.rows, IsValidation campaign f j) ∧ ∀ f ∈ left, ScannerId f) :
    Inv campaign (s.setScan i p) := by
  refine ⟨h.fresh, h.ingested, fun k version existing added left hscan => ?_⟩
  unfold System.setScan at hscan
  dsimp only at hscan
  by_cases hk : k = i
  · rw [hk, Function.update_self] at hscan
    exact hp version existing added left hscan
  · rw [Function.update_of_ne hk] at hscan
    exact h.scans k version existing added left hscan

theorem Inv.idle (h : Inv campaign s) (i : Nat) : Inv campaign (s.setScan i .idle) :=
  h.setScan fun _ _ _ _ heq => by cases heq

/-- A change of the queue that keeps the rows, with what it hands out recorded. -/
theorem Inv.queue {s' : System} (h : Inv campaign s) (hrows : SqliteQueue.RowsKept s.queue s'.queue handed)
    (hstays : ∀ id j, s.queue.find? id = some j → ∃ j', s'.queue.find? id = some j') (hran : ∀ id ∈ s.ran, id ∈ s'.ran)
    (hhanded : ∀ j, handed = some j → ∀ f, ScannerId f → IsValidation campaign f j → j.id ∈ s'.ran)
    (hingested : s'.ingested = s.ingested) (hscan : s'.scan = s.scan) : Inv campaign s' := by
  refine ⟨fresh_kept h.fresh hrows hran hhanded, fun f hf => ?_, fun i version existing added left hphase => ?_⟩
  · rw [hingested] at hf
    obtain ⟨hid, hvalidation⟩ := h.ingested f hf
    exact ⟨hid, validation_kept hrows hstays hvalidation⟩
  · rw [hscan] at hphase
    obtain ⟨hadded, hleft⟩ := h.scans i version existing added left hphase
    refine ⟨fun f hf => ?_, hleft⟩
    obtain ⟨hid, hvalidation⟩ := hadded f hf
    exact ⟨hid, validation_kept hrows hstays hvalidation⟩

theorem Inv.step (h : Inv campaign s) {a : Action} (hstored : HandsStored cfg campaign s a) :
    Inv campaign (step cfg campaign s a) := by
  cases a with
  | load i reported =>
    unfold ScanIngestion.step
    dsimp only
    split
    · refine h.setScan fun version existing added left heq => ?_
      cases heq
      exact ⟨fun f hf => (by cases hf), hstored⟩
    · exact h
  | ingest i payload reading =>
    unfold ScanIngestion.step
    dsimp only
    split
    · rename_i version existing added finding left hscan
      obtain ⟨hadded, hleft⟩ := h.scans i _ _ _ _ hscan
      have hrest : ∀ f ∈ left, ScannerId f := fun f hf => hleft f (List.mem_cons_of_mem _ hf)
      split
      · refine h.setScan fun _ _ _ _ heq => ?_
        cases heq
        exact ⟨hadded, hrest⟩
      split
      · exact h.idle i
      · rename_i job queue henqueue
        have hcall := queue_of_enqueue henqueue
        have hqueue : Inv campaign { s with queue := queue } :=
          h.queue (SqliteQueue.enqueue_rowsKept henqueue) (fun id j hj => hcall ▸ stays_call id j hj) (fun _ hid => hid)
            (fun _ hnone => by cases hnone) rfl rfl
        obtain ⟨hadded', -⟩ := hqueue.scans i _ _ _ _ hscan
        refine hqueue.setScan fun _ _ _ _ heq => ?_
        cases heq
        refine ⟨fun f hf => ?_, hrest⟩
        rcases List.mem_append.mp hf with hold | hnew
        · exact hadded' f hold
        · rw [List.mem_singleton.mp hnew]
          exact ⟨hleft finding (List.mem_cons_self ..), validation_of_enqueue henqueue⟩
    · exact h
  | save i =>
    unfold ScanIngestion.step
    dsimp only
    split
    · rename_i version existing added hscan
      obtain ⟨hadded, -⟩ := h.scans i _ _ _ _ hscan
      have hidle := h.idle i
      split
      · refine ⟨hidle.fresh, fun f hf => ?_, hidle.scans⟩
        rcases List.mem_append.mp hf with hold | hnew
        · exact h.ingested f hold
        · exact hadded f hnew
      · exact hidle
    · exact h
  | crash i => exact h.idle i
  | write added => exact ⟨h.fresh, h.ingested, h.scans⟩
  | call c reading =>
    obtain ⟨hsweep, hhands⟩ := hstored
    refine h.queue (SqliteQueue.call_rowsKept cfg reading s.queue hsweep) (fun id j hj => stays_call id j hj)
      (fun id hid => List.mem_append_left _ hid) (fun j hj f hid hvalidation => ?_) rfl rfl
    refine List.mem_append_right _ (List.mem_map.mpr ⟨j, List.mem_filter.mpr ⟨?_, ?_⟩, rfl⟩)
    · rw [hj]
      exact List.mem_singleton_self j
    · exact List.any_eq_true.mpr ⟨f, hhands j hj f hid hvalidation, decide_eq_true hvalidation⟩

/-- Where no worker is handed a validation whose finding is not stored, every finding that a scan has stored has a validation that is
queued, is running or has run while the finding was stored. -/
theorem ingested_validated {s : System} {l : List Action} (hinitial : Initial campaign s) (hrun : StoredRun cfg campaign s l) :
    ∀ f ∈ (steps cfg campaign s l).ingested, Validated campaign (steps cfg campaign s l) f := by
  have hinv : ∀ {s : System} {l : List Action}, Inv campaign s → StoredRun cfg campaign s l → Inv campaign (steps cfg campaign s l) := by
    intro s l h hrun
    induction l generalizing s with
    | nil => exact h
    | cons a l ih => exact ih (h.step hrun.1) hrun.2
  have h := hinv (inv_of_initial hinitial) hrun
  intro f hf
  obtain ⟨hid, j, hj, hvalidation⟩ := h.ingested f hf
  refine ⟨j, hj, hvalidation, ?_⟩
  rcases h.fresh f hid j hj hvalidation with hqueued | hran
  · exact .inl hqueued
  · exact .inr (.inr hran)

/-! ## A validation that is too early -/

def sampleSystem : System := ⟨0, [], Table.empty, fun _ => .idle, [], []⟩

def sampleReading : Reading := ⟨0, Orchestrator.sampleValidation⟩

/-- A scan job loads the campaign and enqueues the validation of its finding. -/
def sampleIngestion : List Action := [.load 0 ["nuclei-f"], .ingest 0 .empty sampleReading]

/-- A worker is handed the next job, and fails with it. -/
def failedAttempt : List Action :=
  [.call (.claim "worker") sampleReading, .call (.finish "validation" "worker" false (some "finding nuclei-f not found")) sampleReading]

theorem initial_sampleSystem (campaign : Ident) : Initial campaign sampleSystem :=
  ⟨fun _ => rfl, rfl, fun _ _ j hj => by cases hj⟩

theorem ingested_validated_sample :
    (steps QueueSettings.default Orchestrator.sampleCampaign sampleSystem (sampleIngestion ++ [.save 0])).ingested.length = 1 ∧
      ∀ f ∈ (steps QueueSettings.default Orchestrator.sampleCampaign sampleSystem (sampleIngestion ++ [.save 0])).ingested,
        Validated Orchestrator.sampleCampaign
          (steps QueueSettings.default Orchestrator.sampleCampaign sampleSystem (sampleIngestion ++ [.save 0])) f := by
  refine ⟨by decide +kernel, ingested_validated (initial_sampleSystem _) ⟨fun f hf => ?_, trivial, trivial, trivial⟩⟩
  rw [List.mem_singleton.mp hf]
  unfold ScannerId
  decide

/-- Two workers are too early, and then the scan saves its finding. -/
def strandedRun : List Action := sampleIngestion ++ failedAttempt ++ failedAttempt ++ [.save 0]

theorem jobs_strandedRun :
    (steps QueueSettings.default Orchestrator.sampleCampaign sampleSystem strandedRun).queue.rows.map
      (fun j => (decide (IsValidation Orchestrator.sampleCampaign "nuclei-f" j), j.status)) = [(true, .failed)] := by decide +kernel

/-- The finding is stored, its only validation has failed, and no enqueue adds another one. -/
theorem stranded_finding :
    "nuclei-f" ∈ (steps QueueSettings.default Orchestrator.sampleCampaign sampleSystem strandedRun).ingested ∧
    ¬ Validated Orchestrator.sampleCampaign (steps QueueSettings.default Orchestrator.sampleCampaign sampleSystem strandedRun)
      "nuclei-f" ∧
    ∀ cfg reading payload job q',
      (steps QueueSettings.default Orchestrator.sampleCampaign sampleSystem strandedRun).queue.enqueue cfg reading
        Orchestrator.sampleCampaign.text "independent_validation" payload 2 (some (dedupeKey "nuclei-f")) = .ok (job, q') →
      q' = (steps QueueSettings.default Orchestrator.sampleCampaign sampleSystem strandedRun).queue := by
  have hran : (steps QueueSettings.default Orchestrator.sampleCampaign sampleSystem strandedRun).ran = [] := by decide +kernel
  refine ⟨by decide +kernel, ?_, fun cfg reading payload job q' h => no_second_validation ?_ h⟩
  · rintro ⟨j, hj, -, hstatus⟩
    have hmem := List.mem_map_of_mem hj (f := fun j => (decide (IsValidation Orchestrator.sampleCampaign "nuclei-f" j), j.status))
    rw [jobs_strandedRun] at hmem
    have hfailed : j.status = .failed := (Prod.mk.inj (List.mem_singleton.mp hmem)).2
    rcases hstatus with hqueued | hrunning | hknown
    · rw [hfailed] at hqueued
      cases hqueued
    · rw [hfailed] at hrunning
      cases hrunning
    · rw [hran] at hknown
      cases hknown
  · have hmem := List.mem_singleton_self (true, JobStatus.failed)
    rw [← jobs_strandedRun] at hmem
    obtain ⟨j, hj, heq⟩ := List.mem_map.mp hmem
    exact ⟨j, hj, of_decide_eq_true (Prod.mk.inj heq).1⟩

end ScanIngestion

end XbowPerso
