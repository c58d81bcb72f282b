import XbowPerso.SqliteQueue
import XbowPerso.Lifecycle

/-!
# What the calls of the SQLite queue do

One lemma for each call says everything it can do: the claims (`ClaimEffect`), the calls of a worker on its job (`OwnEffect`) and
`enqueue` (`EnqueueEffect`). From them, every call is a transition of the life of all jobs.
-/

namespace XbowPerso

/-- The job and the worker that a call of a worker names. -/
def QueueCall.act : QueueCall → Option (Ident × Ident)
  | .heartbeat jobId workerId | .finish jobId workerId _ _ | .cancelOwned jobId workerId _ =>
    match boundedIdentifier jobId "job_id", boundedIdentifier workerId "worker_id" with
    | .ok id, .ok worker => some (id, worker)
    | _, _ => none
  | _ => none

/-- The answer that a call of a worker had an effect. -/
def QueueResult.accepted : QueueResult → Bool
  | .flag b => b
  | .job j => j.isSome
  | .count _ => false

namespace SqliteQueue

variable {cfg : QueueSettings} {env : Reading} {q q' : SqliteQueue}

variable {id : Ident} {j : Job}

theorem id_of_find? (h : q.find? id = some j) : j.id = id := ((q.find?_eq_some id j).mp h).2

theorem find?_of_mem (h : j ∈ q.rows) : q.find? j.id = some j := q.find?_key h

/-- The rows after an update. -/
theorem updateWhere_find? (q : SqliteQueue) (p : Job → Bool) (f : Job → Job) (hk : ∀ j, (f j).id = j.id)
    (hi : ∀ j, (f j).dedupe = j.dedupe) (id : Ident) :
    (q.updateWhere p f hk hi).2.find? id = (q.find? id).map (fun j => if p j then f j else j) := by
  simp only [updateWhere, Table.find?_update]

/-- The rows after the recovery. -/
theorem recoverExpired_find? (cfg : QueueSettings) (now : Int) (q : SqliteQueue) (id : Ident) :
    (recoverExpired cfg now q).2.find? id = (q.find? id).map (recoverRow cfg now) := by
  simp only [recoverExpired, Table.find?_update]

/-- An update under a key changes the row of that key alone. -/
theorem updateWhere_key (c : Job → Bool) (f : Job → Job) (hk : ∀ j, (f j).id = j.id)
    (hi : ∀ j, (f j).dedupe = j.dedupe) (hj : q.find? id = some j) (hc : c j = true) :
    (q.updateWhere (fun r => decide (r.id = id) && c r) f hk hi).1 = 1 ∧
      ∀ k, (q.updateWhere (fun r => decide (r.id = id) && c r) f hk hi).2.find? k =
        if k = id then some (f j) else q.find? k := by
  refine ⟨q.countP_key_eq_one hj hc, fun k => ?_⟩
  rw [updateWhere_find?]
  by_cases hkid : k = id
  · subst hkid
    simp [hj, hc, id_of_find? hj]
  · rw [if_neg hkid]
    cases hr : q.find? k with
    | none => rfl
    | some r =>
      have : r.id ≠ id := by
        rw [id_of_find? hr]
        exact hkid
      simp [this]

/-- An update under a key whose row does not meet the condition changes nothing. -/
theorem updateWhere_key_none (c : Job → Bool) (f : Job → Job) (hk : ∀ j, (f j).id = j.id)
    (hi : ∀ j, (f j).dedupe = j.dedupe) (h : ∀ j, q.find? id = some j → c j = false) :
    q.updateWhere (fun r => decide (r.id = id) && c r) f hk hi = (0, q) := by
  have hrow : ∀ r ∈ q.rows, (decide (r.id = id) && c r) = false := by
    intro r hr
    by_cases hid : r.id = id
    · simp [hid, h r (hid ▸ find?_of_mem hr)]
    · simp [hid]
  unfold updateWhere
  refine Prod.ext (q.countP_key_eq_zero h) (q.update_eq_self _ (by grind) (by grind) ?_)
  intro r hr
  simp [hrow r hr]

/-! ## The claims -/

/-- What a claim does: it recovers, then finds no claimable row, or marks the oldest one running and hands it over. -/
inductive ClaimEffect (cfg : QueueSettings) (now : Int) (worker : Ident) (p : JobKind → Bool) (q : SqliteQueue) :
    Option Job → SqliteQueue → Prop
  | idle (hn : ∀ j ∈ (recoverExpired cfg now q).2.rows, claimable p j = false) :
      ClaimEffect cfg now worker p q none (recoverExpired cfg now q).2
  | handed (row : Job) (q' : SqliteQueue) (hr : (recoverExpired cfg now q).2.find? row.id = some row)
      (hc : claimable p row = true)
      (hmin : ∀ j ∈ (recoverExpired cfg now q).2.rows, claimable p j = true → row.createdAt ≤ j.createdAt)
      (hq : ∀ k, q'.find? k =
        if k = row.id then some (row.claimed worker now) else (recoverExpired cfg now q).2.find? k) :
      ClaimEffect cfg now worker p q (some (row.claimed worker now)) q'

theorem claimable_iff {p : JobKind → Bool} :
    claimable p j = true ↔ j.status = .queued ∧ p j.kind = true ∧ j.attempts < j.maxAttempts := by
  simp [claimable, and_assoc]

/-- The update of a claim reaches the row that was selected. -/
theorem markRunning_spec (worker : Ident) (now : Int) {row : Job} {p : JobKind → Bool} (p' : JobKind → Bool) (hr : q.find? row.id = some row)
    (hc : claimable p row = true) (hp : p' row.kind = true) :
    (markRunning q worker now row p').1 = 1 ∧
      ∀ k, (markRunning q worker now row p').2.find? k =
        if k = row.id then some (row.claimed worker now) else q.find? k := by
  obtain ⟨hs, -, -⟩ := claimable_iff.mp hc
  have h := updateWhere_key (fun j => decide (j.status = .queued) && p' j.kind) (fun j => j.claimed worker now)
    (fun _ => rfl) (fun _ => rfl) hr (by simp [hs, hp])
  simpa only [markRunning, Bool.and_assoc] using h

variable {β : Type}

/-- What a selection by `argmin` selects. -/
theorem argmin_rows [LinearOrder β] {f : Job → β} {p : JobKind → Bool} {rows : List Job} {row : Job}
    (h : (rows.filter (claimable p)).argmin f = some row) :
    row ∈ rows ∧ claimable p row = true ∧ ∀ j ∈ rows, claimable p j = true → f row ≤ f j := by
  obtain ⟨hm, hp⟩ := List.mem_filter.mp (List.argmin_mem h)
  exact ⟨hm, hp, fun j hj hpj => List.le_of_mem_argmin (List.mem_filter.mpr ⟨hj, hpj⟩) h⟩

theorem argmin_eq_none_rows [LinearOrder β] {f : Job → β} {p : JobKind → Bool} {rows : List Job}
    (h : (rows.filter (claimable p)).argmin f = none) : ∀ j ∈ rows, claimable p j = false := by
  rw [List.argmin_eq_none, List.filter_eq_nil_iff] at h
  intro j hj
  simpa using h j hj

/-- The end of `claim_allowed` and `claim_kind`, for the row of a selection that puts the oldest rows first. -/
theorem claimRow_effect [LinearOrder β] (cfg : QueueSettings) (worker : Ident) (now : Int) (q : SqliteQueue)
    (p p' : JobKind → Bool) (f : Job → β)
    (hp : ∀ k, p k = true → p' k = true) (hf : ∀ i j, f i ≤ f j → i.createdAt ≤ j.createdAt) :
    let recovered := (recoverExpired cfg now q).2
    let out := claimRow worker now q recovered p' ((recovered.rows.filter (claimable p)).argmin f)
    ClaimEffect cfg now worker p q out.1 out.2 := by
  intro recovered out
  cases hrow : (recovered.rows.filter (claimable p)).argmin f with
  | none =>
    have hout : out = (none, recovered) := by simp only [out, hrow, claimRow]
    rw [hout]
    exact .idle (argmin_eq_none_rows hrow)
  | some row =>
    obtain ⟨hm, hc, hmin⟩ := argmin_rows hrow
    have hr := find?_of_mem hm
    obtain ⟨hone, hq⟩ := markRunning_spec worker now p' hr hc (hp _ (claimable_iff.mp hc).2.1)
    have hout : out = (some (row.claimed worker now), (markRunning recovered worker now row p').2) := by
      simp only [out, hrow, claimRow, hone, if_true, get, hq]
    rw [hout]
    exact .handed row _ hr hc (fun j hj hpj => hf _ _ (hmin j hj hpj)) hq

variable {workerId : String} {res : Option Job}

theorem claim_effect (h : claim cfg env q workerId = .ok (res, q')) :
    ∃ worker, boundedIdentifier workerId "worker_id" = .ok worker ∧
      ClaimEffect cfg env.now worker JobKind.usesGenericQueue q res q' := by
  unfold claim at h
  cases hw : boundedIdentifier workerId "worker_id" with
  | error e => rw [hw] at h; cases h
  | ok worker =>
    rw [hw] at h
    refine ⟨worker, rfl, ?_⟩
    simp only at h
    split at h
    · rename_i hrow
      cases h
      exact .idle (argmin_eq_none_rows hrow)
    · rename_i row hrow
      obtain ⟨hm, hc, hmin⟩ := argmin_rows hrow
      have hr := find?_of_mem hm
      obtain ⟨-, hq⟩ := markRunning_spec worker env.now (fun _ => true) hr hc rfl
      cases h
      rw [get, hq, if_pos rfl]
      exact .handed row _ hr hc hmin hq

theorem claimAllowed_effect {kinds : List String}
    (h : claimAllowed cfg env q workerId kinds = .ok (res, q')) :
    ∃ worker ks, boundedIdentifier workerId "worker_id" = .ok worker ∧ requestedKinds kinds = .ok ks ∧
      ClaimEffect cfg env.now worker (fun k => decide (k ∈ ks)) q res q' := by
  unfold claimAllowed at h
  cases hw : boundedIdentifier workerId "worker_id" with
  | error e => rw [hw] at h; cases h
  | ok worker =>
    cases hk : requestedKinds kinds with
    | error e => rw [hw, hk] at h; cases h
    | ok ks =>
      rw [hw, hk] at h
      have heff := claimRow_effect cfg worker env.now q (fun k => decide (k ∈ ks)) (fun _ => true)
        (fun j => toLex (j.createdAt, j.id))
        (fun _ _ => rfl) (fun i j hij => (Prod.Lex.toLex_le_toLex.mp hij).elim le_of_lt (fun h => le_of_eq h.1))
      simp only [Except.ok.injEq] at h
      simp only [h] at heff
      exact ⟨worker, ks, rfl, rfl, heff⟩

theorem claimKind_effect {kind : String}
    (h : claimKind cfg env q workerId kind = .ok (res, q')) :
    ∃ worker k, boundedIdentifier workerId "worker_id" = .ok worker ∧ requestedKind kind = .ok k ∧
      ClaimEffect cfg env.now worker (fun k' => decide (k' = k)) q res q' := by
  unfold claimKind at h
  cases hw : boundedIdentifier workerId "worker_id" with
  | error e => rw [hw] at h; cases h
  | ok worker =>
    cases hk : requestedKind kind with
    | error e => rw [hw, hk] at h; cases h
    | ok k =>
      rw [hw, hk] at h
      have heff := claimRow_effect cfg worker env.now q (fun k' => decide (k' = k)) (fun k' => decide (k' = k)) Job.createdAt
        (fun _ h => h) (fun _ _ h => h)
      simp only [Except.ok.injEq] at h
      simp only [h] at heff
      exact ⟨worker, k, rfl, rfl, heff⟩

/-! ## The calls of a worker on its job -/

/-- What a call of a worker on its job does: nothing unless the job runs under that worker's identifier, else one update. -/
inductive OwnEffect (id worker : Ident) (f : Job → Job) (q : SqliteQueue) : Option Job → SqliteQueue → Prop
  | refused (hn : ∀ j, q.find? id = some j → ¬ j.OwnedBy worker) : OwnEffect id worker f q none q
  | done (j : Job) (q' : SqliteQueue) (hj : q.find? id = some j) (ho : j.OwnedBy worker)
      (hq : ∀ k, q'.find? k = if k = id then some (f j) else q.find? k) : OwnEffect id worker f q (some (f j)) q'

variable {worker : Ident}

/-- Only the update of the job itself matters. -/
theorem OwnEffect.congr {f g : Job → Job} (h : OwnEffect id worker f q res q')
    (hfg : ∀ j, q.find? id = some j → f j = g j) : OwnEffect id worker g q res q' := by
  cases h with
  | refused hn => exact .refused hn
  | done j _ hj ho hq =>
    rw [hfg j hj] at hq ⊢
    exact .done j _ hj ho hq

/-- The update that such a call makes, and what its count and the row of the job then say. -/
theorem ownedUpdate_effect (q : SqliteQueue) (id worker : Ident) (f : Job → Job) (hk : ∀ j, (f j).id = j.id)
    (hi : ∀ j, (f j).dedupe = j.dedupe) :
    ∃ res, OwnEffect id worker f q res (q.updateWhere (owned id worker) f hk hi).2 ∧
      decide ((q.updateWhere (owned id worker) f hk hi).1 = 1) = res.isSome ∧
      (if (q.updateWhere (owned id worker) f hk hi).1 = 1 then get (q.updateWhere (owned id worker) f hk hi).2 id
        else none) = res := by
  unfold owned
  by_cases ho : ∃ j, q.find? id = some j ∧ j.OwnedBy worker
  · obtain ⟨j, hj, ho⟩ := ho
    obtain ⟨hone, hq⟩ := updateWhere_key (fun j => decide (j.OwnedBy worker)) f hk hi hj (decide_eq_true ho)
    refine ⟨some (f j), .done j _ hj ho hq, by rw [hone]; rfl, ?_⟩
    rw [if_pos hone, get]
    exact (hq id).trans (if_pos rfl)
  · have hn : ∀ j, q.find? id = some j → ¬ j.OwnedBy worker := fun j hj hjo => ho ⟨j, hj, hjo⟩
    rw [updateWhere_key_none (fun j => decide (j.OwnedBy worker)) f hk hi (fun j hj => decide_eq_false (hn j hj))]
    exact ⟨none, .refused hn, rfl, rfl⟩

variable {jobId : String}

theorem heartbeat_effect {b : Bool} (h : heartbeat env q jobId workerId = .ok (b, q')) :
    ∃ id worker res, boundedIdentifier jobId "job_id" = .ok id ∧ boundedIdentifier workerId "worker_id" = .ok worker ∧
      OwnEffect id worker (fun j => j.renewed env.now) q res q' ∧ b = res.isSome := by
  unfold heartbeat at h
  cases hid : boundedIdentifier jobId "job_id" with
  | error e => rw [hid] at h; cases h
  | ok id =>
    cases hw : boundedIdentifier workerId "worker_id" with
    | error e => rw [hid, hw] at h; cases h
    | ok worker =>
      rw [hid, hw] at h
      simp only [Except.ok.injEq, Prod.mk.injEq] at h
      obtain ⟨rfl, rfl⟩ := h
      obtain ⟨res, heff, hb, -⟩ := ownedUpdate_effect q id worker (fun j => j.renewed env.now) (fun _ => rfl)
        (fun _ => rfl)
      exact ⟨id, worker, res, rfl, rfl, heff, hb⟩

theorem finish_effect {success : Bool} {error : Option String}
    (h : finish env q jobId workerId success error = .ok (res, q')) :
    ∃ id worker, boundedIdentifier jobId "job_id" = .ok id ∧ boundedIdentifier workerId "worker_id" = .ok worker ∧
      OwnEffect id worker
        (fun j => j.released (j.finishedStatus success) (Job.errorText (error.getD "")) env.now) q res q' := by
  unfold finish at h
  cases hid : boundedIdentifier jobId "job_id" with
  | error e => rw [hid] at h; cases h
  | ok id =>
    cases hw : boundedIdentifier workerId "worker_id" with
    | error e => rw [hid, hw] at h; cases h
    | ok worker =>
      rw [hid, hw] at h
      refine ⟨id, worker, rfl, rfl, ?_⟩
      simp only at h
      split at h
      · rename_i hnone
        cases h
        refine .refused fun j hj hjo => ?_
        obtain ⟨hm, hjid⟩ := (q.find?_eq_some id j).mp hj
        simpa [owned, hjid, hjo] using List.find?_eq_none.mp hnone j hm
      · rename_i row hrow
        have hm := List.mem_of_find?_eq_some hrow
        have hown : row.id = id ∧ row.OwnedBy worker := by simpa [owned] using List.find?_some hrow
        obtain ⟨hrid, -⟩ := hown
        have hfind : q.find? id = some row := hrid ▸ find?_of_mem hm
        simp only [Except.ok.injEq, Prod.mk.injEq] at h
        obtain ⟨rfl, rfl⟩ := h
        obtain ⟨res, heff, -, hres⟩ := ownedUpdate_effect q id worker
          (fun j => j.released (row.finishedStatus success) (Job.errorText (error.getD "")) env.now) (fun _ => rfl)
          (fun _ => rfl)
        rw [hres]
        refine heff.congr fun j hj => ?_
        rw [hfind] at hj
        cases hj
        rfl

theorem cancelOwned_effect {reason : String}
    (h : cancelOwned env q jobId workerId reason = .ok (res, q')) :
    ∃ id worker text, boundedIdentifier jobId "job_id" = .ok id ∧ boundedIdentifier workerId "worker_id" = .ok worker ∧
      cancelReason reason = .ok text ∧
      OwnEffect id worker (fun j => j.released .cancelled (Job.errorText text) env.now) q res q' := by
  unfold cancelOwned at h
  cases hid : boundedIdentifier jobId "job_id" with
  | error e => rw [hid] at h; cases h
  | ok id =>
    cases hw : boundedIdentifier workerId "worker_id" with
    | error e => rw [hid, hw] at h; cases h
    | ok worker =>
      cases hr : cancelReason reason with
      | error e => rw [hid, hw, hr] at h; cases h
      | ok text =>
        rw [hid, hw, hr] at h
        simp only [Except.ok.injEq, Prod.mk.injEq] at h
        obtain ⟨rfl, rfl⟩ := h
        obtain ⟨res, heff, -, hres⟩ := ownedUpdate_effect q id worker
          (fun j => j.released .cancelled (Job.errorText text) env.now) (fun _ => rfl) (fun _ => rfl)
        rw [hres]
        exact ⟨id, worker, text, rfl, rfl, rfl, heff⟩

/-- What `cancel_queued` does: it cancels the queued jobs of the campaign. -/
theorem cancelQueued_effect {campaignId : String} {n : Nat} (h : cancelQueued env q campaignId = .ok (n, q')) :
    ∃ campaign, boundedIdentifier campaignId "campaign_id" = .ok campaign ∧ ∀ id, q'.find? id = (q.find? id).map fun j =>
      if j.campaignId = campaign ∧ j.status = .queued then
        j.released .cancelled (some Job.cancelledError) env.now else j := by
  unfold cancelQueued at h
  cases hc : boundedIdentifier campaignId "campaign_id" with
  | error e => rw [hc] at h; cases h
  | ok campaign =>
    rw [hc] at h
    simp only [Except.ok.injEq] at h
    refine ⟨campaign, rfl, fun id => ?_⟩
    have hfind := updateWhere_find? q (fun j => decide (j.campaignId = campaign) && decide (j.status = .queued))
      (fun j => j.released .cancelled (some Job.cancelledError) env.now) (fun _ => rfl) (fun _ => rfl) id
    rw [h] at hfind
    simpa only [Bool.and_eq_true, decide_eq_true_eq] using hfind

/-! ## Enqueue -/

/-- What an `enqueue` with valid arguments does: it answers with the job of its key, or it inserts a new row, or the identifier it
drew was taken. -/
inductive EnqueueEffect (r : EnqueueRequest) (env : Reading) (q : SqliteQueue) : Except PyError Job → SqliteQueue → Prop
  | existing (e : Job) (he : q.selectDedupe r = some e) : EnqueueEffect r env q (r.answerExisting e) q
  | created (q' : SqliteQueue) (hn : q.find? env.uuid = none) (hd : q.selectDedupe r = none)
      (hq : q.insert (r.newJob env.uuid env.now) = some q') : EnqueueEffect r env q (.ok (r.newJob env.uuid env.now)) q'
  | taken (j : Job) (hj : q.find? env.uuid = some j) (hd : q.selectDedupe r = none) :
      EnqueueEffect r env q (.error .integrityError) q

variable {r : EnqueueRequest}

/-- A key that no row has is free for the insert. -/
theorem lookup?_of_selectDedupe (h : q.selectDedupe r = none) (u : Ident × JobKind × Ident)
    (hu : (r.newJob env.uuid env.now).dedupe = some u) : q.lookup? u = none := by
  rw [EnqueueRequest.newJob_dedupe] at hu
  unfold selectDedupe at h
  rwa [hu] at h

/-- The insert of an `enqueue` whose first select found nothing. -/
theorem insertJob_effect (q : SqliteQueue) (r : EnqueueRequest) (env : Reading) (h : q.selectDedupe r = none) :
    (∃ q', q.insertJob r env = .ok (r.newJob env.uuid env.now, q') ∧
      EnqueueEffect r env q (.ok (r.newJob env.uuid env.now)) q') ∨
    (q.insertJob r env = .error .integrityError ∧ EnqueueEffect r env q (.error .integrityError) q) := by
  cases hid : q.find? env.uuid with
  | none =>
    obtain ⟨q', hq'⟩ := q.insert_of_fresh (r := r.newJob env.uuid env.now) hid (lookup?_of_selectDedupe h)
    left
    refine ⟨q', ?_, .created q' hid h hq'⟩
    have hf := q.find?_insert hq' env.uuid
    rw [EnqueueRequest.newJob_id, if_pos rfl] at hf
    simp only [insertJob, hq', get, hf]
  | some j =>
    right
    refine ⟨?_, .taken j hid h⟩
    have hno : q.insert (r.newJob env.uuid env.now) = none := by
      cases hins : q.insert (r.newJob env.uuid env.now) with
      | none => rfl
      | some q' =>
        have := (q.insert_eq_some hins).2.1
        rw [EnqueueRequest.newJob_id, hid] at this
        cases this
    simp only [insertJob, hno, afterConflict, h]

theorem enqueue_effect (env : Reading) (q : SqliteQueue) {campaignId kind : String} {payload : Payload} {maxAttempts : Int} {dedupeKey : Option String}
    (hr : EnqueueRequest.validate cfg campaignId kind payload maxAttempts dedupeKey = .ok r) :
    ∃ res q', EnqueueEffect r env q res q' ∧
      settle q (fun j => .job (some j)) (enqueue cfg env q campaignId kind payload maxAttempts dedupeKey) =
        (res.map (fun j => .job (some j)), q') := by
  unfold enqueue
  simp only [hr]
  cases hd : q.selectDedupe r with
  | some e =>
    refine ⟨r.answerExisting e, q, .existing e hd, ?_⟩
    cases hans : r.answerExisting e <;> simp only [hans] <;> rfl
  | none =>
    rcases insertJob_effect q r env hd with ⟨q', hq', heff⟩ | ⟨hq', heff⟩
    · refine ⟨_, q', heff, ?_⟩
      rw [hq']
      rfl
    · refine ⟨_, q, heff, ?_⟩
      rw [hq']
      rfl

/-! ## Every call is a transition -/

/-- The jobs of the table, each under its identifier. -/
def store (q : SqliteQueue) : JobStore := q.find?

open JobStore in
theorem recoverExpired_transition (cfg : QueueSettings) (now : Int) (q : SqliteQueue) :
    Transition q.store (recoverExpired cfg now q).2.store none := by
  have h : (recoverExpired cfg now q).2.store = fun id => (q.store id).map (recoverRow cfg now) :=
    funext fun id => recoverExpired_find? cfg now q id
  rw [h]
  refine .of_map fun id j _ => ?_
  unfold recoverRow
  split
  · rename_i hx
    exact .inr ⟨Job.step_recovered j _ now hx.1, rfl⟩
  · exact .inl rfl

open JobStore in
theorem ClaimEffect.transition {now : Int} {p : JobKind → Bool}
    (h : ClaimEffect cfg now worker p q res q') : Transition q.store q'.store (res.map Job.id) := by
  cases h with
  | idle hn => exact recoverExpired_transition cfg now q
  | handed row _ hr hc hmin hq =>
    obtain ⟨hs, -, hb⟩ := claimable_iff.mp hc
    exact (recoverExpired_transition cfg now q).trans (.of_claim hr hs hb worker now hq)

open JobStore in
theorem OwnEffect.transition {f : Job → Job} (h : OwnEffect id worker f q res q')
    (hf : ∀ j, j.OwnedBy worker → j.Step (f j) ∧ (f j).attempts = j.attempts) :
    Transition q.store q'.store none := by
  cases h with
  | refused hn => exact .refl _
  | done j _ hj ho hq =>
    have hst : q'.store = fun k => (q.store k).map (fun i => if i.id = id then f i else i) := by
      funext k
      show q'.find? k = (q.find? k).map _
      rw [hq k]
      by_cases hk : k = id
      · subst hk
        simp [hj, id_of_find? hj]
      · rw [if_neg hk]
        cases hi : q.find? k with
        | none => rfl
        | some i =>
          have : i.id ≠ id := by
            rw [id_of_find? hi]
            exact hk
          simp [this]
    rw [hst]
    refine .of_map fun k i hi => ?_
    split
    · rename_i hid
      have hik : k = id := (id_of_find? hi).symm.trans hid
      subst hik
      have : some i = some j := hi.symm.trans hj
      cases this
      exact .inr (hf _ ho)
    · exact .inl rfl

open JobStore in
theorem EnqueueEffect.transition {res : Except PyError Job} (h : EnqueueEffect r env q res q') :
    Transition q.store q'.store none := by
  cases h with
  | existing e he => exact .refl _
  | created _ hn hd hq => exact .of_new hn (r.newJob_wellFormed _ _) rfl (q.find?_insert hq)
  | taken j hj hd => exact .refl _

/-- What the owner of a job does to it. -/
inductive OwnerUpdate (now : Int) : (Job → Job) → Prop
  | renewed : OwnerUpdate now fun j => j.renewed now
  | finished (success : Bool) (error : Option String) : OwnerUpdate now fun j => j.released (j.finishedStatus success) error now
  | cancelled (error : Option String) : OwnerUpdate now fun j => j.released .cancelled error now

/-- What a call does to the table, and the job that it hands out. -/
inductive CallEffect (cfg : QueueSettings) (env : Reading) (q : SqliteQueue) (c : QueueCall) : Option Job → SqliteQueue → Prop
  | refused : CallEffect cfg env q c none q
  | enqueued {r : EnqueueRequest} {res : Except PyError Job} {q' : SqliteQueue} (hc : c.isEnqueue = true)
      (heff : EnqueueEffect r env q res q') : CallEffect cfg env q c none q'
  | claimed {worker : Ident} {p : JobKind → Bool} {res : Option Job} {q' : SqliteQueue} (heff : ClaimEffect cfg env.now worker p q res q') :
      CallEffect cfg env q c res q'
  | owned {id worker : Ident} {f : Job → Job} {res : Option Job} {q' : SqliteQueue} (heff : OwnEffect id worker f q res q')
      (hf : OwnerUpdate env.now f) (hact : c.act = some (id, worker))
      (haccepted : res.isSome = true → ∃ r, (q.call cfg env c).1 = .ok r ∧ r.accepted = true) : CallEffect cfg env q c none q'
  | swept {campaignId : String} {campaign : Ident} {q' : SqliteQueue} (hc : c = .cancelQueued campaignId)
      (hmap : ∀ id, q'.find? id = (q.find? id).map fun j =>
        if j.campaignId = campaign ∧ j.status = .queued then j.released .cancelled (some Job.cancelledError) env.now else j) :
      CallEffect cfg env q c none q'
  | recovered : CallEffect cfg env q c none (recoverExpired cfg env.now q).2

theorem call_effect (cfg : QueueSettings) (env : Reading) (q : SqliteQueue) (c : QueueCall) :
    CallEffect cfg env q c (c.handed (q.call cfg env c).1) (q.call cfg env c).2 := by
  cases c with
  | enqueue campaignId kind payload maxAttempts dedupeKey =>
    show CallEffect cfg env q _ none (settle q _ (enqueue cfg env q campaignId kind payload maxAttempts dedupeKey)).2
    cases hr : EnqueueRequest.validate cfg campaignId kind payload maxAttempts dedupeKey with
    | error e =>
      unfold enqueue
      rw [hr]
      exact .refused
    | ok r =>
      obtain ⟨res, q', heff, heq⟩ := enqueue_effect env q hr
      rw [heq]
      exact .enqueued rfl heff
  | claim workerId =>
    simp only [call]
    cases h : claim cfg env q workerId with
    | error e => exact .refused
    | ok out =>
      obtain ⟨worker, -, heff⟩ := claim_effect h
      exact .claimed heff
  | claimAllowed workerId kinds =>
    simp only [call]
    cases h : claimAllowed cfg env q workerId kinds with
    | error e => exact .refused
    | ok out =>
      obtain ⟨worker, ks, -, -, heff⟩ := claimAllowed_effect h
      exact .claimed heff
  | claimKind workerId kind =>
    simp only [call]
    cases h : claimKind cfg env q workerId kind with
    | error e => exact .refused
    | ok out =>
      obtain ⟨worker, k, -, -, heff⟩ := claimKind_effect h
      exact .claimed heff
  | heartbeat jobId workerId =>
    simp only [call]
    cases h : heartbeat env q jobId workerId with
    | error e => exact .refused
    | ok out =>
      obtain ⟨id, worker, res, hid, hw, heff, hres⟩ := heartbeat_effect h
      refine .owned heff .renewed (by simp only [QueueCall.act, hid, hw]) fun hsome => ⟨_, congrArg Prod.fst (congrArg _ h), hres.trans hsome⟩
  | finish jobId workerId success error =>
    simp only [call]
    cases h : finish env q jobId workerId success error with
    | error e => exact .refused
    | ok out =>
      obtain ⟨id, worker, hid, hw, heff⟩ := finish_effect h
      exact .owned heff (.finished success _) (by simp only [QueueCall.act, hid, hw]) fun hsome => ⟨_, congrArg Prod.fst (congrArg _ h), hsome⟩
  | cancelQueued campaignId =>
    simp only [call]
    cases h : cancelQueued env q campaignId with
    | error e => exact .refused
    | ok out =>
      obtain ⟨campaign, -, hmap⟩ := cancelQueued_effect h
      exact .swept rfl hmap
  | cancelOwned jobId workerId reason =>
    simp only [call]
    cases h : cancelOwned env q jobId workerId reason with
    | error e => exact .refused
    | ok out =>
      obtain ⟨id, worker, text, hid, hw, -, heff⟩ := cancelOwned_effect h
      exact .owned heff (.cancelled _) (by simp only [QueueCall.act, hid, hw]) fun hsome => ⟨_, congrArg Prod.fst (congrArg _ h), hsome⟩
  | recoverExpiredLeases => exact .recovered

open JobStore in
/-- Every call moves the jobs along their lives, and hands out what its result says. -/
theorem call_transition (cfg : QueueSettings) (env : Reading) (q : SqliteQueue) (c : QueueCall) :
    Transition q.store (q.call cfg env c).2.store ((c.handed (q.call cfg env c).1).map Job.id) := by
  have heffect := call_effect cfg env q c
  generalize c.handed (q.call cfg env c).1 = handed, (q.call cfg env c).2 = q' at heffect ⊢
  cases heffect with
  | refused => exact .refl _
  | enqueued hc heff => exact heff.transition
  | claimed heff => exact heff.transition
  | owned heff hf _ _ =>
    refine heff.transition fun j ho => ?_
    cases hf with
    | renewed => exact ⟨.renew j env.now ho.1 (by rw [ho.2]; rfl), rfl⟩
    | finished success error => exact ⟨Job.step_finished j success _ env.now ho.1, rfl⟩
    | cancelled error => exact ⟨.stop j .cancelled _ env.now ho.1 rfl, rfl⟩
  | swept hc hmap =>
    have hst : q'.store = fun k => (q.store k).map _ := funext hmap
    rw [hst]
    refine .of_map fun k j _ => ?_
    split
    · rename_i hp
      exact .inr ⟨.cancel j _ env.now hp.2, rfl⟩
    · exact .inl rfl
  | recovered => exact recoverExpired_transition cfg env.now q

/-! ## What brings jobs in -/

theorem ClaimEffect.absent {now : Int} {p : JobKind → Bool}
    (h : ClaimEffect cfg now worker p q res q') (hid : q.find? id = none) : q'.find? id = none := by
  have hrecovered : (recoverExpired cfg now q).2.find? id = none := by rw [recoverExpired_find?, hid, Option.map_none]
  cases h with
  | idle hn => exact hrecovered
  | handed row _ hr hc hmin hq =>
    have hne : id ≠ row.id := by
      rintro rfl
      rw [hr] at hrecovered
      cases hrecovered
    rw [hq, if_neg hne, hrecovered]

theorem OwnEffect.absent {f : Job → Job} (h : OwnEffect id worker f q res q') {k : Ident}
    (hk : q.find? k = none) : q'.find? k = none := by
  cases h with
  | refused hn => exact hk
  | done j _ hj ho hq =>
    have hne : k ≠ id := by
      rintro rfl
      rw [hj] at hk
      cases hk
    rw [hq, if_neg hne, hk]

/-- Only an enqueue brings jobs in, and it brings in a new one. -/
theorem call_added {c : QueueCall} (hid : q.find? id = none) (hj : (q.call cfg env c).2.find? id = some j) :
    c.isEnqueue = true ∧ j.createdAt = env.now := by
  have heffect := call_effect cfg env q c
  generalize c.handed (q.call cfg env c).1 = handed, (q.call cfg env c).2 = q' at heffect hj
  cases heffect with
  | refused => cases hid.symm.trans hj
  | enqueued henqueue heff =>
    cases heff with
    | existing => cases hid.symm.trans hj
    | taken => cases hid.symm.trans hj
    | created _ _ _ hq =>
      rw [q.find?_insert hq] at hj
      split at hj
      · cases hj
        exact ⟨henqueue, rfl⟩
      · cases hid.symm.trans hj
  | claimed heff => cases (heff.absent hid).symm.trans hj
  | owned heff _ _ _ => cases (heff.absent hid).symm.trans hj
  | swept _ hmap =>
    rw [hmap, hid] at hj
    cases hj
  | recovered =>
    rw [recoverExpired_find?, hid] at hj
    cases hj

theorem call_absent {c : QueueCall} (hc : c.isEnqueue = false) (hid : q.find? id = none) :
    (q.call cfg env c).2.find? id = none := by
  cases hj : (q.call cfg env c).2.find? id with
  | none => rfl
  | some j =>
    rw [(call_added hid hj).1] at hc
    cases hc

end SqliteQueue

end XbowPerso
