import XbowPerso.Lemmas.AuditSeal
import XbowPerso.Lemmas.SqliteCalls
import XbowPerso.Lib.JsonSize
import XbowPerso.PentagiFlow
import XbowPerso.Theorems.ContractRate

/-!
# A flow is created at most once

A flow has one attempt, so its job is handed out at most once, whatever becomes of the worker, of its lease and of the request; and a
dispatch of the same plan finds the row of the first. What is sent was verified against a campaign that was stored.
-/

namespace XbowPerso

namespace SqliteQueue

open JobStore

variable {cfg : QueueSettings} {env : Reading} {q q' : SqliteQueue}

/-! ## What brings jobs in -/

variable {id : Ident}

/-- A job that a step brings in is the new job of the request that is inserted. -/
theorem apply_added {t : SqliteStep} (ht : ∀ cfg c, t = .transaction cfg c → c.isEnqueue = false) {j : Job}
    (hid : q.find? id = none) (hj : (q.apply t env).find? id = some j) :
    ∃ r uuid now, t = .insert r uuid now ∧ j = r.newJob uuid now := by
  cases t with
  | insert r uuid now =>
    rcases insert_cases q r uuid now with ⟨q', heq, _, _, hq'⟩ | ⟨heq, _⟩
    · simp only [apply, heq, Option.getD_some, hq'] at hj
      split at hj
      · exact ⟨r, uuid, now, rfl, (Option.some.inj hj).symm⟩
      · rw [hid] at hj
        cases hj
    · simp only [apply, heq, Option.getD_none, hid] at hj
      cases hj
  | transaction cfg c =>
    simp only [apply, call_absent (ht cfg c rfl) hid] at hj
    cases hj
  | select r => rw [show q.apply (.select r) env = q from rfl, hid] at hj; cases hj
  | draw => rw [show q.apply .draw env = q from rfl, hid] at hj; cases hj
  | get k => rw [show q.apply (.get k) env = q from rfl, hid] at hj; cases hj

end SqliteQueue

namespace PentagiFlow

open ExecutionContract (Python)

open JobStore (Transition)

variable {py : Python} {settings : Settings}

/-! ## Permits -/

/-- A digest has sixty-four bytes. -/
theorem length_utf8_digest {text : String} (h : RunnerRpc.isHexOfLength 64 text = true) : (utf8 text).length = 64 := by
  have hascii := AuditSeal.isAscii_of_isHexOfLength h
  have hsum : ∀ cs : List Char, cs.any (fun c => decide (128 ≤ c.toNat)) = false → Json.byteLength cs = cs.length := by
    intro cs hcs
    induction cs with
    | nil => rfl
    | cons c cs ih =>
      rw [List.any_cons, Bool.or_eq_false_iff, decide_eq_false_iff_not] at hcs
      have hle : c.val ≤ 127 := UInt32.le_iff_toNat_le.mpr (show c.toNat ≤ 127 by omega)
      have hone : c.utf8Size = 1 := if_pos hle
      rw [Json.byteLength_cons, hone, ih hcs.2, List.length_cons]
      omega
  rw [length_utf8, Json.utf8ByteSize_eq, hsum _ hascii]
  exact eq_of_beq (Bool.and_eq_true_iff.mp h).1

variable {plan : Plan}

/-- The bytes of a key determine the campaign. -/
theorem keyMaterial_campaign {id id' fingerprint fingerprint' : String} {plan' : Plan}
    (hf : RunnerRpc.isHexOfLength 64 fingerprint = true) (hf' : RunnerRpc.isHexOfLength 64 fingerprint' = true)
    (h : keyMaterial py id fingerprint plan = keyMaterial py id' fingerprint' plan') : id = id' := by
  have hlength := length_utf8_digest hf
  have hlength' := length_utf8_digest hf'
  have hhash := length_utf8_digest (py.sha.hex_valid (canonicalPlanPayload plan))
  have hhash' := length_utf8_digest (py.sha.hex_valid (canonicalPlanPayload plan'))
  refine utf8_injective (List.append_inj_left' h ?_)
  simp only [List.length_cons, List.length_append, hlength, hlength', hhash, hhash']

variable {c : Campaign}

theorem evaluateAdmission_fingerprint {decision : Decision}
    (h : evaluateAdmission py settings c plan = .ok decision) : decision.policyFingerprint = policyFingerprint py c plan := by
  unfold evaluateAdmission at h
  split at h
  · cases h
  cases he : settings.enabled with
  | error e => rw [he] at h; cases h
  | ok enabled =>
    cases ha : settings.activeScans with
    | error e => rw [he, ha] at h; cases h
    | ok activeScans =>
      cases hd : settings.dryRun with
      | error e => rw [he, ha, hd] at h; cases h
      | ok dryRun =>
        cases hc : settings.admissionCap with
        | error e => rw [he, ha, hd, hc] at h; cases h
        | ok cap =>
          rw [he, ha, hd, hc] at h
          cases h
          rfl

variable {permit : Permit}

/-- A permit that verifies is the one that would be issued. -/
theorem permit_of_verify (h : verifyPermit py settings permit c plan = .ok ()) :
    issuePermit py settings c plan = .ok permit := by
  unfold verifyPermit at h
  split at h
  · cases h
  split at h
  · cases h
  split at h
  case h_1 => cases h
  case h_2 expected hissue =>
    split at h
    case isTrue => cases h
    case isFalse heq => rw [hissue, not_not.mp heq]

theorem issuePermit_eq_ok (h : issuePermit py settings c plan = .ok permit) :
    permit = ⟨c.id, plan.target, policyFingerprint py c plan,
      "pentagi:" ++ py.sha.hex (keyMaterial py c.id (policyFingerprint py c plan) plan), plan.endpoint, plan.modelProvider⟩ := by
  unfold issuePermit at h
  split at h
  case h_1 => cases h
  case h_2 decision hdecision =>
    split at h
    · cases h
    cases h
    rw [idempotencyKey, evaluateAdmission_fingerprint hdecision]

/-- Two campaigns with one key have two texts with one digest. -/
theorem collision_of_key {permit' : Permit} {c' : Campaign} {plan' : Plan} {settings' : Settings}
    (h : issuePermit py settings c plan = .ok permit) (h' : issuePermit py settings' c' plan' = .ok permit')
    (hkey : permit.idempotencyKey = permit'.idempotencyKey) (hne : c.id ≠ c'.id) :
    ∃ m m' : List UInt8, m ≠ m' ∧ py.sha.hex m = py.sha.hex m' := by
  rw [issuePermit_eq_ok h, issuePermit_eq_ok h'] at hkey
  refine ⟨keyMaterial py c.id (policyFingerprint py c plan) plan, keyMaterial py c'.id (policyFingerprint py c' plan') plan',
    fun heq => hne (keyMaterial_campaign (py.sha.hex_valid _) (py.sha.hex_valid _) heq), ?_⟩
  have hlist := congrArg String.toList hkey
  rw [String.toList_append, String.toList_append] at hlist
  exact String.toList_inj.mp (List.append_cancel_left hlist)

/-! ## The preflight -/

/-- What a job and a campaign that pass the preflight say. -/
structure Passed (py : Python) (settings : Settings) (job : Job) (found : Preflight) : Prop where
  kind : job.kind = .pentagiFlow
  campaign : job.campaignId.text = found.campaign.id
  key : job.dedupeKey.map Ident.text = some found.permit.idempotencyKey
  permit : verifyPermit py settings found.permit found.campaign found.plan = .ok ()

variable {job : Job}

theorem passed_of_preflight {found : Preflight} (h : preflight py settings job c = .ok found) :
    found.campaign = c ∧ Passed py settings job found := by
  unfold preflight at h
  split at h
  case isTrue => cases h
  case isFalse hkind =>
    split at h
    case isTrue => cases h
    case isFalse hcampaign =>
      split at h
      case isTrue => cases h
      case isFalse =>
        split at h
        case h_2 => cases h
        case h_1 fields hfields =>
          split at h
          case h_2 => cases h
          case h_1 request hrequest =>
            split at h
            case h_1 => cases h
            case h_2 campaignId plan permit hread =>
              split at h
              case isTrue => cases h
              case isFalse =>
                split at h
                case isTrue => cases h
                case isFalse hkey =>
                  split at h
                  case h_1 => cases h
                  case h_2 hverify =>
                    cases h
                    exact ⟨rfl, not_not.mp hkind, not_not.mp hcampaign, not_not.mp hkey, hverify⟩

/-! ## The invariant -/

/-- The row of a job that was handed out: it has lived on from what the worker was given, and had an attempt then. -/
def Handed (q : SqliteQueue) (job : Job) : Prop :=
  ∃ j, q.find? job.id = some j ∧ job.Evolves j ∧ 1 ≤ job.attempts

theorem Handed.attempts {q : SqliteQueue} {j : Job} (h : Handed q job) (hj : q.find? job.id = some j) : 1 ≤ j.attempts := by
  obtain ⟨j', hj', hevolves, hattempts⟩ := h
  cases hj.symm.trans hj'
  exact hattempts.trans hevolves.attempts_le

variable {handed : Option Ident}

theorem Handed.step {q q' : SqliteQueue} (h : Handed q job)
    (ht : Transition q.store q'.store handed) : Handed q' job := by
  obtain ⟨j, hj, hevolves, hattempts⟩ := h
  obtain ⟨j', hj', hstep, _⟩ := ht.kept job.id j hj
  exact ⟨j', hj', hevolves.trans hstep, hattempts⟩

/-- The flows of a queue: every row is well formed, and a flow has one attempt. -/
structure Flows (q : SqliteQueue) : Prop where
  wellFormed : ∀ id j, q.find? id = some j → j.WellFormed
  single : ∀ id j, q.find? id = some j → j.kind = .pentagiFlow → j.maxAttempts = 1

theorem Flows.step {q q' : SqliteQueue} (h : Flows q) (ht : Transition q.store q'.store handed)
    (hadded : ∀ id j, q.find? id = none → q'.find? id = some j → j.kind = .pentagiFlow → j.maxAttempts = 1) : Flows q' where
  wellFormed := ht.wellFormed h.wellFormed
  single := by
    intro id j' hj' hkind
    cases hj : q.find? id with
    | none => exact hadded id j' hj hj' hkind
    | some j =>
      obtain ⟨k, hk, hevolves, _⟩ := ht.kept id j hj
      cases hj'.symm.trans hk
      obtain ⟨_, _, hkindEq, _, hmax, _⟩ := hevolves.keeps
      rw [hmax]
      exact h.single id j hj (hkindEq ▸ hkind)

/-- Where a request of a flow may stand. -/
def Verified (py : Python) (s : System) : Phase → Prop
  | .verified job settings found | .leased job settings found => Passed py settings job found ∧ found.campaign ∈ s.documents
  | _ => True

/-- What a request that was sent says. -/
structure Entitled (py : Python) (s : System) (e : Sent) : Prop where
  handed : Handed s.queue e.job
  passed : Passed py e.settings e.job ⟨e.campaign, e.plan, e.permit⟩
  stored : e.campaign ∈ s.documents
  body : submitBody e.plan e.permit = .ok e.body

structure Inv (py : Python) (s : System) : Prop where
  flows : Flows s.queue
  dispatched : ∀ d r, s.dispatcher d = some r → r.maxAttempts = 1
  documents : ∀ id c, s.stored id = some c → c ∈ s.documents
  held : ∀ w job, (s.worker w).job? = some job → Handed s.queue job ∧ ∀ e ∈ s.sent, e.job.id ≠ job.id
  apart : ∀ w w' job job', w ≠ w' → (s.worker w).job? = some job → (s.worker w').job? = some job' → job.id ≠ job'.id
  verified : ∀ w, Verified py s (s.worker w)
  entitled : ∀ e ∈ s.sent, Entitled py s e
  distinct : (s.sent.map fun e => e.job.id).Nodup

theorem Inv.init : Inv py System.init where
  flows := ⟨fun _ _ h => (by cases h), fun _ _ h => (by cases h)⟩
  dispatched := fun _ _ h => (by cases h)
  documents := fun _ _ h => (by cases h)
  held := fun _ _ h => (by cases h)
  apart := fun _ _ _ _ _ h => (by cases h)
  verified := fun _ => trivial
  entitled := fun _ h => (by cases h)
  distinct := List.nodup_nil

variable {s : System}

/-- A step that changes the queue, and neither the workers nor what was sent. -/
theorem Inv.queueStep (h : Inv py s) {q' : SqliteQueue}
    (ht : Transition s.queue.store q'.store handed)
    (hadded : ∀ id j, s.queue.find? id = none → q'.find? id = some j → j.kind = .pentagiFlow → j.maxAttempts = 1) :
    Inv py { s with queue := q' } where
  flows := h.flows.step ht hadded
  dispatched := h.dispatched
  documents := h.documents
  held := fun w job hjob => ⟨(h.held w job hjob).1.step ht, (h.held w job hjob).2⟩
  apart := h.apart
  verified := fun w => by
    have hverified := h.verified w
    unfold Verified at hverified ⊢
    split <;> simp_all
  entitled := fun e he => ⟨(h.entitled e he).handed.step ht, (h.entitled e he).passed, (h.entitled e he).stored, (h.entitled e he).body⟩
  distinct := h.distinct

/-- A worker that goes on with its job or lets it go. -/
theorem Inv.setWorker (h : Inv py s) (w : Nat) {p : Phase}
    (hjob : ∀ job, p.job? = some job → (s.worker w).job? = some job) (hp : Verified py s p) : Inv py (s.setWorker w p) := by
  have hold : ∀ v job, ((s.setWorker w p).worker v).job? = some job → (s.worker v).job? = some job := by
    intro v job hv
    by_cases hvw : v = w
    · subst hvw
      simp only [System.setWorker, Function.update_self] at hv
      exact hjob job hv
    · simpa only [System.setWorker, Function.update_of_ne hvw] using hv
  refine ⟨h.flows, h.dispatched, h.documents, fun v job hv => h.held v job (hold v job hv),
    fun v v' job job' hne hv hv' => h.apart v v' job job' hne (hold v job hv) (hold v' job' hv'), fun v => ?_, ?_, h.distinct⟩
  · have hdocuments : ∀ phase, Verified py (s.setWorker w p) phase = Verified py s phase := by
      intro phase
      cases phase <;> rfl
    rw [hdocuments]
    by_cases hvw : v = w
    · subst hvw
      simpa only [System.setWorker, Function.update_self] using hp
    · simpa only [System.setWorker, Function.update_of_ne hvw] using h.verified v
  · exact fun e he => ⟨(h.entitled e he).handed, (h.entitled e he).passed, (h.entitled e he).stored, (h.entitled e he).body⟩

theorem Inv.release (h : Inv py s) (w : Nat) : Inv py (s.setWorker w .idle) :=
  h.setWorker w (fun _ hjob => (by cases hjob)) trivial

/-! ## The steps -/

/-- A transaction of the queue that is no enqueue brings in no flow. -/
theorem call_no_flow {cfg : QueueSettings} {env : Reading} {q : SqliteQueue} {c : QueueCall} (hc : c.isEnqueue = false) :
    ∀ id j, q.find? id = none → (q.call cfg env c).2.find? id = some j → j.kind = .pentagiFlow → j.maxAttempts = 1 := by
  intro id j hid hj _
  rw [SqliteQueue.call_absent hc hid] at hj
  cases hj

theorem bringsNoFlow_apply {t : SqliteStep} {env : Reading} {q : SqliteQueue} (ht : bringsNoFlow t = true) :
    ∀ id j, q.find? id = none → (q.apply t env).find? id = some j → j.kind = .pentagiFlow → j.maxAttempts = 1 := by
  intro id j hid hj hkind
  have htransaction : ∀ cfg c, t = .transaction cfg c → c.isEnqueue = false := by
    rintro cfg c rfl
    simpa [bringsNoFlow] using ht
  obtain ⟨r, uuid, now, rfl, rfl⟩ := SqliteQueue.apply_added htransaction hid hj
  simp only [bringsNoFlow, decide_eq_true_eq] at ht
  exact absurd hkind ht

/-- The job that a claim hands out had no attempt yet. -/
theorem Inv.claim (h : Inv py s) (w : Nat) (hidle : s.worker w = .idle) (cfg : QueueSettings) (env : Reading)
    (workerId : String) : Inv py (claim cfg env s w workerId) := by
  have ht := SqliteQueue.call_transition cfg env s.queue (.claimKind workerId "pentagi_flow")
  have hno := @call_no_flow cfg env s.queue (.claimKind workerId "pentagi_flow") rfl
  simp only [SqliteQueue.call] at ht hno
  unfold PentagiFlow.claim
  cases hclaim : s.queue.claimKind cfg env workerId "pentagi_flow" with
  | error e => exact h
  | ok out =>
    obtain ⟨res, q'⟩ := out
    rw [hclaim] at ht hno
    cases res with
    | none => exact h.queueStep ht hno
    | some job =>
      simp only [SqliteQueue.settle, QueueCall.handed, QueueResult.job?, Option.map_some] at ht hno
      -- The row of the job is the job itself, with the attempt that the claim cost.
      obtain ⟨worker, kind, _, hkind, heffect⟩ := SqliteQueue.claimKind_effect hclaim
      have hflow : kind = .pentagiFlow := by
        have hword : requestedKind "pentagi_flow" = .ok .pentagiFlow := by decide +kernel
        exact Except.ok.inj (hkind.symm.trans hword)
      have hrow : q'.find? job.id = some job ∧ job.kind = .pentagiFlow ∧ job.status = .running := by
        cases heffect with
        | handed row _ hr hc hmin hq =>
          obtain ⟨_, hkind', _⟩ := SqliteQueue.claimable_iff.mp hc
          refine ⟨(hq row.id).trans (if_pos rfl), ?_, rfl⟩
          rw [← hflow]
          exact of_decide_eq_true hkind'
      have hflows := h.flows.step ht hno
      have hwell := hflows.wellFormed job.id job hrow.1
      have hone : 1 ≤ job.attempts := hwell.tried hrow.2.2
      have hmax := hflows.single job.id job hrow.1 hrow.2.1
      have hle := hwell.attempts_le
      -- Whatever was handed out before has an attempt already, so it is another job.
      have hfresh : ∀ other, Handed s.queue other → other.id ≠ job.id := by
        intro other hother heq
        have hrow' := hother
        obtain ⟨j, hj, _, _⟩ := hrow'
        have hbefore := hother.attempts hj
        obtain ⟨j', hj', _, hcost⟩ := ht.kept other.id j hj
        rw [heq] at hj' hcost
        cases hrow.1.symm.trans hj'
        rw [JobStore.cost_self] at hcost
        omega
      have hq := h.queueStep ht hno
      have hself : (Function.update s.worker w (Phase.claimed job)) w = .claimed job := Function.update_self _ _ _
      refine ⟨hq.flows, hq.dispatched, hq.documents, fun v held hv => ?_, fun v v' held held' hne hv hv' => ?_, fun v => ?_,
        fun e he => ⟨(hq.entitled e he).handed, (hq.entitled e he).passed, (hq.entitled e he).stored, (hq.entitled e he).body⟩, hq.distinct⟩
      · by_cases hvw : v = w
        · subst hvw
          simp only [System.setWorker, hself, Phase.job?, Option.some.injEq] at hv
          subst hv
          exact ⟨⟨job, hrow.1, .refl, hone⟩, fun e he => hfresh e.job (h.entitled e he).handed⟩
        · simp only [System.setWorker, Function.update_of_ne hvw] at hv
          exact hq.held v held hv
      · by_cases hvw : v = w
        · subst hvw
          simp only [System.setWorker, hself, Phase.job?, Option.some.injEq] at hv
          subst hv
          simp only [System.setWorker, Function.update_of_ne (Ne.symm hne)] at hv'
          exact (hfresh held' (h.held v' held' hv').1).symm
        · simp only [System.setWorker, Function.update_of_ne hvw] at hv
          by_cases hvw' : v' = w
          · subst hvw'
            simp only [System.setWorker, hself, Phase.job?, Option.some.injEq] at hv'
            subst hv'
            exact hfresh held (h.held v held hv).1
          · simp only [System.setWorker, Function.update_of_ne hvw'] at hv'
            exact h.apart v v' held held' hne hv hv'
      · by_cases hvw : v = w
        · subst hvw
          simp only [System.setWorker, hself]
          trivial
        · simp only [System.setWorker, Function.update_of_ne hvw]
          have hverified := hq.verified v
          revert hverified
          cases s.worker v <;> exact id

theorem Inv.check (h : Inv py s) (w : Nat) (hjob : (s.worker w).job? = some job)
    {settings : Settings} {next : Preflight → Phase} (hnext : ∀ found, (next found).job? = some job)
    (hverified : ∀ found, Passed py settings job found → found.campaign ∈ s.documents → Verified py s (next found)) :
    Inv py (check py settings s w job next) := by
  unfold PentagiFlow.check
  cases hstored : s.stored job.campaignId.text with
  | none => exact h.release w
  | some c =>
    dsimp only
    cases hpreflight : preflight py settings job c with
    | error e => exact h.release w
    | ok found =>
      obtain ⟨hcampaign, hpassed⟩ := passed_of_preflight hpreflight
      refine h.setWorker w (fun job' hjob' => ?_) (hverified found hpassed (hcampaign ▸ h.documents _ c hstored))
      rw [hnext found] at hjob'
      exact hjob.trans hjob'

/-- The request is the first one of its job. -/
theorem Inv.submit (h : Inv py s) (w : Nat) {settings : Settings} {found : Preflight}
    (hphase : s.worker w = .leased job settings found) {body : List UInt8} (hbody : submitBody found.plan found.permit = .ok body) :
    Inv py { s.setWorker w .idle with sent := ⟨job, found.campaign, found.plan, found.permit, settings, body⟩ :: s.sent } := by
  have hjob : (s.worker w).job? = some job := by rw [hphase]; rfl
  obtain ⟨hhanded, hunsent⟩ := h.held w job hjob
  have hpassed : Passed py settings job found ∧ found.campaign ∈ s.documents := by
    have hverified := h.verified w
    rw [hphase] at hverified
    exact hverified
  have hr := h.release w
  refine ⟨hr.flows, hr.dispatched, hr.documents, fun v held hv => ⟨(hr.held v held hv).1, fun e he => ?_⟩, hr.apart, fun v => ?_,
    fun e he => ?_, ?_⟩
  · rcases List.mem_cons.mp he with rfl | he
    · by_cases hvw : v = w
      · subst hvw
        simp only [System.setWorker, Function.update_self, Phase.job?] at hv
        cases hv
      · simp only [System.setWorker, Function.update_of_ne hvw] at hv
        exact h.apart w v job held (Ne.symm hvw) hjob hv
    · exact (hr.held v held hv).2 e he
  · have hverified := hr.verified v
    revert hverified
    cases (s.setWorker w .idle).worker v <;> exact id
  · rcases List.mem_cons.mp he with rfl | he
    · exact ⟨hhanded, hpassed.1, hpassed.2, hbody⟩
    · exact ⟨(hr.entitled e he).handed, (hr.entitled e he).passed, (hr.entitled e he).stored, (hr.entitled e he).body⟩
  · rw [List.map_cons, List.nodup_cons]
    refine ⟨fun hmem => ?_, h.distinct⟩
    obtain ⟨e, he, heq⟩ := List.mem_map.mp hmem
    exact hunsent e he heq

theorem dispatchRequest_maxAttempts {cfg : QueueSettings} {hplan : (Json.obj plan.payload).Distinct}
    {given : Option Permit} {r : EnqueueRequest} (h : dispatchRequest py settings cfg c plan hplan given = .ok r) :
    r.maxAttempts = 1 := by
  have hvalidate : ∀ {payload : Payload} {key : String},
      EnqueueRequest.validate cfg c.id "pentagi_flow" payload 1 (some key) = .ok r → r.maxAttempts = 1 := by
    intro payload key hr
    unfold EnqueueRequest.validate at hr
    split at hr
    · cases hr
    split at hr
    · cases hr
    split at hr
    · split at hr
      · cases hr
      split at hr
      · cases hr
      cases hr
      rfl
    · cases hr
  have hverified : ∀ permit : Permit, (do
      verifyPermit py settings permit c plan
      EnqueueRequest.validate cfg c.id "pentagi_flow" ⟨jobPayload permit plan, jobPayload_distinct permit hplan⟩ 1
        (some permit.idempotencyKey)) = Except.ok r → r.maxAttempts = 1 := by
    intro permit hdo
    cases hverify : verifyPermit py settings permit c plan with
    | error e =>
      rw [hverify] at hdo
      cases hdo
    | ok done =>
      rw [hverify] at hdo
      exact hvalidate hdo
  unfold dispatchRequest at h
  cases given with
  | some permit => exact hverified permit h
  | none =>
    cases hissue : issuePermit py settings c plan with
    | error e =>
      simp only [hissue] at h
      cases h
    | ok permit =>
      simp only [hissue] at h
      exact hverified permit h

theorem Inv.step (h : Inv py s) (a : Action) : Inv py (step py s a) := by
  cases a with
  | save c =>
    refine ⟨h.flows, h.dispatched, fun id c' hc' => ?_, h.held, h.apart, fun w => ?_, fun e he => ?_, h.distinct⟩
    · by_cases hid : id = c.id
      · subst hid
        simp only [PentagiFlow.step, Function.update_self, Option.some.injEq] at hc'
        exact hc' ▸ List.mem_cons_self
      · simp only [PentagiFlow.step, Function.update_of_ne hid] at hc'
        exact List.mem_cons_of_mem _ (h.documents id c' hc')
    · have hverified := h.verified w
      show Verified py _ (s.worker w)
      revert hverified
      cases s.worker w with
      | verified job settings found => exact fun hv => ⟨hv.1, List.mem_cons_of_mem _ hv.2⟩
      | leased job settings found => exact fun hv => ⟨hv.1, List.mem_cons_of_mem _ hv.2⟩
      | _ => exact id
    · exact ⟨(h.entitled e he).handed, (h.entitled e he).passed, List.mem_cons_of_mem _ (h.entitled e he).stored, (h.entitled e he).body⟩
  | queue t env =>
    simp only [PentagiFlow.step]
    split
    · rename_i ht
      have htransition := SqliteQueue.apply_transition t env s.queue
      exact h.queueStep htransition (bringsNoFlow_apply ht)
    · exact h
  | dispatch d settings cfg c plan hplan given =>
    simp only [PentagiFlow.step]
    split
    · exact h
    rename_i r hr
    split
    · exact h
    refine ⟨h.flows, fun d' r' hd' => ?_, h.documents, h.held, h.apart, h.verified, fun e he => ?_, h.distinct⟩
    · by_cases hdd : d' = d
      · subst hdd
        simp only [Function.update_self, Option.some.injEq] at hd'
        exact hd' ▸ dispatchRequest_maxAttempts hr
      · simp only [Function.update_of_ne hdd] at hd'
        exact h.dispatched d' r' hd'
    · exact ⟨(h.entitled e he).handed, (h.entitled e he).passed, (h.entitled e he).stored, (h.entitled e he).body⟩
  | insert d env =>
    simp only [PentagiFlow.step]
    split
    · exact h
    rename_i r hr
    have htransition := SqliteQueue.apply_transition (.insert r env.uuid env.now) env s.queue
    have hq := h.queueStep htransition fun id j hid hj _ => by
      obtain ⟨r', uuid, now, heq, rfl⟩ := SqliteQueue.apply_added (fun cfg c ht => (by cases ht)) hid hj
      cases heq
      exact h.dispatched d r hr
    refine ⟨hq.flows, fun d' r' hd' => ?_, hq.documents, hq.held, hq.apart, fun w => ?_, fun e he => ?_, hq.distinct⟩
    · by_cases hdd : d' = d
      · subst hdd
        simp only [Function.update_self] at hd'
        cases hd'
      · simp only [Function.update_of_ne hdd] at hd'
        exact h.dispatched d' r' hd'
    · have hverified := hq.verified w
      revert hverified
      show Verified py _ (s.worker w) → Verified py _ (s.worker w)
      cases s.worker w <;> exact id
    · exact ⟨(hq.entitled e he).handed, (hq.entitled e he).passed, (hq.entitled e he).stored, (hq.entitled e he).body⟩
  | claim w cfg env workerId =>
    simp only [PentagiFlow.step]
    split
    · rename_i hidle
      exact h.claim w hidle cfg env workerId
    · exact h
  | preflight w settings =>
    simp only [PentagiFlow.step]
    split
    · rename_i job hphase
      exact h.check w (by rw [hphase]; rfl) (fun _ => rfl) fun _ _ _ => trivial
    · rename_i job hphase
      exact h.check w (by rw [hphase]; rfl) (fun _ => rfl) fun _ hpassed hstored => ⟨hpassed, hstored⟩
    · exact h
  | heartbeat w env workerId =>
    simp only [PentagiFlow.step]
    split
    · rename_i job settings found hphase
      have ht := SqliteQueue.call_transition .default env s.queue (.heartbeat job.id.text workerId)
      have hno := @call_no_flow .default env s.queue (.heartbeat job.id.text workerId) rfl
      simp only [SqliteQueue.call] at ht hno
      split
      · rename_i q hq
        rw [hq] at ht hno
        have hverified := h.verified w
        rw [hphase] at hverified
        exact (h.setWorker w (p := .leased job settings found) (fun _ hjob => by rw [hphase]; exact hjob) hverified).queueStep ht hno
      · rename_i q hq
        rw [hq] at ht hno
        exact (h.release w).queueStep ht hno
      · exact h.release w
    · exact h
  | submit w refused =>
    simp only [PentagiFlow.step]
    split
    · rename_i job settings found hphase
      split
      · exact h.release w
      · rename_i body hbody
        split
        · exact h.release w
        · exact h.submit w hphase hbody
    · exact h
  | crash w => exact h.release w

theorem Inv.run (actions : List Action) : Inv py (run py actions) := by
  have hfold : ∀ (l : List Action) (s : System), Inv py s → Inv py (l.foldl (PentagiFlow.step py) s) := by
    intro l
    induction l with
    | nil => exact fun _ h => h
    | cons a l ih => exact fun s h => ih _ (h.step a)
  exact hfold actions _ .init

/-! ## What is sent -/

/-- Two requests with one key are for two campaigns, if they are two. -/
theorem Inv.campaign_ne (h : Inv py s) {e e' : Sent} (he : e ∈ s.sent) (he' : e' ∈ s.sent) (hne : e.job.id ≠ e'.job.id)
    (hkey : e.permit.idempotencyKey = e'.permit.idempotencyKey) : e.campaign.id ≠ e'.campaign.id := by
  intro hcampaign
  obtain ⟨⟨j, hj, hevolves, _⟩, hpassed, _, _⟩ := h.entitled e he
  obtain ⟨⟨j', hj', hevolves', _⟩, hpassed', _, _⟩ := h.entitled e' he'
  have hcampaignId : e.job.campaignId = e'.job.campaignId :=
    Ident.text_injective (hpassed.campaign.trans (hcampaign.trans hpassed'.campaign.symm))
  have hdedupeKey : e.job.dedupeKey = e'.job.dedupeKey :=
    Option.map_injective Ident.text_injective (hpassed.key.trans ((congrArg some hkey).trans hpassed'.key.symm))
  obtain ⟨key, hsome⟩ : ∃ key, e.job.dedupeKey = some key := by
    cases hd : e.job.dedupeKey with
    | none =>
      have hnone := hpassed.key
      rw [hd] at hnone
      cases hnone
    | some key => exact ⟨key, rfl⟩
  have hindex : e.job.dedupe = some (e.job.campaignId, .pentagiFlow, key) := by
    simp only [Job.dedupe, hsome, hpassed.kind, Option.map_some]
  have hindex' : e'.job.dedupe = some (e.job.campaignId, .pentagiFlow, key) := by
    simp only [Job.dedupe, ← hdedupeKey, hsome, hpassed'.kind, ← hcampaignId, Option.map_some]
  have hmem := ((s.queue.find?_eq_some _ _).mp hj)
  have hmem' := ((s.queue.find?_eq_some _ _).mp hj')
  have hlookup := (s.queue.lookup?_eq_some _ j).mpr ⟨hmem.1, hevolves.dedupe_eq.trans hindex⟩
  have hlookup' := (s.queue.lookup?_eq_some _ j').mpr ⟨hmem'.1, hevolves'.dedupe_eq.trans hindex'⟩
  cases hlookup.symm.trans hlookup'
  exact hne (hmem.2.symm.trans hmem'.2)

/-- Over every interleaving: no two requests for one campaign have one idempotency key, for two campaigns they would be two texts with
one SHA-256 digest, and every request is the payload of a plan whose permit verified against a stored campaign, which the permit names
with its target, fingerprint, endpoint and provider. -/
theorem flow_created_once (py : Python) (actions : List Action) :
    ((run py actions).sent.Pairwise fun e e' => e.permit.idempotencyKey = e'.permit.idempotencyKey →
        e.campaign.id ≠ e'.campaign.id ∧ ∃ m m' : List UInt8, m ≠ m' ∧ py.sha.hex m = py.sha.hex m') ∧
      ∀ e ∈ (run py actions).sent, verifyPermit py e.settings e.permit e.campaign e.plan = .ok () ∧
        e.campaign ∈ (run py actions).documents ∧ submitBody e.plan e.permit = .ok e.body ∧
        e.permit.campaignId = e.campaign.id ∧ e.permit.target = e.plan.target ∧
        e.permit.policyFingerprint = policyFingerprint py e.campaign e.plan ∧ e.permit.endpoint = e.plan.endpoint ∧
        e.permit.modelProvider = e.plan.modelProvider := by
  have h := @Inv.run py actions
  constructor
  · have hdistinct := h.distinct
    rw [List.Nodup, List.pairwise_map] at hdistinct
    refine hdistinct.imp_of_mem fun he he' hne hkey => ?_
    have hcampaign := h.campaign_ne he he' hne hkey
    exact ⟨hcampaign, collision_of_key (permit_of_verify (h.entitled _ he).passed.permit)
      (permit_of_verify (h.entitled _ he').passed.permit) hkey hcampaign⟩
  · intro e he
    obtain ⟨_, hpassed, hstored, hbody⟩ := h.entitled e he
    have hpermit := issuePermit_eq_ok (permit_of_verify hpassed.permit)
    refine ⟨hpassed.permit, hstored, hbody, ?_⟩
    rw [show e.permit = _ from hpermit]
    exact ⟨rfl, rfl, rfl, rfl, rfl⟩

end PentagiFlow

/-!
## What an authorised action may do

An action that is authorised is one of the bound campaign under the bound policy, and its target is in scope. Its rate passes two
comparisons that refuse it, which no value of NaN does.
-/

namespace PentagiGateway

open ExecutionContract (Python samplePython sampleDigest)
open PentagiFlow (Campaign Settings evaluateAdmission evaluateAdmission_fingerprint policyFingerprint)
open PyUrl (urlparse)
open ScopePolicy (isHostAllowed)

/-- What an authorised action has to be. -/
structure Sound (py : Python) (binding : Binding) (c : Campaign) (action : AuthorizedAction) : Prop where
  campaign : binding.campaignId = c.id ∧ action.campaignId = c.id
  running : c.cancelled = false
  fingerprint : policyFingerprint py c (boundExecutionPlan binding c) = binding.policyFingerprint
  target : ∃ parsed, urlparse py.unicode action.target.toList = some parsed ∧
    (parsed.scheme = "http".toList ∨ parsed.scheme = "https".toList) ∧ parsed.username = [] ∧ parsed.password = [] ∧ parsed.fragment = [] ∧
    isHostAllowed py.unicode (String.ofList (hostOf py.unicode parsed)) c.contract.rules.allowedTargets c.contract.rules.deniedTargets =
      some true
  rate : ∃ rate cap, action.maxRequestsPerSecond.value = some rate ∧ c.contract.rules.maxRequestsPerSecond.value = some cap ∧
    0 < rate ∧ rate ≤ cap

variable {py : Python} {readText : String → Option Binary64} {settings : Settings} {binding : Binding} {c : Campaign} {kind target : String}
  {requestedRps : RequestedRate} {action : AuthorizedAction}

theorem checkTarget_ok {u : Unicode} (h : checkTarget u c target = .ok ()) : ∃ parsed, urlparse u target.toList = some parsed ∧
    (parsed.scheme = "http".toList ∨ parsed.scheme = "https".toList) ∧ parsed.username = [] ∧ parsed.password = [] ∧ parsed.fragment = [] ∧
    isHostAllowed u (String.ofList (hostOf u parsed)) c.contract.rules.allowedTargets c.contract.rules.deniedTargets = some true := by
  unfold checkTarget at h
  split at h
  · cases h
  rename_i parsed hparsed
  split at h
  · cases h
  split at h
  · cases h
  rename_i hgood
  split at h
  · cases h
  · cases h
  rename_i hallowed
  rw [badUrl, not_or, not_or, not_or, not_or, not_or, not_and_or, not_not, not_not, not_not, not_not, not_not] at hgood
  exact ⟨parsed, hparsed, hgood.1, hgood.2.2.1, hgood.2.2.2.1, hgood.2.2.2.2.2, hallowed⟩

/-- What every authorised action went through. -/
structure Passed (py : Python) (readText : String → Option Binary64) (binding : Binding) (c : Campaign) (target : String)
    (requestedRps : RequestedRate) (action : AuthorizedAction) : Prop where
  bound : binding.campaignId = c.id
  running : c.cancelled = false
  fingerprint : policyFingerprint py c (boundExecutionPlan binding c) = binding.policyFingerprint
  inScope : checkTarget py.unicode c target = .ok ()
  requested : requestedFloat readText requestedRps = some action.maxRequestsPerSecond
  notRefused : ¬ (action.maxRequestsPerSecond.le .zero = true ∨
    c.contract.rules.maxRequestsPerSecond.lt action.maxRequestsPerSecond = true)
  campaign : action.campaignId = c.id
  same : action.target = target

theorem authorizeAction_ok (h : authorizeAction py readText settings binding c kind target requestedRps = .ok action) :
    Passed py readText binding c target requestedRps action := by
  unfold authorizeAction at h
  split at h
  · cases h
  split at h
  · cases h
  rename_i hbound
  split at h
  · cases h
  rename_i hrunning
  split at h
  · cases h
  rename_i decision hdecision
  split at h
  · cases h
  split at h
  · cases h
  rename_i hfingerprint
  split at h
  · cases h
  rename_i htarget
  split at h
  · cases h
  rename_i rate hrate
  split at h
  · cases h
  rename_i hnotRefused
  cases h
  exact ⟨not_not.mp hbound, Bool.eq_false_iff.mpr hrunning, (evaluateAdmission_fingerprint hdecision).symm.trans (not_not.mp hfingerprint).symm,
    htarget, hrate, hnotRefused, rfl, rfl⟩

/-- Doubles that are numbers are compared as numbers. -/
theorem value_of_ne_nan {x : Binary64} (h : x ≠ .nan) : ∃ value, x.value = some value := by
  cases x with
  | nan => exact absurd rfl h
  | infinity s =>
    cases s
    · exact ⟨_, rfl⟩
    · exact ⟨_, rfl⟩
  | finite x => exact ⟨_, rfl⟩

theorem value_zero : Binary64.zero.value = some 0 := rfl

theorem rate_in_bounds {rate cap : Binary64} (h : ¬ (rate.le .zero = true ∨ cap.lt rate = true)) :
    (∃ r l, rate.value = some r ∧ cap.value = some l ∧ 0 < r ∧ r ≤ l) ↔ rate ≠ .nan ∧ cap ≠ .nan := by
  obtain ⟨hzero, hcap⟩ := not_or.mp h
  constructor
  · rintro ⟨r, l, hr, hl, -, -⟩
    constructor
    · rintro rfl
      cases hr
    · rintro rfl
      cases hl
  · rintro ⟨hrate, hlimit⟩
    obtain ⟨r, hr⟩ := value_of_ne_nan hrate
    obtain ⟨l, hl⟩ := value_of_ne_nan hlimit
    refine ⟨r, l, hr, hl, not_le.mp fun hle => hzero ?_, not_lt.mp fun hlt => hcap ?_⟩
    · exact Binary64.le_iff.mpr ⟨r, 0, hr, value_zero, hle⟩
    · exact Binary64.lt_iff.mpr ⟨l, r, hl, hr, hlt⟩

/-- Neither comparison refuses NaN. -/
theorem nan_not_refused (cap : Binary64) : ¬ (Binary64.nan.le .zero = true ∨ cap.lt .nan = true) := by
  cases cap <;> exact not_or.mpr ⟨Bool.false_ne_true, Bool.false_ne_true⟩

/-- An authorised action is sound unless its rate, or the cap of the campaign, is NaN. -/
theorem authorized_sound_iff (h : authorizeAction py readText settings binding c kind target requestedRps = .ok action) :
    Sound py binding c action ↔
      requestedFloat readText requestedRps ≠ some .nan ∧ c.contract.rules.maxRequestsPerSecond ≠ .nan := by
  have hpassed := authorizeAction_ok h
  have hbounds := rate_in_bounds hpassed.notRefused
  rw [hpassed.requested, ne_eq, Option.some.injEq]
  constructor
  · exact fun hsound => hbounds.mp hsound.rate
  · intro hnumbers
    exact ⟨⟨hpassed.bound, hpassed.campaign⟩, hpassed.running, hpassed.fingerprint, hpassed.same ▸ checkTarget_ok hpassed.inScope,
      hbounds.mpr hnumbers⟩

/-! ## A campaign at one request in a second -/

def sampleSettings : Settings := ⟨.ok true, .ok true, .ok false, .ok .one⟩

def sampleCampaign : Campaign where
  contract := {
    id := "c-1"
    primaryUrl := "https://app.example.com/"
    rules := ⟨"ref", ["app.example.com"], [], .one, false, false, false, false, true⟩ }
  cancelled := false

def sampleBinding : Binding where
  flowId := "flow-1"
  campaignId := "c-1"
  policyFingerprint := sampleDigest
  endpoint := "https://agent.example.com"
  modelProvider := "local"

/-- `float("nan")` is NaN, and any other text of the sample reads as one. -/
def sampleRead (s : String) : Option Binary64 := if s = "nan" then some .nan else some .one

theorem authorize_sample (requestedRps : RequestedRate) {rate : Binary64} (hrate : requestedFloat sampleRead requestedRps = some rate)
    (hnotRefused : ¬ (rate.le .zero = true ∨ Binary64.one.lt rate = true)) :
    authorizeAction samplePython sampleRead sampleSettings sampleBinding sampleCampaign "request_recon" "https://app.example.com/login"
      requestedRps = .ok ⟨"c-1", "request_recon", "https://app.example.com/login", rate⟩ := by
  have hadmission : evaluateAdmission samplePython sampleSettings sampleCampaign (boundExecutionPlan sampleBinding sampleCampaign) =
      .ok ⟨[], sampleDigest⟩ := by
    have hcap : Binary64.one.lt sampleCampaign.contract.rules.maxRequestsPerSecond = false := by decide +kernel
    unfold evaluateAdmission
    have hplan : (boundExecutionPlan sampleBinding sampleCampaign).target = sampleCampaign.contract.primaryUrl := rfl
    rw [if_neg fun h => h hplan]
    dsimp only [sampleSettings, bind, Except.bind]
    rw [hcap]
    rfl
  have htarget : checkTarget samplePython.unicode sampleCampaign "https://app.example.com/login" = .ok () := by decide +kernel
  have hbound : sampleBinding.campaignId = sampleCampaign.id := rfl
  have hfingerprint : sampleBinding.policyFingerprint = sampleDigest := rfl
  have hcap : sampleCampaign.contract.rules.maxRequestsPerSecond = .one := by dsimp only [sampleCampaign]
  unfold authorizeAction
  rw [if_neg (not_not.mpr (by decide)), if_neg fun h => h hbound, if_neg (by decide), hadmission]
  dsimp only
  rw [if_neg fun h => h rfl, if_neg fun h => h hfingerprint, htarget]
  dsimp only
  rw [hrate]
  dsimp only
  rw [hcap, if_neg hnotRefused]
  rfl

theorem authorized_sound_sample :
    Sound samplePython sampleBinding sampleCampaign ⟨"c-1", "request_recon", "https://app.example.com/login", .one⟩ ↔
      requestedFloat sampleRead (.text "1") ≠ some .nan ∧ sampleCampaign.contract.rules.maxRequestsPerSecond ≠ .nan :=
  authorized_sound_iff (authorize_sample (.text "1") (by decide +kernel) (by decide +kernel))

/-- A request for NaN actions in a second is authorised. -/
theorem nan_authorized : ¬ ∀ (py : Python) (readText : String → Option Binary64) (settings : Settings) (binding : Binding) (c : Campaign)
    (kind target : String) (requestedRps : RequestedRate) (action : AuthorizedAction),
    authorizeAction py readText settings binding c kind target requestedRps = .ok action → Sound py binding c action := by
  intro h
  have hsound := h _ _ _ _ _ _ _ _ _ (authorize_sample (.float .nan) rfl (nan_not_refused .one))
  obtain ⟨rate, cap, hrate, -⟩ := hsound.rate
  cases hrate

end PentagiGateway

end XbowPerso
