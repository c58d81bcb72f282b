import XbowPerso.ApiOutbox
import XbowPerso.Theorems.CampaignChain

/-!
# Reconciling the outbox

The snapshot and the intents agree on what is pending, and a completion retires the intent that it is for and no other one. Running the
reconciliation again adds nothing, except where a start whose job has ended was skipped and a later start brought the campaign to run:
the next reconciliation no longer skips the first.
-/

namespace XbowPerso

namespace Outbox

open AuditSeal

variable {digest : String → String} {getByDedupe : GetByDedupe}

/-! ## Keys -/

variable {event : AuditEntry}

theorem hasText_iff {key value : String} : hasText event key value = true ↔ event.get key = .str value := by
  unfold hasText
  exact ⟨eq_str_of_pyEq, fun h => h ▸ pyEq_str value⟩

variable {x y : AuditEntry}

theorem hasText_congr {key : String} (h : x.get key = y.get key) (value : String) :
    hasText x key value = hasText y key value := by
  unfold hasText
  rw [h]

theorem nonEmptyText_congr {key : String} (h : x.get key = y.get key) :
    nonEmptyText x key = nonEmptyText y key := by
  unfold nonEmptyText
  rw [h]

/-- The fields that the keys of an event are made of. -/
def keyFields : List String := ["type", "request_id", "purpose", "finding_id", "flow_fingerprint", "dispatch_fingerprint"]

theorem requestKey_congr (h : ∀ key ∈ keyFields, x.get key = y.get key) : requestKey x = requestKey y := by
  unfold requestKey
  simp only [hasText_congr (h "type" (by simp [keyFields])), hasText_congr (h "purpose" (by simp [keyFields])),
    nonEmptyText_congr (h "request_id" (by simp [keyFields])), nonEmptyText_congr (h "finding_id" (by simp [keyFields])),
    nonEmptyText_congr (h "flow_fingerprint" (by simp [keyFields])),
    nonEmptyText_congr (h "dispatch_fingerprint" (by simp [keyFields]))]

theorem completionKey_congr (h : ∀ key ∈ keyFields, x.get key = y.get key) :
    completionKey x = completionKey y := by
  unfold completionKey
  simp only [hasText_congr (h "type" (by simp [keyFields])), hasText_congr (h "purpose" (by simp [keyFields])),
    nonEmptyText_congr (h "request_id" (by simp [keyFields])),
    nonEmptyText_congr (h "dispatch_fingerprint" (by simp [keyFields]))]

variable {events : List AuditEntry}

/-- Sealing an event leaves the fields of its keys. -/
theorem get_seal {env : AuditEnv} {secret : ResolvedSecret} {sealedEvent : AuditEntry}
    (h : CampaignAudit.sealCampaignEvent env secret event events = .ok sealedEvent) :
    ∀ key ∈ keyFields, sealedEvent.get key = event.get key := by
  intro key hkey
  refine CampaignAudit.sameFields_seal h key ?_
  simp only [keyFields, List.mem_cons, List.not_mem_nil, or_false] at hkey
  rcases hkey with rfl | rfl | rfl | rfl | rfl | rfl <;> decide

/-! ## Descriptors -/

@[simp] theorem describe_kind (key : Key) (event : AuditEntry) : (describe key event).kind = key.1 := by
  unfold describe
  rcases key with ⟨_ | _ | _ | _ | _ | _, id⟩ <;> dsimp only
  cases nonEmptyText event "platform" <;> rfl

@[simp] theorem describe_rawIdentity (key : Key) (event : AuditEntry) : (describe key event).rawIdentity = key.2 := by
  unfold describe
  rcases key with ⟨_ | _ | _ | _ | _ | _, id⟩ <;> dsimp only
  cases nonEmptyText event "platform" <;> rfl

@[simp] theorem describe_requestedAt (key : Key) (event : AuditEntry) :
    (describe key event).requestedAt = text? (event.get "at") := by
  unfold describe
  rcases key with ⟨_ | _ | _ | _ | _ | _, id⟩ <;> dsimp only
  cases nonEmptyText event "platform" <;> rfl

@[simp] theorem describe_requestEvent (key : Key) (event : AuditEntry) : (describe key event).requestEvent = event := by
  unfold describe
  rcases key with ⟨_ | _ | _ | _ | _ | _, id⟩ <;> dsimp only
  cases nonEmptyText event "platform" <;> rfl

@[simp] theorem describe_key (key : Key) (event : AuditEntry) : (describe key event).key = key := by
  unfold Intent.key
  rw [describe_kind, describe_rawIdentity]

/-- A descriptor is that of the event that requested it. -/
def Intent.Described (intent : Intent) : Prop := ∃ event, requestKey event = some intent.key ∧ intent = describe intent.key event

variable {intent : Intent}

variable {done seen : List Key}

theorem described_of_mem_intentsFrom
    (h : intent ∈ intentsFrom done seen events) : intent.Described ∧ intent.key ∉ seen ∧ intent.key ∉ done := by
  induction events generalizing seen with
  | nil => cases h
  | cons event events ih =>
    unfold intentsFrom at h
    split at h
    · exact ih h
    · rename_i key hkey
      split at h
      · exact ih h
      · rename_i hnew
        rw [not_or] at hnew
        rcases List.mem_cons.mp h with rfl | hmem
        · rw [describe_key]
          exact ⟨⟨event, by rw [describe_key]; exact hkey, by rw [describe_key]⟩, hnew⟩
        · obtain ⟨hdescribed, hseen, hdone⟩ := ih hmem
          exact ⟨hdescribed, fun hmem => hseen (List.mem_cons_of_mem _ hmem), hdone⟩

/-- No key is pending twice. -/
theorem nodup_intentsFrom (done seen : List Key) (events : List AuditEntry) :
    ((intentsFrom done seen events).map Intent.key).Nodup := by
  induction events generalizing seen with
  | nil => exact List.nodup_nil
  | cons event events ih =>
    unfold intentsFrom
    split
    · exact ih seen
    · rename_i key hkey
      split
      · exact ih seen
      · rw [List.map_cons, List.nodup_cons, describe_key]
        refine ⟨fun hmem => ?_, ih _⟩
        obtain ⟨intent, hintent, heq⟩ := List.mem_map.mp hmem
        exact (described_of_mem_intentsFrom hintent).2.1 (heq ▸ List.mem_cons_self)

/-! ## The snapshot and the intents -/

/-- What the snapshot shows of an intent. -/
def Intent.item (digest : String → String) (intent : Intent) : PendingItem :=
  ⟨intent.kind, intent.requestedAt, digest intent.rawIdentity⟩

/-- The two loops find the same, also where they remember different keys that are done. -/
theorem snapshotFrom_eq {seen' : List Key} (h : ∀ key, key ∉ done → (key ∈ seen ↔ key ∈ seen'))
    (events : List AuditEntry) :
    snapshotFrom digest done seen events = (intentsFrom done seen' events).map (Intent.item digest) := by
  induction events generalizing seen seen' with
  | nil => rfl
  | cons event events ih =>
    unfold snapshotFrom intentsFrom
    cases hkey : requestKey event with
    | none => exact ih h
    | some key =>
      dsimp only
      by_cases hdone : key ∈ done
      · have hskip : ∀ other, other ∉ done → (other ∈ key :: seen ↔ other ∈ seen') := by
          intro other hother
          rw [List.mem_cons, ← h other hother]
          exact ⟨fun hmem => hmem.resolve_left fun heq => hother (heq ▸ hdone), Or.inr⟩
        rw [if_pos (show key ∈ seen' ∨ key ∈ done from .inr hdone), if_pos hdone]
        split
        · exact ih h
        · exact ih hskip
      · by_cases hseen : key ∈ seen
        · rw [if_pos hseen, if_pos (.inl ((h key hdone).mp hseen))]
          exact ih h
        · have hseen' : key ∉ seen' := fun hmem => hseen ((h key hdone).mpr hmem)
          rw [if_neg hseen, if_neg hdone, if_neg (not_or.mpr ⟨hseen', hdone⟩), List.map_cons]
          refine congrArg₂ List.cons ?_ (ih fun other hother => ?_)
          · unfold Intent.item
            rw [describe_kind, describe_requestedAt, describe_rawIdentity]
          · rw [List.mem_cons, List.mem_cons, h other hother]

theorem mem_countByKind {pending : List PendingItem} {kind : Kind} {n : Nat} :
    (kind.word, n) ∈ countByKind pending ↔ 0 < n ∧ n = pending.countP fun item => decide (item.kind = kind) := by
  unfold countByKind
  rw [List.mem_filter, List.mem_map]
  constructor
  · rintro ⟨⟨other, -, heq⟩, hpos⟩
    obtain ⟨hword, rfl⟩ := Prod.mk.inj heq
    have hkind : other = kind := by
      cases other <;> cases kind <;> first | rfl | exact absurd hword (by decide)
    exact ⟨of_decide_eq_true hpos, by rw [hkind]⟩
  · rintro ⟨hpos, rfl⟩
    exact ⟨⟨kind, by cases kind <;> decide, rfl⟩, decide_eq_true hpos⟩

/-- The snapshot shows the pending intents: all of them are counted, and the first of them in the order of the snapshot are listed. -/
def Agrees (digest : String → String) (events : List AuditEntry) : Prop :=
  ∀ maxItems snapshot, outboxSnapshot digest maxItems events = .ok snapshot →
    snapshot.pendingTotal = (pendingOutboxIntents events).length ∧
      (∃ all : List PendingItem, all.Perm ((pendingOutboxIntents events).map (Intent.item digest)) ∧ snapshot.pending = all.take maxItems.toNat) ∧
      ∀ kind n, (kind.word, n) ∈ snapshot.pendingByKind ↔
        0 < n ∧ n = (pendingOutboxIntents events).countP fun intent => decide (intent.kind = kind)

theorem agrees (digest : String → String) (events : List AuditEntry) : Agrees digest events := by
  intro maxItems snapshot h
  unfold outboxSnapshot at h
  split at h
  · cases h
    have hperm := List.mergeSort_perm (snapshotFrom digest (completed events) [] events) fun a b =>
      decide (a.sortKey ≤ b.sortKey)
    rw [snapshotFrom_eq (fun _ _ => Iff.rfl)] at hperm ⊢
    have hlength := hperm.length_eq
    rw [List.length_map] at hlength
    refine ⟨hlength, ⟨_, hperm, rfl⟩, fun kind n => ?_⟩
    dsimp only
    rw [mem_countByKind, hperm.countP_eq, List.countP_map]
    rfl
  · cases h

/-! ## Retiring an intent -/

/-- An event that completes a key and requests none retires the intents of the key, and changes no other. -/
theorem intentsFrom_retire {done' : List Key} {key : Key} (hdone : ∀ other, other ∈ done' ↔ other = key ∨ other ∈ done)
    {seen' : List Key} (hseen : ∀ other, other ≠ key → (other ∈ seen' ↔ other ∈ seen))
    (hx : requestKey x = none) (events : List AuditEntry) :
    intentsFrom done' seen' (events ++ [x]) =
      (intentsFrom done seen events).filter fun intent => decide (intent.key ≠ key) := by
  induction events generalizing seen seen' with
  | nil =>
    rw [List.nil_append]
    unfold intentsFrom
    rw [hx]
    rfl
  | cons event events ih =>
    rw [List.cons_append, intentsFrom, intentsFrom]
    cases hrequest : requestKey event with
    | none => exact ih hseen
    | some other =>
      dsimp only
      by_cases hother : other = key
      · have hseen' : ∀ k, k ≠ key → (k ∈ seen' ↔ k ∈ other :: seen) := by
          intro k hk
          rw [hseen k hk, List.mem_cons]
          exact ⟨Or.inr, fun hmem => hmem.resolve_left fun heq => hk (heq.trans hother)⟩
        rw [if_pos (.inr ((hdone other).mpr (.inl hother)))]
        split
        · exact ih hseen
        · rw [List.filter_cons_of_neg (by rw [describe_key]; simp [hother])]
          exact ih hseen'
      · have hboth : (other ∈ seen' ∨ other ∈ done') ↔ (other ∈ seen ∨ other ∈ done) := by
          rw [hseen other hother, hdone other]
          constructor
          · rintro (hmem | heq | hmem)
            · exact .inl hmem
            · exact absurd heq hother
            · exact .inr hmem
          · rintro (hmem | hmem)
            · exact .inl hmem
            · exact .inr (.inr hmem)
        by_cases hskip : other ∈ seen ∨ other ∈ done
        · rw [if_pos hskip, if_pos (hboth.mpr hskip)]
          exact ih hseen
        · rw [if_neg hskip, if_neg fun h => hskip (hboth.mp h), List.filter_cons_of_pos (by rw [describe_key]; simp [hother])]
          refine congrArg _ (ih fun k hk => ?_)
          rw [List.mem_cons, List.mem_cons, hseen k hk]

theorem pendingOutboxIntents_retire {key : Key} (hcompletes : completionKey x = some key)
    (hrequests : requestKey x = none) :
    pendingOutboxIntents (events ++ [x]) = (pendingOutboxIntents events).filter fun intent => decide (intent.key ≠ key) := by
  unfold pendingOutboxIntents
  refine intentsFrom_retire (fun other => ?_) (fun _ _ => Iff.rfl) hrequests events
  unfold completed
  rw [List.filterMap_append, List.mem_append, List.filterMap_cons_some hcompletes, List.filterMap_nil, List.mem_singleton, or_comm]

/-! ## Diagnostics -/

/-- A diagnostic is what the diagnosis of its intent gives. -/
structure Diagnostic.Sound (digest : String → String) (getByDedupe : GetByDedupe) (d : Diagnostic) : Prop where
  described : d.intent.Described
  diagnosed : diagnoseIntent digest getByDedupe d.intent = .ok d

def Diagnostic.key (d : Diagnostic) : Key := d.intent.key

theorem diagnoseIntent_intent {d : Diagnostic} (h : diagnoseIntent digest getByDedupe intent = .ok d) :
    d.intent = intent := by
  unfold diagnoseIntent at h
  dsimp only at h
  split at h
  · split at h
    · cases h
      rfl
    · split at h
      · cases h
      · cases h
        rfl
      · cases h
        rfl
  · cases h
    rfl

variable {job : Job}

/-- A diagnostic with a job can be repaired: its intent has a kind of job, a dedupe key and a completion. -/
theorem Diagnostic.Sound.of_job {d : Diagnostic} (h : d.Sound digest getByDedupe) (hjob : d.job = some job) :
    d.repairable = true ∧ ∃ jobKind dedupeKey, d.intent.jobKind = some jobKind ∧ d.intent.dedupeKey = some dedupeKey ∧
      getByDedupe jobKind dedupeKey = .ok (some job) := by
  have hdiagnosed := h.diagnosed
  unfold diagnoseIntent at hdiagnosed
  dsimp only at hdiagnosed
  split at hdiagnosed
  · rename_i dedupeKey jobKind hdedupe hkind
    split at hdiagnosed
    · have hd := Except.ok.inj hdiagnosed
      rw [← hd] at hjob
      cases hjob
    split at hdiagnosed
    · cases hdiagnosed
    · have hd := Except.ok.inj hdiagnosed
      rw [← hd] at hjob
      cases hjob
    · rename_i found hfound
      have hd := Except.ok.inj hdiagnosed
      have hsame : found = job := by
        rw [← hd] at hjob
        exact Option.some.inj hjob
      refine ⟨?_, jobKind, dedupeKey, hkind, hdedupe, hsame ▸ hfound⟩
      rw [← hd]
      unfold Diagnostic.repairable
      dsimp only
      split <;> rfl
  · have hd := Except.ok.inj hdiagnosed
    rw [← hd] at hjob
    cases hjob

/-- The diagnosis keeps the intents, in their order. -/
theorem diagnose_spec {intents : List Intent} {diagnostics : List Diagnostic}
    (h : intents.mapM (diagnoseIntent digest getByDedupe) = .ok diagnostics) :
    diagnostics.map Diagnostic.intent = intents ∧ ∀ d ∈ diagnostics, diagnoseIntent digest getByDedupe d.intent = .ok d := by
  induction intents generalizing diagnostics with
  | nil =>
    cases h
    exact ⟨rfl, fun d hd => by cases hd⟩
  | cons intent intents ih =>
    rw [List.mapM_cons] at h
    cases hfirst : diagnoseIntent digest getByDedupe intent with
    | error e =>
      rw [hfirst] at h
      cases h
    | ok first =>
      cases hrest : intents.mapM (diagnoseIntent digest getByDedupe) with
      | error e =>
        rw [hfirst, hrest] at h
        cases h
      | ok rest =>
        rw [hfirst, hrest] at h
        cases h
        obtain ⟨hmap, hall⟩ := ih hrest
        have hintent := diagnoseIntent_intent hfirst
        refine ⟨by rw [List.map_cons, hmap, hintent], fun d hd => ?_⟩
        rcases List.mem_cons.mp hd with rfl | hd
        · rw [hintent]
          exact hfirst
        · exact hall d hd

/-- The intents of sound diagnostics are diagnosed again as they were. -/
theorem diagnose_again {diagnostics : List Diagnostic}
    (h : ∀ d ∈ diagnostics, diagnoseIntent digest getByDedupe d.intent = .ok d) :
    (diagnostics.map Diagnostic.intent).mapM (diagnoseIntent digest getByDedupe) = .ok diagnostics := by
  induction diagnostics with
  | nil => rfl
  | cons d diagnostics ih =>
    rw [List.map_cons, List.mapM_cons, h d List.mem_cons_self, ih fun x hx => h x (List.mem_cons_of_mem _ hx)]
    rfl

/-! ## Completions -/

variable {request : AuditEntry}

theorem copyField_ok {event' : AuditEntry} {key : String} (h : copyField request key event = .ok event') :
    event' = event.set key (request.get key) (request.get_distinct key) := by
  unfold copyField at h
  split at h
  · exact (Except.ok.inj h).symm
  · cases h

theorem get_copyField {event' : AuditEntry} {key : String} (h : copyField request key event = .ok event') (k : String) :
    event'.get k = if k = key then request.get key else event.get k := by
  rw [copyField_ok h, AuditEntry.get_set]

theorem get_completionBase_type (completionType : String) (job : Job) (time : String) :
    (completionBase completionType job time).get "type" = .str completionType := by
  unfold completionBase
  simp only [AuditEntry.get_set]
  rfl

theorem nonEmptyText_eq {key value : String} :
    nonEmptyText event key = some value ↔ event.get key = .str value ∧ value ≠ "" := by
  unfold nonEmptyText
  rw [Option.filter_eq_some_iff, decide_eq_true_iff]
  constructor
  · rintro ⟨htext, hne⟩
    exact ⟨eq_str_of_text? htext, hne⟩
  · rintro ⟨hget, hne⟩
    rw [hget]
    exact ⟨rfl, hne⟩

/-- What the request of a key has in its fields. -/
theorem fields_of_requestKey {key : Key} (h : requestKey event = some key) :
    key.2 ≠ "" ∧ (key.1 ≠ .pentagiDispatch → event.get "request_id" = .str key.2) ∧
      (key.1 = .reportManual → event.get "purpose" = .str "manual") ∧
      (key.1 = .campaignCompletionReport → event.get "purpose" = .str "campaign_completion") := by
  unfold requestKey at h
  split at h
  · obtain ⟨id, hid, rfl⟩ := Option.map_eq_some_iff.mp h
    obtain ⟨hget, hne⟩ := nonEmptyText_eq.mp hid
    exact ⟨hne, fun _ => hget, nofun, nofun⟩
  split at h
  · split at h
    · rename_i id finding hid hfinding
      cases h
      obtain ⟨hget, hne⟩ := nonEmptyText_eq.mp hid
      exact ⟨hne, fun _ => hget, nofun, nofun⟩
    · cases h
  split at h
  · split at h
    · cases h
    rename_i id hid
    obtain ⟨hget, hne⟩ := nonEmptyText_eq.mp hid
    split at h
    · rename_i hpurpose
      cases h
      exact ⟨hne, fun _ => hget, nofun, fun _ => hasText_iff.mp hpurpose⟩
    split at h
    · rename_i hpurpose
      cases h
      exact ⟨hne, fun _ => hget, fun _ => hasText_iff.mp hpurpose, nofun⟩
    · cases h
  split at h
  · split at h
    · rename_i id flow hid hflow
      cases h
      obtain ⟨hget, hne⟩ := nonEmptyText_eq.mp hid
      exact ⟨hne, fun _ => hget, nofun, nofun⟩
    · cases h
  split at h
  · obtain ⟨id, hid, rfl⟩ := Option.map_eq_some_iff.mp h
    exact ⟨(nonEmptyText_eq.mp hid).2, fun hne => absurd rfl hne, nofun, nofun⟩
  · cases h

/-- The word of a completion. -/
def Kind.completion : Kind → String
  | campaignStart => "campaign_started"
  | findingValidation => "validation_queued"
  | campaignCompletionReport => "campaign_completed"
  | reportManual => "report_queued"
  | browserFlow => "browser_flow_queued"
  | pentagiDispatch => "pentagi_flow_queued"

theorem completionType_eq (h : intent.Described) {completionType : String}
    (hc : intent.completionType = some completionType) : completionType = intent.kind.completion := by
  obtain ⟨event, -, heq⟩ := h
  rw [heq] at hc
  rw [heq, describe_kind]
  unfold describe at hc
  cases hkind : intent.key.1 with
  | reportManual =>
    rw [hkind] at hc
    dsimp only at hc
    split at hc
    · exact (Option.some.inj hc).symm
    · cases hc
  | _ =>
    rw [hkind] at hc
    exact (Option.some.inj hc).symm

/-- An event with the word and the fields of a completion completes the key, and requests none. -/
theorem keys_of_completion {event : AuditEntry} {key : Key} (hkind : key.1 ≠ .pentagiDispatch) (hne : key.2 ≠ "")
    (htype : event.get "type" = .str key.1.completion) (hid : event.get "request_id" = .str key.2)
    (hmanual : key.1 = .reportManual → event.get "purpose" = .str "manual")
    (hreport : key.1 = .campaignCompletionReport → event.get "purpose" = .str "campaign_completion") :
    completionKey event = some key ∧ requestKey event = none := by
  obtain ⟨kind, id⟩ := key
  have hword : ∀ word, hasText event "type" word = decide (kind.completion = word) := by
    intro word
    by_cases hw : kind.completion = word
    · rw [decide_eq_true hw, hasText_iff, htype, ← hw]
    · rw [decide_eq_false hw, ← Bool.not_eq_true, hasText_iff, htype]
      exact fun h => hw (Json.str.inj h)
  have hident : nonEmptyText event "request_id" = some id := nonEmptyText_eq.mpr ⟨hid, hne⟩
  unfold completionKey requestKey
  simp only [hword, hident]
  cases kind with
  | reportManual =>
    have hpurpose := hasText_iff.mpr (hmanual rfl)
    simp [Kind.completion, hpurpose]
  | campaignCompletionReport =>
    have hpurpose := hasText_iff.mpr (hreport rfl)
    simp [Kind.completion, hpurpose]
  | pentagiDispatch => exact absurd rfl hkind
  | _ => simp [Kind.completion]

/-- A computation that returns has a first part that returns. -/
theorem bind_ok {α β : Type} {x : Except PyError α} {f : α → Except PyError β} {b : β} (h : x >>= f = .ok b) :
    ∃ a, x = .ok a ∧ f a = .ok b := by
  cases x with
  | error e => cases h
  | ok a => exact ⟨a, rfl, h⟩

/-- The fields of the completion of a report. -/
theorem keys_of_report {base : AuditEntry} (h : (do
      let event ← copyField request "request_id" base
      let event ← copyField request "platform" event
      let event ← copyField request "purpose" event
      return some (event.set "report_job_id" (.str job.id.text) (distinct_str _))) = Except.ok (some event)) :
    event.get "type" = base.get "type" ∧ event.get "request_id" = request.get "request_id" ∧
      event.get "purpose" = request.get "purpose" := by
  obtain ⟨first, hfirst, h⟩ := bind_ok h
  obtain ⟨second, hsecond, h⟩ := bind_ok h
  obtain ⟨third, hthird, h⟩ := bind_ok h
  cases h
  simp [AuditEntry.get_set, get_copyField hthird, get_copyField hsecond, get_copyField hfirst]

/-- What `local_completion_event` makes completes the intent, and there is a job. -/
theorem keys_of_localCompletionEvent {d : Diagnostic} (h : d.Sound digest getByDedupe) {time : String}
    (hevent : localCompletionEvent d time = .ok (some event)) :
    completionKey event = some d.key ∧ requestKey event = none ∧ d.job.isSome = true := by
  obtain ⟨request, hrequest, hdescribe⟩ := h.described
  obtain ⟨hne, hid, hmanual, hreport⟩ := fields_of_requestKey hrequest
  have hsource : d.intent.requestEvent = request := by
    rw [hdescribe]
    exact describe_requestEvent _ _
  unfold localCompletionEvent at hevent
  split at hevent
  · cases hevent
  split at hevent
  · rename_i job completionType hjob hcompletion
    split at hevent
    · cases hevent
    have hword := completionType_eq h.described hcompletion
    dsimp only at hevent
    rw [hsource] at hevent
    have htype := get_completionBase_type completionType job time
    rw [hword] at htype
    suffices hkeys : d.intent.kind ≠ .pentagiDispatch ∧ event.get "type" = .str d.intent.kind.completion ∧
        event.get "request_id" = request.get "request_id" ∧
          (d.intent.kind = .reportManual ∨ d.intent.kind = .campaignCompletionReport →
            event.get "purpose" = request.get "purpose") by
      obtain ⟨hkind, hword', hsame, hpurpose⟩ := hkeys
      have hboth := @keys_of_completion event d.intent.key hkind hne hword' (hsame.trans (hid hkind))
        (fun hk => (hpurpose (.inl hk)).trans (hmanual hk)) fun hk => (hpurpose (.inr hk)).trans (hreport hk)
      exact ⟨hboth.1, hboth.2, by rw [hjob]; rfl⟩
    rw [hword] at hevent
    split at hevent
    · rename_i hkind
      obtain ⟨first, hfirst, hevent⟩ := bind_ok hevent
      rw [hkind] at htype ⊢
      split at hevent
      · obtain ⟨second, hsecond, hevent⟩ := bind_ok hevent
        cases hevent
        refine ⟨by decide, ?_, ?_, by rintro (h | h) <;> cases h⟩
        · simpa [get_copyField hsecond, get_copyField hfirst, hkind] using htype
        · simp [get_copyField hsecond, get_copyField hfirst]
      · cases hevent
        refine ⟨by decide, ?_, ?_, by rintro (h | h) <;> cases h⟩
        · simpa [get_copyField hfirst, hkind] using htype
        · simp [get_copyField hfirst]
    · rename_i hkind
      obtain ⟨first, hfirst, hevent⟩ := bind_ok hevent
      obtain ⟨second, hsecond, hevent⟩ := bind_ok hevent
      cases hevent
      rw [hkind] at htype ⊢
      refine ⟨by decide, ?_, ?_, by rintro (h | h) <;> cases h⟩
      · simpa [get_copyField hsecond, get_copyField hfirst, hkind] using htype
      · simp [get_copyField hsecond, get_copyField hfirst]
    · rename_i hkind
      obtain ⟨hsame, hid', hpurpose⟩ := keys_of_report hevent
      rw [hkind] at hsame htype ⊢
      exact ⟨by decide, hsame.trans htype, hid', fun _ => hpurpose⟩
    · rename_i hkind
      obtain ⟨hsame, hid', hpurpose⟩ := keys_of_report hevent
      rw [hkind] at hsame htype ⊢
      exact ⟨by decide, hsame.trans htype, hid', fun _ => hpurpose⟩
    · rename_i hkind
      obtain ⟨first, hfirst, hevent⟩ := bind_ok hevent
      obtain ⟨second, hsecond, hevent⟩ := bind_ok hevent
      cases hevent
      rw [hkind] at htype ⊢
      refine ⟨by decide, ?_, ?_, by rintro (h | h) <;> cases h⟩
      · simpa [get_copyField hsecond, get_copyField hfirst, hkind] using htype
      · simp [get_copyField hsecond, get_copyField hfirst]
    · cases hevent
  · cases hevent

/-- An intent with a kind of job and a dedupe key has a completion. -/
theorem completionType_of_dedupeKey (h : intent.Described) {dedupeKey : String}
    (hdedupe : intent.dedupeKey = some dedupeKey) :
    intent.completionType = some intent.kind.completion ∧ intent.kind ≠ .pentagiDispatch := by
  obtain ⟨event, -, heq⟩ := h
  rw [heq] at hdedupe ⊢
  rw [describe_kind]
  unfold describe at hdedupe ⊢
  cases hkind : intent.key.1 with
  | reportManual =>
    rw [hkind] at hdedupe
    dsimp only at hdedupe ⊢
    split at hdedupe
    · exact ⟨rfl, nofun⟩
    · cases hdedupe
  | pentagiDispatch =>
    rw [hkind] at hdedupe
    cases hdedupe
  | _ => exact ⟨rfl, nofun⟩

/-- Where there is a job, a completion that is made is an event. -/
theorem localCompletionEvent_ne_none {d : Diagnostic} (h : d.Sound digest getByDedupe) (hjob : d.job = some job)
    (time : String) : localCompletionEvent d time ≠ .ok none := by
  obtain ⟨hrepairable, jobKind, dedupeKey, -, hdedupe, -⟩ := h.of_job hjob
  obtain ⟨hcompletion, hkind⟩ := completionType_of_dedupeKey h.described hdedupe
  have hword : d.intent.kind.completion ≠ "" := by
    cases d.intent.kind <;> decide
  intro hnone
  unfold localCompletionEvent at hnone
  rw [hrepairable, hjob, hcompletion] at hnone
  dsimp only at hnone
  rw [if_neg nofun, if_neg hword] at hnone
  split at hnone
  · obtain ⟨first, -, hnone⟩ := bind_ok hnone
    split at hnone
    · obtain ⟨second, -, hnone⟩ := bind_ok hnone
      cases hnone
    · cases hnone
  · obtain ⟨first, -, hnone⟩ := bind_ok hnone
    obtain ⟨second, -, hnone⟩ := bind_ok hnone
    cases hnone
  · obtain ⟨first, -, hnone⟩ := bind_ok hnone
    obtain ⟨second, -, hnone⟩ := bind_ok hnone
    obtain ⟨third, -, hnone⟩ := bind_ok hnone
    cases hnone
  · obtain ⟨first, -, hnone⟩ := bind_ok hnone
    obtain ⟨second, -, hnone⟩ := bind_ok hnone
    obtain ⟨third, -, hnone⟩ := bind_ok hnone
    cases hnone
  · obtain ⟨first, -, hnone⟩ := bind_ok hnone
    obtain ⟨second, -, hnone⟩ := bind_ok hnone
    cases hnone
  · rename_i hpentagi
    exact hkind hpentagi

theorem localCompletionEvent_of_none {d : Diagnostic} (hjob : d.job = none) (time : String) :
    localCompletionEvent d time = .ok none := by
  unfold localCompletionEvent
  rw [hjob]
  split <;> rfl

/-! ## One step of the repair -/

/-- A start that is skipped as ambiguous in a state. -/
def skips (state : CampaignState) (d : Diagnostic) : Bool :=
  decide (d.intent.kind = .campaignStart) && !state.started && !(state.startable && d.job.any live)

/-- A diagnostic that is repaired in a state. -/
def takes (state : CampaignState) (d : Diagnostic) : Bool := d.job.isSome && !skips state d

/-- The state after a diagnostic. -/
def after (state : CampaignState) (d : Diagnostic) : CampaignState :=
  if d.intent.kind = .campaignStart ∧ state.started = false ∧ state.startable = true ∧ d.job.any live = true then .running else state

variable {env : AuditEnv} {secret : ResolvedSecret} {clock : Nat → String}

variable {r : Repairs}

theorem complete_of_none {d : Diagnostic} (hjob : d.job = none) : complete env secret clock r d = .ok r := by
  unfold complete
  rw [localCompletionEvent_of_none hjob]

variable {r' : Repairs}

/-- Where there is a job, the audit gets one event more, which completes the intent. -/
theorem complete_cases {d : Diagnostic} (h : d.Sound digest getByDedupe) (hjob : d.job = some job)
    (hcomplete : complete env secret clock r d = .ok r') :
    ∃ x, r' = ⟨⟨r.campaign.state, r.campaign.events ++ [x]⟩, r.repaired + 1, r.skippedAmbiguous⟩ ∧
      completionKey x = some d.key ∧ requestKey x = none := by
  unfold complete at hcomplete
  split at hcomplete
  · cases hcomplete
  · rename_i hnone
    exact absurd hnone (localCompletionEvent_ne_none h hjob _)
  · rename_i event hevent
    obtain ⟨hcompletes, hrequests, -⟩ := keys_of_localCompletionEvent h hevent
    split at hcomplete
    · cases hcomplete
    rename_i sealedEvent hseal
    cases hcomplete
    refine ⟨sealedEvent, rfl, ?_, ?_⟩
    · rw [completionKey_congr (get_seal hseal), hcompletes]
    · rw [requestKey_congr (get_seal hseal), hrequests]

/-- The step is skipped, or completes the intent in the state after it. -/
theorem repairOne_eq (r : Repairs) (d : Diagnostic) :
    repairOne env secret clock r d =
      if skips r.campaign.state d then .ok { r with skippedAmbiguous := r.skippedAmbiguous + 1 }
      else complete env secret clock { r with campaign := ⟨after r.campaign.state d, r.campaign.events⟩ } d := by
  obtain ⟨⟨state, events⟩, repaired, skipped⟩ := r
  unfold repairOne skips after
  by_cases hkind : d.intent.kind = .campaignStart
  · cases hstarted : state.started with
    | true => simp [hkind]
    | false =>
      cases hlive : (state.startable && d.job.any live) with
      | true =>
        rw [Bool.and_eq_true] at hlive
        simp [hkind, hlive.1, hlive.2]
      | false =>
        simp [hkind]
  · simp [hkind]

theorem after_of_skips {state : CampaignState} {d : Diagnostic} (h : skips state d = true) : after state d = state := by
  unfold skips at h
  simp only [Bool.and_eq_true, Bool.not_eq_true', Bool.and_eq_false_iff] at h
  unfold after
  refine if_neg fun hlive => ?_
  rcases h.2 with hno | hno
  · rw [hlive.2.2.1] at hno
    cases hno
  · rw [hlive.2.2.2] at hno
    cases hno

theorem after_of_none {state : CampaignState} {d : Diagnostic} (h : d.job = none) : after state d = state := by
  unfold after
  refine if_neg fun hlive => ?_
  rw [h] at hlive
  cases hlive.2.2.2

/-- What is not repaired is skipped, or has no job. -/
theorem skips_or_none {state : CampaignState} {d : Diagnostic} (h : takes state d = false) : skips state d = true ∨ d.job = none := by
  unfold takes at h
  rw [Bool.and_eq_false_iff, Bool.not_eq_false'] at h
  rcases h with hjob | hskips
  · exact .inr (Option.not_isSome_iff_eq_none.mp (by rw [hjob]; exact Bool.false_ne_true))
  · exact .inl hskips

theorem after_of_not_takes {state : CampaignState} {d : Diagnostic} (h : takes state d = false) : after state d = state :=
  (skips_or_none h).elim after_of_skips after_of_none

/-- A step that repairs nothing changes neither the campaign nor the count. -/
theorem repairOne_idle {r : Repairs} {d : Diagnostic} (h : takes r.campaign.state d = false) :
    ∃ skipped, repairOne env secret clock r d = .ok ⟨r.campaign, r.repaired, skipped⟩ := by
  rw [repairOne_eq]
  cases hskips : skips r.campaign.state d with
  | true => exact ⟨_, rfl⟩
  | false =>
    have hjob : d.job = none := (skips_or_none h).resolve_left (by rw [hskips]; exact Bool.false_ne_true)
    rw [if_neg Bool.false_ne_true, complete_of_none hjob, after_of_none hjob]
    exact ⟨_, rfl⟩

/-- A step that repairs adds an event that completes the intent. -/
theorem repairOne_takes {d : Diagnostic} (h : d.Sound digest getByDedupe)
    (htakes : takes r.campaign.state d = true) (hstep : repairOne env secret clock r d = .ok r') :
    ∃ x, r'.campaign = ⟨after r.campaign.state d, r.campaign.events ++ [x]⟩ ∧ r'.repaired = r.repaired + 1 ∧
      completionKey x = some d.key ∧ requestKey x = none := by
  unfold takes at htakes
  rw [Bool.and_eq_true, Bool.not_eq_true'] at htakes
  obtain ⟨job, hjob⟩ := Option.isSome_iff_exists.mp htakes.1
  rw [repairOne_eq, if_neg (by rw [htakes.2]; exact Bool.false_ne_true)] at hstep
  obtain ⟨x, rfl, hx⟩ := complete_cases h hjob hstep
  exact ⟨x, rfl, rfl, hx⟩

/-! ## A run of the repair -/

/-- The diagnostics that a run repairs. -/
def taken : CampaignState → List Diagnostic → List Diagnostic
  | _, [] => []
  | state, d :: ds => if takes state d then d :: taken (after state d) ds else taken (after state d) ds

/-- The diagnostics that a run leaves. -/
def leftover : CampaignState → List Diagnostic → List Diagnostic
  | _, [] => []
  | state, d :: ds => if takes state d then leftover (after state d) ds else d :: leftover (after state d) ds

/-- The state at the end of a run. -/
def final (state : CampaignState) (ds : List Diagnostic) : CampaignState := ds.foldl after state

theorem mem_of_mem_taken {state : CampaignState} {ds : List Diagnostic} {d : Diagnostic} (h : d ∈ taken state ds) : d ∈ ds := by
  induction ds generalizing state with
  | nil => cases h
  | cons x ds ih =>
    unfold taken at h
    split at h
    · rcases List.mem_cons.mp h with rfl | h
      · exact List.mem_cons_self
      · exact List.mem_cons_of_mem _ (ih h)
    · exact List.mem_cons_of_mem _ (ih h)

/-- What a run repaired is what its leftover lacks. -/
theorem filter_taken {ds : List Diagnostic} (hnodup : (ds.map Diagnostic.key).Nodup) (state : CampaignState) :
    ds.filter (fun d => decide (d.key ∉ (taken state ds).map Diagnostic.key)) = leftover state ds := by
  induction ds generalizing state with
  | nil => rfl
  | cons d ds ih =>
    obtain ⟨hnew, hrest⟩ := List.nodup_cons.mp hnodup
    unfold taken leftover
    cases htakes : takes state d with
    | true =>
      rw [if_pos rfl, if_pos rfl, List.filter_cons_of_neg (by simp), ← ih hrest]
      refine List.filter_congr fun x hx => ?_
      have hne : x.key ≠ d.key := fun heq => hnew (heq ▸ List.mem_map_of_mem hx)
      simp [hne]
    | false =>
      have hkept : d.key ∉ (taken (after state d) ds).map Diagnostic.key := by
        intro hmem
        obtain ⟨x, hx, heq⟩ := List.mem_map.mp hmem
        exact hnew (heq ▸ List.mem_map_of_mem (mem_of_mem_taken hx))
      rw [if_neg Bool.false_ne_true, if_neg Bool.false_ne_true, List.filter_cons_of_pos (by simpa using hkept), ih hrest]

/-- A run that returns has repaired its share: their intents are no longer pending, and all others are as they were. -/
theorem run_spec {ds : List Diagnostic} (hsound : ∀ d ∈ ds, d.Sound digest getByDedupe)
    (h : ds.foldlM (repairOne env secret clock) r = .ok r') :
    r'.campaign.state = final r.campaign.state ds ∧ r'.repaired = r.repaired + (taken r.campaign.state ds).length ∧
      pendingOutboxIntents r'.campaign.events = (pendingOutboxIntents r.campaign.events).filter
        fun intent => decide (intent.key ∉ (taken r.campaign.state ds).map Diagnostic.key) := by
  induction ds generalizing r with
  | nil =>
    cases h
    refine ⟨rfl, rfl, (List.filter_eq_self.mpr fun intent _ => ?_).symm⟩
    exact decide_eq_true List.not_mem_nil
  | cons d ds ih =>
    rw [List.foldlM_cons] at h
    obtain ⟨middle, hstep, hrest⟩ := bind_ok h
    obtain ⟨hstate, hcount, hpending⟩ := ih (fun x hx => hsound x (List.mem_cons_of_mem _ hx)) hrest
    unfold taken
    cases htakes : takes r.campaign.state d with
    | true =>
      obtain ⟨x, hcampaign, hrepaired, hcompletes, hrequests⟩ := repairOne_takes (hsound d List.mem_cons_self) htakes hstep
      rw [hcampaign] at hstate hcount hpending
      dsimp only at hstate hcount hpending
      rw [if_pos rfl]
      refine ⟨hstate, by rw [hcount, hrepaired, List.length_cons]; omega, ?_⟩
      rw [hpending, pendingOutboxIntents_retire hcompletes hrequests, List.filter_filter]
      refine List.filter_congr fun intent _ => ?_
      rw [← Bool.decide_and]
      refine decide_eq_decide.mpr ?_
      rw [List.map_cons, List.mem_cons, not_or]
      exact and_comm
    | false =>
      obtain ⟨skipped, hidle⟩ := @repairOne_idle env secret clock r d htakes
      rw [hidle] at hstep
      cases hstep
      rw [if_neg Bool.false_ne_true]
      unfold final
      rw [List.foldl_cons, after_of_not_takes htakes]
      exact ⟨hstate, hcount, hpending⟩

/-- A run that has nothing to repair returns the campaign as it was. -/
theorem run_idle {ds : List Diagnostic} {r : Repairs} (h : taken r.campaign.state ds = []) :
    ∃ skipped, ds.foldlM (repairOne env secret clock) r = .ok ⟨r.campaign, r.repaired, skipped⟩ := by
  induction ds generalizing r with
  | nil => exact ⟨r.skippedAmbiguous, rfl⟩
  | cons d ds ih =>
    unfold taken at h
    cases htakes : takes r.campaign.state d with
    | true =>
      rw [htakes, if_pos rfl] at h
      cases h
    | false =>
      obtain ⟨skipped, hidle⟩ := @repairOne_idle env secret clock r d htakes
      rw [htakes, if_neg Bool.false_ne_true, after_of_not_takes htakes] at h
      rw [List.foldlM_cons, hidle]
      exact @ih ⟨r.campaign, r.repaired, skipped⟩ h

/-! ## What a second run finds -/

section

variable {state : CampaignState} {d : Diagnostic} {ds : List Diagnostic}

theorem taken_cons_of_takes (h : takes state d = true) : taken state (d :: ds) = d :: taken (after state d) ds := if_pos h

theorem taken_cons_of_not (h : takes state d = false) : taken state (d :: ds) = taken (after state d) ds :=
  if_neg (by rw [h]; exact Bool.false_ne_true)

theorem leftover_cons_of_takes (h : takes state d = true) : leftover state (d :: ds) = leftover (after state d) ds := if_pos h

theorem leftover_cons_of_not (h : takes state d = false) : leftover state (d :: ds) = d :: leftover (after state d) ds :=
  if_neg (by rw [h]; exact Bool.false_ne_true)

/-- The jobs of the starts among some diagnostics. -/
def startJobsOf (ds : List Diagnostic) : List Job :=
  ds.filterMap fun d => if d.intent.kind = .campaignStart then d.job else none

/-- A diagnostic is a start with a job, or its step leaves the state and adds no job of a start. -/
theorem start_or_other (state : CampaignState) (d : Diagnostic) (ds : List Diagnostic) :
    (∃ job, d.intent.kind = .campaignStart ∧ d.job = some job ∧ startJobsOf (d :: ds) = job :: startJobsOf ds) ∨
      ((d.intent.kind = .campaignStart → d.job = none) ∧ startJobsOf (d :: ds) = startJobsOf ds ∧ after state d = state) := by
  unfold startJobsOf
  by_cases hkind : d.intent.kind = .campaignStart
  · cases hjob : d.job with
    | none =>
      have hnone : (if d.intent.kind = .campaignStart then d.job else none) = none := by rw [if_pos hkind, hjob]
      exact .inr ⟨fun _ => rfl, List.filterMap_cons_none hnone, after_of_none hjob⟩
    | some job =>
      have hsome : (if d.intent.kind = .campaignStart then d.job else none) = some job := by rw [if_pos hkind, hjob]
      exact .inl ⟨job, hkind, rfl, List.filterMap_cons_some hsome⟩
  · have hnone : (if d.intent.kind = .campaignStart then d.job else none) = none := if_neg hkind
    exact .inr ⟨fun h => absurd h hkind, List.filterMap_cons_none hnone, if_neg fun h => hkind h.1⟩

theorem CampaignState.not_started_of_startable (h : state.startable = true) : state.started = false := by
  cases state with
  | ready => rfl
  | failed => rfl
  | _ => cases h

/-- A start whose job has ended is skipped. -/
theorem skips_of_dead (h : state.startable = true) {job : Job} (hkind : d.intent.kind = .campaignStart) (hjob : d.job = some job)
    (hdead : live job = false) : skips state d = true := by
  simp [skips, hkind, CampaignState.not_started_of_startable h, hjob, hdead]

theorem not_takes_of_skips (h : skips state d = true) : takes state d = false := by
  unfold takes
  rw [h, Bool.not_true, Bool.and_false]

theorem after_of_live (h : state.startable = true) {job : Job} (hkind : d.intent.kind = .campaignStart) (hjob : d.job = some job)
    (hlive : live job = true) : after state d = .running :=
  if_pos ⟨hkind, CampaignState.not_started_of_startable h, h, by rw [hjob]; exact hlive⟩

theorem after_running (d : Diagnostic) : after .running d = .running := ite_self _

/-- A run whose steps keep its state leaves nothing that it would repair in it. -/
theorem taken_leftover (h : ∀ d ∈ ds, after state d = state) : taken state (leftover state ds) = [] := by
  induction ds with
  | nil => rfl
  | cons d ds ih =>
    have hstay := h d List.mem_cons_self
    have hrest := ih fun x hx => h x (List.mem_cons_of_mem _ hx)
    cases htakes : takes state d with
    | true => rw [leftover_cons_of_takes htakes, hstay, hrest]
    | false => rw [leftover_cons_of_not htakes, taken_cons_of_not htakes, hstay, hrest]

theorem final_of_stays (h : ∀ d ∈ ds, after state d = state) : final state ds = state := by
  induction ds with
  | nil => rfl
  | cons d ds ih =>
    unfold final at ih ⊢
    rw [List.foldl_cons, h d List.mem_cons_self]
    exact ih fun x hx => h x (List.mem_cons_of_mem _ hx)

/-- Without a live start every step keeps the state. -/
theorem stays_of_dead (state : CampaignState) (hdead : (startJobsOf ds).any live = false) : ∀ d ∈ ds, after state d = state := by
  intro d hd
  refine if_neg fun hall => ?_
  obtain ⟨job, hjob⟩ := Option.isSome_iff_exists.mp (show d.job.isSome = true from by
    cases hjob : d.job with
    | none =>
      have hlive := hall.2.2.2
      rw [hjob] at hlive
      cases hlive
    | some job => rfl)
  have hmem : job ∈ startJobsOf ds := List.mem_filterMap.mpr ⟨d, hd, by rw [if_pos hall.1, hjob]⟩
  have hlive := hall.2.2.2
  rw [hjob] at hlive
  exact absurd hlive (List.any_eq_false.mp hdead job hmem)

/-- A run that can start the campaign does so at a live start. -/
theorem final_of_live (h : state.startable = true) (hlive : (startJobsOf ds).any live = true) : final state ds = .running := by
  induction ds with
  | nil => cases hlive
  | cons d ds ih =>
    have hfinal : final state (d :: ds) = final (after state d) ds := rfl
    rcases start_or_other state d ds with ⟨job, hkind, hjob, hjobs⟩ | ⟨-, hjobs, hafter⟩
    · rw [hjobs, List.any_cons] at hlive
      cases hfirst : live job with
      | true =>
        rw [hfinal, after_of_live h hkind hjob hfirst]
        exact final_of_stays fun x _ => after_running x
      | false =>
        rw [hfirst, Bool.false_or] at hlive
        rw [hfinal, after_of_skips (skips_of_dead h hkind hjob hfirst)]
        exact ih hlive
    · rw [hjobs] at hlive
      rw [hfinal, hafter]
      exact ih hlive

/-- The first start with a job is not live, and a later one is. -/
def Blocked (jobs : List Job) : Prop := ∃ job rest, jobs = job :: rest ∧ live job = false ∧ rest.any live = true

theorem blocked_cons {job : Job} {jobs : List Job} : Blocked (job :: jobs) ↔ live job = false ∧ jobs.any live = true := by
  constructor
  · rintro ⟨first, rest, heq, hdead, hlive⟩
    obtain ⟨rfl, rfl⟩ := List.cons.inj heq
    exact ⟨hdead, hlive⟩
  · exact fun h => ⟨job, jobs, rfl, h⟩

/-- A second run repairs something exactly where a start that has ended stands before the first live one. -/
theorem taken_final_leftover (h : state.startable = true) (ds : List Diagnostic) :
    taken (final state ds) (leftover state ds) = [] ↔ ¬ Blocked (startJobsOf ds) := by
  induction ds with
  | nil =>
    refine ⟨?_, fun _ => rfl⟩
    rintro - ⟨job, rest, hjobs, -⟩
    cases hjobs
  | cons d ds ih =>
    have hfinal : final state (d :: ds) = final (after state d) ds := rfl
    rcases start_or_other state d ds with ⟨job, hkind, hjob, hjobs⟩ | ⟨hother, hjobs, hafter⟩
    · rw [hjobs, blocked_cons]
      cases hlive : live job with
      | true =>
        -- The campaign runs from here on, so no start is skipped any more.
        have hafter := after_of_live h hkind hjob hlive
        have htakes : takes state d = true := by
          simp [takes, skips, h, hjob, hlive]
        rw [hfinal, leftover_cons_of_takes htakes, hafter, final_of_stays fun x _ => after_running x,
          taken_leftover fun x _ => after_running x]
        exact ⟨fun _ hblocked => Bool.noConfusion hblocked.1, fun _ => rfl⟩
      | false =>
        have hskips := skips_of_dead h hkind hjob hlive
        rw [hfinal, leftover_cons_of_not (not_takes_of_skips hskips), after_of_skips hskips]
        cases hany : (startJobsOf ds).any live with
        | true =>
          -- The start that was skipped is repaired now that the campaign runs.
          have hnow : takes .running d = true := by
            simp [takes, skips, CampaignState.started, hjob]
          rw [final_of_live h hany, taken_cons_of_takes hnow]
          exact ⟨nofun, fun hnot => absurd ⟨rfl, rfl⟩ hnot⟩
        | false =>
          have hstays := stays_of_dead state hany
          rw [final_of_stays hstays, taken_cons_of_not (not_takes_of_skips hskips), after_of_skips hskips, taken_leftover hstays]
          exact ⟨fun _ hblocked => Bool.noConfusion hblocked.2, fun _ => rfl⟩
    · rw [hfinal, hafter, hjobs, ← ih]
      cases htakes : takes state d with
      | true => rw [leftover_cons_of_takes htakes, hafter]
      | false =>
        have hjob : d.job = none := by
          cases hjob : d.job with
          | none => rfl
          | some job =>
            have hkind : ¬ d.intent.kind = .campaignStart := fun hkind => by
              rw [hother hkind] at hjob
              cases hjob
            simp [takes, skips, hjob, hkind] at htakes
        have hnever : takes (final state ds) d = false := by
          simp [takes, hjob]
        rw [leftover_cons_of_not htakes, hafter, taken_cons_of_not hnever, after_of_none hjob]

/-- In a state that no start changes, a second run repairs nothing. -/
theorem taken_final_leftover_of_not (h : state.startable = false) (ds : List Diagnostic) :
    final state ds = state ∧ taken state (leftover state ds) = [] := by
  have hstays : ∀ d ∈ ds, after state d = state := by
    refine fun d _ => if_neg fun hall => ?_
    rw [h] at hall
    cases hall.2.2.1
  exact ⟨final_of_stays hstays, taken_leftover hstays⟩

end

/-! ## Runs of the handler -/

/-- A run that repairs nothing keeps the state and leaves everything. -/
theorem leftover_of_taken_nil {state : CampaignState} {ds : List Diagnostic} (h : taken state ds = []) :
    final state ds = state ∧ leftover state ds = ds := by
  induction ds with
  | nil => exact ⟨rfl, rfl⟩
  | cons d ds ih =>
    cases htakes : takes state d with
    | true =>
      rw [taken_cons_of_takes htakes] at h
      cases h
    | false =>
      have hafter := after_of_not_takes htakes
      rw [taken_cons_of_not htakes, hafter] at h
      obtain ⟨hfinal, hleft⟩ := ih h
      refine ⟨?_, by rw [leftover_cons_of_not htakes, hafter, hleft]⟩
      show final (after state d) ds = state
      rw [hafter, hfinal]

/-- What a diagnosis gives: the pending intents in their order, each with what is known about it. -/
theorem sound_of_diagnose {ds : List Diagnostic}
    (h : diagnoseOutboxRecovery digest getByDedupe events = .ok ds) :
    ds.map Diagnostic.intent = pendingOutboxIntents events ∧ ∀ d ∈ ds, d.Sound digest getByDedupe := by
  obtain ⟨hmap, hall⟩ := diagnose_spec h
  refine ⟨hmap, fun d hd => ⟨?_, hall d hd⟩⟩
  have hmem : d.intent ∈ pendingOutboxIntents events := hmap ▸ List.mem_map_of_mem hd
  exact (described_of_mem_intentsFrom hmem).1

variable {campaign : Campaign}

/-- A repair leaves its leftover pending, and a new diagnosis finds just that. -/
theorem diagnose_leftover {ds : List Diagnostic}
    (hdiagnose : diagnoseOutboxRecovery digest getByDedupe campaign.events = .ok ds)
    (hrun : applyLocalOutboxRepairs env secret clock campaign ds = .ok r) :
    diagnoseOutboxRecovery digest getByDedupe r.campaign.events = .ok (leftover campaign.state ds) ∧
      r.campaign.state = final campaign.state ds ∧ r.repaired = (taken campaign.state ds).length := by
  obtain ⟨hmap, hsound⟩ := sound_of_diagnose hdiagnose
  obtain ⟨hstate, hcount, hpending⟩ := run_spec hsound hrun
  dsimp only at hstate hcount hpending
  refine ⟨?_, hstate, by rw [hcount, Nat.zero_add]⟩
  have hnodup : (ds.map Diagnostic.key).Nodup := by
    have hkeys := nodup_intentsFrom (completed campaign.events) [] campaign.events
    rw [show intentsFrom (completed campaign.events) [] campaign.events = ds.map Diagnostic.intent from hmap.symm,
      List.map_map] at hkeys
    exact hkeys
  have hleft : pendingOutboxIntents r.campaign.events = (leftover campaign.state ds).map Diagnostic.intent := by
    rw [hpending, ← hmap, ← filter_taken hnodup, List.filter_map]
    rfl
  unfold diagnoseOutboxRecovery
  rw [hleft]
  refine diagnose_again fun d hd => (hsound d ?_).diagnosed
  rw [← filter_taken hnodup] at hd
  exact (List.mem_filter.mp hd).1

variable {outcome : Outcome}

/-- What an attempt without a conflict returns. -/
theorem attempt_spec
    (h : attempt digest getByDedupe env secret clock campaign false = .ok (some outcome)) :
    campaign.state ≠ .cancelled ∧ ∃ ds, diagnoseOutboxRecovery digest getByDedupe campaign.events = .ok ds ∧
      outcome.repaired = (taken campaign.state ds).length ∧ outcome.campaign.state = final campaign.state ds ∧
      diagnoseOutboxRecovery digest getByDedupe outcome.campaign.events = .ok (leftover campaign.state ds) := by
  unfold attempt at h
  split at h
  · cases h
  rename_i hstate
  split at h
  · cases h
  rename_i ds hdiagnose
  split at h
  · cases h
  rename_i r hrun
  rw [if_neg fun hconflict => Bool.false_ne_true hconflict.2] at h
  obtain ⟨hleft, hfinal, hcount⟩ := diagnose_leftover hdiagnose hrun
  dsimp only at h
  split at h
  · cases h
  cases h
  refine ⟨hstate, ds, hdiagnose, hcount, ?_⟩
  dsimp only
  split
  · exact ⟨hfinal, hleft⟩
  · rename_i hzero
    have hnil : taken campaign.state ds = [] := List.length_eq_zero_iff.mp (by rw [← hcount]; exact not_not.mp hzero)
    obtain ⟨hkeep, hall⟩ := leftover_of_taken_nil hnil
    exact ⟨hkeep.symm, by rw [hall]; exact hdiagnose⟩

/-- An attempt that finds nothing to repair returns the campaign as it was. -/
theorem attempt_idle {campaign : Campaign} (hstate : campaign.state ≠ .cancelled) {ds : List Diagnostic}
    (hdiagnose : diagnoseOutboxRecovery digest getByDedupe campaign.events = .ok ds) (hnil : taken campaign.state ds = []) :
    ∃ again, attempt digest getByDedupe env secret clock campaign false = .ok (some again) ∧ again.campaign = campaign ∧
      again.repaired = 0 := by
  obtain ⟨skipped, hrun⟩ := @run_idle env secret clock ds ⟨campaign, 0, 0⟩ hnil
  unfold attempt applyLocalOutboxRepairs
  rw [if_neg hstate, hdiagnose]
  dsimp only
  rw [hrun]
  dsimp only
  rw [if_neg fun hconflict => Bool.false_ne_true hconflict.2, if_neg (not_not.mpr rfl), hdiagnose]
  exact ⟨_, rfl, rfl, rfl⟩

/-- A campaign that nobody else writes. -/
def alone (campaign : Campaign) : Fin 3 → Campaign × Bool := fun _ => (campaign, false)

/-- Alone, the first attempt decides. -/
theorem reconcile_alone :
    reconcileCampaignOutboxLocal digest getByDedupe env secret clock (alone campaign) = .ok outcome ↔
      attempt digest getByDedupe env secret clock campaign false = .ok (some outcome) := by
  have hsome : attempt digest getByDedupe env secret clock campaign false ≠ .ok none := by
    intro hnone
    unfold attempt at hnone
    split at hnone
    · cases hnone
    split at hnone
    · cases hnone
    split at hnone
    · cases hnone
    rw [if_neg fun hconflict => Bool.false_ne_true hconflict.2] at hnone
    dsimp only at hnone
    split at hnone
    · cases hnone
    · cases hnone
  unfold reconcileCampaignOutboxLocal alone attempts
  cases hattempt : attempt digest getByDedupe env secret clock campaign false with
  | error e => exact ⟨nofun, nofun⟩
  | ok result =>
    cases result with
    | none => exact absurd hattempt hsome
    | some first => exact ⟨fun h => by cases h; rfl, fun h => by cases h; rfl⟩

/-- An attempt that returns does so as if it were alone. -/
theorem attempt_false_of_ok {conflict : Bool}
    (h : attempt digest getByDedupe env secret clock campaign conflict = .ok (some outcome)) :
    attempt digest getByDedupe env secret clock campaign false = .ok (some outcome) := by
  unfold attempt at h ⊢
  split at h
  · cases h
  rename_i hstate
  rw [if_neg hstate]
  split at h
  · cases h
  dsimp only
  split at h
  · cases h
  split at h
  · cases h
  rw [if_neg fun hconflict => Bool.false_ne_true hconflict.2]
  exact h

/-- The jobs of the pending starts, in the order of the audit. -/
def startJobs (getByDedupe : GetByDedupe) (events : List AuditEntry) : List Job :=
  (pendingOutboxIntents events).filterMap fun intent =>
    if intent.kind = .campaignStart then (getByDedupe .strixScan ("api:start:" ++ intent.rawIdentity)).toOption.join else none

/-- A campaign that can be started, in which a pending start whose job has ended stands before the first one whose job is live. -/
def Stranded (getByDedupe : GetByDedupe) (campaign : Campaign) : Prop :=
  campaign.state.startable = true ∧ Blocked (startJobs getByDedupe campaign.events)

/-- The job of a start is found under its dedupe key. -/
theorem job_of_start {d : Diagnostic} (h : d.Sound digest getByDedupe) (hkind : d.intent.kind = .campaignStart) :
    (getByDedupe .strixScan ("api:start:" ++ d.intent.rawIdentity)).toOption.join = d.job := by
  obtain ⟨event, -, heq⟩ := h.described
  have hkey : d.intent.key.1 = .campaignStart := hkind
  have hjobKind : d.intent.jobKind = some .strixScan := by
    rw [heq]
    unfold describe
    rw [hkey]
  have hdedupe : d.intent.dedupeKey = some ("api:start:" ++ d.intent.rawIdentity) := by
    rw [heq]
    unfold describe
    rw [hkey]
  have hne : "api:start:" ++ d.intent.rawIdentity ≠ "" := by
    intro hempty
    have hlength := congrArg String.length hempty
    rw [String.length_append] at hlength
    have hten : "api:start:".length = 10 := by decide
    have hzero : "".length = 0 := by decide
    omega
  have hdiagnosed := h.diagnosed
  unfold diagnoseIntent at hdiagnosed
  rw [hjobKind, hdedupe] at hdiagnosed
  dsimp only at hdiagnosed
  rw [if_neg hne] at hdiagnosed
  split at hdiagnosed
  · cases hdiagnosed
  · rename_i hfound
    rw [hfound, ← Except.ok.inj hdiagnosed]
    rfl
  · rename_i job hfound
    rw [hfound, ← Except.ok.inj hdiagnosed]
    rfl

theorem startJobs_eq {ds : List Diagnostic}
    (h : diagnoseOutboxRecovery digest getByDedupe events = .ok ds) : startJobs getByDedupe events = startJobsOf ds := by
  obtain ⟨hmap, hsound⟩ := sound_of_diagnose h
  unfold startJobs startJobsOf
  rw [← hmap, List.filterMap_map]
  refine List.filterMap_congr fun d hd => ?_
  by_cases hkind : d.intent.kind = .campaignStart
  · rw [Function.comp_apply, if_pos hkind, if_pos hkind, job_of_start (hsound d hd) hkind]
  · rw [Function.comp_apply, if_neg hkind, if_neg hkind]

/-- The snapshot and the intents agree on what is pending, no key is pending twice, a completion retires its intent and changes no
other one, and what a run returned a second run leaves as it is, exactly when the campaign was not stranded. -/
theorem outbox_reconcile (digest : String → String) (getByDedupe : GetByDedupe) (env : AuditEnv) (secret : ResolvedSecret)
    (clock : Nat → String) (campaign : Campaign) :
    Agrees digest campaign.events ∧ ((pendingOutboxIntents campaign.events).map Intent.key).Nodup ∧
      (∀ intent ∈ pendingOutboxIntents campaign.events, ∀ d time event sealedEvent, diagnoseIntent digest getByDedupe intent = .ok d →
        localCompletionEvent d time = .ok (some event) →
          CampaignAudit.sealCampaignEvent env secret event campaign.events = .ok sealedEvent →
            pendingOutboxIntents (campaign.events ++ [sealedEvent]) =
              (pendingOutboxIntents campaign.events).filter fun other => decide (other.key ≠ intent.key)) ∧
      ∀ outcome, reconcileCampaignOutboxLocal digest getByDedupe env secret clock (alone campaign) = .ok outcome →
        ((∀ clock', ∃ again, reconcileCampaignOutboxLocal digest getByDedupe env secret clock' (alone outcome.campaign) = .ok again ∧
          again.campaign = outcome.campaign ∧ again.repaired = 0) ↔ ¬ Stranded getByDedupe campaign) := by
  refine ⟨agrees digest campaign.events, nodup_intentsFrom _ _ _, ?_, ?_⟩
  · intro intent hintent d time event sealedEvent hdiagnosed hevent hseal
    have hsame := diagnoseIntent_intent hdiagnosed
    have hsound : d.Sound digest getByDedupe :=
      ⟨hsame ▸ (described_of_mem_intentsFrom hintent).1, by rw [hsame]; exact hdiagnosed⟩
    obtain ⟨hcompletes, hrequests, -⟩ := keys_of_localCompletionEvent hsound hevent
    have hkey : d.key = intent.key := congrArg Intent.key hsame
    rw [hkey] at hcompletes
    exact pendingOutboxIntents_retire ((completionKey_congr (get_seal hseal)).trans hcompletes)
      ((requestKey_congr (get_seal hseal)).trans hrequests)
  · intro outcome houtcome
    obtain ⟨hstate, ds, hdiagnose, -, hfinal, hleft⟩ := attempt_spec (reconcile_alone.mp houtcome)
    have hagain : (∀ clock', ∃ again,
        reconcileCampaignOutboxLocal digest getByDedupe env secret clock' (alone outcome.campaign) = .ok again ∧
          again.campaign = outcome.campaign ∧ again.repaired = 0) ↔
        taken (final campaign.state ds) (leftover campaign.state ds) = [] := by
      constructor
      · intro hsettled
        obtain ⟨again, hrun, -, hzero⟩ := hsettled clock
        obtain ⟨-, ds', hdiagnose', hcount, -, -⟩ := attempt_spec (reconcile_alone.mp hrun)
        have hds : ds' = leftover campaign.state ds := Except.ok.inj (hdiagnose'.symm.trans hleft)
        rw [hzero, hfinal, hds] at hcount
        exact List.length_eq_zero_iff.mp hcount.symm
      · intro hnil clock'
        have hopen : outcome.campaign.state ≠ .cancelled := by
          rw [hfinal]
          cases hstartable : campaign.state.startable with
          | false =>
            rw [(taken_final_leftover_of_not hstartable ds).1]
            exact hstate
          | true =>
            cases hlive : (startJobsOf ds).any live with
            | true =>
              rw [final_of_live hstartable hlive]
              exact nofun
            | false =>
              rw [final_of_stays (stays_of_dead campaign.state hlive)]
              exact hstate
        rw [← hfinal] at hnil
        obtain ⟨again, hrun, hrest⟩ := @attempt_idle digest getByDedupe env secret clock' _ hopen _ hleft hnil
        exact ⟨again, reconcile_alone.mpr hrun, hrest⟩
    rw [hagain]
    unfold Stranded
    rw [startJobs_eq hdiagnose]
    cases hstartable : campaign.state.startable with
    | true =>
      rw [taken_final_leftover hstartable]
      exact ⟨fun h hstranded => h hstranded.2, fun h hblocked => h ⟨rfl, hblocked⟩⟩
    | false =>
      obtain ⟨hkeep, hnil⟩ := taken_final_leftover_of_not hstartable ds
      rw [hkeep]
      exact ⟨fun _ hstranded => Bool.noConfusion hstranded.1, fun _ => hnil⟩

/-! ## Two starts, of which the first one's job has failed -/

def sampleRequest (id : String) : AuditEntry :=
  (AuditEntry.set ⟨.empty, distinct_empty⟩ "type" (.str "campaign_start_requested") (distinct_str _)).set "request_id" (.str id)
    (distinct_str _)

def sampleCampaign : Campaign := ⟨.ready, [sampleRequest "r1", sampleRequest "r2"]⟩

def sampleIdent : Ident := ⟨"job", by decide, by decide, by decide, by decide⟩

def sampleJob (status : JobStatus) : Job :=
  ⟨sampleIdent, sampleIdent, .strixScan, "\x7b\x7d", status, 1, 2, 0, 0, none, none, none, none⟩

def sampleLookup : GetByDedupe := fun _ dedupeKey =>
  if dedupeKey = "api:start:r1" then .ok (some (sampleJob .failed))
  else if dedupeKey = "api:start:r2" then .ok (some (sampleJob .queued))
  else .ok none

def sampleRun (campaign : Campaign) : Except ApiError Outcome :=
  reconcileCampaignOutboxLocal id sampleLookup CampaignAudit.sampleEnv (.ok none) (fun _ => "now") (alone campaign)

theorem sampleRun_repairs_again :
    ((sampleRun sampleCampaign).toOption.bind fun outcome => (sampleRun outcome.campaign).toOption).map Outcome.repaired = some 1 := by
  decide +kernel

/-- The second run repairs the start that the first one skipped. -/
theorem skipped_start_returns : ∃ outcome again,
    reconcileCampaignOutboxLocal id sampleLookup CampaignAudit.sampleEnv (.ok none) (fun _ => "now") (alone sampleCampaign) =
        .ok outcome ∧
      reconcileCampaignOutboxLocal id sampleLookup CampaignAudit.sampleEnv (.ok none) (fun _ => "now") (alone outcome.campaign) =
        .ok again ∧ again.repaired = 1 := by
  have hsecond := sampleRun_repairs_again
  unfold sampleRun at hsecond
  cases hfirst : reconcileCampaignOutboxLocal id sampleLookup CampaignAudit.sampleEnv (.ok none) (fun _ => "now")
      (alone sampleCampaign) with
  | error e =>
    rw [hfirst] at hsecond
    cases hsecond
  | ok outcome =>
    rw [hfirst] at hsecond
    dsimp only [Except.toOption, Option.bind] at hsecond
    cases hagain : reconcileCampaignOutboxLocal id sampleLookup CampaignAudit.sampleEnv (.ok none) (fun _ => "now")
        (alone outcome.campaign) with
    | error e =>
      rw [hagain] at hsecond
      cases hsecond
    | ok again =>
      rw [hagain] at hsecond
      exact ⟨outcome, again, rfl, hagain, Option.some.inj hsecond⟩

/-- With the second start alone, a second run finds nothing. -/
theorem outbox_reconcile_sample : ∃ outcome, sampleRun ⟨.ready, [sampleRequest "r2"]⟩ = .ok outcome ∧
    ∀ clock', ∃ again, reconcileCampaignOutboxLocal id sampleLookup CampaignAudit.sampleEnv (.ok none) clock'
      (alone outcome.campaign) = .ok again ∧ again.campaign = outcome.campaign ∧ again.repaired = 0 := by
  have hok : (sampleRun ⟨.ready, [sampleRequest "r2"]⟩).toOption.isSome = true := by
    decide +kernel
  have hjobs : startJobs sampleLookup [sampleRequest "r2"] = [sampleJob .queued] := by
    decide +kernel
  cases hrun : sampleRun ⟨.ready, [sampleRequest "r2"]⟩ with
  | error e =>
    rw [hrun] at hok
    cases hok
  | ok outcome =>
    refine ⟨outcome, rfl, ?_⟩
    refine ((outbox_reconcile id sampleLookup CampaignAudit.sampleEnv (.ok none) (fun _ => "now")
      ⟨.ready, [sampleRequest "r2"]⟩).2.2.2 outcome hrun).mpr ?_
    rintro ⟨-, hblocked⟩
    rw [hjobs, blocked_cons] at hblocked
    cases hblocked.1

/-- A first save that conflicts, and a second one that does not. -/
def sampleRetried : Except ApiError Outcome :=
  reconcileCampaignOutboxLocal id sampleLookup CampaignAudit.sampleEnv (.ok none) (fun _ => "now")
    (fun i => (sampleCampaign, decide (i.val = 0)))

end Outbox

end XbowPerso
