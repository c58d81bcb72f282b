import XbowPerso.EnqueueHistory
import XbowPerso.Theorems.PentagiFlow
import XbowPerso.Theorems.PlannerStability
import XbowPerso.Theorems.VaultMigration
import Mathlib.Algebra.Order.BigOperators.Group.List

/-!
# Dedupe keys and payloads

Two enqueues of a campaign under one kind and one key carry the same payload. For scans, recon tasks and reports this is so in every
history: the swarm has requests for all of its tasks, and every other field is of the campaign or of the key. Validations are keyed by
identifiers that the callers choose.
-/

namespace XbowPerso

namespace EnqueueHistory

open CampaignAudit (appendCampaignEvent)
open EnqueueRequest (RowOf validate_spec)
open ExecutionContract (Campaign)
open HackerOneBinding (isBinding filter_append_event)
open JobProvenance (EnqueuePath ProvenanceEnv ScanEngine StoredCampaign declaredFingerprint externalPolicy verdict_shape)
open PyText (isPySpace strip stripChars)
open ReconPlan (ReconTask TaskKind buildReconPlan safeTarget tasksFor)
open RunnerRpc (JsonDict)

variable {env : ProvenanceEnv} {secret : ResolvedSecret} {cfg : QueueSettings} {c : Campaign}

/-! ## The requests of a recon task -/

/-- A task for the target that asks for all the requests of its kind. -/
def Full (target : String) (task : ReconTask) : Prop :=
  task.target = target ∧ task.maxRequests = (capability task.kind).maxRequestsPerTarget

/-- What the tasks ask for together. -/
def total (tasks : List ReconTask) : Nat := (tasks.map ReconTask.maxRequests).sum

variable {tasks : List ReconTask}

theorem total_perm {tasks' : List ReconTask} (h : tasks.Perm tasks') : total tasks = total tasks' := (h.map _).sum_eq

theorem tasksFor_spec (target : String) (endpoints forms technologies wafs : List Observation) :
    (∀ task ∈ tasksFor target endpoints forms technologies wafs, Full target task) ∧
      total (tasksFor target endpoints forms technologies wafs) ≤ 80 := by
  unfold tasksFor total
  refine ⟨fun task htask => ?_, ?_⟩
  · simp only [List.mem_append] at htask
    rcases htask with ((htask | htask) | htask) | htask
    · split at htask
      · rw [List.mem_singleton.mp htask]
        exact ⟨rfl, rfl⟩
      · rw [List.mem_singleton.mp htask]
        exact ⟨rfl, rfl⟩
    · split at htask
      · rw [List.mem_singleton.mp htask]
        exact ⟨rfl, rfl⟩
      · cases htask
    · split at htask
      · rw [List.mem_singleton.mp htask]
        exact ⟨rfl, rfl⟩
      · cases htask
    · split at htask
      · rw [List.mem_singleton.mp htask]
        exact ⟨rfl, rfl⟩
      · cases htask
  · by_cases hendpoints : endpoints = []
    · by_cases htechnologies : technologies = [] ∨ wafs = []
      · simp [hendpoints, htechnologies]
      · simp [hendpoints, htechnologies]
    · by_cases htechnologies : technologies = [] ∨ wafs = []
      · by_cases hforms : forms = []
        · simp [hendpoints, htechnologies, hforms]
        · simp [hendpoints, htechnologies, hforms]
      · by_cases hforms : forms = []
        · simp [hendpoints, htechnologies, hforms]
        · simp [hendpoints, htechnologies, hforms]

/-- The target of the recon tasks of a campaign. -/
def reconTarget (u : Unicode) (c : Campaign) : String :=
  match safeTarget u c.primaryUrl with
  | .ok (some (target, _)) => target
  | _ => ""

theorem plan_spec {u : Unicode} {scopeChecker : String → Bool} {limit : Int} {graph : ObservationGraph} {plan : List ReconTask}
    (h : buildReconPlan u scopeChecker limit c.primaryUrl graph = .ok plan) :
    (∀ task ∈ plan, Full (reconTarget u c) task) ∧ total plan ≤ 80 := by
  have hnil : ∀ task ∈ ([] : List ReconTask), Full (reconTarget u c) task := fun task htask => absurd htask List.not_mem_nil
  unfold buildReconPlan at h
  split at h
  · cases h
  split at h
  · cases h
  · cases h
    exact ⟨hnil, Nat.zero_le _⟩
  rename_i safe host hsafe
  have htarget : reconTarget u c = safe := by rw [reconTarget, hsafe]
  split at h
  · cases h
    exact ⟨hnil, Nat.zero_le _⟩
  split at h
  · cases h
    exact ⟨hnil, Nat.zero_le _⟩
  dsimp only at h
  rename_i origin horigin
  split at h
  · cases h
    exact ⟨hnil, Nat.zero_le _⟩
  · cases h
    obtain ⟨hfull, htotal⟩ := tasksFor_spec safe (ReconPlan.matching u origin graph .endpoint)
      (ReconPlan.matching u origin graph .form) (ReconPlan.matching u origin graph .technology)
      (ReconPlan.matching u origin graph .waf)
    rw [htarget]
    generalize tasksFor safe _ _ _ _ = tasks at hfull htotal ⊢
    have hperm := List.perm_insertionSort ReconPlan.before tasks
    refine ⟨fun task htask => hfull task (hperm.mem_iff.mp (List.mem_of_mem_take htask)), ?_⟩
    refine le_trans ?_ ((total_perm hperm).le.trans htotal)
    have hsub := List.take_sublist limit.toNat (tasks.insertionSort ReconPlan.before)
    exact (hsub.map ReconTask.maxRequests).sum_le_sum fun _ _ => Nat.zero_le _

/-- Another priority and another reason leave a task full. -/
theorem prioritize_spec {target : String} (adjusted : ReconTask → Nat × String)
    (hfull : ∀ task ∈ tasks, Full target task) :
    (∀ task ∈ prioritizeReconTasks adjusted tasks, Full target task) ∧ total (prioritizeReconTasks adjusted tasks) = total tasks := by
  unfold prioritizeReconTasks
  have hperm := List.perm_insertionSort sooner
    (tasks.map fun task => { task with priority := (adjusted task).1, reason := (adjusted task).2 })
  refine ⟨fun task htask => ?_, ?_⟩
  · obtain ⟨before, hbefore, rfl⟩ := List.mem_map.mp (hperm.mem_iff.mp htask)
    exact hfull before hbefore
  · rw [total_perm hperm, total, total, List.map_map]
    rfl

/-- As long as the swarm has requests for all the tasks that are left, it takes nothing away from a task. -/
theorem coordinateAll_spec {limits : SwarmBudget} {target : String} {s s' : Swarm}
    (h : Swarm.coordinateAll limits tasks s = .ok s') (hbudget : s.used + total tasks ≤ limits.maxTotalRequests)
    (hfull : ∀ task ∈ tasks, Full target task) (hselected : ∀ task ∈ s.selected, Full target task) :
    ∀ task ∈ s'.selected, Full target task := by
  induction tasks generalizing s with
  | nil =>
    cases h
    exact hselected
  | cons task tasks ih =>
    have hrest : ∀ task ∈ tasks, Full target task := fun task htask => hfull task (List.mem_cons_of_mem _ htask)
    have htotal : total (task :: tasks) = task.maxRequests + total tasks := by
      unfold total
      rw [List.map_cons, List.sum_cons]
    rw [htotal] at hbudget
    unfold Swarm.coordinateAll at h
    split at h
    · cases h
    rename_i s₁ hone
    unfold Swarm.coordinate at hone
    split at hone
    · cases hone
    split at hone
    · cases hone
    split at hone
    · cases hone
      exact ih h (by omega) hrest hselected
    · cases hone
      have hallocated : min task.maxRequests (limits.maxTotalRequests - s.used) = task.maxRequests := Nat.min_eq_left (by omega)
      refine ih h ?_ hrest fun selected hmem => ?_
      · show s.used + min task.maxRequests (limits.maxTotalRequests - s.used) + total tasks ≤ limits.maxTotalRequests
        omega
      · rcases List.mem_append.mp hmem with hmem | hmem
        · exact hselected selected hmem
        · rw [List.mem_singleton.mp hmem]
          refine ⟨(hfull task List.mem_cons_self).1, ?_⟩
          rw [hallocated]
          exact (hfull task List.mem_cons_self).2

/-- The recon tasks of a campaign ask for all the requests of their kinds, however they are ordered. -/
theorem reconTasks_spec {u : Unicode} {scopeChecker : String → Bool} {graph : ObservationGraph}
    {adjusted : ReconTask → Nat × String}
    (h : reconTasks u scopeChecker c.primaryUrl graph adjusted = .ok tasks) : ∀ task ∈ tasks, Full (reconTarget u c) task := by
  unfold reconTasks at h
  split at h
  · cases h
  rename_i plan hplan
  obtain ⟨hfull, htotal⟩ := plan_spec hplan
  obtain ⟨hprioritized, hsame⟩ := prioritize_spec adjusted hfull
  have hperm := List.perm_insertionSort sooner (prioritizeReconTasks adjusted plan)
  unfold coordinateReconSwarm at h
  split at h
  · cases h
  rename_i s hs
  cases h
  refine coordinateAll_spec hs ?_ (fun task htask => hprioritized task (hperm.mem_iff.mp htask)) fun task htask =>
    absurd htask List.not_mem_nil
  rw [total_perm hperm, hsame]
  show 0 + total plan ≤ 80
  omega

/-! ## Keys -/

/-- What is left of a text without the white space at its end. -/
def rstrip (text : String) : List Char := text.toList.rdropWhile isPySpace

/-- A text that starts and ends with something else than white space. -/
def Solid (text : List Char) : Prop :=
  ∃ first middle last, text = first :: (middle ++ [last]) ∧ isPySpace first = false ∧ isPySpace last = false

variable {front : List Char}

/-- Nothing of a solid front is stripped. -/
theorem strip_append (h : Solid front) (back : List Char) :
    stripChars (front ++ back) = front ++ back.rdropWhile isPySpace := by
  obtain ⟨first, middle, last, rfl, hfirst, hlast⟩ := h
  have hdrop : ((first :: (middle ++ [last]) ++ back)).dropWhile isPySpace = first :: (middle ++ [last]) ++ back :=
    List.dropWhile_cons_of_neg (by rw [hfirst]; exact Bool.false_ne_true)
  have hshape : ∀ tail : List Char, first :: (middle ++ [last]) ++ tail = (first :: middle) ++ last :: tail := fun tail => by
    rw [List.cons_append, List.append_assoc]
    rfl
  unfold stripChars
  rw [hdrop, hshape, hshape]
  exact VaultMigration.rstrip_append_cons hlast _ _

/-- Two texts that name one key: the queue strips them. -/
def SameKey (key key' : String) : Prop := stripChars key.toList = stripChars key'.toList

variable {key' : String} {front' back : List Char}

theorem prefix_of_sameKey {key : String} (h : SameKey key key') {back' : List Char} (hfront : Solid front)
    (hfront' : Solid front') (hkey : key.toList = front ++ back) (hkey' : key'.toList = front' ++ back') :
    front <+: front' ∨ front' <+: front := by
  unfold SameKey at h
  rw [hkey, hkey', strip_append hfront, strip_append hfront'] at h
  exact List.prefix_or_prefix_of_prefix (List.prefix_append front _) (h ▸ List.prefix_append front' _)

/-! ## What a job is about -/

/-- What the payload of a job says beside the campaign and its policy. -/
inductive Content where
  | scan (engine : ScanEngine)
  | recon (kind : TaskKind)
  | browser
  | report (platform : Platform)
  | validation (findingId asset : String) (ordinal : Option Nat)

/-- The place that stands for all that enqueue a content. -/
def Content.path (u : Unicode) (c : Campaign) : Content → EnqueuePath
  | scan engine => allowedScan u c engine
  | recon kind => .reconTask kind.word (reconTarget u c) (capability kind).maxRequestsPerTarget ["GET", "HEAD"] true true
  | browser => .browserObserve (reconTarget u c)
  | report platform => .queueReport platform.word
  | validation findingId asset ordinal => .validate findingId asset (ordinal.map Int.ofNat)

/-- How the keys of a kind of recon task start. -/
def reconFront (kind : TaskKind) : List Char := ("recon:" ++ kind.word ++ ":").toList

/-- How the keys of the reports for a platform start. -/
def reportFronts : Platform → List (List Char)
  | .generic => ["planner:report:".toList, "report:generic:".toList]
  | .hackerone => ["report:hackerone:".toList]
  | .bugcrowd => ["report:bugcrowd:".toList]

/-- The finding and the asset of a validation. -/
def validated? : EnqueuePath → Option (String × String)
  | .validate findingId asset _ | .ingest findingId asset | .addFinding findingId asset => some (findingId, asset)
  | _ => none

/-- What the key of a content says of it. -/
def Content.Keyed (ids : List String) (repeats : List (String × Nat)) (key : String) : Content → Prop
  | scan _ | browser => True
  | recon kind => ∃ back, key.toList = reconFront kind ++ back
  | report platform => ∃ front ∈ reportFronts platform, ∃ back, key.toList = front ++ back
  | validation findingId _ ordinal => key = validationKey findingId ordinal ∧ findingId ∈ ids ∧
      ∀ n, ordinal = some n → (findingId, n) ∈ repeats

/-- A request has a content. -/
structure Describes (env : ProvenanceEnv) (c : Campaign) (ids : List String) (repeats : List (String × Nat)) (r : Request)
    (content : Content) : Prop where
  payload : r.path.payload env.binding.floats c = (content.path env.binding.scope.unicode c).payload env.binding.floats c
  kind : r.path.kind = (content.path env.binding.scope.unicode c).kind
  action : r.path.action = (content.path env.binding.scope.unicode c).action
  attached : r.path.isBrowserEndpoint = (content.path env.binding.scope.unicode c).isBrowserEndpoint
  validated : validated? r.path = validated? (content.path env.binding.scope.unicode c)
  keyed : content.Keyed ids repeats r.dedupeKey

/-- The text of a repeated validation. -/
def repeatText (again : String × Nat) : List Char := (again.1 ++ ":repeat:" ++ toString again.2).toList

/-- Identifiers that no two keys confuse: none is another one up to white space at its end, or the text of a repeated validation. -/
structure Separate (ids : List String) (repeats : List (String × Nat)) : Prop where
  trimmed : ∀ id ∈ ids, ∀ id' ∈ ids, rstrip id = rstrip id' → id = id'
  repeated : ∀ id ∈ ids, ∀ again ∈ repeats, rstrip id ≠ repeatText again

variable {ids : List String} {repeats : List (String × Nat)}

/-! ## A key has one content -/

theorem solid_reconFront (kind : TaskKind) : Solid (reconFront kind) := by
  cases kind with
  | crawl => exact ⟨'r', "econ:crawl".toList, ':', by decide, by decide, by decide⟩
  | mapEndpoints => exact ⟨'r', "econ:map_endpoints".toList, ':', by decide, by decide, by decide⟩
  | detectTechnology => exact ⟨'r', "econ:detect_technology".toList, ':', by decide, by decide, by decide⟩
  | mapForms => exact ⟨'r', "econ:map_forms".toList, ':', by decide, by decide, by decide⟩
  | browserObserve => exact ⟨'r', "econ:browser_observe".toList, ':', by decide, by decide, by decide⟩

theorem reconFront_injective {kind kind' : TaskKind} (h : reconFront kind <+: reconFront kind' ∨ reconFront kind' <+: reconFront kind) :
    kind = kind' := by
  revert h
  cases kind <;> cases kind' <;> decide +kernel

theorem solid_reportFronts {platform : Platform} (h : front ∈ reportFronts platform) : Solid front := by
  cases platform with
  | generic =>
    simp only [reportFronts, List.mem_cons, List.not_mem_nil, or_false] at h
    rcases h with rfl | rfl
    · exact ⟨'p', "lanner:report".toList, ':', by decide, by decide, by decide⟩
    · exact ⟨'r', "eport:generic".toList, ':', by decide, by decide, by decide⟩
  | hackerone =>
    rw [List.mem_singleton.mp h]
    exact ⟨'r', "eport:hackerone".toList, ':', by decide, by decide, by decide⟩
  | bugcrowd =>
    rw [List.mem_singleton.mp h]
    exact ⟨'r', "eport:bugcrowd".toList, ':', by decide, by decide, by decide⟩

theorem reportFronts_injective {platform platform' : Platform} (hfront : front ∈ reportFronts platform)
    (hfront' : front' ∈ reportFronts platform') (h : front <+: front' ∨ front' <+: front) : platform = platform' := by
  have hall : ∀ p p' : Platform, ∀ f ∈ reportFronts p, ∀ f' ∈ reportFronts p', f <+: f' ∨ f' <+: f → p = p' := by
    intro p p'
    cases p <;> cases p' <;> decide +kernel
  exact hall platform platform' front hfront front' hfront' h

theorem solid_validation : Solid "validation:".toList := ⟨'v', "alidation".toList, ':', by decide, by decide, by decide⟩

/-- The characters of a number: no colon and no white space. -/
theorem digit_of_toString {n : Nat} {x : Char} (h : x ∈ (toString n).toList) : x ≠ ':' ∧ isPySpace x = false := by
  have hdigit : x.isDigit = true := by
    rw [Nat.toString_eq_repr] at h
    exact Nat.isDigit_of_mem_toDigits (b := 10) (by decide) (by decide) (by simpa [Nat.repr] using h)
  have hrange : 48 ≤ x.toNat ∧ x.toNat ≤ 57 := by
    unfold Char.isDigit at hdigit
    simp only [Bool.and_eq_true, decide_eq_true_eq, UInt32.le_iff_toNat_le] at hdigit
    exact ⟨hdigit.1, hdigit.2⟩
  refine ⟨?_, ?_⟩
  · rintro rfl
    exact absurd hrange.2 (by decide)
  · simp only [isPySpace, Bool.or_eq_false_iff, Bool.and_eq_false_iff, decide_eq_false_iff_not, beq_eq_false_iff_ne]
    omega

theorem rdropWhile_eq_self {l : List Char} (h : ∀ x ∈ l.getLast?, isPySpace x = false) : l.rdropWhile isPySpace = l := by
  induction l using List.reverseRecOn with
  | nil => rfl
  | append_singleton l x ih =>
    rw [List.rdropWhile_concat, if_neg]
    rw [h x (by rw [List.getLast?_concat]; rfl)]
    exact Bool.false_ne_true

/-- What the queue reads in the key of a validation after its front. -/
def validationBack (findingId : String) : Option Nat → List Char
  | none => rstrip findingId
  | some n => repeatText (findingId, n)

theorem strip_validationKey (findingId : String) (ordinal : Option Nat) :
    stripChars (validationKey findingId ordinal).toList = "validation:".toList ++ validationBack findingId ordinal := by
  cases ordinal with
  | none =>
    rw [validationKey, String.toList_append, strip_append solid_validation]
    rfl
  | some n =>
    have hlast : ∀ x ∈ (findingId ++ ":repeat:" ++ toString n).toList.getLast?, isPySpace x = false := by
      intro x hx
      have hne : (toString n).toList ≠ [] := by
        rw [Nat.toString_eq_repr]
        exact fun hnil => absurd (congrArg List.length hnil) (by simp [Nat.repr, Nat.toDigits_ne_nil])
      rw [String.toList_append, List.getLast?_append_of_ne_nil _ hne] at hx
      exact (digit_of_toString (List.mem_of_getLast? hx)).2
    have hkey : (validationKey findingId (some n)).toList = "validation:".toList ++ (findingId ++ ":repeat:" ++ toString n).toList := by
      simp only [validationKey, String.toList_append, List.append_assoc]
    rw [hkey, strip_append solid_validation, rdropWhile_eq_self hlast]
    rfl

/-- The last of a character that two texts have is at one place. -/
theorem eq_of_append_cons {x : Char} {back' : List Char} (h : front ++ x :: back = front' ++ x :: back')
    (hback : x ∉ back) (hback' : x ∉ back') : front = front' ∧ back = back' := by
  rcases List.append_eq_append_iff.mp h with ⟨middle, hfront, hrest⟩ | ⟨middle, hfront, hrest⟩
  · cases middle with
    | nil => exact ⟨(List.append_nil front ▸ hfront).symm, (List.cons.inj hrest).2⟩
    | cons y middle =>
      refine absurd ?_ hback
      rw [(List.cons.inj hrest).2]
      exact List.mem_append_right _ List.mem_cons_self
  · cases middle with
    | nil => exact ⟨List.append_nil front' ▸ hfront, (List.cons.inj hrest).2.symm⟩
    | cons y middle =>
      refine absurd ?_ hback'
      rw [(List.cons.inj hrest).2]
      exact List.mem_append_right _ List.mem_cons_self

/-- The text of a repeated validation has one finding and one ordinal. -/
theorem repeat_injective {findingId findingId' : String} {n n' : Nat} (h : repeatText (findingId, n) = repeatText (findingId', n')) :
    findingId = findingId' ∧ n = n' := by
  have hshape : ∀ (id : String) (m : Nat), repeatText (id, m) = (id.toList ++ ":repeat".toList) ++ ':' :: (toString m).toList := by
    intro id m
    rw [repeatText, String.toList_append, String.toList_append, List.append_assoc, List.append_assoc]
    rfl
  rw [hshape, hshape] at h
  obtain ⟨hfront, hback⟩ := eq_of_append_cons h (fun hmem => (digit_of_toString hmem).1 rfl) fun hmem => (digit_of_toString hmem).1 rfl
  have hdigits : ∀ m : Nat, (toString m).toList = Nat.toDigits 10 m := fun m => by
    rw [Nat.toString_eq_repr]
    exact String.toList_ofList
  rw [hdigits, hdigits] at hback
  have hnumber := congrArg (fun digits => Nat.ofDigitChars 10 digits 0) hback
  rw [Nat.ofDigitChars_toDigits (by decide) (by decide), Nat.ofDigitChars_toDigits (by decide) (by decide)] at hnumber
  exact ⟨String.toList_inj.mp (List.append_cancel_right hfront), hnumber⟩

variable {ordinal : Option Nat}

theorem validation_of_key (hids : Separate ids repeats) {findingId findingId' asset asset' : String} {ordinal' : Option Nat}
    {key : String} (h : (Content.validation findingId asset ordinal).Keyed ids repeats key)
    (h' : (Content.validation findingId' asset' ordinal').Keyed ids repeats key') (hkey : SameKey key key') :
    findingId = findingId' ∧ ordinal = ordinal' := by
  obtain ⟨rfl, hid, hrepeat⟩ := h
  obtain ⟨rfl, hid', hrepeat'⟩ := h'
  unfold SameKey at hkey
  rw [strip_validationKey, strip_validationKey] at hkey
  have hback := List.append_cancel_left hkey
  cases ordinal with
  | none =>
    cases ordinal' with
    | none => exact ⟨hids.trimmed findingId hid findingId' hid' hback, rfl⟩
    | some n' => exact absurd hback (hids.repeated findingId hid (findingId', n') (hrepeat' n' rfl))
  | some n =>
    cases ordinal' with
    | none => exact absurd hback.symm (hids.repeated findingId' hid' (findingId, n) (hrepeat n rfl))
    | some n' =>
      obtain ⟨hsame, hn⟩ := repeat_injective hback
      exact ⟨hsame, congrArg some hn⟩

variable {content : Content}

/-- A kind and a key have one content, if a finding has one asset. -/
theorem content_of_key (hids : Separate ids repeats) {r r' : Request} {content' : Content}
    (h : Describes env c ids repeats r content) (h' : Describes env c ids repeats r' content') (hkind : r.path.kind = r'.path.kind)
    (hkey : SameKey r.dedupeKey r'.dedupeKey)
    (hasset : ∀ id x y, validated? r.path = some (id, x) → validated? r'.path = some (id, y) → x = y) : content = content' := by
  have hkinds := (h.kind.symm.trans hkind).trans h'.kind
  have hkeyed := h.keyed
  have hkeyed' := h'.keyed
  have hvalidated := h.validated
  have hvalidated' := h'.validated
  cases content with
  | scan engine =>
    cases content' with
    | scan engine' =>
      cases engine <;> cases engine'
      · rfl
      · cases hkinds
      · cases hkinds
      · rfl
    | recon kind => cases engine <;> cases hkinds
    | browser => cases engine <;> cases hkinds
    | report platform => cases engine <;> cases hkinds
    | validation id asset ordinal => cases engine <;> cases hkinds
  | recon kind =>
    cases content' with
    | recon kind' =>
      obtain ⟨back, hback⟩ := hkeyed
      obtain ⟨back', hback'⟩ := hkeyed'
      rw [reconFront_injective (prefix_of_sameKey hkey (solid_reconFront kind) (solid_reconFront kind') hback hback')]
    | scan engine => cases engine <;> cases hkinds
    | browser => cases hkinds
    | report platform => cases hkinds
    | validation id asset ordinal => cases hkinds
  | browser =>
    cases content' with
    | browser => rfl
    | scan engine => cases engine <;> cases hkinds
    | recon kind => cases hkinds
    | report platform => cases hkinds
    | validation id asset ordinal => cases hkinds
  | report platform =>
    cases content' with
    | report platform' =>
      obtain ⟨front, hfront, back, hback⟩ := hkeyed
      obtain ⟨front', hfront', back', hback'⟩ := hkeyed'
      rw [reportFronts_injective hfront hfront'
        (prefix_of_sameKey hkey (solid_reportFronts hfront) (solid_reportFronts hfront') hback hback')]
    | scan engine => cases engine <;> cases hkinds
    | recon kind => cases hkinds
    | browser => cases hkinds
    | validation id asset ordinal => cases hkinds
  | validation id asset ordinal =>
    cases content' with
    | validation id' asset' ordinal' =>
      obtain ⟨rfl, rfl⟩ := validation_of_key hids hkeyed hkeyed' hkey
      rw [hasset id asset asset' hvalidated hvalidated']
    | scan engine => cases engine <;> cases hkinds
    | recon kind => cases hkinds
    | browser => cases hkinds
    | report platform => cases hkinds

/-! ## A content has one payload -/

/-- A campaign with the policy binding that it has in the history. -/
def Same (c : Campaign) (bindings : List AuditEntry) (s : StoredCampaign) : Prop :=
  s.campaign = c ∧ s.events.filter isBinding = bindings

variable {bindings : List AuditEntry} {s s' : StoredCampaign}

/-- Events that do not bind leave what is attached to a payload. -/
theorem enqueued_same {path : EnqueuePath} {payload payload' : JsonDict} (hs : Same c bindings s) (hs' : Same c bindings s')
    (h : path.enqueued env secret s = .ok payload) (h' : path.enqueued env secret s' = .ok payload') : payload = payload' := by
  obtain ⟨hcampaign, hbindings⟩ := hs
  obtain ⟨hcampaign', hbindings'⟩ := hs'
  have hsame : s'.campaign = s.campaign := hcampaign'.trans hcampaign.symm
  unfold EnqueuePath.enqueued JobProvenance.attachJobProvenance at h h'
  dsimp only at h h'
  rw [hsame] at h'
  split at h
  · rename_i hbrowser
    rw [if_pos hbrowser] at h'
    cases h
    cases h'
    rfl
  rename_i hother
  rw [if_neg hother] at h'
  split at h
  · cases h
  rename_i hfree
  rw [if_neg hfree] at h'
  split at h
  · cases h
  rename_i provenance hprovenance
  split at h'
  · cases h'
  rename_i provenance' hprovenance'
  cases h
  cases h'
  obtain ⟨current, binding, hcurrent, hbinding, rfl⟩ := JobProvenance.build_spec hprovenance
  obtain ⟨current', binding', hcurrent', hbinding', rfl⟩ := JobProvenance.build_spec hprovenance'
  rw [hsame, hcurrent] at hcurrent'
  cases hcurrent'
  obtain ⟨hrequired, hfingerprint⟩ := verdict_shape hbinding
  obtain ⟨hrequired', hfingerprint'⟩ := verdict_shape hbinding'
  have hexternal : externalPolicy binding = externalPolicy binding' := by
    unfold externalPolicy
    rw [hrequired, hrequired', hfingerprint, hfingerprint', declaredFingerprint, declaredFingerprint, hbindings, hbindings']
  rw [JobProvenance.fieldsOf, JobProvenance.fieldsOf, hexternal, JobProvenance.snapshotHost, JobProvenance.snapshotHost, hsame]

/-- What is enqueued is that of the content. -/
theorem Describes.enqueued {r : Request} (h : Describes env c ids repeats r content) (hs : s.campaign = c) :
    r.path.enqueued env secret s = (content.path env.binding.scope.unicode c).enqueued env secret s := by
  unfold EnqueuePath.enqueued
  dsimp only
  rw [hs, h.payload, h.attached, h.kind, h.action]

/-- Two enqueues of a kind under one key, as the queue reads it, have one payload. -/
theorem payload_of_key (hids : Separate ids repeats) {r r' : Request} {content' : Content} {payload payload' : JsonDict}
    (h : Describes env c ids repeats r content) (h' : Describes env c ids repeats r' content') (hs : Same c bindings s)
    (hs' : Same c bindings s') (hpayload : r.path.enqueued env secret s = .ok payload)
    (hpayload' : r'.path.enqueued env secret s' = .ok payload') (hkind : r.path.kind = r'.path.kind)
    (hkey : SameKey r.dedupeKey r'.dedupeKey)
    (hasset : ∀ id x y, validated? r.path = some (id, x) → validated? r'.path = some (id, y) → x = y) : payload = payload' := by
  have hcontent := content_of_key hids h h' hkind hkey hasset
  subst hcontent
  rw [h.enqueued hs.1] at hpayload
  rw [h'.enqueued hs'.1] at hpayload'
  exact enqueued_same hs hs' hpayload hpayload'

/-! ## One enqueue of the queue -/

section Queue

open SqliteQueue (Inv EnqueueEffect)

theorem identifier_ne_keyReused {value name : String} {e : PyError} (h : boundedIdentifier value name = .error e)
    (hname : name = "campaign_id" ∨ name = "dedupe_key") : e ≠ .keyReused := by
  unfold boundedIdentifier identifierOf at h
  rcases hname with rfl | rfl
  · split at h
    · cases h
      decide
    split at h
    · cases h
      decide
    split at h
    · cases h
      decide
    · cases h
  · split at h
    · cases h
      decide
    split at h
    · cases h
      decide
    split at h
    · cases h
      decide
    · cases h

variable {reading : Reading} {q q' : SqliteQueue} {campaignId key : String} {kind : JobKind} {payload : Payload} {r : EnqueueRequest}

theorem validate_ne_keyReused {e : PyError} (h : EnqueueRequest.validate cfg campaignId kind.word payload 2 (some key) = .error e) :
    e ≠ .keyReused := by
  unfold EnqueueRequest.validate at h
  rw [JobKind.ofWord?_word] at h
  split at h
  · rename_i e' hcampaign
    cases h
    exact identifier_ne_keyReused hcampaign (.inl rfl)
  dsimp only at h
  split at h
  · split at h
    · rename_i e' hdedupe
      cases h
      rw [Option.mapM_some] at hdedupe
      cases hkey : boundedIdentifier key "dedupe_key" with
      | error e =>
        rw [hkey] at hdedupe
        cases hdedupe
        exact identifier_ne_keyReused hkey (.inr rfl)
      | ok k =>
        rw [hkey] at hdedupe
        cases hdedupe
    split at h
    · cases h
      decide
    · cases h
  · cases h
    decide

/-- How an enqueue ends, if the rows of its key hold its payload: it returns a job and adds at most a row of its key with its payload, or
it raises, but not for a key that is reused. -/
inductive Settled (campaignId : String) (kind : JobKind) (key : String) (payload : Payload) (q : SqliteQueue) :
    Except PyError (Job × SqliteQueue) → Prop
  | raised (e : PyError) (he : e ≠ .keyReused) : Settled campaignId kind key payload q (.error e)
  | found (job : Job) : Settled campaignId kind key payload q (.ok (job, q))
  | added (job : Job) (q' : SqliteQueue) (hrows : ∀ j ∈ q'.rows, j ∈ q.rows ∨
      (j.payload = payload.encoded ∧ ∀ index, j.dedupe = some index → RowOf campaignId kind key index)) (hinv : Inv q') :
      Settled campaignId kind key payload q (.ok (job, q'))

theorem enqueue_settled (hinv : Inv q) (hheld : ∀ j ∈ q.rows, ∀ index, j.dedupe = some index → RowOf campaignId kind key index →
    j.payload = payload.encoded) :
    Settled campaignId kind key payload q (q.enqueue cfg reading campaignId kind.word payload 2 (some key)) := by
  unfold SqliteQueue.enqueue
  split
  · rename_i e he
    exact .raised e (validate_ne_keyReused he)
  rename_i r hr
  obtain ⟨hpayload, index, hdedupe, hrow⟩ := validate_spec hr
  split
  · rename_i existing hexisting
    have hholds := (SqliteQueue.selectDedupe_eq hdedupe q existing).mp hexisting
    have hmem : existing ∈ q.rows := ((q.find?_eq_some _ _).mp hholds.1).1
    have hsame : existing.payload = r.payload.encoded := by
      rw [hpayload]
      exact hheld existing hmem index hholds.2 hrow
    rw [r.answerExisting_eq (hinv existing.id existing hholds.1), if_pos hsame]
    exact .found existing
  · rename_i hnone
    rcases SqliteQueue.insertJob_effect q r reading hnone with ⟨q', heq, heffect⟩ | ⟨heq, -⟩
    · rw [heq]
      refine .added _ q' (fun j hj => ?_) (heffect.transition.wellFormed hinv)
      generalize hres : (Except.ok (r.newJob reading.uuid reading.now) : Except PyError Job) = res at heffect
      cases heffect with
      | existing e he =>
        rw [hnone] at he
        cases he
      | taken j hj hd => cases hres
      | created _ hn hd hinsert =>
        rw [(q.insert_eq_some hinsert).1] at hj
        rcases List.mem_append.mp hj with hj | hj
        · exact .inl hj
        · rw [List.mem_singleton.mp hj]
          refine .inr ⟨by rw [← hpayload]; rfl, fun index' hindex => ?_⟩
          rw [EnqueueRequest.newJob_dedupe, hdedupe] at hindex
          cases hindex
          exact hrow
    · rw [heq]
      exact .raised _ (by decide)

/-- A call that is no enqueue leaves the keys and the payloads of the rows, and adds none. -/
theorem rows_call {call : QueueCall} (hother : call.isEnqueue = false) {j : Job} (hj : j ∈ (q.call cfg reading call).2.rows) :
    ∃ before ∈ q.rows, j.dedupe = before.dedupe ∧ j.payload = before.payload := by
  have hfind := Table.find?_key _ hj
  cases hbefore : q.find? j.id with
  | none =>
    rw [SqliteQueue.call_absent hother hbefore] at hfind
    cases hfind
  | some before =>
    obtain ⟨after, hafter, hevolves, -⟩ := (SqliteQueue.call_transition cfg reading q call).kept j.id before hbefore
    have hsame : after = j := Option.some.inj (hafter.symm.trans hfind)
    subst hsame
    exact ⟨before, ((q.find?_eq_some _ _).mp hbefore).1, hevolves.dedupe_eq, hevolves.keeps.2.2.2.1⟩

end Queue

/-! ## Histories -/

/-- The findings that a request brings. -/
def Event.findings : Event → List Finding
  | .addFinding _ f _ => [f]
  | .ingest _ findings _ => findings
  | _ => []

/-- The repeated validations that a run of the planner asks for. -/
def Event.asksAgain : Event → List (String × Nat)
  | .advance _ (.validate selected) => selected.filterMap fun s => s.2.map fun n => (s.1, n)
  | _ => []

/-- The identifiers of the findings that the requests bring. -/
def submitted (events : List Event) : List String := events.flatMap fun e => e.findings.map Finding.id

def repeated (events : List Event) : List (String × Nat) := events.flatMap Event.asksAgain

/-- A finding that is new to the campaign has the asset with which a validation of its identifier was asked for before. -/
def KeepsAssets (h : History) (e : Event) : Prop :=
  ∀ f ∈ e.findings, f.id ∉ h.findings.map Finding.id → ∀ a ∈ h.asked, ∀ asset,
    validated? a.request.path = some (f.id, asset) → asset = f.asset

/-- Every request of a run keeps the assets. -/
def RunKeepsAssets (env : ProvenanceEnv) (secret : ResolvedSecret) (cfg : QueueSettings) : History → List Event → Prop
  | _, [] => True
  | h, e :: events => KeepsAssets h e ∧ RunKeepsAssets env secret cfg (h.step env secret cfg e) events

/-- A campaign right after it was created: no findings, and no jobs in a queue in order. -/
structure Start (h : History) : Prop where
  findings : h.findings = []
  asked : h.asked = []
  queue : SqliteQueue.Inv h.queue
  rows : ∀ j ∈ h.queue.rows, j.campaignId.text ≠ strip h.stored.campaign.id

/-- Two enqueues of a kind under one key have one payload, and no enqueue is refused for a key that is reused. -/
def Agree (h : History) : Prop :=
  (∀ a ∈ h.asked, ∀ b ∈ h.asked, a.request.path.kind = b.request.path.kind → a.request.dedupeKey = b.request.dedupeKey →
    a.payload = b.payload) ∧
  ∀ a ∈ h.asked, a.answer ≠ .error .keyReused

/-- What holds along a history whose identifiers are separate. -/
structure Kept (env : ProvenanceEnv) (secret : ResolvedSecret) (c : Campaign) (bindings : List AuditEntry) (ids : List String)
    (repeats : List (String × Nat)) (h : History) : Prop where
  same : Same c bindings h.stored
  queue : SqliteQueue.Inv h.queue
  known : ∀ f ∈ h.findings, f.id ∈ ids
  single : ∀ f ∈ h.findings, ∀ g ∈ h.findings, f.id = g.id → f.asset = g.asset
  described : ∀ a ∈ h.asked, (∃ content, Describes env c ids repeats a.request content) ∧
    ∃ s, Same c bindings s ∧ a.request.path.enqueued env secret s = .ok a.payload
  found : ∀ a ∈ h.asked, ∀ id asset, validated? a.request.path = some (id, asset) → ∀ f ∈ h.findings, f.id = id → asset = f.asset
  agreed : ∀ a ∈ h.asked, ∀ b ∈ h.asked, ∀ id x y,
    validated? a.request.path = some (id, x) → validated? b.request.path = some (id, y) → x = y
  answers : ∀ a ∈ h.asked, a.answer ≠ .error .keyReused
  rows : ∀ j ∈ h.queue.rows, ∀ kind key index, j.dedupe = some index → RowOf c.id kind key index →
    ∃ a ∈ h.asked, a.request.path.kind = kind ∧ SameKey a.request.dedupeKey key ∧ j.payload = (Json.obj a.payload).dumpsSorted

/-- A request that the planner, an ingestion or an endpoint makes at this point. -/
structure Proper (env : ProvenanceEnv) (c : Campaign) (ids : List String) (repeats : List (String × Nat)) (h : History)
    (r : Request) : Prop where
  described : ∃ content, Describes env c ids repeats r content
  found : ∀ id asset, validated? r.path = some (id, asset) → ∀ f ∈ h.findings, f.id = id → asset = f.asset
  agreed : ∀ id x y, validated? r.path = some (id, x) → ∀ a ∈ h.asked, validated? a.request.path = some (id, y) → x = y

/-- What an enqueue leaves alone. -/
structure Frame (h h' : History) (rs : List Request) : Prop where
  stored : h'.stored = h.stored
  findings : h'.findings = h.findings
  asked : ∀ a ∈ h'.asked, a ∈ h.asked ∨ a.request ∈ rs

variable {h : History}

theorem sameKey_of_strip {key : String} (h : strip key = strip key') : SameKey key key' := by
  unfold strip at h
  have hlist := congrArg String.toList h
  rwa [String.toList_ofList, String.toList_ofList] at hlist

/-- The log with one more enqueue. -/
theorem Kept.log (hkept : Kept env secret c bindings ids repeats h) {r : Request} (hr : Proper env c ids repeats h r) {payload : JsonDict}
    (hpayload : r.path.enqueued env secret h.stored = .ok payload) {answer : Except PyError Job} (hanswer : answer ≠ .error .keyReused)
    {queue : SqliteQueue} (hqueue : SqliteQueue.Inv queue)
    (hrows : ∀ j ∈ queue.rows, j ∈ h.queue.rows ∨
      (j.payload = (Json.obj payload).dumpsSorted ∧ ∀ index, j.dedupe = some index → RowOf c.id r.path.kind r.dedupeKey index)) :
    Kept env secret c bindings ids repeats { h with queue := queue, asked := h.asked ++ [⟨r, payload, answer⟩] } where
  same := hkept.same
  queue := hqueue
  known := hkept.known
  single := hkept.single
  described := by
    intro a ha
    rcases List.mem_append.mp ha with ha | ha
    · exact hkept.described a ha
    · rw [List.mem_singleton.mp ha]
      exact ⟨hr.described, h.stored, hkept.same, hpayload⟩
  found := by
    intro a ha
    rcases List.mem_append.mp ha with ha | ha
    · exact hkept.found a ha
    · rw [List.mem_singleton.mp ha]
      exact hr.found
  agreed := by
    intro a ha b hb id x y hx hy
    rcases List.mem_append.mp ha with ha | ha
    · rcases List.mem_append.mp hb with hb | hb
      · exact hkept.agreed a ha b hb id x y hx hy
      · rw [List.mem_singleton.mp hb] at hy
        exact (hr.agreed id y x hy a ha hx).symm
    · rw [List.mem_singleton.mp ha] at hx
      rcases List.mem_append.mp hb with hb | hb
      · exact hr.agreed id x y hx b hb hy
      · rw [List.mem_singleton.mp hb, hx] at hy
        exact (Prod.mk.inj (Option.some.inj hy)).2
  answers := by
    intro a ha
    rcases List.mem_append.mp ha with ha | ha
    · exact hkept.answers a ha
    · rw [List.mem_singleton.mp ha]
      exact hanswer
  rows := by
    intro j hj kind key index hindex hrow
    rcases hrows j hj with hold | ⟨hnew, hnewIndex⟩
    · obtain ⟨a, ha, hspec⟩ := hkept.rows j hold kind key index hindex hrow
      exact ⟨a, List.mem_append_left _ ha, hspec⟩
    · obtain ⟨-, hkind, hkey⟩ := hnewIndex index hindex
      obtain ⟨-, hkind', hkey'⟩ := hrow
      exact ⟨_, List.mem_append_right _ (List.mem_singleton.mpr rfl), hkind.symm.trans hkind',
        sameKey_of_strip (hkey.symm.trans hkey'), hnew⟩

/-- One enqueue. -/
theorem Kept.ask (hids : Separate ids repeats) (hkept : Kept env secret c bindings ids repeats h) {r : Request}
    (hr : Proper env c ids repeats h r) (reading : Reading) :
    Kept env secret c bindings ids repeats (h.ask env secret cfg reading r).2 ∧ Frame h (h.ask env secret cfg reading r).2 [r] := by
  have hframe : ∀ queue answer payload, Frame h { h with queue := queue, asked := h.asked ++ [⟨r, payload, answer⟩] } [r] := by
    refine fun queue answer payload => ⟨rfl, rfl, fun a ha => ?_⟩
    rcases List.mem_append.mp ha with ha | ha
    · exact .inl ha
    · rw [List.mem_singleton.mp ha]
      exact .inr (List.mem_singleton.mpr rfl)
  unfold History.ask
  split
  · exact ⟨hkept, rfl, rfl, fun a ha => .inl ha⟩
  rename_i payload hpayload
  have hheld : ∀ j ∈ h.queue.rows, ∀ index, j.dedupe = some index → RowOf h.stored.campaign.id r.path.kind r.dedupeKey index →
      j.payload = (Json.obj payload).dumpsSorted := by
    intro j hj index hindex hrow
    rw [hkept.same.1] at hrow
    obtain ⟨a, ha, hkind, hkey, hsame⟩ := hkept.rows j hj _ _ index hindex hrow
    obtain ⟨⟨content, hcontent⟩, s, hs, henqueued⟩ := hkept.described a ha
    obtain ⟨content', hcontent'⟩ := hr.described
    rw [hsame, payload_of_key hids hcontent hcontent' hs hkept.same henqueued hpayload hkind hkey fun id x y hx hy =>
      (hr.agreed id y x hy a ha hx).symm]
  have hsettled := @enqueue_settled cfg reading h.queue h.stored.campaign.id r.dedupeKey r.path.kind
    ⟨payload, distinct_enqueued env secret hpayload⟩ hkept.queue hheld
  split
  · rename_i e he
    rw [he] at hsettled
    cases hsettled with
    | raised _ hne =>
      refine ⟨hkept.log hr hpayload (fun heq => hne (Except.error.inj heq)) hkept.queue fun j hj => .inl hj, hframe _ _ _⟩
  · rename_i job queue hok
    rw [hok] at hsettled
    have hanswer : (Except.ok job : Except PyError Job) ≠ .error .keyReused := fun heq => by cases heq
    cases hsettled with
    | found _ => exact ⟨hkept.log hr hpayload hanswer hkept.queue fun j hj => .inl hj, hframe _ _ _⟩
    | added _ _ hrows hinv =>
      refine ⟨hkept.log hr hpayload hanswer hinv fun j hj => ?_, hframe _ _ _⟩
      rw [hkept.same.1] at hrows
      exact hrows j hj

/-- The enqueues of a request, one after the other. -/
theorem Kept.askAll (hids : Separate ids repeats) {rs : List Request} (hkept : Kept env secret c bindings ids repeats h)
    (hrs : ∀ r ∈ rs, Proper env c ids repeats h r)
    (hpair : ∀ r ∈ rs, ∀ r' ∈ rs, ∀ id x y, validated? r.path = some (id, x) → validated? r'.path = some (id, y) → x = y)
    (reading : Nat → Reading) :
    Kept env secret c bindings ids repeats (h.askAll env secret cfg reading rs).2 ∧
      Frame h (h.askAll env secret cfg reading rs).2 rs := by
  induction rs generalizing h with
  | nil => exact ⟨hkept, rfl, rfl, fun a ha => .inl ha⟩
  | cons r rs ih =>
    obtain ⟨hone, hframe⟩ : Kept env secret c bindings ids repeats (h.ask env secret cfg (reading rs.length) r).2 ∧
        Frame h (h.ask env secret cfg (reading rs.length) r).2 [r] := hkept.ask hids (hrs r List.mem_cons_self) _
    have hframeAll : Frame h (h.ask env secret cfg (reading rs.length) r).2 (r :: rs) :=
      ⟨hframe.stored, hframe.findings, fun a ha => (hframe.asked a ha).imp_right fun hr => by
        rw [List.mem_singleton.mp hr]
        exact List.mem_cons_self⟩
    unfold History.askAll
    split
    · rename_i h' hask
      rw [hask] at hone hframeAll
      exact ⟨hone, hframeAll⟩
    · rename_i h' hask
      rw [hask] at hone hframe
      have hrest : ∀ r' ∈ rs, Proper env c ids repeats h' r' := by
        intro r' hr'
        have hproper := hrs r' (List.mem_cons_of_mem _ hr')
        refine ⟨hproper.described, fun id asset hv f hf hid => ?_, fun id x y hv a ha hy => ?_⟩
        · rw [hframe.findings] at hf
          exact hproper.found id asset hv f hf hid
        · rcases hframe.asked a ha with ha | ha
          · exact hproper.agreed id x y hv a ha hy
          · rw [List.mem_singleton.mp ha] at hy
            exact hpair r' (List.mem_cons_of_mem _ hr') r List.mem_cons_self id x y hv hy
      obtain ⟨hall, hframe'⟩ := ih hone hrest fun r₁ hr₁ r₂ hr₂ =>
        hpair r₁ (List.mem_cons_of_mem _ hr₁) r₂ (List.mem_cons_of_mem _ hr₂)
      refine ⟨hall, hframe'.stored.trans hframe.stored, hframe'.findings.trans hframe.findings, fun a ha => ?_⟩
      rcases hframe'.asked a ha with ha | ha
      · rcases hframe.asked a ha with ha | ha
        · exact .inl ha
        · rw [List.mem_singleton.mp ha]
          exact .inr List.mem_cons_self
      · exact .inr (List.mem_cons_of_mem _ ha)

/-! ## The requests are proper -/

/-- A request that validates nothing. -/
theorem proper_of_plain {r : Request} (hdescribes : Describes env c ids repeats r content)
    (hplain : validated? r.path = none) : Proper env c ids repeats h r := by
  refine ⟨⟨content, hdescribes⟩, fun id asset hv => ?_, fun id x y hv => ?_⟩
  · rw [hplain] at hv
    cases hv
  · rw [hplain] at hv
    cases hv

theorem describes_report {key : String} {path : EnqueuePath} (platform : Platform)
    (hpath : path = .plannedReport ∧ platform = .generic ∨ path = .completionReport platform.word ∨ path = .queueReport platform.word)
    (hfront : front ∈ reportFronts platform) (hkey : key.toList = front ++ back) :
    Describes env c ids repeats ⟨path, key⟩ (.report platform) := by
  rcases hpath with ⟨rfl, rfl⟩ | rfl | rfl
  · exact ⟨rfl, rfl, rfl, rfl, rfl, front, hfront, back, hkey⟩
  · exact ⟨rfl, rfl, rfl, rfl, rfl, front, hfront, back, hkey⟩
  · exact ⟨rfl, rfl, rfl, rfl, rfl, front, hfront, back, hkey⟩

theorem describes_queueReport (platform : Platform) (requestId : String) : Describes env c ids repeats
    ⟨.queueReport platform.word, "report:" ++ platform.word ++ ":" ++ requestId⟩ (.report platform) := by
  have hkey : ∀ front, front.toList ∈ reportFronts platform → front = "report:" ++ platform.word ++ ":" →
      Describes env c ids repeats ⟨.queueReport platform.word, "report:" ++ platform.word ++ ":" ++ requestId⟩ (.report platform) := by
    rintro front hfront rfl
    exact describes_report platform (.inr (.inr rfl)) hfront (String.toList_append ..)
  cases platform with
  | generic => exact hkey "report:generic:" (by simp [reportFronts]) (by decide)
  | hackerone => exact hkey "report:hackerone:" (by simp [reportFronts]) (by decide)
  | bugcrowd => exact hkey "report:bugcrowd:" (by simp [reportFronts]) (by decide)

theorem describes_recon {browserReady : Bool} {fingerprint : String} {task : ReconTask} {r : Request}
    (hfull : Full (reconTarget env.binding.scope.unicode c) task) (hr : reconRequest browserReady fingerprint task = some r) :
    (∃ content, Describes env c ids repeats r content) ∧ validated? r.path = none := by
  obtain ⟨htarget, hrequests⟩ := hfull
  unfold reconRequest at hr
  split at hr
  · split at hr
    · cases hr
      rw [htarget]
      exact ⟨⟨.browser, rfl, rfl, rfl, rfl, rfl, trivial⟩, rfl⟩
    · cases hr
  · cases hr
    rw [htarget, hrequests]
    refine ⟨⟨.recon task.kind, rfl, rfl, rfl, rfl, rfl, (fingerprint ++ ":" ++ reconTarget env.binding.scope.unicode c).toList, ?_⟩, rfl⟩
    simp only [reconFront, String.toList_append, List.append_assoc]

theorem describes_validation {f : Finding} (hid : f.id ∈ ids)
    (hrepeat : ∀ n, ordinal = some n → (f.id, n) ∈ repeats) :
    Describes env c ids repeats (validateRequest f ordinal) (.validation f.id f.asset ordinal) :=
  ⟨rfl, rfl, rfl, rfl, rfl, rfl, hid, hrepeat⟩

/-- The validation of a finding whose asset is known. -/
theorem proper_validation (hkept : Kept env secret c bindings ids repeats h) {r : Request} {f : Finding}
    (hf : f ∈ h.findings) (hdescribes : Describes env c ids repeats r (.validation f.id f.asset ordinal)) :
    Proper env c ids repeats h r := by
  have hvalidated : validated? r.path = some (f.id, f.asset) := hdescribes.validated
  refine ⟨⟨_, hdescribes⟩, fun id asset hv g hg hid => ?_, fun id x y hv a ha hy => ?_⟩
  · rw [hvalidated] at hv
    cases hv
    exact hkept.single f hf g hg hid.symm
  · rw [hvalidated] at hv
    cases hv
    exact (hkept.found a ha _ _ hy f hf rfl).symm

/-- The requests of the planner. -/
theorem proper_planned (hkept : Kept env secret c bindings ids repeats h) {planned : Planned} {reading : Nat → Reading}
    (hrepeats : ∀ again ∈ (Event.advance reading planned).asksAgain, again ∈ repeats) :
    (∀ r ∈ planned.requests env h, Proper env c ids repeats h r) ∧
      ∀ r ∈ planned.requests env h, ∀ r' ∈ planned.requests env h, ∀ id x y,
        validated? r.path = some (id, x) → validated? r'.path = some (id, y) → x = y := by
  have hplain : ∀ {rs : List Request}, (∀ r ∈ rs, (∃ content, Describes env c ids repeats r content) ∧ validated? r.path = none) →
      (∀ r ∈ rs, Proper env c ids repeats h r) ∧ ∀ r ∈ rs, ∀ r' ∈ rs, ∀ id x y,
        validated? r.path = some (id, x) → validated? r'.path = some (id, y) → x = y := by
    intro rs hrs
    refine ⟨fun r hr => ?_, fun r hr r' hr' id x y hx => ?_⟩
    · obtain ⟨⟨content, hcontent⟩, hnone⟩ := hrs r hr
      exact proper_of_plain hcontent hnone
    · rw [(hrs r hr).2] at hx
      cases hx
  cases planned with
  | recon fingerprint graph scopeChecker adjusted browserReady =>
    simp only [Planned.requests]
    split
    · exact hplain fun r hr => absurd hr List.not_mem_nil
    · rename_i tasks htasks
      rw [hkept.same.1] at htasks
      refine hplain fun r hr => ?_
      obtain ⟨task, htask, hrequest⟩ := List.mem_filterMap.mp hr
      exact describes_recon (reconTasks_spec htasks task htask) hrequest
  | scan fingerprint engines =>
    simp only [Planned.requests]
    split
    · refine hplain fun r hr => ?_
      obtain ⟨engine, -, rfl⟩ := List.mem_map.mp hr
      rw [hkept.same.1]
      exact ⟨⟨.scan engine, rfl, rfl, rfl, rfl, rfl, trivial⟩, rfl⟩
    · exact hplain fun r hr => absurd hr List.not_mem_nil
  | validate selected =>
    have hspec : ∀ r ∈ (Planned.validate selected).requests env h, ∃ f ∈ h.findings, ∃ ordinal, r = validateRequest f ordinal ∧
        ∀ n, ordinal = some n → (f.id, n) ∈ repeats := by
      intro r hr
      obtain ⟨s, hs, hrequest⟩ := List.mem_filterMap.mp hr
      obtain ⟨f, hf, rfl⟩ := Option.map_eq_some_iff.mp hrequest
      have hid : f.id = s.1 := of_decide_eq_true (List.find?_some (p := fun g : Finding => decide (g.id = s.1)) hf)
      refine ⟨f, List.mem_of_find?_eq_some hf, s.2, rfl, fun n hn => ?_⟩
      refine hrepeats _ (List.mem_filterMap.mpr ⟨s, hs, ?_⟩)
      rw [hn, hid]
      rfl
    refine ⟨fun r hr => ?_, fun r hr r' hr' id x y hx hy => ?_⟩
    · obtain ⟨f, hf, ordinal, rfl, hrepeat⟩ := hspec r hr
      exact proper_validation hkept hf (describes_validation (hkept.known f hf) hrepeat)
    · obtain ⟨f, hf, ordinal, rfl, -⟩ := hspec r hr
      obtain ⟨f', hf', ordinal', rfl, -⟩ := hspec r' hr'
      cases hx
      obtain ⟨hid, rfl⟩ := Prod.mk.inj (Option.some.inj hy)
      exact hkept.single f hf f' hf' hid.symm
  | report fingerprint =>
    refine hplain fun r hr => ?_
    rw [List.mem_singleton.mp hr]
    exact ⟨⟨.report .generic, describes_report .generic (.inl ⟨rfl, rfl⟩) (by simp [reportFronts]) (String.toList_append ..)⟩, rfl⟩

/-! ## Runs -/

/-- The findings that are new, each identifier once. -/
theorem newFindings_spec (known : List String) (findings : List Finding) :
    (∀ f ∈ newFindings known findings, f ∈ findings ∧ f.id ∉ known) ∧ ((newFindings known findings).map Finding.id).Nodup := by
  induction findings generalizing known with
  | nil => exact ⟨fun f hf => absurd hf List.not_mem_nil, List.nodup_nil⟩
  | cons f findings ih =>
    unfold newFindings
    split
    · obtain ⟨hmem, hnodup⟩ := ih known
      exact ⟨fun g hg => ⟨List.mem_cons_of_mem _ (hmem g hg).1, (hmem g hg).2⟩, hnodup⟩
    · rename_i hnew
      obtain ⟨hmem, hnodup⟩ := ih (f.id :: known)
      refine ⟨fun g hg => ?_, ?_⟩
      · rcases List.mem_cons.mp hg with rfl | hg
        · exact ⟨List.mem_cons_self, hnew⟩
        · exact ⟨List.mem_cons_of_mem _ (hmem g hg).1, fun hin => (hmem g hg).2 (List.mem_cons_of_mem _ hin)⟩
      · rw [List.map_cons, List.nodup_cons]
        refine ⟨fun hin => ?_, hnodup⟩
        obtain ⟨g, hg, heq⟩ := List.mem_map.mp hin
        exact (hmem g hg).2 (heq ▸ List.mem_cons_self)

/-- New findings are added to a campaign. -/
theorem Kept.addFindings (hkept : Kept env secret c bindings ids repeats h) {new : List Finding} (hids : ∀ f ∈ new, f.id ∈ ids)
    (hnew : ∀ f ∈ new, f.id ∉ h.findings.map Finding.id) (hnodup : (new.map Finding.id).Nodup)
    (hassets : ∀ f ∈ new, ∀ a ∈ h.asked, ∀ asset, validated? a.request.path = some (f.id, asset) → asset = f.asset) :
    Kept env secret c bindings ids repeats { h with findings := h.findings ++ new } where
  same := hkept.same
  queue := hkept.queue
  described := hkept.described
  agreed := hkept.agreed
  answers := hkept.answers
  rows := hkept.rows
  known := by
    intro f hf
    rcases List.mem_append.mp hf with hf | hf
    · exact hkept.known f hf
    · exact hids f hf
  single := by
    intro f hf g hg hid
    rcases List.mem_append.mp hf with hf | hf
    · rcases List.mem_append.mp hg with hg | hg
      · exact hkept.single f hf g hg hid
      · exact absurd (hid ▸ List.mem_map_of_mem hf) (hnew g hg)
    · rcases List.mem_append.mp hg with hg | hg
      · exact absurd (hid ▸ List.mem_map_of_mem hg) (hnew f hf)
      · rw [List.inj_on_of_nodup_map hnodup hf hg hid]
  found := by
    intro a ha id asset hv f hf hid
    rcases List.mem_append.mp hf with hf | hf
    · exact hkept.found a ha id asset hv f hf hid
    · rw [← hid] at hv
      exact hassets f hf a ha asset hv

/-- One request, or what happens in between. -/
theorem Kept.step (hids : Separate ids repeats) (hkept : Kept env secret c bindings ids repeats h) {e : Event}
    (hsubmitted : ∀ f ∈ e.findings, f.id ∈ ids) (hrepeats : ∀ again ∈ e.asksAgain, again ∈ repeats) (hassets : KeepsAssets h e) :
    Kept env secret c bindings ids repeats (h.step env secret cfg e) := by
  cases e with
  | advance reading planned =>
    obtain ⟨hproper, hpair⟩ := proper_planned hkept hrepeats
    exact (hkept.askAll hids hproper hpair reading).1
  | addFinding reading f queued =>
    simp only [History.step]
    split
    · rename_i existing hexisting
      have hmem := List.mem_of_find?_eq_some hexisting
      split
      · have hdescribes : Describes env c ids repeats (addFindingRequest existing) (.validation existing.id existing.asset none) :=
          ⟨rfl, rfl, rfl, rfl, rfl, rfl, hkept.known existing hmem, fun n hn => (by cases hn)⟩
        exact (hkept.ask hids (proper_validation hkept hmem hdescribes) reading).1
      · exact hkept
    · rename_i hnone
      have hnew : f.id ∉ h.findings.map Finding.id := by
        intro hin
        obtain ⟨g, hg, hid⟩ := List.mem_map.mp hin
        exact of_decide_eq_false (Bool.not_eq_true _ |>.mp (List.find?_eq_none.mp hnone g hg)) hid
      have hf : ∀ g ∈ [f], g = f := fun g hg => List.mem_singleton.mp hg
      have hadded : Kept env secret c bindings ids repeats { h with findings := h.findings ++ [f] } :=
        hkept.addFindings (fun g hg => hsubmitted g hg) (fun g hg => hf g hg ▸ hnew) (List.nodup_singleton _)
          fun g hg a ha asset hv => hassets g hg (hf g hg ▸ hnew) a ha asset hv
      have hdescribes : Describes env c ids repeats (addFindingRequest f) (.validation f.id f.asset none) :=
        ⟨rfl, rfl, rfl, rfl, rfl, rfl, hsubmitted f List.mem_cons_self, fun n hn => (by cases hn)⟩
      have hmem : f ∈ h.findings ++ [f] := List.mem_append_right _ List.mem_cons_self
      exact (hadded.ask hids (proper_validation hadded hmem hdescribes) reading).1
  | ingest reading findings saved =>
    simp only [History.step]
    obtain ⟨hnew, hnodup⟩ := newFindings_spec (h.findings.map Finding.id) findings
    generalize newFindings (h.findings.map Finding.id) findings = new at hnew hnodup ⊢
    have hspec : ∀ r ∈ new.map ingestRequest, ∃ f ∈ new, r = ingestRequest f := fun r hr => by
      obtain ⟨f, hf, rfl⟩ := List.mem_map.mp hr
      exact ⟨f, hf, rfl⟩
    have hproper : ∀ r ∈ new.map ingestRequest, Proper env c ids repeats h r := by
      intro r hr
      obtain ⟨f, hf, rfl⟩ := hspec r hr
      refine ⟨⟨.validation f.id f.asset none, rfl, rfl, rfl, rfl, rfl, rfl, hsubmitted f (hnew f hf).1, fun n hn => (by cases hn)⟩,
        fun id asset hv g hg hid => ?_, fun id x y hv a ha hy => ?_⟩
      · cases hv
        exact absurd (hid ▸ List.mem_map_of_mem hg) (hnew f hf).2
      · cases hv
        exact (hassets f (hnew f hf).1 (hnew f hf).2 a ha y hy).symm
    have hsame : ∀ f ∈ new, ∀ g ∈ new, f.id = g.id → f = g := fun f hf g hg hid => List.inj_on_of_nodup_map hnodup hf hg hid
    have hpair : ∀ r ∈ new.map ingestRequest, ∀ r' ∈ new.map ingestRequest, ∀ id x y,
        validated? r.path = some (id, x) → validated? r'.path = some (id, y) → x = y := by
      intro r hr r' hr' id x y hx hy
      obtain ⟨f, hf, rfl⟩ := hspec r hr
      obtain ⟨g, hg, rfl⟩ := hspec r' hr'
      cases hx
      obtain ⟨hid, rfl⟩ := Prod.mk.inj (Option.some.inj hy)
      rw [hsame f hf g hg hid.symm]
    obtain ⟨hall, hframe⟩ : Kept env secret c bindings ids repeats (h.askAll env secret cfg reading (new.map ingestRequest)).2 ∧
        Frame h (h.askAll env secret cfg reading (new.map ingestRequest)).2 (new.map ingestRequest) :=
      hkept.askAll hids hproper hpair reading
    split
    · refine hall.addFindings (fun f hf => hsubmitted f (hnew f hf).1) (fun f hf => ?_) hnodup fun f hf a ha asset hv => ?_
      · rw [hframe.findings]
        exact (hnew f hf).2
      · rcases hframe.asked a ha with ha | ha
        · exact hassets f (hnew f hf).1 (hnew f hf).2 a ha asset hv
        · obtain ⟨g, hg, heq⟩ := hspec _ ha
          rw [heq] at hv
          obtain ⟨hid, rfl⟩ := Prod.mk.inj (Option.some.inj hv)
          rw [hsame g hg f hf hid]
    · exact hall
  | completionReport reading =>
    have hkey : "report:generic:completed".toList = "report:generic:".toList ++ "completed".toList := by decide
    have hdescribes : Describes env c ids repeats ⟨.completionReport "generic", "report:generic:completed"⟩ (.report .generic) :=
      describes_report .generic (.inr (.inl rfl)) (by simp [reportFronts]) hkey
    exact (hkept.ask hids (proper_of_plain hdescribes rfl) reading).1
  | queueReport reading platform requestId =>
    exact (hkept.ask hids (proper_of_plain (describes_queueReport platform requestId) rfl) reading).1
  | append entry sealing ordinary =>
    refine ⟨⟨hkept.same.1, ?_⟩, hkept.queue, hkept.known, hkept.single, hkept.described, hkept.found, hkept.agreed, hkept.answers,
      hkept.rows⟩
    exact (filter_append_event ordinary).trans hkept.same.2
  | call reading call other =>
    refine ⟨hkept.same, ?_, hkept.known, hkept.single, hkept.described, hkept.found, hkept.agreed, hkept.answers, ?_⟩
    · exact (SqliteQueue.call_transition cfg reading h.queue call).wellFormed hkept.queue
    · intro j hj kind key index hindex hrow
      obtain ⟨before, hbefore, hdedupe, hpayload⟩ := rows_call other hj
      obtain ⟨a, ha, hkind, hkey, hsame⟩ := hkept.rows before hbefore kind key index (hdedupe ▸ hindex) hrow
      exact ⟨a, ha, hkind, hkey, hpayload.trans hsame⟩

theorem Kept.run (hids : Separate ids repeats) {events : List Event} (hkept : Kept env secret c bindings ids repeats h)
    (hsubmitted : ∀ e ∈ events, ∀ f ∈ e.findings, f.id ∈ ids) (hrepeats : ∀ e ∈ events, ∀ again ∈ e.asksAgain, again ∈ repeats)
    (hassets : RunKeepsAssets env secret cfg h events) : Kept env secret c bindings ids repeats (h.run env secret cfg events) := by
  induction events generalizing h with
  | nil => exact hkept
  | cons e events ih =>
    have hone : Kept env secret c bindings ids repeats (h.step env secret cfg e) :=
      hkept.step hids (hsubmitted e List.mem_cons_self) (hrepeats e List.mem_cons_self) hassets.1
    exact ih hone (fun e' he' => hsubmitted e' (List.mem_cons_of_mem _ he')) (fun e' he' => hrepeats e' (List.mem_cons_of_mem _ he'))
      hassets.2

theorem Start.kept (hstart : Start h) :
    Kept env secret h.stored.campaign (h.stored.events.filter isBinding) ids repeats h := by
  refine ⟨⟨rfl, rfl⟩, hstart.queue, ?_, ?_, ?_, ?_, ?_, ?_, ?_⟩
  · rw [hstart.findings]
    exact fun f hf => absurd hf List.not_mem_nil
  · rw [hstart.findings]
    exact fun f hf => absurd hf List.not_mem_nil
  · rw [hstart.asked]
    exact fun a ha => absurd ha List.not_mem_nil
  · rw [hstart.asked]
    exact fun a ha => absurd ha List.not_mem_nil
  · rw [hstart.asked]
    exact fun a ha => absurd ha List.not_mem_nil
  · rw [hstart.asked]
    exact fun a ha => absurd ha List.not_mem_nil
  · intro j hj kind key index hindex hrow
    obtain ⟨k, -, rfl⟩ := Option.map_eq_some_iff.mp hindex
    exact absurd hrow.1 (hstart.rows j hj)

/-- Along every history of a campaign whose identifiers are separate and which keeps the assets, the enqueues agree on the keys: two of a
kind under one key have one payload, and none is refused for a key that is reused. -/
theorem dedupe_keys_agree (env : ProvenanceEnv) (secret : ResolvedSecret) (cfg : QueueSettings) (h : History) (events : List Event)
    (hstart : Start h) (hids : Separate (submitted events) (repeated events)) (hassets : RunKeepsAssets env secret cfg h events) :
    Agree (h.run env secret cfg events) := by
  have hkept : Kept env secret h.stored.campaign (h.stored.events.filter isBinding) (submitted events) (repeated events)
      (h.run env secret cfg events) :=
    hstart.kept.run hids (fun e he f hf => List.mem_flatMap.mpr ⟨e, he, List.mem_map_of_mem hf⟩)
      (fun e he again hagain => List.mem_flatMap.mpr ⟨e, he, hagain⟩) hassets
  refine ⟨fun a ha b hb hkind hkey => ?_, hkept.answers⟩
  obtain ⟨⟨content, hcontent⟩, s, hs, hpayload⟩ := hkept.described a ha
  obtain ⟨⟨content', hcontent'⟩, s', hs', hpayload'⟩ := hkept.described b hb
  refine payload_of_key hids hcontent hcontent' hs hs' hpayload hpayload' hkind ?_ fun id x y hx hy =>
    hkept.agreed a ha b hb id x y hx hy
  unfold SameKey
  rw [hkey]

/-! ## A finding that is named like a repeated validation -/

open JobProvenance (sampleCampaign sampleProvenance sample_enqueued)

/-- An enqueue that gets its payload is in the log. -/
theorem asked_of_enqueued {reading : Reading} {r : Request} {payload : JsonDict}
    (hpayload : r.path.enqueued env secret h.stored = .ok payload) :
    ∃ answer queue, (h.ask env secret cfg reading r).2 = { h with queue := queue, asked := h.asked ++ [⟨r, payload, answer⟩] } := by
  unfold History.ask
  split
  · rename_i e he
    rw [hpayload] at he
    cases he
  rename_i payload' hpayload'
  rw [hpayload] at hpayload'
  cases hpayload'
  split
  · exact ⟨_, h.queue, rfl⟩
  · exact ⟨_, _, rfl⟩

theorem askAll_singleton (reading : Nat → Reading) (r : Request) :
    (h.askAll env secret cfg reading [r]).2 = (h.ask env secret cfg (reading 0) r).2 := by
  unfold History.askAll
  split
  · rename_i h' hask
    rw [show (reading 0) = reading ([] : List Request).length from rfl, hask]
  · rename_i h' hask
    rw [show (reading 0) = reading ([] : List Request).length from rfl, hask]
    rfl

def sampleHistory : History := ⟨sampleCampaign, [], Table.empty, []⟩

theorem sampleHistory_start : Start sampleHistory :=
  ⟨rfl, rfl, SqliteQueue.inv_empty, fun _ hj => absurd hj List.not_mem_nil⟩

def sampleReading : Reading := ⟨0, Orchestrator.sampleValidation⟩

def sampleFinding : Finding := ⟨"f", "https://app.example.com/", ""⟩

/-- A finding whose identifier is the text of the second validation of the other one. -/
def otherFinding : Finding := ⟨"f:repeat:2", "https://app.example.com/", ""⟩

/-- A finding is added, and its validation is repeated. -/
def sampleEvents : List Event :=
  [.addFinding sampleReading sampleFinding false, .advance (fun _ => sampleReading) (.validate [("f", some 2)])]

theorem dedupe_keys_agree_sample :
    Agree (sampleHistory.run sampleProvenance (.ok none) QueueSettings.default sampleEvents) := by
  refine dedupe_keys_agree sampleProvenance (.ok none) QueueSettings.default sampleHistory sampleEvents sampleHistory_start ?_
    ⟨fun f _ _ a ha => absurd ha List.not_mem_nil, fun f hf => absurd hf List.not_mem_nil, trivial⟩
  refine ⟨fun id hid id' hid' _ => ?_, fun id hid again hagain => ?_⟩
  · rw [List.mem_singleton.mp hid, List.mem_singleton.mp hid']
  · rw [List.mem_singleton.mp hid, List.mem_singleton.mp hagain]
    decide +kernel

theorem other_ne_sample : sampleFinding.id ≠ otherFinding.id := by
  show ("f" : String) ≠ "f:repeat:2"
  decide

/-- An enqueue is logged, and leaves the campaign and its findings. -/
structure Logs (h h' : History) (findings : List Finding) (r : Request) (payload : JsonDict) : Prop where
  stored : h'.stored = h.stored
  findings : h'.findings = findings
  asked : ∃ answer, h'.asked = h.asked ++ [⟨r, payload, answer⟩]

/-- A finding with another identifier than those of the campaign is added. -/
theorem logs_addFinding {reading : Reading} {f : Finding} {payload : JsonDict} (hnew : ∀ g ∈ h.findings, g.id ≠ f.id)
    (hpayload : (addFindingRequest f).path.enqueued env secret h.stored = .ok payload) :
    Logs h (h.step env secret cfg (.addFinding reading f false)) (h.findings ++ [f]) (addFindingRequest f) payload := by
  have hnone : (h.findings.find? fun g => decide (g.id = f.id)) = none :=
    List.find?_eq_none.mpr fun g hg heq => hnew g hg (of_decide_eq_true heq)
  obtain ⟨answer, queue, hask⟩ := @asked_of_enqueued env secret cfg { h with findings := h.findings ++ [f] } reading _ payload hpayload
  simp only [History.step, hnone]
  rw [hask]
  exact ⟨rfl, rfl, answer, rfl⟩

/-- The validation of the first finding is asked for. -/
theorem logs_validate {reading : Nat → Reading} {f : Finding} {findings : List Finding} {ordinal : Option Nat} {payload : JsonDict}
    (hfindings : h.findings = f :: findings)
    (hpayload : (validateRequest f ordinal).path.enqueued env secret h.stored = .ok payload) :
    Logs h (h.step env secret cfg (.advance reading (.validate [(f.id, ordinal)]))) h.findings (validateRequest f ordinal) payload := by
  have hfind : (h.findings.find? fun g => decide (g.id = f.id)) = some f := by
    rw [hfindings]
    exact List.find?_cons_of_pos (decide_eq_true rfl)
  have hrequests : (Planned.validate [(f.id, ordinal)]).requests env h = [validateRequest f ordinal] := by
    simp only [Planned.requests, List.filterMap_cons, List.filterMap_nil, hfind, Option.map_some]
  obtain ⟨answer, queue, hask⟩ := @asked_of_enqueued env secret cfg h (reading 0) _ payload hpayload
  simp only [History.step, hrequests]
  rw [askAll_singleton, hask]
  exact ⟨rfl, rfl, answer, rfl⟩

/-- Then the other finding is added: its validation has the key of the repeated one, and another payload. -/
theorem key_of_repeat_reused : ¬ Agree (sampleHistory.run sampleProvenance (.ok none) QueueSettings.default
    (sampleEvents ++ [.addFinding sampleReading otherFinding false])) := by
  obtain ⟨payload₁, hpayload₁, -⟩ := @sample_enqueued (addFindingRequest sampleFinding).path rfl
  obtain ⟨payload₂, hpayload₂, hlength₂⟩ := @sample_enqueued (validateRequest sampleFinding (some 2)).path rfl
  obtain ⟨payload₃, hpayload₃, hlength₃⟩ := @sample_enqueued (addFindingRequest otherFinding).path rfl
  have hempty : ∀ g ∈ sampleHistory.findings, g.id ≠ sampleFinding.id := fun g hg => absurd hg List.not_mem_nil
  have hlogs₁ := @logs_addFinding sampleProvenance (.ok none) QueueSettings.default sampleHistory sampleReading _ _ hempty hpayload₁
  unfold History.run sampleEvents
  rw [List.cons_append, List.cons_append, List.nil_append, List.foldl_cons, List.foldl_cons, List.foldl_cons, List.foldl_nil]
  generalize sampleHistory.step sampleProvenance (.ok none) QueueSettings.default (.addFinding sampleReading sampleFinding false) = h₁
    at hlogs₁ ⊢
  have hstored₁ : h₁.stored = sampleCampaign := hlogs₁.stored
  rw [← hstored₁] at hpayload₂
  have hlogs₂ := @logs_validate sampleProvenance (.ok none) QueueSettings.default h₁ (fun _ => sampleReading) sampleFinding [] (some 2) _
    hlogs₁.findings hpayload₂
  rw [show sampleFinding.id = "f" from rfl] at hlogs₂
  generalize h₁.step sampleProvenance (.ok none) QueueSettings.default
    (.advance (fun _ => sampleReading) (.validate [("f", some 2)])) = h₂ at hlogs₂ ⊢
  have hstored₂ : h₂.stored = sampleCampaign := hlogs₂.stored.trans hstored₁
  have hfindings : h₂.findings = [sampleFinding] := hlogs₂.findings.trans hlogs₁.findings
  have hother : ∀ g ∈ h₂.findings, g.id ≠ otherFinding.id := by
    intro g hg
    rw [hfindings] at hg
    rw [List.mem_singleton.mp hg]
    exact other_ne_sample
  rw [← hstored₂] at hpayload₃
  have hlogs₃ := @logs_addFinding sampleProvenance (.ok none) QueueSettings.default h₂ sampleReading _ _ hother hpayload₃
  obtain ⟨answer₂, hasked₂⟩ := hlogs₂.asked
  obtain ⟨answer₃, hasked₃⟩ := hlogs₃.asked
  intro hagree
  have hkeys : (validateRequest sampleFinding (some 2)).dedupeKey = (addFindingRequest otherFinding).dedupeKey := by
    refine String.toList_inj.mp ?_
    show (validationKey "f" (some 2)).toList = (validationKey "f:repeat:2" none).toList
    decide +kernel
  have hsame : payload₂ = payload₃ := by
    refine hagree.1 ⟨validateRequest sampleFinding (some 2), payload₂, answer₂⟩ ?_
      ⟨addFindingRequest otherFinding, payload₃, answer₃⟩ ?_ rfl hkeys
    · rw [hasked₃, hasked₂]
      exact List.mem_append_left _ (List.mem_append_right _ (List.mem_singleton.mpr rfl))
    · rw [hasked₃]
      exact List.mem_append_right _ (List.mem_singleton.mpr rfl)
  have hlengths :
      ((validateRequest sampleFinding (some 2)).path.payload sampleProvenance.binding.floats sampleCampaign.campaign).length = 4 ∧
      ((addFindingRequest otherFinding).path.payload sampleProvenance.binding.floats sampleCampaign.campaign).length = 3 := ⟨rfl, rfl⟩
  rw [hsame, hlength₃, hlengths.1, hlengths.2] at hlength₂
  exact absurd hlength₂ (by decide)

end EnqueueHistory

end XbowPerso
