import Mathlib.Algebra.Order.BigOperators.Group.Finset
import XbowPerso.Lemmas.QueueLifecycle

/-!
# Waiting in the SQLite queue

A claim takes the oldest claimable job of its kinds, and each claim costs the job that it hands out an attempt. So the claims that
pass over a queued job are bounded by the attempts that the older jobs have left, whatever else the workers do.
-/

namespace XbowPerso

namespace JobStore

/-- The attempts that the jobs of a set have left. -/
def attemptsLeft (ids : Finset Ident) (s : JobStore) : Int := ids.sum fun id => (s id).elim 0 fun j => j.maxAttempts - j.attempts

variable {s s' : JobStore} {handed : Option Ident} {ids : Finset Ident}

theorem attemptsLeft_nonneg (hw : WellFormed s) (ids : Finset Ident) : 0 ≤ attemptsLeft ids s := by
  refine Finset.sum_nonneg fun id _ => ?_
  cases hj : s id with
  | none => exact le_refl 0
  | some j => exact sub_nonneg.mpr (hw id j hj).attempts_le

/-- A transition takes an attempt from the job that it hands out, and from no other. -/
theorem Transition.attemptsLeft_add (h : Transition s s' handed) (hids : ∀ id ∈ ids, s id ≠ none) :
    attemptsLeft ids s' + ids.sum (cost handed) = attemptsLeft ids s := by
  rw [attemptsLeft, attemptsLeft, ← Finset.sum_add_distrib]
  refine Finset.sum_congr rfl fun id hid => ?_
  obtain ⟨j, hj⟩ := Option.ne_none_iff_exists'.mp (hids id hid)
  obtain ⟨j', hj', he, ha⟩ := h.kept id j hj
  rw [hj, hj', Option.elim_some, Option.elim_some, ha, he.keeps.2.2.2.2.1]
  omega

theorem cost_nonneg (handed : Option Ident) (id : Ident) : 0 ≤ cost handed id := by
  unfold cost
  split <;> decide

end JobStore

/-- A claim that may hand out jobs of the kind. -/
def QueueCall.takes (c : QueueCall) (k : JobKind) : Bool :=
  match c with
  | .claim _ => k.usesGenericQueue
  | .claimAllowed _ kinds =>
    match requestedKinds kinds with
    | .ok ks => decide (k ∈ ks)
    | .error _ => false
  | .claimKind _ kind =>
    match requestedKind kind with
    | .ok k' => decide (k = k')
    | .error _ => false
  | _ => false

namespace SqliteQueue

open JobStore

variable {cfg : QueueSettings} {env : Reading} {q : SqliteQueue} {j : Job}

/-- A claim that hands out a job does so among the kinds that it takes. -/
theorem takes_effect {c : QueueCall} {k : JobKind} (hc : c.takes k = true) {i : Job}
    (hi : c.handed (q.call cfg env c).1 = some i) :
    ∃ worker p, p k = true ∧ ClaimEffect cfg env.now worker p q (some i) (q.call cfg env c).2 := by
  cases c with
  | claim workerId =>
    simp only [call] at hi ⊢
    cases h : claim cfg env q workerId with
    | error e => rw [h] at hi; cases hi
    | ok out =>
      obtain ⟨worker, -, heff⟩ := claim_effect h
      rw [h] at hi
      exact ⟨worker, _, hc, (show out.1 = some i from hi) ▸ heff⟩
  | claimAllowed workerId kinds =>
    simp only [call] at hi ⊢
    cases h : claimAllowed cfg env q workerId kinds with
    | error e => rw [h] at hi; cases hi
    | ok out =>
      obtain ⟨worker, ks, -, hks, heff⟩ := claimAllowed_effect h
      rw [h] at hi
      simp only [QueueCall.takes, hks] at hc
      exact ⟨worker, _, hc, (show out.1 = some i from hi) ▸ heff⟩
  | claimKind workerId kind =>
    simp only [call] at hi ⊢
    cases h : claimKind cfg env q workerId kind with
    | error e => rw [h] at hi; cases hi
    | ok out =>
      obtain ⟨worker, k', -, hk', heff⟩ := claimKind_effect h
      rw [h] at hi
      simp only [QueueCall.takes, hk'] at hc
      exact ⟨worker, _, hc, (show out.1 = some i from hi) ▸ heff⟩
  | _ => cases hc

/-- A claim that passes over a queued job of its kinds hands out an unfinished job that is not younger. -/
theorem older_of_passed (hw : WellFormed q.store) (hj : j ∈ q.rows) (hs : j.status = .queued) {c : QueueCall}
    (hc : c.takes j.kind = true) {i : Job} (hi : c.handed (q.call cfg env c).1 = some i) (hj' : j ∈ (q.call cfg env c).2.rows) :
    ∃ r ∈ q.rows, r.id = i.id ∧ r.status.terminal = false ∧ r.createdAt ≤ j.createdAt ∧ r.id ≠ j.id := by
  obtain ⟨worker, p, hp, heff⟩ := takes_effect hc hi
  generalize (q.call cfg env c).2 = q' at heff hj'
  cases heff with
  | handed row _ hr hclaimable hmin hq =>
    obtain ⟨r, hr₀, hrow⟩ := Option.map_eq_some_iff.mp ((recoverExpired_find? cfg env.now q row.id).symm.trans hr)
    obtain ⟨hmem, hid⟩ := (q.find?_eq_some _ _).mp hr₀
    -- the recovery leaves the queued job alone, so the claim had the choice
    have hsame : recoverRow cfg env.now j = j := if_neg fun h => by
      rw [Expired, hs] at h
      cases h.1
    have hrecovered : j ∈ (recoverExpired cfg env.now q).2.rows := by
      have hmap : recoverRow cfg env.now j ∈ q.rows.map (recoverRow cfg env.now) := List.mem_map_of_mem hj
      rw [hsame] at hmap
      exact hmap
    have hle := hmin j hrecovered (claimable_iff.mpr ⟨hs, hp, (hw j.id j (find?_of_mem hj)).queued hs⟩)
    have hqueued := (claimable_iff.mp hclaimable).1
    refine ⟨r, hmem, hid, ?_, ?_, fun heq => ?_⟩
    · rw [← hrow, recoverRow] at hqueued
      split at hqueued
      · rename_i hexpired
        rw [hexpired.1]
        rfl
      · rw [hqueued]
        rfl
    · rw [← hrow, recoverRow] at hle
      split at hle
      · exact hle
      · exact hle
    · have hfind := hq j.id
      rw [if_pos (heq.symm.trans hid), find?_of_mem hj'] at hfind
      rw [Option.some.inj hfind] at hs
      cases hs

/-! ## Runs -/

/-- A job waits over a run: its row is there before and after each call as it is, and the jobs that come in are younger. -/
def Waits (j : Job) : SqliteQueue → List Event → Prop
  | q, [] => j ∈ q.rows
  | q, e :: events => j ∈ q.rows ∧ (e.call.isEnqueue = true → j.createdAt < e.env.now) ∧
      Waits j (q.call e.settings e.env e.call).2 events

/-- The claims of a run that take jobs of the kind and hand one out. -/
def claims (k : JobKind) : SqliteQueue → List Event → Nat
  | _, [] => 0
  | q, e :: events =>
    (if e.call.takes k = true ∧ (e.call.handed (q.call e.settings e.env e.call).1).isSome = true then 1 else 0) +
      claims k (q.call e.settings e.env e.call).2 events

/-- The other jobs that have not ended and are not younger. -/
def older (q : SqliteQueue) (j : Job) : Finset Ident :=
  ((q.rows.filter fun i => decide (i.status.terminal = false ∧ i.createdAt ≤ j.createdAt ∧ i.id ≠ j.id)).map Job.id).toFinset

theorem Waits.mem {events : List Event} (h : Waits j q events) : j ∈ q.rows := by
  cases events with
  | nil => exact h
  | cons e events => exact h.1

theorem mem_older {id : Ident} : id ∈ older q j ↔
    ∃ i ∈ q.rows, (i.status.terminal = false ∧ i.createdAt ≤ j.createdAt ∧ i.id ≠ j.id) ∧ i.id = id := by
  simp only [older, List.mem_toFinset, List.mem_map, List.mem_filter, decide_eq_true_eq, and_assoc]

/-- No call makes a job older. -/
theorem older_call {e : Event} (hnew : e.call.isEnqueue = true → j.createdAt < e.env.now) :
    older (q.call e.settings e.env e.call).2 j ⊆ older q j := by
  intro id hid
  obtain ⟨i', hi', ⟨hterminal, hle, hne⟩, rfl⟩ := mem_older.mp hid
  have hfind := find?_of_mem hi'
  cases hi : q.find? i'.id with
  | none =>
    obtain ⟨hc, hnow⟩ := call_added hi hfind
    have hlt := hnew hc
    omega
  | some i =>
    obtain ⟨i'', hi'', he, -⟩ := (call_transition e.settings e.env q e.call).kept i'.id i hi
    cases hfind.symm.trans hi''
    have hid := ((q.find?_eq_some _ _).mp hi).2
    refine mem_older.mpr ⟨i, ((q.find?_eq_some _ _).mp hi).1, ⟨?_, he.keeps.2.2.2.2.2.1 ▸ hle, hid ▸ hne⟩, hid⟩
    by_contra hended
    rw [he.eq_of_terminal (by simpa using hended)] at hterminal
    exact hended hterminal

/-- The claims of a run that pass over a waiting job are paid for by the jobs of a set that has all the older ones. -/
theorem claims_le {ids : Finset Ident} (hs : j.status = .queued) {events : List Event} (hw : WellFormed q.store)
    (hids : ∀ id ∈ ids, q.store id ≠ none) (hold : older q j ⊆ ids) (h : Waits j q events) :
    (claims j.kind q events : Int) ≤ attemptsLeft ids q.store := by
  induction events generalizing q with
  | nil => exact attemptsLeft_nonneg hw ids
  | cons e events ih =>
    obtain ⟨hj, hnew, hrest⟩ := h
    have ht := call_transition e.settings e.env q e.call
    have hids' : ∀ id ∈ ids, (q.call e.settings e.env e.call).2.store id ≠ none := by
      intro id hid
      obtain ⟨i, hi⟩ := Option.ne_none_iff_exists'.mp (hids id hid)
      obtain ⟨i', hi', -⟩ := ht.kept id i hi
      rw [hi']
      exact nofun
    have hle := ih (ht.wellFormed hw) hids' ((older_call hnew).trans hold) hrest
    have hleft := ht.attemptsLeft_add hids
    rw [claims, Nat.cast_add, ← hleft, add_comm]
    refine add_le_add hle ?_
    split
    · rename_i hclaim
      obtain ⟨i, hi⟩ := Option.isSome_iff_exists.mp hclaim.2
      obtain ⟨r, hr, hid, hunfinished, hage, hne⟩ := older_of_passed hw hj hs hclaim.1 hi hrest.mem
      have hmem : i.id ∈ ids := hold (mem_older.mpr ⟨r, hr, ⟨hunfinished, hage, hne⟩, hid⟩)
      have hone := Finset.single_le_sum (f := cost (some i.id)) (fun id _ => cost_nonneg (some i.id) id) hmem
      rw [hi]
      rwa [cost_self] at hone
    · exact Finset.sum_nonneg fun id _ => cost_nonneg _ id

/-- Over any run from any well-formed table, the claims that could have handed out a queued job and handed out another one are at
most the attempts that the older unfinished jobs had left when it began. -/
theorem waiting_bounded (q : SqliteQueue) (hw : WellFormed q.store) (j : Job) (hs : j.status = .queued) (events : List Event)
    (h : Waits j q events) : (claims j.kind q events : Int) ≤ attemptsLeft (older q j) q.store := by
  refine claims_le hs hw (fun id hid => ?_) (fun _ h => h) h
  obtain ⟨i, hi, -, rfl⟩ := mem_older.mp hid
  rw [show q.store i.id = some i from find?_of_mem hi]
  exact nofun

/-- Two jobs are queued, one after the other. -/
def sampleQueue : SqliteQueue := run Table.empty
  [⟨.default, ⟨1000, sampleId⟩, .enqueue "campaign-1" "report" .empty 2 none⟩,
    ⟨.default, ⟨2000, sampleCampaign⟩, .enqueue "campaign-1" "report" .empty 2 none⟩]

/-- The younger one. -/
def sampleWaiting : Job :=
  { sampleJob with
    id := sampleCampaign, status := .queued, attempts := 0, createdAt := 2000, claimedBy := none, claimedAt := none }

/-- A claim hands out the older one, which had two attempts left. -/
theorem waiting_bounded_sample :
    claims .report sampleQueue [⟨.default, ⟨3000, sampleId⟩, .claim "worker-1"⟩] = 1 ∧
      (claims .report sampleQueue [⟨.default, ⟨3000, sampleId⟩, .claim "worker-1"⟩] : Int) ≤
        attemptsLeft (older sampleQueue sampleWaiting) sampleQueue.store := by
  refine ⟨by decide +kernel, waiting_bounded sampleQueue ((run_from_empty _).wellFormed fun _ _ h => by cases h) sampleWaiting rfl _ ?_⟩
  exact ⟨by decide +kernel, nofun,
    show sampleWaiting ∈ (sampleQueue.call .default ⟨3000, sampleId⟩ (.claim "worker-1")).2.rows by decide +kernel⟩

end SqliteQueue

end XbowPerso
