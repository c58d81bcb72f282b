import XbowPerso.QueueRecovery
import XbowPerso.Lemmas.RedisEnqueue
import XbowPerso.Theorems.RedisIndex
import XbowPerso.Theorems.ReviewEvidence

/-!
# The claim times of the jobs, and what the assessment finds

In the states that runs reach, no claim is later than the clock, and the set of all jobs of the Redis queue lists the jobs. Over the
rows of such jobs the assessment finds the expired leases and nothing else.
-/

namespace XbowPerso

namespace QueueRecovery

/-! ## Claim times -/

/-- A job that was not claimed after `bound`, and that may be attempted. -/
structure InBounds (bound : Int) (j : Job) : Prop where
  claimed : ∀ t, j.claimedAt = some t → t ≤ bound
  retries : 1 ≤ j.maxAttempts

/-- Every job is in bounds. -/
def ClaimedUntil (bound : Int) (s : JobStore) : Prop := ∀ id j, s id = some j → InBounds bound j

/-- No claim, or one of the time `now`. -/
def StampedAt (now : Int) (j : Job) : Prop := j.claimedAt = none ∨ j.claimedAt = some now

/-- Each job keeps the record it had, or was stamped at `now` with the bound of its attempts as it was, or is new. -/
def Stamps (now : Int) (s s' : JobStore) : Prop :=
  ∀ id j, s' id = some j → s id = some j ∨
    (StampedAt now j ∧ ((∃ i, s id = some i ∧ i.maxAttempts = j.maxAttempts) ∨ 1 ≤ j.maxAttempts))

variable {now bound : Int} {s s' s'' : JobStore}

theorem Stamps.refl (now : Int) (s : JobStore) : Stamps now s s := fun _ _ h => .inl h

theorem Stamps.trans (h : Stamps now s s') (h' : Stamps now s' s'') : Stamps now s s'' := by
  intro id j hj
  rcases h' id j hj with hj | ⟨hclaim, ⟨i, hi, hmax⟩ | hnew⟩
  · exact h id j hj
  · right
    rcases h id i hi with hi | ⟨-, ⟨k, hk, hkmax⟩ | hnew⟩
    · exact ⟨hclaim, .inl ⟨i, hi, hmax⟩⟩
    · exact ⟨hclaim, .inl ⟨k, hk, hkmax.trans hmax⟩⟩
    · exact ⟨hclaim, .inr (hmax ▸ hnew)⟩
  · exact .inr ⟨hclaim, .inr hnew⟩

theorem Stamps.of_map {f : Job → Job} (hs : ∀ id, s' id = (s id).map f)
    (hf : ∀ j, f j = j ∨ (StampedAt now (f j) ∧ (f j).maxAttempts = j.maxAttempts)) : Stamps now s s' := by
  intro id j hj
  rw [hs, Option.map_eq_some_iff] at hj
  obtain ⟨i, hi, rfl⟩ := hj
  rcases hf i with hsame | ⟨hclaim, hmax⟩
  · rw [hsame]
    exact .inl hi
  · exact .inr ⟨hclaim, .inl ⟨i, hi, hmax.symm⟩⟩

theorem Stamps.of_update {id : Ident} {j : Job} (hs : ∀ k, s' k = if k = id then some j else s k) (hj : StampedAt now j)
    (hmax : (∃ i, s id = some i ∧ i.maxAttempts = j.maxAttempts) ∨ 1 ≤ j.maxAttempts) : Stamps now s s' := by
  intro k i hi
  rw [hs] at hi
  split at hi
  · rename_i hk
    cases hi
    rw [hk]
    exact .inr ⟨hj, hmax⟩
  · exact .inl hi

theorem ClaimedUntil.stamps (h : ClaimedUntil bound s) (hs : Stamps now s s') (hnow : now ≤ bound) : ClaimedUntil bound s' := by
  intro id j hj
  rcases hs id j hj with hold | ⟨hclaim, hmax⟩
  · exact h id j hold
  · constructor
    · intro t ht
      rcases hclaim with hnone | hsome
      · rw [hnone] at ht
        cases ht
      · rw [hsome] at ht
        cases ht
        exact hnow
    · rcases hmax with ⟨i, hi, hmax⟩ | hnew
      · rw [← hmax]
        exact (h id i hi).retries
      · exact hnew

end QueueRecovery

/-! ## The SQLite queue -/

namespace SqliteQueue

open QueueRecovery

variable {cfg : QueueSettings} {env : Reading} {q q' : SqliteQueue}

theorem recoverExpired_stamps (cfg : QueueSettings) (now : Int) (q : SqliteQueue) :
    Stamps now q.store (recoverExpired cfg now q).2.store := by
  refine .of_map (fun id => recoverExpired_find? cfg now q id) fun j => ?_
  unfold recoverRow
  split
  · exact .inr ⟨.inl rfl, rfl⟩
  · exact .inl rfl

theorem ClaimEffect.stamps {now : Int} {worker : Ident} {p : JobKind → Bool} {res : Option Job}
    (h : ClaimEffect cfg now worker p q res q') : Stamps now q.store q'.store := by
  cases h with
  | idle hn => exact recoverExpired_stamps cfg now q
  | handed row _ hr hc hmin hq => exact (recoverExpired_stamps cfg now q).trans (.of_update hq (.inr rfl) (.inl ⟨row, hr, rfl⟩))

theorem OwnEffect.stamps {now : Int} {id worker : Ident} {f : Job → Job} {res : Option Job}
    (h : OwnEffect id worker f q res q') (hf : ∀ j, StampedAt now (f j) ∧ (f j).maxAttempts = j.maxAttempts) :
    Stamps now q.store q'.store := by
  cases h with
  | refused hn => exact .refl now _
  | done j _ hj ho hq => exact .of_update hq (hf j).1 (.inl ⟨j, hj, (hf j).2.symm⟩)

theorem EnqueueEffect.stamps {r : EnqueueRequest} {res : Except PyError Job} (h : EnqueueEffect r env q res q') :
    Stamps env.now q.store q'.store := by
  cases h with
  | existing e he => exact .refl _ _
  | created _ hn hd hq => exact .of_update (q.find?_insert hq) (.inl rfl) (.inr r.attempts_ge)
  | taken j hj hd => exact .refl _ _

/-- Every claim that a call leaves is one from before or of the time of the call. -/
theorem call_stamps (cfg : QueueSettings) (env : Reading) (q : SqliteQueue) (c : QueueCall) :
    Stamps env.now q.store (q.call cfg env c).2.store := by
  have heffect := call_effect cfg env q c
  generalize c.handed (q.call cfg env c).1 = handed, (q.call cfg env c).2 = q' at heffect ⊢
  cases heffect with
  | refused => exact .refl _ _
  | enqueued hc heff => exact heff.stamps
  | claimed heff => exact heff.stamps
  | owned heff hf _ _ =>
    refine heff.stamps fun _ => ?_
    cases hf with
    | renewed => exact ⟨.inr rfl, rfl⟩
    | finished success error => exact ⟨.inl rfl, rfl⟩
    | cancelled error => exact ⟨.inl rfl, rfl⟩
  | swept hc hmap =>
    refine .of_map hmap fun j => ?_
    split
    · exact .inr ⟨.inl rfl, rfl⟩
    · exact .inl rfl
  | recovered => exact recoverExpired_stamps cfg env.now q

/-- In every state of a run, no job was claimed after the latest clock reading. -/
theorem run_claimedUntil {bound : Int} (events : List Event) (h : ∀ e ∈ events, e.env.now ≤ bound) {q : SqliteQueue}
    (hq : ClaimedUntil bound q.store) : ClaimedUntil bound (run q events).store := by
  induction events generalizing q with
  | nil => exact hq
  | cons e events ih =>
    rw [run_cons]
    have hnow := h e List.mem_cons_self
    exact ih (fun e' he' => h e' (List.mem_cons_of_mem e he')) (hq.stamps (call_stamps e.settings e.env q e.call) hnow)

end SqliteQueue

/-! ## The Redis queue -/

namespace RedisQueue

open Interleave QueueRecovery

theorem StepEffect.stamps {t : RedisStep} {env : RedisReading} {s s' : RedisQueue} (h : StepEffect t env s s') :
    Stamps env.now s.jobs s'.jobs := by
  cases h with
  | same hjobs =>
    rw [hjobs]
    exact .refl env.now _
  | rewrite id j j' hj hjobs hclaim hmax =>
    rw [hjobs]
    exact .of_update (fun k => Function.update_apply ..) hclaim (.inl ⟨j, hj, hmax.symm⟩)
  | create r id now ht hn hjobs =>
    rw [hjobs]
    exact .of_update (fun k => Function.update_apply ..) (.inl rfl) (.inr r.attempts_ge)

/-- The set of all jobs lists each job once, and nothing else. -/
structure Listed (s : RedisQueue) : Prop where
  nodup : s.all.Nodup
  mem : ∀ id, id ∈ s.all ↔ (s.jobs id).isSome = true

theorem StepEffect.listed {t : RedisStep} {env : RedisReading} {s s' : RedisQueue} (h : StepEffect t env s s') (hl : Listed s) :
    Listed s' := by
  cases h with
  | same hjobs hall =>
    constructor
    · rw [hall]
      exact hl.nodup
    · rw [hall, hjobs]
      exact hl.mem
  | rewrite id j j' hj hjobs _ _ _ hall =>
    refine ⟨hall ▸ hl.nodup, fun k => ?_⟩
    rw [hall, hl.mem, hjobs, Function.update_apply]
    split
    · rename_i hk
      rw [hk, hj]
      rfl
    · rfl
  | create r id now ht hn hjobs hall =>
    have hnew : id ∉ s.all := by
      rw [hl.mem, hn]
      exact Bool.false_ne_true
    rw [sadd, if_neg hnew] at hall
    refine ⟨?_, fun k => ?_⟩
    · rw [hall, ← List.concat_eq_append]
      exact hl.nodup.concat hnew
    · rw [hall, List.mem_append, List.mem_singleton, hl.mem, hjobs, Function.update_apply]
      split
      · rename_i hk
        exact ⟨fun _ => rfl, fun _ => .inr hk⟩
      · rename_i hk
        exact or_iff_left hk

/-- What holds in every state that the clients reach with clocks that show `bound` at most. -/
structure Assessable (bound : Int) (s : RedisQueue) : Prop where
  indexed : Indexed s
  listed : Listed s
  claimed : ClaimedUntil bound s.jobs

/-- A step that reads the clock not after `bound`. -/
def FreshUntil (bound : Int) (t : RedisStep) (env : RedisReading) (s : RedisQueue) : Prop := Fresh t env s ∧ env.now ≤ bound

instance (bound : Int) (t : RedisStep) (env : RedisReading) (s : RedisQueue) : Decidable (FreshUntil bound t env s) :=
  inferInstanceAs (Decidable (_ ∧ _))

theorem assessable_empty (bound : Int) : Assessable bound empty where
  indexed := indexed_empty
  listed := ⟨List.nodup_nil, fun id => ⟨fun h => absurd h List.not_mem_nil, fun h => (by cases h)⟩⟩
  claimed := fun _ _ h => (by cases h)

theorem run_assessable {bound : Int} {clients : Clients} {ls : List (Nat × RedisReading)}
    (h : (start clients).MeetsAll (FreshUntil bound) ls) : Assessable bound ((start clients).run ls).shared := by
  refine (Pool.run_keeps_of_follows ?_ (fun k => session_follows (clients k)) (assessable_empty bound) h).1
  rintro t env s s' hs ⟨hfresh, hnow⟩ ⟨-, rfl⟩
  have heff := apply_effect hs.indexed t env hfresh
  exact ⟨(apply_keeps hs.indexed t env hfresh).indexed, heff.listed hs.listed, hs.claimed.stamps heff.stamps hnow⟩

end RedisQueue

end XbowPerso
