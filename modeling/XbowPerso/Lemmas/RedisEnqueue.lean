import XbowPerso.Lemmas.RedisCalls
import XbowPerso.Idempotence

/-!
# The dedupe index of the Redis queue

The hashes of the dedupe keys name exactly the jobs that have these keys (`Deduped`), in every state. So each step of a call is
one that `EnqueueStep` allows, and an `enqueue` under a dedupe key is answered from the job that the hash names.
-/

namespace XbowPerso

namespace RedisQueue

open Interleave JobStore

/-- The invariant of the keys, with the dedupe hashes. -/
structure Deduped (s : RedisQueue) : Prop extends Indexed s where
  dedupe : ∀ c k d id, s.dedupe c k d = some id ↔ ∃ j, s.jobs id = some j ∧ j.dedupe = some (c, k, d)

theorem deduped_empty : Deduped empty where
  toIndexed := indexed_empty
  dedupe := by simp [empty]

variable {s : RedisQueue}

theorem Deduped.keyed (h : Deduped s) : Keyed s.jobs where
  ids := h.ids
  wellFormed := h.wellFormed
  single := by
    rintro ⟨c, k, d⟩ i j ⟨hi, hik⟩ ⟨hj, hjk⟩
    have hi' := (h.dedupe c k d i.id).mpr ⟨i, hi, hik⟩
    have hj' := (h.dedupe c k d j.id).mpr ⟨j, hj, hjk⟩
    have hid : i.id = j.id := Option.some.inj (hi'.symm.trans hj')
    rw [hid, hj] at hi
    exact (Option.some.inj hi).symm

/-- The hash of a key names the job of the key. -/
theorem Deduped.holds (h : Deduped s) {c : Ident} {k : JobKind} {d id : Ident}
    (hd : s.dedupe c k d = some id) : ∃ j, s.jobs id = some j ∧ Holds s.jobs (c, k, d) j := by
  obtain ⟨j, hj, hkey⟩ := (h.dedupe c k d id).mp hd
  have hid : j.id = id := h.ids id j hj
  exact ⟨j, hj, hid ▸ hj, hkey⟩

/-! ## The steps that store no job -/

variable {t : RedisStep} {env : RedisReading}

/-- A step that stores no job leaves the dedupe hashes alone and adds no job. -/
theorem apply_adds_none (h : Indexed s) (hfresh : Fresh t env s) (ht : stores t = false) :
    (apply t env s).dedupe = s.dedupe ∧ ∀ id, s.jobs id = none → (apply t env s).jobs id = none := by
  cases apply_effect h t env hfresh with
  | same hjobs _ hdedupe => exact ⟨hdedupe, fun id hid => by rw [hjobs, hid]⟩
  | rewrite i j j' hj hjobs _ _ _ _ hdedupe =>
    refine ⟨hdedupe, fun id hid => ?_⟩
    have hne : id ≠ i := by
      rintro rfl
      cases hid.symm.trans hj
    rw [hjobs, Function.update_of_ne hne, hid]
  | create r i now hs =>
    rw [ht] at hs
    cases hs

variable {s' : RedisQueue}

/-- So the hashes name the same jobs as before. -/
theorem deduped_of_adds_none (h : Deduped s) (hi : Indexed s') (hc : Continues s.jobs s'.jobs)
    (hd : s'.dedupe = s.dedupe) (hn : ∀ id, s.jobs id = none → s'.jobs id = none) : Deduped s' where
  toIndexed := hi
  dedupe := by
    intro c k d id
    rw [hd, h.dedupe]
    constructor
    · rintro ⟨j, hj, hkey⟩
      obtain ⟨j', hj', he⟩ := hc id j hj
      exact ⟨j', hj', he.dedupe_eq.trans hkey⟩
    · rintro ⟨j', hj', hkey⟩
      cases hj : s.jobs id with
      | none =>
        rw [hn id hj] at hj'
        cases hj'
      | some j =>
        obtain ⟨j'', hj'', he⟩ := hc id j hj
        cases hj'.symm.trans hj''
        exact ⟨j, rfl, he.dedupe_eq.symm.trans hkey⟩

/-! ## The steps that do -/

/-- A new job, and what the hashes name then: the job of its key if it has one, and no other job than before. -/
theorem deduped_of_new (h : Deduped s) (hi : Indexed s') {r : EnqueueRequest} {uuid : Ident} {now : Int}
    (hfresh : s.jobs uuid = none) (hjobs : s'.jobs = Function.update s.jobs uuid (some (r.newJob uuid now)))
    (hd : ∀ c k d, s'.dedupe c k d = if r.dedupe = some (c, k, d) then some uuid else s.dedupe c k d)
    (hfree : ∀ c k d, r.dedupe = some (c, k, d) → s.dedupe c k d = none) : Deduped s' where
  toIndexed := hi
  dedupe := by
    intro c k d id
    have hget : s'.jobs id = if id = uuid then some (r.newJob uuid now) else s.jobs id := by
      rw [hjobs, Function.update_apply]
    rw [hd, hget]
    by_cases hid : id = uuid
    · subst hid
      rw [if_pos rfl]
      constructor
      · intro hnew
        refine ⟨_, rfl, ?_⟩
        split_ifs at hnew with hkey
        · exact hkey
        · obtain ⟨j, hj, -⟩ := (h.dedupe c k d id).mp hnew
          rw [hfresh] at hj
          cases hj
      · rintro ⟨j, hj, hkey⟩
        cases hj
        exact if_pos hkey
    · rw [if_neg hid, ← h.dedupe]
      split_ifs with hkey
      · rw [hfree c k d hkey]
        exact ⟨fun heq => absurd (Option.some.inj heq).symm hid, fun heq => by cases heq⟩
      · rfl

/-- What the transaction of `enqueue` under a dedupe key does: it finds the job of the key, or stores one. -/
theorem createDedupe_cases (r : EnqueueRequest) (key uuid : Ident) (now score : Int) (s : RedisQueue) :
    (∃ id, s.dedupe r.campaignId r.kind key = some id ∧ s.createDedupe r key uuid now score = (s, some id)) ∨
    (s.dedupe r.campaignId r.kind key = none ∧ (s.createDedupe r key uuid now score).2 = none ∧
      (s.createDedupe r key uuid now score).1.jobs = Function.update s.jobs uuid (some (r.newJob uuid now)) ∧
      ∀ c k d, (s.createDedupe r key uuid now score).1.dedupe c k d =
        if c = r.campaignId ∧ k = r.kind ∧ d = key then some uuid else s.dedupe c k d) := by
  unfold createDedupe
  cases hd : s.dedupe r.campaignId r.kind key with
  | some id => exact .inl ⟨id, rfl, rfl⟩
  | none => exact .inr ⟨rfl, rfl, create_jobs r uuid now score s, fun c k d => by simp only [create_dedupe]⟩

/-- The index value of a request under a key. -/
theorem dedupe_eq_iff {r : EnqueueRequest} {key : Ident} (hkey : r.dedupeKey = some key) (c : Ident) (k : JobKind)
    (d : Ident) : r.dedupe = some (c, k, d) ↔ c = r.campaignId ∧ k = r.kind ∧ d = key := by
  simp only [EnqueueRequest.dedupe, hkey, Option.map_some, Option.some.injEq, Prod.mk.injEq]
  exact ⟨fun ⟨a, b, c⟩ => ⟨a.symm, b.symm, c.symm⟩, fun ⟨a, b, c⟩ => ⟨a.symm, b.symm, c.symm⟩⟩

/-- Every step of a call keeps the hashes in order. -/
theorem apply_deduped (h : Deduped s) (ht : t.Keyed) (env : RedisReading)
    (hfresh : Fresh t env s) : Deduped (apply t env s) := by
  have hk := apply_keeps h.toIndexed t env hfresh
  cases hs : stores t with
  | false =>
    obtain ⟨hd, hn⟩ := apply_adds_none h.toIndexed hfresh hs
    exact deduped_of_adds_none h hk.indexed hk.transition.continues hd hn
  | true =>
    cases t with
    | create r uuid now score =>
      have hnokey : r.dedupe = none := by rw [EnqueueRequest.dedupe, show r.dedupeKey = none from ht]; rfl
      refine deduped_of_new h hk.indexed hfresh (create_jobs r uuid now score s) (fun c k d => ?_) fun c k d hkey => ?_
      · rw [hnokey, if_neg (fun h => nomatch h)]
        exact congrFun (congrFun (congrFun (create_dedupe r uuid now score s) c) k) d
      · rw [hnokey] at hkey
        cases hkey
    | createDedupe r key uuid now score =>
      have hiff := dedupe_eq_iff (show r.dedupeKey = some key from ht)
      rcases createDedupe_cases r key uuid now score s with ⟨id, -, heq⟩ | ⟨hnone, -, hjobs, hd⟩
      · simp only [apply, heq]
        exact h
      · refine deduped_of_new h hk.indexed hfresh hjobs (fun c k d => ?_) fun c k d hkey => ?_
        · simp only [apply, hd, hiff]
        · obtain ⟨rfl, rfl, rfl⟩ := (hiff c k d).mp hkey
          exact hnone
    | _ => cases hs

/-! ## The calls -/

/-- What a reply answers; a claim whose turns are used up has not answered. -/
def Reply.answer : Reply → Option (Except PyError QueueResult)
  | .returned r => some (.ok r)
  | .raised e => some (.error e)
  | .unfinished => none

/-- The clients, each with its call, and with a bound for the loop of `claim`. -/
def callers (s : RedisQueue) (turns : Nat → Nat) (calls : Nat → QueueSettings × QueueCall) :
    Pool RedisStep RedisReading RedisQueue Reply where
  shared := s
  thread k := call (calls k).1 (turns k) (calls k).2

/-- The step of a call that no dedupe key is given to. -/
theorem applies_step {asked : Option EnqueueRequest} (hasked : ∀ r key, asked = some r → r.dedupe ≠ some key)
    (hs : Deduped s) {env : RedisReading} (hfresh : Fresh t env s)
    (h : Applies t env s s') : EnqueueStep RedisQueue.jobs Deduped asked s s' := by
  obtain ⟨ht, rfl⟩ := h
  exact ⟨fun _ => apply_deduped hs ht env hfresh, (apply_keeps hs.toIndexed t env hfresh).transition.continues,
    fun r key hr hkey => absurd hkey (hasked r key hr)⟩

/-- A call without a dedupe key is free to make the steps it makes. -/
theorem call_valid {asked : Nat → Option EnqueueRequest} {o : Option EnqueueRequest}
    (hno : ∀ r key, o = some r → r.dedupe ≠ some key) (cfg : QueueSettings) (turns : Nat) (c : QueueCall) :
    Valid Fresh (EnqueueSteps RedisQueue.jobs Deduped RedisStep asked) (fun _ => EnqueueStep RedisQueue.jobs Deduped o)
      (fun _ => Deduped) (call cfg turns c) Deduped := by
  refine (call_follows cfg turns c).valid stable_inv fun t env s s' hs hfresh h => ?_
  have hstep := applies_step hno hs hfresh h
  exact ⟨hstep, hstep.inv hs⟩

section

variable {asked : Nat → Option EnqueueRequest} {r : EnqueueRequest} {key : Ident} {o : Option EnqueueRequest}

/-- A job is read back under its identifier, further in its life. -/
theorem get_valid {index : DedupeIndex} (i : Job) :
    Valid Fresh (EnqueueSteps RedisQueue.jobs Deduped RedisStep asked) (fun _ => EnqueueStep RedisQueue.jobs Deduped o)
      (fun found s => ∃ e, found = some e ∧ e.WellFormed ∧ i.Evolves e ∧ ∃ j, Holds s.jobs index j ∧ e.Evolves j)
      (get i.id) (fun s => Deduped s ∧ ∃ j, Holds s.jobs index j ∧ i.Evolves j) := by
  refine Valid.atomic (fun found => stable_exists fun e => ?_) fun env s hs _ => ⟨.refl _ s, ?_⟩
  · exact (stable_const _).and ((stable_const _).and ((stable_const _).and (stable_holds index e)))
  · obtain ⟨hinv, j, hj, he⟩ := hs
    have hid : j.id = i.id := he.keeps.1
    refine ⟨j, hid ▸ hj.1, hinv.wellFormed _ _ hj.1, he, j, hj, .refl⟩

/-- The transaction of an `enqueue` under a key stores the job of the key, or finds that the key has one. -/
theorem createDedupe_step (hkey : r.dedupeKey = some key) (env : RedisReading) (uuid : Ident) (now score : Int) {s : RedisQueue}
    (hs : Deduped s) (hfresh : s.jobs uuid = none) :
    EnqueueStep RedisQueue.jobs Deduped (some r) s (s.createDedupe r key uuid now score).1 ∧
      ∃ i : Job, (∀ id, (s.createDedupe r key uuid now score).2 = some id → i.id = id) ∧
        ((s.createDedupe r key uuid now score).2 = none → i.id = uuid ∧ i.payload = r.payload.encoded) ∧
        ∃ j, Holds (s.createDedupe r key uuid now score).1.jobs (r.campaignId, r.kind, key) j ∧ i.Evolves j := by
  have hindex : r.dedupe = some (r.campaignId, r.kind, key) := by rw [EnqueueRequest.dedupe, hkey]; rfl
  have happly : (s.createDedupe r key uuid now score).1 = apply (.createDedupe r key uuid now score) env s := rfl
  have hinv : Deduped (s.createDedupe r key uuid now score).1 := apply_deduped hs (t := .createDedupe r key uuid now score) hkey env hfresh
  have hcont := (apply_keeps hs.toIndexed (.createDedupe r key uuid now score) env hfresh).transition.continues
  rw [← happly] at hcont
  rcases createDedupe_cases r key uuid now score s with ⟨id, hid, heq⟩ | ⟨hnone, hnew, hjobs, -⟩
  · obtain ⟨j, hj, hholds⟩ := hs.holds hid
    rw [heq]
    refine ⟨.refl _ s, j, fun id' h => ?_, fun h => (by cases h), j, hholds, .refl⟩
    cases h
    exact hs.ids id j hj
  · have hjob : Holds (s.createDedupe r key uuid now score).1.jobs (r.campaignId, r.kind, key) (r.newJob uuid now) :=
      ⟨by rw [hjobs]; exact Function.update_self .., hindex⟩
    have hfree : ∀ j, ¬ Holds s.jobs (r.campaignId, r.kind, key) j := by
      intro j hj
      have hd := (hs.dedupe r.campaignId r.kind key j.id).mpr ⟨j, hj⟩
      rw [hnone] at hd
      cases hd
    refine ⟨⟨fun _ => hinv, hcont, fun r' key' hr hkey' => .inr ?_⟩, r.newJob uuid now, fun id h => ?_,
      fun _ => ⟨rfl, rfl⟩, _, hjob, .refl⟩
    · cases hr
      cases hindex.symm.trans hkey'
      exact ⟨hfree, _, hjob, rfl⟩
    · rw [hnew] at h
      cases h

/-- An `enqueue` under a key is answered from the job of the key. -/
theorem enqueueRequest_valid (hkey : r.dedupeKey = some key) :
    Valid Fresh (EnqueueSteps RedisQueue.jobs Deduped RedisStep asked)
      (fun _ => EnqueueStep RedisQueue.jobs Deduped (some r))
      (fun reply => Answered RedisQueue.jobs r (r.campaignId, r.kind, key) reply.answer) (enqueueRequest r) Deduped := by
  unfold enqueueRequest
  refine Valid.bind (Φ := fun _ => Deduped) (Valid.atomic (fun _ => stable_inv) fun _ s hs _ => ⟨.refl _ s, hs⟩) fun drawn => ?_
  obtain ⟨uuid, now, score⟩ := drawn
  simp only [hkey]
  refine Valid.bind (Φ := fun found s => ∃ i : Job, ((∀ id, found = some id → i.id = id) ∧
      (found = none → i.id = uuid ∧ i.payload = r.payload.encoded)) ∧
      (Deduped s ∧ ∃ j, Holds s.jobs (r.campaignId, r.kind, key) j ∧ i.Evolves j))
    (Valid.atomic (fun found => stable_exists fun i => (stable_const _).and (stable_inv.and (stable_holds _ i)))
      fun env s hs hfresh => ?_) fun found => Valid.exists fun i => Valid.and_left fun ⟨hfound, hnew⟩ => ?_
  · obtain ⟨hstep, i, hfound, hnew, hread⟩ := createDedupe_step hkey env uuid now score hs hfresh
    exact ⟨hstep, i, ⟨hfound, hnew⟩, hstep.inv hs, hread⟩
  cases found with
  | some id =>
    -- the job of the key is read, and its payload decides
    obtain rfl := hfound id rfl
    refine (get_valid i).bind fun found => Valid.exists fun e => Valid.and_left fun he => ?_
    subst he
    refine Valid.and_left fun hw => Valid.and_left fun _ => ?_
    dsimp only
    cases hans : r.answerExisting e with
    | error err =>
      refine Valid.done fun s ⟨j, hj, hej⟩ => ?_
      have h := answered_existing RedisQueue.jobs r hw hj hej
      rwa [hans] at h
    | ok e' =>
      refine Valid.done fun s ⟨j, hj, hej⟩ => ?_
      have h := answered_existing RedisQueue.jobs r hw hj hej
      rwa [hans] at h
  | none =>
    -- the new job is read back
    obtain ⟨rfl, hpay⟩ := hnew rfl
    refine (get_valid i).bind fun found => Valid.exists fun e => Valid.and_left fun he => ?_
    subst he
    refine Valid.and_left fun _ => Valid.and_left fun hie => Valid.done fun s ⟨j, hj, hej⟩ => ⟨j, hj, ?_⟩
    have hp : j.payload = r.payload.encoded := hej.keeps.2.2.2.1.trans (hie.keeps.2.2.2.1.trans hpay)
    rw [if_pos hp]
    exact ⟨e, rfl, hej⟩

end

/-- The pool of the clients is one of steps and results of `enqueue`. -/
theorem callers_safe (hs : Deduped s) (turns : Nat → Nat) (calls : Nat → QueueSettings × QueueCall) :
    (callers s turns calls).Safe Fresh (fun k _ => EnqueueStep RedisQueue.jobs Deduped (asks calls k))
      (fun k => EnqueueResult RedisQueue.jobs Reply.answer (calls k)) := by
  intro k
  refine ⟨Deduped, stable_inv, hs, ?_⟩
  simp only [callers, asks]
  obtain ⟨cfg, c⟩ := calls k
  cases hc : c.isEnqueue with
  | false =>
    have hno := EnqueueRequest.ofCall_eq_none cfg hc
    refine (call_valid (fun r key hr => ?_) cfg (turns k) c).mono fun a s _ => .of_other hc a s
    rw [hno] at hr
    cases hr
  | true =>
    cases c with
    | enqueue campaignId kind payload maxAttempts dedupeKey =>
      cases hv : EnqueueRequest.validate cfg campaignId kind payload maxAttempts dedupeKey with
      | error e =>
        simp only [call, checked, hv]
        exact Valid.done fun s _ => .of_invalid hv rfl
      | ok r =>
        have hasks : EnqueueRequest.ofCall cfg (.enqueue campaignId kind payload maxAttempts dedupeKey) = some r := by
          simp only [EnqueueRequest.ofCall, hv, Except.toOption]
        cases hkey : r.dedupeKey with
        | none =>
          have hno : r.dedupe = none := by rw [EnqueueRequest.dedupe, hkey]; rfl
          refine (call_valid (fun r' key hr hkey' => ?_) cfg (turns k) _).mono fun a s _ => .of_valid hv fun key hkey' => ?_
          · rw [hasks] at hr
            cases hr
            rw [hno] at hkey'
            cases hkey'
          · rw [hno] at hkey'
            cases hkey'
        | some key =>
          have hindex : r.dedupe = some (r.campaignId, r.kind, key) := by rw [EnqueueRequest.dedupe, hkey]; rfl
          simp only [call, checked, hv, hasks]
          refine (enqueueRequest_valid hkey).mono fun reply s h => .of_valid hv fun key' hkey' => ?_
          cases hindex.symm.trans hkey'
          exact h
    | _ => cases hc

end RedisQueue

end XbowPerso
