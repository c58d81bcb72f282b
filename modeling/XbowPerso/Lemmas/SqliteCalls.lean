import XbowPerso.Lemmas.SqliteQueue
import XbowPerso.Idempotence

/-!
# What the interleaved calls of the SQLite queue do

A call whose steps nobody interrupts does what the call does in one go. Among others, each step of a call is one that `EnqueueStep`
allows, and an `enqueue` under a dedupe key is answered from the row of the key.
-/

namespace XbowPerso

namespace SqliteQueue

open Interleave JobStore

/-- The invariant: all jobs are well formed. The rest is in the constraints of the table. -/
def Inv (q : SqliteQueue) : Prop := q.store.WellFormed

theorem keyed (q : SqliteQueue) (h : Inv q) : q.store.Keyed where
  ids := fun _ _ hj => id_of_find? hj
  wellFormed := h
  single := fun _ _ _ hi hj =>
    q.eq_of_index_eq ((q.find?_eq_some _ _).mp hi.1).1 ((q.find?_eq_some _ _).mp hj.1).1 hi.2 hj.2

theorem inv_empty : Inv Table.empty := fun _ _ h => by cases h

/-- The row of a request is the job of its key. -/
theorem selectDedupe_eq {r : EnqueueRequest} {key : DedupeIndex} (hkey : r.dedupe = some key) (q : SqliteQueue) (j : Job) :
    q.selectDedupe r = some j ↔ q.store.Holds key j := by
  simp only [selectDedupe, hkey, Option.bind_some, Table.lookup?_eq_some]
  constructor
  · rintro ⟨hm, hd⟩
    exact ⟨find?_of_mem hm, hd⟩
  · rintro ⟨hf, hd⟩
    exact ⟨((q.find?_eq_some _ _).mp hf).1, hd⟩

/-- What an insert does: it adds the row, or its identifier or its dedupe key is taken. -/
theorem insert_cases (q : SqliteQueue) (r : EnqueueRequest) (uuid : Ident) (now : Int) :
    (∃ q', q.insert (r.newJob uuid now) = some q' ∧ q.find? uuid = none ∧ (∀ u, r.dedupe = some u → q.lookup? u = none) ∧
      ∀ k, q'.find? k = if k = uuid then some (r.newJob uuid now) else q.find? k) ∨
    (q.insert (r.newJob uuid now) = none ∧
      (q.find? uuid ≠ none ∨ ∃ u, r.dedupe = some u ∧ q.lookup? u ≠ none)) := by
  cases hins : q.insert (r.newJob uuid now) with
  | some q' =>
    obtain ⟨-, hid, hkey⟩ := q.insert_eq_some hins
    exact .inl ⟨q', rfl, hid, hkey, q.find?_insert hins⟩
  | none =>
    refine .inr ⟨rfl, ?_⟩
    by_contra hn
    push Not at hn
    obtain ⟨q', hq'⟩ := q.insert_of_fresh (r := r.newJob uuid now) hn.1 hn.2
    rw [hins] at hq'
    cases hq'

/-- The job that a step hands out. -/
def handed : SqliteStep → Reading → SqliteQueue → Option Ident
  | .transaction cfg c, env, q => (c.handed (q.call cfg env c).1).map Job.id
  | _, _, _ => none

/-- Every step moves the jobs along their lives. -/
theorem apply_transition (t : SqliteStep) (env : Reading) (q : SqliteQueue) :
    Transition q.store (apply t env q).store (handed t env q) := by
  cases t with
  | insert r uuid now =>
    rcases insert_cases q r uuid now with ⟨q', heq, hid, -, hq'⟩ | ⟨heq, -⟩
    · simp only [apply, heq, Option.getD_some]
      exact .of_new hid (r.newJob_wellFormed _ _) rfl hq'
    · simp only [apply, heq, Option.getD_none]
      exact .refl _
  | transaction cfg c => exact call_transition cfg env q c
  | select r => exact .refl _
  | draw => exact .refl _
  | get id => exact .refl _

/-- The step of a call that no dedupe key is given to. -/
theorem apply_step {asked : Option EnqueueRequest} (hasked : ∀ r key, asked = some r → r.dedupe ≠ some key) (t : SqliteStep)
    (env : Reading) (q : SqliteQueue) : EnqueueStep store Inv asked q (apply t env q) := by
  have h := apply_transition t env q
  exact ⟨fun hq => h.wellFormed hq, h.continues, fun r key hr hkey => absurd hkey (hasked r key hr)⟩

theorem insertSteps_follows (r : EnqueueRequest) : (insertSteps r).Follows (fun t env q q' => q' = apply t env q) := by
  refine Prog.Follows.bind (.atomic fun _ _ => rfl) fun drawn => ?_
  obtain ⟨uuid, now⟩ := drawn
  refine Prog.Follows.bind (.atomic fun _ _ => rfl) fun b => ?_
  cases b with
  | true => exact .atomic fun _ _ => rfl
  | false =>
    dsimp only
    split
    · exact .done _
    · exact .atomic fun _ _ => rfl

theorem enqueueSteps_follows (r : EnqueueRequest) : (enqueueSteps r).Follows (fun t env q q' => q' = apply t env q) := by
  unfold enqueueSteps
  split
  · exact insertSteps_follows r
  · refine Prog.Follows.bind (.atomic fun _ _ => rfl) fun found => ?_
    cases found with
    | some e => exact .done _
    | none => exact insertSteps_follows r

theorem callSteps_follows (cfg : QueueSettings) (c : QueueCall) :
    (callSteps cfg c).Follows (fun t env q q' => q' = apply t env q) := by
  cases c with
  | enqueue campaignId kind payload maxAttempts dedupeKey =>
    simp only [callSteps]
    split
    · exact .done _
    · exact (enqueueSteps_follows _).bind fun _ => .done _
  | _ => exact .atomic fun _ _ => rfl

/-! ## An enqueue under a dedupe key -/

section

variable {asked : Nat → Option EnqueueRequest} {r : EnqueueRequest} {key : DedupeIndex}

/-- A job whose row was read under the key. -/
theorem stable_read (key : DedupeIndex) (e : Option Job) : Stable (EnqueueSteps store Inv SqliteStep asked)
    (fun q => Inv q ∧ ∀ i, e = some i → i.WellFormed ∧ ∃ j, q.store.Holds key j ∧ i.Evolves j) := by
  refine stable_inv.and fun q q' h hq i hi => ?_
  obtain ⟨hw, hj⟩ := hq i hi
  exact ⟨hw, stable_holds key i q q' h hj⟩

/-- The rest of an `enqueue` whose insert was refused. -/
theorem afterConflict_answered (hkey : r.dedupe = some key) {q : SqliteQueue} (hinv : Inv q) {j : Job}
    (hj : q.store.Holds key j) :
    Answered store r key (some ((q.afterConflict r).map fun j => .job (some j))) q := by
  have hsel : q.selectDedupe r = some j := (selectDedupe_eq hkey q j).mpr hj
  simp only [afterConflict, hsel]
  exact answered_existing store r (hinv j.id j hj.1) hj .refl

/-- The insert of an `enqueue` under a key stores the job of the key, or finds that the key has one. -/
theorem insertSteps_valid (hkey : r.dedupe = some key) :
    Valid Fresh (EnqueueSteps store Inv SqliteStep asked) (fun _ => EnqueueStep store Inv (some r))
      (fun res => Answered store r key (some (res.map fun j => .job (some j)))) (insertSteps r) Inv := by
  have hd : ∃ d, r.dedupeKey = some d := by
    cases h : r.dedupeKey with
    | none => simp [EnqueueRequest.dedupe, h] at hkey
    | some d => exact ⟨d, rfl⟩
  obtain ⟨d, hd⟩ := hd
  refine Valid.bind (Φ := fun _ => Inv) (Valid.atomic (fun _ => stable_inv) fun _ q hq _ => ⟨.refl _ q, hq⟩) fun drawn => ?_
  obtain ⟨uuid, now⟩ := drawn
  refine Valid.bind (Φ := fun b q => Inv q ∧ ∃ i : Job,
      (b = true → i.id = uuid ∧ i.payload = r.payload.encoded) ∧ ∃ j, q.store.Holds key j ∧ i.Evolves j)
    (Valid.atomic (fun b => stable_inv.and (stable_exists fun i => (stable_const _).and (stable_holds key i)))
      fun env q hq hfresh => ?_) fun b => ?_
  · rcases insert_cases q r uuid now with ⟨q', heq, hid, hfree, hq'⟩ | ⟨heq, htaken⟩
    · have hnew : (store q').Holds key (r.newJob uuid now) := ⟨(hq' uuid).trans (if_pos rfl), hkey⟩
      have htr : Transition q.store (store q') none := .of_new hid (r.newJob_wellFormed _ _) rfl hq'
      have hnone : ∀ j, ¬ q.store.Holds key j := by
        intro j hj
        have hsel := (selectDedupe_eq hkey q j).mpr hj
        simp only [selectDedupe, hkey, Option.bind_some, hfree key hkey] at hsel
        cases hsel
      simp only [heq, Option.getD_some, Option.isSome_some]
      refine ⟨⟨fun h => htr.wellFormed h, htr.continues, fun r' key' hr hkey' => .inr ?_⟩, htr.wellFormed hq, _,
        fun _ => ⟨rfl, rfl⟩, _, hnew, .refl⟩
      cases hr
      cases hkey.symm.trans hkey'
      exact ⟨hnone, _, hnew, rfl⟩
    · have hexists : ∃ j, q.store.Holds key j := by
        rcases htaken with h | ⟨u, hu, h⟩
        · exact absurd hfresh h
        · cases hkey.symm.trans hu
          obtain ⟨j, hj⟩ := Option.ne_none_iff_exists'.mp h
          exact ⟨j, (selectDedupe_eq hkey q j).mp (by simp only [selectDedupe, hkey, Option.bind_some, hj])⟩
      obtain ⟨j, hj⟩ := hexists
      simp only [heq, Option.getD_none, Option.isSome_none]
      exact ⟨.refl _ q, hq, j, fun h => absurd h Bool.false_ne_true, j, hj, .refl⟩
  · cases b with
    | true =>
      refine Valid.atomic (fun _ => stable_answered r key _) fun env q hq _ => ⟨.refl _ q, ?_⟩
      obtain ⟨hinv, i, hi, j, hj, he⟩ := hq
      obtain ⟨hid, hpay⟩ := hi rfl
      have hget : q.get uuid = some j := by
        have hjid : j.id = uuid := he.keeps.1.trans hid
        rw [← hjid]
        exact hj.1
      simp only [hget]
      exact ⟨j, hj, by rw [if_pos (he.keeps.2.2.2.1.trans hpay)]; exact ⟨j, rfl, .refl⟩⟩
    | false =>
      simp only [hd]
      refine Valid.atomic (fun _ => stable_answered r key _) fun env q hq _ => ⟨.refl _ q, ?_⟩
      obtain ⟨hinv, i, -, j, hj, -⟩ := hq
      exact afterConflict_answered hkey hinv hj

/-- An `enqueue` under a key is answered from the job of the key. -/
theorem enqueueSteps_valid (hkey : r.dedupe = some key) :
    Valid Fresh (EnqueueSteps store Inv SqliteStep asked) (fun _ => EnqueueStep store Inv (some r))
      (fun res => Answered store r key (some (res.map fun j => .job (some j)))) (enqueueSteps r) Inv := by
  unfold enqueueSteps
  split
  · exact insertSteps_valid hkey
  refine Valid.bind (Valid.atomic (stable_read key) fun env q hq _ => ⟨.refl _ q, hq, fun i hi => ?_⟩) fun found => ?_
  · have hj := (selectDedupe_eq hkey q i).mp hi
    exact ⟨hq i.id i hj.1, i, hj, .refl⟩
  · cases found with
    | none => exact (insertSteps_valid hkey).weaken fun _ h => h.1
    | some e =>
      refine Valid.done fun q hq => ?_
      obtain ⟨hw, j, hj, he⟩ := hq.2 e rfl
      exact answered_existing store r hw hj he

end

/-- A call without a dedupe key is free to make the steps it makes. -/
theorem callSteps_valid {asked : Nat → Option EnqueueRequest} {o : Option EnqueueRequest}
    (hno : ∀ r key, o = some r → r.dedupe ≠ some key) (cfg : QueueSettings) (c : QueueCall) :
    Valid Fresh (EnqueueSteps store Inv SqliteStep asked) (fun _ => EnqueueStep store Inv o) (fun _ => Inv)
      (callSteps cfg c) Inv := by
  refine (callSteps_follows cfg c).valid stable_inv ?_
  rintro t env q q' hq - rfl
  exact ⟨apply_step hno t env q, (apply_step hno t env q).inv hq⟩

/-- The pool of the clients is one of steps and results of `enqueue`. -/
theorem clients_safe {q : SqliteQueue} (hq : Inv q) (calls : Nat → QueueSettings × QueueCall) :
    (clients q calls).Safe Fresh (fun k _ => EnqueueStep store Inv (asks calls k))
      (fun k => EnqueueResult store some (calls k)) := by
  intro k
  refine ⟨Inv, stable_inv, hq, ?_⟩
  simp only [clients, asks]
  obtain ⟨cfg, c⟩ := calls k
  cases hc : c.isEnqueue with
  | false =>
    have hno := EnqueueRequest.ofCall_eq_none cfg hc
    refine (callSteps_valid (fun r key hr => ?_) cfg c).mono fun a s _ => .of_other hc a s
    rw [hno] at hr
    cases hr
  | true =>
    cases c with
    | enqueue campaignId kind payload maxAttempts dedupeKey =>
      cases hv : EnqueueRequest.validate cfg campaignId kind payload maxAttempts dedupeKey with
      | error e =>
        simp only [callSteps, hv]
        exact Valid.done fun s _ => .of_invalid hv rfl
      | ok r =>
        have hasks : EnqueueRequest.ofCall cfg (.enqueue campaignId kind payload maxAttempts dedupeKey) = some r := by
          simp only [EnqueueRequest.ofCall, hv, Except.toOption]
        cases hkey : r.dedupe with
        | none =>
          refine (callSteps_valid (fun r' key hr hkey' => ?_) cfg _).mono fun a s _ => .of_valid hv fun key hkey' => ?_
          · rw [hasks] at hr
            cases hr
            rw [hkey] at hkey'
            cases hkey'
          · rw [hkey] at hkey'
            cases hkey'
        | some key =>
          simp only [callSteps, hv, hasks]
          refine (enqueueSteps_valid hkey).bind fun res => Valid.done fun q hq => .of_valid hv fun key' hkey' => ?_
          cases hkey.symm.trans hkey'
          exact hq
    | _ => cases hc

/-- Calls on a new table, their statements in any order, live the life of all jobs from none. -/
theorem calls_lifecycle (calls : Nat → QueueSettings × QueueCall) (ls : List (Nat × Reading)) :
    Lifecycle store (fun m => handed m.tag m.input m.before) (clients Table.empty calls) ls := by
  refine lifecycle_of_transitions rfl fun m hm => ?_
  have hmoves := Pool.run_keeps_of_follows (I := fun _ : SqliteQueue => True) (fun _ _ _ _ _ _ _ => trivial)
    (fun k => callSteps_follows (calls k).1 (calls k).2) trivial (Pool.meetsAll_true (clients Table.empty calls) ls)
  rw [(hmoves.2 m hm).2]
  exact apply_transition m.tag m.input m.before

end SqliteQueue

end XbowPerso
