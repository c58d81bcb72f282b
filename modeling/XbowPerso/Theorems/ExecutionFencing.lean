import XbowPerso.Fencing
import XbowPerso.Theorems.RedisIndex

/-!
# Which calls of superseded executions are fenced off

Both backends check the owner of a job by comparing worker identifiers. Seen from outside, each of their steps is lawful, so the
calls of a superseded execution are without effect exactly as far as the job is not running again under the same identifier.
-/

namespace XbowPerso

open JobStore Interleave

namespace SqliteQueue

/-- A call of the SQLite queue, as seen from outside. A call that raises leaves the table as it was. -/
def observe (q : SqliteQueue) (e : Event) : Observed where
  before := q.store
  after := (q.call e.settings e.env e.call).2.store
  handed := (e.call.handed (q.call e.settings e.env e.call).1).bind fun j => j.claimedBy.map fun w => (j.id, w)
  act := match (q.call e.settings e.env e.call).1 with
    | .ok _ => e.call.act
    | .error _ => none
  accepted := match (q.call e.settings e.env e.call).1 with
    | .ok r => r.accepted
    | .error _ => false

/-- The trace of a run. -/
def trace (q : SqliteQueue) : List Event → List Observed
  | [] => []
  | e :: events => q.observe e :: trace (q.call e.settings e.env e.call).2 events

theorem trace_linked (q : SqliteQueue) (events : List Event) : Linked q.store (q.trace events) := by
  induction events generalizing q with
  | nil => trivial
  | cons e events ih => exact ⟨rfl, ih _⟩

variable {cfg : QueueSettings} {worker : Ident} {q q' : SqliteQueue} {res : Option Job} {j : Job}

variable {now : Int}

theorem ClaimEffect.handed_owned {p : JobKind → Bool}
    (h : ClaimEffect cfg now worker p q res q') (hj : res = some j) :
    q'.store j.id = some j ∧ j.OwnedBy worker := by
  cases h with
  | idle hn => cases hj
  | handed row _ hr hc hmin hq =>
    cases hj
    exact ⟨(hq row.id).trans (if_pos rfl), rfl, rfl⟩

variable {env : Reading} {c : QueueCall}

/-- A job that is handed out runs under its claimer. -/
theorem handed_owned
    (h : c.handed (q.call cfg env c).1 = some j) : ∃ w, (q.call cfg env c).2.store j.id = some j ∧ j.OwnedBy w := by
  have heffect := call_effect cfg env q c
  generalize c.handed (q.call cfg env c).1 = handed, (q.call cfg env c).2 = q' at heffect h ⊢
  cases heffect with
  | claimed heff => exact ⟨_, heff.handed_owned h⟩
  | _ => cases h

variable {id : Ident}

theorem OwnEffect.isSome_iff {f : Job → Job}
    (h : OwnEffect id worker f q res q') : res.isSome = true ↔ ∃ j, q.store id = some j ∧ j.OwnedBy worker := by
  cases h with
  | refused hn => exact ⟨nofun, fun ⟨j, hj, ho⟩ => absurd ho (hn j hj)⟩
  | done j _ hj ho hq => exact ⟨fun _ => ⟨j, hj, ho⟩, fun _ => rfl⟩

theorem OwnEffect.refused_eq {f : Job → Job}
    (h : OwnEffect id worker f q res q') (hn : res.isSome = false) : q'.store = q.store := by
  cases h with
  | refused => rfl
  | done => cases hn

/-- A call of a worker is accepted when the job runs under that worker, and leaves the table as it was else. -/
theorem worker_call {r : QueueResult}
    {w : Ident} (hr : (q.call cfg env c).1 = .ok r) (ha : c.act = some (id, w)) :
    (r.accepted = true ↔ ∃ j, q.store id = some j ∧ j.OwnedBy w) ∧
      (r.accepted = false → (q.call cfg env c).2.store = q.store) := by
  cases c with
  | heartbeat jobId workerId =>
    simp only [call] at hr ⊢
    cases hc : q.heartbeat env jobId workerId with
    | error e => rw [hc] at hr; cases hr
    | ok out =>
      obtain ⟨id', w', res, hid, hw, heff, hb⟩ := heartbeat_effect hc
      simp only [QueueCall.act, hid, hw, Option.some.injEq, Prod.mk.injEq] at ha
      obtain ⟨rfl, rfl⟩ := ha
      rw [hc] at hr
      cases hr
      simp only [QueueResult.accepted, hb]
      exact ⟨heff.isSome_iff, heff.refused_eq⟩
  | finish jobId workerId success error =>
    simp only [call] at hr ⊢
    cases hc : q.finish env jobId workerId success error with
    | error e => rw [hc] at hr; cases hr
    | ok out =>
      obtain ⟨id', w', hid, hw, heff⟩ := finish_effect hc
      simp only [QueueCall.act, hid, hw, Option.some.injEq, Prod.mk.injEq] at ha
      obtain ⟨rfl, rfl⟩ := ha
      rw [hc] at hr
      cases hr
      exact ⟨heff.isSome_iff, heff.refused_eq⟩
  | cancelOwned jobId workerId reason =>
    simp only [call] at hr ⊢
    cases hc : q.cancelOwned env jobId workerId reason with
    | error e => rw [hc] at hr; cases hr
    | ok out =>
      obtain ⟨id', w', text, hid, hw, -, heff⟩ := cancelOwned_effect hc
      simp only [QueueCall.act, hid, hw, Option.some.injEq, Prod.mk.injEq] at ha
      obtain ⟨rfl, rfl⟩ := ha
      rw [hc] at hr
      cases hr
      exact ⟨heff.isSome_iff, heff.refused_eq⟩
  | enqueue => cases ha
  | claim => cases ha
  | claimAllowed => cases ha
  | claimKind => cases ha
  | cancelQueued => cases ha
  | recoverExpiredLeases => cases ha

/-! ### What completes a job -/

theorem recovered_completed
    (h : (recoverExpired cfg now q).2.find? id = some j) (hc : j.status = .completed) : q.store id = some j := by
  rw [recoverExpired_find?] at h
  obtain ⟨i, hi, hij⟩ := Option.map_eq_some_iff.mp h
  unfold recoverRow at hij
  split at hij
  · rw [← hij, Job.released_status, Job.recoveredStatus] at hc
    split at hc <;> cases hc
  · exact hij ▸ hi

theorem ClaimEffect.completed {p : JobKind → Bool}
    (h : ClaimEffect cfg now worker p q res q') (hj : q'.store id = some j)
    (hc : j.status = .completed) : q.store id = some j := by
  cases h with
  | idle hn => exact recovered_completed hj hc
  | handed row _ hr hcl hmin hq =>
    have hj' := (hq id).symm.trans hj
    split at hj'
    · cases hj'
      cases hc
    exact recovered_completed hj' hc

theorem OwnEffect.completed {f : Job → Job}
    (h : OwnEffect id worker f q res q') {k : Ident} (hj : q'.store k = some j) :
    q.store k = some j ∨ (k = id ∧ res.isSome = true) := by
  cases h with
  | refused hn => exact .inl hj
  | done i _ hi ho hq =>
    have hj' := (hq k).symm.trans hj
    split at hj'
    · rename_i hk
      exact .inr ⟨hk, rfl⟩
    · exact .inl hj'

/-- A call that completes a job is an accepted call of a worker on it. -/
theorem call_completed
    (hj : (q.call cfg env c).2.store id = some j) (hc : j.status = .completed) :
    q.store id = some j ∨
      ∃ r w, (q.call cfg env c).1 = .ok r ∧ c.act = some (id, w) ∧ r.accepted = true := by
  have heffect := call_effect cfg env q c
  generalize c.handed (q.call cfg env c).1 = handed, (q.call cfg env c).2 = q' at heffect hj
  cases heffect with
  | refused => exact .inl hj
  | enqueued _ heff =>
    cases heff with
    | existing => exact .inl hj
    | taken => exact .inl hj
    | created _ hn hd hq =>
      have hj' := (q.find?_insert hq id).symm.trans hj
      split at hj'
      · cases hj'
        cases hc
      · exact .inl hj'
  | claimed heff => exact .inl (heff.completed hj hc)
  | owned heff _ hact haccepted =>
    rcases heff.completed hj with hsame | ⟨hk, hres⟩
    · exact .inl hsame
    · obtain ⟨r, hr, hr'⟩ := haccepted hres
      exact .inr ⟨r, _, hr, hk ▸ hact, hr'⟩
  | swept _ hmap =>
    obtain ⟨i, hi, hij⟩ := Option.map_eq_some_iff.mp ((hmap id).symm.trans hj)
    split at hij
    · rw [← hij] at hc
      cases hc
    · exact .inl (hij ▸ hi)
  | recovered => exact .inl (recovered_completed hj hc)

/-- A call on well-formed jobs is lawful. -/
theorem observe_lawful (q : SqliteQueue) (e : Event) (hw : JobStore.WellFormed q.store) : (q.observe e).Lawful where
  handed := by
    intro id w h
    obtain ⟨j, hj, hjw⟩ := Option.bind_eq_some_iff.mp h
    obtain ⟨w', hs, ho⟩ := handed_owned hj
    rw [ho.2] at hjw
    cases hjw
    exact ⟨j, hs, ho⟩
  accepted := by
    intro id w h
    simp only [observe] at h ⊢
    cases hr : (q.call e.settings e.env e.call).1 with
    | error err => rw [hr] at h; cases h
    | ok r =>
      rw [hr] at h
      exact (worker_call hr h).1
  refused := by
    intro id w h hacc
    simp only [observe] at h hacc ⊢
    cases hr : (q.call e.settings e.env e.call).1 with
    | error err => rw [hr] at h; cases h
    | ok r =>
      rw [hr] at h hacc
      rw [(worker_call hr h).2 hacc]
  owner := by
    intro id w j hj ho hn
    refine Observed.owner_of_transition (call_transition e.settings e.env q e.call) hj ho fun hid => ?_
    obtain ⟨i, hi, hii⟩ := Option.map_eq_some_iff.mp hid
    obtain ⟨w', -, ho'⟩ := handed_owned hi
    refine hn w' ?_
    simp only [observe, hi, Option.bind_some, ho'.2, Option.map_some, hii]
  claimed := by
    intro id j hj hrun
    obtain ⟨w, hw'⟩ := Option.isSome_iff_exists.mp ((hw id j hj).running hrun).1
    exact ⟨w, hrun, hw'⟩
  completed := by
    intro id j hj hc
    refine (call_completed hj hc).imp_right fun ⟨r, w, hr, ha, hacc⟩ => ⟨w, ?_, ?_⟩
    · simp only [observe, hr, ha]
    · simp only [observe, hr, hacc]

theorem trace_lawful (q : SqliteQueue) (events : List Event) (hw : JobStore.WellFormed q.store) :
    ∀ o ∈ q.trace events, o.Lawful := by
  induction events generalizing q with
  | nil => exact fun o ho => absurd ho List.not_mem_nil
  | cons e events ih =>
    intro o ho
    rcases List.mem_cons.mp ho with rfl | ho
    · exact observe_lawful q e hw
    · exact ih _ ((call_transition e.settings e.env q e.call).wellFormed hw) o ho

end SqliteQueue

namespace RedisQueue

/-- The worker that a claim hands the job to. -/
def claimer : RedisStep → Option Ident
  | .claimFront worker | .claimMember worker _ _ => some worker
  | _ => none

/-- A step of the Redis queue, as seen from outside. -/
def observe (m : Move RedisStep RedisReading RedisQueue) : Observed where
  before := m.before.jobs
  after := m.after.jobs
  handed := (handed m.tag m.input m.before).bind fun id => (claimer m.tag).map fun w => (id, w)
  act := act m.tag
  accepted := accepted m.tag m.input m.before

variable {t : RedisStep} {env : RedisReading} {s : RedisQueue}

/-- A call of a worker is accepted when the job runs under that worker, and leaves the keys as they were else. -/
theorem worker_step {id w : Ident} (ha : act t = some (id, w)) :
    (accepted t env s = true ↔ ∃ j, s.jobs id = some j ∧ j.OwnedBy w) ∧
      (accepted t env s = false → apply t env s = s) := by
  cases t with
  | heartbeat id' w' =>
    cases ha
    simp only [accepted, apply, heartbeat]
    cases hj : s.jobs id with
    | none => simp
    | some j => by_cases ho : j.OwnedBy w <;> simp [ho]
  | finish id' w' success error =>
    cases ha
    simp only [accepted, apply, finish]
    cases hj : s.jobs id with
    | none => simp
    | some j => by_cases ho : j.OwnedBy w <;> simp [ho]
  | cancelOwned id' w' reason =>
    cases ha
    simp only [accepted, apply, cancelOwned]
    cases hj : s.jobs id with
    | none => simp
    | some j => by_cases ho : j.OwnedBy w <;> simp [ho]
  | _ => cases ha

/-- A job that is handed out runs under its claimer. -/
theorem handed_owned (h : Indexed s) {id : Ident}
    (hh : handed t env s = some id) :
    ∃ w j, claimer t = some w ∧ (apply t env s).jobs id = some j ∧ j.OwnedBy w := by
  cases t with
  | claimFront worker =>
    rcases claimFront_eq h env worker with ⟨-, heq⟩ | ⟨id', j, -, -, -, -, -, heq⟩
    · simp [handed, heq] at hh
    · simp only [handed, heq, Option.some.injEq] at hh
      subst hh
      refine ⟨worker, j.claimed worker env.now, rfl, ?_, rfl, rfl⟩
      simp only [apply, heq]
      exact Function.update_self ..
  | claimMember worker kind id' =>
    rcases claimMember_eq h env worker kind id' with ⟨j, -, -, -, -, heq⟩ | ⟨-, heq⟩
    · simp only [handed, heq, if_true, Option.some.injEq] at hh
      subst hh
      refine ⟨worker, j.claimed worker env.now, rfl, ?_, rfl, rfl⟩
      simp only [apply, heq]
      exact Function.update_self ..
    · simp [handed, heq] at hh
  | _ => cases hh

/-- A step that completes a job is an accepted call of a worker on it. -/
theorem step_completed (h : Indexed s) (hfresh : Fresh t env s) {id : Ident} {j : Job}
    (hj : (apply t env s).jobs id = some j) (hc : j.status = .completed) :
    s.jobs id = some j ∨ ∃ w, act t = some (id, w) ∧ accepted t env s = true := by
  cases apply_effect h t env hfresh with
  | same hjobs => exact .inl (hjobs ▸ hj)
  | rewrite i j₀ j' _ hjobs _ _ hdone =>
    rw [hjobs, Function.update_apply] at hj
    split at hj
    · rename_i hid
      cases hj
      exact .inr (hid ▸ hdone hc)
    · exact .inl hj
  | create r i now _ _ hjobs =>
    rw [hjobs, Function.update_apply] at hj
    split at hj
    · cases hj
      cases hc
    exact .inl hj

/-- A step with fresh identifiers from a state of the invariant is lawful. -/
theorem observe_lawful {m : Move RedisStep RedisReading RedisQueue} (h : Indexed m.before)
    (hfresh : Fresh m.tag m.input m.before) (hafter : m.after = apply m.tag m.input m.before) : (observe m).Lawful where
  handed := by
    intro id w hh
    obtain ⟨id', hid, hw⟩ := Option.bind_eq_some_iff.mp hh
    obtain ⟨w', j, hc, hj, ho⟩ := handed_owned h hid
    rw [hc] at hw
    cases hw
    exact ⟨j, by rw [observe, hafter]; exact hj, ho⟩
  accepted := fun id w ha => (worker_step ha).1
  refused := by
    intro id w ha hacc
    simp only [observe, hafter]
    rw [(worker_step ha).2 hacc]
  owner := by
    intro id w j hj ho hn
    refine Observed.owner_of_transition (hafter ▸ (apply_keeps h m.tag m.input hfresh).transition) hj ho fun hid => ?_
    obtain ⟨w', -, hc, -⟩ := handed_owned h hid
    refine hn w' ?_
    simp only [observe, hid, Option.bind_some, hc, Option.map_some]
  claimed := by
    intro id j hj hrun
    obtain ⟨w, hw'⟩ := Option.isSome_iff_exists.mp ((h.wellFormed id j hj).running hrun).1
    exact ⟨w, hrun, hw'⟩
  completed := by
    intro id j hj hc
    simp only [observe, hafter] at hj ⊢
    exact step_completed h hfresh hj hc

/-- The trace of what the clients do. -/
def trace (clients : Clients) (ls : List (Nat × RedisReading)) : List Observed :=
  ((start clients).moves ls).map observe

theorem moves_linked {α : Type} (p : Pool RedisStep RedisReading RedisQueue α) (ls : List (Nat × RedisReading)) :
    Linked p.shared.jobs ((p.moves ls).map observe) := by
  induction ls generalizing p with
  | nil => trivial
  | cons l ls ih =>
    have hstep := ih (p.step l)
    unfold Pool.moves
    unfold Pool.step Pool.move? at *
    cases hth : p.thread l.1 with
    | done a =>
      rw [hth] at hstep
      exact hstep
    | act t u n =>
      rw [hth] at hstep
      exact ⟨rfl, hstep⟩

end RedisQueue

namespace SqliteQueue

/-- A job is claimed, its lease expires, the same worker identifier claims it again, and the first execution finishes it. -/
def staleEvents : List Event :=
  [⟨.default, ⟨0, sampleId⟩, .enqueue "campaign-1" "report" .empty 2 none⟩,
    ⟨.default, ⟨1000000, sampleId⟩, .claim "worker-1"⟩,
    ⟨.default, ⟨21602000000, sampleId⟩, .claim "worker-1"⟩,
    ⟨.default, ⟨21603000000, sampleId⟩, .finish sampleId.text "worker-1" true none⟩]

/-- The last call is made by the execution that the first claim started. -/
def staleIssuer (k : Nat) : Option Nat := if k = 3 then some 1 else none

/-- A job is claimed and finished. -/
def finishedEvents : List Event :=
  [⟨.default, ⟨0, sampleId⟩, .enqueue "campaign-1" "report" .empty 2 none⟩,
    ⟨.default, ⟨1000000, sampleId⟩, .claim "worker-1"⟩,
    ⟨.default, ⟨2000000, sampleId⟩, .finish sampleId.text "worker-1" true none⟩]

end SqliteQueue

end XbowPerso
