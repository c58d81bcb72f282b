import XbowPerso.Theorems.HackerOneSequential

/-!
# The members of a batch, one pass after the other

One reconciler, with whatever it finds in each pass. A pass looks at the running members first and then tries one member that is ready,
so what it tries has only members before it that have ended.
-/

namespace XbowPerso

namespace HackerOneBatch

/-! ## What a pass does to a member -/

variable {b : Batch} {looks : Nat → Look} {i : Nat} {m : Member}

theorem status_finishMember (look : Look) (m : Member) :
    (finishMember look m).status = m.status ∨ m.status = .running ∧ (finishMember look m).status.terminal = true := by
  unfold finishMember
  split
  · rename_i hrunning
    split
    · rename_i status h
      exact .inr ⟨hrunning, (terminal_of_memberFinished h).1⟩
    · exact .inl rfl
  · exact .inl rfl

theorem attempts_finishMember (look : Look) (m : Member) : (finishMember look m).attempts = m.attempts := by
  unfold finishMember
  split
  · split <;> rfl
  · rfl

/-- A member at its place after a pass over the running members. -/
def finished (looks : Nat → Look) (b : Batch) : List Member := b.members.mapIdx fun i m => finishMember (looks i) m

theorem getElem?_finished (looks : Nat → Look) (b : Batch) (i : Nat) :
    (finished looks b)[i]? = b.members[i]?.map (finishMember (looks i)) := List.getElem?_mapIdx

/-- The starts of a pass of a sequential batch: none, or one of the first member that is ready, when none is running. -/
theorem startNext_cases (looks : Nat → Look) (members : List Member) :
    startNext looks members = (members, []) ∨
    ∃ i m, members[i]? = some m ∧ m.status = .ready ∧ (∀ j < i, ∀ x, members[j]? = some x → x.status.terminal = true) ∧
      startNext looks members = (tryMember looks members i, [⟨i, (looks i).result⟩]) := by
  unfold startNext
  by_cases hrunning : members.any (fun m => decide (m.status = .running)) = true
  · exact .inl (if_pos hrunning)
  rw [if_neg hrunning]
  cases hfind : members.findIdx? fun m => decide (m.status = .ready) with
  | none => exact .inl rfl
  | some i =>
    obtain ⟨hlt, hready, hbefore⟩ := List.findIdx?_eq_some_iff_getElem.mp hfind
    by_cases hdue : (looks i).due = true
    · refine .inr ⟨i, members[i], List.getElem?_eq_getElem hlt, of_decide_eq_true hready, fun j hj x hx => ?_, if_pos hdue⟩
      obtain ⟨hj', rfl⟩ := List.getElem?_eq_some_iff.mp hx
      refine terminal_of_ne (fun h => hbefore j hj (decide_eq_true h)) fun h => hrunning ?_
      exact any_running_iff.mpr ⟨_, List.getElem_mem hj', h⟩
    · exact .inl (if_neg hdue)

theorem getElem?_tryMember (looks : Nat → Look) (members : List Member) (i j : Nat) :
    (tryMember looks members i)[j]? = members[j]?.map fun m => if j = i then m.started (looks j).result else m := List.getElem?_mapIdx

variable (looks) in
/-- A pass of a sequential batch. -/
theorem reconcile_cases (hmode : b.mode = .sequential) :
    (b.state = .completed ∨ b.state = .cancelled) ∧ reconcile looks b = (b, []) ∨
    (∃ members attempts, reconcile looks b = ({ b with members := members, state := batchState members }, attempts) ∧
      startNext looks (finished looks b) = (members, attempts)) := by
  unfold reconcile
  by_cases hover : b.state = .completed ∨ b.state = .cancelled
  · exact .inl ⟨hover, if_pos hover⟩
  · rw [if_neg hover]
    simp only [hmode]
    exact .inr ⟨_, _, rfl, rfl⟩

theorem mode_reconcile (looks : Nat → Look) (b : Batch) : (reconcile looks b).1.mode = b.mode := by
  unfold reconcile
  split <;> rfl

/-- How a member goes through a pass. -/
inductive Through (look : Look) (tries : List Attempt) (m m' : Member) (i : Nat) : Prop where
  /-- It is not tried: it stays, or it was running and has ended. -/
  | kept (status : m'.status = m.status ∨ m.status = .running ∧ m'.status.terminal = true) (attempts : m'.attempts = m.attempts)
      (untried : (tries.filter fun a => decide (a.index = i)) = [])
  /-- It was ready, and is tried. -/
  | started (ready : m.status = .ready) (eq : m' = m.started look.result)
      (tried : (tries.filter fun a => decide (a.index = i)) = [⟨i, look.result⟩])

variable (looks) in
theorem passed_of_reconcile (hmode : b.mode = .sequential) (hm : b.members[i]? = some m) :
    ∃ m', (reconcile looks b).1.members[i]? = some m' ∧ Through (looks i) (reconcile looks b).2 m m' i := by
  rcases reconcile_cases looks hmode with ⟨-, heq⟩ | ⟨members, attempts, heq, hstart⟩
  · rw [heq]
    exact ⟨m, hm, .kept (.inl rfl) rfl rfl⟩
  rw [heq]
  have hfinished : (finished looks b)[i]? = some (finishMember (looks i) m) := by rw [getElem?_finished, hm]; rfl
  rcases startNext_cases looks (finished looks b) with hnone | ⟨k, x, hx, hready, -, htry⟩
  · rw [hnone] at hstart
    cases hstart
    exact ⟨_, hfinished, .kept (status_finishMember _ m) (attempts_finishMember _ m) rfl⟩
  · rw [htry] at hstart
    cases hstart
    have hget : (tryMember looks (finished looks b) k)[i]? =
        some (if i = k then (finishMember (looks i) m).started (looks i).result else finishMember (looks i) m) := by
      rw [getElem?_tryMember, hfinished]
      rfl
    refine ⟨_, hget, ?_⟩
    by_cases hk : i = k
    · subst hk
      rw [if_pos rfl]
      rw [hfinished] at hx
      cases hx
      -- the look at the running members left a member that was ready
      have hstatus : m.status = .ready := by
        rcases status_finishMember (looks i) m with hsame | ⟨-, hterminal⟩
        · rw [← hsame, hready]
        · rw [hready] at hterminal
          cases hterminal
      have hsame : finishMember (looks i) m = m := by
        unfold finishMember
        rw [if_neg (by rw [hstatus]; decide)]
      rw [hsame]
      exact .started hstatus rfl (by simp)
    · rw [if_neg hk]
      refine .kept (status_finishMember _ m) (attempts_finishMember _ m) ?_
      simp only [List.filter_cons, List.filter_nil, decide_eq_true_eq, if_neg (Ne.symm hk)]

/-! ## Ended members -/

variable (looks) in
theorem terminal_kept (hmode : b.mode = .sequential) (hm : b.members[i]? = some m) (hterminal : m.status.terminal = true) :
    ∃ m', (reconcile looks b).1.members[i]? = some m' ∧ m'.status = m.status := by
  obtain ⟨m', hm', hpassed⟩ := passed_of_reconcile looks hmode hm
  refine ⟨m', hm', ?_⟩
  cases hpassed with
  | kept status =>
    rcases status with hsame | ⟨hrunning, -⟩
    · exact hsame
    · rw [hrunning] at hterminal
      cases hterminal
  | started ready =>
    rw [ready] at hterminal
    cases hterminal

theorem terminal_kept_run (hmode : b.mode = .sequential) (run : List (Nat → Look)) (hm : b.members[i]? = some m)
    (hterminal : m.status.terminal = true) : ∃ m', (batchAfter b run).members[i]? = some m' ∧ m'.status = m.status := by
  induction run generalizing b m with
  | nil => exact ⟨m, hm, rfl⟩
  | cons looks run ih =>
    obtain ⟨m', hm', hstatus⟩ := terminal_kept looks hmode hm hterminal
    obtain ⟨m'', hm'', hstatus'⟩ := ih ((mode_reconcile looks b).trans hmode) hm' (by rw [hstatus]; exact hterminal)
    exact ⟨m'', hm'', hstatus'.trans hstatus⟩

/-! ## The state of the batch -/

/-- A batch is stored as completed exactly when all of its members have ended. -/
def Consistent (b : Batch) : Prop := b.members ≠ [] ∧ (b.state = .completed ↔ ∀ m ∈ b.members, m.status.terminal = true)

theorem batchState_completed_iff {members : List Member} (hne : members ≠ []) :
    batchState members = .completed ↔ ∀ m ∈ members, m.status.terminal = true := by
  unfold batchState
  rw [← List.all_eq_true (p := fun m : Member => m.status.terminal)]
  by_cases hall : members.all (fun m => m.status.terminal) = true
  · rw [if_pos ⟨hne, hall⟩]
    exact ⟨fun _ => hall, fun _ => rfl⟩
  · rw [if_neg fun h => hall h.2]
    refine ⟨fun h => ?_, fun h => absurd h hall⟩
    split at h <;> cases h

theorem length_reconcile (hmode : b.mode = .sequential) : (reconcile looks b).1.members.length = b.members.length := by
  rcases reconcile_cases looks hmode with ⟨-, heq⟩ | ⟨members, attempts, heq, hstart⟩
  · rw [heq]
  · rw [heq]
    rcases startNext_cases looks (finished looks b) with hnone | ⟨k, x, -, -, -, htry⟩
    · rw [hnone] at hstart
      cases hstart
      exact List.length_mapIdx
    · rw [htry] at hstart
      cases hstart
      exact List.length_mapIdx.trans List.length_mapIdx

theorem Consistent.reconcile (h : Consistent b) (hmode : b.mode = .sequential) (looks : Nat → Look) :
    Consistent (reconcile looks b).1 := by
  have hne : (HackerOneBatch.reconcile looks b).1.members ≠ [] := by
    rw [← List.length_pos_iff, length_reconcile hmode]
    exact List.length_pos_iff.mpr h.1
  rcases reconcile_cases looks hmode with ⟨-, heq⟩ | ⟨members, attempts, heq, -⟩
  · rw [heq]
    exact h
  · rw [heq] at hne ⊢
    exact ⟨hne, batchState_completed_iff hne⟩

theorem mode_batchAfter (b : Batch) (run : List (Nat → Look)) : (batchAfter b run).mode = b.mode := by
  induction run generalizing b with
  | nil => rfl
  | cons looks run ih => exact (ih _).trans (mode_reconcile looks b)

theorem Consistent.run (h : Consistent b) (hmode : b.mode = .sequential) (run : List (Nat → Look)) : Consistent (batchAfter b run) := by
  induction run generalizing b with
  | nil => exact h
  | cons looks run ih => exact ih (h.reconcile hmode looks) ((mode_reconcile looks b).trans hmode)

/-! ## What is tried -/

/-- The members before one that is tried have ended. -/
theorem ended_before_attempt (hmode : b.mode = .sequential) {a : Attempt} (ha : a ∈ (reconcile looks b).2) :
    ∀ j < a.index, ∃ x : Member, (reconcile looks b).1.members[j]? = some x ∧ x.status.terminal = true := by
  rcases reconcile_cases looks hmode with ⟨-, heq⟩ | ⟨members, attempts, heq, hstart⟩
  · rw [heq] at ha
    exact absurd ha List.not_mem_nil
  rw [heq] at ha ⊢
  rcases startNext_cases looks (finished looks b) with hnone | ⟨k, x, hx, -, hbefore, htry⟩
  · rw [hnone] at hstart
    cases hstart
    exact absurd ha List.not_mem_nil
  · rw [htry] at hstart
    cases hstart
    rw [List.mem_singleton.mp ha]
    intro j hj
    obtain ⟨hk, -⟩ := List.getElem?_eq_some_iff.mp hx
    have hjlt : j < (finished looks b).length := Nat.lt_trans hj hk
    have hget : (finished looks b)[j]? = some (finished looks b)[j] := List.getElem?_eq_getElem hjlt
    refine ⟨(finished looks b)[j], ?_, hbefore j hj _ hget⟩
    show (tryMember looks (finished looks b) k)[j]? = _
    rw [getElem?_tryMember, hget, Option.map_some, if_neg (Nat.ne_of_lt hj)]

/-! ## Retries -/

/-- A member that has not ended counts its retries in a row, and they are fewer than eight; one that was tried eight times in a row is in
review. -/
structure Counted (m : Member) (n : Nat) : Prop where
  le : n ≤ maxAttempts
  review : n = maxAttempts → m.status = .review
  attempts : m.status.terminal = false → n ≤ m.attempts.getD 0 ∧ n < maxAttempts

theorem streak_append_nil {attempts more : List Attempt} (h : (more.filter fun a => decide (a.index = i)) = []) :
    streak i (attempts ++ more) = streak i attempts := by
  rw [streak, List.filter_append, h, List.append_nil]
  rfl

theorem streak_append_singleton {attempts more : List Attempt} {a : Attempt}
    (h : (more.filter fun a => decide (a.index = i)) = [a]) :
    streak i (attempts ++ more) = if a.unavailable then streak i attempts + 1 else 0 := by
  rw [streak, List.filter_append, h, List.reverse_append, List.reverse_singleton, List.singleton_append, List.takeWhile_cons]
  split
  · rfl
  · rfl

theorem Counted.pass {look : Look} {tries attempts : List Attempt} {m' : Member} (h : Counted m (streak i attempts))
    (hpassed : Through look tries m m' i) : Counted m' (streak i (attempts ++ tries)) := by
  cases hpassed with
  | kept status hattempts untried =>
    rw [streak_append_nil untried]
    rcases status with hsame | ⟨hrunning, hterminal⟩
    · refine ⟨h.le, fun heq => hsame.trans (h.review heq), fun hlive => ?_⟩
      rw [hattempts]
      exact h.attempts (hsame ▸ hlive)
    · have hlive := (h.attempts (by rw [hrunning]; rfl)).2
      refine ⟨h.le, fun heq => by omega, fun hnot => ?_⟩
      rw [hterminal] at hnot
      cases hnot
  | started ready eq tried =>
    subst eq
    rw [streak_append_singleton tried]
    obtain ⟨hle, hlt⟩ := h.attempts (by rw [ready]; rfl)
    unfold Attempt.unavailable Member.started
    by_cases hunavailable : look.result = (.ready, some "remote_revalidation_unavailable")
    · rw [if_pos (decide_eq_true hunavailable), if_pos hunavailable]
      unfold scheduleRetry
      by_cases hlast : maxAttempts ≤ m.attempts.getD 0 + 1
      · rw [if_pos hlast]
        refine ⟨hlt, fun _ => rfl, fun hlive => ?_⟩
        cases hlive
      · rw [if_neg hlast]
        refine ⟨hlt, fun heq => by omega, fun _ => ?_⟩
        show streak i attempts + 1 ≤ m.attempts.getD 0 + 1 ∧ streak i attempts + 1 < maxAttempts
        omega
    · have hfalse : ¬ decide (look.result = (.ready, some "remote_revalidation_unavailable")) = true := by
        rw [decide_eq_true_eq]
        exact hunavailable
      rw [if_neg hunavailable, if_neg hfalse]
      exact ⟨Nat.zero_le _, fun heq => absurd heq (by decide), fun _ => ⟨Nat.zero_le _, by decide⟩⟩

theorem counted_run (hmode : b.mode = .sequential) (run : List (Nat → Look)) {attempts : List Attempt} (hm : b.members[i]? = some m)
    (h : Counted m (streak i attempts)) :
    ∃ m', (batchAfter b run).members[i]? = some m' ∧ Counted m' (streak i (attempts ++ attemptsOf b run)) := by
  induction run generalizing b m attempts with
  | nil =>
    refine ⟨m, hm, ?_⟩
    rw [attemptsOf, List.append_nil]
    exact h
  | cons looks run ih =>
    obtain ⟨m', hm', hpassed⟩ := passed_of_reconcile looks hmode hm
    obtain ⟨m'', hm'', hcounted⟩ := ih ((mode_reconcile looks b).trans hmode) hm' (h.pass hpassed)
    refine ⟨m'', hm'', ?_⟩
    rw [attemptsOf, ← List.append_assoc]
    exact hcounted

/-- Over every run of one reconciler on a sequential batch: a member that has ended keeps its status; the batch is stored as completed
exactly when all members have ended; what is tried has only ended members before it; and no member is tried more than eight times in a row
without a remote revalidation, after which it is in review. -/
theorem member_machine (b : Batch) (run : List (Nat → Look)) (hmode : b.mode = .sequential) (hconsistent : Consistent b) :
    (∀ (i : Nat) (m : Member), b.members[i]? = some m → m.status.terminal = true →
        ∃ m' : Member, (batchAfter b run).members[i]? = some m' ∧ m'.status = m.status) ∧
      ((batchAfter b run).state = .completed ↔ ∀ m ∈ (batchAfter b run).members, m.status.terminal = true) ∧
      (∀ looks, ∀ a ∈ (reconcile looks (batchAfter b run)).2, ∀ j < a.index,
        ∃ x : Member, (reconcile looks (batchAfter b run)).1.members[j]? = some x ∧ x.status.terminal = true) ∧
      ∀ (i : Nat) (m : Member), b.members[i]? = some m → streak i (attemptsOf b run) ≤ maxAttempts ∧
        (streak i (attemptsOf b run) = maxAttempts →
          ∃ m' : Member, (batchAfter b run).members[i]? = some m' ∧ m'.status = .review) := by
  refine ⟨fun i m hm hterminal => terminal_kept_run hmode run hm hterminal, (hconsistent.run hmode run).2, fun looks a ha => ?_,
    fun i m hm => ?_⟩
  · exact ended_before_attempt ((mode_batchAfter b run).trans hmode) ha
  · have hstart : Counted m (streak i []) := by
      rw [show streak i [] = 0 from rfl]
      exact ⟨Nat.zero_le _, fun heq => absurd heq (by decide), fun _ => ⟨Nat.zero_le _, by decide⟩⟩
    obtain ⟨m', hm', hcounted⟩ := counted_run hmode run hm hstart
    exact ⟨hcounted.le, fun heq => ⟨m', hm', hcounted.review heq⟩⟩

/-- Two members that are ready. -/
def sampleBatch : Batch := ⟨.sequential, .queued, [⟨"a", .ready, none, none⟩, ⟨"b", .ready, none, none⟩]⟩

/-- The remote revalidation is not available. -/
def unavailableLook : Look := ⟨some .ready, noJobs, true, some (.ready, "remote_revalidation_unavailable"), .ok (), none⟩

theorem member_machine_sample :
    streak 0 (attemptsOf sampleBatch (List.replicate 9 fun _ => unavailableLook)) = 8 ∧
      ∃ m : Member, (batchAfter sampleBatch (List.replicate 9 fun _ => unavailableLook)).members[0]? = some m ∧ m.status = .review := by
  have hmachine := member_machine sampleBatch (List.replicate 9 fun _ => unavailableLook) rfl ⟨by decide, by decide⟩
  have hstreak : streak 0 (attemptsOf sampleBatch (List.replicate 9 fun _ => unavailableLook)) = 8 := by decide +kernel
  exact ⟨hstreak, (hmachine.2.2.2 0 _ rfl).2 hstreak⟩

end HackerOneBatch

end XbowPerso
