import XbowPerso.Lifecycle

/-!
# Executions and the calls they make

A trace lists what each step of a queue does: the jobs before and after it, the job it hands out and to whom, and the call it is of
a worker on its job, with whether the call was accepted. An execution is a hand-out, named by its position in the trace; it is
superseded once a later hand-out gives the job away again. A queue knows its workers by their identifiers alone, so a call of a
superseded execution is refused exactly when the job is not running under that identifier again.
-/

namespace XbowPerso

namespace JobStore

/-- One step of a queue, as seen from outside. -/
structure Observed where
  before : JobStore
  after : JobStore
  handed : Option (Ident × Ident)
  act : Option (Ident × Ident)
  accepted : Bool

namespace Observed

/-- The call has no effect on the job: it is refused, and the job stays as it was. -/
def NoEffect (o : Observed) (id : Ident) : Prop := o.accepted = false ∧ o.after id = o.before id

/-- What a queue does at a step: it hands out running jobs to their claimers, accepts a call of a worker when the job runs under that
worker's identifier and leaves the job alone else, lets no job run under a worker but by a hand-out and none without a worker, and completes
a job by an accepted call alone. -/
structure Lawful (o : Observed) : Prop where
  handed : ∀ id w, o.handed = some (id, w) → ∃ j, o.after id = some j ∧ j.OwnedBy w
  accepted : ∀ id w, o.act = some (id, w) → (o.accepted = true ↔ ∃ j, o.before id = some j ∧ j.OwnedBy w)
  refused : ∀ id w, o.act = some (id, w) → o.accepted = false → o.after id = o.before id
  owner : ∀ id w j, o.after id = some j → j.OwnedBy w → (∀ w', o.handed ≠ some (id, w')) →
    ∃ i, o.before id = some i ∧ i.OwnedBy w
  claimed : ∀ id j, o.before id = some j → j.status = .running → ∃ w, j.OwnedBy w
  completed : ∀ id j, o.after id = some j → j.status = .completed →
    o.before id = some j ∨ ∃ w, o.act = some (id, w) ∧ o.accepted = true

/-- A transition obeys the law of owners. -/
theorem owner_of_transition {s s' : JobStore} {handed : Option Ident} (h : Transition s s' handed) {id w : Ident} {j : Job}
    (hj : s' id = some j) (ho : j.OwnedBy w) (hn : handed ≠ some id) : ∃ i, s id = some i ∧ i.OwnedBy w := by
  cases hi : s id with
  | none =>
    obtain ⟨hw, ha⟩ := h.added id j hi hj
    rw [cost, if_neg hn] at ha
    have := hw.tried ho.1
    omega
  | some i =>
    obtain ⟨j', hj', he, ha⟩ := h.kept id i hi
    cases hj.symm.trans hj'
    rw [cost, if_neg hn, Int.add_zero] at ha
    exact ⟨i, rfl, he.owned_before ha ho⟩

end Observed

/-- A trace from a state: each step starts where the last one ended. -/
def Linked : JobStore → List Observed → Prop
  | _, [] => True
  | s, o :: T => o.before = s ∧ Linked o.after T

/-- The worker that a job was last handed to, after one more step. -/
def Observed.claimant (o : Observed) (id : Ident) (last : Option Ident) : Option Ident :=
  match o.handed with
  | some (id', w) => if id' = id then some w else last
  | none => last

theorem Observed.claimant_eq {o : Observed} {id w : Ident} (h : o.handed = some (id, w)) (last : Option Ident) :
    o.claimant id last = some w := by
  simp [claimant, h]

theorem Observed.claimant_of_ne {o : Observed} {id : Ident} (h : ∀ w, o.handed ≠ some (id, w)) (last : Option Ident) :
    o.claimant id last = last := by
  unfold claimant
  split
  · rename_i id' w hh
    rw [if_neg]
    rintro rfl
    exact h w hh
  · rfl

/-- The worker that the last hand-out of a job gave it to. -/
def lastClaimant (id : Ident) : List Observed → Option Ident → Option Ident
  | [], last => last
  | o :: T, last => lastClaimant id T (o.claimant id last)

/-- The state after a trace. -/
def stateAfter : JobStore → List Observed → JobStore
  | s, [] => s
  | _, o :: T => stateAfter o.after T

variable {s : JobStore} {T : List Observed}

theorem linked_append {T' : List Observed} :
    Linked s (T ++ T') ↔ Linked s T ∧ Linked (stateAfter s T) T' := by
  induction T generalizing s with
  | nil => simp [Linked, stateAfter]
  | cons o T ih => simp only [List.cons_append, Linked, stateAfter, ih, and_assoc]

/-- A job that runs under a worker was last handed out to that worker. -/
theorem owner_eq_lastClaimant (hl : Linked s T) (hlaw : ∀ o ∈ T, o.Lawful) (id : Ident) (last : Option Ident)
    (h0 : ∀ j w, s id = some j → j.OwnedBy w → last = some w) :
    ∀ j w, stateAfter s T id = some j → j.OwnedBy w → lastClaimant id T last = some w := by
  induction T generalizing s last with
  | nil => exact h0
  | cons o T ih =>
    refine ih hl.2 (fun o' ho' => hlaw o' (List.mem_cons_of_mem _ ho')) _ ?_
    have ho := hlaw o List.mem_cons_self
    intro j w hj hjw
    by_cases hh : ∃ w', o.handed = some (id, w')
    · obtain ⟨w', hh⟩ := hh
      obtain ⟨i, hi, hiw⟩ := ho.handed id w' hh
      cases hj.symm.trans hi
      rw [Observed.claimant_eq hh, ← hjw.2, ← hiw.2]
    · have hne : ∀ w', o.handed ≠ some (id, w') := fun w' hw' => hh ⟨w', hw'⟩
      obtain ⟨i, hi, hiw⟩ := ho.owner id w j hj hjw hne
      rw [Observed.claimant_of_ne hne]
      exact h0 i w (hl.1 ▸ hi) hiw

/-- The last claimant is the one of a hand-out that no other one of the job follows. -/
theorem lastClaimant_spec {id w : Ident} {last : Option Ident} (h : lastClaimant id T last = some w) :
    (last = some w ∧ ∀ (m : Nat) (c : Observed), T[m]? = some c → ∀ w', c.handed ≠ some (id, w')) ∨
    ∃ (m : Nat) (c : Observed), T[m]? = some c ∧ c.handed = some (id, w) ∧
      ∀ (m' : Nat) (c' : Observed), m < m' → T[m']? = some c' → ∀ w', c'.handed ≠ some (id, w') := by
  induction T generalizing last with
  | nil => exact .inl ⟨h, fun m c hm => by simp at hm⟩
  | cons o T ih =>
    rcases ih h with ⟨hw, hnone⟩ | ⟨m, c, hm, hc, hafter⟩
    · by_cases hh : ∃ w', o.handed = some (id, w')
      · obtain ⟨w', hh⟩ := hh
        rw [Observed.claimant_eq hh] at hw
        cases hw
        refine .inr ⟨0, o, rfl, hh, fun m' c' hm' hc' => ?_⟩
        obtain ⟨n, rfl⟩ := Nat.exists_eq_add_of_lt hm'
        rw [Nat.zero_add, List.getElem?_cons_succ] at hc'
        exact hnone n c' hc'
      · have hne : ∀ w', o.handed ≠ some (id, w') := fun w' hw' => hh ⟨w', hw'⟩
        rw [Observed.claimant_of_ne hne] at hw
        refine .inl ⟨hw, fun m c hm => ?_⟩
        cases m with
        | zero =>
          cases hm
          exact hne
        | succ n => exact hnone n c hm
    · refine .inr ⟨m + 1, c, hm, hc, fun m' c' hm' hc' => ?_⟩
      obtain ⟨n, rfl⟩ := Nat.exists_eq_add_of_lt hm'
      exact hafter (m + 1 + n) c' (by omega) (by simpa [Nat.add_right_comm] using hc')

/-! ## Superseded executions -/

/-- The call at position `k` may come from the execution that the hand-out at position `i` started: it names that job and carries
that worker's identifier. -/
def Issues (T : List Observed) (i k : Nat) (id w : Ident) : Prop :=
  i < k ∧ ∃ c o, T[i]? = some c ∧ T[k]? = some o ∧ c.handed = some (id, w) ∧ o.act = some (id, w)

/-- The job was handed out again between the two positions. -/
def Superseded (T : List Observed) (i k : Nat) (id : Ident) : Prop :=
  ∃ j c w, i < j ∧ j < k ∧ T[j]? = some c ∧ c.handed = some (id, w)

/-- Before position `k` the job runs, and the execution it was last handed to carries the identifier `w`. -/
def Retaken (T : List Observed) (k : Nat) (id w : Ident) : Prop :=
  lastClaimant id (T.take k) none = some w ∧
    ∃ o j, T[k]? = some o ∧ o.before id = some j ∧ j.status = .running

/-- Which execution makes which call: an assignment that names, for some of the calls, the position of a hand-out. -/
def Assigned (T : List Observed) (issuer : Nat → Option Nat) : Prop :=
  ∀ k i, issuer k = some i → ∃ id w, Issues T i k id w

/-- No call of a superseded execution has an effect on the job. -/
def Fenced (T : List Observed) (issuer : Nat → Option Nat) : Prop :=
  ∀ k i id w o, issuer k = some i → Issues T i k id w → Superseded T i k id → T[k]? = some o → o.NoEffect id

/-- When a call of a superseded execution arrives, the job does not run under an execution with the same identifier. -/
def Distinguished (T : List Observed) (issuer : Nat → Option Nat) : Prop :=
  ∀ k i id w, issuer k = some i → Issues T i k id w → Superseded T i k id → ¬ Retaken T k id w

/-- A call is refused, and leaves the job alone, exactly when the job is not running under an execution that carries the identifier
of the call. -/
theorem noEffect_iff (hl : Linked (fun _ => none) T) (hlaw : ∀ o ∈ T, o.Lawful) {k : Nat} {o : Observed} {id w : Ident}
    (hk : T[k]? = some o) (hact : o.act = some (id, w)) : o.NoEffect id ↔ ¬ Retaken T k id w := by
  have ho := hlaw o (List.mem_of_getElem? hk)
  obtain ⟨hkl, hget⟩ := List.getElem?_eq_some_iff.mp hk
  have hsplit : T = T.take k ++ o :: T.drop (k + 1) := by
    rw [← hget, List.getElem_cons_drop, List.take_append_drop]
  have hbefore : o.before = stateAfter (fun _ => none) (T.take k) := by
    rw [hsplit] at hl
    exact (linked_append.mp hl).2.1
  have hlast := owner_eq_lastClaimant (linked_append.mp (hsplit ▸ hl)).1
    (fun o' ho' => hlaw o' (List.mem_of_mem_take ho')) id none (fun _ _ h _ => by cases h)
  have howned : (∃ j, o.before id = some j ∧ j.OwnedBy w) ↔ Retaken T k id w := by
    constructor
    · rintro ⟨j, hj, hjw⟩
      exact ⟨hlast j w (hbefore ▸ hj) hjw, o, j, hk, hj, hjw.1⟩
    · rintro ⟨hw, o', j, hk', hj, hrun⟩
      cases hk.symm.trans hk'
      obtain ⟨w', hjw⟩ := ho.claimed id j hj hrun
      have := hlast j w' (hbefore ▸ hj) hjw
      rw [hw] at this
      cases this
      exact ⟨j, hj, hjw⟩
  constructor
  · rintro ⟨hacc, -⟩ hr
    have := (ho.accepted id w hact).mpr (howned.mpr hr)
    rw [hacc] at this
    cases this
  · intro hr
    have hacc : o.accepted = false := by
      rw [← Bool.not_eq_true, ho.accepted id w hact, howned]
      exact hr
    exact ⟨hacc, ho.refused id w hact hacc⟩

/-- A trace is fenced exactly when no call of a superseded execution arrives while the job runs under an execution with the same
identifier. -/
theorem fenced_iff (hl : Linked (fun _ => none) T) (hlaw : ∀ o ∈ T, o.Lawful) (issuer : Nat → Option Nat) :
    Fenced T issuer ↔ Distinguished T issuer := by
  constructor
  · intro h k i jid w hi hiss hsup
    obtain ⟨c, o, -, ho, -, hact⟩ := hiss.2
    exact (noEffect_iff hl hlaw ho hact).mp (h k i jid w o hi hiss hsup ho)
  · intro h k i id w o hi hiss hsup ho
    obtain ⟨c, o', -, ho', -, hact⟩ := hiss.2
    cases ho.symm.trans ho'
    exact (noEffect_iff hl hlaw ho hact).mpr (h k i id w hi hiss hsup)

/-- In a trace where no two executions of a job carry the same identifier, executions are distinguished. -/
theorem distinguished_of_distinct {issuer : Nat → Option Nat}
    (h : ∀ (i j : Nat) (c c' : Observed) (id w w' : Ident), i < j → T[i]? = some c → T[j]? = some c' →
      c.handed = some (id, w) → c'.handed = some (id, w') → w ≠ w') : Distinguished T issuer := by
  rintro k i id w - ⟨-, c, -, hc, -, hcw, -⟩ ⟨j, c', w', hij, hjk, hc', hcw'⟩ ⟨hlast, -⟩
  rcases lastClaimant_spec hlast with ⟨hnone, -⟩ | ⟨m, d, hm, hd, hafter⟩
  · cases hnone
  · obtain ⟨hmk, -⟩ := List.getElem?_eq_some_iff.mp hm
    have hmk' : m < k := (List.length_take_le k T).trans_lt' hmk
    have hmT : T[m]? = some d := by rwa [List.getElem?_take_of_lt hmk'] at hm
    have hjm : j ≤ m := by
      by_contra hlt
      exact hafter j c' (by omega) (by rwa [List.getElem?_take_of_lt hjk]) w' hcw'
    exact h i m c d id w w (by omega) hc hmT hcw hd rfl

/-- In a fenced trace, a call that was accepted comes from the execution that the job was last handed to. -/
theorem Fenced.accepted_last {issuer : Nat → Option Nat} (h : Fenced T issuer) {k i : Nat} {id w : Ident} {o : Observed}
    (hi : issuer k = some i) (hiss : Issues T i k id w) (ho : T[k]? = some o) (hacc : o.accepted = true) :
    ¬ Superseded T i k id := by
  intro hsup
  have := (h k i id w o hi hiss hsup ho).1
  rw [hacc] at this
  cases this

end JobStore

end XbowPerso
