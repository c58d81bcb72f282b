import XbowPerso.ObserverLease

/-!
# Leadership and its fence

A generation has one owner: it moves up whenever an observer becomes the owner. So a token of a lease that another observer has
acquired since is of an older generation, and the fence refuses it.
-/

namespace XbowPerso

namespace ObserverLease

variable {s : State} {owner : String} {generation : Int}

/-! ## What a call does to the lease -/

/-- A call leaves owner and generation alone, or makes an observer the owner, or leaves nobody the owner of the same generation. -/
theorem call_cases (s : State) (c : Call) :
    ((call s c).1.lease.owner = s.lease.owner ∧ (call s c).1.lease.generation = s.lease.generation) ∨
    (∃ owner, s.lease.owner ≠ some owner ∧ (call s c).1.lease.owner = some owner ∧
      (call s c).1.lease.generation = s.lease.generation + 1) ∨
    ((call s c).1.lease.owner = none ∧ (call s c).1.lease.generation = s.lease.generation) := by
  cases c with
  | acquire owner ttlSeconds now =>
    simp only [call, acquire]
    split
    · exact .inl ⟨rfl, rfl⟩
    · split
      · exact .inl ⟨rfl, rfl⟩
      · split
        · exact .inl ⟨rfl, rfl⟩
        · split
          · exact .inl ⟨rfl, rfl⟩
          · by_cases hsame : s.lease.owner = some owner
            · refine .inl ⟨hsame.symm, ?_⟩
              simp [hsame]
            · refine .inr (.inl ⟨owner, hsame, rfl, ?_⟩)
              simp [hsame]
  | heartbeat owner generation ttlSeconds now =>
    simp only [call, heartbeat]
    split
    · exact .inl ⟨rfl, rfl⟩
    · split
      · exact .inl ⟨rfl, rfl⟩
      · exact .inl ⟨rfl, rfl⟩
  | release owner generation =>
    simp only [call, release]
    split
    · exact .inr (.inr ⟨rfl, rfl⟩)
    · exact .inl ⟨rfl, rfl⟩
  | write document expectedVersion fenceOwner fenceGeneration now =>
    have hupdate : (update s document expectedVersion).1.lease = s.lease := by
      unfold update
      split
      · rfl
      · rfl
    refine .inl ?_
    simp only [call, write]
    split
    · exact ⟨rfl, rfl⟩
    · split
      · rw [hupdate]
        exact ⟨rfl, rfl⟩
      · split
        · exact ⟨rfl, rfl⟩
        · split
          · exact ⟨rfl, rfl⟩
          · rw [hupdate]
            exact ⟨rfl, rfl⟩
      · exact ⟨rfl, rfl⟩

/-! ## A generation has one owner -/

/-- From a lease of an owner on: its generation is over, or nobody else owns it. -/
def HeldSince (owner : String) (generation : Int) (s : State) : Prop :=
  generation < s.lease.generation ∨ generation = s.lease.generation ∧ ∀ other, s.lease.owner = some other → other = owner

theorem HeldSince.call (h : HeldSince owner generation s) (c : Call) : HeldSince owner generation (call s c).1 := by
  rcases call_cases s c with ⟨howner, hgen⟩ | ⟨other, -, -, hgen⟩ | ⟨howner, hgen⟩
  · unfold HeldSince
    rw [howner, hgen]
    exact h
  · refine .inl ?_
    rw [hgen]
    rcases h with h | ⟨h, -⟩
    · omega
    · omega
  · unfold HeldSince
    rw [howner, hgen]
    exact h.imp_right fun ⟨h, _⟩ => ⟨h, fun _ hnone => absurd hnone.symm (Option.some_ne_none _)⟩

theorem HeldSince.run (h : HeldSince owner generation s) (calls : List Call) : HeldSince owner generation (run s calls) := by
  induction calls generalizing s with
  | nil => exact h
  | cons c calls ih => exact ih (h.call c)

/-- A generation that is over stays over. -/
theorem over_call (h : generation < s.lease.generation) (c : Call) : generation < (call s c).1.lease.generation := by
  rcases call_cases s c with ⟨-, hgen⟩ | ⟨_, -, -, hgen⟩ | ⟨-, hgen⟩
  · rwa [hgen]
  · rw [hgen]
    omega
  · rwa [hgen]

theorem over_run (h : generation < s.lease.generation) (calls : List Call) : generation < (run s calls).lease.generation := by
  induction calls generalizing s with
  | nil => exact h
  | cons c calls ih => exact ih (over_call h c)

theorem heldSince_of_owner (h : s.lease.owner = some owner) : HeldSince owner s.lease.generation s :=
  .inr ⟨rfl, fun _ hother => (Option.some.inj (h.symm.trans hother)).symm⟩

/-- An owner other than the one of an earlier moment is of a later generation. -/
theorem lt_of_other_owner {other : String} (h : s.lease.owner = some owner) (calls : List Call)
    (hother : (run s calls).lease.owner = some other) (hne : owner ≠ other) :
    s.lease.generation < (run s calls).lease.generation := by
  rcases (heldSince_of_owner h).run calls with hlt | ⟨-, honly⟩
  · exact hlt
  · exact absurd (honly other hother).symm hne

/-! ## The fence -/

/-- An observer that acquires the lease owns it, in the generation that it is told. -/
theorem acquire_granted {ttlSeconds : Int} {now : PyDateTime}
    (h : (call s (.acquire owner ttlSeconds now)).2 = .ok (.generation (some generation))) :
    (call s (.acquire owner ttlSeconds now)).1.lease.owner = some owner ∧
      (call s (.acquire owner ttlSeconds now)).1.lease.generation = generation := by
  simp only [call, acquire] at h ⊢
  split at h
  · cases h
  split at h
  · cases h
  split at h
  · cases h
  split at h
  · cases h
  rename_i howner httl _ _ hadd hfree
  rw [if_neg howner, if_neg httl, if_neg hfree]
  simpa using h

/-- A write whose fence is of another generation leaves the database as it is. -/
theorem write_refused (hgen : s.lease.generation ≠ generation) (document : String) (expectedVersion : Int) (now : PyDateTime) :
    (call s (.write document expectedVersion (some owner) (some generation) now)).1 = s ∧
      ∀ v, (call s (.write document expectedVersion (some owner) (some generation) now)).2 ≠ .ok (.version v) := by
  simp only [call, write]
  split
  · exact ⟨rfl, fun v h => by cases h⟩
  · split
    · exact ⟨rfl, fun v h => by cases h⟩
    · rw [if_pos (.inr (.inl hgen))]
      exact ⟨rfl, fun v h => by cases h⟩

theorem isCurrent_iff {lease : Lease} {now : PyDateTime} (h : isCurrent lease owner generation now = true) :
    lease.owner = some owner ∧ lease.generation = generation := by
  unfold isCurrent at h
  rw [Bool.and_eq_true, Bool.and_eq_true, decide_eq_true_iff, decide_eq_true_iff] at h
  exact h.1

/-- In every run: the generation goes up with every new owner, no two owners are ever current in one generation, and after another
observer has acquired the lease no write with the older token commits. -/
theorem lease_fencing (s : State) (calls : List Call) :
    (∀ c owner, (call s c).1.lease.owner = some owner → s.lease.owner ≠ some owner →
      s.lease.generation < (call s c).1.lease.generation) ∧
    (∀ owner other, s.lease.owner = some owner → (run s calls).lease.owner = some other → owner ≠ other →
      s.lease.generation < (run s calls).lease.generation) ∧
    (∀ owner generation now other generation' now', isCurrent s.lease owner generation now = true →
      isCurrent (run s calls).lease other generation' now' = true →
        (owner = other ∨ generation < generation') ∧ (calls = [] → owner = other ∧ generation = generation')) ∧
    (∀ owner ttlSeconds now generation other ttlSeconds' now' generation' later,
      (call s (.acquire owner ttlSeconds now)).2 = .ok (.generation (some generation)) → other ≠ owner →
      (call (run (call s (.acquire owner ttlSeconds now)).1 calls) (.acquire other ttlSeconds' now')).2 =
        .ok (.generation (some generation')) →
      ∀ document expectedVersion time,
        let t := run (call (run (call s (.acquire owner ttlSeconds now)).1 calls) (.acquire other ttlSeconds' now')).1 later
        (call t (.write document expectedVersion (some owner) (some generation) time)).1 = t ∧
          ∀ v, (call t (.write document expectedVersion (some owner) (some generation) time)).2 ≠ .ok (.version v)) := by
  refine ⟨?_, fun owner other howner hother hne => lt_of_other_owner howner calls hother hne, ?_, ?_⟩
  · intro c owner hnext hbefore
    rcases call_cases s c with ⟨howner, -⟩ | ⟨_, -, -, hgen⟩ | ⟨howner, -⟩
    · exact absurd (howner.symm.trans hnext) hbefore
    · rw [hgen]
      omega
    · rw [howner] at hnext
      cases hnext
  · intro owner generation now other generation' now' hcurrent hcurrent'
    obtain ⟨howner, rfl⟩ := isCurrent_iff hcurrent
    obtain ⟨hother, rfl⟩ := isCurrent_iff hcurrent'
    refine ⟨?_, ?_⟩
    · by_cases hne : owner = other
      · exact .inl hne
      · exact .inr (lt_of_other_owner howner calls hother hne)
    · rintro rfl
      exact ⟨Option.some.inj (howner.symm.trans hother), rfl⟩
  · intro owner ttlSeconds now generation other ttlSeconds' now' generation' later hacquired hne hother document expectedVersion time
    obtain ⟨howner, hgen⟩ := acquire_granted hacquired
    obtain ⟨hother', -⟩ := acquire_granted hother
    have hheld := ((heldSince_of_owner howner).run calls).call (.acquire other ttlSeconds' now')
    rw [hgen] at hheld
    have hover : generation < _ := hheld.resolve_right fun ⟨_, honly⟩ => hne (honly other hother')
    exact write_refused (ne_of_gt (over_run hover later)) document expectedVersion time

/-! ## A takeover -/

def sampleTime (seconds : Nat) : PyDateTime := ⟨63871200000000000 + seconds * 1000000⟩

/-- The first observer's lease has expired when the second one acquires it. -/
theorem lease_fencing_sample :
    let t := (call (call .init (.acquire "observer-a" 10 (sampleTime 0))).1 (.acquire "observer-b" 10 (sampleTime 11))).1
    ∀ v, (call t (.write "[]" 1 (some "observer-a") (some 1) (sampleTime 12))).2 ≠ .ok (.version v) := by
  have hfirst : (call .init (.acquire "observer-a" 10 (sampleTime 0))).2 = .ok (.generation (some 1)) := by decide +kernel
  have hsecond : (call (call .init (.acquire "observer-a" 10 (sampleTime 0))).1 (.acquire "observer-b" 10 (sampleTime 11))).2 =
      .ok (.generation (some 2)) := by decide +kernel
  obtain ⟨-, -, -, hfence⟩ := lease_fencing .init []
  exact (hfence "observer-a" 10 (sampleTime 0) 1 "observer-b" 10 (sampleTime 11) 2 [] hfirst (by decide) hsecond "[]" 1
    (sampleTime 12)).2

end ObserverLease

end XbowPerso
