import XbowPerso.HackerOneBatch

/-!
# Cancelling a batch

Once a batch is stored as cancelled it stays as it is, and the campaigns of its members have ended and are not started again, in every
interleaving in which the cancellation leaves no member behind: it marks a member as cancelled also when its campaign could not be
cancelled.
-/

namespace XbowPerso

namespace HackerOneBatch

open Outbox (CampaignState)

/-! ## Campaigns that have ended -/

/-- `completed` and `cancelled`; a failed campaign can be started again. -/
def Over : CampaignState → Bool
  | .completed | .cancelled => true
  | _ => false

/-- The campaign has ended, if there is one. -/
def Ended (s : System) (id : String) : Prop := ∀ stored, s.campaigns id = some stored → Over stored.state = true

/-- The members that a cancellation has visited. -/
def Phase.passed : Phase → List Member
  | .cancelling _ _ visited _ => visited
  | .cancellingMember _ _ visited _ _ _ => visited
  | .saving _ batch => if batch.state = .cancelled then batch.members else []
  | _ => []

variable {version : Nat} {batch : Batch}

theorem passed_saving_of_cancelled (h : batch.state = .cancelled) :
    (Phase.saving version batch).passed = batch.members := if_pos h

theorem passed_saving_of_ne (h : batch.state ≠ .cancelled) :
    (Phase.saving version batch).passed = [] := if_neg h

/-- The batch is cancelled, or a cancellation under way is past a member with the campaign. -/
def Passed (s : System) (id : String) : Prop :=
  (s.batch.state = .cancelled ∧ id ∈ s.batch.members.map Member.campaignId) ∨ ∃ h, id ∈ (s.phase h).passed.map Member.campaignId

/-- The members that a phase holds. -/
def Phase.members : Phase → Option (List Member)
  | .finishing _ _ visited rest _ => some (visited ++ rest)
  | .starting _ _ visited rest _ => some (visited ++ rest)
  | .startingMember _ _ visited member rest => some (visited ++ member :: rest)
  | .savingStart _ _ visited member rest _ => some (visited ++ member :: rest)
  | .saving _ batch => some batch.members
  | .cancelling _ _ visited rest => some (visited ++ rest)
  | .cancellingMember _ _ visited member rest _ => some (visited ++ member :: rest)
  | _ => none

/-- The phase is about to save a campaign as running. -/
def Phase.savesStart : Phase → Bool
  | .savingStart .. => true
  | _ => false

/-- The version of the batch that a phase has read. -/
def Phase.readVersion : Phase → Option Nat
  | .finishing version _ _ _ _ => some version
  | .starting version _ _ _ _ => some version
  | .startingMember version _ _ _ _ => some version
  | .savingStart version _ _ _ _ _ => some version
  | .saving version _ => some version
  | .cancelling version _ _ _ => some version
  | .cancellingMember version _ _ _ _ _ => some version
  | _ => none

/-! ## The invariant -/

/-- What holds of everyone under way, with the campaigns of the batch. -/
structure PhaseOk (ids : List String) (s : System) (p : Phase) : Prop where
  members : ∀ ms, p.members = some ms → ms.map Member.campaignId = ids
  versions : ∀ v, p.readVersion = some v → v ≤ s.batchVersion ∧ (v = s.batchVersion → s.batch.state ≠ .cancelled)
  edit : ∀ id version state, p = .editing id version state → ∀ stored, s.campaigns id = some stored →
    version ≤ stored.version ∧ (version = stored.version → stored.state = .cancelled → Over state = true)
  start : ∀ version batch visited m rest campaignVersion, p = .savingStart version batch visited m rest campaignVersion →
    ∀ stored, s.campaigns m.campaignId = some stored →
      campaignVersion ≤ stored.version ∧ (campaignVersion = stored.version → Over stored.state = false)
  passed : ∀ m ∈ p.passed, Ended s m.campaignId

structure Inv (ids : List String) (s : System) : Prop where
  phases : ∀ h, PhaseOk ids s (s.phase h)
  batch : s.batch.members.map Member.campaignId = ids
  cancelled : s.batch.state = .cancelled → ∀ m ∈ s.batch.members, Ended s m.campaignId

variable {ids : List String} {s : System}

theorem phaseOk_idle : PhaseOk ids s .idle := by
  refine ⟨fun _ h => ?_, fun _ h => ?_, fun _ _ _ h => ?_, fun _ _ _ _ _ _ h => ?_, fun _ h => ?_⟩
  all_goals cases h

variable {p : Phase}

/-- A phase that holds no campaign that was read. -/
theorem phaseOk_of_batch {v : Nat} {ms : List Member} (hmembers : p.members = some ms) (hids : ms.map Member.campaignId = ids)
    (hread : p.readVersion = some v) (hversion : v ≤ s.batchVersion ∧ (v = s.batchVersion → s.batch.state ≠ .cancelled))
    (hstart : p.savesStart = false) (hpassed : ∀ m ∈ p.passed, Ended s m.campaignId) : PhaseOk ids s p := by
  refine ⟨fun ms' h => ?_, fun v' h => ?_, fun id version state h => ?_,
    fun version batch visited m rest campaignVersion h => ?_, hpassed⟩
  · rw [hmembers] at h
    rw [← Option.some.inj h]
    exact hids
  · rw [hread] at h
    rw [← Option.some.inj h]
    exact hversion
  · rw [h] at hread
    cases hread
  · rw [h] at hstart
    cases hstart

/-- A phase of a reconciler: no cancellation is past a member. -/
theorem phaseOk_of_reconciler {v : Nat} {ms : List Member} (hmembers : p.members = some ms)
    (hids : ms.map Member.campaignId = ids) (hread : p.readVersion = some v)
    (hversion : v ≤ s.batchVersion ∧ (v = s.batchVersion → s.batch.state ≠ .cancelled)) (hstart : p.savesStart = false)
    (hpassed : p.passed = []) : PhaseOk ids s p := by
  refine phaseOk_of_batch hmembers hids hread hversion hstart fun m hm => ?_
  rw [hpassed] at hm
  cases hm

variable {id : String}

theorem Inv.ended_of_passed (h : Inv ids s) (hpassed : Passed s id) : Ended s id := by
  rcases hpassed with ⟨hcancelled, hmem⟩ | ⟨i, hmem⟩
  · obtain ⟨m, hm, rfl⟩ := List.mem_map.mp hmem
    exact h.cancelled hcancelled m hm
  · obtain ⟨m, hm, rfl⟩ := List.mem_map.mp hmem
    exact (h.phases i).passed m hm

theorem phase_setPhase_self (s : System) (i : Nat) (p : Phase) : (s.setPhase i p).phase i = p := Function.update_self ..

variable {i : Nat}

theorem phase_setPhase_of_ne (s : System) {j : Nat} (h : j ≠ i) (p : Phase) : (s.setPhase i p).phase j = s.phase j :=
  Function.update_of_ne h ..

theorem Inv.setPhase (h : Inv ids s) (hp : PhaseOk ids s p) : Inv ids (s.setPhase i p) := by
  refine ⟨fun j => ?_, h.batch, h.cancelled⟩
  by_cases hj : j = i
  · rw [hj, phase_setPhase_self]
    exact ⟨hp.members, hp.versions, hp.edit, hp.start, hp.passed⟩
  · rw [phase_setPhase_of_ne s hj]
    exact ⟨(h.phases j).members, (h.phases j).versions, (h.phases j).edit, (h.phases j).start, (h.phases j).passed⟩

/-! ## Saves -/

/-- A save of a campaign that opens no campaign that a cancellation is past. -/
theorem Inv.saveCampaign (h : Inv ids s) {state : CampaignState}
    (hsave : ∀ stored, s.campaigns id = some stored → version = stored.version → Passed s id → Over state = true) :
    Inv ids (s.saveCampaign id version state) := by
  unfold System.saveCampaign
  split
  · rename_i stored hstored
    split
    · rename_i hversion
      have hended : ∀ id', Passed s id' →
          Ended { s with campaigns := Function.update s.campaigns id (some ⟨version + 1, state⟩) } id' := by
        intro id' hpassed stored' hstored'
        dsimp only at hstored'
        by_cases hid : id' = id
        · subst hid
          rw [Function.update_self] at hstored'
          rw [← Option.some.inj hstored']
          exact hsave stored hstored hversion hpassed
        · rw [Function.update_of_ne hid] at hstored'
          exact h.ended_of_passed hpassed stored' hstored'
      refine ⟨fun i => ⟨(h.phases i).members, (h.phases i).versions, fun id' version' state' hphase stored' hstored' => ?_,
        fun _ _ _ m _ campaignVersion hphase stored' hstored' => ?_, fun m hm => ?_⟩, h.batch, fun hcancelled m hm => ?_⟩
      · dsimp only at hstored'
        by_cases hid : id' = id
        · -- whoever has read the campaign before is behind now
          subst hid
          rw [Function.update_self] at hstored'
          have hle := ((h.phases i).edit _ _ _ hphase stored hstored).1
          rw [← Option.some.inj hstored']
          dsimp only
          exact ⟨by omega, fun heq => by omega⟩
        · rw [Function.update_of_ne hid] at hstored'
          exact (h.phases i).edit _ _ _ hphase stored' hstored'
      · dsimp only at hstored'
        by_cases hid : m.campaignId = id
        · subst hid
          rw [Function.update_self] at hstored'
          have hle := ((h.phases i).start _ _ _ _ _ _ hphase stored hstored).1
          rw [← Option.some.inj hstored']
          dsimp only
          exact ⟨by omega, fun heq => by omega⟩
        · rw [Function.update_of_ne hid] at hstored'
          exact (h.phases i).start _ _ _ _ _ _ hphase stored' hstored'
      · exact hended _ (.inr ⟨i, List.mem_map_of_mem hm⟩)
      · exact hended _ (.inl ⟨hcancelled, List.mem_map_of_mem hm⟩)
    · exact h
  · exact h

theorem phase_saveCampaign (s : System) (id : String) (version : Nat) (state : CampaignState) :
    (s.saveCampaign id version state).phase = s.phase := by
  unfold System.saveCampaign
  split
  · split
    · rfl
    · rfl
  · rfl

theorem setPhase_saveCampaign (s : System) (i : Nat) (p : Phase) (id : String) (version : Nat) (state : CampaignState) :
    (s.setPhase i p).saveCampaign id version state = (s.saveCampaign id version state).setPhase i p := by
  unfold System.saveCampaign System.setPhase
  dsimp only
  split
  · split
    · rfl
    · rfl
  · rfl

/-- A cancellation that is not overtaken ends the campaign. -/
theorem ended_saveCampaign
    (h : (s.campaigns id).map Stored.version ≠ some version → Ended s id) : Ended (s.saveCampaign id version .cancelled) id := by
  unfold System.saveCampaign
  split
  · rename_i stored hstored
    split
    · intro stored' hstored'
      dsimp only at hstored'
      rw [Function.update_self] at hstored'
      rw [← Option.some.inj hstored']
      rfl
    · rename_i hversion
      refine h fun heq => hversion ?_
      rw [hstored] at heq
      exact (Option.some.inj heq).symm
  · rename_i hnone
    intro stored hstored
    rw [hnone] at hstored
    cases hstored

/-- A save of the batch: if it stores it as cancelled, its campaigns have ended. -/
theorem Inv.saveBatch (h : Inv ids s) (hids : batch.members.map Member.campaignId = ids)
    (hended : batch.state = .cancelled → ∀ m ∈ batch.members, Ended s m.campaignId) : Inv ids (s.saveBatch version batch) := by
  unfold System.saveBatch
  split
  · refine ⟨fun i => ⟨(h.phases i).members, fun v hv => ?_, (h.phases i).edit, (h.phases i).start, (h.phases i).passed⟩, hids,
      hended⟩
    have hle := ((h.phases i).versions v hv).1
    dsimp only
    exact ⟨by omega, fun heq => by omega⟩
  · exact h

theorem batchState_ne_cancelled (members : List Member) : batchState members ≠ .cancelled := by
  unfold batchState
  split
  · decide
  · split
    · decide
    · decide

/-! ## One step -/

/-- A step leaves no member behind: the cancellation marks a member only when its campaign has ended, and no scan saves its results over a
completed campaign that a cancellation is past. -/
def StepOk (s : System) : Action → Prop
  | .save h => ∀ id version state, s.phase h = .editing id version state → ∀ stored, s.campaigns id = some stored →
      version = stored.version → stored.state = .completed → Passed s id → Over state = true
  | .cancelMember h raises => ∀ version batch visited m rest, s.phase h = .cancelling version batch visited (m :: rest) →
      (m.status.skipped = true ∨ raises.isSome = true) → Ended s m.campaignId
  | .saveCancelled h _ => ∀ version batch visited m rest campaignVersion,
      s.phase h = .cancellingMember version batch visited m rest campaignVersion →
      (s.campaigns m.campaignId).map Stored.version ≠ some campaignVersion → Ended s m.campaignId
  | _ => True

/-- A campaign that was read when it was cancelled is not saved with another state. -/
theorem over_of_apply {op : Operation} {state next : CampaignState} (h : op.apply state = some next) (hstate : state = .cancelled) :
    Over next = true := by
  subst hstate
  cases op with
  | keep =>
    cases h
    rfl
  | complete => cases h
  | ensureCompletionReport =>
    cases h
    rfl
  | _ => cases h

theorem campaignId_started (m : Member) (result : MemberStatus × Option String) : (m.started result).campaignId = m.campaignId := by
  unfold Member.started scheduleRetry
  split
  · dsimp only
    split
    · rfl
    · rfl
  · rfl

variable {m : Member}

variable {m' : Member}

/-- A member in its place. -/
theorem map_replace (visited rest : List Member) (h : m'.campaignId = m.campaignId) :
    (visited ++ m' :: rest).map Member.campaignId = (visited ++ m :: rest).map Member.campaignId := by
  rw [List.map_append, List.map_append, List.map_cons, List.map_cons, h]

theorem map_visit (visited rest : List Member) (h : m'.campaignId = m.campaignId) :
    ((visited ++ [m']) ++ rest).map Member.campaignId = (visited ++ m :: rest).map Member.campaignId := by
  rw [List.append_assoc, List.singleton_append, map_replace visited rest h]

/-- The start of a member has ended. -/
theorem Inv.tried (h : Inv ids s) {visited rest : List Member}
    {result : MemberStatus × Option String} (hids : (visited ++ m :: rest).map Member.campaignId = ids)
    (hversion : version ≤ s.batchVersion ∧ (version = s.batchVersion → s.batch.state ≠ .cancelled)) :
    Inv ids (s.tried i version batch visited m rest result) := by
  unfold System.tried
  split
  · refine h.setPhase (phaseOk_of_reconciler rfl ?_ rfl hversion rfl rfl)
    rw [List.append_nil, map_replace visited rest (campaignId_started m result)]
    exact hids
  · exact h.setPhase (phaseOk_of_reconciler rfl ((map_visit visited rest (campaignId_started m result)).trans hids) rfl hversion rfl rfl)

/-- A cancellation comes past a member whose campaign has ended. -/
theorem phaseOk_visit {visited rest : List Member}
    (hids : (visited ++ m :: rest).map Member.campaignId = ids)
    (hversion : version ≤ s.batchVersion ∧ (version = s.batchVersion → s.batch.state ≠ .cancelled))
    (hpassed : ∀ x ∈ visited, Ended s x.campaignId) (hid : m'.campaignId = m.campaignId) (hended : Ended s m.campaignId) :
    PhaseOk ids s (.cancelling version batch (visited ++ [m']) rest) := by
  refine phaseOk_of_batch rfl ((map_visit visited rest hid).trans hids) rfl hversion rfl fun x hx => ?_
  rcases List.mem_append.mp hx with hold | hnew
  · exact hpassed x hold
  · rw [List.mem_singleton.mp hnew, hid]
    exact hended

theorem Inv.cancelMember (h : Inv ids s) {raises : Option String} (hok : StepOk s (.cancelMember i raises)) :
    Inv ids (step s (.cancelMember i raises)) := by
  have hphase := h.phases i
  unfold step
  dsimp only
  split
  · rename_i version batch visited heq
    rw [heq] at hphase
    have hids := hphase.members _ rfl
    rw [List.append_nil] at hids
    refine h.setPhase (phaseOk_of_batch rfl hids rfl (hphase.versions _ rfl) rfl fun m hm => ?_)
    rw [passed_saving_of_cancelled rfl] at hm
    exact hphase.passed m hm
  · rename_i version batch visited m rest heq
    have hcond := hok _ _ _ _ _ heq
    rw [heq] at hphase
    have hvisit : ∀ m', m'.campaignId = m.campaignId → Ended s m.campaignId →
        Inv ids (s.setPhase i (.cancelling version batch (visited ++ [m']) rest)) := fun m' hid hended =>
      h.setPhase (phaseOk_visit (hphase.members _ rfl) (hphase.versions _ rfl) hphase.passed hid hended)
    split
    · rename_i hskipped
      exact hvisit m rfl (hcond (.inl hskipped))
    split
    · rename_i hnone
      refine hvisit _ rfl fun stored hstored => ?_
      rw [hnone] at hstored
      cases hstored
    rename_i stored hstored
    have hended : Over stored.state = true → Ended s m.campaignId := fun hover stored' hstored' => by
      rw [hstored] at hstored'
      rw [← Option.some.inj hstored']
      exact hover
    split
    · rename_i hcompleted
      exact hvisit _ rfl (hended (by rw [hcompleted]; rfl))
    split
    · rename_i hcancelled
      rcases hcancelled with hcancelled | hraises
      · exact hvisit _ rfl (hended (by rw [hcancelled]; rfl))
      · exact hvisit _ rfl (hcond (.inr hraises))
    · exact h.setPhase (phaseOk_of_batch rfl (hphase.members _ rfl) rfl (hphase.versions _ rfl) rfl hphase.passed)
  · exact h

theorem Inv.saveCancelled (h : Inv ids s) {raises : Option String} (hok : StepOk s (.saveCancelled i raises)) :
    Inv ids (step s (.saveCancelled i raises)) := by
  unfold step
  dsimp only
  split
  · rename_i version batch visited m rest campaignVersion heq
    rw [setPhase_saveCampaign]
    have hsaved : Inv ids (s.saveCampaign m.campaignId campaignVersion .cancelled) := h.saveCampaign fun _ _ _ _ => rfl
    have hphase := hsaved.phases i
    rw [phase_saveCampaign, heq] at hphase
    exact hsaved.setPhase (phaseOk_visit (hphase.members _ rfl) (hphase.versions _ rfl) hphase.passed rfl
      (ended_saveCampaign (hok _ _ _ _ _ _ heq)))
  · exact h

theorem Inv.step (h : Inv ids s) {a : Action} (hok : StepOk s a) : Inv ids (step s a) := by
  unfold HackerOneBatch.step
  cases a with
  | read i id op =>
    dsimp only
    split
    · rename_i stored hphase hstored
      split
      · exact h
      rename_i state hstate
      refine h.setPhase ⟨fun _ heq => (by cases heq), fun _ heq => (by cases heq),
        fun id' version' state' heq stored' hstored' => ?_, fun _ _ _ _ _ _ heq => (by cases heq), fun _ hm => (by cases hm)⟩
      cases heq
      rw [hstored] at hstored'
      rw [← Option.some.inj hstored']
      exact ⟨Nat.le_refl _, fun _ hcancelled => over_of_apply hstate hcancelled⟩
    · exact h
  | save i =>
    have hedit := (h.phases i).edit
    dsimp only
    split
    · rename_i id version state hphase
      refine Inv.saveCampaign (h.setPhase phaseOk_idle) fun stored hstored hversion hpassed => ?_
      have hbefore : Passed s id := by
        rcases hpassed with hbatch | ⟨j, hj⟩
        · exact .inl hbatch
        · by_cases hij : j = i
          · rw [hij, phase_setPhase_self] at hj
            cases hj
          · rw [phase_setPhase_of_ne s hij] at hj
            exact .inr ⟨j, hj⟩
      have hover := h.ended_of_passed hbefore stored hstored
      -- a completed campaign is left to the condition; a cancelled one was read as cancelled
      by_cases hcompleted : stored.state = .completed
      · exact hok id version state hphase stored hstored hversion hcompleted hbefore
      · refine (hedit id version state hphase stored hstored).2 hversion ?_
        cases hstate : stored.state with
        | completed => exact absurd hstate hcompleted
        | cancelled => rfl
        | _ =>
          rw [hstate] at hover
          cases hover
    · exact h
  | reconcile i =>
    dsimp only
    split
    · split
      · exact h
      rename_i hopen
      exact h.setPhase (phaseOk_of_reconciler rfl h.batch rfl ⟨Nat.le_refl _, fun _ hcancelled => hopen (.inr hcancelled)⟩ rfl rfl)
    · exact h
  | finish i counts =>
    have hphase := h.phases i
    dsimp only
    split
    · rename_i heq
      rw [heq] at hphase
      have hids := hphase.members _ rfl
      rw [List.append_nil] at hids
      exact h.setPhase (phaseOk_of_reconciler rfl hids rfl (hphase.versions _ rfl) rfl rfl)
    · rename_i version batch visited m rest changed heq
      rw [heq] at hphase
      have hvisit : ∀ m' changed', m'.campaignId = m.campaignId →
          Inv ids (s.setPhase i (.finishing version batch (visited ++ [m']) rest changed')) := fun m' changed' hid =>
        h.setPhase
          (phaseOk_of_reconciler rfl ((map_visit visited rest hid).trans (hphase.members _ rfl)) rfl (hphase.versions _ rfl) rfl rfl)
      split
      · split
        · exact hvisit _ _ rfl
        · exact hvisit _ _ rfl
      · exact hvisit _ _ rfl
    · exact h
  | start i c =>
    have hphase := h.phases i
    dsimp only
    split
    · rename_i version batch visited changed heq
      rw [heq] at hphase
      have hids := hphase.members _ rfl
      rw [List.append_nil] at hids
      split
      · exact h.setPhase phaseOk_idle
      · refine h.setPhase (phaseOk_of_batch rfl hids rfl (hphase.versions _ rfl) rfl fun m hm => ?_)
        rw [passed_saving_of_ne (batchState_ne_cancelled visited)] at hm
        cases hm
    · rename_i version batch visited m rest changed heq
      rw [heq] at hphase
      split
      · exact h.setPhase
          (phaseOk_of_reconciler rfl ((map_visit visited rest rfl).trans (hphase.members _ rfl)) rfl (hphase.versions _ rfl) rfl rfl)
      split
      · split
        · refine h.setPhase (phaseOk_of_reconciler rfl ?_ rfl (hphase.versions _ rfl) rfl rfl)
          rw [List.append_nil]
          exact hphase.members _ rfl
        · exact h.setPhase
            (phaseOk_of_reconciler rfl ((map_visit visited rest rfl).trans (hphase.members _ rfl)) rfl (hphase.versions _ rfl) rfl rfl)
      split
      · exact h.setPhase (phaseOk_of_reconciler rfl (hphase.members _ rfl) rfl (hphase.versions _ rfl) rfl rfl)
      · exact h.tried (hphase.members _ rfl) (hphase.versions _ rfl)
    · exact h
  | readStart i ends detail =>
    have hphase := h.phases i
    dsimp only
    split
    · rename_i version batch visited m rest heq
      rw [heq] at hphase
      split
      · exact h.tried (hphase.members _ rfl) (hphase.versions _ rfl)
      split
      · exact h.tried (hphase.members _ rfl) (hphase.versions _ rfl)
      rename_i stored hstored
      split
      · rename_i hstate
        refine h.setPhase ⟨hphase.members, hphase.versions, fun _ _ _ heq => (by cases heq),
          fun _ _ _ _ _ _ heq stored' hstored' => ?_, fun _ hm => (by cases hm)⟩
        cases heq
        rw [hstored] at hstored'
        rw [← Option.some.inj hstored']
        refine ⟨Nat.le_refl _, fun _ => ?_⟩
        rcases hstate with hstate | hstate | hstate
        · rw [hstate]
          rfl
        · rw [hstate]
          rfl
        · rw [hstate]
          rfl
      · exact h.tried (hphase.members _ rfl) (hphase.versions _ rfl)
    · exact h
  | saveStart i =>
    have hphase := h.phases i
    dsimp only
    split
    · rename_i version batch visited m rest campaignVersion heq
      rw [heq] at hphase
      split
      · have hsaved : Inv ids (s.saveCampaign m.campaignId campaignVersion .running) := by
          refine h.saveCampaign fun stored hstored hversion hpassed => ?_
          -- the campaign was open when it was read, and is as it was read
          have hopen := (hphase.start _ _ _ _ _ _ rfl stored hstored).2 hversion
          rw [h.ended_of_passed hpassed stored hstored] at hopen
          cases hopen
        have hphase' := hsaved.phases i
        rw [phase_saveCampaign, heq] at hphase'
        exact hsaved.tried (hphase'.members _ rfl) (hphase'.versions _ rfl)
      · exact h.setPhase (phaseOk_of_reconciler rfl (hphase.members _ rfl) rfl (hphase.versions _ rfl) rfl rfl)
    · exact h
  | saveBatch i =>
    have hphase := h.phases i
    dsimp only
    split
    · rename_i version batch heq
      rw [heq] at hphase
      refine Inv.saveBatch (h.setPhase phaseOk_idle) (hphase.members _ rfl) fun hcancelled m hm => hphase.passed m ?_
      rw [passed_saving_of_cancelled hcancelled]
      exact hm
    · exact h
  | cancelBatch i =>
    dsimp only
    split
    · split
      · exact h
      rename_i hopen
      exact h.setPhase (phaseOk_of_reconciler rfl h.batch rfl ⟨Nat.le_refl _, fun _ hcancelled => hopen hcancelled⟩ rfl rfl)
    · exact h
  | cancelMember i raises => exact h.cancelMember hok
  | saveCancelled i raises => exact h.saveCancelled hok
  | crash i => exact h.setPhase phaseOk_idle

/-! ## Every run -/

/-- A run whose every step leaves no member behind. -/
def CompleteRun : System → List Action → Prop
  | _, [] => True
  | s, a :: l => StepOk s a ∧ CompleteRun (step s a) l

/-- Nothing is under way, and the batch is not cancelled. -/
structure Fresh (s : System) : Prop where
  idle : ∀ h, s.phase h = .idle
  isOpen : s.batch.state ≠ .cancelled

theorem inv_of_fresh (h : Fresh s) : Inv (s.batch.members.map Member.campaignId) s := by
  refine ⟨fun i => ?_, rfl, fun hcancelled => absurd hcancelled h.isOpen⟩
  rw [h.idle i]
  exact phaseOk_idle

variable {l : List Action}

theorem inv_of_run (h : Inv ids s) (hrun : CompleteRun s l) : Inv ids (steps s l) := by
  induction l generalizing s with
  | nil => exact h
  | cons a l ih => exact ih (h.step hrun.1) hrun.2

theorem completeRun_append {l' : List Action} (h : CompleteRun s (l ++ l')) : CompleteRun s l ∧ CompleteRun (steps s l) l' := by
  induction l generalizing s with
  | nil => exact ⟨trivial, h⟩
  | cons a l ih => exact ⟨⟨h.1, (ih h.2).1⟩, (ih h.2).2⟩

theorem batch_saveCampaign (s : System) (id : String) (version : Nat) (state : CampaignState) :
    (s.saveCampaign id version state).batch = s.batch := by
  unfold System.saveCampaign
  split
  · split
    · rfl
    · rfl
  · rfl

theorem batch_tried (s : System) (i version : Nat) (batch : Batch) (visited : List Member) (m : Member) (rest : List Member)
    (result : MemberStatus × Option String) : (s.tried i version batch visited m rest result).batch = s.batch := by
  unfold System.tried
  split
  · rfl
  · rfl

/-- Only the save of the batch writes it. -/
theorem batch_step (s : System) (a : Action) : (step s a).batch = s.batch ∨
    ∃ i version batch, a = .saveBatch i ∧ s.phase i = .saving version batch ∧ version = s.batchVersion := by
  unfold step
  cases a with
  | saveBatch i =>
    dsimp only
    split
    · rename_i version batch hphase
      unfold System.saveBatch
      split
      · rename_i hversion
        exact .inr ⟨i, version, batch, rfl, hphase, hversion⟩
      · exact .inl rfl
    · exact .inl rfl
  | save i =>
    dsimp only
    split
    · exact .inl (batch_saveCampaign ..)
    · exact .inl rfl
  | saveCancelled i raises =>
    dsimp only
    split
    · exact .inl (batch_saveCampaign ..)
    · exact .inl rfl
  | saveStart i =>
    dsimp only
    split
    · split
      · exact .inl ((batch_tried ..).trans (batch_saveCampaign ..))
      · exact .inl rfl
    · exact .inl rfl
  | start i c =>
    refine .inl ?_
    dsimp only
    repeat' split
    all_goals first | rfl | exact batch_tried ..
  | readStart i ends detail =>
    refine .inl ?_
    dsimp only
    repeat' split
    all_goals first | rfl | exact batch_tried ..
  | _ =>
    refine .inl ?_
    dsimp only
    repeat' split
    all_goals rfl

/-- A batch that is stored as cancelled stays as it is. -/
theorem Inv.batch_eq (h : Inv ids s) (hcancelled : s.batch.state = .cancelled) (a : Action) :
    (HackerOneBatch.step s a).batch = s.batch := by
  rcases batch_step s a with heq | ⟨i, version, batch, -, hphase, hversion⟩
  · exact heq
  · -- whoever would save it has read it when it was open
    have hread := (h.phases i).versions version (by rw [hphase]; rfl)
    exact absurd hcancelled (hread.2 hversion)

theorem Inv.batch_eq_of_run (h : Inv ids s) (hcancelled : s.batch.state = .cancelled) (hrun : CompleteRun s l) :
    (steps s l).batch = s.batch := by
  induction l generalizing s with
  | nil => rfl
  | cons a l ih =>
    have heq := h.batch_eq hcancelled a
    exact (ih (h.step hrun.1) (by rw [heq]; exact hcancelled) hrun.2).trans heq

theorem cancelled_batch_over (s : System) (l l' : List Action) (hfresh : Fresh s) (hrun : CompleteRun s (l ++ l'))
    (hcancelled : (steps s l).batch.state = .cancelled) :
    (steps s (l ++ l')).batch = (steps s l).batch ∧
      (steps s l).batch.members.map Member.campaignId = s.batch.members.map Member.campaignId ∧
      ∀ m ∈ (steps s l).batch.members, Ended (steps s (l ++ l')) m.campaignId := by
  obtain ⟨hbefore, hafter⟩ := completeRun_append hrun
  have hinv := inv_of_run (inv_of_fresh hfresh) hbefore
  have hlater := inv_of_run hinv hafter
  have heq := hinv.batch_eq_of_run hcancelled hafter
  rw [show steps s (l ++ l') = steps (steps s l) l' from List.foldl_append ..]
  refine ⟨heq, hinv.batch, fun m hm => hlater.cancelled ?_ m ?_⟩
  · rw [heq]
    exact hcancelled
  · rw [heq]
    exact hm

/-- A batch of one running campaign. -/
def sampleSystem : System where
  batchVersion := 1
  batch := ⟨.sequential, .running, [⟨"a", .running, none, none⟩]⟩
  campaigns := fun id => if id = "a" then some ⟨4, .running⟩ else none
  phase := fun _ => .idle

/-- The batch is cancelled; a start and a scan of the worker come too late. -/
theorem cancelled_batch_over_sample :
    (steps sampleSystem ([.cancelBatch 0, .read 1 "a" (.scan .validating), .cancelMember 0 none, .saveCancelled 0 none,
        .cancelMember 0 none, .saveBatch 0] ++ [.save 1, .read 2 "a" .start, .save 2])).batch =
        ⟨.sequential, .cancelled, [⟨"a", .cancelled, none, none⟩]⟩ ∧
      Ended (steps sampleSystem ([.cancelBatch 0, .read 1 "a" (.scan .validating), .cancelMember 0 none, .saveCancelled 0 none,
        .cancelMember 0 none, .saveBatch 0] ++ [.save 1, .read 2 "a" .start, .save 2])) "a" := by
  have hrun : CompleteRun sampleSystem ([.cancelBatch 0, .read 1 "a" (.scan .validating), .cancelMember 0 none, .saveCancelled 0 none,
      .cancelMember 0 none, .saveBatch 0] ++ [.save 1, .read 2 "a" .start, .save 2]) := by
    refine ⟨trivial, trivial, fun _ _ _ _ _ heq h => ?_, fun _ _ _ _ _ _ heq h => ?_, fun _ _ _ _ _ heq => ?_, trivial,
      fun _ _ _ heq stored hstored hversion => ?_, trivial, fun _ _ _ heq => ?_, trivial⟩
    · cases heq
      rcases h with h | h
      · cases h
      · cases h
    · cases heq
      exact absurd rfl h
    · cases heq
    · cases heq
      cases hstored
      cases hversion
    · cases heq
  have h := cancelled_batch_over sampleSystem [.cancelBatch 0, .read 1 "a" (.scan .validating), .cancelMember 0 none,
    .saveCancelled 0 none, .cancelMember 0 none, .saveBatch 0] [.save 1, .read 2 "a" .start, .save 2]
    ⟨fun _ => rfl, by decide⟩ hrun rfl
  exact ⟨h.1, h.2.2 ⟨"a", .cancelled, none, none⟩ (List.mem_singleton.mpr rfl)⟩

/-- The campaign is saved by its worker between the read and the save of its cancellation, which is refused; the batch is stored as
cancelled, and the campaign runs on. -/
theorem campaign_left_running :
    (steps sampleSystem [.cancelBatch 0, .cancelMember 0 none, .read 1 "a" .keep, .save 1, .saveCancelled 0 none, .cancelMember 0 none,
        .saveBatch 0]).batch =
        ⟨.sequential, .cancelled, [⟨"a", .cancelled, some "Campaign changed concurrently; reload and retry", none⟩]⟩ ∧
      (steps sampleSystem [.cancelBatch 0, .cancelMember 0 none, .read 1 "a" .keep, .save 1, .saveCancelled 0 none, .cancelMember 0 none,
        .saveBatch 0]).campaigns "a" = some ⟨5, .running⟩ :=
  ⟨rfl, rfl⟩

end HackerOneBatch

end XbowPerso
