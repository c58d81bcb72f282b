import XbowPerso.Theorems.HackerOneBatch
import XbowPerso.Lib.PairedLists

/-!
# One campaign of a sequential batch at a time

A reconciler starts a member before it saves the batch. At most one campaign of a sequential batch runs in every interleaving in which
no start is saved after someone else has saved the batch, no batch is saved with a running campaign among its ended members, no running
campaign is taken for finished, and nobody else starts the campaigns.
-/

namespace XbowPerso

namespace HackerOneBatch

open Outbox (CampaignState)

open PairedLists

/-! ## What a stored batch says of its campaigns -/

/-- The campaign is running. -/
def Runs (s : System) (id : String) : Prop := ∃ stored, s.campaigns id = some stored ∧ stored.state = .running

/-- Of two members in the order of the batch, at most one runs, and which one may is settled. -/
structure Apart (s : System) (a b : Member) : Prop where
  running : a.status = .running → b.status ≠ .running
  ready : a.status = .ready → b.status = .ready → ¬ Runs s b.campaignId
  before : a.status = .running → b.status = .ready → Runs s a.campaignId → ¬ Runs s b.campaignId
  after : a.status = .ready → b.status = .running → Runs s a.campaignId → ¬ Runs s b.campaignId

/-- In a sequential batch the running member may run, or else the first that is ready. -/
structure Alone (ids : List String) (s : System) : Prop where
  mode : s.batch.mode = .sequential
  ids : s.batch.members.map Member.campaignId = ids
  ended : ∀ m ∈ s.batch.members, m.status.terminal = true → ¬ Runs s m.campaignId
  apart : s.batch.members.Pairwise (Apart s)

variable {ids : List String} {s s' : System}

variable {a b : Member}

theorem apart_of_terminal_left (h : a.status.terminal = true) : Apart s a b := by
  refine ⟨fun heq => ?_, fun heq => ?_, fun heq => ?_, fun heq => ?_⟩
  all_goals
    rw [heq] at h
    cases h

theorem apart_of_terminal_right (h : b.status.terminal = true) : Apart s a b := by
  refine ⟨fun _ heq => ?_, fun _ heq => ?_, fun _ heq => ?_, fun _ heq => ?_⟩
  all_goals
    rw [heq] at h
    cases h

/-- Fewer campaigns run. -/
theorem Apart.mono (h : Apart s a b) (ha : Runs s' a.campaignId → Runs s a.campaignId)
    (hb : Runs s' b.campaignId → Runs s b.campaignId) : Apart s' a b :=
  ⟨h.running, fun h₁ h₂ hrun => h.ready h₁ h₂ (hb hrun), fun h₁ h₂ hrun hrun' => h.before h₁ h₂ (ha hrun) (hb hrun'),
    fun h₁ h₂ hrun hrun' => h.after h₁ h₂ (ha hrun) (hb hrun')⟩

theorem Alone.mono (h : Alone ids s) (hbatch : s'.batch = s.batch) (hruns : ∀ id, Runs s' id → Runs s id) : Alone ids s' := by
  refine ⟨by rw [hbatch]; exact h.mode, by rw [hbatch]; exact h.ids, fun m hm hterminal hrun => ?_, ?_⟩
  · rw [hbatch] at hm
    exact h.ended m hm hterminal (hruns _ hrun)
  · rw [hbatch]
    exact h.apart.imp fun hapart => hapart.mono (hruns _) (hruns _)

/-- At most one of the campaigns runs. -/
theorem Alone.at_most_one (h : Alone ids s) : ∀ id ∈ ids, ∀ id' ∈ ids, Runs s id → Runs s id' → id = id' := by
  have hpair : s.batch.members.Pairwise fun a b => Runs s a.campaignId → Runs s b.campaignId → a.campaignId = b.campaignId := by
    refine h.apart.imp_of_mem fun {a b} ha hb hapart hruna hrunb => ?_
    have hopena : a.status.terminal ≠ true := fun hterminal => h.ended a ha hterminal hruna
    have hopenb : b.status.terminal ≠ true := fun hterminal => h.ended b hb hterminal hrunb
    cases hsa : a.status with
    | running =>
      cases hsb : b.status with
      | running => exact absurd hsb (hapart.running hsa)
      | ready => exact absurd hrunb (hapart.before hsa hsb hruna)
      | _ =>
        rw [hsb] at hopenb
        exact absurd rfl hopenb
    | ready =>
      cases hsb : b.status with
      | running => exact absurd hrunb (hapart.after hsa hsb hruna)
      | ready => exact absurd hrunb (hapart.ready hsa hsb)
      | _ =>
        rw [hsb] at hopenb
        exact absurd rfl hopenb
    | _ =>
      rw [hsa] at hopena
      exact absurd rfl hopena
  intro id hid id' hid' hrun hrun'
  rw [← h.ids] at hid hid'
  obtain ⟨a, ha, rfl⟩ := List.mem_map.mp hid
  obtain ⟨b, hb, rfl⟩ := List.mem_map.mp hid'
  have hflip := hpair.imp fun {a b} hab hb ha => (hab ha hb).symm
  exact List.Pairwise.forall_of_forall_of_flip (fun _ _ _ _ => rfl) hpair hflip ha hb hrun hrun'

/-! ## The copy of a reconciler -/

/-- A member of the batch in the copy of a reconciler: as it is, or found to have finished. -/
def Looked (s : System) (x y : Member) : Prop :=
  y = x ∨ (x.status = .running ∧ y.campaignId = x.campaignId ∧ y.status.terminal = true ∧ ¬ Runs s x.campaignId)

/-- The copy of a reconciler before it starts a member. -/
def Copied (s : System) (members : List Member) : Prop := List.Forall₂ (Looked s) s.batch.members members

/-- The member that a reconciler starts: the first that is ready, where none is running. -/
structure Starts (s : System) (visited : List Member) (m : Member) (rest : List Member) : Prop where
  copied : Copied s (visited ++ m :: rest)
  ready : m.status = .ready
  visited : ∀ x ∈ visited, x.status.terminal = true
  rest : ∀ x ∈ rest, x.status ≠ .running

/-- The copy of a reconciler after it has tried to start a member. -/
def Tried (s : System) (members : List Member) : Prop :=
  ∃ visited m m' rest, members = visited ++ m' :: rest ∧ m'.campaignId = m.campaignId ∧ Starts s visited m rest

variable {x y : Member}

theorem Looked.eq_of_ready (h : Looked s x y) (hy : y.status = .ready) : y = x := by
  rcases h with heq | ⟨-, -, hterminal, -⟩
  · exact heq
  · rw [hy] at hterminal
    cases hterminal

theorem Looked.eq_of_running (h : Looked s x y) (hy : y.status = .running) : y = x := by
  rcases h with heq | ⟨-, -, hterminal, -⟩
  · exact heq
  · rw [hy] at hterminal
    cases hterminal

theorem Looked.campaignId_eq (h : Looked s x y) : y.campaignId = x.campaignId := by
  rcases h with heq | ⟨-, hid, -⟩
  · rw [heq]
  · exact hid

theorem Looked.apart {c d : Member} (hac : Looked s a c) (hbd : Looked s b d) (h : Apart s a b) : Apart s c d := by
  rcases hac with rfl | ⟨-, -, hterminal, -⟩
  · rcases hbd with rfl | ⟨-, -, hterminal, -⟩
    · exact h
    · exact apart_of_terminal_right hterminal
  · exact apart_of_terminal_left hterminal

variable {members : List Member}

theorem map_eq_of_looked {l : List Member} (h : List.Forall₂ (Looked s) l members) :
    members.map Member.campaignId = l.map Member.campaignId := by
  induction h with
  | nil => rfl
  | cons hxy _ ih => rw [List.map_cons, List.map_cons, hxy.campaignId_eq, ih]

theorem copied_self : Copied s s.batch.members := List.forall₂_same.mpr fun _ _ => .inl rfl

/-- Whatever starts in between is not a running member of the batch. -/
theorem Copied.mono (h : Copied s members) (hbatch : s'.batch = s.batch)
    (hruns : ∀ m ∈ s.batch.members, m.status = .running → Runs s' m.campaignId → Runs s m.campaignId) : Copied s' members := by
  unfold Copied at h ⊢
  rw [hbatch]
  refine List.Forall₂.imp ?_ ((List.forall₂_and_left _ _).mpr ⟨fun x hx => hx, h⟩)
  rintro x y ⟨hx, heq | ⟨hrunning, hid, hterminal, hnot⟩⟩
  · exact .inl heq
  · exact .inr ⟨hrunning, hid, hterminal, fun hrun => hnot (hruns x hx hrunning hrun)⟩

variable {visited rest : List Member} {m : Member}

theorem Starts.mono (h : Starts s visited m rest) (hbatch : s'.batch = s.batch)
    (hruns : ∀ m ∈ s.batch.members, m.status = .running → Runs s' m.campaignId → Runs s m.campaignId) : Starts s' visited m rest :=
  ⟨h.copied.mono hbatch hruns, h.ready, h.visited, h.rest⟩

theorem Copied.apart (h : Copied s members) (halone : Alone ids s) : members.Pairwise (Apart s) :=
  pairwise_of_forall₂ h halone.apart fun _ _ _ _ => Looked.apart

/-- Whatever became of the member that was started, the members are apart. -/
theorem Tried.apart (h : Tried s members) (halone : Alone ids s) : members.Pairwise (Apart s) := by
  obtain ⟨visited, m, m', rest, rfl, hid, hstarts⟩ := h
  have hapart := hstarts.copied.apart halone
  obtain ⟨hvisited, htail, -⟩ := List.pairwise_append.mp hapart
  obtain ⟨hhead, hrest⟩ := List.pairwise_cons.mp htail
  refine List.pairwise_append.mpr ⟨hvisited, List.pairwise_cons.mpr ⟨fun b hb => ?_, hrest⟩, fun a ha _ _ => ?_⟩
  · have hnot : b.status = .ready → ¬ Runs s b.campaignId := (hhead b hb).ready hstarts.ready
    refine ⟨fun _ => hstarts.rest b hb, fun _ => hnot, fun _ hready _ => hnot hready, fun _ hrunning => ?_⟩
    exact absurd hrunning (hstarts.rest b hb)
  · exact apart_of_terminal_left (hstarts.visited a ha)

/-! ## Everyone under way -/

/-- The members that a cancellation leaves. -/
def Leaves (ids : List String) (visited rest : List Member) : Prop :=
  (visited ++ rest).map Member.campaignId = ids ∧ ∀ x ∈ visited, x.status.terminal = true

/-- What holds of a phase whose batch is still as it was read. -/
def Work (ids : List String) (s : System) : Phase → Prop
  | .finishing _ batch visited rest _ => batch.mode = .sequential ∧ Copied s (visited ++ rest)
  | .starting _ batch visited rest _ => batch.mode = .sequential ∧
      ((Copied s (visited ++ rest) ∧
          (rest = [] ∨ (∀ x ∈ visited, x.status ≠ .ready) ∨ ∃ x ∈ visited ++ rest, x.status = .running)) ∨
        (rest = [] ∧ Tried s visited))
  | .startingMember _ batch visited m rest => batch.mode = .sequential ∧ Starts s visited m rest
  | .savingStart _ batch visited m rest _ => batch.mode = .sequential ∧ Starts s visited m rest
  | .saving _ batch => batch.mode = .sequential ∧ (Copied s batch.members ∨ Tried s batch.members ∨ Leaves ids batch.members [])
  | .cancelling _ batch visited rest => batch.mode = .sequential ∧ Leaves ids visited rest
  | .cancellingMember _ batch visited m rest _ => batch.mode = .sequential ∧ Leaves ids visited (m :: rest)
  | _ => True

/-- What holds of everyone under way. -/
structure PhaseAlone (ids : List String) (s : System) (p : Phase) : Prop where
  versions : ∀ v, p.readVersion = some v → v ≤ s.batchVersion
  work : p.readVersion = some s.batchVersion → Work ids s p
  edit : ∀ id version state, p = .editing id version state → ∀ stored, s.campaigns id = some stored →
    version ≤ stored.version ∧ (version = stored.version → state = .running → stored.state = .running)

/-- The invariant. -/
structure Sequential (ids : List String) (s : System) : Prop where
  alone : Alone ids s
  phases : ∀ h, PhaseAlone ids s (s.phase h)

variable {p : Phase}

theorem Work.mono (h : Work ids s p) (hbatch : s'.batch = s.batch)
    (hruns : ∀ m ∈ s.batch.members, m.status = .running → Runs s' m.campaignId → Runs s m.campaignId) : Work ids s' p := by
  cases p with
  | finishing version batch visited rest changed => exact ⟨h.1, h.2.mono hbatch hruns⟩
  | starting version batch visited rest changed =>
    refine ⟨h.1, ?_⟩
    rcases h.2 with ⟨hcopied, hvisited⟩ | ⟨hrest, visited', m, m', rest', heq, hid, hstarts⟩
    · exact .inl ⟨hcopied.mono hbatch hruns, hvisited⟩
    · exact .inr ⟨hrest, visited', m, m', rest', heq, hid, hstarts.mono hbatch hruns⟩
  | startingMember version batch visited m rest => exact ⟨h.1, h.2.mono hbatch hruns⟩
  | savingStart version batch visited m rest campaignVersion => exact ⟨h.1, h.2.mono hbatch hruns⟩
  | saving version batch =>
    refine ⟨h.1, ?_⟩
    rcases h.2 with hcopied | ⟨visited', m, m', rest', heq, hid, hstarts⟩ | hleaves
    · exact .inl (hcopied.mono hbatch hruns)
    · exact .inr (.inl ⟨visited', m, m', rest', heq, hid, hstarts.mono hbatch hruns⟩)
    · exact .inr (.inr hleaves)
  | _ => exact h

variable {i : Nat}

theorem Sequential.setPhase (h : Sequential ids s) (hp : PhaseAlone ids s p) :
    Sequential ids (s.setPhase i p) := by
  have hphases : ∀ j, PhaseAlone ids s ((s.setPhase i p).phase j) := by
    intro j
    unfold System.setPhase
    dsimp only
    by_cases hj : j = i
    · rw [hj, Function.update_self]
      exact hp
    · rw [Function.update_of_ne hj]
      exact h.phases j
  exact ⟨h.alone.mono rfl fun _ hrun => hrun, fun j => ⟨(hphases j).versions,
    fun hread => ((hphases j).work hread).mono rfl fun _ _ _ hrun => hrun, (hphases j).edit⟩⟩

/-- A phase that has read the batch. -/
theorem phaseAlone_of_work {v : Nat} (hread : p.readVersion = some v) (hversion : v ≤ s.batchVersion)
    (hwork : v = s.batchVersion → Work ids s p) : PhaseAlone ids s p := by
  refine ⟨fun v' h => ?_, fun h => ?_, fun id version state h => ?_⟩
  · rw [hread] at h
    rw [← Option.some.inj h]
    exact hversion
  · rw [hread] at h
    exact hwork (Option.some.inj h)
  · rw [h] at hread
    cases hread

theorem phaseAlone_idle : PhaseAlone ids s .idle := by
  refine ⟨fun _ h => ?_, fun h => ?_, fun _ _ _ h => ?_⟩
  all_goals cases h

/-! ## Saves -/

/-- A save of a campaign moves its version up. -/
theorem PhaseAlone.saved {p : Phase} (h : PhaseAlone ids s p) {id : String} {stored : Stored} {state : CampaignState}
    (hstored : s.campaigns id = some stored)
    (hruns : ∀ m ∈ s.batch.members, m.status = .running →
      Runs { s with campaigns := Function.update s.campaigns id (some ⟨stored.version + 1, state⟩) } m.campaignId →
        Runs s m.campaignId) :
    PhaseAlone ids { s with campaigns := Function.update s.campaigns id (some ⟨stored.version + 1, state⟩) } p := by
  refine ⟨h.versions, fun hread => (h.work hread).mono rfl hruns, fun id' version' state' hphase stored' hstored' => ?_⟩
  dsimp only at hstored'
  by_cases hid : id' = id
  · subst hid
    rw [Function.update_self] at hstored'
    have hle := (h.edit _ _ _ hphase stored hstored).1
    rw [← Option.some.inj hstored']
    dsimp only
    exact ⟨by omega, fun heq => by omega⟩
  · rw [Function.update_of_ne hid] at hstored'
    exact h.edit _ _ _ hphase stored' hstored'

/-- Which campaigns run after a save. -/
theorem runs_saved {id : String} {version : Nat} {state : CampaignState} {id' : String}
    (h : Runs { s with campaigns := Function.update s.campaigns id (some ⟨version, state⟩) } id') :
    Runs s id' ∨ (id' = id ∧ state = .running) := by
  obtain ⟨stored, hstored, hrunning⟩ := h
  dsimp only at hstored
  by_cases hid : id' = id
  · rw [hid, Function.update_self] at hstored
    rw [← Option.some.inj hstored] at hrunning
    exact .inr ⟨hid, hrunning⟩
  · rw [Function.update_of_ne hid] at hstored
    exact .inl ⟨stored, hstored, hrunning⟩

variable {version : Nat}

/-- A save that starts no campaign. -/
theorem Sequential.saveCampaign (h : Sequential ids s) {id : String} {state : CampaignState}
    (hsave : ∀ stored, s.campaigns id = some stored → version = stored.version → state = .running → stored.state = .running) :
    Sequential ids (s.saveCampaign id version state) := by
  unfold System.saveCampaign
  split
  · rename_i stored hstored
    split
    · rename_i hversion
      subst hversion
      have hruns : ∀ id', Runs { s with campaigns := Function.update s.campaigns id (some ⟨stored.version + 1, state⟩) } id' →
          Runs s id' := by
        intro id' hrun
        rcases runs_saved hrun with hold | ⟨rfl, hstate⟩
        · exact hold
        · exact ⟨stored, hstored, hsave stored hstored rfl hstate⟩
      exact ⟨h.alone.mono rfl hruns, fun i => (h.phases i).saved hstored fun _ _ _ => hruns _⟩
    · exact h
  · exact h

/-- A start that is saved while the batch is as it was read: its campaign is the only one that may run. -/
theorem Sequential.started (h : Sequential ids s) (hnodup : ids.Nodup) {stored : Stored}
    (hstarts : Starts s visited m rest) (hstored : s.campaigns m.campaignId = some stored) :
    Sequential ids { s with campaigns := Function.update s.campaigns m.campaignId (some ⟨stored.version + 1, .running⟩) } := by
  obtain ⟨pre, x, post, hmembers, hpre, hxm, hpost⟩ := forall₂_split hstarts.copied
  obtain rfl := hxm.eq_of_ready hstarts.ready
  have hids := h.alone.ids
  rw [← hids, hmembers, List.map_append, List.map_cons, List.nodup_append, List.nodup_cons] at hnodup
  obtain ⟨-, ⟨hpostids, -⟩, hpreids⟩ := hnodup
  have hpre_ne : ∀ a ∈ pre, a.campaignId ≠ m.campaignId := fun a ha =>
    hpreids _ (List.mem_map_of_mem ha) _ (List.mem_cons_self ..)
  have hpost_ne : ∀ a ∈ post, a.campaignId ≠ m.campaignId := fun a ha heq =>
    hpostids (heq ▸ List.mem_map_of_mem ha)
  have hruns : ∀ id, id ≠ m.campaignId →
      Runs { s with campaigns := Function.update s.campaigns m.campaignId (some ⟨stored.version + 1, .running⟩) } id → Runs s id := by
    intro id hid hrun
    rcases runs_saved hrun with hold | ⟨heq, -⟩
    · exact hold
    · exact absurd heq hid
  have hother : ∀ a ∈ s.batch.members, a.status ≠ .ready → a.campaignId ≠ m.campaignId := by
    intro a ha hstatus
    rw [hmembers] at ha
    rcases List.mem_append.mp ha with ha | ha
    · exact hpre_ne a ha
    · rcases List.mem_cons.mp ha with rfl | ha
      · exact absurd hstarts.ready hstatus
      · exact hpost_ne a ha
  refine ⟨⟨h.alone.mode, hids, fun a ha hterminal hrun => ?_, ?_⟩, fun i => (h.phases i).saved hstored fun a ha hstatus => ?_⟩
  · refine h.alone.ended a ha hterminal (hruns _ (hother a ha fun heq => ?_) hrun)
    rw [heq] at hterminal
    cases hterminal
  · have hapart := h.alone.apart
    dsimp only
    rw [hmembers] at hapart ⊢
    obtain ⟨hpairs, htail, hcross⟩ := List.pairwise_append.mp hapart
    obtain ⟨hhead, hpairs'⟩ := List.pairwise_cons.mp htail
    refine List.pairwise_append.mpr ⟨hpairs.imp_of_mem fun ha hb hab => ?_, List.pairwise_cons.mpr ⟨fun b hb => ?_,
      hpairs'.imp_of_mem fun ha hb hab => ?_⟩, fun a ha b hb => ?_⟩
    · exact hab.mono (hruns _ (hpre_ne _ ha)) (hruns _ (hpre_ne _ hb))
    · -- the members after the one that starts: none of them is running in the copy
      have hold := hhead b hb
      refine ⟨fun heq => ?_, fun hready hready' hrun => hold.ready hready hready' (hruns _ (hpost_ne b hb) hrun), fun heq => ?_,
        fun _ hrunning _ hrun => ?_⟩
      · rw [hstarts.ready] at heq
        cases heq
      · rw [hstarts.ready] at heq
        cases heq
      · obtain ⟨y, hy, heq | ⟨-, -, -, hnot⟩⟩ := forall₂_left hpost hb
        · rw [← heq] at hrunning
          exact hstarts.rest y hy hrunning
        · exact hnot (hruns _ (hpost_ne b hb) hrun)
    · exact hab.mono (hruns _ (hpost_ne _ ha)) (hruns _ (hpost_ne _ hb))
    · -- the members before it are over, or were running and have finished
      have hold := hcross a ha b hb
      obtain ⟨y, hy, heq | ⟨hrunning, -, -, hnot⟩⟩ := forall₂_left hpre ha
      · refine apart_of_terminal_left ?_
        rw [← heq]
        exact hstarts.visited y hy
      · refine ⟨hold.running, fun heq => ?_, fun _ _ hrun => absurd (hruns _ (hpre_ne a ha) hrun) hnot, fun heq => ?_⟩
        · rw [hrunning] at heq
          cases heq
        · rw [hrunning] at heq
          cases heq
  · exact hruns _ (hother a ha (by rw [hstatus]; decide))

/-- A save of the batch as it was read. -/
theorem Sequential.saveBatch (h : Sequential ids s) {batch : Batch}
    (hwork : version = s.batchVersion → Work ids s (.saving version batch))
    (hover : version = s.batchVersion → ∀ m ∈ batch.members, m.status.terminal = true → ¬ Runs s m.campaignId) :
    Sequential ids (s.saveBatch version batch) := by
  unfold System.saveBatch
  split
  · rename_i hversion
    obtain ⟨hmode, hmembers⟩ := hwork hversion
    have hids : batch.members.map Member.campaignId = ids ∧ batch.members.Pairwise (Apart s) := by
      rcases hmembers with hcopied | htried | hleaves
      · exact ⟨(map_eq_of_looked hcopied).trans h.alone.ids, hcopied.apart h.alone⟩
      · refine ⟨?_, htried.apart h.alone⟩
        obtain ⟨visited, m, m', rest, heq, hid, hstarts⟩ := htried
        rw [heq, map_replace visited rest hid]
        exact (map_eq_of_looked hstarts.copied).trans h.alone.ids
      · obtain ⟨hids, hterminal⟩ := hleaves
        rw [List.append_nil] at hids
        exact ⟨hids, List.pairwise_of_forall_mem_list fun a ha b _ => apart_of_terminal_left (hterminal a ha)⟩
    have hapart : batch.members.Pairwise (Apart { s with batchVersion := s.batchVersion + 1, batch := batch }) :=
      hids.2.imp fun hab => hab.mono (fun hrun => hrun) fun hrun => hrun
    refine ⟨⟨hmode, hids.1, hover hversion, hapart⟩, fun i => ⟨fun v hv => ?_, fun hread => ?_, (h.phases i).edit⟩⟩
    · exact Nat.le_succ_of_le ((h.phases i).versions v hv)
    · -- everyone under way has read an older one
      exact absurd ((h.phases i).versions _ hread) (by dsimp only; omega)
  · exact h

/-! ## One step -/

/-- The step is none of those that let a second campaign run. -/
def StepAlone (s : System) : Action → Prop
  | .read _ _ op => op ≠ .start ∧ op ≠ .dispatch
  | .finish h counts => ∀ version batch visited m rest changed, s.phase h = .finishing version batch visited (m :: rest) changed →
      Runs s m.campaignId → 0 < counts.queued ∨ 0 < counts.running ∨ counts.completed + counts.failed + counts.cancelled = 0
  | .saveStart h => ∀ version batch visited m rest campaignVersion,
      s.phase h = .savingStart version batch visited m rest campaignVersion → version = s.batchVersion
  | .saveBatch h => ∀ version batch, s.phase h = .saving version batch → version = s.batchVersion →
      ∀ m ∈ batch.members, m.status.terminal = true → ¬ Runs s m.campaignId
  | _ => True

theorem runs_of_apply {op : Operation} {state next : CampaignState} (h : op.apply state = some next)
    (hop : op ≠ .start ∧ op ≠ .dispatch) (hnext : next = .running) : state = .running := by
  subst hnext
  cases op with
  | keep =>
    cases h
    rfl
  | start => exact absurd rfl hop.1
  | dispatch => exact absurd rfl hop.2
  | ensureCompletionReport => cases h
  | addFinding =>
    dsimp only [Operation.apply] at h
    split at h
    · cases h
    · cases h
  | complete =>
    dsimp only [Operation.apply] at h
    split at h
    · cases h
    · cases h
  | cancel =>
    dsimp only [Operation.apply] at h
    split at h
    · cases h
    · cases h
  | scan result =>
    dsimp only [Operation.apply] at h
    split at h
    · cases h
    split at h
    · rename_i hresult
      rw [Option.some.inj h] at hresult
      rcases hresult with heq | heq | heq
      · cases heq
      · cases heq
      · cases heq
    · cases h

variable {status : MemberStatus}

/-- The status of a member whose campaign is seen as finished. -/
theorem terminal_of_memberFinished {state : Option CampaignState} {counts : JobCounts}
    (h : memberFinished state counts = some status) : status.terminal = true ∧ (state = some .running →
      ¬ (0 < counts.queued ∨ 0 < counts.running ∨ counts.completed + counts.failed + counts.cancelled = 0)) := by
  unfold memberFinished at h
  split at h
  · cases h
    exact ⟨rfl, fun heq => by cases heq⟩
  · cases h
    exact ⟨rfl, fun heq => by cases heq⟩
  · cases h
    exact ⟨rfl, fun heq => by cases heq⟩
  · cases h
    exact ⟨rfl, fun heq => by cases heq⟩
  · split at h
    · cases h
    rename_i hlive
    split at h
    · cases h
    rename_i htotal
    refine ⟨?_, fun _ => by omega⟩
    split at h
    · cases h
      rfl
    · cases h
      rfl

/-- The start of a member has ended, one way or another. -/
theorem Sequential.tried (h : Sequential ids s) {batch : Batch}
    {result : MemberStatus × Option String} (hversion : version ≤ s.batchVersion)
    (hwork : version = s.batchVersion → batch.mode = .sequential ∧ Starts s visited m rest) :
    Sequential ids (s.tried i version batch visited m rest result) := by
  unfold System.tried
  split
  · refine h.setPhase (phaseAlone_of_work rfl hversion fun heq => ⟨(hwork heq).1, .inr ⟨rfl, ?_⟩⟩)
    exact ⟨visited, m, m.started result, rest, rfl, campaignId_started m result, (hwork heq).2⟩
  · rename_i hmode
    exact h.setPhase (phaseAlone_of_work rfl hversion fun heq => absurd (hwork heq).1 hmode)

theorem runs_iff : Runs s m.campaignId ↔ s.campaignState m = some .running := by
  unfold Runs System.campaignState
  rw [Option.map_eq_some_iff]

/-- A visited member is kept, or is running and found to have finished. -/
theorem Copied.visit {m' : Member} (h : Copied s (visited ++ m :: rest))
    (hm : m' = m ∨ (m.status = .running ∧ m'.campaignId = m.campaignId ∧ m'.status.terminal = true ∧ ¬ Runs s m.campaignId)) :
    Copied s ((visited ++ [m']) ++ rest) := by
  rw [List.append_assoc, List.singleton_append]
  rcases hm with rfl | hm
  · exact h
  · obtain ⟨pre, x, post, hmembers, hpre, hxm, hpost⟩ := forall₂_split h
    obtain rfl := hxm.eq_of_running hm.1
    unfold Copied
    rw [hmembers]
    exact forall₂_join hpre (.inr hm) hpost

theorem Leaves.visit {m' : Member} (h : Leaves ids visited (m :: rest))
    (hid : m'.campaignId = m.campaignId) (hterminal : m'.status.terminal = true) : Leaves ids (visited ++ [m']) rest := by
  refine ⟨(map_visit visited rest hid).trans h.1, fun x hx => ?_⟩
  rcases List.mem_append.mp hx with hold | hnew
  · exact h.2 x hold
  · rw [List.mem_singleton.mp hnew]
    exact hterminal

theorem terminal_of_ne (hready : status ≠ .ready) (hrunning : status ≠ .running) : status.terminal = true := by
  cases status with
  | ready => exact absurd rfl hready
  | running => exact absurd rfl hrunning
  | _ => rfl

theorem terminal_of_skipped (h : status.skipped = true) : status.terminal = true := by
  cases status with
  | ready => cases h
  | running => cases h
  | _ => rfl

theorem any_running_iff :
    (members.any fun x => decide (x.status = .running)) = true ↔ ∃ x ∈ members, x.status = .running := by
  rw [List.any_eq_true]
  simp only [decide_eq_true_eq]

theorem Sequential.finish (h : Sequential ids s) {counts : JobCounts} (hok : StepAlone s (.finish i counts)) :
    Sequential ids (step s (.finish i counts)) := by
  have hphase := h.phases i
  unfold step
  dsimp only
  split
  · rename_i version batch visited changed heq
    rw [heq] at hphase
    refine h.setPhase (phaseAlone_of_work rfl (hphase.versions _ rfl) fun hread => ?_)
    obtain ⟨hmode, hcopied⟩ := hphase.work (by rw [← hread]; rfl)
    rw [List.append_nil] at hcopied
    exact ⟨hmode, .inl ⟨hcopied, .inr (.inl fun x hx => by cases hx)⟩⟩
  · rename_i version batch visited m rest changed heq
    have hcond := hok _ _ _ _ _ _ heq
    rw [heq] at hphase
    have hvisit : ∀ m' changed', (m' = m ∨ (m.status = .running ∧ m'.campaignId = m.campaignId ∧ m'.status.terminal = true ∧
        ¬ Runs s m.campaignId)) → Sequential ids (s.setPhase i (.finishing version batch (visited ++ [m']) rest changed')) := by
      intro m' changed' hm
      refine h.setPhase (phaseAlone_of_work rfl (hphase.versions _ rfl) fun hread => ?_)
      obtain ⟨hmode, hcopied⟩ := hphase.work (by rw [← hread]; rfl)
      exact ⟨hmode, hcopied.visit hm⟩
    split
    · rename_i hrunning
      split
      · rename_i status hfinished
        obtain ⟨hterminal, hlive⟩ := terminal_of_memberFinished hfinished
        exact hvisit _ _ (.inr ⟨hrunning, rfl, hterminal, fun hrun => hlive (runs_iff.mp hrun) (hcond hrun)⟩)
      · exact hvisit _ _ (.inl rfl)
    · exact hvisit _ _ (.inl rfl)
  · exact h

theorem Sequential.start (h : Sequential ids s) (i : Nat) (c : StartCircumstances) : Sequential ids (step s (.start i c)) := by
  have hphase := h.phases i
  unfold step
  dsimp only
  split
  · rename_i version batch visited changed heq
    rw [heq] at hphase
    split
    · exact h.setPhase phaseAlone_idle
    · refine h.setPhase (phaseAlone_of_work rfl (hphase.versions _ rfl) fun hread => ?_)
      obtain ⟨hmode, ⟨hcopied, -⟩ | ⟨-, htried⟩⟩ := hphase.work (by rw [← hread]; rfl)
      · rw [List.append_nil] at hcopied
        exact ⟨hmode, .inl hcopied⟩
      · exact ⟨hmode, .inr (.inl htried)⟩
  · rename_i version batch visited m rest changed heq
    rw [heq] at hphase
    have hwork : version = s.batchVersion → batch.mode = .sequential ∧ Copied s (visited ++ m :: rest) ∧
        ((∀ x ∈ visited, x.status ≠ .ready) ∨ ∃ x ∈ visited ++ m :: rest, x.status = .running) := by
      intro hread
      obtain ⟨hmode, ⟨hcopied, hnil | hvisited⟩ | ⟨hnil, -⟩⟩ := hphase.work (by rw [← hread]; rfl)
      · cases hnil
      · exact ⟨hmode, hcopied, hvisited⟩
      · cases hnil
    split
    · rename_i hskip
      refine h.setPhase (phaseAlone_of_work rfl (hphase.versions _ rfl) fun hread => ?_)
      obtain ⟨hmode, hcopied, hvisited⟩ := hwork hread
      refine ⟨hmode, .inl ⟨hcopied.visit (.inl rfl), .inr ?_⟩⟩
      rw [List.append_assoc, List.singleton_append]
      rcases hskip with hready | ⟨-, hany⟩
      · rcases hvisited with hvisited | hrunning
        · refine .inl fun x hx => ?_
          rcases List.mem_append.mp hx with hold | hnew
          · exact hvisited x hold
          · rw [List.mem_singleton.mp hnew]
            exact hready
        · exact .inr hrunning
      · exact .inr (any_running_iff.mp hany)
    rename_i hstart
    obtain ⟨hready, hwaits⟩ := not_or.mp hstart
    -- a sequential batch in which nobody waits has no running member
    have hstarts : version = s.batchVersion → batch.mode = .sequential ∧ Starts s visited m rest := by
      intro hread
      obtain ⟨hmode, hcopied, hvisited⟩ := hwork hread
      have hnone : ∀ x ∈ visited ++ m :: rest, x.status ≠ .running := fun x hx hrunning =>
        hwaits ⟨hmode, any_running_iff.mpr ⟨x, hx, hrunning⟩⟩
      refine ⟨hmode, hcopied, not_not.mp hready, fun x hx => ?_, fun x hx => ?_⟩
      · rcases hvisited with hvisited | ⟨y, hy, hrunning⟩
        · exact terminal_of_ne (hvisited x hx) (hnone x (List.mem_append_left _ hx))
        · exact absurd hrunning (hnone y hy)
      · exact hnone x (List.mem_append_right _ (List.mem_cons_of_mem _ hx))
    split
    · split
      · refine h.setPhase (phaseAlone_of_work rfl (hphase.versions _ rfl) fun hread => ?_)
        obtain ⟨hmode, hcopied, -⟩ := hwork hread
        exact ⟨hmode, .inl ⟨by rw [List.append_nil]; exact hcopied, .inl rfl⟩⟩
      · rename_i hmode
        exact h.setPhase (phaseAlone_of_work rfl (hphase.versions _ rfl) fun hread => absurd (hwork hread).1 hmode)
    split
    · exact h.setPhase (phaseAlone_of_work rfl (hphase.versions _ rfl) hstarts)
    · exact h.tried (hphase.versions _ rfl) hstarts
  · exact h

theorem Sequential.readStart (h : Sequential ids s) (i : Nat) (ends : Option (Except StartError Unit)) (detail : String) :
    Sequential ids (step s (.readStart i ends detail)) := by
  have hphase := h.phases i
  unfold step
  dsimp only
  split
  · rename_i version batch visited m rest heq
    rw [heq] at hphase
    have hstarts : version = s.batchVersion → batch.mode = .sequential ∧ Starts s visited m rest := fun hread =>
      hphase.work (by rw [← hread]; rfl)
    split
    · exact h.tried (hphase.versions _ rfl) hstarts
    split
    · exact h.tried (hphase.versions _ rfl) hstarts
    split
    · exact h.setPhase (phaseAlone_of_work rfl (hphase.versions _ rfl) hstarts)
    · exact h.tried (hphase.versions _ rfl) hstarts
  · exact h

theorem Sequential.saveStart (h : Sequential ids s) (hnodup : ids.Nodup) (hok : StepAlone s (.saveStart i)) :
    Sequential ids (step s (.saveStart i)) := by
  have hphase := h.phases i
  unfold step
  dsimp only
  split
  · rename_i version batch visited m rest campaignVersion heq
    have hcurrent : version = s.batchVersion := hok _ _ _ _ _ _ heq
    rw [heq] at hphase
    obtain ⟨hmode, hstarts⟩ := hphase.work (by rw [← hcurrent]; rfl)
    split
    · rename_i hversion
      obtain ⟨stored, hstored, rfl⟩ := Option.map_eq_some_iff.mp hversion
      have hsaved := h.started hnodup hstarts hstored
      rw [show s.saveCampaign m.campaignId stored.version .running =
          { s with campaigns := Function.update s.campaigns m.campaignId (some ⟨stored.version + 1, .running⟩) } from by
        unfold System.saveCampaign
        rw [hstored]
        exact if_pos rfl]
      have hphase' := hsaved.phases i
      dsimp only at hphase'
      rw [heq] at hphase'
      exact hsaved.tried (hphase'.versions _ rfl) fun hread => hphase'.work (by rw [← hread]; rfl)
    · exact h.setPhase (phaseAlone_of_work rfl (hphase.versions _ rfl) fun _ => ⟨hmode, hstarts⟩)
  · exact h

theorem Sequential.cancelMember (h : Sequential ids s) (i : Nat) (raises : Option String) :
    Sequential ids (step s (.cancelMember i raises)) := by
  have hphase := h.phases i
  unfold step
  dsimp only
  split
  · rename_i version batch visited heq
    rw [heq] at hphase
    refine h.setPhase (phaseAlone_of_work rfl (hphase.versions _ rfl) fun hread => ?_)
    obtain ⟨hmode, hleaves⟩ := hphase.work (by rw [← hread]; rfl)
    exact ⟨hmode, .inr (.inr hleaves)⟩
  · rename_i version batch visited m rest heq
    rw [heq] at hphase
    have hwork : version = s.batchVersion → batch.mode = .sequential ∧ Leaves ids visited (m :: rest) := fun hread =>
      hphase.work (by rw [← hread]; rfl)
    have hvisit : ∀ m', m'.campaignId = m.campaignId → m'.status.terminal = true →
        Sequential ids (s.setPhase i (.cancelling version batch (visited ++ [m']) rest)) := fun m' hid hterminal =>
      h.setPhase (phaseAlone_of_work rfl (hphase.versions _ rfl) fun hread =>
        ⟨(hwork hread).1, (hwork hread).2.visit hid hterminal⟩)
    split
    · rename_i hskipped
      exact hvisit m rfl (terminal_of_skipped hskipped)
    split
    · exact hvisit _ rfl rfl
    split
    · exact hvisit _ rfl rfl
    split
    · exact hvisit _ rfl rfl
    · exact h.setPhase (phaseAlone_of_work rfl (hphase.versions _ rfl) hwork)
  · exact h

theorem Sequential.step (h : Sequential ids s) (hnodup : ids.Nodup) {a : Action} (hok : StepAlone s a) :
    Sequential ids (HackerOneBatch.step s a) := by
  unfold HackerOneBatch.step
  cases a with
  | read i id op =>
    dsimp only
    split
    · rename_i stored hphase hstored
      split
      · exact h
      rename_i state hstate
      refine h.setPhase ⟨fun _ heq => (by cases heq), fun heq => (by cases heq), fun id' version' state' heq stored' hstored' => ?_⟩
      cases heq
      rw [hstored] at hstored'
      rw [← Option.some.inj hstored']
      exact ⟨Nat.le_refl _, fun _ => runs_of_apply hstate hok⟩
    · exact h
  | save i =>
    have hedit := (h.phases i).edit
    dsimp only
    split
    · rename_i id version state hphase
      refine (h.setPhase phaseAlone_idle).saveCampaign fun stored hstored hversion => ?_
      exact (hedit id version state hphase stored hstored).2 hversion
    · exact h
  | reconcile i =>
    dsimp only
    split
    · split
      · exact h
      · exact h.setPhase (phaseAlone_of_work rfl (Nat.le_refl _) fun _ => ⟨h.alone.mode, copied_self⟩)
    · exact h
  | finish i counts => exact h.finish hok
  | start i c => exact h.start i c
  | readStart i ends detail => exact h.readStart i ends detail
  | saveStart i => exact h.saveStart hnodup hok
  | saveBatch i =>
    have hphase := h.phases i
    dsimp only
    split
    · rename_i version batch heq
      have hcond := hok version batch heq
      rw [heq] at hphase
      refine (h.setPhase phaseAlone_idle).saveBatch (fun hread => ?_) hcond
      exact (hphase.work (by rw [hread]; rfl)).mono rfl fun _ _ _ hrun => hrun
    · exact h
  | cancelBatch i =>
    dsimp only
    split
    · split
      · exact h
      exact h.setPhase (phaseAlone_of_work rfl (Nat.le_refl _) fun _ =>
        ⟨h.alone.mode, h.alone.ids, fun x hx => by cases hx⟩)
    · exact h
  | cancelMember i raises => exact h.cancelMember i raises
  | saveCancelled i raises =>
    dsimp only
    split
    · rename_i version batch visited m rest campaignVersion heq
      rw [setPhase_saveCampaign]
      have hsaved : Sequential ids (s.saveCampaign m.campaignId campaignVersion .cancelled) :=
        h.saveCampaign fun _ _ _ hstate => by cases hstate
      have hphase := hsaved.phases i
      rw [phase_saveCampaign, heq] at hphase
      refine hsaved.setPhase (phaseAlone_of_work rfl (hphase.versions _ rfl) fun hread => ?_)
      obtain ⟨hmode, hleaves⟩ := hphase.work (by rw [← hread]; rfl)
      exact ⟨hmode, hleaves.visit rfl rfl⟩
    · exact h
  | crash i => exact h.setPhase phaseAlone_idle

/-! ## Every run -/

/-- A run without the steps that let a second campaign run. -/
def AloneRun : System → List Action → Prop
  | _, [] => True
  | s, a :: l => StepAlone s a ∧ AloneRun (step s a) l

theorem Sequential.run (h : Sequential ids s) (hnodup : ids.Nodup) {l : List Action} (hrun : AloneRun s l) :
    Sequential ids (steps s l) := by
  induction l generalizing s with
  | nil => exact h
  | cons a l ih => exact ih (h.step hnodup hrun.1) hrun.2

/-- A sequential batch before its first reconciler: nothing is under way, and no campaign runs. -/
structure Unstarted (s : System) : Prop where
  idle : ∀ h, s.phase h = .idle
  mode : s.batch.mode = .sequential
  nodup : (s.batch.members.map Member.campaignId).Nodup
  notRunning : ∀ m ∈ s.batch.members, m.status ≠ .running ∧ ¬ Runs s m.campaignId

theorem sequential_of_unstarted (h : Unstarted s) : Sequential (s.batch.members.map Member.campaignId) s := by
  refine ⟨⟨h.mode, rfl, fun m hm _ => (h.notRunning m hm).2, ?_⟩, fun i => ?_⟩
  · refine List.pairwise_of_forall_mem_list fun a ha b hb => ?_
    have hnot := (h.notRunning b hb).2
    exact ⟨fun heq => absurd heq (h.notRunning a ha).1, fun _ _ => hnot, fun _ _ _ => hnot, fun _ _ _ => hnot⟩
  · rw [h.idle i]
    exact phaseAlone_idle

theorem one_runs_at_a_time (s : System) (l : List Action) (hunstarted : Unstarted s) (hrun : AloneRun s l) :
    ∀ id ∈ s.batch.members.map Member.campaignId, ∀ id' ∈ s.batch.members.map Member.campaignId,
      Runs (steps s l) id → Runs (steps s l) id' → id = id' :=
  ((sequential_of_unstarted hunstarted).run hunstarted.nodup hrun).alone.at_most_one

/-- A sequential batch of two campaigns. -/
def pairSystem : System where
  batchVersion := 1
  batch := ⟨.sequential, .queued, [⟨"a", .ready, none, none⟩, ⟨"b", .ready, none, none⟩]⟩
  campaigns := fun id => if id = "a" ∨ id = "b" then some ⟨1, .ready⟩ else none
  phase := fun _ => .idle

theorem unstarted_pair : Unstarted pairSystem := by
  refine ⟨fun _ => rfl, rfl, by decide, fun m hm => ?_⟩
  have hcampaign : pairSystem.campaigns m.campaignId = some ⟨1, .ready⟩ ∧ m.status = .ready := by
    rcases List.mem_cons.mp hm with rfl | hm
    · exact ⟨rfl, rfl⟩
    · rw [List.mem_singleton.mp hm]
      exact ⟨rfl, rfl⟩
  refine ⟨by rw [hcampaign.2]; decide, fun ⟨stored, hstored, hrunning⟩ => ?_⟩
  rw [hcampaign.1] at hstored
  rw [← Option.some.inj hstored] at hrunning
  cases hrunning

/-- What a reconciler finds when nothing keeps it from a start. -/
def clear : StartCircumstances := ⟨true, none, ""⟩

/-- No job. -/
def noJobs : JobCounts := ⟨0, 0, 0, 0, 0⟩

/-- A reconciler starts the first campaign. -/
theorem one_runs_at_a_time_sample :
    Runs (steps pairSystem [.reconcile 0, .finish 0 noJobs, .finish 0 noJobs, .finish 0 noJobs, .start 0 clear, .readStart 0 none "",
      .saveStart 0]) "a" ∧
    ¬ Runs (steps pairSystem [.reconcile 0, .finish 0 noJobs, .finish 0 noJobs, .finish 0 noJobs, .start 0 clear, .readStart 0 none "",
      .saveStart 0]) "b" := by
  have hrun : AloneRun pairSystem [.reconcile 0, .finish 0 noJobs, .finish 0 noJobs, .finish 0 noJobs, .start 0 clear,
      .readStart 0 none "", .saveStart 0] := by
    refine ⟨trivial, fun _ _ _ _ _ _ heq hruns => ?_, fun _ _ _ _ _ _ heq hruns => ?_, fun _ _ _ _ _ _ heq => ?_, trivial, trivial,
      fun _ _ _ _ _ _ heq => ?_, trivial⟩
    · exact .inr (.inr rfl)
    · exact .inr (.inr rfl)
    · cases heq
    · cases heq
      rfl
  have ha : Runs (steps pairSystem [.reconcile 0, .finish 0 noJobs, .finish 0 noJobs, .finish 0 noJobs, .start 0 clear,
      .readStart 0 none "", .saveStart 0]) "a" := ⟨⟨2, .running⟩, rfl, rfl⟩
  refine ⟨ha, fun hb => ?_⟩
  have h := one_runs_at_a_time pairSystem _ unstarted_pair hrun "a" (by decide) "b" (by decide) ha hb
  exact absurd h (by decide)

/-- Two reconcilers have read the batch. One of them starts the first campaign, whose scan is a dry run and leaves it ready, and then the
second; the other one starts the first campaign again, before it finds that the batch has changed. -/
theorem two_run_at_a_time :
    (steps pairSystem [.reconcile 0, .reconcile 1, .finish 0 noJobs, .finish 0 noJobs, .finish 0 noJobs, .start 0 clear,
      .readStart 0 none "", .saveStart 0, .start 0 clear, .saveBatch 0, .read 2 "a" (.scan .ready), .save 2, .reconcile 0,
      .finish 0 ⟨0, 0, 1, 0, 0⟩, .finish 0 noJobs, .finish 0 noJobs, .start 0 clear, .start 0 clear, .readStart 0 none "", .saveStart 0,
      .finish 1 noJobs, .finish 1 noJobs, .finish 1 noJobs, .start 1 clear, .readStart 1 none "", .saveStart 1]).campaigns "a" =
        some ⟨4, .running⟩ ∧
    (steps pairSystem [.reconcile 0, .reconcile 1, .finish 0 noJobs, .finish 0 noJobs, .finish 0 noJobs, .start 0 clear,
      .readStart 0 none "", .saveStart 0, .start 0 clear, .saveBatch 0, .read 2 "a" (.scan .ready), .save 2, .reconcile 0,
      .finish 0 ⟨0, 0, 1, 0, 0⟩, .finish 0 noJobs, .finish 0 noJobs, .start 0 clear, .start 0 clear, .readStart 0 none "", .saveStart 0,
      .finish 1 noJobs, .finish 1 noJobs, .finish 1 noJobs, .start 1 clear, .readStart 1 none "", .saveStart 1]).campaigns "b" =
        some ⟨2, .running⟩ :=
  ⟨rfl, rfl⟩

end HackerOneBatch

end XbowPerso
