import XbowPerso.CancelStart
import XbowPerso.Lemmas.SqliteQueue
import XbowPerso.Theorems.PlannerStability

/-!
# What a cancellation leaves to run

The sweep of a cancellation leaves no queued job, and a start that enqueues after it does: between the two readings of the campaign that
refuse a cancelled one, the planner enqueues without looking.
-/

namespace XbowPerso

namespace CancelStart

open Outbox (CampaignState)

open Orchestrator (JobSpec)

variable {cfg : QueueSettings} {id : Ident}

/-! ## The statement -/

/-- No job of the campaign is queued. -/
def NothingQueued (id : Ident) (q : SqliteQueue) : Prop := ∀ j ∈ q.rows, j.campaignId = id → j.status ≠ .queued

/-- Neither request has begun, and the campaign is not cancelled. -/
structure Initial (s : System) : Prop where
  start : s.start = .idle
  cancel : s.cancel = .idle
  state : s.campaign.state ≠ .cancelled

/-- Both requests have been answered. -/
def Finished (s : System) : Prop := s.start = .finished ∧ (s.cancel = .swept ∨ s.cancel = .finished)

/-- The start does not enqueue once the queue is swept. -/
def EnqueuesBefore (s : System) : Action → Prop
  | .enqueue _ => s.cancel ≠ .swept
  | _ => True

/-- A run whose every step is in this order. -/
def OrderedRun (cfg : QueueSettings) (id : Ident) : System → List Action → Prop
  | _, [] => True
  | s, a :: l => EnqueuesBefore s a ∧ OrderedRun cfg id (step cfg id s a) l

/-! ## The invariant -/

/-- What the start would save is not cancelled. -/
def SavesOpen : StartPhase → Prop
  | .blocking _ campaign => campaign.state ≠ .cancelled
  | .intending _ campaign _ => campaign.state ≠ .cancelled
  | .recording _ campaign _ _ _ => campaign.state ≠ .cancelled
  | _ => True

structure Inv (id : Ident) (s : System) : Prop where
  start : SavesOpen s.start
  cancelled : s.campaign.state = .cancelled → s.cancel = .sweeping ∨ s.cancel = .swept
  swept : s.cancel = .swept → NothingQueued id s.queue

theorem inv_of_initial {s : System} (h : Initial s) : Inv id s := by
  refine ⟨?_, fun hc => absurd hc h.state, fun hswept => ?_⟩
  · rw [h.start]
    trivial
  · rw [h.cancel] at hswept
    cases hswept

/-- A step of the start that saves nothing and enqueues nothing. -/
theorem Inv.setStart {s : System} (h : Inv id s) {p : StartPhase} (hp : SavesOpen p) : Inv id { s with start := p } :=
  ⟨hp, h.cancelled, h.swept⟩

theorem Inv.saveStart {s : System} (h : Inv id s) {version : Nat} {campaign : Campaign} {saved conflict : StartPhase}
    (hopen : campaign.state ≠ .cancelled) (hsaved : SavesOpen saved) (hconflict : SavesOpen conflict) :
    Inv id (s.saveStart version campaign saved conflict) := by
  unfold System.saveStart
  split
  · exact ⟨hsaved, fun hc => absurd hc hopen, h.swept⟩
  · exact h.setStart hconflict

/-- The sweep leaves no queued job. -/
theorem nothingQueued_of_sweep {q q' : SqliteQueue} {reading : Reading} {n : Nat} (h : q.cancelQueued reading id.text = .ok (n, q')) :
    NothingQueued id q' := by
  obtain ⟨campaign, hcampaign, hfind⟩ := SqliteQueue.cancelQueued_effect h
  rw [boundedIdentifier_text] at hcampaign
  cases hcampaign
  intro j hj hid hqueued
  have hrow := (q'.find?_key hj).symm.trans (hfind j.id)
  obtain ⟨before, -, hbefore⟩ := Option.map_eq_some_iff.mp hrow.symm
  split at hbefore
  · rw [← hbefore] at hqueued
    cases hqueued
  rename_i hother
  exact hother (by rw [hbefore]; exact ⟨hid, hqueued⟩)

theorem Inv.step {s : System} (h : Inv id s) {a : Action} (hbefore : EnqueuesBefore s a) : Inv id (step cfg id s a) := by
  unfold CancelStart.step
  cases a with
  | start allowed uuid =>
    dsimp only
    split
    · split
      · exact h.setStart trivial
      rename_i hstate
      have hopen : s.campaign.state ≠ .cancelled := by
        intro hc
        rw [hc] at hstate
        exact hstate (by decide)
      split
      · exact h.setStart hopen
      split
      · exact h.setStart trivial
      · exact h.setStart hopen
    · exact h
  | saveStart =>
    have hstart := h.start
    dsimp only
    split
    · rename_i hphase
      rw [hphase] at hstart
      exact h.saveStart hstart trivial trivial
    · rename_i hphase
      rw [hphase] at hstart
      exact h.saveStart hstart trivial trivial
    · rename_i hphase
      rw [hphase] at hstart
      exact h.saveStart hstart trivial trivial
    · exact h
  | plan specs =>
    dsimp only
    split
    · split
      · exact h.setStart trivial
      · exact h.setStart trivial
    · exact h
  | enqueue reading =>
    dsimp only
    split
    · split
      · exact h.setStart trivial
      · exact ⟨trivial, h.cancelled, fun hswept => absurd hswept hbefore⟩
    · exact h
  | planned =>
    dsimp only
    split
    · split
      · exact h.setStart trivial
      · exact h.setStart trivial
    · exact h
  | reconcile =>
    dsimp only
    split
    · exact h.setStart trivial
    · split
      · exact h.setStart trivial
      split
      · exact h.setStart trivial
      · exact h.setStart fun hc => by cases hc
    · exact h
  | cancel =>
    dsimp only
    split
    · rename_i hidle
      have hopen : s.campaign.state ≠ .cancelled := by
        intro hc
        have hcancel := h.cancelled hc
        rw [hidle] at hcancel
        rcases hcancel with hcancel | hcancel
        · cases hcancel
        · cases hcancel
      split
      · exact ⟨h.start, fun hc => absurd hc hopen, fun hswept => by cases hswept⟩
      · exact ⟨h.start, fun hc => absurd hc hopen, fun hswept => by cases hswept⟩
    · exact h
  | saveCancel =>
    dsimp only
    split
    · rename_i hsaving
      have hopen : s.campaign.state ≠ .cancelled := by
        intro hc
        have hcancel := h.cancelled hc
        rw [hsaving] at hcancel
        rcases hcancel with hcancel | hcancel
        · cases hcancel
        · cases hcancel
      split
      · exact ⟨h.start, fun _ => .inl rfl, fun hswept => by cases hswept⟩
      · exact ⟨h.start, fun hc => absurd hc hopen, fun hswept => by cases hswept⟩
    · exact h
  | sweep reading =>
    dsimp only
    split
    · split
      · rename_i herror
        unfold SqliteQueue.cancelQueued at herror
        rw [boundedIdentifier_text] at herror
        cases herror
      · rename_i hsweep
        exact ⟨h.start, fun _ => .inr rfl, fun _ => nothingQueued_of_sweep hsweep⟩
    · exact h

/-- When both requests have been answered and the campaign is cancelled, nothing is left to run, in every run in which the start does not
enqueue after the sweep. -/
theorem cancelled_leaves_nothing {s : System} {l : List Action} (hinitial : Initial s) (hrun : OrderedRun cfg id s l)
    (hfinished : Finished (steps cfg id s l)) (hcancelled : (steps cfg id s l).campaign.state = .cancelled) :
    NothingQueued id (steps cfg id s l).queue := by
  have hinv : ∀ {s : System} {l : List Action}, Inv id s → OrderedRun cfg id s l → Inv id (steps cfg id s l) := by
    intro s l h hrun
    induction l generalizing s with
    | nil => exact h
    | cons a l ih => exact ih (h.step hrun.1) hrun.2
  have h := hinv (inv_of_initial hinitial) hrun
  rcases hfinished.2 with hswept | hfinished
  · exact h.swept hswept
  · rcases h.cancelled hcancelled with hcancel | hcancel
    · rw [hfinished] at hcancel
      cases hcancel
    · rw [hfinished] at hcancel
      cases hcancel

/-! ## A start that enqueues after the sweep -/

/-- A campaign that is ready for its start. -/
def readySystem : System := ⟨0, ⟨.ready, none⟩, Table.empty, .idle, .idle⟩

theorem initial_readySystem : Initial readySystem := by
  refine ⟨rfl, rfl, ?_⟩
  decide

/-- A pass that has one page to crawl. -/
def crawlSpecs : List JobSpec :=
  { Orchestrator.samplePass with
    intelligence := { Orchestrator.samplePass.intelligence with recon := [⟨"web_crawl", "https://example.test"⟩] } }.reconSpecs

def sampleReading : Reading := ⟨0, Orchestrator.sampleValidation⟩

/-- The start, until it has planned its jobs. -/
def startActions : List Action := [.start true "request", .saveStart, .plan crawlSpecs]

def enqueueActions : List Action := [.enqueue sampleReading, .planned, .reconcile]

def cancelActions : List Action := [.cancel, .saveCancel, .sweep sampleReading]

/-- The start enqueues, and then the campaign is cancelled. -/
def earlyStart : List Action := startActions ++ [.enqueue sampleReading, .planned] ++ cancelActions ++ [.reconcile]

/-- The campaign is cancelled and its queue swept, and then the start enqueues. -/
def lateStart : List Action := startActions ++ cancelActions ++ [.enqueue sampleReading, .planned, .reconcile]

theorem start_earlyStart : (steps QueueSettings.default Orchestrator.sampleCampaign readySystem earlyStart).start = .finished := by rfl

theorem start_lateStart : (steps QueueSettings.default Orchestrator.sampleCampaign readySystem lateStart).start = .finished := by rfl

theorem cancelled_leaves_nothing_sample :
    NothingQueued Orchestrator.sampleCampaign
      (steps QueueSettings.default Orchestrator.sampleCampaign readySystem earlyStart).queue := by
  refine cancelled_leaves_nothing initial_readySystem ⟨trivial, trivial, trivial, ?_, trivial, trivial, trivial, trivial, trivial, trivial⟩
    ⟨start_earlyStart, .inl rfl⟩ rfl
  intro h
  cases h

theorem queue_lateStart :
    (steps QueueSettings.default Orchestrator.sampleCampaign readySystem lateStart).queue.rows.map
      (fun j => (j.campaignId.text, j.status)) = [("campaign", .queued)] := by decide

/-- Both requests are answered, the campaign is cancelled, and a job of it is queued. -/
theorem late_start_leaves_queued :
    Initial readySystem ∧
    Finished (steps QueueSettings.default Orchestrator.sampleCampaign readySystem lateStart) ∧
    (steps QueueSettings.default Orchestrator.sampleCampaign readySystem lateStart).campaign.state = .cancelled ∧
    ¬ NothingQueued Orchestrator.sampleCampaign
      (steps QueueSettings.default Orchestrator.sampleCampaign readySystem lateStart).queue := by
  refine ⟨initial_readySystem, ⟨start_lateStart, .inl rfl⟩, rfl, fun h => ?_⟩
  obtain ⟨j, hj, heq⟩ := List.mem_map.mp (queue_lateStart ▸ List.mem_singleton_self ("campaign", JobStatus.queued))
  obtain ⟨hid, hstatus⟩ := Prod.mk.inj heq
  exact h j hj (Ident.text_injective hid) hstatus

end CancelStart

end XbowPerso
