import XbowPerso.SqliteQueue

/-!
# The ingestion of scan results

A scan job loads its campaign, enqueues a validation for each finding that the campaign does not have, one after the other, and saves the
campaign with them last. Workers claim and finish jobs, and others save the campaign, in between.
-/

namespace XbowPerso

namespace ScanIngestion

/-- Where a scan job is. -/
inductive ScanPhase where
  | idle
  /-- `ingest_scanner_run`: the version it has loaded, the findings of its campaign, those it has added, and those that it has not seen. -/
  | ingesting (version : Nat) (existing added left : List String)

structure System where
  version : Nat
  /-- The identifiers of the findings of the stored campaign. -/
  findings : List String
  queue : SqliteQueue
  scan : Nat → ScanPhase
  /-- The findings that a scan has saved. -/
  ingested : List String
  /-- The validation jobs that were handed out while their finding was stored. -/
  ran : List Ident

variable (cfg : QueueSettings) (campaign : Ident)

/-- `validation:` and the finding -/
def dedupeKey (finding : String) : String := "validation:" ++ finding

/-- The validation job of a finding; the queue strips its keys. -/
def IsValidation (finding : String) (j : Job) : Prop :=
  j.campaignId = campaign ∧ j.kind = .independentValidation ∧
    j.dedupeKey.map Ident.text = some (PyText.strip (dedupeKey finding))

instance (finding : String) (j : Job) : Decidable (IsValidation campaign finding j) := inferInstanceAs (Decidable (_ ∧ _ ∧ _))

inductive Action where
  /-- The scan job loads the campaign, and its scanner reports findings. -/
  | load (h : Nat) (reported : List String)
  /-- One round of the loop. -/
  | ingest (h : Nat) (payload : Payload) (reading : Reading)
  | save (h : Nat)
  /-- Something raises, or the worker is gone. -/
  | crash (h : Nat)
  /-- Another request or job saves the campaign, with findings of its own. -/
  | write (added : List String)
  /-- A call on the queue by anyone. -/
  | call (c : QueueCall) (reading : Reading)

def System.setScan (s : System) (h : Nat) (p : ScanPhase) : System := { s with scan := Function.update s.scan h p }

/-- What a call hands out to a worker that then can read the finding of it. -/
def seen (s : System) (handed : Option Job) : List Ident :=
  (handed.toList.filter fun j => s.findings.any fun f => decide (IsValidation campaign f j)).map Job.id

def step (s : System) : Action → System
  | .load h reported =>
    match s.scan h with
    | .idle => s.setScan h (.ingesting s.version s.findings [] reported)
    | _ => s
  | .ingest h payload reading =>
    match s.scan h with
    | .ingesting version existing added (finding :: left) =>
      if finding ∈ existing ∨ finding ∈ added then s.setScan h (.ingesting version existing added left)
      else
        match s.queue.enqueue cfg reading campaign.text "independent_validation" payload 2 (some (dedupeKey finding)) with
        | .error _ => s.setScan h .idle
        | .ok (_, queue) => { s.setScan h (.ingesting version existing (added ++ [finding]) left) with queue := queue }
    | _ => s
  | .save h =>
    match s.scan h with
    | .ingesting version existing added [] =>
      if version = s.version then
        { s.setScan h .idle with version := s.version + 1, findings := existing ++ added, ingested := s.ingested ++ added }
      else s.setScan h .idle
    | _ => s
  | .crash h => s.setScan h .idle
  | .write added => { s with version := s.version + 1, findings := s.findings ++ added }
  | .call c reading =>
    let result := s.queue.call cfg reading c
    { s with queue := result.2, ran := s.ran ++ seen campaign s (c.handed result.1) }

/-- The steps of a run, one after the other. -/
def steps (s : System) (l : List Action) : System := l.foldl (step cfg campaign) s

end ScanIngestion

end XbowPerso
