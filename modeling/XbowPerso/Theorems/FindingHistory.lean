import XbowPerso.FindingHistory
import XbowPerso.Theorems.JobRetry

/-!
# Recording a finding again

An observation is refused when its identifier is there with another content. So the chains of a history go through as long as what is
put under one identifier is always the same; a finding that is reported again with another severity is not.
-/

namespace XbowPerso

namespace FindingHistory

open JobAttempt (JobEnv Finding recordFindingChain putObservation_cases find?_concat)

variable {env : JobEnv} {cfg : ObservationSettings} {rows rows' : Observations} {seen known : List Observation} {o : Observation}
  {row : ObservationRow}

/-- Two observations agree when they are not put under one identifier with different contents. -/
def Agree (cfg : ObservationSettings) (a b : Observation) : Prop :=
  ∀ stored requested, a.prepare cfg = .ok stored → b.prepare cfg = .ok requested → stored.id = requested.id →
    stored.sameContent requested = true

/-- The observations that a history puts, those of the chains and the others. -/
def observed (env : JobEnv) : List Finding → List Event → List Observation
  | _, [] => []
  | findings, .other o :: events => o :: observed env findings events
  | findings, event :: events =>
    (recorded env findings event).flatMap (recordFindingChain env) ++ observed env (findingsAfter env findings event) events

/-- The observations of the chains of a history pass the checks of the store. -/
def Checked (env : JobEnv) : List Finding → List Event → Prop
  | _, [] => True
  | findings, event :: events =>
    (∀ o ∈ (recorded env findings event).flatMap (recordFindingChain env), ∃ row, o.prepare env.observations = .ok row) ∧
      Checked env (findingsAfter env findings event) events

/-! ## One observation -/

/-- What is stored comes from what was put. -/
def From (cfg : ObservationSettings) (seen : List Observation) (rows : Observations) : Prop :=
  ∀ r ∈ rows, ∃ o ∈ seen, o.prepare cfg = .ok r

/-- What is known is stored. -/
def Stored (cfg : ObservationSettings) (known : List Observation) (rows : Observations) : Prop :=
  ∀ o ∈ known, ∀ row, o.prepare cfg = .ok row → ∃ r ∈ rows, r.id = row.id

theorem From.mono {more : List Observation} (h : From cfg seen rows) : From cfg (seen ++ more) rows := by
  intro r hr
  obtain ⟨o, ho, hprepare⟩ := h r hr
  exact ⟨o, List.mem_append_left _ ho, hprepare⟩

theorem mem_of_find? {id : Ident} (h : Observations.find? rows id = some row) : row ∈ rows ∧ row.id = id := by
  refine ⟨List.mem_of_find?_eq_some h, ?_⟩
  unfold Observations.find? at h
  simpa using List.find?_some h

theorem find?_of_mem {id : Ident} (h : ∃ r ∈ rows, r.id = id) : ∃ r, Observations.find? rows id = some r := by
  cases hfind : Observations.find? rows id with
  | some r => exact ⟨r, rfl⟩
  | none =>
    obtain ⟨r, hr, hid⟩ := h
    have hne := List.find?_eq_none.mp hfind r hr
    simp [hid] at hne

theorem mem_of_mapM {f : String → Except PyError Ident} {l : List String} {l' : List Ident} (h : l.mapM f = .ok l') :
    ∀ b ∈ l', ∃ a ∈ l, f a = .ok b := by
  induction l generalizing l' with
  | nil =>
    rw [List.mapM_nil] at h
    cases h
    exact fun b hb => absurd hb List.not_mem_nil
  | cons a l ih =>
    rw [List.mapM_cons] at h
    cases ha : f a with
    | error e =>
      rw [ha] at h
      cases h
    | ok b =>
      rw [ha] at h
      cases hl : l.mapM f with
      | error e =>
        rw [hl] at h
        cases h
      | ok bs =>
        rw [hl] at h
        cases h
        intro x hx
        rcases List.mem_cons.mp hx with rfl | hx
        · exact ⟨a, List.mem_cons_self .., ha⟩
        · obtain ⟨y, hy, hfy⟩ := ih hl x hx
          exact ⟨y, List.mem_cons_of_mem _ hy, hfy⟩

/-- What the checks make of the identifiers of an observation. -/
theorem ids_of_prepare (h : o.prepare cfg = .ok row) :
    row.id.text = PyText.strip o.id ∧ ∀ p ∈ row.parentIds, ∃ text ∈ o.parentIds, p.text = PyText.strip text := by
  unfold Observation.prepare at h
  split at h
  · cases h
  split at h
  · cases h
  split at h
  · cases h
  rename_i parents hparents
  split at h
  · cases h
  rename_i id hid
  dsimp only at h
  split at h
  · cases h
  cases h
  refine ⟨text_of_identifierOf hid, fun p hp => ?_⟩
  obtain ⟨text, htext, hp⟩ := mem_of_mapM hparents p hp
  exact ⟨text, htext, text_of_identifierOf hp⟩

/-- An observation that agrees with what was put, with parents that are known, goes through. -/
theorem put_of_agree (hfrom : From cfg seen rows) (hstored : Stored cfg known rows) (hprepare : o.prepare cfg = .ok row)
    (hagree : ∀ a ∈ seen, Agree cfg a o)
    (hparents : ∀ p ∈ o.parentIds, ∃ a ∈ known, a.id = p ∧ ∃ stored, a.prepare cfg = .ok stored) :
    ∃ rows', Observations.put cfg rows o = .ok rows' ∧ From cfg (seen ++ [o]) rows' ∧ Stored cfg (known ++ [o]) rows' := by
  have hfound : ¬ (row.parentIds.any fun p => (Observations.find? rows p).isNone) = true := by
    intro hmissing
    obtain ⟨p, hp, hnone⟩ := List.any_eq_true.mp hmissing
    obtain ⟨text, htext, hstrip⟩ := (ids_of_prepare hprepare).2 p hp
    obtain ⟨a, ha, rfl, stored, hastored⟩ := hparents text htext
    obtain ⟨r, hr, hid⟩ := hstored a ha stored hastored
    have hp' : r.id = p := Ident.text_injective (by rw [hid, (ids_of_prepare hastored).1, hstrip])
    obtain ⟨x, hx⟩ := find?_of_mem ⟨r, hr, hp'⟩
    rw [hx] at hnone
    cases hnone
  unfold Observations.put
  rw [hprepare]
  dsimp only
  unfold Observations.insert
  rw [if_neg hfound]
  cases hfind : Observations.find? rows row.id with
  | some stored =>
    obtain ⟨hmem, hid⟩ := mem_of_find? hfind
    obtain ⟨a, ha, hastored⟩ := hfrom stored hmem
    dsimp only
    rw [if_pos (hagree a ha stored row hastored hprepare hid)]
    refine ⟨rows, rfl, hfrom.mono, fun x hx r hr => ?_⟩
    rcases List.mem_append.mp hx with hx | hx
    · exact hstored x hx r hr
    · rw [List.mem_singleton.mp hx, hprepare] at hr
      cases hr
      exact ⟨stored, hmem, hid⟩
  | none =>
    refine ⟨rows ++ [row], rfl, fun r hr => ?_, fun x hx r hr => ?_⟩
    · rcases List.mem_append.mp hr with hr | hr
      · exact hfrom.mono r hr
      · rw [List.mem_singleton.mp hr]
        exact ⟨o, List.mem_append_right _ (List.mem_singleton.mpr rfl), hprepare⟩
    · rcases List.mem_append.mp hx with hx | hx
      · obtain ⟨y, hy, hid⟩ := hstored x hx r hr
        exact ⟨y, List.mem_append_left _ hy, hid⟩
      · rw [List.mem_singleton.mp hx, hprepare] at hr
        cases hr
        exact ⟨row, List.mem_append_right _ (List.mem_singleton.mpr rfl), rfl⟩

/-! ## A chain -/

/-- Each observation of a list has its parents before it, or among those that are known. -/
def ParentsIn : List Observation → List Observation → Prop
  | _, [] => True
  | known, o :: observations => (∀ p ∈ o.parentIds, ∃ a ∈ known, a.id = p) ∧ ParentsIn (known ++ [o]) observations

variable {observations : List Observation}

theorem parentsIn_of_forall (h : ∀ o ∈ observations, ∀ p ∈ o.parentIds, ∃ a ∈ known, a.id = p) :
    ParentsIn known observations := by
  induction observations generalizing known with
  | nil => trivial
  | cons o observations ih =>
    refine ⟨h o (List.mem_cons_self ..), ih fun x hx p hp => ?_⟩
    obtain ⟨a, ha, hid⟩ := h x (List.mem_cons_of_mem _ hx) p hp
    exact ⟨a, List.mem_append_left _ ha, hid⟩

theorem parentsIn_append {first second : List Observation} (h : ParentsIn known first) (h' : ParentsIn (known ++ first) second) :
    ParentsIn known (first ++ second) := by
  induction first generalizing known with
  | nil => rwa [List.append_nil] at h'
  | cons o first ih =>
    refine ⟨h.1, ih h.2 ?_⟩
    rwa [List.append_assoc, List.singleton_append]

theorem parent_mem_concat {front : List Observation} {x : Observation} {parents : List String} (h : parents = [x.id]) :
    ∀ p ∈ parents, ∃ a ∈ front ++ [x], a.id = p := by
  intro p hp
  rw [h] at hp
  rw [List.mem_singleton.mp hp]
  exact ⟨x, List.mem_append_right _ (List.mem_singleton.mpr rfl), rfl⟩

/-- The observations of a chain come after their parents. -/
theorem parentsIn_chain (env : JobEnv) (finding : Finding) (known : List Observation) :
    ParentsIn known (recordFindingChain env finding) := by
  unfold recordFindingChain
  dsimp only
  refine ⟨fun p hp => absurd hp List.not_mem_nil, ?_⟩
  split
  · refine ⟨parent_mem_concat rfl, parentsIn_of_forall fun o ho => ?_⟩
    obtain ⟨⟨text, index⟩, -, rfl⟩ := List.mem_map.mp ho
    exact parent_mem_concat rfl
  · split
    · refine ⟨parent_mem_concat rfl, parentsIn_of_forall fun o ho => ?_⟩
      obtain ⟨⟨text, index⟩, -, rfl⟩ := List.mem_map.mp ho
      exact parent_mem_concat rfl
    · refine ⟨parent_mem_concat rfl, parent_mem_concat rfl, parentsIn_of_forall fun o ho => ?_⟩
      obtain ⟨⟨text, index⟩, -, rfl⟩ := List.mem_map.mp ho
      exact parent_mem_concat rfl

theorem parentsIn_chains (env : JobEnv) (findings : List Finding) (known : List Observation) :
    ParentsIn known (findings.flatMap (recordFindingChain env)) := by
  induction findings generalizing known with
  | nil => trivial
  | cons finding findings ih =>
    rw [List.flatMap_cons]
    exact parentsIn_append (parentsIn_chain env finding known) (ih _)

/-- Observations after their parents that pass the checks and agree, with each other and with what was put, go through. -/
theorem putAll_of_agree (hfrom : From cfg seen rows) (hstored : Stored cfg known rows)
    (hknown : ∀ a ∈ known, ∃ stored, a.prepare cfg = .ok stored) (hparents : ParentsIn known observations)
    (hchecks : ∀ o ∈ observations, ∃ row, o.prepare cfg = .ok row) (hagree : (seen ++ observations).Pairwise (Agree cfg)) :
    ∃ rows', putAll cfg rows observations = .ok rows' ∧ From cfg (seen ++ observations) rows' := by
  induction observations generalizing rows seen known with
  | nil => exact ⟨rows, rfl, hfrom.mono⟩
  | cons o observations ih =>
    obtain ⟨row, hprepare⟩ := hchecks o (List.mem_cons_self ..)
    have hseen : ∀ a ∈ seen, Agree cfg a o := fun a ha => (List.pairwise_append.mp hagree).2.2 a ha o (List.mem_cons_self ..)
    have hmine : ∀ p ∈ o.parentIds, ∃ a ∈ known, a.id = p ∧ ∃ stored, a.prepare cfg = .ok stored := by
      intro p hp
      obtain ⟨a, ha, hid⟩ := hparents.1 p hp
      exact ⟨a, ha, hid, hknown a ha⟩
    obtain ⟨rows₁, hput, hfrom₁, hstored₁⟩ := put_of_agree hfrom hstored hprepare hseen hmine
    have hknown₁ : ∀ a ∈ known ++ [o], ∃ stored, a.prepare cfg = .ok stored := by
      intro a ha
      rcases List.mem_append.mp ha with ha | ha
      · exact hknown a ha
      · rw [List.mem_singleton.mp ha]
        exact ⟨row, hprepare⟩
    have hshift : seen ++ o :: observations = (seen ++ [o]) ++ observations := by
      rw [List.append_assoc, List.singleton_append]
    rw [hshift] at hagree ⊢
    obtain ⟨rows', hall, hfrom'⟩ :=
      ih hfrom₁ hstored₁ hknown₁ hparents.2 (fun x hx => hchecks x (List.mem_cons_of_mem _ hx)) hagree
    refine ⟨rows', ?_, hfrom'⟩
    unfold putAll
    rw [hput]
    exact hall

/-! ## Histories -/

theorem From.put (h : From cfg seen rows) (hput : Observations.put cfg rows o = .ok rows') : From cfg (seen ++ [o]) rows' := by
  obtain ⟨row, hprepare, -, ⟨-, -, -, rfl⟩ | ⟨-, rfl⟩⟩ := putObservation_cases hput
  · exact h.mono
  · intro r hr
    rcases List.mem_append.mp hr with hr | hr
    · exact h.mono r hr
    · rw [List.mem_singleton.mp hr]
      exact ⟨o, List.mem_append_right _ (List.mem_singleton.mpr rfl), hprepare⟩

/-- The chains of an event go through. -/
theorem putAll_recorded {findings : List Finding} {event : Event} (hfrom : From env.observations seen rows)
    (hchecks : ∀ o ∈ (recorded env findings event).flatMap (recordFindingChain env), ∃ row, o.prepare env.observations = .ok row)
    (hagree : (seen ++ (recorded env findings event).flatMap (recordFindingChain env)).Pairwise (Agree env.observations)) :
    ∃ rows', putAll env.observations rows ((recorded env findings event).flatMap (recordFindingChain env)) = .ok rows' ∧
      From env.observations (seen ++ (recorded env findings event).flatMap (recordFindingChain env)) rows' :=
  putAll_of_agree hfrom (show Stored env.observations [] rows from fun o ho => absurd ho List.not_mem_nil)
    (fun o ho => absurd ho List.not_mem_nil) (parentsIn_chains env _ []) hchecks hagree

theorem run_of_agree {findings : List Finding} {events : List Event} (hfrom : From env.observations seen rows)
    (hchecks : Checked env findings events) (hagree : (seen ++ observed env findings events).Pairwise (Agree env.observations)) :
    ∃ rows', run env findings rows events = .ok rows' := by
  induction events generalizing findings rows seen with
  | nil => exact ⟨rows, rfl⟩
  | cons event events ih =>
    have hchains (hobserve : observe env findings rows event =
          putAll env.observations rows ((recorded env findings event).flatMap (recordFindingChain env)))
        (hobserved : observed env findings (event :: events) =
          (recorded env findings event).flatMap (recordFindingChain env) ++ observed env (findingsAfter env findings event) events) :
        ∃ rows', run env findings rows (event :: events) = .ok rows' := by
      rw [hobserved, ← List.append_assoc] at hagree
      obtain ⟨rows₁, hall, hfrom₁⟩ := putAll_recorded hfrom hchecks.1 (List.pairwise_append.mp hagree).1
      obtain ⟨rows', hrun⟩ := ih hfrom₁ hchecks.2 hagree
      refine ⟨rows', ?_⟩
      unfold run
      rw [hobserve, hall]
      exact hrun
    cases event with
    | other o =>
      have hshift : seen ++ observed env findings (.other o :: events) = (seen ++ [o]) ++ observed env findings events := by
        rw [observed, List.append_assoc, List.singleton_append]
      rw [hshift] at hagree
      cases hput : Observations.put env.observations rows o with
      | error e =>
        have hobserve : observe env findings rows (.other o) = .ok rows := by
          unfold observe
          dsimp only
          rw [hput]
        unfold run
        rw [hobserve]
        exact ih hfrom.mono hchecks.2 hagree
      | ok rows₁ =>
        have hobserve : observe env findings rows (.other o) = .ok rows₁ := by
          unfold observe
          dsimp only
          rw [hput]
        unfold run
        rw [hobserve]
        exact ih (hfrom.put hput) hchecks.2 hagree
    | ingest items saved => exact hchains rfl rfl
    | review findingId cwe cvss => exact hchains rfl rfl
    | validate findingId => exact hchains rfl rfl

theorem find?_of_put {i : Ident} {stored : ObservationRow} (hput : Observations.put cfg rows o = .ok rows')
    (hfind : Observations.find? rows i = some stored) : Observations.find? rows' i = some stored := by
  obtain ⟨row, -, -, ⟨-, -, -, rfl⟩ | ⟨-, rfl⟩⟩ := putObservation_cases hput
  · exact hfind
  · rw [find?_concat, hfind]
    rfl

theorem find?_of_putAll {i : Ident} {stored : ObservationRow}
    (hall : putAll cfg rows observations = .ok rows') (hfind : Observations.find? rows i = some stored) :
    Observations.find? rows' i = some stored := by
  induction observations generalizing rows with
  | nil =>
    cases hall
    exact hfind
  | cons x observations ih =>
    unfold putAll at hall
    cases hput : Observations.put cfg rows x with
    | error e =>
      rw [hput] at hall
      cases hall
    | ok rows₁ =>
      rw [hput] at hall
      exact ih hall (find?_of_put hput hfind)

/-- Under the identifier of an observation that went through is its content. -/
theorem content_of_putAll (hall : putAll cfg rows observations = .ok rows') (ho : o ∈ observations)
    (hprepare : o.prepare cfg = .ok row) :
    ∃ stored, Observations.find? rows' row.id = some stored ∧ (stored = row ∨ stored.sameContent row = true) := by
  induction observations generalizing rows with
  | nil => cases ho
  | cons x observations ih =>
    unfold putAll at hall
    cases hput : Observations.put cfg rows x with
    | error e =>
      rw [hput] at hall
      cases hall
    | ok rows₁ =>
      rw [hput] at hall
      rcases List.mem_cons.mp ho with rfl | ho
      · obtain ⟨prepared, hprepared, -, h⟩ := putObservation_cases hput
        rw [hprepare] at hprepared
        cases hprepared
        rcases h with ⟨stored, hfind, hsame, rfl⟩ | ⟨hnone, rfl⟩
        · exact ⟨stored, find?_of_putAll hall hfind, .inr hsame⟩
        · refine ⟨row, find?_of_putAll hall ?_, .inl rfl⟩
          rw [find?_concat, hnone, if_pos rfl]
          rfl
      · exact ih hall ho

/-! ## A finding that is reported again -/

/-- Observations under different identifiers agree. -/
theorem agree_of_nodup (h : (observations.map fun o => PyText.strip o.id).Nodup) :
    observations.Pairwise (Agree cfg) := by
  refine (List.pairwise_map.mp h).imp fun {a b} hne stored requested hstored hrequested hid => ?_
  refine absurd ?_ hne
  rw [← (ids_of_prepare hstored).1, ← (ids_of_prepare hrequested).1, hid]

/-- A finding of Nuclei with the given severity. -/
def sampleItem (severity : String) : NormalizedScannerFinding :=
  ⟨"nuclei", "title", severity, "https://a.test", none, "summary", [], none, .null, [], none, none, none, none, none⟩

/-- Two scans that report it, each time with its own severity. -/
def sampleHistory (first second : String) : List Event := [.ingest [sampleItem first] true, .ingest [sampleItem second] true]

/-- The report that a scan makes of it. -/
def sampleFinding (severity : String) : Finding := toCampaignFinding JobAttempt.sampleJobs (sampleItem severity)

def sampleAsset : Observation := ⟨"asset:111111111111111111111111", "asset", "https://a.test", "nuclei", [], []⟩

def sampleObservation (severity : String) : Observation :=
  ⟨"finding:" ++ "nuclei-11111111111111111111111111111111", "finding", "nuclei-11111111111111111111111111111111", "nuclei",
    ["asset:111111111111111111111111"], [("title", .str "title"), ("severity", .str severity), ("endpoint", .null), ("cwe", .null),
      ("cvss", .null)]⟩

/-- The identifiers of a report and of its asset, and what the two observations are checked for. -/
theorem sample_facts : (sampleFinding "").id = "nuclei-11111111111111111111111111111111" ∧
    JobAttempt.observationId JobAttempt.sampleJobs "asset" ("nuclei" ++ JobAttempt.unitSeparator ++ "https://a.test") =
      "asset:111111111111111111111111" ∧
    ([sampleAsset, sampleObservation "low"].all fun o => (o.prepare JobAttempt.sampleJobs.observations).toOption.isSome) = true ∧
    ([sampleAsset, sampleObservation "low"].map fun o => PyText.strip o.id).Nodup ∧
    (((sampleObservation "low").prepare JobAttempt.sampleJobs.observations).bind fun a =>
      ((sampleObservation "high").prepare JobAttempt.sampleJobs.observations).map fun b =>
        decide (a.id = b.id) && a.sameContent a && !a.sameContent b).toOption = some true := by
  refine ⟨?_, ?_, ?_, ?_, ?_⟩
  · decide +kernel
  · decide +kernel
  · decide +kernel
  · decide +kernel
  · decide +kernel

/-- The two reports differ in their severity. -/
example : (sampleFinding "low").severity ≠ (sampleFinding "high").severity := by decide +kernel

theorem sample_id (severity : String) : (sampleFinding severity).id = "nuclei-11111111111111111111111111111111" := sample_facts.1

theorem sample_asset : JobAttempt.recordAsset JobAttempt.sampleJobs "https://a.test" "nuclei" = sampleAsset := by
  obtain ⟨-, hid, -⟩ := sample_facts
  unfold JobAttempt.recordAsset
  rw [hid]
  rfl

theorem sample_chain (severity : String) :
    recordFindingChain JobAttempt.sampleJobs (sampleFinding severity) = [sampleAsset, sampleObservation severity] := by
  change [JobAttempt.recordAsset JobAttempt.sampleJobs "https://a.test" "nuclei", Observation.mk ("finding:" ++ (sampleFinding severity).id)
    "finding" (sampleFinding severity).id "nuclei" [(JobAttempt.recordAsset JobAttempt.sampleJobs "https://a.test" "nuclei").id]
    [("title", .str "title"), ("severity", .str severity), ("endpoint", .null), ("cwe", .null), ("cvss", .null)]] = _
  rw [sample_id, sample_asset]
  rfl

theorem sample_nodup : ([sampleAsset, sampleObservation "low"].map fun o => PyText.strip o.id).Nodup := sample_facts.2.2.2.1

theorem sample_prepares : ∀ o ∈ [sampleAsset, sampleObservation "low"],
    ∃ row, o.prepare JobAttempt.sampleJobs.observations = .ok row := by
  intro o ho
  have hsome := List.all_eq_true.mp sample_facts.2.2.1 o ho
  cases hprepare : o.prepare JobAttempt.sampleJobs.observations with
  | error e =>
    rw [hprepare] at hsome
    cases hsome
  | ok row => exact ⟨row, rfl⟩

/-- After the first report, its row is what is stored under its identifier. -/
theorem sample_stored {rows : Observations} {row : ObservationRow}
    (hall : putAll JobAttempt.sampleJobs.observations [] [sampleAsset, sampleObservation "low"] = .ok rows)
    (hprepare : (sampleObservation "low").prepare JobAttempt.sampleJobs.observations = .ok row) :
    Observations.find? rows row.id = some row := by
  have hmem : sampleObservation "low" ∈ [sampleAsset, sampleObservation "low"] :=
    List.mem_cons_of_mem _ (List.mem_singleton.mpr rfl)
  have hparents : ParentsIn [] [sampleAsset, sampleObservation "low"] :=
    sample_chain "low" ▸ parentsIn_chain JobAttempt.sampleJobs (sampleFinding "low") []
  obtain ⟨stored, hfind, -⟩ := content_of_putAll hall hmem hprepare
  obtain ⟨rows', hall', hfrom⟩ := putAll_of_agree
    (show From JobAttempt.sampleJobs.observations [] [] from fun _ hr => absurd hr List.not_mem_nil)
    (show Stored JobAttempt.sampleJobs.observations [] [] from fun _ ho => absurd ho List.not_mem_nil)
    (fun _ ho => absurd ho List.not_mem_nil) hparents sample_prepares (agree_of_nodup sample_nodup)
  rw [hall] at hall'
  cases hall'
  obtain ⟨hstored, hid⟩ := mem_of_find? hfind
  obtain ⟨a, ha, hastored⟩ := hfrom stored hstored
  have hsame : a = sampleObservation "low" := by
    refine List.inj_on_of_nodup_map sample_nodup ha hmem ?_
    rw [← (ids_of_prepare hastored).1, ← (ids_of_prepare hprepare).1, hid]
  rw [hsame, hprepare] at hastored
  cases hastored
  exact hfind

theorem sample_rows : ∃ a b, (sampleObservation "low").prepare JobAttempt.sampleJobs.observations = .ok a ∧
    (sampleObservation "high").prepare JobAttempt.sampleJobs.observations = .ok b ∧ a.id = b.id ∧ a.sameContent a = true ∧
      a.sameContent b = false := by
  have h := sample_facts.2.2.2.2
  cases ha : (sampleObservation "low").prepare JobAttempt.sampleJobs.observations with
  | error e =>
    rw [ha] at h
    cases h
  | ok a =>
    cases hb : (sampleObservation "high").prepare JobAttempt.sampleJobs.observations with
    | error e =>
      rw [ha, hb] at h
      cases h
    | ok b =>
      rw [ha, hb] at h
      have hall : (decide (a.id = b.id) && a.sameContent a && !a.sameContent b) = true := Option.some.inj h
      rw [Bool.and_eq_true, Bool.and_eq_true, Bool.not_eq_true'] at hall
      exact ⟨a, b, rfl, rfl, of_decide_eq_true hall.1.1, hall.1.2, hall.2⟩

theorem sample_observe (findings : List Finding) (rows : Observations) (severity : String) :
    observe JobAttempt.sampleJobs findings rows (.ingest [sampleItem severity] true) =
      putAll JobAttempt.sampleJobs.observations rows [sampleAsset, sampleObservation severity] := by
  have hrecorded : (recorded JobAttempt.sampleJobs findings (.ingest [sampleItem severity] true)).flatMap
      (recordFindingChain JobAttempt.sampleJobs) = [sampleAsset, sampleObservation severity] := by
    rw [show recorded JobAttempt.sampleJobs findings (.ingest [sampleItem severity] true) = [sampleFinding severity] from rfl,
      List.flatMap_singleton, sample_chain]
  rw [← hrecorded]
  rfl

end FindingHistory

end XbowPerso
