import XbowPerso.ScannerFiles
import XbowPerso.Theorems.ContractRate

/-!
# Which attempt a result file is from

An attempt that completes takes its results from the latest file in the run directory, whoever wrote it. These are its own files
exactly when each file of that kind that an earlier attempt left is older than one of its own.
-/

namespace XbowPerso

namespace ScannerFiles

/-! ## The latest file -/

theorem later_total (a b : String × File) : Later a b ∨ Later b a := by
  unfold Later
  rcases Nat.lt_trichotomy b.2.mtime a.2.mtime with h | h | h
  · exact .inl (.inl h)
  · rcases String.le_total b.1 a.1 with hpath | hpath
    · exact .inl (.inr ⟨h, hpath⟩)
    · exact .inr (.inr ⟨h.symm, hpath⟩)
  · exact .inr (.inl h)

theorem later_trans {a b c : String × File} (hab : Later a b) (hbc : Later b c) : Later a c := by
  rcases hab with h | ⟨h, hpath⟩
  · rcases hbc with h' | ⟨h', -⟩
    · exact .inl (h'.trans h)
    · exact .inl (h' ▸ h)
  · rcases hbc with h' | ⟨h', hpath'⟩
    · exact .inl (h ▸ h')
    · exact .inr ⟨h'.trans h, String.le_trans hpath' hpath⟩

/-- Two files that are each not before the other have one path. -/
theorem path_eq_of_later {a b : String × File} (hab : Later a b) (hba : Later b a) : a.1 = b.1 := by
  rcases hab with h | ⟨h, hpath⟩
  · rcases hba with h' | ⟨h', -⟩
    · exact absurd (h.trans h') (Nat.lt_irrefl _)
    · omega
  · rcases hba with h' | ⟨-, hpath'⟩
    · omega
    · exact String.le_antisymm hpath' hpath

section latest

variable {dir : Dir} {wanted : String → Bool}

/-- A plain file of the directory with a path that is wanted. -/
def Candidate (dir : Dir) (wanted : String → Bool) (e : String × File) : Prop :=
  dir.get? e.1 = some e.2 ∧ wanted e.1 = true ∧ e.2.plain = true

variable {e : String × File}

theorem mem_candidates :
    e ∈ dir.entries.filter (fun e => wanted e.1 && e.2.plain) ↔ Candidate dir wanted e := by
  unfold Candidate
  rw [List.mem_filter, Bool.and_eq_true, ← Dict.mem_entries]

theorem latest_eq_none : latest dir wanted = none ↔ ∀ e, ¬ Candidate dir wanted e := by
  unfold latest
  rw [List.head?_eq_none_iff]
  constructor
  · intro h e he
    have hmem := (List.perm_insertionSort Later _).mem_iff.mpr (mem_candidates.mpr he)
    rw [h] at hmem
    cases hmem
  · intro h
    refine List.eq_nil_iff_forall_not_mem.mpr fun e he => h e ?_
    exact mem_candidates.mp ((List.perm_insertionSort Later _).mem_iff.mp he)

theorem later_of_latest (h : latest dir wanted = some e) :
    Candidate dir wanted e ∧ ∀ x, Candidate dir wanted x → Later e x := by
  unfold latest at h
  have htotal : Std.Total Later := ⟨later_total⟩
  have htrans : IsTrans (String × File) Later := ⟨fun _ _ _ => later_trans⟩
  have hsorted := List.pairwise_insertionSort Later (dir.entries.filter fun e => wanted e.1 && e.2.plain)
  obtain ⟨rest, hlist⟩ := List.head?_eq_some_iff.mp h
  rw [hlist] at hsorted
  have hmem : ∀ x, Candidate dir wanted x ↔ x ∈ e :: rest := by
    intro x
    rw [← hlist, (List.perm_insertionSort Later _).mem_iff, mem_candidates]
  refine ⟨(hmem e).mpr List.mem_cons_self, fun x hx => ?_⟩
  rcases List.mem_cons.mp ((hmem x).mp hx) with rfl | hx
  · exact (later_total x x).elim id id
  · exact (List.pairwise_cons.mp hsorted).1 x hx

/-- The latest file is the candidate that no other candidate is after. -/
theorem latest_eq_some :
    latest dir wanted = some e ↔ Candidate dir wanted e ∧ ∀ x, Candidate dir wanted x → Later e x := by
  refine ⟨later_of_latest, ?_⟩
  rintro ⟨hcandidate, hlater⟩
  cases hlatest : latest dir wanted with
  | none => exact absurd hcandidate (latest_eq_none.mp hlatest e)
  | some e' =>
    obtain ⟨hcandidate', hlater'⟩ := later_of_latest hlatest
    have hpath := path_eq_of_later (hlater' e hcandidate) (hlater e' hcandidate')
    have hfile := hcandidate.1
    rw [← hpath, hcandidate'.1] at hfile
    exact congrArg some (Prod.ext hpath (Option.some.inj hfile))

end latest

/-! ## After an attempt -/

section attempt

variable {dir : Dir} {a : Attempt} {wanted : String → Bool}

theorem get?_find (writes : Dir) (path : String) :
    (writes.entries.find? fun e => decide (e.1 = path)).map (·.2) = writes.get? path := rfl

/-- A path holds what the attempt wrote there, or what it left in place. -/
theorem get?_on (path : String) : (a.on dir).get? path =
    (a.writes.get? path).or ((dir.get? path).filter fun _ => a.keeps path) := by
  unfold Attempt.on
  rw [Dict.get?_foldl_set a.writes.nodup, get?_find, Dict.get?_filter]

/-- A file of an earlier attempt that is still there. -/
def LeftOver (dir : Dir) (a : Attempt) (e : String × File) : Prop :=
  dir.get? e.1 = some e.2 ∧ a.keeps e.1 = true ∧ a.writes.get? e.1 = none

/-- Each left-over candidate is older than one of the attempt's own. -/
def Fresh (dir : Dir) (a : Attempt) (wanted : String → Bool) : Prop :=
  ∀ e, LeftOver dir a e → wanted e.1 = true → e.2.plain = true → ∃ own, Candidate a.writes wanted own ∧ Later own e

theorem candidate_on {e : String × File} : Candidate (a.on dir) wanted e ↔
    Candidate a.writes wanted e ∨ LeftOver dir a e ∧ wanted e.1 = true ∧ e.2.plain = true := by
  unfold Candidate LeftOver
  rw [get?_on]
  cases hwrites : a.writes.get? e.1 with
  | some file => simp
  | none =>
    cases hdir : dir.get? e.1 with
    | none => simp
    | some file =>
      cases hkeeps : a.keeps e.1 with
      | false => simp
      | true => simp

/-- The file that is chosen is the one that is chosen among the attempt's own exactly when every left-over one is older. -/
theorem latest_on_iff : latest (a.on dir) wanted = latest a.writes wanted ↔ Fresh dir a wanted := by
  constructor
  · intro h e hleft hwanted hplain
    have hcandidate : Candidate (a.on dir) wanted e := candidate_on.mpr (.inr ⟨hleft, hwanted, hplain⟩)
    cases hlatest : latest a.writes wanted with
    | none =>
      rw [hlatest] at h
      exact absurd hcandidate (latest_eq_none.mp h e)
    | some own =>
      rw [hlatest] at h
      exact ⟨own, (latest_eq_some.mp hlatest).1, (latest_eq_some.mp h).2 e hcandidate⟩
  · intro hfresh
    cases hlatest : latest a.writes wanted with
    | none =>
      refine latest_eq_none.mpr fun e he => ?_
      rcases candidate_on.mp he with hown | ⟨hleft, hwanted, hplain⟩
      · exact latest_eq_none.mp hlatest e hown
      · obtain ⟨own, hown, -⟩ := hfresh e hleft hwanted hplain
        exact latest_eq_none.mp hlatest own hown
    | some own =>
      obtain ⟨hcandidate, hlater⟩ := latest_eq_some.mp hlatest
      refine latest_eq_some.mpr ⟨candidate_on.mpr (.inl hcandidate), fun e he => ?_⟩
      rcases candidate_on.mp he with hown | ⟨hleft, hwanted, hplain⟩
      · exact hlater e hown
      · obtain ⟨own', hown', hafter⟩ := hfresh e hleft hwanted hplain
        exact later_trans (hlater own' hown') hafter

/-- Two choices of one path are the same choice: a file of the attempt's own is there as it wrote it. -/
theorem latest_eq_of_path {e own : String × File} (h : latest (a.on dir) wanted = some e) (hown : latest a.writes wanted = some own)
    (hpath : e.1 = own.1) : latest (a.on dir) wanted = latest a.writes wanted := by
  have hfile := (latest_eq_some.mp h).1.1
  have hwritten := (latest_eq_some.mp hown).1.1
  rw [get?_on, hpath, hwritten] at hfile
  rw [h, hown]
  exact congrArg some (Prod.ext hpath (Option.some.inj hfile).symm)

end attempt

/-! ## The results of an attempt -/

section results

variable {F : Type} {parse : Engine → File → Except String (List F)} {settings : Settings}

/-- The files that decide on the results of an attempt are its own. -/
def OwnFiles (engine : Engine) (dir : Dir) (a : Attempt) : Prop :=
  match engine with
  | .nuclei => Fresh dir a fun path => isBelow "" path && isArtifact .nuclei path
  | .strix => Fresh dir a isRunJson ∧ ∀ e, latest a.writes isRunJson = some e →
      Fresh dir a fun path => isBelow (parent e.1) path && isArtifact .strix path

variable {engine : Engine} {runDir : String} {runJson : Option String}

/-- An ingestion reads the directory at the file that is chosen. -/
theorem ingest_congr {dir dir' : Dir}
    (h : latest dir (fun path => isBelow runDir path && isArtifact engine path) =
      latest dir' fun path => isBelow runDir path && isArtifact engine path) :
    ingestScannerRun parse engine runDir runJson dir = ingestScannerRun parse engine runDir runJson dir' := by
  unfold ingestScannerRun
  rw [h]

variable {r : Scan F}

/-- What a successful ingestion found. -/
theorem ingest_ok {dir : Dir}
    (h : ingestScannerRun parse engine runDir runJson dir = .ok r) : r.runJson = runJson ∧
      r.artifactPath = (latest dir fun path => isBelow runDir path && isArtifact engine path).map (·.1) := by
  unfold ingestScannerRun at h
  split at h
  · rename_i hnone
    cases h
    rw [hnone]
    exact ⟨rfl, rfl⟩
  · rename_i path file hsome
    split at h
    · cases h
    cases h
    rw [hsome]
    exact ⟨rfl, rfl⟩

/-- The result of an ingestion is one of the attempt's own files exactly when it is the one chosen among them. -/
theorem ingest_own_iff {dir : Dir} {a : Attempt}
    (h : ingestScannerRun parse engine runDir runJson (a.on dir) = .ok r) :
    ingestScannerRun parse engine runDir runJson a.writes = .ok r ↔
      Fresh dir a fun path => isBelow runDir path && isArtifact engine path := by
  rw [← latest_on_iff]
  constructor
  · intro hown
    have hpath := (ingest_ok h).2
    rw [(ingest_ok hown).2] at hpath
    cases hlatest : latest (a.on dir) fun path => isBelow runDir path && isArtifact engine path with
    | none =>
      rw [hlatest, Option.map_none, Option.map_eq_none_iff] at hpath
      exact hpath.symm
    | some e =>
      rw [hlatest] at hpath
      obtain ⟨own, hlatest', heq⟩ := Option.map_eq_some_iff.mp hpath
      rw [← hlatest]
      exact latest_eq_of_path hlatest hlatest' heq.symm
  · intro hlatest
    rw [← ingest_congr hlatest]
    exact h

/-- The status is read at the `run.json` that is chosen. -/
theorem status_congr {dir dir' : Dir} (h : latest dir isRunJson = latest dir' isRunJson) :
    loadStrixRunStatus settings dir = loadStrixRunStatus settings dir' := by
  unfold loadStrixRunStatus
  rw [h]

theorem status_ok {dir : Dir} {status : StrixRunStatus} (h : loadStrixRunStatus settings dir = .ok status) :
    ∃ e, latest dir isRunJson = some e ∧ status.runJsonPath = e.1 := by
  unfold loadStrixRunStatus at h
  split at h
  · cases h
  rename_i path file hsome
  split at h
  · cases h
  split at h
  · cases h
  · split at h
    · cases h
    cases h
    exact ⟨(path, file), hsome, rfl⟩
  · cases h

/-- What a Strix scan that completes has read. -/
theorem strix_ok {dir : Dir} (h : scan parse settings .strix dir = .ok r) :
    ∃ status e, loadStrixRunStatus settings dir = .ok status ∧ latest dir isRunJson = some e ∧ status.runJsonPath = e.1 ∧
      status.completed = true ∧ ingestScannerRun parse .strix (parent e.1) (some e.1) dir = .ok r := by
  unfold scan at h
  dsimp only at h
  split at h
  · cases h
  rename_i status hstatus
  obtain ⟨e, he, hpath⟩ := status_ok hstatus
  split at h
  · cases h
  rename_i hcompleted
  rw [hpath] at h
  exact ⟨status, e, hstatus, he, hpath, Bool.eq_true_of_not_eq_false hcompleted, h⟩

theorem scan_strix {dir : Dir} {status : StrixRunStatus} (hstatus : loadStrixRunStatus settings dir = .ok status)
    (hcompleted : status.completed = true) : scan parse settings .strix dir =
      ingestScannerRun parse .strix (parent status.runJsonPath) (some status.runJsonPath) dir := by
  unfold scan
  dsimp only
  rw [hstatus]
  dsimp only
  rw [if_neg (by rw [hcompleted]; exact Bool.noConfusion)]

/-- For a completing attempt, after any attempts before it: the results are those of the files that its scanner wrote exactly when
the files that decide are its own. -/
theorem scan_results_own (parse : Engine → File → Except String (List F)) (settings : Settings) (engine : Engine)
    (earlier : List Attempt) (a : Attempt) (r : Scan F) (h : runJob parse settings engine earlier a = .ok r) :
    scan parse settings engine a.writes = .ok r ↔ OwnFiles engine (directory earlier) a := by
  unfold runJob at h
  split at h
  · cases engine with
    | nuclei => exact ingest_own_iff h
    | strix =>
      obtain ⟨status, e, hstatus, he, hpath, hcompleted, hingest⟩ := strix_ok h
      constructor
      · intro hown
        obtain ⟨status', e', -, he', -, -, hingest'⟩ := strix_ok hown
        -- the result names the `run.json` that decided
        have hrun := (ingest_ok hingest).1
        rw [(ingest_ok hingest').1] at hrun
        have hequal : e'.1 = e.1 := Option.some.inj hrun
        have hlatest := latest_eq_of_path he he' hequal.symm
        refine ⟨latest_on_iff.mp hlatest, fun x hx => ?_⟩
        rw [he'] at hx
        cases hx
        rw [hequal] at hingest'
        have hfresh := (ingest_own_iff hingest).mp hingest'
        rw [← hequal] at hfresh
        exact hfresh
      · rintro ⟨hfresh, hartifacts⟩
        have hlatest := latest_on_iff.mpr hfresh
        rw [status_congr hlatest] at hstatus
        rw [scan_strix hstatus hcompleted, hpath]
        exact (ingest_own_iff hingest).mpr (hartifacts e (hlatest ▸ he))
  · cases h

end results

/-! ## A file that an earlier attempt left -/

/-- A parser that takes the text of a file as its only finding. -/
def wholeText (_ : Engine) (file : File) : Except String (List String) := .ok file.text.toList

def sampleFile (mtime : Nat) (content : String) : File := ⟨mtime, content.length, some content, true⟩

def sampleSettings : Settings := ⟨ExecutionContract.sampleUnicode, 256 * 1024⟩

/-- The scanner wrote a match, and then it failed. -/
def failedAttempt : Attempt := ⟨Dict.ofList [("nuclei.jsonl", sampleFile 1 "old match")], fun _ => true, .failed⟩

/-- The scanner ran to its end without a match, and wrote no file. -/
def emptyAttempt : Attempt := ⟨Dict.empty, fun _ => true, .completed⟩

/-- The scanner ran to its end with a match. -/
def matchingAttempt : Attempt := ⟨Dict.ofList [("nuclei.jsonl", sampleFile 2 "new match")], fun _ => true, .completed⟩

theorem scan_results_own_sample : OwnFiles .nuclei (directory [failedAttempt]) matchingAttempt := by
  have hjob : runJob wholeText sampleSettings .nuclei [failedAttempt] matchingAttempt =
      .ok ⟨none, some "nuclei.jsonl", ["new match"]⟩ := rfl
  exact (scan_results_own wholeText sampleSettings .nuclei [failedAttempt] matchingAttempt _ hjob).mp rfl

/-- A scan without matches takes over what the attempt before it left. -/
theorem left_over_ingested :
    runJob wholeText sampleSettings .nuclei [failedAttempt] emptyAttempt = .ok ⟨none, some "nuclei.jsonl", ["old match"]⟩ ∧
      scan wholeText sampleSettings .nuclei emptyAttempt.writes ≠ .ok ⟨none, some "nuclei.jsonl", ["old match"]⟩ := by
  have hown : scan wholeText sampleSettings .nuclei emptyAttempt.writes = .ok ⟨none, none, []⟩ := rfl
  refine ⟨rfl, ?_⟩
  rw [hown]
  intro h
  cases h

end ScannerFiles

end XbowPerso
