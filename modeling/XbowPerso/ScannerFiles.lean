import XbowPerso.Lib.Dict
import XbowPerso.Lib.Json
import XbowPerso.Lib.PyUrl

/-!
# The files of a scan

All attempts of a scan job share one run directory. `latest_scanner_artifact` and `load_strix_run_status` choose a file in it by name,
modification time and path, and `run_nuclei_job` and `run_strix_job` take their results from there once the scanner has ended. What
the parsers read from a file is a parameter.
-/

namespace XbowPerso

namespace ScannerFiles

/-! ## The directory -/

/-- A file: its modification time, its size, and its text, when it is UTF-8. It is plain when it is a regular file and no symbolic
link, and resolves to a place below the root. -/
structure File where
  mtime : Nat
  size : Nat
  text : Option String
  plain : Bool

/-- The files below a directory, by their paths relative to it. -/
abbrev Dir := Dict String File

/-- `path.name` -/
def name (path : String) : String := String.ofList (PyUrl.afterLast '/' path.toList)

/-- `path.parent` -/
def parent (path : String) : String := String.ofList (PyUrl.beforeLast '/' path.toList)

/-- The path is below a directory; the root is the empty path. -/
def isBelow (dir path : String) : Bool := decide (dir = "") || (dir ++ "/").toList.isPrefixOf path.toList

/-- The order of the key `(st_mtime, path)`, the latest first. -/
def Later (a b : String × File) : Prop := b.2.mtime < a.2.mtime ∨ b.2.mtime = a.2.mtime ∧ b.1 ≤ a.1

instance : DecidableRel Later := fun _ _ => inferInstanceAs (Decidable (_ ∨ _ ∧ _))

/-- The latest plain file with a path that is wanted. -/
def latest (dir : Dir) (wanted : String → Bool) : Option (String × File) :=
  ((dir.entries.filter fun e => wanted e.1 && e.2.plain).insertionSort Later).head?

/-! ## Results -/

inductive Engine where
  | strix
  | nuclei
  deriving DecidableEq

/-- `artifact_globs`: `**/vulnerabilities.json`, and `**/*.jsonl`, which `**/nuclei*.jsonl` adds nothing to. -/
def isArtifact : Engine → String → Bool
  | .strix, path => decide (name path = "vulnerabilities.json")
  | .nuclei, path => ".jsonl".toList.isSuffixOf (name path).toList

def isRunJson (path : String) : Bool := decide (name path = "run.json")

/-- What an attempt takes from the directory: the `run.json` that decides, the result file, and the findings, of which there are
`findings_seen`. -/
structure Scan (F : Type) where
  runJson : Option String
  artifactPath : Option String
  findings : List F

variable {F : Type} (parse : Engine → File → Except String (List F))

/-- `ingest_scanner_run` below a directory, up to what it does with the findings. -/
def ingestScannerRun (engine : Engine) (runDir : String) (runJson : Option String) (dir : Dir) : Except String (Scan F) :=
  match latest dir fun path => isBelow runDir path && isArtifact engine path with
  | none => .ok ⟨runJson, none, []⟩
  | some (path, file) =>
    match parse engine file with
    | .error e => .error e
    | .ok findings => .ok ⟨runJson, some path, findings⟩

/-! ## The status of a Strix run -/

/-- `bool(value)` -/
def truthy : Json → Bool
  | .null => false
  | .bool b => b
  | .int n => decide (n ≠ 0)
  | .float x => decide (x.whole ≠ 0) || x.fraction.any fun d => decide (d.val ≠ 0)
  | .nan => true
  | .infinity _ => true
  | .str s => decide (s ≠ "")
  | .arr elems => decide (0 < elems.length)
  | .obj fields => decide (0 < fields.length)

/-- `str(payload.get("status") or "").strip().lower()`; none for the text of a value that is no string. -/
def statusText (u : Unicode) (fields : List (String × Json)) : Option String :=
  match fields.find? fun field => decide (field.1 = "status") with
  | none => some ""
  | some (_, .str s) => some (String.ofList (u.lower (PyText.stripChars s.toList)))
  | some (_, value) => if truthy value = true then none else some ""

/-- `StrixRunStatus` -/
structure StrixRunStatus where
  status : Option String
  runJsonPath : String

def StrixRunStatus.completed (s : StrixRunStatus) : Bool := decide (s.status = some "completed")

/-- What the interpreter knows of case, and `max_strix_run_json_bytes`. -/
structure Settings where
  unicode : Unicode
  maxRunJsonBytes : Nat

variable (settings : Settings)

/-- `load_strix_run_status` -/
def loadStrixRunStatus (dir : Dir) : Except String StrixRunStatus :=
  match latest dir isRunJson with
  | none => .error "Strix run.json was not produced"
  | some (path, file) =>
    if settings.maxRunJsonBytes < file.size then .error "Strix run.json exceeds configured size limit"
    else
      match file.text.bind Json.loads with
      | none => .error "Strix run.json is unreadable or invalid"
      | some (.obj fields) =>
        if statusText settings.unicode fields = some "" then .error "Strix run.json is missing status"
        else .ok ⟨statusText settings.unicode fields, path⟩
      | some _ => .error "Strix run.json must contain an object"

/-- The end of `run_nuclei_job` and of `run_strix_job`, over the files of the run directory. -/
def scan (engine : Engine) (dir : Dir) : Except String (Scan F) :=
  match engine with
  | .nuclei => ingestScannerRun parse .nuclei "" none dir
  | .strix =>
    match loadStrixRunStatus settings dir with
    | .error e => .error e
    | .ok status =>
      if status.completed = false then .error ("Strix run did not complete: " ++ status.status.getD "")
      else ingestScannerRun parse .strix (parent status.runJsonPath) (some status.runJsonPath) dir

/-! ## Attempts -/

/-- How the execution of the scanner ends; an attempt is abandoned when its worker dies or loses its lease. -/
inductive Ending where
  | completed
  | failed
  | timedOut
  | abandoned
  deriving DecidableEq

/-- An attempt: the files that the scanner has written when it ends, which of the others it leaves in place, and how it ends. -/
structure Attempt where
  writes : Dir
  keeps : String → Bool
  ending : Ending

/-- The directory after an attempt: nothing is cleared before it. -/
def Attempt.on (a : Attempt) (dir : Dir) : Dir := a.writes.entries.foldl (fun d e => d.set e.1 e.2) (dir.filter fun e => a.keeps e.1)

/-- The run directory after some attempts of a job. -/
def directory (attempts : List Attempt) : Dir := attempts.foldl (fun dir a => a.on dir) Dict.empty

/-- `run_strix_job` and `run_nuclei_job` for an attempt that runs the scanner, after earlier ones of the job. -/
def runJob (engine : Engine) (earlier : List Attempt) (a : Attempt) : Except String (Scan F) :=
  if a.ending = .completed then scan parse settings engine (a.on (directory earlier)) else .error "execution failed"

end ScannerFiles

end XbowPerso
