import XbowPerso.Identifier
import XbowPerso.Lib.JsonRoundTrip
import XbowPerso.Lib.Table
import XbowPerso.Lib.Interleave

/-!
# The campaign store

The table `campaigns` with `save_campaign` and `get_campaign_record`. A save selects the version of its row and then inserts the row
or updates it under the version it has selected. SQLite takes the write lock before the select; on PostgreSQL the same statements
run at their own times, so other clients may write between them, and that is how the steps are modelled.
-/

namespace XbowPerso

open Interleave

/-- The settings read from the environment, inside the bounds that reading them enforces. -/
structure StorageSettings where
  maxDocumentBytes : Nat
  document_ge : 65536 ≤ maxDocumentBytes
  document_le : maxDocumentBytes ≤ 10 * 1024 * 1024

/-- The settings of an environment that sets nothing. -/
def StorageSettings.default : StorageSettings := ⟨2 * 1024 * 1024, by decide, by decide⟩

/-- The fields that a campaign document must have. -/
def requiredFields : List String := ["id", "state", "created_at", "updated_at"]

/-- A campaign document: a dictionary with string keys, each once, whose required fields hold texts where they are present. -/
structure CampaignDocument where
  fields : List (String × Json)
  distinct : (Json.obj fields).Distinct
  texts : ∀ f ∈ fields, f.1 ∈ requiredFields → ∃ t, f.2 = .str t

/-- A row of the table `campaigns`. -/
structure CampaignRow where
  id : Ident
  document : String
  state : String
  createdAt : String
  updatedAt : String
  version : Int

/-- The table `campaigns`, with its primary key. -/
abbrev CampaignTable := Table CampaignRow Ident Unit CampaignRow.id (fun _ => none)

/-- What a save writes: the row without its version, as the arguments of the statement. -/
structure CampaignWrite where
  id : Ident
  document : String
  state : String
  createdAt : String
  updatedAt : String

namespace CampaignDocument

/-- A field of the document. -/
def field? (d : CampaignDocument) (key : String) : Option Json := (d.fields.find? (fun f => f.1 = key)).map (·.2)

/-- `str(document[key])` of a required field. -/
def text? (d : CampaignDocument) (key : String) : Option String :=
  match d.field? key with
  | some (.str t) => some t
  | _ => none

/-- `document["id"] = campaign_id` on a copy of the document. -/
def withId (d : CampaignDocument) (id : Ident) : List (String × Json) :=
  d.fields.map fun f => if f.1 = "id" then (f.1, .str id.text) else f

/-- The first lines of `save_campaign`. -/
def prepare (cfg : StorageSettings) (d : CampaignDocument) : Except PyError CampaignWrite :=
  match d.text? "id", d.text? "state", d.text? "created_at", d.text? "updated_at" with
  | some id, some state, some createdAt, some updatedAt =>
    match storageIdentifier id "campaign_id" with
    | .error e => .error e
    | .ok id =>
      let encoded := (Json.obj (d.withId id)).dumps
      if cfg.maxDocumentBytes < encoded.utf8ByteSize then .error (.valueError "campaign document exceeds size limit")
      else .ok ⟨id, encoded, state, createdAt, updatedAt⟩
  | _, _, _, _ => .error (.valueError "campaign document missing required fields")

end CampaignDocument

/-- The error of a save under a version that is not the stored one. -/
def PyError.campaignConflict : PyError := .campaignConflictError "campaign version conflict"

namespace CampaignTable

/-- The select of `save_campaign`: the stored version, or the error of a save that did not expect it. -/
def expect (t : CampaignTable) (id : Ident) (expected : Option Int) : Except PyError (Option Int) :=
  match t.find? id with
  | none => if expected = none ∨ expected = some 0 then .ok none else .error .campaignConflict
  | some row =>
    match expected with
    | none => .ok (some row.version)
    | some v => if v = row.version then .ok (some row.version) else .error .campaignConflict

/-- The row of a new campaign. -/
def newRow (w : CampaignWrite) : CampaignRow := ⟨w.id, w.document, w.state, w.createdAt, w.updatedAt, 1⟩

/-- The row of an updated one. -/
def updatedRow (w : CampaignWrite) (row : CampaignRow) (next : Int) : CampaignRow :=
  { row with document := w.document, state := w.state, updatedAt := w.updatedAt, version := next }

/-- The insert, or the update under the version selected. -/
def write (t : CampaignTable) (w : CampaignWrite) : Option Int → Except PyError Int × CampaignTable
  | none =>
    match t.insert (newRow w) with
    | some t' => (.ok 1, t')
    | none => (.error .integrityError, t)
  | some current =>
    let hit (row : CampaignRow) : Bool := decide (row.id = w.id) && decide (row.version = current)
    if t.rows.countP hit = 1 then
      (.ok (current + 1), t.update (fun row => if hit row then updatedRow w row (current + 1) else row)
        (fun row => by split <;> rfl) (fun _ => rfl))
    else (.error .campaignConflict, t)

/-- `get_campaign_record` on a normalised identifier. -/
def record (id : Ident) (t : CampaignTable) : Option (Option Json × Int) :=
  (t.find? id).map fun row => (Json.loads row.document, row.version)

end CampaignTable

/-! ## Clients -/

/-- One turn of a client on a campaign: it reads the record, or creates the campaign without reading; from what it has read it
computes a new document of that campaign, or decides not to save. -/
structure SaveTurn where
  settings : StorageSettings
  campaign : Ident
  reads : Bool
  compute : Option (Json × Int) → Option CampaignDocument
  same : ∀ base d w, compute base = some d → d.prepare settings = .ok w → w.id = campaign

/-- The steps of the clients. -/
inductive StorageStep where
  | load (turn : SaveTurn)
  | select (turn : SaveTurn) (base : Option (Json × Int)) (w : CampaignWrite)
  | write (turn : SaveTurn) (base : Option (Json × Int)) (w : CampaignWrite) (current : Option Int)

/-- How a turn ends. -/
inductive SaveReply where
  | saved (version : Int)
  | raised (e : PyError)
  | notSaved
  deriving DecidableEq

/-- A client: turn after turn, each chosen after the reply of the one before. -/
inductive StorageClient where
  | stop
  | turn (t : SaveTurn) (next : SaveReply → StorageClient)

namespace CampaignTable

/-- A program of the steps on the table; it takes no input. -/
abbrev StorageProg (α : Type) := Prog StorageStep Unit CampaignTable α

/-- The version that a client expects: the one it has read, 0 where it has found no campaign or has not looked. -/
def expectedVersion (base : Option (Json × Int)) : Option Int := some (Versioned.version base)

/-- `save_campaign(document, expected_version=version)` on validated arguments. -/
def saveSteps (turn : SaveTurn) (base : Option (Json × Int)) (w : CampaignWrite) : StorageProg SaveReply :=
  (Prog.read (.select turn base w) fun _ t => t.expect w.id (expectedVersion base)).bind fun
    | .error e => .done (.raised e)
    | .ok current =>
      (Prog.atomic (.write turn base w current) fun _ t => ((t.write w current).2, (t.write w current).1)).bind fun
        | .error e => .done (.raised e)
        | .ok version => .done (.saved version)

/-- The end of a turn, from the record that was read. -/
def computeSteps (turn : SaveTurn) (base : Option (Json × Int)) : StorageProg SaveReply :=
  match turn.compute base with
  | none => .done .notSaved
  | some d =>
    match d.prepare turn.settings with
    | .error e => .done (.raised e)
    | .ok w => saveSteps turn base w

/-- A turn: load, compute, save with the version that was read. -/
def turnSteps (turn : SaveTurn) : StorageProg SaveReply :=
  if turn.reads then
    (Prog.read (.load turn) fun _ t => record turn.campaign t).bind fun
      | none => computeSteps turn none
      | some (none, _) => .done (.raised .jsonDecodeError)
      | some (some document, version) => computeSteps turn (some (document, version))
  else computeSteps turn none

/-- A client. -/
def clientSteps : StorageClient → StorageProg Unit
  | .stop => .done ()
  | .turn t next => (turnSteps t).bind fun reply => clientSteps (next reply)

/-- The clients over the empty store. -/
def clients (cs : Nat → StorageClient) : Pool StorageStep Unit CampaignTable Unit where
  shared := .empty
  thread k := clientSteps (cs k)

end CampaignTable

end XbowPerso
