import XbowPerso.Identifier
import XbowPerso.Lib.Json

/-!
# The observations of a campaign

The table `observations` for one campaign, and `put_observation`: an observation is stored once, and putting it again with the same
content changes nothing.
-/

namespace XbowPerso

/-- The kinds of observations that the storage accepts. -/
inductive ObservationKind where
  | asset | endpoint | form | technology | waf | finding | evidence | validation
  deriving DecidableEq, Repr

namespace ObservationKind

/-- The word of a kind. -/
def word : ObservationKind → String
  | asset => "asset"
  | endpoint => "endpoint"
  | form => "form"
  | technology => "technology"
  | waf => "waf"
  | finding => "finding"
  | evidence => "evidence"
  | validation => "validation"

/-- `ALLOWED_OBSERVATION_KINDS`. -/
def all : List ObservationKind := [asset, endpoint, form, technology, waf, finding, evidence, validation]

/-- The kind of a word, if the storage accepts it. -/
def ofWord? (w : String) : Option ObservationKind := all.find? (fun k => k.word = w)

end ObservationKind

/-- An observation as its recorder gives it. -/
structure Observation where
  id : String
  kind : String
  value : String
  source : String
  parentIds : List String
  metadata : List (String × Json)

/-- A row of the table `observations`. -/
structure ObservationRow where
  id : Ident
  kind : ObservationKind
  value : String
  source : String
  parentIds : List Ident
  metadata : List (String × Json)

/-- The settings read from the environment, inside the bounds that reading them enforces. -/
structure ObservationSettings where
  maxBytes : Nat
  bytes_ge : 1024 ≤ maxBytes
  bytes_le : maxBytes ≤ 1024 * 1024

theorem ObservationSettings.default_ge : 1024 ≤ 65536 := by decide

theorem ObservationSettings.default_le : 65536 ≤ 1024 * 1024 := by decide

/-- The settings of an environment that sets nothing. -/
def ObservationSettings.default : ObservationSettings := ⟨65536, default_ge, default_le⟩

namespace ObservationRow

/-- The text whose size is bounded. -/
def encoded (r : ObservationRow) : String :=
  (Json.obj [("id", .str r.id.text), ("kind", .str r.kind.word), ("value", .str r.value), ("source", .str r.source),
    ("parent_ids", .arr (r.parentIds.map fun p => .str p.text)), ("metadata", .obj r.metadata)]).dumps

/-- The content that a second put must repeat. -/
def sameContent (stored requested : ObservationRow) : Bool :=
  decide (stored.kind = requested.kind) && decide (stored.value = requested.value) &&
    decide (stored.source = requested.source) && decide (stored.parentIds = requested.parentIds) &&
    Json.pyEq (.obj stored.metadata) (.obj requested.metadata)

end ObservationRow

namespace Observation

/-- The first lines of `put_observation`: the row, with its identifiers normalised. -/
def prepare (cfg : ObservationSettings) (o : Observation) : Except PyError ObservationRow :=
  match ObservationKind.ofWord? o.kind with
  | none => .error (.valueError "unsupported observation kind")
  | some kind =>
    if 64 < o.parentIds.length then .error (.valueError "observation parent_ids exceed limit")
    else
      match o.parentIds.mapM (fun p => storageIdentifier p "parent_id") with
      | .error e => .error e
      | .ok parents =>
        match storageIdentifier o.id "observation_id" with
        | .error e => .error e
        | .ok id =>
          let row : ObservationRow := ⟨id, kind, o.value, o.source, parents, o.metadata⟩
          if cfg.maxBytes < row.encoded.utf8ByteSize then .error (.valueError "observation exceeds size limit")
          else .ok row

end Observation

/-- The observations of a campaign. -/
abbrev Observations := List ObservationRow

namespace Observations

/-- The row of an identifier. -/
def find? (rows : Observations) (id : Ident) : Option ObservationRow := List.find? (fun r => decide (r.id = id)) rows

/-- The transaction of `put_observation` on a campaign that exists. -/
def insert (rows : Observations) (row : ObservationRow) : Except PyError Observations :=
  if row.parentIds.any (fun p => (find? rows p).isNone) then .error (.valueError "observation references unknown parent")
  else
    match find? rows row.id with
    | some stored =>
      if stored.sameContent row then .ok rows else .error (.valueError "observation id reused with different content")
    | none => .ok (rows ++ [row])

/-- `put_observation` on a campaign that exists. -/
def put (cfg : ObservationSettings) (rows : Observations) (o : Observation) : Except PyError Observations :=
  match o.prepare cfg with
  | .error e => .error e
  | .ok row => insert rows row

/-- What an accepted row makes of the rows: it is new and its parents are there, or its identifier is there already. -/
theorem insert_cases {rows rows' : Observations} {row : ObservationRow} (h : insert rows row = .ok rows') :
    (rows' = rows ++ [row] ∧ row.id ∉ rows.map ObservationRow.id ∧ ∀ p ∈ row.parentIds, p ∈ rows.map ObservationRow.id) ∨
      (rows' = rows ∧ row.id ∈ rows.map ObservationRow.id) := by
  unfold insert at h
  split at h
  · cases h
  rename_i hparents
  split at h
  · rename_i stored hfind
    split at h
    · cases h
      have hid : stored.id = row.id := by simpa using List.find?_some hfind
      exact .inr ⟨rfl, List.mem_map.mpr ⟨stored, List.mem_of_find?_eq_some hfind, hid⟩⟩
    · cases h
  · rename_i hfind
    cases h
    refine .inl ⟨rfl, ?_, fun p hp => ?_⟩
    · intro hmem
      obtain ⟨r, hr, hid⟩ := List.mem_map.mp hmem
      have hne := List.find?_eq_none.mp hfind r hr
      simp [hid] at hne
    · by_contra hmissing
      refine hparents (List.any_eq_true.mpr ⟨p, hp, ?_⟩)
      rw [Option.isNone_iff_eq_none]
      refine List.find?_eq_none.mpr fun r hr hid => hmissing (List.mem_map.mpr ⟨r, hr, ?_⟩)
      exact of_decide_eq_true hid

/-- A put adds rows at the end at most. -/
theorem prefix_put {cfg : ObservationSettings} {rows rows' : Observations} {o : Observation} (h : put cfg rows o = .ok rows') :
    rows <+: rows' := by
  unfold put at h
  split at h
  · cases h
  rcases insert_cases h with ⟨rfl, -⟩ | ⟨rfl, -⟩
  · exact List.prefix_append _ _
  · exact List.prefix_rfl

end Observations

/-! ## The observations of all campaigns -/

/-- The campaigns that exist, with the observations of each. -/
abbrev ObservationStore := Ident → Option Observations

namespace ObservationStore

/-- A call of `put_observation`. -/
structure Put where
  campaignId : String
  observation : Observation

/-- `put_observation`. -/
def putObservation (cfg : ObservationSettings) (store : ObservationStore) (call : Put) : Except PyError ObservationStore :=
  match storageIdentifier call.campaignId "campaign_id" with
  | .error e => .error e
  | .ok campaign =>
    match call.observation.prepare cfg with
    | .error e => .error e
    | .ok row =>
      match store campaign with
      | none => .error (.keyError campaign.text)
      | some rows =>
        match Observations.insert rows row with
        | .error e => .error e
        | .ok rows => .ok fun c => if c = campaign then some rows else store c

/-- A call that raises leaves the store as it was. -/
def step (cfg : ObservationSettings) (store : ObservationStore) (call : Put) : ObservationStore :=
  match putObservation cfg store call with
  | .error _ => store
  | .ok store => store

def run (cfg : ObservationSettings) (store : ObservationStore) (calls : List Put) : ObservationStore := calls.foldl (step cfg) store

/-- What a call can do: nothing, or add a row with a new identifier and known parents to one campaign. -/
theorem step_cases (cfg : ObservationSettings) (store : ObservationStore) (call : Put) :
    step cfg store call = store ∨
      ∃ campaign rows row, store campaign = some rows ∧ row.id ∉ rows.map ObservationRow.id ∧
        (∀ p ∈ row.parentIds, p ∈ rows.map ObservationRow.id) ∧
        step cfg store call = fun c => if c = campaign then some (rows ++ [row]) else store c := by
  unfold step putObservation
  cases storageIdentifier call.campaignId "campaign_id" with
  | error e => exact .inl rfl
  | ok campaign =>
    cases call.observation.prepare cfg with
    | error e => exact .inl rfl
    | ok row =>
      dsimp only
      cases hc : store campaign with
      | none => exact .inl rfl
      | some rows =>
        dsimp only
        cases hi : Observations.insert rows row with
        | error e => exact .inl rfl
        | ok rows' =>
          rcases Observations.insert_cases hi with ⟨rfl, hnew, hparents⟩ | ⟨rfl, -⟩
          · exact .inr ⟨campaign, rows, row, hc, hnew, hparents, rfl⟩
          · refine .inl (funext fun c => ?_)
            dsimp only
            split
            · rename_i heq
              rw [heq, hc]
            · rfl

end ObservationStore

end XbowPerso
