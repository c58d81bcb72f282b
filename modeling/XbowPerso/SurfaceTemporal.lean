import Mathlib
import XbowPerso.Identifier
import XbowPerso.Lib.Binary64

/-!
# The temporal profile of a surface

`build_temporal_surface_profile` puts the campaigns of a target in order, the selected one among them, and classifies each node of their
surfaces by the campaigns in which it is present.
-/

namespace XbowPerso

namespace SurfaceTemporal

/-! ## The class of a node -/

inductive Classification where
  | new | returning | disappeared | intermittent | stable | historical | unknown
  deriving DecidableEq

/-- The changes from one campaign to the next. -/
def transitions : List Bool → Nat
  | before :: after :: rest => (if before ≠ after then 1 else 0) + transitions (after :: rest)
  | _ => 0

/-- `presence[-1]`, and `False` where there is none. -/
def current (presence : List Bool) : Bool := presence.getLast?.getD false

/-- `presence[-2]`, and `False` where there is none. -/
def previous (presence : List Bool) : Bool := current presence.dropLast

def appearances (presence : List Bool) : Nat := presence.count true

/-- The literals `0.2` and `0.8`. -/
def oneFifth : Binary64 := .ofQuotient 2 (by decide : 0 < 10)

def fourFifths : Binary64 := .ofQuotient 8 (by decide : 0 < 10)

/-- `_classification` -/
def classification (presence : List Bool) : Classification :=
  if h : 0 < presence.length then
    let ratio := Binary64.ofQuotient (appearances presence) h
    if current presence = true ∧ appearances presence = 1 then .new
    else if current presence = true ∧ previous presence = false ∧ 0 < appearances presence.dropLast then .returning
    else if current presence = false ∧ previous presence = true then .disappeared
    else if 2 ≤ transitions presence ∨
        oneFifth.le ratio = true ∧ ratio.le fourFifths = true ∧ 1 < appearances presence then .intermittent
    else if current presence = true ∧ fourFifths.le ratio = true then .stable
    else if current presence = false ∧ 0 < appearances presence then .historical
    else .unknown
  else .unknown

/-! ## The campaigns that are considered -/

/-- A campaign, with what `target_identity` makes of it; none for a `ValueError`. -/
structure Campaign where
  id : String
  createdAt : String
  identity : Option String
  deriving DecidableEq

/-- A node of a surface: its kind and its value. -/
abbrev Key := String × String

/-- What the store holds: the campaigns as `list_campaigns` gives them, and the surface that `_campaign_surface` makes of the observations
of a campaign. -/
structure Store where
  campaigns : List Campaign
  surface : String → List Key

/-- The limits that the environment sets. -/
structure Limits where
  maxCampaigns : Nat
  maxNodes : Nat
  maxCampaigns_pos : 0 < maxCampaigns

/-- A campaign with the same identity that is not later than the selected one. -/
def isCandidate (identity : String) (cutoff : String) (candidate : Campaign) : Bool :=
  decide (candidate.identity = some identity) && !(decide (cutoff ≠ "") && decide (cutoff < candidate.createdAt))

/-- `matching.sort(..)` and `matching[-max_campaigns:]`. -/
def latest (limits : Limits) (campaigns : List Campaign) : List Campaign :=
  let sorted := campaigns.insertionSort fun a b => toLex (a.createdAt, a.id) ≤ toLex (b.createdAt, b.id)
  sorted.drop (sorted.length - limits.maxCampaigns)

/-- The campaigns that are considered, the earliest first. -/
def considered (limits : Limits) (store : Store) (campaign : Campaign) (identity : String) : List Campaign :=
  let matching := latest limits (store.campaigns.filter (isCandidate identity campaign.createdAt))
  if campaign.id ∈ matching.map Campaign.id then matching else latest limits (matching ++ [campaign])

/-! ## The nodes -/

/-- Sorted pairs. -/
def sortedKeys (keys : List Key) : List Key := keys.insertionSort fun a b => toLex a ≤ toLex b

theorem lawful_key : LawfulBEq Key := inferInstance

attribute [local instance] lawful_key

/-- The nodes so far with those of a surface, up to the limit. -/
def addSurface (limits : Limits) (known : List Key) (surface : List Key) : List Key :=
  if known.length < limits.maxNodes then
    known ++ (sortedKeys (surface.dedup.filter fun key => decide (key ∉ known))).take (limits.maxNodes - known.length)
  else known

/-- `TemporalSurfaceNode` -/
structure Node where
  key : Key
  classification : Classification
  appearances : Nat
  campaignsObserved : Nat
  transitions : Nat
  presenceRatio : Binary64
  presentNow : Bool
  presentPrevious : Bool
  firstSeenCampaignId : Option String
  lastSeenCampaignId : Option String
  deriving DecidableEq

/-- Where a node is present. -/
def presenceOf (store : Store) (campaigns : List Campaign) (key : Key) : List Bool :=
  campaigns.map fun c => decide (key ∈ store.surface c.id)

/-- The node of a key. -/
def nodeOf (store : Store) (campaigns : List Campaign) (key : Key) : Node :=
  let presence := presenceOf store campaigns key
  let seen := (campaigns.filter fun c => decide (key ∈ store.surface c.id)).map Campaign.id
  { key := key
    classification := classification presence
    appearances := appearances presence
    campaignsObserved := presence.length
    transitions := transitions presence
    presenceRatio :=
      if h : 0 < presence.length then Binary64.roundDecimals 4 (.ofQuotient (appearances presence) h) else Binary64.zero
    presentNow := current presence
    presentPrevious := previous presence
    firstSeenCampaignId := seen.head?
    lastSeenCampaignId := seen.getLast? }

/-- The keys that get a node. -/
def universeOf (limits : Limits) (store : Store) (campaigns : List Campaign) : List Key :=
  campaigns.foldl (fun known c => addSurface limits known (store.surface c.id)) []

/-- What `build_temporal_surface_profile` returns, before the lists of the answer are cut. -/
structure Profile where
  campaigns : List Campaign
  nodes : List Node
  deriving DecidableEq

/-- `build_temporal_surface_profile` -/
def buildTemporalSurfaceProfile (limits : Limits) (store : Store) (campaign : Campaign) : Except PyError Profile :=
  if campaign.id = "" then .error (.valueError "campaign id required")
  else
    match campaign.identity with
    | none => .error (.valueError "campaign target has no hostname")
    | some identity =>
      let campaigns := considered limits store campaign identity
      .ok ⟨campaigns, (sortedKeys (universeOf limits store campaigns)).map (nodeOf store campaigns)⟩

end SurfaceTemporal

end XbowPerso
