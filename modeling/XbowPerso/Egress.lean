import XbowPerso.Lib.Binary64
import XbowPerso.Lib.Dict
import Mathlib.Data.Finset.Basic

/-!
# Pacing of the egress transport

For each contract the transport remembers the reading of the clock at its last request, and whether a request is in flight. The
table is bounded: a contract that is new to a full table takes the place of the oldest one that has no request in flight. A request
holds its slot from when it is accepted until it ends.
-/

namespace XbowPerso

namespace Egress

open Binary64 (Finite recip sub)

/-- `_MAX_RATE_KEYS` -/
def maxRateKeys : Nat := 4096

/-- `_LAST_REQUEST_AT`, oldest first, and `_INFLIGHT_CONTRACTS`. -/
structure Slots where
  lastRequestAt : Dict String Finite
  inflight : Finset String

inductive SlotError where
  | zeroDivision
  | concurrency (message : String)
  | rateLimit (retryAfterSeconds : Binary64)

/-- `max(0.001, retry_after_seconds)` -/
def retryAfter (seconds : Binary64) : Binary64 :=
  let least := Binary64.ofRatio false (2 ^ 1074) (show 0 < 1000 by decide)
  if least.lt seconds then seconds else least

/-- What remains of the interval since the last request of the contract, when it is above zero. -/
def remaining? (s : Slots) (contractHash : String) (interval : Binary64) (now : Finite) : Option Binary64 :=
  match s.lastRequestAt.get? contractHash with
  | none => none
  | some previous =>
    let remaining := sub interval (sub (.finite now) (.finite previous))
    if Binary64.zero.lt remaining then some remaining else none

/-- The oldest contract without a request in flight. -/
def stale? (s : Slots) : Option String := s.lastRequestAt.keys.find? fun stale => stale ∉ s.inflight

/-- The contract is new to a full table. -/
def Crowded (s : Slots) (contractHash : String) : Prop :=
  contractHash ∉ s.lastRequestAt.keys ∧ maxRateKeys ≤ s.lastRequestAt.size

instance (s : Slots) (contractHash : String) : Decidable (Crowded s contractHash) := inferInstanceAs (Decidable (_ ∧ _))

/-- The table with room for the contract. -/
def makeRoom (s : Slots) (contractHash : String) : Option (Dict String Finite) :=
  if Crowded s contractHash then (stale? s).map fun stale => s.lastRequestAt.erase stale
  else some s.lastRequestAt

/-- `_acquire_request_slot` -/
def acquireRequestSlot (s : Slots) (contractHash : String) (rps : Binary64) (now : Finite) : Except SlotError Unit × Slots :=
  match recip rps with
  | none => (.error .zeroDivision, s)
  | some interval =>
    if contractHash ∈ s.inflight then
      (.error (.concurrency "Strix egress contract already has a request in flight"), s)
    else
      match remaining? s contractHash interval now with
      | some remaining => (.error (.rateLimit (retryAfter remaining)), s)
      | none =>
        match makeRoom s contractHash with
        | none => (.error (.concurrency "Strix egress rate state is saturated"), s)
        | some table => (.ok (), ⟨table.setLast contractHash now, insert contractHash s.inflight⟩)

/-- `_release_request_slot` -/
def releaseRequestSlot (s : Slots) (contractHash : String) : Slots := ⟨s.lastRequestAt, s.inflight.erase contractHash⟩

/-! ## Requests -/

/-- A call on the transport: a request asks for a slot at a reading of the clock, or one of those in flight ends. -/
inductive Call where
  | accept (contractHash : String) (rps : Binary64) (now : Finite)
  | release (number : Nat)

/-- The slots, and the contracts of the requests in flight, one for each request. -/
structure Transport where
  slots : Slots
  flying : List String

def Transport.empty : Transport := ⟨⟨Dict.empty, ∅⟩, []⟩

/-- A request that was accepted. -/
structure Admission where
  contractHash : String
  rps : Binary64
  now : Finite

/-- The request that a call admits. -/
def admission (t : Transport) : Call → Option Admission
  | .accept contractHash rps now =>
    match acquireRequestSlot t.slots contractHash rps now with
    | (.ok _, _) => some ⟨contractHash, rps, now⟩
    | (.error _, _) => none
  | .release _ => none

def Transport.step (t : Transport) : Call → Transport
  | .accept contractHash rps now =>
    match acquireRequestSlot t.slots contractHash rps now with
    | (.ok _, slots) => ⟨slots, contractHash :: t.flying⟩
    | (.error _, slots) => ⟨slots, t.flying⟩
  | .release number =>
    match t.flying[number]? with
    | none => t
    | some contractHash => ⟨releaseRequestSlot t.slots contractHash, t.flying.eraseIdx number⟩

/-- After a run. -/
def Transport.after : Transport → List Call → Transport
  | t, [] => t
  | t, call :: calls => (t.step call).after calls

/-- What a run admits, in order. -/
def admissions : Transport → List Call → List Admission
  | _, [] => []
  | t, call :: calls => (admission t call).toList ++ admissions (t.step call) calls

end Egress

end XbowPerso
