import XbowPerso.Lib.PyText
import Mathlib.Algebra.Order.Field.Rat
import Mathlib.Data.List.Nodup

/-!
# Authentication of the runner RPC

`RunnerRpcService._authenticate`: the signed headers of a request, the clock window, the signature, and the table of nonces. A
clock reading is a rational number, or none when it is not finite; the two digests are parameters.
-/

namespace XbowPerso

namespace RunnerRpc

open PyText

def protocol : String := "strix-runner-rpc-v1"

/-- `RUNNER_RPC_AUTH_WINDOW_SECONDS`. -/
def authWindow : ℚ := 30

/-- `RUNNER_RPC_MAX_NONCES`. -/
def maxNonces : Nat := 4096

/-- The least integer that does not convert to a float. -/
def floatLimit : Int := 2 ^ 1024 - 2 ^ 970

/-- The digests of the standard library, in hexadecimal. -/
structure Digests where
  sha256Hex : ByteArray → String
  hmacSha256Hex : ByteArray → ByteArray → String

/-- A secret that `_runner_rpc_secret_bytes` accepts. -/
structure Secret where
  text : String
  min_le : 32 ≤ text.toUTF8.size
  le_max : text.toUTF8.size ≤ 4096

/-- A request as `_authenticate` receives it. -/
structure Request where
  method : String
  path : String
  headers : List (String × String)
  body : ByteArray

/-- What `_authenticate` does: it returns none (the request is accepted) or an error, or it raises. -/
inductive Outcome where
  | accepted
  | rejected (status : Nat) (code : String)
  | overflowError
  deriving DecidableEq, Repr

/-- `headers.get(name)`, where an empty value counts as none. -/
def header (r : Request) (name : String) : Option String := (r.headers.lookup name).filter (fun v => v ≠ "")

def Request.timestampRaw (r : Request) : Option String := header r "x-xbow-runner-timestamp"
def Request.nonce (r : Request) : Option String := header r "x-xbow-runner-nonce"
def Request.signature (r : Request) : Option String := header r "x-xbow-runner-signature"

/-- The signed time of a request. -/
def Request.timestamp (r : Request) : Option Int := r.timestampRaw.bind pyInt

/-- What identifies a signed request: method, path, body, timestamp, nonce and signature. -/
def Request.signed (r : Request) : String × String × ByteArray × Option Int × Option String × Option String :=
  (r.method, r.path, r.body, r.timestamp, r.nonce, r.signature)

def isLowerHex (c : Char) : Bool := c.isDigit || (decide ('a' ≤ c) && decide (c ≤ 'f'))

/-- `_NONCE_RE.fullmatch` and `_SIGNATURE_RE.fullmatch`: so many lower-case hexadecimal digits. -/
def isHexOfLength (n : Nat) (s : String) : Bool := s.length == n && s.toList.all isLowerHex

/-- `sign_runner_rpc_request`. -/
def signRunnerRpcRequest (digests : Digests) (secret : Secret) (method path : String) (body : ByteArray) (timestamp : Int)
    (nonce : String) : String :=
  let canonical :=
    String.intercalate "\n" [protocol, method.toUpper, path, toString timestamp, nonce, digests.sha256Hex body]
  digests.hmacSha256Hex secret.text.toUTF8 canonical.toUTF8

/-! ## The table of nonces -/

/-- The nonces in the order in which they were accepted, each with the time it was. -/
structure NonceTable where
  entries : List (String × ℚ)
  nodup : (entries.map (·.1)).Nodup
  bounded : entries.length ≤ maxNonces

namespace NonceTable

def empty : NonceTable := ⟨[], List.nodup_nil, Nat.zero_le _⟩

/-- The front of the table that `_prune_nonces` removes: it stops at the first entry that is recent enough. -/
def stale (now : ℚ) (e : String × ℚ) : Bool := decide (e.2 < now - authWindow)

/-- `_prune_nonces`. -/
def pruneNonces (t : NonceTable) (now : ℚ) : NonceTable where
  entries := t.entries.dropWhile (stale now)
  nodup := t.nodup.sublist ((List.dropWhile_sublist _).map _)
  bounded := (List.dropWhile_sublist _).length_le.trans t.bounded

/-- The last lines of `_authenticate`, under the lock. -/
def remember (t : NonceTable) (now : ℚ) (nonce : String) : Outcome × NonceTable :=
  let t := t.pruneNonces now
  if hn : nonce ∈ t.entries.map (·.1) then (.rejected 409 "replay_detected", t)
  else if hm : maxNonces ≤ t.entries.length then (.rejected 503 "replay_cache_saturated", t)
  else
    (.accepted, {
      entries := t.entries ++ [(nonce, now)]
      nodup := by
        rw [List.map_append, List.nodup_append]
        refine ⟨t.nodup, List.nodup_singleton _, ?_⟩
        rintro a ha b hb rfl
        rw [List.map_singleton, List.mem_singleton] at hb
        exact hn (show nonce ∈ t.entries.map (·.1) from (show a = nonce from hb) ▸ ha)
      bounded := by
        rw [List.length_append, List.length_singleton]
        omega })

end NonceTable

/-! ## The service -/

/-- `_authenticate`, for the clock reading that it takes. -/
def authenticate (digests : Digests) (secret : Option Secret) (t : NonceTable) (now : Option ℚ) (r : Request) :
    Outcome × NonceTable :=
  match secret with
  | none => (.rejected 503 "rpc_key_unavailable", t)
  | some secret =>
    match r.timestampRaw, r.nonce, r.signature with
    | some raw, some nonce, some signature =>
      match pyInt raw with
      | none => (.rejected 401 "authentication_required", t)
      | some timestamp =>
        if !isHexOfLength 32 nonce then (.rejected 401 "authentication_required", t)
        else if !isHexOfLength 64 signature then (.rejected 401 "authentication_required", t)
        else
          match now with
          | none => (.rejected 503 "clock_unavailable", t)
          | some now =>
            if floatLimit ≤ |timestamp| then (.overflowError, t)
            else if authWindow < |now - timestamp| then (.rejected 401 "timestamp_out_of_window", t)
            else if signature ≠ signRunnerRpcRequest digests secret r.method r.path r.body timestamp nonce then
              (.rejected 401 "signature_mismatch", t)
            else t.remember now nonce
    | _, _, _ => (.rejected 401 "authentication_required", t)

/-- A request presented to the service, with the clock reading it meets. -/
structure Arrival where
  now : Option ℚ
  request : Request

/-- The table after a run of requests. -/
def run (digests : Digests) (secret : Option Secret) (t : NonceTable) (arrivals : List Arrival) : NonceTable :=
  arrivals.foldl (fun t a => (authenticate digests secret t a.now a.request).2) t

/-- The wall-clock readings of a run never go back. -/
def Chronological (arrivals : List Arrival) : Prop := (arrivals.filterMap (·.now)).Pairwise (· ≤ ·)

end RunnerRpc

end XbowPerso
