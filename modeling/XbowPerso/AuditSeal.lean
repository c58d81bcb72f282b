import XbowPerso.Identifier
import XbowPerso.Lib.JsonRoundTrip
import XbowPerso.ManifestAdmission

/-!
# The seals of the audit

What the audits of campaigns, decisions, workers and policies share: an entry with its canonical bytes, the comparison of a stored
digest, and the check of a signature that is there.
-/

namespace XbowPerso

/-- The functions of the standard library, and the key. -/
structure AuditEnv where
  sha : Sha256
  /-- `hmac.new(secret.encode(), message, hashlib.sha256).hexdigest()` -/
  hmac : String → List UInt8 → String
  hmac_valid : ∀ secret message, RunnerRpc.isHexOfLength 64 (hmac secret message) = true
  /-- `str(value)` -/
  str : Json → String
  str_str : ∀ s, str (.str s) = s

/-- What `resolve_secret("audit_hmac_key", "XBOW_AUDIT_HMAC_KEY")` returns, or raises. -/
abbrev ResolvedSecret := Except PyError (Option String)

/-- The key that signs, if there is one: the empty text counts as none. -/
def ResolvedSecret.key : ResolvedSecret → Option String
  | .ok (some secret) => if secret = "" then none else some secret
  | _ => none

/-- An entry: a dictionary with texts as keys. -/
structure AuditEntry where
  fields : Dict String Json
  distinct : ∀ e ∈ fields.entries, e.2.Distinct

theorem distinct_str (s : String) : (Json.str s).Distinct := trivial

theorem distinct_int (n : Int) : (Json.int n).Distinct := trivial

theorem distinct_bool (b : Bool) : (Json.bool b).Distinct := trivial

theorem distinct_empty : ∀ e ∈ (Dict.empty : Dict String Json).entries, e.2.Distinct := fun _ h => absurd h List.not_mem_nil

namespace AuditEntry

/-- `entry.get(key)`. -/
def get (entry : AuditEntry) (key : String) : Json := (entry.fields.get? key).getD .null

/-- `entry[key] = value`. -/
def set (entry : AuditEntry) (key : String) (value : Json) (h : value.Distinct) : AuditEntry where
  fields := entry.fields.set key value
  distinct := by
    rintro ⟨k, v⟩ he
    have hget := Dict.mem_entries.mp he
    rw [Dict.get?_set] at hget
    split at hget
    · cases hget
      exact h
    · exact entry.distinct _ (Dict.mem_entries.mpr hget)

theorem get_set {entry : AuditEntry} {key k : String} {value : Json} (h : value.Distinct) :
    (entry.set key value h).get k = if k = key then value else entry.get k := by
  unfold get set
  dsimp only
  rw [Dict.get?_set]
  split
  · rfl
  · rfl

theorem get_distinct (entry : AuditEntry) (key : String) : (entry.get key).Distinct := by
  unfold get
  cases h : entry.fields.get? key with
  | none => trivial
  | some value => exact entry.distinct _ (Dict.mem_entries.mpr h)

/-- The canonical bytes of an entry without some of its fields. -/
def canonicalWithout (volatile : List String) (entry : AuditEntry) : List UInt8 :=
  utf8 (Json.obj (entry.fields.filter fun e => decide (e.1 ∉ volatile)).entries).dumpsSorted

/-- The canonical bytes of some fields of an entry, under an identifier if it has one. -/
def canonicalOf (id : Option String) (names : List String) (entry : AuditEntry) : List UInt8 :=
  utf8 (Json.obj ((id.toList.map fun id => ("id", .str id)) ++ names.map fun name => (name, entry.get name))).dumpsSorted

end AuditEntry

namespace AuditSeal

/-- A text, if the value is one. -/
def text? : Json → Option String
  | .str s => some s
  | _ => none

/-- The truth value of a value. -/
def truthy : Json → Bool
  | .null => false
  | .bool b => b
  | .int n => decide (n ≠ 0)
  | .float x => decide (x.whole ≠ 0) || x.fraction.any fun d => decide (d ≠ 0)
  | .nan => true
  | .infinity _ => true
  | .str s => decide (s ≠ "")
  | .arr vs => !vs.isEmpty
  | .obj fs => !fs.isEmpty

/-- `hmac.compare_digest(str(value), digest)`, which raises for a text that is not ASCII. -/
def compareDigest (env : AuditEnv) (value : Json) (digest : String) : Except PyError Bool :=
  if (env.str value).toList.any (fun c => decide (128 ≤ c.toNat)) = true then
    .error (.typeError "comparing strings with non-ASCII characters is not supported")
  else .ok (decide (env.str value = digest))

/-- The check of a signature. An entry without one passes. -/
def checkSignature (env : AuditEnv) (what : String) (secret : ResolvedSecret) (signature algorithm : Json) (canonical : List UInt8) :
    Except PyError (Option String) :=
  if signature.pyEq .null = true then .ok none
  else if algorithm.pyEq (.str "hmac-sha256") = false then .ok (some ("unsupported " ++ what ++ " signature algorithm"))
  else
    match secret with
    | .error e => .error e
    | .ok resolved =>
      match ResolvedSecret.key (.ok resolved) with
      | none => .ok (some "verification key unavailable")
      | some key =>
        match compareDigest env signature (env.hmac key canonical) with
        | .error e => .error e
        | .ok false => .ok (some (what ++ " signature mismatch"))
        | .ok true => .ok none

/-- The two fields of a new signature: its algorithm and itself. -/
def sign (env : AuditEnv) (key : Option String) (canonical : List UInt8) : Json × Json :=
  match key with
  | none => (.null, .null)
  | some key => (.str "hmac-sha256", .str (env.hmac key canonical))

theorem sign_distinct (env : AuditEnv) (key : Option String) (canonical : List UInt8) :
    (sign env key canonical).1.Distinct ∧ (sign env key canonical).2.Distinct := by
  cases key with
  | none => exact ⟨trivial, trivial⟩
  | some key => exact ⟨trivial, trivial⟩

end AuditSeal

end XbowPerso
