import XbowPerso.AuditSeal
import XbowPerso.ExecutionContract

/-!
# The scope check of scanner findings

`normalize_strix_item` and `normalize_nuclei_item` take the asset and the endpoint of a finding from an item of a scanner document and
judge it by one host. `build_probe_url` later reads the host of the endpoint or of the asset.
-/

namespace XbowPerso

/-- What the normalisers take from the interpreter. -/
structure ScannerEnv where
  unicode : Unicode
  /-- `str(value)` -/
  str : Json → String
  str_str : ∀ s, str (.str s) = s
  /-- `str.lower` leaves no text empty. -/
  lower_ne_nil : ∀ s, s ≠ [] → unicode.lower s ≠ []

namespace ScannerNormalization

open PyUrl (urlsplit before)
open ScopePolicy (rstripDots HasScheme isHostAllowed)
open ExecutionContract (Campaign)

abbrev Text := List Char

/-- An object of a scanner document. -/
abbrev Item := Dict String Json

/-- `NormalizedScannerFinding`, the fields that name a host. -/
structure NormalizedScannerFinding where
  engine : String
  asset : Text
  endpoint : Option Text
  deriving DecidableEq

variable (env : ScannerEnv) (c : Campaign)

/-- `item.get(a) or item.get(b) or …`, the last alternative apart. -/
def firstOf (item : Item) : List String → Option Json
  | [] => none
  | name :: names =>
    match item.get? name with
    | some value => if AuditSeal.truthy value then some value else firstOf item names
    | none => firstOf item names

/-- `_optional_str`; none for a `TypeError`, since lists and objects have no hash. -/
def optionalStr : Json → Option (Option Text)
  | .null => some none
  | .str s => if s = "" then some none else some (some s.toList)
  | .arr _ | .obj _ => none
  | value => some (some (env.str value).toList)

/-- The check of a host against the targets of the campaign; none for a `ValueError`. -/
def hostAllowed (host : Text) : Option Bool :=
  isHostAllowed env.unicode (String.ofList host) c.rules.allowedTargets c.rules.deniedTargets

/-- `(urlparse(asset).hostname or asset.split(":")[0]).lower()`; none for a `ValueError`. -/
def strixHost (asset : Text) : Option Text :=
  (urlsplit env.unicode asset).map fun parsed =>
    env.unicode.lower (match parsed.hostname env.unicode with
      | none => before ':' asset
      | some hostname => if hostname = [] then before ':' asset else hostname)

/-- The asset of an item of Strix. -/
def strixAsset (item : Item) : Text :=
  match firstOf item ["asset", "target"] with
  | some value => (env.str value).toList
  | none => c.primaryUrl.toList

/-- `normalize_strix_item`; the outer none for an exception. -/
def normalizeStrixItem (item : Item) : Option (Option NormalizedScannerFinding) :=
  match strixHost env (strixAsset env c item) with
  | none => none
  | some host =>
    match hostAllowed env c host with
    | none => none
    | some false => some none
    | some true =>
      (optionalStr env ((item.get? "endpoint").getD .null)).map fun endpoint =>
        some ⟨"strix", strixAsset env c item, endpoint⟩

/-- The text of an item of Nuclei that names where it matched. -/
def matchedAt (item : Item) : Text :=
  match firstOf item ["matched-at", "matched_at", "url"] with
  | some value => (env.str value).toList
  | none => []

/-- `f"{urlparse(matched_at).scheme}://{host}"` -/
def nucleiAsset (scheme host : Text) : Text := scheme ++ [':', '/', '/'] ++ host

/-- `normalize_nuclei_item`; the outer none for an exception. -/
def normalizeNucleiItem (item : Item) : Option (Option NormalizedScannerFinding) :=
  match urlsplit env.unicode (matchedAt env item) with
  | none => none
  | some parsed =>
    let host := env.unicode.lower ((parsed.hostname env.unicode).getD [])
    if matchedAt env item = [] ∨ host = [] then some none
    else
      match hostAllowed env c host with
      | none => none
      | some false => some none
      | some true => some (some ⟨"nuclei", nucleiAsset parsed.scheme host, some (matchedAt env item)⟩)

/-- `parsed.hostname.lower().rstrip(".")` in `build_probe_url`; none where there is no host. -/
def probeHost (url : Text) : Option Text :=
  (urlsplit env.unicode url).bind fun parsed =>
    (parsed.hostname env.unicode).map fun hostname => rstripDots (env.unicode.lower hostname)

end ScannerNormalization

end XbowPerso
