import XbowPerso.Lib.Glob
import XbowPerso.Lib.PyUrl
import Mathlib.Data.List.Infix

/-!
# The scope policy

`normalize_pattern` and `is_host_allowed`. A pattern is stripped and put in lower case, a URL is reduced to its host, and full stops
at the end are dropped. A host is allowed when no denied pattern matches it and an allowed one does.
-/

namespace XbowPerso

namespace ScopePolicy

open PyText (stripChars)
open PyUrl (urlsplit)

variable (u : Unicode)

/-- `value.rstrip(".")` -/
def rstripDots (value : List Char) : List Char := value.rdropWhile (· = '.')

/-- `"://" in value` -/
def HasScheme (value : List Char) : Prop := [':', '/', '/'] <:+: value

instance (value : List Char) : Decidable (HasScheme value) := inferInstanceAs (Decidable (_ <:+: _))

/-- The host of a URL, or what stands for it when there is none. -/
def hostnameOr (r : PyUrl.SplitResult) (value : List Char) : List Char :=
  match r.hostname u with
  | none => value
  | some hostname => if hostname = [] then value else hostname

/-- `normalize_pattern`; none for a `ValueError`. -/
def normalizePattern (pattern : String) : Option String :=
  let value := u.lower (stripChars pattern.toList)
  if HasScheme value then
    match urlsplit u value with
    | none => none
    | some r => some (String.ofList (rstripDots (u.lower (hostnameOr u r value))))
  else some (String.ofList (rstripDots value))

/-- `fnmatch(host, pattern)`. -/
def hostMatches (host pattern : String) : Bool := Glob.fnmatch host.toList pattern.toList

/-- `str(host).lower().rstrip(".")` -/
def normalizedHost (host : String) : String := String.ofList (rstripDots (u.lower host.toList))

/-- `is_host_allowed`; none for a `ValueError`. -/
def isHostAllowed (host : String) (allowed denied : List String) : Option Bool :=
  match denied.mapM (normalizePattern u) with
  | none => none
  | some deniedPatterns =>
    if deniedPatterns.any (hostMatches (normalizedHost u host)) = true then some false
    else
      match allowed.mapM (normalizePattern u) with
      | none => none
      | some allowedPatterns => some (allowedPatterns.any (hostMatches (normalizedHost u host)))

/-- A host matches an allowed pattern and no denied one. -/
def InScope (host : String) (allowed denied : List String) : Prop :=
  (∃ pattern ∈ allowed, ∃ normal, normalizePattern u pattern = some normal ∧ hostMatches host normal = true) ∧
    ∀ pattern ∈ denied, ∀ normal, normalizePattern u pattern = some normal → hostMatches host normal = false

end ScopePolicy

end XbowPerso
