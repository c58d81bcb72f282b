import XbowPerso.Lib.IpAddress
import XbowPerso.Lib.PyText

/-!
# URLs as Python splits them

`urllib.parse.urlsplit` and the host name, port and user of its result. Lower case and the compatibility normal form come from the
Unicode database of the interpreter and are parameters: of the first the splitting and its users rely on the ASCII letters and on a
text in lower case staying as it is, of the second on a full stop at the end staying where it is.
-/

/-- What the Unicode database says about texts. -/
structure Unicode where
  lower : List Char → List Char
  nfkc : List Char → List Char
  Lowered : Char → Prop
  lowered_of_mem_lower : ∀ {s : List Char} {c : Char}, c ∈ lower s → Lowered c
  lower_of_lowered : ∀ {s : List Char}, (∀ c ∈ s, Lowered c) → lower s = s
  lower_ascii : ∀ {s : List Char}, (∀ c ∈ s, c.toNat < 128) → lower s = s.map Char.toLower
  nfkc_dot : ∀ s : List Char, nfkc (s ++ ['.']) = nfkc s ++ ['.']

namespace Unicode

variable (u : Unicode)

theorem lower_lower (s : List Char) : u.lower (u.lower s) = u.lower s :=
  u.lower_of_lowered fun _ hc => u.lowered_of_mem_lower hc

/-- ASCII characters other than capital letters are in lower case. -/
theorem lowered_ascii {c : Char} (hascii : c.toNat < 128) (hlower : c.toLower = c) : u.Lowered c := by
  have hsingle : u.lower [c] = [c] := by
    rw [u.lower_ascii (by simpa using hascii), List.map_singleton, hlower]
  exact u.lowered_of_mem_lower (hsingle ▸ List.mem_singleton.mpr rfl)

end Unicode

namespace PyUrl

/-- A text of ASCII characters. -/
def isAscii (s : List Char) : Bool := s.all fun c => decide (c.toNat < 128)

/-! ## Partitions -/

/-- `s.partition(c)[0]` and `s.partition(c)[2]`. -/
def before (c : Char) (s : List Char) : List Char := s.takeWhile (· ≠ c)

def after (c : Char) (s : List Char) : List Char := (s.dropWhile (· ≠ c)).tail

/-- `s.rpartition(c)[2]` -/
def afterLast (c : Char) (s : List Char) : List Char := s.rtakeWhile (· ≠ c)

/-- `s.rpartition(c)[0]` -/
def beforeLast (c : Char) (s : List Char) : List Char := (s.rdropWhile (· ≠ c)).dropLast

/-! ## Splitting -/

structure SplitResult where
  scheme : List Char
  netloc : List Char
  path : List Char
  query : List Char
  fragment : List Char

/-- White space and control characters in front are dropped, tabs and line ends everywhere. -/
def clean (url : List Char) : List Char :=
  (url.dropWhile fun c => decide (c.toNat ≤ 32)).filter fun c => c ≠ '\t' ∧ c ≠ '\r' ∧ c ≠ '\n'

def isSchemeChar (c : Char) : Bool := c.isAlphanum || c = '+' || c = '-' || c = '.'

/-- The scheme and what follows it. -/
def splitScheme (url : List Char) : List Char × List Char :=
  let scheme := before ':' url
  if ':' ∈ url ∧ (scheme.head?.map Char.isAlpha).getD false = true ∧ scheme.all isSchemeChar = true then
    (scheme.map Char.toLower, after ':' url)
  else ([], url)

/-- The host in brackets is an IPv6 address or an address of a later version. -/
def checkBracketedHost (hostname : List Char) : Bool :=
  match hostname with
  | 'v' :: version =>
    let digits := version.takeWhile IpAddress.isHexDigit
    let rest := version.dropWhile IpAddress.isHexDigit
    decide (digits ≠ []) && decide (rest.head? = some '.') && decide (rest.tail ≠ [])
  | _ =>
    match IpAddress.address? hostname with
    | some (.v6 _ _) => true
    | _ => false

/-- `_check_bracketed_netloc`, for a network location with both brackets. -/
def checkBracketedNetloc (netloc : List Char) : Bool :=
  let hostnameAndPort := afterLast '@' netloc
  if '[' ∈ hostnameAndPort then
    let bracketed := after '[' hostnameAndPort
    let port := after ']' bracketed
    decide (before '[' hostnameAndPort = []) && decide (port = [] ∨ port.head? = some ':') &&
      checkBracketedHost (before ']' bracketed)
  else checkBracketedHost (before ':' hostnameAndPort)

def checkBrackets (netloc : List Char) : Bool :=
  if '[' ∈ netloc ∧ ']' ∈ netloc then checkBracketedNetloc netloc
  else decide ('[' ∉ netloc ∧ ']' ∉ netloc)

/-- `_checknetloc`: normalising makes no delimiter. -/
def checkNetloc (u : Unicode) (netloc : List Char) : Bool :=
  if netloc = [] ∨ isAscii netloc = true then true
  else
    let n := netloc.filter fun c => c ≠ '@' ∧ c ≠ ':' ∧ c ≠ '#' ∧ c ≠ '?'
    decide (n = u.nfkc n) || (u.nfkc n).all fun c => c ≠ '/' ∧ c ≠ '?' ∧ c ≠ '#' ∧ c ≠ '@' ∧ c ≠ ':'

/-- The network location and what follows it. -/
def splitNetloc (url : List Char) : List Char × List Char :=
  match url with
  | '/' :: '/' :: rest =>
    (rest.takeWhile fun c => c ≠ '/' ∧ c ≠ '?' ∧ c ≠ '#', rest.dropWhile fun c => c ≠ '/' ∧ c ≠ '?' ∧ c ≠ '#')
  | _ => ([], url)

/-- `urlsplit(url)`; none for a `ValueError`. -/
def urlsplit (u : Unicode) (url : List Char) : Option SplitResult :=
  let (scheme, rest) := splitScheme (clean url)
  let (netloc, rest) := splitNetloc rest
  if checkBrackets netloc = true ∧ checkNetloc u netloc = true then
    some ⟨scheme, netloc, before '?' (before '#' rest), after '?' (before '#' rest), after '#' rest⟩
  else none

/-! ## The parts of the network location -/

/-- `_hostinfo` -/
def hostinfo (netloc : List Char) : List Char × List Char :=
  let hostinfo := afterLast '@' netloc
  if '[' ∈ hostinfo then
    let bracketed := after '[' hostinfo
    (before ']' bracketed, after ':' (after ']' bracketed))
  else (before ':' hostinfo, after ':' hostinfo)

/-- `hostname`: none when there is none. A zone of an IPv6 address keeps its case. -/
def SplitResult.hostname (u : Unicode) (r : SplitResult) : Option (List Char) :=
  let hostname := (hostinfo r.netloc).1
  if hostname = [] then none
  else some (u.lower (before '%' hostname) ++ hostname.dropWhile (· ≠ '%'))

/-- `port`; none for a `ValueError`. -/
def SplitResult.port (r : SplitResult) : Option (Option Nat) :=
  let port := (hostinfo r.netloc).2
  if port = [] then some none
  else if port.all Char.isDigit = false ∨ PyText.intDigitLimit < port.length then none
  else
    let n := IpAddress.value 10 port
    if n ≤ 65535 then some (some n) else none

/-- `username` and `password`, empty when they are missing. -/
def SplitResult.username (r : SplitResult) : List Char :=
  if '@' ∈ r.netloc then before ':' (beforeLast '@' r.netloc) else []

def SplitResult.password (r : SplitResult) : List Char :=
  if '@' ∈ r.netloc then after ':' (beforeLast '@' r.netloc) else []

end PyUrl
