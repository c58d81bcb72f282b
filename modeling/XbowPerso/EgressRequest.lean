import XbowPerso.Egress
import XbowPerso.ExecutionContract
import XbowPerso.Lib.Base64

/-!
# A request of the egress transport

`perform_bounded_http_request` from the request model to its answer: the authorisation, the checks of the URL and of the headers, the
slot of the contract, the resolver, what `http.client` encodes before it sends, and the response model. The resolver and the server
are parameters. An exception that is no `StrixEgressError` is kept apart: the service does not map it.
-/

namespace XbowPerso

namespace EgressRequest

open Egress (Network Slots SlotError idnaEncode connectName acquireRequestSlot releaseRequestSlot)
open ExecutionContract (BrokerContractDocument ContractError Python authorizeStrixContractRequest boundedRate?)
open PyUrl (isAscii)
open RunnerRpc (isHexOfLength)

/-! ## Exceptions -/

inductive Escape where
  | unicodeError
  | validationError
  | valueError
  | typeError
  | zeroDivision

/-- `StrixEgressError` and its subclasses, and what is none of them. -/
inductive Failure where
  | egress (message : String)
  | policy (message : String)
  | network (message : String)
  | rateLimit (retryAfterSeconds : Binary64)
  | concurrency (message : String)
  | escape (e : Escape)

/-- The exception is a `StrixEgressError`. -/
def Failure.IsEgressError : Failure → Prop
  | .escape _ => False
  | _ => True

def Failure.ofContract : ContractError → Failure
  | .contract message => .policy message
  | .valueError => .escape .valueError
  | .typeError => .escape .typeError

def Failure.ofSlot : SlotError → Failure
  | .zeroDivision => .escape .zeroDivision
  | .concurrency message => .concurrency message
  | .rateLimit seconds => .rateLimit seconds

/-! ## The request -/

inductive Method where
  | get
  | head
  deriving DecidableEq

/-- `BrokerHttpRequest`, with what its model admits. -/
structure BrokerHttpRequest where
  contract : BrokerContractDocument
  target : String
  requestedRps : Binary64
  method : Method
  headers : List (String × String)
  contract_hash : isHexOfLength 64 contract.contractHash = true
  contract_signature : isHexOfLength 64 contract.signature = true
  target_length : 1 ≤ target.length ∧ target.length ≤ 2048
  rate : boundedRate? requestedRps = some requestedRps
  headers_nodup : (headers.map (·.1)).Nodup
  headers_length : headers.length ≤ 32

/-- `XBOW_STRIX_EGRESS_TIMEOUT_SECONDS` as `float` reads it, and `XBOW_STRIX_EGRESS_MAX_RESPONSE_BYTES` as `int` does. -/
structure Settings where
  timeout : Option Binary64
  maxResponseBytes : Option Int

def thirty : Binary64 := Binary64.ofRatio false (30 * 2 ^ 1074) Nat.one_pos

/-- `_timeout_seconds` -/
def timeoutSeconds (settings : Settings) : Except Failure Binary64 :=
  match settings.timeout with
  | none => .error (.egress "XBOW_STRIX_EGRESS_TIMEOUT_SECONDS must be a number")
  | some value =>
    if Binary64.one.le value = true ∧ value.le thirty = true then .ok value
    else .error (.egress "XBOW_STRIX_EGRESS_TIMEOUT_SECONDS must be between 1 and 30")

/-- `_max_response_bytes` -/
def maxResponseBytes (settings : Settings) : Except Failure Nat :=
  match settings.maxResponseBytes with
  | none => .error (.egress "XBOW_STRIX_EGRESS_MAX_RESPONSE_BYTES must be an integer")
  | some value =>
    if 1024 ≤ value ∧ value ≤ 1048576 then .ok value.toNat
    else .error (.egress "XBOW_STRIX_EGRESS_MAX_RESPONSE_BYTES must be between 1 KiB and 1 MiB")

/-! ## Headers -/

/-- The characters of `_HEADER_NAME`. -/
def isHeaderNameChar (c : Char) : Bool := c.isAlphanum || "!#$%&'*+.^_`|~-".toList.contains c

/-- A name that both header checks let through, before the forbidden names. -/
def isHeaderName (name : String) : Bool :=
  decide (name ≠ "") && decide (name.length ≤ 128) && name.toList.all isHeaderNameChar

/-- A control character other than a tab. -/
def isControl (c : Char) : Bool := (decide (c.toNat < 32) && decide (c ≠ '\t')) || decide (c.toNat = 127)

/-- `_FORBIDDEN_REQUEST_HEADERS` -/
def forbiddenRequestHeaders : List String :=
  ["connection", "content-length", "host", "keep-alive", "proxy-authenticate", "proxy-authorization", "proxy-connection", "te",
    "trailer", "transfer-encoding", "upgrade"]

/-- `_FORBIDDEN_RESPONSE_HEADERS` -/
def forbiddenResponseHeaders : List String :=
  ["connection", "keep-alive", "proxy-authenticate", "proxy-authorization", "proxy-connection", "te", "trailer",
    "transfer-encoding", "upgrade"]

/-- One header of the request. -/
def addHeader (normalized : Dict String String) (header : String × String) : Except Failure (Dict String String) :=
  let name := PyText.strip header.1
  if isHeaderName name = false ∨ name.toLower ∈ forbiddenRequestHeaders then .error (.policy "unsafe Strix egress request header")
  else if 4096 < header.2.utf8ByteSize ∨ header.2.toList.any isControl = true then
    .error (.policy "unsafe Strix egress request header value")
  else .ok (normalized.set name header.2)

def addHeaders (normalized : Dict String String) : List (String × String) → Except Failure (Dict String String)
  | [] => .ok normalized
  | header :: headers =>
    match addHeader normalized header with
    | .error e => .error e
    | .ok normalized => addHeaders normalized headers

/-- A header that is sent when the request has none of that name. -/
def withDefault (normalized : Dict String String) (name value : String) : Dict String String :=
  if normalized.keys.any (fun key => decide (key.toLower = name.toLower)) = true then normalized else normalized.set name value

/-- `_normalize_headers` -/
def normalizeHeaders (headers : List (String × String)) : Except Failure (Dict String String) :=
  if 32 < headers.length then .error (.policy "too many Strix egress request headers")
  else
    match addHeaders Dict.empty headers with
    | .error e => .error e
    | .ok normalized => .ok (withDefault (withDefault normalized "User-Agent" "xbow-strix-egress/1.0") "Accept" "*/*")

/-! ## Before the slot -/

/-- What is known of a request before it asks for its slot. -/
structure Prepared where
  contractHash : String
  rps : Binary64
  https : Bool
  host : String
  port : Nat
  path : String
  headers : Dict String String
  timeout : Binary64
  maxBytes : Nat
  method : Method

/-- `parsed.port or (443 if parsed.scheme == "https" else 80)` -/
def portOr (https : Bool) (port : Option Nat) : Nat :=
  match port with
  | none => if https then 443 else 80
  | some 0 => if https then 443 else 80
  | some port => port

/-- The path and the query that are asked for. -/
def targetPath (parsed : PyUrl.SplitResult) : String :=
  let path := if parsed.path = [] then ['/'] else parsed.path
  String.ofList (if parsed.query = [] then path else path ++ '?' :: parsed.query)

/-- The checks of the URL, the headers and the settings, once the target is authorised. -/
def prepareAuthorized (settings : Settings) (u : Unicode) (r : BrokerHttpRequest) (authorized : ExecutionContract.AuthorizedRequest) :
    Except Failure Prepared :=
  if (authorized.target.toList.any fun c => decide (c.toNat < 32) || decide (c.toNat = 127)) = true then
    .error (.policy "unsafe control character in Strix egress URL")
  else if '\\' ∈ authorized.target.toList then .error (.policy "backslashes in Strix egress URLs are forbidden")
  else
    match PyUrl.urlsplit u authorized.target.toList with
    | none => .error (.escape .valueError)
    | some parsed =>
      if parsed.scheme ≠ "http".toList ∧ parsed.scheme ≠ "https".toList then .error (.policy "Strix egress requires HTTP(S)")
      else
        match parsed.port with
        | none => .error (.policy "Strix egress target port is invalid")
        | some port =>
          match normalizeHeaders r.headers with
          | .error e => .error e
          | .ok headers =>
            match timeoutSeconds settings with
            | .error e => .error e
            | .ok timeout =>
              match maxResponseBytes settings with
              | .error e => .error e
              | .ok maxBytes =>
                let https := decide (parsed.scheme = "https".toList)
                .ok ⟨authorized.contractHash, authorized.maxRequestsPerSecond, https, authorized.host, portOr https port,
                  targetPath parsed, headers, timeout, maxBytes, r.method⟩

/-- `perform_bounded_http_request` up to `_acquire_request_slot`. -/
def prepare (py : Python) (settings : Settings) (secret : String) (r : BrokerHttpRequest) : Except Failure Prepared :=
  match authorizeStrixContractRequest py secret r.contract.toContract r.target r.requestedRps with
  | .error e => .error (.ofContract e)
  | .ok authorized => prepareAuthorized settings py.unicode r authorized

/-! ## The resolver -/

inductive Family where
  | inet
  | inet6
  | other
  deriving DecidableEq

/-- A record of `getaddrinfo`: its family, whether it is for a stream, and the address. -/
structure AddressRecord where
  family : Family
  stream : Bool
  address : String

/-- `ResolvedEndpoint`; `sockaddr` is the text of the address that is connected to. -/
structure ResolvedEndpoint where
  family : Family
  sockaddr : String
  port : Nat
  address : String
  addressType : String

variable (net : Network)

/-- `_public_ip` -/
def publicIp (value : String) : Except Failure IpAddress.Address :=
  match IpAddress.address? value.toList with
  | none => .error (.policy "Strix egress resolved an invalid IP address")
  | some address =>
    if net.isGlobal address = true then .ok address
    else .error (.policy "Strix egress target resolved to a non-public IP address")

def isV6 : IpAddress.Address → Bool
  | .v4 _ => false
  | .v6 _ _ => true

def addressType (address : IpAddress.Address) : String := if isV6 address then "ipv6" else "ipv4"

def text (address : IpAddress.Address) : String := String.ofList address.text

/-- The loop over the records, after some candidates. -/
def candidates (port : Nat) (found : List ResolvedEndpoint) : List AddressRecord → Except Failure (List ResolvedEndpoint)
  | [] => .ok found
  | record :: records =>
    if record.stream = false ∨ record.family = .other then candidates port found records
    else
      match publicIp net record.address with
      | .error e => .error e
      | .ok address =>
        if found.any (fun c => decide (c.family = record.family ∧ c.address = text address)) = true then
          candidates port found records
        else candidates port (found ++ [⟨record.family, record.address, port, text address, addressType address⟩]) records

/-- The order of the key `(address_type, address)`. -/
def Before (a b : ResolvedEndpoint) : Prop := a.addressType < b.addressType ∨ a.addressType = b.addressType ∧ a.address ≤ b.address

instance : DecidableRel Before := fun _ _ => inferInstanceAs (Decidable (_ ∨ _ ∧ _))

/-- `resolve_public_endpoint`; `getaddrinfo` takes the ASCII form of the name, and `lookup` gives none for a `gaierror`. -/
def resolvePublicEndpoint (lookup : List Char → Nat → Option (List AddressRecord)) (host : String) (port : Nat) :
    Except Failure ResolvedEndpoint :=
  match IpAddress.address? host.toList with
  | some literal =>
    match publicIp net (text literal) with
    | .error e => .error e
    | .ok address =>
      .ok ⟨if isV6 address then .inet6 else .inet, text address, port, text address, addressType address⟩
  | none =>
    match idnaEncode net host.toList with
    | none => .error (.escape .unicodeError)
    | some name =>
      match lookup name port with
      | none => .error (.network "Strix egress DNS resolution failed")
      | some records =>
        match candidates net port [] records with
        | .error e => .error e
        | .ok found =>
          match (found.insertionSort Before).head? with
          | none => .error (.network "Strix egress DNS resolution returned no usable address")
          | some endpoint => .ok endpoint

/-! ## The response -/

/-- A response of `http.client`; `read` gives none when the body cannot be read. -/
structure Response where
  status : Nat
  reason : String
  headers : List (String × String)
  read : Nat → Option (List UInt8)
  status_code : 100 ≤ status ∧ status ≤ 999

/-- `BrokerHeader` -/
structure BrokerHeader where
  name : String
  value : String
  name_length : 1 ≤ name.length ∧ name.length ≤ 128
  value_length : value.length ≤ 4096

def BrokerHeader.validate (name value : String) : Option BrokerHeader :=
  if h : (1 ≤ name.length ∧ name.length ≤ 128) ∧ value.length ≤ 4096 then some ⟨name, value, h.1, h.2⟩ else none

/-- The characters whose UTF-8 fits into so many bytes; the rest of one that is cut is replaced. -/
def utf8Prefix : Nat → List Char → List Char
  | _, [] => []
  | limit, c :: cs =>
    if c.utf8Size ≤ limit then c :: utf8Prefix (limit - c.utf8Size) cs
    else if limit = 0 then [] else ['\uFFFD']

/-- The value of a header as the response carries it. -/
def cutValue (value : String) : String :=
  if 4096 < value.utf8ByteSize then String.ofList (utf8Prefix 4096 value.toList) else value

/-- `_response_headers`, after some headers. -/
def responseHeaders (sanitized : List BrokerHeader) : List (String × String) → Option (List BrokerHeader)
  | [] => some sanitized
  | header :: headers =>
    if 64 ≤ sanitized.length then some sanitized
    else
      let name := PyText.strip header.1
      let value := PyText.strip header.2
      if isHeaderName name = false ∨ name.toLower ∈ forbiddenResponseHeaders then responseHeaders sanitized headers
      else if value.toList.any isControl = true then responseHeaders sanitized headers
      else
        match BrokerHeader.validate name (cutValue value) with
        | none => none
        | some clean => responseHeaders (sanitized ++ [clean]) headers

/-- `BrokerHttpResponse`, with the limits of its model. -/
structure BrokerHttpResponse where
  statusCode : Nat
  reason : String
  headers : List BrokerHeader
  bodyBase64 : String
  bodyBytes : Nat
  truncated : Bool
  contractHash : String
  host : String
  method : Method
  status_code : 100 ≤ statusCode ∧ statusCode ≤ 599
  reason_length : reason.length ≤ 256
  headers_length : headers.length ≤ 64
  contract_hash : isHexOfLength 64 contractHash = true

/-- The response model over the values that are computed; none for a `ValidationError`. -/
def BrokerHttpResponse.validate (statusCode : Nat) (reason : String) (headers : List BrokerHeader) (body : List UInt8)
    (truncated : Bool) (p : Prepared) : Option BrokerHttpResponse :=
  if h : (100 ≤ statusCode ∧ statusCode ≤ 599) ∧ reason.length ≤ 256 ∧ headers.length ≤ 64 ∧
      isHexOfLength 64 p.contractHash = true then
    some ⟨statusCode, reason, headers, String.ofList (Base64.encode body), body.length, truncated, p.contractHash, p.host, p.method,
      h.1, h.2.1, h.2.2.1, h.2.2.2⟩
  else none

def requestFailed : Failure := .network "Strix egress request failed"

/-- The payload: none is read for `HEAD`. -/
def payload (p : Prepared) (response : Response) : Option (List UInt8) :=
  match p.method with
  | .head => some []
  | .get => response.read (p.maxBytes + 1)

/-- The answer from the response of the server. -/
def respond (p : Prepared) (response : Response) : Except Failure BrokerHttpResponse :=
  match payload p response with
  | none => .error requestFailed
  | some bytes =>
    match responseHeaders [] response.headers with
    | none => .error (.escape .validationError)
    | some headers =>
      match BrokerHttpResponse.validate response.status (String.ofList (response.reason.toList.take 256)) headers
          (bytes.take p.maxBytes) (decide (p.maxBytes < bytes.length)) p with
      | none => .error (.escape .validationError)
      | some answer => .ok answer

/-! ## Sending -/

/-- The connection is refused or times out, or it is made; then the handshake or the reply may be bad. -/
inductive Reply where
  | unreachable
  | connected (response : Option Response)

/-- The resolver and the server. -/
structure Remote where
  lookup : List Char → Nat → Option (List AddressRecord)
  serve : Prepared → ResolvedEndpoint → Reply

/-- A character that `http.client` takes neither in the host nor in the path: `InvalidURL`. -/
def isDisallowed (c : Char) : Bool := decide (c.toNat ≤ 32) || decide (c.toNat = 127)

def isLatin1 (value : String) : Bool := value.toList.all fun c => decide (c.toNat < 256)

/-- The connection object and `request`, up to the first byte that is sent: the host, the request line, the `Host` header and the
other headers. -/
def encodeRequest (p : Prepared) : Except Failure Unit :=
  if p.host.toList.any isDisallowed = true ∨ p.path.toList.any isDisallowed = true then .error requestFailed
  else if isAscii p.path.toList = false then .error (.escape .unicodeError)
  else if connectName net p.host.toList = none then .error (.escape .unicodeError)
  else if p.headers.values.all isLatin1 = false then .error (.escape .unicodeError)
  else .ok ()

/-- The `try` block of `perform_bounded_http_request`. -/
def exchange (remote : Remote) (p : Prepared) : Except Failure BrokerHttpResponse :=
  match resolvePublicEndpoint net remote.lookup p.host p.port with
  | .error e => .error e
  | .ok endpoint =>
    match encodeRequest net p with
    | .error e => .error e
    | .ok () =>
      match connectName net endpoint.sockaddr.toList with
      | none => .error (.escape .unicodeError)
      | some _ =>
        match remote.serve p endpoint with
        | .unreachable => .error requestFailed
        | .connected response =>
          -- the name for the handshake
          if p.https = true ∧ idnaEncode net p.host.toList = none then .error (.escape .unicodeError)
          else
            match response with
            | none => .error requestFailed
            | some response => respond p response

/-- `perform_bounded_http_request`; `meanwhile` is what other requests do to the slots while this one is in flight. -/
def performBoundedHttpRequest (py : Python) (settings : Settings) (secret : String) (remote : Remote) (meanwhile : Slots → Slots)
    (now : Binary64.Finite) (s : Slots) (r : BrokerHttpRequest) : Except Failure BrokerHttpResponse × Slots :=
  match prepare py settings secret r with
  | .error e => (.error e, s)
  | .ok p =>
    match acquireRequestSlot s p.contractHash p.rps now with
    | (.error e, s) => (.error (.ofSlot e), s)
    | (.ok (), s) => (exchange net remote p, releaseRequestSlot (meanwhile s) p.contractHash)

end EgressRequest

end XbowPerso
