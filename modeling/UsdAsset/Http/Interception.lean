import UsdAsset.Http.Uri

/-!
# Interception

Models the interception part of `HttpAssetReader.cpp`: which headers a request
interceptor may add, and what one interception admits.  Nothing an interceptor
returned reaches a message, except the name of a header this backend owns.
-/

namespace UsdAsset.Http

open ByteString

def whereText (uri : Uri) : Bytes := bytes " (" ++ elideSecrets uri.toIdentity ++ bytes ")"

/-- RFC 9110 §5.6.2 `tchar`. -/
def isTokenChar (byte : UInt8) : Bool :=
  ('a' ≤ byte && byte ≤ 'z') || ('A' ≤ byte && byte ≤ 'Z') || isDigit byte ||
    (bytes "!#$%&'*+-.^_`|~").contains byte

def isToken (text : Bytes) : Bool := text != [] && text.all isTokenChar

/-- The headers this backend's correctness rests on, lowercase. -/
def reservedHeaders : List Bytes :=
  [bytes "accept-encoding", bytes "connection", bytes "content-encoding",
    bytes "content-length", bytes "expect", bytes "host", bytes "if-match",
    bytes "if-modified-since", bytes "if-none-match", bytes "if-range",
    bytes "if-unmodified-since", bytes "keep-alive", bytes "proxy-connection",
    bytes "range", bytes "te", bytes "trailer", bytes "transfer-encoding",
    bytes "upgrade", bytes "user-agent"]

def isReservedHeader (name : Bytes) : Bool := reservedHeaders.contains (name.map lowerAscii)

/-- Visible characters, blanks and the bytes above ASCII, and at least one of them. -/
def isSafeFieldValue (value : Bytes) : Bool :=
  value != [] && value.all fun byte => !((byte < 0x20 && byte != '\t') || byte == 0x7f)

def isInterceptableHeader (name value : Bytes) : Bool :=
  isToken name && !isReservedHeader name && isSafeFieldValue value

def refusedHeaderStatus (header : RequestHeader) (uri : Uri) : Status :=
  let what :=
    if isToken header.name ∧ isReservedHeader header.name then
      bytes "the request interceptor tried to set " ++ header.name.map lowerAscii ++
        bytes ", which this backend sends itself"
    else
      bytes "the request interceptor supplied a header that cannot be sent: a name that is not a token, or an empty value or one with a control character"
  .failure .invalidArgument (what ++ whereText uri)

def RequestHeader.wireBytes (header : RequestHeader) : ℕ :=
  header.name.length + 2 + header.value.length + 2

/-- Judges the headers one by one, knowing the names seen and the bytes counted so far. -/
def admitHeaders (uri : Uri) : List RequestHeader → List Bytes → ℕ → Except Status Unit
  | [], _, _ => .ok ()
  | header :: rest, seen, total =>
      if !isInterceptableHeader header.name header.value then
        .error (refusedHeaderStatus header uri)
      else
        let lower := header.name.map lowerAscii
        if seen.contains lower then
          .error (.failure .invalidArgument
            (bytes "the request interceptor supplied the same header more than once" ++
              whereText uri))
        else
          let total := total + header.wireBytes
          if total > maxInterceptedHeaderBytes then
            .error (.failure .invalidArgument
              (bytes "the request interceptor added more than " ++
                decimal maxInterceptedHeaderBytes ++ bytes " bytes of header" ++ whereText uri))
          else admitHeaders uri rest (seen ++ [lower]) total

/-- What the interceptor is told about a request. -/
def interceptedView (method : Method) (uri : Uri) (redirectHop attempt : ℕ) :
    InterceptedRequest where
  method := match method with
    | .head => bytes "HEAD"
    | .get => bytes "GET"
  url := uri.toIdentity
  scheme := uri.scheme
  host := uri.host
  port := uri.effectivePort
  redirectHop := redirectHop
  attempt := attempt

/-- Asks the interceptor about one request and admits what it answers. -/
def intercept (interceptor : RequestInterceptor) (time : ℕ) (method : Method) (uri : Uri)
    (redirectHop attempt : ℕ) : Except Status (List RequestHeader) :=
  match interceptor time (interceptedView method uri redirectHop attempt) with
  | none =>
      .error (.failure .accessDenied
        (bytes "the request interceptor declined the request" ++ whereText uri))
  | some headers => (admitHeaders uri headers [] 0).map fun _ => headers

/-- The codes a request is refused with before it is made. -/
def IsRefusal (status : Status) : Prop :=
  status.code = .accessDenied ∨ status.code = .invalidArgument

variable {status : Status}

theorem IsRefusal.code_ne_ok (refusal : IsRefusal status) :
    status.code ≠ .ok := by
  rcases refusal with code | code <;> simp [code]

theorem IsRefusal.code_ne_assetChanged (refusal : IsRefusal status) :
    status.code ≠ .assetChanged := by
  rcases refusal with code | code <;> simp [code]

theorem admitHeaders_error_code {uri : Uri} {headers : List RequestHeader} {seen : List Bytes}
    {total : ℕ} (refused : admitHeaders uri headers seen total = .error status) :
    status.code = .invalidArgument := by
  induction headers generalizing seen total with
  | nil => simp [admitHeaders] at refused
  | cons header rest ih =>
    simp only [admitHeaders] at refused
    split at refused
    · cases refused
      rfl
    · split at refused
      · cases refused
        rfl
      · split at refused
        · cases refused
          rfl
        · exact ih refused

theorem intercept_refusal {interceptor : RequestInterceptor} {time : ℕ} {method : Method}
    {uri : Uri} {redirectHop attempt : ℕ}
    (refused : intercept interceptor time method uri redirectHop attempt = .error status) :
    IsRefusal status := by
  unfold intercept at refused
  split at refused
  · cases refused
    exact Or.inl rfl
  · rename_i headers _
    cases admitted : admitHeaders uri headers [] 0 with
    | ok _ => simp [admitted, Except.map] at refused
    | error failure =>
      simp only [admitted, Except.map, Except.error.injEq] at refused
      subst refused
      exact Or.inr (admitHeaders_error_code admitted)

end UsdAsset.Http
