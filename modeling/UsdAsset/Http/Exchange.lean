import UsdAsset.Lib.Buffer
import UsdAsset.Http.Destination
import UsdAsset.Http.Framing
import UsdAsset.Http.Interception

/-!
# One logical exchange

Models `PerformExchange` of `HttpAssetReader.cpp`: one request, following
bounded redirects and applying bounded retry.  The two nested loops of the
source are `attemptLoop`, which consumes the retry budget of the whole
operation, and `hopLoop`, whose budget belongs to this exchange alone.

What goes over the transport is recorded: `Wire` holds the requests sent so far
with their responses, the caller's buffer as the transport has written it, and
the counters the reader keeps.
-/

namespace UsdAsset.Http

open ByteString

/-! ### Projection onto the typed vocabulary -/

def destinationRefusedStatus (refused : Option AddressClass) (uri : Uri) : Status :=
  let what := match refused with
    | some addressClass => addressClassName addressClass ++ bytes " addresses"
    | none => bytes "an address it cannot classify"
  .failure .accessDenied
    (bytes "the destination policy does not permit connecting to " ++ what ++ whereText uri)

def projectTransportError (error : TransportError) (uri : Uri) : Status :=
  match error with
  | .connectFailed =>
      .failure .networkError (bytes "could not connect to the server" ++ whereText uri)
  | .connectionLost =>
      .failure .networkError (bytes "the server closed the connection" ++ whereText uri)
  | .connectTimeout => .failure .timeout (bytes "the connect deadline elapsed" ++ whereText uri)
  | .responseTimeout =>
      .failure .timeout
        (bytes "the response deadline elapsed before the server sent a status line" ++
          whereText uri)
  | .transferTimeout =>
      .failure .timeout
        (bytes "the transfer deadline elapsed while the body was still arriving" ++ whereText uri)
  | .incompleteBody =>
      .failure .invalidResponse
        (bytes "the response body ended before the length it declared" ++ whereText uri)
  | .malformed =>
      .failure .invalidResponse
        (bytes "the response could not be parsed as HTTP" ++ whereText uri)
  | .headersTooLarge =>
      .failure .invalidResponse
        (bytes "the response header block exceeded " ++ decimal maxResponseHeaderBytes ++
          bytes " bytes" ++ whereText uri)
  | .destinationRefused => destinationRefusedStatus none uri
  | .internal =>
      .failure .networkError
        (bytes "the HTTP client could not issue the request" ++ whereText uri)
  | .none => .success

/-- A status that is neither a success nor a redirect, projected. -/
def projectHttpStatus (status : Int) (uri : Uri) : Status :=
  if status = 404 ∨ status = 410 then
    (Status.failure .notFound (bytes "the asset does not exist" ++ whereText uri)).withTransportStatus
      status
  else if status = 401 ∨ status = 403 then
    (Status.failure .accessDenied
      (bytes "the server refused access to the asset" ++ whereText uri)).withTransportStatus status
  else if status = 405 ∨ status = 501 then
    (Status.failure .unsupported
      (bytes "the server does not support the metadata request this backend issues (HEAD)" ++
        whereText uri)).withTransportStatus status
  else if status ≥ 500 then
    (Status.failure .networkError
      (bytes "the server reported an error and did not recover within the retry budget" ++
        whereText uri)).withTransportStatus status
  else if status = 429 then
    (Status.failure .networkError
      (bytes "the server is rate limiting and did not recover within the retry budget" ++
        whereText uri)).withTransportStatus status
  else
    (Status.failure .invalidResponse
      (bytes "the server answered with an unusable status" ++ whereText uri)).withTransportStatus
      status

def assetChangedStatus (uri : Uri) (how : Bytes) : Status :=
  .failure .assetChanged (bytes "the asset changed while it was open: " ++ how ++ whereText uri)

/-- The redirects followed; `303` is absent on purpose. -/
def isRedirect (status : Int) : Bool :=
  status == 301 || status == 302 || status == 307 || status == 308

/-- Statuses worth issuing the same idempotent request for again. -/
def isRetryableStatus (status : Int) : Bool :=
  status == 429 || status == 502 || status == 503 || status == 504

/-- Failures worth retrying when nothing at all came back. -/
def isRetryableTransportError (error : TransportError) : Bool :=
  error == .connectFailed || error == .connectionLost

/-- Whether a body that stopped early is worth asking for the remainder of. -/
def isResumable (error : TransportError) : Bool :=
  error == .incompleteBody || error == .connectionLost

/-- Whether the same request is issued again after this response, budget permitting. -/
def isRetryable (response : TransportResponse) : Bool :=
  if response.error = .headersTooLarge then false
  else if response.status = 0 then isRetryableTransportError response.error
  else isRetryableStatus response.status

/-! ### What went over the transport -/

/-- One request handed to the transport, made to `uri`, and the response to it. -/
structure Sent where
  uri : Uri
  request : TransportRequest
  response : TransportResponse

/-- Where a request's counters go. -/
structure RequestSink where
  requests : ℕ := 0
  metadataRequests : ℕ := 0
  retries : ℕ := 0
  redirects : ℕ := 0
  bytesTransferred : ℕ := 0
  deriving DecidableEq, Repr

def RequestSink.request (sink : RequestSink) (metadata : Bool) (bodyBytes : ℕ) : RequestSink :=
  { sink with
    requests := sink.requests + 1
    metadataRequests := if metadata then sink.metadataRequests + 1 else sink.metadataRequests
    bytesTransferred := sink.bytesTransferred + bodyBytes }

/-- The requests sent so far, the caller's buffer and the counters. -/
structure Wire where
  trace : List Sent := []
  dst : Buffer := fun _ => 0
  sink : RequestSink := {}

/-- The body of a response, put down where the request said. -/
def Sent.deliver (sent : Sent) (dst : Buffer) : Buffer :=
  match sent.request.body with
  | none => dst
  | some start => dst.write start sent.response.body

namespace Wire

/-- The number of requests sent so far, which is what a transport and an interceptor tell apart. -/
def time (wire : Wire) : ℕ := wire.trace.length

/-- Records one request, its response and the bytes it delivered. -/
def push (wire : Wire) (sent : Sent) : Wire where
  trace := wire.trace ++ [sent]
  dst := sent.deliver wire.dst
  sink := wire.sink.request (sent.request.method == .head) sent.response.bodyBytes

def countRetry (wire : Wire) : Wire :=
  { wire with sink := { wire.sink with retries := wire.sink.retries + 1 } }

def countRedirect (wire : Wire) : Wire :=
  { wire with sink := { wire.sink with redirects := wire.sink.redirects + 1 } }

@[simp] theorem trace_push (wire : Wire) (sent : Sent) :
    (wire.push sent).trace = wire.trace ++ [sent] := rfl

@[simp] theorem dst_push (wire : Wire) (sent : Sent) :
    (wire.push sent).dst = sent.deliver wire.dst := rfl

@[simp] theorem trace_countRetry (wire : Wire) : wire.countRetry.trace = wire.trace := rfl

@[simp] theorem dst_countRetry (wire : Wire) : wire.countRetry.dst = wire.dst := rfl

@[simp] theorem trace_countRedirect (wire : Wire) : wire.countRedirect.trace = wire.trace := rfl

@[simp] theorem dst_countRedirect (wire : Wire) : wire.countRedirect.dst = wire.dst := rfl

end Wire

/-! ### The two loops -/

/-- What stays fixed during one exchange. -/
structure ExchangeArgs where
  transport : Transport
  options : HttpOptions
  origin : Uri
  method : Method
  range : Bytes
  ifRange : Bytes
  body : Option ℕ
  capacity : ℕ

/-- The outcome of an exchange; a success says nothing about the HTTP status. -/
structure ExchangeResult where
  response : TransportResponse := {}
  status : Status := .success
  finalUri : Uri

def defaultUserAgent : Bytes := bytes "usd-http-resolver/0.2.0"

namespace ExchangeArgs

/-- The request for `current`, with the headers an interception admitted. -/
def requestFor (args : ExchangeArgs) (current : Uri) (headers : List RequestHeader) :
    TransportRequest where
  url := current.toText
  method := args.method
  range := args.range
  ifRange := args.ifRange
  userAgent := if args.options.userAgent = [] then defaultUserAgent else args.options.userAgent
  headers := headers
  timeouts :=
    { connectMs := args.options.connectTimeoutMs
      responseMs := args.options.responseTimeoutMs
      transferMs := args.options.transferTimeoutMs }
  destinations := args.options.destinations
  body := args.body
  bodyCapacity := args.capacity

/-- The interceptor's headers, asked for only at the origin the asset was opened at. -/
def headersFor (args : ExchangeArgs) (time : ℕ) (current : Uri) (redirects attempt : ℕ) :
    Except Status (List RequestHeader) :=
  match args.options.interceptor with
  | none => .ok []
  | some interceptor =>
      if sameOrigin current args.origin then
        intercept interceptor time args.method current redirects attempt
      else .ok []

/-- One request to `current` at this point of the run, and the response to it. -/
def send (args : ExchangeArgs) (time : ℕ) (current : Uri) (headers : List RequestHeader) : Sent where
  uri := current
  request := args.requestFor current headers
  response := args.transport.perform time (args.requestFor current headers)

/--
Issues the request for one hop until a response is not worth retrying or the
budget is spent.  A refused interception ends the exchange.
-/
def attemptLoop (args : ExchangeArgs) (redirects : ℕ) (current : Uri) :
    ℕ → ℕ → Wire → Except Status TransportResponse × ℕ × Wire
  | 0, attempt, wire =>
      match args.headersFor wire.time current redirects attempt with
      | .error refused => (.error refused, 0, wire)
      | .ok headers =>
          let sent := args.send wire.time current headers
          (.ok sent.response, 0, wire.push sent)
  | retries + 1, attempt, wire =>
      match args.headersFor wire.time current redirects attempt with
      | .error refused => (.error refused, retries + 1, wire)
      | .ok headers =>
          let sent := args.send wire.time current headers
          if isRetryable sent.response then
            args.attemptLoop redirects current retries (attempt + 1) (wire.push sent).countRetry
          else (.ok sent.response, retries + 1, wire.push sent)

/-- The pre-flight: a literal address in the URL is judged before any transport sees it. -/
def preflight (args : ExchangeArgs) (current : Uri) : Option Status :=
  match classifyHostLiteral current.host with
  | none => none
  | some literal =>
      if args.options.destinations.permits literal then none
      else some (destinationRefusedStatus (some literal) current)

/-- How an answered hop ends: a result, or the target of a redirect to follow. -/
inductive HopOutcome where
  | finished (result : ExchangeResult)
  | redirected (target : Uri)

/-- A response that was refused or abandoned, or none at all. -/
def failedResponse (response : TransportResponse) (current : Uri) : Option Status :=
  if response.error = .destinationRefused then
    some (destinationRefusedStatus response.refusedClass current)
  else if response.error = .headersTooLarge then
    let status := projectTransportError response.error current
    some (if response.status ≠ 0 then status.withTransportStatus response.status else status)
  else if response.status = 0 then some (projectTransportError response.error current)
  else none

/-- The refusal of a redirect that cannot be followed. -/
def refuseRedirect (response : TransportResponse) (current : Uri) (message : Bytes) : HopOutcome :=
  .finished
    { response
      status := (Status.failure .invalidResponse (message ++ whereText current)).withTransportStatus
        response.status
      finalUri := current }

/-- Judges the response of one hop; `hops` is how many redirects may still be followed. -/
def judgeHop (args : ExchangeArgs) (hops : ℕ) (current : Uri) (response : TransportResponse) :
    HopOutcome :=
  match failedResponse response current with
  | some status => .finished { response, status, finalUri := current }
  | none =>
      if !isRedirect response.status then
        .finished { response, status := .success, finalUri := current }
      else
        match response.headers.find (bytes "Location") with
        | none => refuseRedirect response current (bytes "the server redirected without a Location")
        | some location =>
            if location = [] then
              refuseRedirect response current (bytes "the server redirected without a Location")
            else if hops = 0 then
              refuseRedirect response current
                (bytes "the redirect chain exceeded " ++ decimalInt args.options.maxRedirects ++
                  bytes " hops")
            else
              match resolveReference current location with
              | .error error =>
                  refuseRedirect response current
                    (bytes "the server redirected to an unusable location: " ++ error)
              | .ok target =>
                  if isSchemeDowngrade current target then
                    refuseRedirect response current
                      (bytes "the server redirected from https to http, which would drop transport security")
                  else .redirected target

/-- Follows redirects from `current`, having followed `redirects` and with `hops` left. -/
def hopLoop (args : ExchangeArgs) (hops redirects : ℕ) (current : Uri) (retries : ℕ) (wire : Wire) :
    ExchangeResult × ℕ × Wire :=
  match args.preflight current with
  | some refused => ({ status := refused, finalUri := current }, retries, wire)
  | none =>
      match args.attemptLoop redirects current retries 1 wire with
      | (.error refused, retries, wire) =>
          ({ status := refused, finalUri := current }, retries, wire)
      | (.ok response, retries, wire) =>
          match hops, args.judgeHop hops current response with
          | _, .finished result => (result, retries, wire)
          -- Never taken: without a hop left every redirect is refused.
          | 0, .redirected _ => ({ response, finalUri := current }, retries, wire)
          | hops + 1, .redirected target =>
              args.hopLoop hops (redirects + 1) target retries wire.countRedirect

def performExchange (args : ExchangeArgs) (start : Uri) (retries : ℕ) (wire : Wire) :
    ExchangeResult × ℕ × Wire :=
  args.hopLoop args.options.maxRedirects.toNat 0 start retries wire

end ExchangeArgs

end UsdAsset.Http
