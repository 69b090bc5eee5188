import UsdAsset.Http.Exchange

/-!
# The HTTP reader

Models `HttpReaderFactory::Open` and `HttpAssetReader::Read` of
`HttpAssetReader.cpp`.  A reader is immutable after open: a read changes nothing
but the caller's buffer and the counters, which live in the `Wire`.

The resume loop of a read is `readLoop`.  Its `budget` bounds the retries that
are left, so the loop stops exactly where the source stops: when the range is
complete, when a response ends the read, or when the retry budget is spent.
-/

namespace UsdAsset.Http

open ByteString

/-- A reader over one remote asset, bound to the revision it had when it was opened. -/
structure HttpAssetReader where
  options : HttpOptions
  /-- As opened, before redirects: the interceptor's scope. -/
  origin : Uri
  /-- After redirects, with credentials, for the wire. -/
  uri : Uri
  metadata : AssetMetadata
  /-- Empty when no conditional guard may be sent. -/
  ifRangeValue : Bytes

def HttpOptions.retryBudget (options : HttpOptions) : ℕ :=
  if options.maxAttempts > 0 then (options.maxAttempts - 1).toNat else 0

/-! ### Open -/

def openArgs (transport : Transport) (options : HttpOptions) (origin : Uri) : ExchangeArgs where
  transport := transport
  options := options
  origin := origin
  method := .head
  range := []
  ifRange := []
  body := none
  capacity := 0

/-- The metadata a successful response describes, or the failure to describe it. -/
def describeAsset (options : HttpOptions) (origin : Uri) (exchange : ExchangeResult) :
    Except Status HttpAssetReader :=
  let response := exchange.response
  if response.status ≠ 200 then .error (projectHttpStatus response.status exchange.finalUri)
  else
    let size :=
      if response.headers.hasConflictingDuplicate (bytes "Content-Length") then none
      else (response.headers.find (bytes "Content-Length")).bind parseContentLength
    match size with
    | none =>
        .error ((Status.failure .invalidResponse
          (bytes "the server did not state a usable Content-Length, so the asset's size is unknown" ++
            whereText exchange.finalUri)).withTransportStatus 200)
    | some size =>
        if !advertisesByteRanges response.headers then
          .error ((Status.failure .rangeNotSupported
            (bytes "the server does not advertise byte ranges" ++
              whereText exchange.finalUri)).withTransportStatus 200)
        else
          let captured := captureValidator response.headers
          .ok
            { options
              origin
              uri := exchange.finalUri
              metadata :=
                { resolvedIdentifier := exchange.finalUri.toIdentity
                  size
                  supportsRandomAccess := true
                  validator := captured.validator
                  stability := classifyStability captured.validator
                  contentType := response.headers.get (bytes "Content-Type") }
              ifRangeValue := captured.ifRangeValue }

/-- Opens `url`, over the transport the factory made, if it made one. -/
def httpOpen (url : Bytes) (options : HttpOptions) (factory : Option Transport) (wire : Wire) :
    Except Status HttpAssetReader × Wire :=
  match parseUri url with
  | .error error =>
      (.error (.failure .invalidArgument
        (error ++ bytes " (" ++ elideSecrets url ++ bytes ")")), wire)
  | .ok uri =>
      match factory with
      | none => (.error (projectTransportError .internal uri), wire)
      | some transport =>
          let (exchange, _, wire) :=
            (openArgs transport options uri).performExchange uri options.retryBudget wire
          if !exchange.status.isOk then (.error exchange.status, wire)
          else (describeAsset options uri exchange, wire)

/-! ### Read -/

namespace HttpAssetReader

/-- The exchange that asks for the bytes still missing from `length` at `offset`. -/
def readArgs (reader : HttpAssetReader) (transport : Transport) (offset length done : ℕ) :
    ExchangeArgs where
  transport := transport
  options := reader.options
  origin := reader.origin
  method := .get
  range := formatByteRange (offset + done) (length - done)
  ifRange := reader.ifRangeValue
  body := some done
  capacity := length - done

/-- What one response does to a read: it ends it, or it brings it further. -/
inductive ReadStep where
  | returned (result : ReadResult)
  | advanced (done : ℕ) (lastError : TransportError)

/-- A read that ends because the asset changed reports no bytes. -/
def changed (offset size : ℕ) (uri : Uri) (how : Bytes) : ReadStep :=
  .returned ⟨0, (assetChangedStatus uri how).withRange offset size⟩

/-- A `200` to a range request: a changed asset, or a server that ignores ranges. -/
def judgeWhole (reader : HttpAssetReader) (offset size done : ℕ) (exchange : ExchangeResult) :
    ReadStep :=
  let headers := exchange.response.headers
  if contradictsCapturedValidator headers reader.metadata.validator then
    changed offset size exchange.finalUri
      (bytes "a range request was answered with a whole representation carrying a different validator")
  else
    let whole := (headers.find (bytes "Content-Length")).bind parseContentLength
    if whole.any (· != reader.metadata.size) then
      changed offset size exchange.finalUri
        (bytes "a range request was answered with a whole representation of a different length")
    else
      .returned ⟨done,
        ((Status.failure .rangeNotSupported
          (bytes "the server answered a range request with the whole representation" ++
            whereText exchange.finalUri)).withTransportStatus 200).withRange offset size⟩

/-- A `416` to a range inside the size captured at open. -/
def judgeUnsatisfiable (reader : HttpAssetReader) (offset size done : ℕ)
    (exchange : ExchangeResult) : ReadStep :=
  let headers := exchange.response.headers
  if contradictsCapturedValidator headers reader.metadata.validator then
    changed offset size exchange.finalUri
      (bytes "a range this reader had already sized was refused, with a different validator")
  else
    let refused := (headers.find (bytes "Content-Range")).bind parseContentRange
    if refused.any fun range => range.unsatisfied && range.completeLength != reader.metadata.size then
      changed offset size exchange.finalUri
        (bytes "the representation is now a different length, and no longer contains the range this reader asked for")
    else
      .returned ⟨done,
        ((Status.failure .invalidResponse
          (bytes "the server refused a range that lies inside the size it reported at open" ++
            whereText exchange.finalUri)).withTransportStatus 416).withRange offset size⟩

/-- The `Content-Range` of a partial response, unless it is missing or says two things. -/
def usableContentRange (headers : HeaderTable) : Option ContentRange :=
  if headers.hasConflictingDuplicate (bytes "Content-Range") ||
      headers.hasConflictingDuplicate (bytes "Content-Length") then none
  else
    match (headers.find (bytes "Content-Range")).bind parseContentRange with
    | none => none
    | some range => if range.unsatisfied then none else some range

def misframed (offset size done : ℕ) (uri : Uri) (message : Bytes) : ReadStep :=
  .returned ⟨done,
    ((Status.failure .invalidResponse (message ++ whereText uri)).withTransportStatus 206).withRange
      offset size⟩

/-- A partial response whose framing was sound: counts its bytes and judges how it ended. -/
def judgeDelivered (reader : HttpAssetReader) (offset size length done : ℕ)
    (exchange : ExchangeResult) : ReadStep :=
  let response := exchange.response
  let done := done + response.bodyBytes
  if response.error ≠ .none ∧ !isResumable response.error then
    .returned ⟨done, (projectTransportError response.error exchange.finalUri).withRange offset size⟩
  else if response.bodyBytes = 0 ∧ response.error = .none then
    .returned ⟨done, shortReadStatus offset length done reader.metadata.resolvedIdentifier⟩
  else .advanced done response.error

/-- A `206`: checked against the captured identity, itself, and the request. -/
def judgePartial (reader : HttpAssetReader) (offset size length done : ℕ)
    (exchange : ExchangeResult) : ReadStep :=
  let response := exchange.response
  let uri := exchange.finalUri
  if contradictsCapturedValidator response.headers reader.metadata.validator then
    changed offset size uri (bytes "the response carried a different validator")
  else
    match usableContentRange response.headers with
    | none =>
        misframed offset size done uri (bytes "the partial response had no usable Content-Range")
    | some range =>
        let position := offset + done
        let remaining := length - done
        if range.hasCompleteLength ∧ range.completeLength ≠ reader.metadata.size then
          changed offset size uri
            (bytes "the representation's length differs from the size captured at open")
        else if range.first ≠ position ∨ range.length ≠ remaining then
          misframed offset size done uri
            (bytes "the partial response did not cover the requested range (requested bytes " ++
              decimal position ++ bytes "-" ++ decimal (position + remaining - 1) ++
              bytes ", server returned " ++ decimal range.first ++ bytes "-" ++
              decimal range.last ++ bytes ")")
        else if response.bodyOverflowed then
          misframed offset size done uri
            (bytes "the server sent more body than its own framing declared")
        else reader.judgeDelivered offset size length done exchange

/-- Judges the outcome of one exchange of a read. -/
def judgeRead (reader : HttpAssetReader) (offset size length done : ℕ)
    (exchange : ExchangeResult) : ReadStep :=
  if !exchange.status.isOk then .returned ⟨done, exchange.status.withRange offset size⟩
  else if exchange.response.status = 200 then reader.judgeWhole offset size done exchange
  else if exchange.response.status = 416 then reader.judgeUnsatisfiable offset size done exchange
  else if exchange.response.status ≠ 206 then
    .returned ⟨done,
      (projectHttpStatus exchange.response.status exchange.finalUri).withRange offset size⟩
  else reader.judgePartial offset size length done exchange

/-- The failure of a read whose budget is spent while the range is still short. -/
def budgetSpent (reader : HttpAssetReader) (offset size length done : ℕ)
    (lastError : TransportError) : ReadResult :=
  if lastError = .connectionLost then
    ⟨done, (projectTransportError lastError reader.uri).withRange offset size⟩
  else ⟨done, shortReadStatus offset length done reader.metadata.resolvedIdentifier⟩

/-- The resume loop; a resume is a retry and draws from the same budget. -/
def readLoop (reader : HttpAssetReader) (transport : Transport) (offset size length : ℕ) :
    ℕ → ℕ → ℕ → Wire → ReadResult × Wire
  | budget, retries, done, wire =>
      let (exchange, retries, wire) :=
        (reader.readArgs transport offset length done).performExchange reader.uri retries wire
      match reader.judgeRead offset size length done exchange with
      | .returned result => (result, wire)
      | .advanced done lastError =>
          if done < length then
            match budget, retries with
            | budget + 1, retries + 1 =>
                reader.readLoop transport offset size length budget retries done wire.countRetry
            | _, _ => (reader.budgetSpent offset size length done lastError, wire)
          else (⟨done, .success⟩, wire)

/--
Reads up to `size` bytes at `offset` into the memory behind `wire.dst`, or fails
for want of one where `dstIsNull`.
-/
def read (reader : HttpAssetReader) (transport : Transport) (offset : ℕ) (dstIsNull : Bool)
    (size : ℕ) (wire : Wire) : ReadResult × Wire :=
  let range := resolveReadRange offset size reader.metadata.size
  if range.outcome = .overflow then (⟨0, overflowStatus offset size⟩, wire)
  else if size > 0 ∧ dstIsNull then (⟨0, nullBufferStatus offset size⟩, wire)
  else if range.outcome = .empty then (⟨0, .success⟩, wire)
  else
    reader.readLoop transport offset size range.length reader.options.retryBudget
      reader.options.retryBudget 0 wire

end HttpAssetReader

end UsdAsset.Http
