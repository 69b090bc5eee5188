import UsdAsset.Http.Binding

/-!
# The whole life of a reader

An open and any number of reads, seen as the requests they hand to the
transport.  Every one of them is reached from the opened URL over redirects the
server named, so what a single redirect preserves holds of every request.
-/

namespace UsdAsset.Http

open ByteString

variable {start target : Uri} {locations : List Bytes} {url : Bytes}

namespace Followed

theorem trans {middle : Uri} {first second : List Bytes} (before : Followed start first middle)
    (after : Followed middle second target) :
    Followed start (first ++ second) target := by
  induction before with
  | here uri => exact after
  | redirect resolved upheld rest ih => exact .redirect resolved upheld (ih after)

/-- A chain of redirects keeps what every single redirect keeps. -/
theorem preserves {motive : Uri → Prop} (step : ∀ {current next : Uri} {location : Bytes},
      resolveReference current location = .ok next → isSchemeDowngrade current next = false →
        motive current → motive next) (followed : Followed start locations target)
    (initially : motive start) : motive target := by
  induction followed with
  | here uri => exact initially
  | redirect resolved upheld rest ih => exact ih (step resolved upheld initially)

end Followed

/-- A URI of one of the two schemes a transport is ever given. -/
def AllowedScheme (uri : Uri) : Prop :=
  uri.scheme = bytes "http" ∨ uri.scheme = bytes "https"

theorem Followed.allowedScheme (followed : Followed start locations target)
    (allowed : AllowedScheme start) :
    AllowedScheme target :=
  followed.preserves (fun resolved _ allowed => resolveReference_scheme allowed resolved) allowed

theorem Followed.secure (followed : Followed start locations target)
    (secure : start.scheme = bytes "https") :
    target.scheme = bytes "https" := by
  refine followed.preserves (motive := fun uri => uri.scheme = bytes "https") ?_ secure
  intro current next location _ upheld secure
  simpa [isSchemeDowngrade, Uri.isSecure, secure] using upheld

/-! ### Open and reads -/

def HttpAssetReader.readAll (reader : HttpAssetReader) (transport : Transport) :
    List ReadCall → Wire → Wire
  | [], wire => wire
  | call :: rest, wire => reader.readAll transport rest (reader.readCall transport call wire).2

/-- An open and, where it succeeds, the reads of the reader it made. -/
def lifetime (url : Bytes) (options : HttpOptions) (transport : Transport) (calls : List ReadCall)
    (wire : Wire) : Wire :=
  match httpOpen url options (some transport) wire with
  | (.error _, after) => after
  | (.ok reader, after) => reader.readAll transport calls after

/--
A request of a reader's life: made by one of its exchanges, at a URI that
redirects on the trace led to from the opened one.  `earlier` are those the open
followed to where the reads start, `locations` those of the exchange itself.
-/
structure Issued (options : HttpOptions) (opened : Uri) (trace : List Sent) (request : Sent)
    (args : ExchangeArgs) (start : Uri) (earlier locations : List Bytes) : Prop where
  options_eq : args.options = options
  origin_eq : args.origin = opened
  started : Followed opened earlier start
  startedBy : ∀ location ∈ earlier, Redirected trace location
  reached : ExchangeArgs.Reaches options.maxRedirects.toNat trace start locations request.uri
  permitted : args.preflight request.uri = none
  made : args.Makes locations.length request

theorem Issued.followed {options : HttpOptions} {opened : Uri} {trace : List Sent}
    {request : Sent} {args : ExchangeArgs} {earlier : List Bytes}
    (issued : Issued options opened trace request args start earlier locations) :
    Followed opened (earlier ++ locations) request.uri :=
  issued.started.trans issued.reached.1

theorem ExchangeArgs.Reaches.mono {hops : ℕ} {sent more : List Sent} {current : Uri}
    (reached : ExchangeArgs.Reaches hops sent current locations target) (subset : sent ⊆ more) :
    ExchangeArgs.Reaches hops more current locations target :=
  ⟨reached.1, reached.2.1, fun location mem => (reached.2.2 location mem).mono subset⟩

theorem httpOpen_run {uri : Uri} (parsed : parseUri url = .ok uri) (options : HttpOptions)
    (transport : Transport) (wire : Wire) :
    ∃ exchange left sent,
      ExchangeArgs.HopRun (openArgs transport options uri) options.maxRedirects.toNat 0 uri
        options.retryBudget wire exchange left (httpOpen url options (some transport) wire).2
        sent := by
  rcases (openArgs transport options uri).performExchange_run uri options.retryBudget wire with
    ⟨sent, run⟩
  rcases exchanged : (openArgs transport options uri).performExchange uri options.retryBudget wire
    with ⟨exchange, left, after⟩
  rw [exchanged] at run
  refine ⟨exchange, left, sent, ?_⟩
  simp only [httpOpen, parsed, exchanged]
  split <;> exact run

theorem httpOpen_described {options : HttpOptions} {transport : Transport} {wire after : Wire}
    {uri : Uri} {exchange : ExchangeResult} {left : ℕ} (parsed : parseUri url = .ok uri)
    (exchanged : (openArgs transport options uri).performExchange uri options.retryBudget wire =
      (exchange, left, after)) (ok : exchange.status.isOk = true) :
    httpOpen url options (some transport) wire = (describeAsset options uri exchange, after) := by
  simp [httpOpen, parsed, exchanged, ok]

theorem HttpAssetReader.readAll_issues (reader : HttpAssetReader) (transport : Transport)
    (calls : List ReadCall) (wire : Wire) :
    ∃ sent, (reader.readAll transport calls wire).trace = wire.trace ++ sent ∧
      ∀ request ∈ sent, ∃ offset length,
        reader.Issues transport offset length sent request := by
  induction calls generalizing wire with
  | nil => exact ⟨[], by simp [readAll], by simp⟩
  | cons call rest ih =>
    rcases reader.read_run transport call.offset call.dstIsNull call.size
      { wire with dst := call.dst } with ⟨first, run⟩
    rcases ih (reader.readCall transport call wire).2 with ⟨later, traceEq, issues⟩
    have firstEq : (reader.readCall transport call wire).2.trace = wire.trace ++ first :=
      run.trace_eq
    refine ⟨first ++ later, by rw [readAll, traceEq, firstEq, List.append_assoc], ?_⟩
    intro request requestMem
    rcases List.mem_append.mp requestMem with requestMem | requestMem
    · exact ⟨_, _, (run.issued request requestMem).mono (by simp)⟩
    · rcases issues request requestMem with ⟨offset, length, issues⟩
      exact ⟨offset, length, issues.mono (by simp)⟩

theorem lifetime_issued {opened : Uri} (parsed : parseUri url = .ok opened)
    (options : HttpOptions) (transport : Transport) (calls : List ReadCall) :
    ∀ request ∈ (lifetime url options transport calls {}).trace,
      ∃ args start earlier locations,
        Issued options opened (lifetime url options transport calls {}).trace request args start
          earlier locations := by
  intro request requestMem
  rcases httpOpen_run parsed options transport {} with ⟨exchange, left, sent, run⟩
  have opensWith : ∀ {trace : List Sent}, sent ⊆ trace → request ∈ sent →
      ∃ args start earlier locations,
        Issued options opened trace request args start earlier locations := by
    intro trace subset requestMem
    rcases run.made request requestMem with ⟨locations, reached, permitted, made⟩
    exact ⟨_, opened, [], locations, rfl, rfl, .here opened, by simp, reached.mono subset,
      permitted, by simpa using made⟩
  rcases outcome : httpOpen url options (some transport) {} with ⟨_ | reader, after⟩
  · simp only [lifetime, outcome] at requestMem ⊢
    have traceEq : after.trace = sent := by simpa [outcome] using run.trace_eq
    rw [traceEq] at requestMem ⊢
    exact opensWith (List.Subset.refl _) requestMem
  · simp only [lifetime, outcome] at requestMem ⊢
    rcases httpOpen_opened outcome with ⟨uri, described, _, openSent, capture⟩
    obtain rfl : opened = uri := by simpa [parsed] using capture.parsed
    rcases reader.readAll_issues transport calls after with ⟨later, readTrace, issues⟩
    have traceEq : after.trace = sent := by simpa [outcome] using run.trace_eq
    have openTrace : after.trace = openSent := by simpa using capture.run.trace_eq
    rw [readTrace, traceEq] at requestMem ⊢
    rcases List.mem_append.mp requestMem with requestMem | requestMem
    · exact opensWith (by simp) requestMem
    · rcases issues request requestMem with
        ⟨offset, length, start, locations, reached, permitted, made⟩
      rcases capture.run.final with ⟨earlier, followed, _, redirected⟩
      rw [← capture.uri_eq] at followed
      rw [capture.options_eq] at reached
      refine ⟨_, reader.uri, earlier, locations, capture.options_eq, capture.origin_eq, followed,
        ?_, reached.mono (by simp), permitted, made⟩
      intro location locationMem
      rw [← traceEq, openTrace]
      exact (redirected location locationMem).mono (by simp)

/-! ### Admissible requests -/

theorem ExchangeArgs.permits_of_preflight {args : ExchangeArgs} {current : Uri}
    (permitted : args.preflight current = none) {literal : AddressClass}
    (classified : classifyHostLiteral current.host = some literal) :
    args.options.destinations.permits literal = true := by
  unfold preflight at permitted
  rw [classified] at permitted
  by_contra refused
  simp [refused] at permitted

theorem lifetime_trace_of_unparsed {error : Bytes} (unparsed : parseUri url = .error error)
    (options : HttpOptions) (transport : Transport) (calls : List ReadCall) :
    (lifetime url options transport calls {}).trace = [] := by
  simp [lifetime, httpOpen, unparsed]

/--
Over the open and any number of reads every request is admissible: its scheme is
allowed and never weaker than the opened one, a literal address in it is of a
permitted class, and no exchange follows more redirects than its options allow.
-/
theorem lifetime_requests_admissible (url : Bytes) (options : HttpOptions) (transport : Transport)
    (calls : List ReadCall) :
    (∀ request ∈ (lifetime url options transport calls {}).trace,
      request.request.url = request.uri.toText ∧
      (request.uri.scheme = bytes "http" ∨ request.uri.scheme = bytes "https") ∧
      (∀ opened, parseUri url = .ok opened → opened.scheme = bytes "https" →
        request.uri.scheme = bytes "https") ∧
      ∀ literal, classifyHostLiteral request.uri.host = some literal →
        options.destinations.permits literal = true) ∧
    ∀ (args : ExchangeArgs) (start : Uri) (retries : ℕ) (wire : Wire), args.options = options →
      (args.performExchange start retries wire).2.2.sink.redirects ≤
          wire.sink.redirects + options.maxRedirects.toNat ∧
        ∃ sent, (args.performExchange start retries wire).2.2.trace = wire.trace ++ sent ∧
          ∀ request ∈ sent, ∃ locations,
            ExchangeArgs.Reaches options.maxRedirects.toNat sent start locations request.uri := by
  constructor
  · intro request requestMem
    cases parsed : parseUri url with
    | error error =>
        rw [lifetime_trace_of_unparsed parsed] at requestMem
        cases requestMem
    | ok opened =>
        rcases lifetime_issued parsed options transport calls request requestMem with
          ⟨args, start, earlier, locations, issued⟩
        refine ⟨?_, issued.followed.allowedScheme (parseUri_ok parsed).1, ?_, ?_⟩
        · rcases issued.made with ⟨_, _, _, _, made⟩
          rw [made]
          rfl
        · intro other otherParsed secure
          cases otherParsed
          exact issued.followed.secure secure
        · intro literal classified
          rw [← issued.options_eq]
          exact ExchangeArgs.permits_of_preflight issued.permitted classified
  · rintro args start retries wire rfl
    rcases args.performExchange_run start retries wire with ⟨sent, run⟩
    refine ⟨run.followed, sent, run.trace_eq, ?_⟩
    intro request requestMem
    rcases run.made request requestMem with ⟨locations, reached, _⟩
    exact ⟨locations, reached⟩

theorem letterReader_lifetime_secure :
    let trace := (lifetime (bytes "https://host/a") {} (republishingServer fun _ => false)
      [⟨0, fun _ => 0, false, 4⟩] {}).trace
    trace.length = 2 ∧ ∀ request ∈ trace, request.uri.scheme = bytes "https" := by
  intro trace
  refine ⟨by decide +kernel, fun request requestMem => ?_⟩
  exact ((lifetime_requests_admissible _ {} _ _).1 request requestMem).2.2.1 _ rfl rfl

end UsdAsset.Http
