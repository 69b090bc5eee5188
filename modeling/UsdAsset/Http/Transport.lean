import UsdAsset.Io.AssetReader

/-!
# The transport seam

Models `Transport.h`, `Transport.cpp` and the option types of
`HttpAssetReader.h`: the header table every transport fills in, one fully
specified request, and the response to it.  A response carries the bytes the
transport wrote into the request's window, so `bodyBytes` is their number.

The client itself is outside this model.  A `Transport` answers the `n`-th
request it is handed by an arbitrary function of that request, and all that is
known of it is that it never writes more than the capacity it was offered.
-/

namespace UsdAsset.Http

open ByteString

/-- What kind of network an address belongs to. -/
inductive AddressClass where
  | «public»
  | «private»
  | loopback
  | linkLocal
  | metadata
  deriving DecidableEq, Repr

/-- The stable spelling of a class. -/
def addressClassName : AddressClass → Bytes
  | .public => bytes "public"
  | .private => bytes "private"
  | .loopback => bytes "loopback"
  | .linkLocal => bytes "link-local"
  | .metadata => bytes "metadata"

/-- Which classes of address a reader may connect to. -/
structure DestinationPolicy where
  publicAddresses : Bool := true
  privateNetworks : Bool := true
  loopback : Bool := true
  linkLocal : Bool := false
  metadata : Bool := false
  deriving DecidableEq, Repr

def DestinationPolicy.permits (policy : DestinationPolicy) : AddressClass → Bool
  | .public => policy.publicAddresses
  | .private => policy.privateNetworks
  | .loopback => policy.loopback
  | .linkLocal => policy.linkLocal
  | .metadata => policy.metadata

/-- Every class the other policy permits, this one permits too. -/
def DestinationPolicy.covers (policy other : DestinationPolicy) : Bool :=
  (policy.publicAddresses || !other.publicAddresses) &&
    (policy.privateNetworks || !other.privateNetworks) && (policy.loopback || !other.loopback) &&
    (policy.linkLocal || !other.linkLocal) && (policy.metadata || !other.metadata)

theorem DestinationPolicy.covers_iff {policy other : DestinationPolicy} :
    policy.covers other = true ↔
      ∀ addressClass, other.permits addressClass = true → policy.permits addressClass = true := by
  constructor
  · intro covered addressClass
    simp only [covers, Bool.and_eq_true, Bool.or_eq_true, Bool.not_eq_true'] at covered
    cases addressClass <;> simp only [permits] <;> grind
  · intro permitted
    have each := fun addressClass => permitted addressClass
    have publicly := each .public
    have privately := each .private
    have locally := each .loopback
    have linked := each .linkLocal
    have described := each .metadata
    simp only [permits] at publicly privately locally linked described
    simp only [covers, Bool.and_eq_true, Bool.or_eq_true, Bool.not_eq_true']
    grind

@[simp]
theorem DestinationPolicy.covers_self (policy : DestinationPolicy) : policy.covers policy = true :=
  covers_iff.mpr fun _ permitted => permitted

theorem DestinationPolicy.covers_trans {first second third : DestinationPolicy}
    (outer : first.covers second = true) (inner : second.covers third = true) :
    first.covers third = true :=
  covers_iff.mpr fun addressClass permitted =>
    covers_iff.mp outer addressClass (covers_iff.mp inner addressClass permitted)

/-! ### Response headers -/

/-- Response headers in arrival order, looked up case-insensitively. -/
structure HeaderTable where
  entries : List (Bytes × Bytes) := []
  deriving DecidableEq, Repr

namespace HeaderTable

/-- The values of a header, in arrival order. -/
def valuesOf (headers : HeaderTable) (name : Bytes) : List Bytes :=
  (headers.entries.filter fun entry => equalsIgnoringCase entry.1 name).map Prod.snd

/-- The value of a header; the last one wins. -/
def find (headers : HeaderTable) (name : Bytes) : Option Bytes :=
  (headers.valuesOf name).getLast?

/-- The value, or an empty string when absent. -/
def get (headers : HeaderTable) (name : Bytes) : Bytes := (headers.find name).getD []

/-- Whether a header was repeated with a value that disagrees with its first one. -/
def hasConflictingDuplicate (headers : HeaderTable) (name : Bytes) : Bool :=
  match headers.valuesOf name with
  | [] => false
  | first :: rest => rest.any fun value => first != value

end HeaderTable

/-! ### Requests and responses -/

/-- What went wrong below HTTP, when something did. -/
inductive TransportError where
  | none
  | connectFailed
  | connectTimeout
  | responseTimeout
  | transferTimeout
  | connectionLost
  | incompleteBody
  | malformed
  | headersTooLarge
  | destinationRefused
  | «internal»
  deriving DecidableEq, Repr

/-- The most header bytes one exchange may deliver. -/
def maxResponseHeaderBytes : ℕ := 64 * 1024

inductive Method where
  | get
  | head
  deriving DecidableEq, Repr

structure Timeouts where
  connectMs : Int := 10000
  responseMs : Int := 30000
  transferMs : Int := 300000
  deriving DecidableEq, Repr

/-- One header a request interceptor adds. -/
structure RequestHeader where
  name : Bytes
  value : Bytes
  deriving DecidableEq, Repr

/--
One request, fully specified.  `body` is the position of its window in the
caller's buffer, absent for a request that has nowhere to put a body.
-/
structure TransportRequest where
  url : Bytes
  method : Method
  range : Bytes
  ifRange : Bytes
  userAgent : Bytes
  headers : List RequestHeader
  timeouts : Timeouts
  destinations : DestinationPolicy
  body : Option ℕ
  bodyCapacity : ℕ
  deriving DecidableEq, Repr

/-- A response; a zero status says that none was received. -/
structure TransportResponse where
  status : Int := 0
  headers : HeaderTable := {}
  body : Bytes := []
  bodyOverflowed : Bool := false
  error : TransportError := .none
  connected : Bool := false
  refusedClass : Option AddressClass := none
  deriving DecidableEq, Repr

/-- The bytes written into the request's window. -/
def TransportResponse.bodyBytes (response : TransportResponse) : ℕ := response.body.length

/-- An arbitrary client that respects the capacity of every window it is offered. -/
structure Transport where
  perform : ℕ → TransportRequest → TransportResponse
  body_le_capacity : ∀ time request,
    (perform time request).body.length ≤ request.bodyCapacity

/-! ### Interception and options -/

/-- What a request interceptor is told about the request it is asked about. -/
structure InterceptedRequest where
  method : Bytes
  url : Bytes
  scheme : Bytes
  host : Bytes
  port : ℕ
  redirectHop : ℕ
  attempt : ℕ
  deriving DecidableEq, Repr

/--
A credential provider: the headers it adds to a request, or nothing where it
declines or throws.  It may answer the same question differently at another
time, which is the number of requests issued before.
-/
abbrev RequestInterceptor := ℕ → InterceptedRequest → Option (List RequestHeader)

/-- The most bytes of header one interception may add. -/
def maxInterceptedHeaderBytes : ℕ := 16 * 1024

/-- Transport policy, all of it bounded. -/
structure HttpOptions where
  connectTimeoutMs : Int := 10000
  responseTimeoutMs : Int := 30000
  transferTimeoutMs : Int := 300000
  maxRedirects : Int := 5
  maxAttempts : Int := 3
  destinations : DestinationPolicy := {}
  userAgent : Bytes := []
  interceptor : Option RequestInterceptor := none

end UsdAsset.Http
