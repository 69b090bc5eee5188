import UsdAsset.Cache.Options
import UsdAsset.Http.Transport

/-!
# Configuration

Models `Configuration.h` and `Configuration.cpp`: the variables a resolver is
configured by, their parsers, and the context form, a string of `NAME=value`
entries that is laid over the environment.  A problem is what a variable is
reported for; it never stops the others from being read.
-/

namespace UsdAsset.Resolver

open ByteString Http Cache

/-! ### Variables -/

inductive Variable where
  | connectTimeout
  | readTimeout
  | totalTimeout
  | maxRetries
  | maxRedirects
  | destinations
  | blockSize
  | cacheBudget
  | coalesceGap
  | maxRequestBytes
  | persistentDirectory
  | persistentBudget
  deriving DecidableEq, Repr

def Variable.name : Variable → Bytes
  | .connectTimeout => bytes "USD_HTTP_RESOLVER_CONNECT_TIMEOUT_MS"
  | .readTimeout => bytes "USD_HTTP_RESOLVER_READ_TIMEOUT_MS"
  | .totalTimeout => bytes "USD_HTTP_RESOLVER_TOTAL_TIMEOUT_MS"
  | .maxRetries => bytes "USD_HTTP_RESOLVER_MAX_RETRIES"
  | .maxRedirects => bytes "USD_HTTP_RESOLVER_MAX_REDIRECTS"
  | .destinations => bytes "USD_HTTP_RESOLVER_DESTINATIONS"
  | .blockSize => bytes "USD_HTTP_RESOLVER_BLOCK_SIZE"
  | .cacheBudget => bytes "USD_HTTP_RESOLVER_CACHE_BUDGET"
  | .coalesceGap => bytes "USD_HTTP_RESOLVER_COALESCE_GAP"
  | .maxRequestBytes => bytes "USD_HTTP_RESOLVER_MAX_REQUEST_BYTES"
  | .persistentDirectory => bytes "USD_HTTP_RESOLVER_PERSISTENT_CACHE_DIR"
  | .persistentBudget => bytes "USD_HTTP_RESOLVER_PERSISTENT_CACHE_BUDGET"

def configuredVariables : List Variable :=
  [.blockSize, .cacheBudget, .coalesceGap, .maxRequestBytes, .persistentDirectory,
    .persistentBudget, .connectTimeout, .readTimeout, .totalTimeout, .maxRetries, .maxRedirects,
    .destinations]

/-- The variables a context may set: those that bind a reader or its cache wrap. -/
def contextVariables : List Variable :=
  [.coalesceGap, .maxRequestBytes, .connectTimeout, .readTimeout, .totalTimeout, .maxRetries,
    .maxRedirects, .destinations]

def contains (names : List Variable) (name : Bytes) : Bool :=
  names.any fun candidate => candidate.name == name

/-- A variable that was set and could not be used, or was used after an adjustment. -/
structure ConfigurationProblem where
  name : Bytes
  value : Bytes
  reason : Bytes
  adjusted : Bool := false
  fromContext : Bool := false
  deriving DecidableEq, Repr

/-- Reads one variable, if it is set. -/
abbrev EnvironmentLookup := Bytes → Option Bytes

/-- A `std::map` of strings, iterated in the order of its keys. -/
abbrev StringMap := Std.ExtTreeMap Bytes Bytes

/-- What was read, with the problems found on the way. -/
abbrev Reported (α : Type) := α × List ConfigurationProblem

/-! ### Values -/

def outOfRange (min max : ℕ) : Bytes :=
  bytes "out of range [" ++ decimal min ++ bytes ", " ++ decimal max ++ bytes "]"

/-- One more digit of a count that may not exceed its maximum. -/
def countDigit (min max value : ℕ) (byte : UInt8) : Except Bytes ℕ :=
  if isDigit byte then
    let next := value * 10 + (byte - '0').toNat
    if next > max then .error (outOfRange min max) else .ok next
  else .error (bytes "not a non-negative integer")

def parseCount (text : Bytes) (min max : ℕ) : Except Bytes ℕ :=
  if text = [] then .error (bytes "empty")
  else
    match text.foldlM (countDigit min max) 0 with
    | .error reason => .error reason
    | .ok value => if value < min then .error (outOfRange min max) else .ok value

def isBlank (byte : UInt8) : Bool := byte == ' ' || byte == '\t' || byte == '\r' || byte == '\n'

def trim (text : Bytes) : Bytes :=
  ((text.dropWhile isBlank).reverse.dropWhile isBlank).reverse

/-- Reads one count into its target, which keeps its value where there is none to use. -/
def readCount {α : Type} [NatCast α] (lookup : EnvironmentLookup) (name : Variable) (min max : ℕ)
    (target : α) : Reported α :=
  match lookup name.name with
  | none => (target, [])
  | some text =>
      match parseCount text min max with
      | .error reason => (target, [{ name := name.name, value := text, reason }])
      | .ok value => (value, [])

def readInto (lookup : EnvironmentLookup) (name : Variable) (min max : ℕ) (target : Int) :
    Reported Int :=
  readCount lookup name min max target

def readBytesInto (lookup : EnvironmentLookup) (name : Variable) (min max target : ℕ) :
    Reported ℕ :=
  readCount lookup name min max target

/-- Every address class, in the order a canonical destination list names them. -/
def addressClasses : List AddressClass := [.public, .private, .loopback, .linkLocal, .metadata]

/-- Writes one item behind those already written, separated by a byte. -/
def appendItem (separator : UInt8) (text item : Bytes) : Bytes :=
  (if text = [] then text else text ++ [separator]) ++ item

def destinationsString (policy : DestinationPolicy) : Bytes :=
  ((addressClasses.filter policy.permits).map addressClassName).foldl (appendItem ',') []

def permitting (policy : DestinationPolicy) : AddressClass → DestinationPolicy
  | .public => { policy with publicAddresses := true }
  | .private => { policy with privateNetworks := true }
  | .loopback => { policy with loopback := true }
  | .linkLocal => { policy with linkLocal := true }
  | .metadata => { policy with metadata := true }

def admitDestination (policy : DestinationPolicy) (entry : Bytes) :
    Except Bytes DestinationPolicy :=
  let name := trim entry
  if name = [] then .error (bytes "an empty entry in the list")
  else
    match addressClasses.filter fun addressClass => name == addressClassName addressClass with
    | [] =>
        .error (bytes "unknown address class '" ++ name ++
          bytes "'; expected public, private, loopback, link-local, or metadata")
    | known => .ok (known.foldl permitting policy)

/-- Parses a destination set; one name that is not known refuses all of it. -/
def parseDestinations (text : Bytes) : Except Bytes DestinationPolicy :=
  if text = [] then .error (bytes "empty")
  else
    (text.splitOn ((',' : Char) : UInt8)).foldlM admitDestination
      { publicAddresses := false, privateNetworks := false, loopback := false, linkLocal := false }

/-! ### Options -/

/-- A problem that ended in the value being used, after an adjustment. -/
def adjusted (name : Variable) (value : ℕ) (reason : Bytes) : ConfigurationProblem where
  name := name.name
  value := decimal value
  reason := reason
  adjusted := true

/-- The problem to report where normalization changed a value. -/
def adjustment (name : Variable) (value normalized : ℕ) (reason : Bytes) :
    List ConfigurationProblem :=
  if normalized ≠ value then [adjusted name value reason] else []

def readDestinations (lookup : EnvironmentLookup) (target : DestinationPolicy) :
    Reported DestinationPolicy :=
  match lookup Variable.destinations.name with
  | none => (target, [])
  | some text =>
      match parseDestinations text with
      | .error reason => (target, [{ name := Variable.destinations.name, value := text, reason }])
      | .ok policy => (policy, [])

/-- The transport options a lookup describes, over the defaults. -/
def optionsFrom (lookup : EnvironmentLookup) : Reported HttpOptions :=
  let options : HttpOptions := {}
  let connect := readInto lookup .connectTimeout 1 3600000 options.connectTimeoutMs
  let response := readInto lookup .readTimeout 1 3600000 options.responseTimeoutMs
  let transfer := readInto lookup .totalTimeout 1 3600000 options.transferTimeoutMs
  let retries := readInto lookup .maxRetries 0 100 (options.maxAttempts - 1)
  let redirects := readInto lookup .maxRedirects 0 100 options.maxRedirects
  let destinations := readDestinations lookup options.destinations
  ({ options with
      connectTimeoutMs := connect.1
      responseTimeoutMs := response.1
      transferTimeoutMs := transfer.1
      maxAttempts := retries.1 + 1
      maxRedirects := redirects.1
      destinations := destinations.1 },
    connect.2 ++ response.2 ++ transfer.2 ++ retries.2 ++ redirects.2 ++ destinations.2)

/-- The cache policy a lookup describes, not normalized; what normalizing changes is reported. -/
def cacheOptionsFrom (lookup : EnvironmentLookup) : Reported CacheOptions :=
  let options : CacheOptions := {}
  let blockSize := readBytesInto lookup .blockSize minBlockSize maxBlockSize options.blockSize
  let budget :=
    readBytesInto lookup .cacheBudget minBlockSize (64 * 1024 * 1024 * 1024) options.budgetBytes
  let gap := readBytesInto lookup .coalesceGap 0 1024 options.coalesceGapBlocks
  let maxRequest :=
    readBytesInto lookup .maxRequestBytes minBlockSize (4 * 1024 * 1024 * 1024)
      options.maxRequestBytes
  let options :=
    { options with
      blockSize := blockSize.1
      budgetBytes := budget.1
      coalesceGapBlocks := gap.1
      maxRequestBytes := maxRequest.1 }
  let normalized := options.normalized
  (options,
    blockSize.2 ++ budget.2 ++ gap.2 ++ maxRequest.2 ++
      adjustment .blockSize options.blockSize normalized.blockSize
        (bytes "rounded down to the power of two " ++ decimal normalized.blockSize) ++
      adjustment .coalesceGap options.coalesceGapBlocks normalized.coalesceGapBlocks
        (bytes "capped at " ++ decimal normalized.coalesceGapBlocks ++
          bytes ", the widest gap that can fit under USD_HTTP_RESOLVER_MAX_REQUEST_BYTES") ++
      adjustment .cacheBudget options.budgetBytes normalized.budgetBytes
        (bytes "raised to " ++ decimal normalized.budgetBytes ++
          bytes ", one block: a budget that cannot hold a block does not " ++
          bytes "cache nothing, it fetches a block and drops it") ++
      adjustment .maxRequestBytes options.maxRequestBytes normalized.maxRequestBytes
        (bytes "raised to " ++ decimal normalized.maxRequestBytes ++
          bytes ", one block: a merged request that cannot carry a block " ++
          bytes "cannot carry the block it was merging"))

/-- The directory of the persistent tier; one that is set and empty is a problem. -/
def readDirectory (lookup : EnvironmentLookup) (target : Bytes) : Reported Bytes :=
  match lookup Variable.persistentDirectory.name with
  | none => (target, [])
  | some [] =>
      (target, [{ name := Variable.persistentDirectory.name, value := [], reason := bytes "empty" }])
  | some directory => (directory, [])

def persistenceOptionsFrom (lookup : EnvironmentLookup) : Reported DiskCacheOptions :=
  let options : DiskCacheOptions := {}
  let directory := readDirectory lookup options.directory
  let budget :=
    readBytesInto lookup .persistentBudget minPersistentBudgetBytes (1024 * 1024 * 1024 * 1024)
      options.budgetBytes
  ({ directory := directory.1, budgetBytes := budget.1 }, directory.2 ++ budget.2)

structure ResolverConfiguration where
  transport : HttpOptions := {}
  cache : CacheOptions := {}
  persistence : DiskCacheOptions := {}

def configurationFrom (lookup : EnvironmentLookup) : Reported ResolverConfiguration :=
  let transport := optionsFrom lookup
  let cache := cacheOptionsFrom lookup
  let persistence := persistenceOptionsFrom lookup
  ({ transport := transport.1, cache := cache.1, persistence := persistence.1 },
    transport.2 ++ cache.2 ++ persistence.2)

/-! ### Lookups -/

def lookupIn (values : StringMap) : EnvironmentLookup := fun name => values[name]?

/-- Answers from the overrides first and from the base after. -/
def layered (overrides : StringMap) (base : EnvironmentLookup) : EnvironmentLookup := fun name =>
  match overrides[name]? with
  | some value => some value
  | none => base name

/-! ### The context form -/

/-- A problem with an entry that is not admitted. -/
def refusal (name value reason : Bytes) : ConfigurationProblem where
  name := name
  value := value
  reason := reason
  fromContext := true

def readEntry (state : Reported StringMap) (piece : Bytes) : Reported StringMap :=
  let entry := trim piece
  if entry = [] then state
  else
    match splitFirst '=' entry with
    | none => (state.1, state.2 ++ [refusal [] entry (bytes "not a NAME=value entry")])
    | some (before, after) =>
        let name := trim before
        let value := trim after
        if !contains configuredVariables name then
          (state.1, state.2 ++ [refusal name value (bytes "not a variable this resolver reads")])
        else if !contains contextVariables name then
          (state.1, state.2 ++ [refusal name value
            (bytes "shared by every stage in the process, so it is read " ++
              bytes "from the environment and not from a context")])
        else
          let repeated : List ConfigurationProblem :=
            if state.1.contains name then
              [{ name, value
                 reason := bytes "set more than once in one context; only the " ++
                   bytes "last value is considered"
                 adjusted := true
                 fromContext := true }]
            else []
          (state.1.insert name value, state.2 ++ repeated)

/-- Takes one problem of the values: a refused one leaves the context, an adjusted one stays. -/
def judge (state : Reported StringMap) (problem : ConfigurationProblem) : Reported StringMap :=
  if !state.1.contains problem.name then state
  else
    (if !problem.adjusted then state.1.erase problem.name else state.1,
      state.2 ++ [{ problem with fromContext := true }])

/-- What an entry is kept as: what the parser read, and not what was written. -/
def respell (applied : ResolverConfiguration) (name value : Bytes) : Bytes :=
  if name = Variable.connectTimeout.name then decimalInt applied.transport.connectTimeoutMs
  else if name = Variable.readTimeout.name then decimalInt applied.transport.responseTimeoutMs
  else if name = Variable.totalTimeout.name then decimalInt applied.transport.transferTimeoutMs
  else if name = Variable.maxRetries.name then decimalInt (applied.transport.maxAttempts - 1)
  else if name = Variable.maxRedirects.name then decimalInt applied.transport.maxRedirects
  else if name = Variable.destinations.name then destinationsString applied.transport.destinations
  else if name = Variable.coalesceGap.name then decimal applied.cache.coalesceGapBlocks
  else if name = Variable.maxRequestBytes.name then decimal applied.cache.maxRequestBytes
  else value

/-- The entries a context string has admitted, over the environment it will be laid on. -/
def overridesFrom (text : Bytes) (base : EnvironmentLookup) : Reported StringMap :=
  let read := (text.splitOn ((';' : Char) : UInt8)).foldl readEntry (∅, [])
  let applied := configurationFrom (layered read.1 base)
  let judged := applied.2.foldl judge read
  (judged.1.map (respell applied.1), judged.2)

def canonicalContextString (overrides : StringMap) : Bytes :=
  (overrides.toList.map fun entry => entry.1 ++ bytes "=" ++ entry.2).foldl (appendItem ';') []

end UsdAsset.Resolver
