import UsdAsset.Cache.Entry
import UsdAsset.Resolver.Configuration

/-!
# Keys of retained opens

Models `TransportFingerprint` of `Configuration.cpp` and `_OpenKey` of
`HttpResolver.cpp`.  A retained reader is found under its identifier and the
options it was opened with, and the key tells both apart: a query is kept
verbatim and may hold a line break, but the fingerprint behind the last one holds
none.

An interceptor is told apart by the address it lives at.  Two options are of two
opens, at each of which a behaviour may live elsewhere.
-/

namespace UsdAsset.Resolver

open ByteString Http

variable {first second : HttpOptions} {other identifier : Bytes}

def reachLetter (letter : Char) (permitted : Bool) : UInt8 := if permitted then letter else '-'

def reachText (policy : DestinationPolicy) : Bytes :=
  [reachLetter 'P' policy.publicAddresses, reachLetter 'R' policy.privateNetworks,
    reachLetter 'L' policy.loopback, reachLetter 'K' policy.linkLocal,
    reachLetter 'M' policy.metadata]

/-- The address an interceptor lives at, which stands for its identity. -/
abbrev Addresses := RequestInterceptor → ℕ

variable {address otherAddress : Addresses}

def interceptorText (address : Addresses) (interceptor : Option RequestInterceptor) : Bytes :=
  match interceptor with
  | some interceptor => decimal (address interceptor)
  | none => bytes "none"

/-- Everything of its options that a reader keeps for its lifetime. -/
def transportFingerprint (address : Addresses) (options : HttpOptions) : Bytes :=
  bytes "connect=" ++ decimalInt options.connectTimeoutMs ++
    bytes ";response=" ++ decimalInt options.responseTimeoutMs ++
    bytes ";transfer=" ++ decimalInt options.transferTimeoutMs ++
    bytes ";attempts=" ++ decimalInt options.maxAttempts ++
    bytes ";redirects=" ++ decimalInt options.maxRedirects ++
    bytes ";reach=" ++ reachText options.destinations ++
    bytes ";agent=" ++ options.userAgent ++
    bytes ";interceptor=" ++ interceptorText address options.interceptor

def openKey (identifier fingerprint : Bytes) : Bytes := identifier ++ bytes "\n" ++ fingerprint

/-! ### What a fingerprint tells apart -/

theorem decimalInt_injective {first second : Int} (same : decimalInt first = decimalInt second) :
    first = second := by
  have unsigned : ∀ (number : ℕ) (text : Bytes), decimal number ≠ bytes "-" ++ text := by
    intro number text signed
    have digits := isDigit_of_mem_decimal number ((('-' : Char) : UInt8))
    rw [signed] at digits
    simp [bytes] at digits
    cases digits
  cases first with
  | ofNat number =>
    cases second with
    | ofNat other => rw [decimal_injective same]
    | negSucc other => exact absurd same (unsigned number _)
  | negSucc number =>
    cases second with
    | ofNat other => exact absurd same.symm (unsigned other _)
    | negSucc other =>
      have numbers := decimal_injective (List.append_cancel_left same)
      rw [Nat.succ.inj numbers]

theorem not_mem_decimalInt {byte : UInt8} (number : Int) (notDigit : isDigit byte = false)
    (notSign : byte ≠ (('-' : Char) : UInt8)) : byte ∉ decimalInt number := by
  cases number with
  | ofNat number => exact not_mem_decimal number notDigit
  | negSucc number =>
    simp only [decimalInt, bytes, List.mem_append, not_or]
    refine ⟨?_, not_mem_decimal (number + 1) notDigit⟩
    simpa using notSign

/-- What stands in front of the first separator is told apart from what follows. -/
theorem split_at_first {separator : UInt8} {first second before after : Bytes}
    (absent : separator ∉ first) (otherAbsent : separator ∉ second)
    (same : first ++ separator :: before = second ++ separator :: after) :
    first = second ∧ before = after := by
  have found := splitFirst_append before absent
  rw [same, splitFirst_append after otherAbsent] at found
  simpa using (Option.some.inj found).symm

/-- What follows the last separator is told apart from what stands in front. -/
theorem split_at_last {separator : UInt8} {first second before after : Bytes}
    (absent : separator ∉ before) (otherAbsent : separator ∉ after)
    (same : first ++ separator :: before = second ++ separator :: after) :
    first = second ∧ before = after := by
  have found := splitLast_append first absent
  rw [same, splitLast_append second otherAbsent] at found
  simpa using (Option.some.inj found).symm

theorem reachText_injective {first second : DestinationPolicy}
    (same : reachText first = reachText second) : first = second := by
  rcases first with ⟨publicAddresses, privateNetworks, loopback, linkLocal, metadata⟩
  rcases second with ⟨otherPublic, otherPrivate, otherLoopback, otherLinkLocal, otherMetadata⟩
  revert same
  simp only [reachText, List.cons.injEq, DestinationPolicy.mk.injEq]
  have letters : ∀ letter ∈ ['P', 'R', 'L', 'K', 'M'], ∀ permitted other,
      reachLetter letter permitted = reachLetter letter other → permitted = other := by
    intro letter letterMem permitted other sameLetter
    simp only [List.mem_cons, List.not_mem_nil, or_false] at letterMem
    revert sameLetter
    rcases letterMem with rfl | rfl | rfl | rfl | rfl <;>
      cases permitted <;> cases other <;> decide
  rintro ⟨publicly, privately, locally, linked, described, _⟩
  exact ⟨letters _ (by simp) _ _ publicly, letters _ (by simp) _ _ privately,
    letters _ (by simp) _ _ locally, letters _ (by simp) _ _ linked,
    letters _ (by simp) _ _ described⟩

theorem not_mem_interceptorText (interceptor : Option RequestInterceptor) {byte : UInt8}
    (notDigit : isDigit byte = false) (notLetter : byte ∉ bytes "none") :
    byte ∉ interceptorText address interceptor := by
  cases interceptor with
  | none => exact notLetter
  | some interceptor => exact not_mem_decimal _ notDigit

theorem interceptorText_injective {first second : Option RequestInterceptor}
    (same : interceptorText address first = interceptorText otherAddress second) :
    first.map address = second.map otherAddress := by
  have digits : ∀ number, decimal number ≠ bytes "none" := by
    intro number letters
    have isDigits := isDigit_of_mem_decimal number ((('n' : Char) : UInt8))
    rw [letters] at isDigits
    exact absurd (isDigits (by decide)) (by decide)
  cases first with
  | none =>
    cases second with
    | none => rfl
    | some other => exact absurd same.symm (digits _)
  | some interceptor =>
    cases second with
    | none => exact absurd same (digits _)
    | some other => simp [decimal_injective same]

/-- The options a reader is opened with agree in all it keeps of them. -/
structure SameTransport (address : Addresses) (first second : HttpOptions) : Prop where
  connectTimeoutMs : first.connectTimeoutMs = second.connectTimeoutMs
  responseTimeoutMs : first.responseTimeoutMs = second.responseTimeoutMs
  transferTimeoutMs : first.transferTimeoutMs = second.transferTimeoutMs
  maxAttempts : first.maxAttempts = second.maxAttempts
  maxRedirects : first.maxRedirects = second.maxRedirects
  destinations : first.destinations = second.destinations
  userAgent : first.userAgent = second.userAgent
  interceptor : first.interceptor.map address = second.interceptor.map address

theorem SameTransport.eq (same : SameTransport address first second)
    (anonymous : first.interceptor = none) (otherAnonymous : second.interceptor = none) :
    first = second := by
  rcases same with ⟨connect, response, transfer, attempts, redirects, reach, agent, _⟩
  cases first
  cases second
  simp only at connect response transfer attempts redirects reach agent anonymous otherAnonymous
  subst_vars
  rfl

def semicolon : UInt8 := ';'

theorem transportFingerprint_fields (address : Addresses) (options : HttpOptions) :
    transportFingerprint address options =
      bytes "connect=" ++ (decimalInt options.connectTimeoutMs ++ semicolon ::
        (bytes "response=" ++ (decimalInt options.responseTimeoutMs ++ semicolon ::
          (bytes "transfer=" ++ (decimalInt options.transferTimeoutMs ++ semicolon ::
            (bytes "attempts=" ++ (decimalInt options.maxAttempts ++ semicolon ::
              (bytes "redirects=" ++ (decimalInt options.maxRedirects ++ semicolon ::
                (bytes "reach=" ++ (reachText options.destinations ++ semicolon ::
                  (bytes "agent=" ++ (options.userAgent ++ semicolon ::
                    (bytes "interceptor=" ++
                      interceptorText address options.interceptor)))))))))))))) := by
  simp [transportFingerprint, bytes, semicolon]

/-- A number behind its label is told apart from the fields that follow it. -/
theorem field_injective {label rest more : Bytes} {number other : Int}
    (same : label ++ (decimalInt number ++ semicolon :: rest) =
      label ++ (decimalInt other ++ semicolon :: more)) :
    number = other ∧ rest = more := by
  have absent : ∀ number, semicolon ∉ decimalInt number := fun number =>
    not_mem_decimalInt number (by decide) (by decide)
  rcases split_at_first (absent number) (absent other) (List.append_cancel_left same) with
    ⟨numbers, tails⟩
  exact ⟨decimalInt_injective numbers, tails⟩

/-- A fingerprint holds every option, and where the interceptor lives. -/
theorem transportFingerprint_injective
    (same : transportFingerprint address first = transportFingerprint otherAddress second) :
    { first with interceptor := none } = { second with interceptor := none } ∧
      first.interceptor.map address = second.interceptor.map otherAddress := by
  rw [transportFingerprint_fields, transportFingerprint_fields] at same
  rcases field_injective same with ⟨connect, same⟩
  rcases field_injective same with ⟨response, same⟩
  rcases field_injective same with ⟨transfer, same⟩
  rcases field_injective same with ⟨attempts, same⟩
  rcases field_injective same with ⟨redirects, same⟩
  rcases List.append_inj (List.append_cancel_left same) rfl with ⟨reach, same⟩
  have plain : ∀ (address : Addresses) interceptor, semicolon ∉ bytes "interceptor=" ++
      interceptorText address interceptor := by
    intro address interceptor
    rw [List.mem_append, not_or]
    exact ⟨by decide, not_mem_interceptorText interceptor (by decide) (by decide)⟩
  have tails := List.append_cancel_left (List.tail_eq_of_cons_eq same)
  rcases split_at_last (plain address _) (plain otherAddress _) tails with ⟨agent, interceptor⟩
  refine ⟨?_, interceptorText_injective (List.append_cancel_left interceptor)⟩
  rw [connect, response, transfer, attempts, redirects, reachText_injective reach, agent]

theorem sameTransport_of_transportFingerprint
    (same : transportFingerprint address first = transportFingerprint address second) :
    SameTransport address first second := by
  rcases transportFingerprint_injective same with ⟨options, interceptors⟩
  rcases HttpOptions.mk.inj options with
    ⟨connect, response, transfer, redirects, attempts, reach, agent, _⟩
  exact ⟨connect, response, transfer, attempts, redirects, reach, agent, interceptors⟩

def lineBreak : UInt8 := '\n'

theorem lineBreak_not_mem_transportFingerprint {options : HttpOptions}
    (plain : lineBreak ∉ options.userAgent) :
    lineBreak ∉ transportFingerprint address options := by
  have numbers : ∀ number, lineBreak ∉ decimalInt number := fun number =>
    not_mem_decimalInt number (by decide) (by decide)
  have letters : lineBreak ∉ reachText options.destinations := by
    rcases options.destinations with ⟨publicAddresses, privateNetworks, loopback, linkLocal, metadata⟩
    revert publicAddresses privateNetworks loopback linkLocal metadata
    decide
  have interceptor : lineBreak ∉ interceptorText address options.interceptor :=
    not_mem_interceptorText _ (by decide) (by decide)
  simp only [transportFingerprint, List.mem_append, not_or, plain, numbers, letters, interceptor,
    not_false_iff, and_true]
  decide

theorem openKey_injective (plain : lineBreak ∉ first.userAgent)
    (otherPlain : lineBreak ∉ second.userAgent)
    (same : openKey identifier (transportFingerprint address first) =
      openKey other (transportFingerprint otherAddress second)) :
    identifier = other ∧
      transportFingerprint address first = transportFingerprint otherAddress second := by
  have shape : ∀ identifier fingerprint, openKey identifier fingerprint =
      identifier ++ lineBreak :: fingerprint := by
    simp [openKey, bytes, lineBreak]
  rw [shape, shape] at same
  exact split_at_last (lineBreak_not_mem_transportFingerprint plain)
    (lineBreak_not_mem_transportFingerprint otherPlain) same

theorem of_openKey_eq (plain : lineBreak ∉ first.userAgent)
    (otherPlain : lineBreak ∉ second.userAgent)
    (same : openKey identifier (transportFingerprint address first) =
      openKey other (transportFingerprint address second)) :
    identifier = other ∧ SameTransport address first second := by
  rcases openKey_injective plain otherPlain same with ⟨identifiers, fingerprints⟩
  exact ⟨identifiers, sameTransport_of_transportFingerprint fingerprints⟩

/--
Equal images are of one key.  Equal keys of retained opens are of one identifier, of the
same options and of the same interceptor, which is the one that lives at its address.
-/
theorem keys_are_injective :
    Function.Injective Cache.keyImage ∧
      ∀ (address otherAddress : Addresses) (identifier other : Bytes) (first second : HttpOptions),
        lineBreak ∉ first.userAgent → lineBreak ∉ second.userAgent →
        openKey identifier (transportFingerprint address first) =
          openKey other (transportFingerprint otherAddress second) →
        identifier = other ∧
          { first with interceptor := none } = { second with interceptor := none } ∧
          first.interceptor.map address = second.interceptor.map otherAddress := by
  refine ⟨Cache.keyImage_injective, ?_⟩
  intro address otherAddress identifier other first second plain otherPlain same
  rcases openKey_injective plain otherPlain same with ⟨identifiers, fingerprints⟩
  exact ⟨identifiers, transportFingerprint_injective fingerprints⟩

/-! ### What a call is configured by -/

/-- The effective configuration of one call. -/
structure Effective where
  transport : HttpOptions
  /-- Normalized. -/
  cache : Cache.CacheOptions
  fingerprint : Bytes

def effectiveFrom (address : Addresses) (configuration : ResolverConfiguration) : Effective where
  transport := configuration.transport
  cache := configuration.cache.normalized
  fingerprint := transportFingerprint address configuration.transport

/-- The bound context's overrides over the environment, or the environment alone. -/
def effectiveConfiguration (address : Addresses) (environment : StringMap)
    (context : Option StringMap) : Effective :=
  match context with
  | none => effectiveFrom address (configurationFrom (lookupIn environment)).1
  | some overrides =>
      if overrides.isEmpty then effectiveFrom address (configurationFrom (lookupIn environment)).1
      else effectiveFrom address (configurationFrom (layered overrides (lookupIn environment))).1

theorem exists_effectiveFrom (address : Addresses) (environment : StringMap)
    (context : Option StringMap) :
    ∃ lookup, effectiveConfiguration address environment context =
      effectiveFrom address (configurationFrom lookup).1 := by
  cases context with
  | none => exact ⟨_, rfl⟩
  | some overrides =>
    simp only [effectiveConfiguration]
    split
    · exact ⟨_, rfl⟩
    · exact ⟨_, rfl⟩

theorem of_configured_openKey_eq {lookup otherLookup : EnvironmentLookup} (same : openKey identifier
        (effectiveFrom address (configurationFrom lookup).1).fingerprint =
      openKey other (effectiveFrom address (configurationFrom otherLookup).1).fingerprint) :
    identifier = other ∧
      (configurationFrom lookup).1.transport = (configurationFrom otherLookup).1.transport := by
  rcases of_openKey_eq (by simp [configurationFrom, optionsFrom])
    (by simp [configurationFrom, optionsFrom]) same with ⟨identifiers, options⟩
  exact ⟨identifiers, options.eq rfl rfl⟩

end UsdAsset.Resolver
