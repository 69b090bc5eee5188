import UsdAsset.Http.Uri

/-!
# Identifier creation

Models `Identifier.cpp`: normalization of an asset path into the identifier the
resolver gives it, and anchoring of a relative reference, per RFC 3986.  This is
a second reading of URIs beside the backend's: it splits an authority at its last
colon, and it removes dot segments by rewriting the text as the RFC does.
-/

namespace UsdAsset.Resolver

open ByteString

/-- A URI reference, split into its parts; the fragment is removed. -/
structure Parts where
  scheme : Bytes := []
  hasAuthority : Bool := false
  authority : Bytes := []
  path : Bytes := []
  query : Bytes := []
  hasQuery : Bool := false
  deriving DecidableEq, Repr

/-! ### Percent-encoding -/

def isAlpha (byte : UInt8) : Bool := ('a' ≤ byte && byte ≤ 'z') || ('A' ≤ byte && byte ≤ 'Z')

def isHex (byte : UInt8) : Bool :=
  isDigit byte || ('a' ≤ byte && byte ≤ 'f') || ('A' ≤ byte && byte ≤ 'F')

def hexValue (byte : UInt8) : UInt8 :=
  if isDigit byte then byte - '0'
  else if 'a' ≤ byte ∧ byte ≤ 'f' then byte - 'a' + 10
  else byte - 'A' + 10

/-- RFC 3986 §2.3: the bytes that are decoded where they appear encoded. -/
def isUnreserved (byte : UInt8) : Bool :=
  isAlpha byte || isDigit byte || byte == '-' || byte == '.' || byte == '_' || byte == '~'

/-- What may appear literally in a path. -/
def isPathSafe (byte : UInt8) : Bool :=
  isUnreserved byte || (bytes "!$&'()*+,;=:@/").contains byte

/-- What may, besides, appear literally in a host. -/
def isHostSafe (byte : UInt8) : Bool := byte == '[' || byte == ']' || byte == ':'

def hexDigit (value : UInt8) : UInt8 := (bytes "0123456789ABCDEF").getD value.toNat 0

def percent (byte : UInt8) : Bytes := ['%', hexDigit (byte >>> 4), hexDigit (byte &&& 0x0f)]

/-- What may appear literally in a path, or in a host. -/
def isSafe (hostSafe : Bool) (byte : UInt8) : Bool :=
  isPathSafe byte || (hostSafe && isHostSafe byte)

def encodeByte (hostSafe : Bool) (byte : UInt8) : Bytes :=
  if isSafe hostSafe byte then [byte] else percent byte

def encodeEscape (value : UInt8) : Bytes := if isUnreserved value then [value] else percent value

/--
Upper-cases every escape, decodes every unreserved one and encodes what cannot
appear literally.
-/
def normalizePercentEncoding (hostSafe : Bool) : Bytes → Bytes
  | [] => []
  | byte :: high :: low :: rest =>
      if byte = '%' ∧ isHex high ∧ isHex low then
        encodeEscape (hexValue high <<< 4 ||| hexValue low) ++ normalizePercentEncoding hostSafe rest
      else encodeByte hostSafe byte ++ normalizePercentEncoding hostSafe (high :: low :: rest)
  | byte :: rest => encodeByte hostSafe byte ++ normalizePercentEncoding hostSafe rest

/-! ### Dot segments -/

/-- What is left of the output when its last segment is removed. -/
def dropLastSegment (output : Bytes) : Bytes :=
  match splitLast '/' output with
  | none => []
  | some (before, _) => before

/-- The first segment of the input, with the `/` it begins with. -/
def firstSegment (input : Bytes) : Bytes :=
  match input with
  | [] => []
  | first :: rest =>
      if first = Http.slash then first :: rest.takeWhile fun byte => byte != '/'
      else input.takeWhile fun byte => byte != '/'

/-- RFC 3986 §5.2.4, rewriting the input; every round shortens it. -/
def removeDotSegmentsFrom : ℕ → Bytes → Bytes → Bytes
  | 0, _, output => output
  | fuel + 1, input, output =>
      if input = [] then output
      else if (bytes "../").isPrefixOf input then removeDotSegmentsFrom fuel (input.drop 3) output
      else if (bytes "./").isPrefixOf input then removeDotSegmentsFrom fuel (input.drop 2) output
      else if (bytes "/./").isPrefixOf input then
        removeDotSegmentsFrom fuel (bytes "/" ++ input.drop 3) output
      else if input = bytes "/." then removeDotSegmentsFrom fuel (bytes "/") output
      else if (bytes "/../").isPrefixOf input then
        removeDotSegmentsFrom fuel (bytes "/" ++ input.drop 4) (dropLastSegment output)
      else if input = bytes "/.." then
        removeDotSegmentsFrom fuel (bytes "/") (dropLastSegment output)
      else if input = bytes "." ∨ input = bytes ".." then removeDotSegmentsFrom fuel [] output
      else
        removeDotSegmentsFrom fuel (input.drop (firstSegment input).length)
          (output ++ firstSegment input)

def removeDotSegments (path : Bytes) : Bytes := removeDotSegmentsFrom path.length path []

/-! ### Splitting -/

/-- The scheme of a reference, in lower case, and what follows its colon. -/
def splitScheme (text : Bytes) : Bytes × Bytes :=
  match text with
  | [] => ([], text)
  | first :: _ =>
      if isAlpha first then
        match text.dropWhile isSchemeByte with
        | [] => ([], text)
        | next :: rest =>
            if next = ':' then ((text.takeWhile isSchemeByte).map lowerAscii, rest) else ([], text)
      else ([], text)

/-- The query of a reference without fragment, and what precedes it. -/
def splitQuery (text : Bytes) : Bytes × Option Bytes :=
  match splitFirst '?' text with
  | none => (text, none)
  | some (before, query) => (before, some query)

/-- Splits a URI reference, a relative one and one of another scheme included. -/
def splitUriReference (text : Bytes) : Option Parts :=
  if text = [] then none
  else
    let (hierarchy, query) := splitQuery (Http.stripFragment text)
    let (scheme, rest) := splitScheme hierarchy
    if (bytes "//").isPrefixOf rest then
      some
        { scheme
          hasAuthority := true
          authority := (rest.drop 2).takeWhile fun byte => byte != '/'
          path := (rest.drop 2).dropWhile fun byte => byte != '/'
          query := query.getD []
          hasQuery := query.isSome }
    else some { scheme, path := rest, query := query.getD [], hasQuery := query.isSome }

/-! ### Normalization -/

/-- The host and port of an authority; a bracketed literal keeps its colons. -/
def splitAuthority (authority : Bytes) : Option (Bytes × Bytes) :=
  let hostPort := match splitLast '@' authority with
    | none => authority
    | some (_, hostPort) => hostPort
  if hostPort.head? = some (('[' : Char) : UInt8) then
    match splitFirst ']' hostPort with
    | none => none
    | some (inside, []) => some (inside ++ bytes "]", [])
    | some (inside, next :: port) => if next = ':' then some (inside ++ bytes "]", port) else none
  else
    match splitLast ':' hostPort with
    | none => some (hostPort, [])
    | some halves => some halves

def defaultPort (secure : Bool) : ℕ := if secure then 443 else 80

def portDigit (value : ℕ) (byte : UInt8) : Option ℕ :=
  if isDigit byte then
    let next := value * 10 + (byte - '0').toNat
    if next > 65535 then none else some next
  else none

def portValue (port : Bytes) : Option ℕ := port.foldlM portDigit 0

/-- An empty port means the default, and so does the default written out: both are removed. -/
def normalizePort (secure : Bool) (port : Bytes) : Option Bytes :=
  if port = [] then some []
  else
    match portValue port with
    | none => none
    | some value => some (if value ≠ defaultPort secure then bytes ":" ++ decimal value else [])

def normalizeHost (host : Bytes) : Bytes := (normalizePercentEncoding true host).map lowerAscii

/-- Drops the userinfo and a default port; none for an authority without a host. -/
def normalizeAuthority (authority : Bytes) (secure : Bool) : Option Bytes :=
  match splitAuthority authority with
  | none => none
  | some (host, port) =>
      if host = [] then none
      else (normalizePort secure port).map fun port => normalizeHost host ++ port

def isClaimed (scheme : Bytes) : Bool := scheme == bytes "http" || scheme == bytes "https"

def compose (scheme authority path query : Bytes) (hasQuery : Bool) : Bytes :=
  scheme ++ bytes "://" ++ authority ++ path ++ if hasQuery then bytes "?" ++ query else []

/-- Percent-encoding first, dot segments second: an encoded `..` is one too. -/
def normalizePath (path : Bytes) : Bytes :=
  let removed := removeDotSegments (normalizePercentEncoding false path)
  if removed = [] then bytes "/" else removed

/-- The identifier of parts that are already absolute, empty where there is none. -/
def normalizeAbsolute (parts : Parts) : Bytes :=
  if !isClaimed parts.scheme ∨ !parts.hasAuthority then []
  else
    match normalizeAuthority parts.authority (parts.scheme == bytes "https") with
    | none => []
    | some authority =>
        let path := normalizePath parts.path
        if path.head? ≠ some Http.slash then []
        else compose parts.scheme authority path parts.query parts.hasQuery

/-- RFC 3986 §5.3's merge, for a base that always has an authority. -/
def mergePath (base : Parts) (reference : Bytes) : Bytes :=
  match splitLast '/' base.path with
  | none => bytes "/" ++ reference
  | some (directory, _) => directory ++ bytes "/" ++ reference

/-- A relative reference, resolved against a base with an authority. -/
def anchored (base reference : Parts) : Parts :=
  if reference.hasAuthority then { reference with scheme := base.scheme }
  else if reference.path = [] then
    if reference.hasQuery then { base with query := reference.query, hasQuery := true } else base
  else
    { base with
      path :=
        if reference.path.head? = some Http.slash then reference.path
        else mergePath base reference.path
      query := reference.query
      hasQuery := reference.hasQuery }

/-- The absolute reference an asset path stands for; a relative one needs a remote anchor. -/
def target (assetPath anchorAssetPath : Bytes) : Option Parts :=
  match splitUriReference assetPath with
  | none => none
  | some reference =>
      if reference.scheme ≠ [] then some reference
      else
        match splitUriReference anchorAssetPath with
        | none => none
        | some base =>
            if isClaimed base.scheme ∧ base.hasAuthority then some (anchored base reference)
            else none

/-- The normalized absolute URI for an asset path, empty where it is not this resolver's. -/
def createIdentifier (assetPath anchorAssetPath : Bytes) : Bytes :=
  match target assetPath anchorAssetPath with
  | none => []
  | some parts => normalizeAbsolute parts

end UsdAsset.Resolver
