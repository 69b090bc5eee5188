import Mathlib.Data.List.TakeWhile
import UsdAsset.Http.Transport

/-!
# Just enough URI to follow a redirect

Models `Uri.h` and `Uri.cpp`: the absolute `http` and `https` URIs a request is
made to, and the resolution of an untrusted `Location` against the one before.
The fragment is dropped at parse and the query is kept verbatim.
-/

namespace UsdAsset.Http

open ByteString

def slash : UInt8 := '/'

def questionMark : UInt8 := '?'

/-- An absolute URI; a zero port stands for the scheme's default. -/
structure Uri where
  scheme : Bytes := []
  userinfo : Bytes := []
  host : Bytes := []
  port : ℕ := 0
  path : Bytes := []
  query : Bytes := []
  hasQuery : Bool := false
  deriving DecidableEq, Repr

namespace Uri

def isSecure (uri : Uri) : Bool := uri.scheme == bytes "https"

def defaultPort (uri : Uri) : ℕ := if uri.isSecure then 443 else 80

/-- The port a connection to this URI is made to. -/
def effectivePort (uri : Uri) : ℕ := if uri.port ≠ 0 then uri.port else uri.defaultPort

/-- `host` or `host:port`, as a `Host` header would write it. -/
def authority (uri : Uri) : Bytes :=
  uri.host ++
    if uri.port ≠ 0 ∧ uri.port ≠ uri.defaultPort then bytes ":" ++ decimal uri.port else []

/-- RFC 3986 §5.3, minus the fragment this type does not carry. -/
def compose (uri : Uri) (includeUserinfo : Bool) : Bytes :=
  uri.scheme ++ bytes "://" ++
    (if includeUserinfo ∧ uri.userinfo ≠ [] then uri.userinfo ++ bytes "@" else []) ++
    uri.host ++
    (if uri.port ≠ 0 ∧ uri.port ≠ uri.defaultPort then bytes ":" ++ decimal uri.port else []) ++
    uri.path ++
    (if uri.hasQuery then bytes "?" ++ uri.query else [])

/-- The full request URL, userinfo included, for handing to the transport. -/
def toText (uri : Uri) : Bytes := uri.compose true

/-- The same URL with the userinfo component removed. -/
def toIdentity (uri : Uri) : Bytes := uri.compose false

end Uri

def stripFragment (text : Bytes) : Bytes := text.takeWhile fun byte => byte != '#'

/-- The port of an authority: decimal digits, in 1..65535. -/
def parsePort (portText : Bytes) : Except Bytes ℕ := do
  let port ← portText.foldlM (fun port byte =>
    if isDigit byte then
      let next := port * 10 + (byte - '0').toNat
      if next > 65535 then .error (bytes "URI port is out of range") else .ok next
    else .error (bytes "URI port is not a number")) 0
  if port = 0 then .error (bytes "URI port is out of range") else .ok port

/-- Splits `host[:port]`; the colons of a bracketed literal separate nothing. -/
def splitHostPort (hostPort : Bytes) : Except Bytes (Bytes × Option Bytes) :=
  match hostPort with
  | [] => .error (bytes "URI has no host")
  | first :: _ =>
      if first = '[' then
        match splitFirst ']' hostPort with
        | none => .error (bytes "URI has an unterminated IPv6 literal")
        | some (inside, []) => .ok (inside ++ bytes "]", none)
        | some (inside, next :: portText) =>
            if next = ':' then .ok (inside ++ bytes "]", some portText)
            else .error (bytes "URI has trailing junk after an IPv6 literal")
      else
        match splitFirst ':' hostPort with
        | none => .ok (hostPort, none)
        | some (host, portText) => .ok (host, some portText)

theorem splitHostPort_plain {hostPort : Bytes} (present : hostPort ≠ [])
    (plain : hostPort.head? ≠ some (('[' : Char) : UInt8)) :
    splitHostPort hostPort =
      match splitFirst ':' hostPort with
      | none => .ok (hostPort, none)
      | some (host, portText) => .ok (host, some portText) := by
  cases hostPort with
  | nil => exact absurd rfl present
  | cons first rest =>
    have other : first ≠ (('[' : Char) : UInt8) := fun same => plain (by rw [same]; rfl)
    exact if_neg other

/-- The port written after a host; none and an empty one leave it to the scheme. -/
def parseOptionalPort : Option Bytes → Except Bytes ℕ
  | none => .ok 0
  | some [] => .ok 0
  | some digits => parsePort digits

/--
Parses `[userinfo@]host[:port]`.  The last `@` separates userinfo from host: a
userinfo component may contain one of its own.
-/
def parseAuthority (authority : Bytes) (uri : Uri) : Except Bytes Uri := do
  let (userinfo, hostPort) :=
    match splitLast '@' authority with
    | none => (uri.userinfo, authority)
    | some halves => halves
  let (host, portText) ← splitHostPort hostPort
  let port ← parseOptionalPort portText
  .ok { uri with userinfo, host := host.map lowerAscii, port }

/-- Fills path and query from everything after the authority. -/
def splitPathAndQuery (rest : Bytes) (uri : Uri) : Uri :=
  match splitFirst '?' rest with
  | none => { uri with path := if rest = [] then bytes "/" else rest, query := [], hasQuery := false }
  | some (path, query) =>
      { uri with path := if path = [] then bytes "/" else path, query, hasQuery := true }

/-- One segment against the stack of those kept, last segment first. -/
def pushSegment (state : List Bytes × Bool) (segment : Bytes) : List Bytes × Bool :=
  if segment = bytes "." then (state.1, true)
  else if segment = bytes ".." then (state.1.tail, true)
  else (segment :: state.1, false)

/--
Removes `.` and `..` segments, per RFC 3986 §5.2.4, as a stack of segments.  An
empty segment is a segment, and a `..` that would escape the root is discarded.
-/
def removeDotSegments (path : Bytes) : Bytes :=
  let absolute := path.head? = some slash
  let segments := (if absolute then path.tail else path).splitOn slash
  let (stack, endedWithDotSegment) := segments.foldl pushSegment ([], false)
  let kept := (if endedWithDotSegment then [] :: stack else stack).reverse
  let output :=
    if absolute then kept.flatMap fun segment => bytes "/" ++ segment
    else (bytes "/").intercalate kept
  if output = [] then (if absolute then bytes "/" else []) else output

/-- A byte that ends an authority in an absolute URI. -/
def endsUriAuthority (byte : UInt8) : Bool := byte == '/' || byte == '?'

def parseUri (text : Bytes) : Except Bytes Uri :=
  match splitFirst ':' (stripFragment text) with
  | none => .error (bytes "identifier is not an absolute URI")
  | some (schemeText, rest) =>
      let scheme := schemeText.map lowerAscii
      if scheme ≠ bytes "http" ∧ scheme ≠ bytes "https" then
        .error (bytes "unsupported URI scheme '" ++ scheme ++ bytes "'")
      else if !(bytes "//").isPrefixOf rest then .error (bytes "URI has no authority")
      else do
        let afterSlashes := rest.drop 2
        let authority := afterSlashes.takeWhile fun byte => !endsUriAuthority byte
        let uri ← parseAuthority authority { scheme }
        let filled :=
          splitPathAndQuery (afterSlashes.dropWhile fun byte => !endsUriAuthority byte) uri
        .ok { filled with path := removeDotSegments filled.path }

def directoryOf (path : Bytes) : Bytes :=
  match splitLast '/' path with
  | none => []
  | some (before, _) => before ++ bytes "/"

/-- A reference that names its own scheme: a colon before any delimiter. -/
def hasScheme (reference : Bytes) : Bool :=
  match reference.findIdx? (fun (byte : UInt8) => byte == ':'), reference.findIdx? endsAuthority with
  | none, _ => false
  | some _, none => true
  | some colon, some delimiter => decide (colon < delimiter)

/-- The path of a relative reference, merged with the base's where it is not absolute. -/
def resolvePath (base : Uri) (referencePath : Bytes) : Bytes :=
  let path :=
    if referencePath.head? = some slash then removeDotSegments referencePath
    else removeDotSegments (directoryOf base.path ++ referencePath)
  if path.head? = some slash then path else bytes "/" ++ path

/-- Resolves a reference that carries neither a scheme nor an authority. -/
def resolveRelative (base : Uri) (reference : Bytes) : Uri :=
  let inherited : Uri :=
    { scheme := base.scheme, userinfo := base.userinfo, host := base.host, port := base.port }
  if reference.head? = some questionMark then
    { inherited with path := base.path, query := reference.tail, hasQuery := true }
  else
    match splitFirst '?' reference with
    | none => { inherited with path := resolvePath base reference }
    | some (referencePath, query) =>
        { inherited with path := resolvePath base referencePath, query, hasQuery := true }

/-- Resolves an untrusted `Location` against `base`, per RFC 3986 §5.2. -/
def resolveReference (base : Uri) (location : Bytes) : Except Bytes Uri :=
  let reference := stripFragment location
  if reference = [] then .error (bytes "redirect Location is empty")
  else if hasScheme reference then parseUri reference
  else if (bytes "//").isPrefixOf reference then
    parseUri (base.scheme ++ bytes ":" ++ reference)
  else .ok (resolveRelative base reference)

/-- Whether following `base` to `target` would drop transport security. -/
def isSchemeDowngrade (base target : Uri) : Bool := base.isSecure && !target.isSecure

def sameOrigin (left right : Uri) : Bool :=
  left.scheme == right.scheme && left.host == right.host &&
    left.effectivePort == right.effectivePort

/-! ### Where the parts of a URI come from -/

/-- The userinfo written in an authority; none is the empty one. -/
def authorityUserinfo (authority : Bytes) : Bytes :=
  match splitLast '@' authority with
  | none => []
  | some (userinfo, _) => userinfo

/-- The authority in what follows the scheme of an absolute URI. -/
def authorityAfterScheme (rest : Bytes) : Bytes :=
  (rest.drop 2).takeWhile fun byte => !endsUriAuthority byte

/-- The authority a `Location` names, unless it inherits the base's. -/
def namedAuthority (location : Bytes) : Option Bytes :=
  let reference := stripFragment location
  if hasScheme reference then
    (splitFirst ':' reference).map fun halves => authorityAfterScheme halves.2
  else if (bytes "//").isPrefixOf reference then some (authorityAfterScheme reference)
  else none

theorem exists_of_bind_ok {ε α β : Type} {first : Except ε α} {next : α → Except ε β} {result : β}
    (succeeded : first >>= next = .ok result) :
    ∃ value, first = .ok value ∧ next value = .ok result := by
  cases first with
  | error error => cases succeeded
  | ok value => exact ⟨value, rfl, succeeded⟩

theorem parseAuthority_ok {authority scheme : Bytes} {result : Uri}
    (parsed : parseAuthority authority { scheme } = .ok result) :
    result.scheme = scheme ∧ result.userinfo = authorityUserinfo authority := by
  unfold parseAuthority at parsed
  rcases exists_of_bind_ok parsed with ⟨⟨host, portText⟩, _, parsedHost⟩
  rcases exists_of_bind_ok parsedHost with ⟨port, _, parsedPort⟩
  cases parsedPort
  refine ⟨rfl, ?_⟩
  unfold authorityUserinfo
  cases splitLast '@' authority <;> rfl

@[simp]
theorem scheme_splitPathAndQuery (rest : Bytes) (uri : Uri) :
    (splitPathAndQuery rest uri).scheme = uri.scheme := by
  unfold splitPathAndQuery
  split <;> rfl

@[simp]
theorem userinfo_splitPathAndQuery (rest : Bytes) (uri : Uri) :
    (splitPathAndQuery rest uri).userinfo = uri.userinfo := by
  unfold splitPathAndQuery
  split <;> rfl

theorem parseUri_ok {text : Bytes} {uri : Uri} (parsed : parseUri text = .ok uri) :
    (uri.scheme = bytes "http" ∨ uri.scheme = bytes "https") ∧
      ∃ schemeText rest, splitFirst ':' (stripFragment text) = some (schemeText, rest) ∧
        uri.userinfo = authorityUserinfo (authorityAfterScheme rest) := by
  unfold parseUri at parsed
  split at parsed
  · cases parsed
  · rename_i schemeText rest found
    dsimp only at parsed
    split at parsed
    · cases parsed
    · rename_i allowed
      split at parsed
      · cases parsed
      · rcases exists_of_bind_ok parsed with ⟨authority, parsedAuthority, assembled⟩
        cases assembled
        rcases parseAuthority_ok parsedAuthority with ⟨scheme, userinfo⟩
        refine ⟨?_, schemeText, rest, found,
          by simpa [authorityAfterScheme] using userinfo⟩
        simp only [scheme_splitPathAndQuery, scheme]
        by_contra other
        exact allowed (not_or.mp other)

@[simp]
theorem scheme_resolveRelative (base : Uri) (reference : Bytes) :
    (resolveRelative base reference).scheme = base.scheme := by
  unfold resolveRelative
  repeat' split
  all_goals rfl

theorem resolveRelative_authority (base : Uri) (reference : Bytes) :
    (resolveRelative base reference).host = base.host ∧
      (resolveRelative base reference).port = base.port ∧
      (resolveRelative base reference).userinfo = base.userinfo := by
  unfold resolveRelative
  repeat' split
  all_goals exact ⟨rfl, rfl, rfl⟩

theorem stripFragment_idem (text : Bytes) : stripFragment (stripFragment text) = stripFragment text :=
  List.takeWhile_idem

theorem stripFragment_append {before : Bytes} (after : Bytes)
    (whole : (('#' : Char) : UInt8) ∉ before) :
    stripFragment (before ++ after) = before ++ stripFragment after := by
  simp only [stripFragment]
  rw [List.takeWhile_append_of_pos]
  intro byte byteMem
  simp only [bne_iff_ne]
  rintro rfl
  exact whole byteMem

theorem stripFragment_eq_self {text : Bytes} (whole : (('#' : Char) : UInt8) ∉ text) :
    stripFragment text = text := by
  have alone := stripFragment_append [] whole
  simpa [stripFragment] using alone

theorem stripFragment_append_of_mem {before : Bytes} (after : Bytes)
    (cut : (('#' : Char) : UInt8) ∈ before) :
    stripFragment (before ++ after) = stripFragment before := by
  rcases List.eq_append_cons_of_mem cut with ⟨kept, dropped, rfl, whole⟩
  rw [List.append_assoc, stripFragment_append _ whole, stripFragment_append _ whole]
  simp [stripFragment]

theorem splitFirst_networkPath {scheme : Bytes} (reference : Bytes)
    (allowed : scheme = bytes "http" ∨ scheme = bytes "https") :
    splitFirst ':' (stripFragment (scheme ++ bytes ":" ++ reference)) =
      some (scheme, stripFragment reference) := by
  rcases allowed with rfl | rfl <;> rfl

/-- A resolved `Location` names an authority, or it keeps the base's. -/
theorem resolveReference_ok {base target : Uri} {location : Bytes}
    (allowed : base.scheme = bytes "http" ∨ base.scheme = bytes "https")
    (resolved : resolveReference base location = .ok target) :
    (∃ authority text, namedAuthority location = some authority ∧ parseUri text = .ok target ∧
        target.userinfo = authorityUserinfo authority) ∨
      (namedAuthority location = none ∧
        target = resolveRelative base (stripFragment location)) := by
  simp only [resolveReference] at resolved
  split at resolved
  · cases resolved
  · split at resolved
    · rename_i absolute
      rcases (parseUri_ok resolved).2 with ⟨schemeText, rest, found, userinfo⟩
      rw [stripFragment_idem] at found
      exact Or.inl ⟨_, _, by simp [namedAuthority, absolute, found], resolved, userinfo⟩
    · rename_i notAbsolute
      split at resolved
      · rename_i networkPath
        rcases (parseUri_ok resolved).2 with ⟨schemeText, rest, found, userinfo⟩
        rw [splitFirst_networkPath _ allowed, stripFragment_idem, Option.some.injEq,
          Prod.mk.injEq] at found
        rw [← found.2] at userinfo
        exact Or.inl ⟨_, _, by simp [namedAuthority, notAbsolute, networkPath], resolved, userinfo⟩
      · rename_i notNetworkPath
        cases resolved
        exact Or.inr ⟨by simp [namedAuthority, notAbsolute, notNetworkPath], rfl⟩

theorem resolveReference_scheme {base target : Uri} {location : Bytes}
    (allowed : base.scheme = bytes "http" ∨ base.scheme = bytes "https")
    (resolved : resolveReference base location = .ok target) :
    target.scheme = bytes "http" ∨ target.scheme = bytes "https" := by
  rcases resolveReference_ok allowed resolved with ⟨_, text, _, parsed, _⟩ | ⟨_, rfl⟩
  · exact (parseUri_ok parsed).1
  · simpa using allowed

end UsdAsset.Http
