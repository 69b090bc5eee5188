import UsdAsset.Http.Reference

/-!
# URIs that are written and parsed again

A URI goes to the transport as text and keys the cache as text.  What `ToString` writes is
parsed as the URI it was written from, whatever chain of redirects that came from, unless
its host is empty: `ParseAuthority` looks for a host before it splits the port off, so an
authority that is a port alone gets by.
-/

namespace UsdAsset.Http

open ByteString

/-! ### Writing -/

/-- The port as it is written: none for the default of the scheme. -/
def Uri.writtenPort (uri : Uri) : ℕ :=
  if uri.port ≠ 0 ∧ uri.port ≠ uri.defaultPort then uri.port else 0

def Uri.portText (uri : Uri) : Bytes :=
  if uri.port ≠ 0 ∧ uri.port ≠ uri.defaultPort then bytes ":" ++ decimal uri.port else []

def Uri.userinfoText (uri : Uri) : Bytes :=
  if uri.userinfo ≠ [] then uri.userinfo ++ bytes "@" else []

def Uri.authorityText (uri : Uri) : Bytes := uri.userinfoText ++ (uri.host ++ uri.portText)

section Writing

variable {uri : Uri}

theorem toText_eq (uri : Uri) :
    uri.toText = Rfc3986.recompose
      ⟨some uri.scheme, some uri.authorityText, uri.path,
        if uri.hasQuery then some uri.query else none⟩ := by
  simp only [Uri.toText, Uri.compose, Rfc3986.recompose, Uri.authorityText, Uri.userinfoText,
    Uri.portText, true_and, Option.elim_some]
  have lead : bytes "://" = bytes ":" ++ bytes "//" := rfl
  cases uri.hasQuery <;> simp [lead]

theorem writesPort_portText (bounded : uri.port ≤ 65535) :
    WritesPort uri.portText uri.writtenPort := by
  simp only [Uri.portText, Uri.writtenPort]
  split
  · rename_i written
    exact Or.inr ⟨_, rfl, isDecimal_decimal _, by omega, bounded⟩
  · exact Or.inl ⟨Or.inl rfl, rfl⟩

theorem portText_plain {byte : UInt8} (byteMem : byte ∈ uri.portText) :
    Rfc3986.inAuthority byte = true ∧ byte ≠ numberSign ∧
      byte ≠ atSign := by
  have digits : isDigit byte = true ∨ byte = colon := by
    simp only [Uri.portText] at byteMem
    split at byteMem
    · rcases List.mem_append.mp byteMem with colon | digit
      · exact Or.inr (List.mem_singleton.mp colon)
      · exact Or.inl (isDigit_of_mem_decimal _ byte digit)
    · cases byteMem
  rcases digits with digit | rfl
  · have differs : ∀ {mark : UInt8}, isDigit mark = false → byte ≠ mark := by
      rintro mark other rfl
      rw [digit] at other
      cases other
    refine ⟨?_, differs rfl, differs rfl⟩
    simp only [Rfc3986.inAuthority, Bool.and_eq_true, bne_iff_ne]
    exact ⟨differs rfl, differs rfl⟩
  · decide

theorem Uri.WellFormed.authorityText_plain (wellFormed : uri.WellFormed) {byte : UInt8}
    (byteMem : byte ∈ uri.authorityText) :
    Rfc3986.inAuthority byte = true ∧ byte ≠ numberSign := by
  rcases List.mem_append.mp byteMem with inUserinfo | later
  · simp only [Uri.userinfoText] at inUserinfo
    split at inUserinfo
    · rcases List.mem_append.mp inUserinfo with inside | ended
      · exact wellFormed.userinfo_plain byte inside
      · rw [List.mem_singleton.mp ended]
        decide
    · cases inUserinfo
  · rcases List.mem_append.mp later with inHost | inPort
    · exact ⟨(wellFormed.host_plain byte inHost).1, (wellFormed.host_plain byte inHost).2.1⟩
    · exact ⟨(portText_plain inPort).1, (portText_plain inPort).2.1⟩

theorem Uri.WellFormed.writesAuthority (wellFormed : uri.WellFormed) (named : uri.host ≠ []) :
    WritesAuthority uri.authorityText ⟨uri.userinfo, uri.host, uri.writtenPort⟩ := by
  refine ⟨uri.userinfoText, uri.portText, rfl, ?_, ?_, ?_, wellFormed.isHost,
    writesPort_portText wellFormed.port_le⟩
  · simp only [Uri.userinfoText]
    split
    · exact Or.inr rfl
    · rename_i absent
      exact Or.inl ⟨rfl, not_not.mp absent⟩
  · rw [List.mem_append, not_or]
    exact ⟨fun mem => (wellFormed.host_plain _ mem).2.2 rfl, fun mem => (portText_plain mem).2.2 rfl⟩
  · exact List.append_ne_nil_of_left_ne_nil named _

/-- What is written is parsed again, but for a default port. -/
theorem Uri.WellFormed.parseUri_toText (wellFormed : uri.WellFormed) (named : uri.host ≠ []) :
    parseUri uri.toText = .ok { uri with port := uri.writtenPort } := by
  have served := wellFormed.isServedScheme
  have whole : numberSign ∉ uri.toText := by
    have inScheme : numberSign ∉ uri.scheme := by
      rcases wellFormed.served with same | same <;> rw [same] <;> decide
    have inAuthority : numberSign ∉ uri.authorityText :=
      fun mem => (wellFormed.authorityText_plain mem).2 rfl
    have inQuery : numberSign ∉
        (if uri.hasQuery then some uri.query else none).elim [] fun query => bytes "?" ++ query := by
      split
      · rw [Option.elim_some, List.mem_append, not_or]
        exact ⟨by decide, wellFormed.query_plain⟩
      · nofun
    rw [toText_eq]
    simp only [Rfc3986.recompose, Option.elim_some, List.mem_append, not_or]
    exact ⟨⟨⟨⟨inScheme, by decide⟩, by decide, inAuthority⟩, wellFormed.path_plain.2⟩, inQuery⟩
  rw [toText_eq] at whole ⊢
  have split := Rfc3986.split_recompose served.inScheme.1 served.inScheme.2
    (fun byte byteMem => (wellFormed.authorityText_plain byteMem).1) wellFormed.rooted
    wellFormed.path_plain.1 whole
  refine parseUri_eq_ok_iff.mpr ⟨⟨some uri.scheme, some ⟨uri.userinfo, uri.host, uri.writtenPort⟩,
    uri.path, if uri.hasQuery then some uri.query else none⟩, uri.scheme, ?_, rfl, served, ?_⟩
  · constructor <;> rw [split]
    exact .some (wellFormed.writesAuthority named)
  · have path : orRoot (Rfc3986.removeDotSegments uri.path) = uri.path := by
      rw [← removeDotSegments_orRoot (Or.inr wellFormed.rooted), orRoot,
        if_neg wellFormed.path_ne_nil, wellFormed.settled]
    simp only [Uri.ofParts, path, wellFormed.host_lower, wellFormed.scheme_lower]
    cases asked : uri.hasQuery with
    | true => simp [← asked]
    | false => simp [wellFormed.query_absent asked]

end Writing

/-! ### What the host of an authority is -/

/-- The authority does not begin its host with the colon of a port. -/
def writesHost (authority : Bytes) : Bool :=
  (authorityHostPort authority).head? != some ((':' : Char) : UInt8)

theorem WritesAuthority.host_eq_nil_iff {authority : Bytes} {parts : AuthorityParts}
    (writes : WritesAuthority authority parts) : parts.host = [] ↔ writesHost authority = false := by
  rcases writes with ⟨before, after, rfl, ended, last, present, isHost, writesPort⟩
  rw [writesHost, (authority_of_shape ended last).2, bne_eq_false_iff_eq]
  constructor
  · intro empty
    rw [empty, List.nil_append] at present ⊢
    rcases writesPort with ⟨rfl | rfl, _⟩ | ⟨digits, rfl, _⟩
    · exact absurd rfl present
    · rfl
    · rfl
  · intro coloned
    cases written : parts.host with
    | nil => rfl
    | cons first rest =>
      rw [written] at coloned isHost
      cases coloned
      rcases isHost with ⟨inside, shape, _⟩ | ⟨uncoloned, _⟩
      · cases shape
      · exact absurd List.mem_cons_self uncoloned

/-- A parsed URI has no host exactly where its text writes none. -/
theorem host_eq_nil_of_parseUri {text scheme rest : Bytes} {uri : Uri}
    (parsed : parseUri text = .ok uri)
    (found : splitFirst ':' (stripFragment text) = some (scheme, rest)) :
    uri.host = [] ↔ writesHost (authorityAfterScheme rest) = false := by
  simp only [parseUri, found] at parsed
  split at parsed
  · cases parsed
  · split at parsed
    · cases parsed
    · rcases exists_of_bind_ok parsed with ⟨filled, parsedAuthority, assembled⟩
      cases assembled
      rcases parseAuthority_eq_ok_iff.mp parsedAuthority with ⟨parts, writes, rfl⟩
      rw [splitPathAndQuery_eq, authorityAfterScheme, ← writes.host_eq_nil_iff, List.map_eq_nil_iff]

/-! ### Chains of redirects -/

/-- The URI that a text and a chain of `Location`s lead to. -/
def follow (text : Bytes) (locations : List Bytes) : Except Bytes Uri :=
  parseUri text >>= fun uri => locations.foldlM resolveReference uri

/-- The last authority that a text or a `Location` after it names. -/
def authorityInForce (text : Bytes) (locations : List Bytes) : Option Bytes :=
  ((text :: locations).filterMap namedAuthority).getLast?

theorem namedAuthority_of_parseUri {text : Bytes} {uri : Uri} (parsed : parseUri text = .ok uri) :
    ∃ authority, namedAuthority text = some authority ∧
      (uri.host = [] ↔ writesHost authority = false) := by
  rcases exists_scheme_of_parseUri parsed with ⟨scheme, rest, served, shape⟩
  have found : splitFirst ':' (stripFragment text) = some (scheme, rest) := by
    rw [shape, splitFirst_of_scheme served]
  have named : hasScheme (stripFragment text) = true :=
    (hasScheme_iff (notMem_stripFragment text)).mpr ⟨scheme, rest, shape, served.inScheme.2⟩
  refine ⟨authorityAfterScheme rest, ?_, host_eq_nil_of_parseUri parsed found⟩
  simp only [namedAuthority, named, if_true, found, Option.map_some]

theorem resolveReference_step {base target : Uri} {location : Bytes} (wellFormed : base.WellFormed)
    (resolved : resolveReference base location = .ok target) :
    target.WellFormed ∧
      ((∃ authority, namedAuthority location = some authority ∧
          (target.host = [] ↔ writesHost authority = false)) ∨
        namedAuthority location = none ∧ target.host = base.host) := by
  simp only [resolveReference] at resolved
  split at resolved
  · cases resolved
  · rename_i present
    split at resolved
    · refine ⟨wellFormed_of_parseUri resolved, Or.inl ?_⟩
      rcases namedAuthority_of_parseUri resolved with ⟨authority, named, host⟩
      refine ⟨authority, ?_, host⟩
      rwa [namedAuthority, stripFragment_idem] at named
    · rename_i relative
      split at resolved
      · rename_i slashes
        refine ⟨wellFormed_of_parseUri resolved, Or.inl ⟨authorityAfterScheme (stripFragment location),
          ?_, ?_⟩⟩
        · simp only [namedAuthority, relative, slashes, if_true]
          rfl
        · have found := splitFirst_networkPath (stripFragment location) wellFormed.served
          rw [stripFragment_idem] at found
          exact host_eq_nil_of_parseUri resolved found
      · rename_i unslashed
        cases resolved
        refine ⟨wellFormed_resolveRelative wellFormed present (notMem_stripFragment location),
          Or.inr ⟨?_, (resolveRelative_authority base _).1⟩⟩
        simp only [namedAuthority, relative, unslashed]
        rfl

/-- Along a chain of redirects the host is empty where the last authority writes none. -/
theorem foldlM_resolveReference {base target : Uri} {locations : List Bytes} {authority : Bytes}
    (wellFormed : base.WellFormed) (host : base.host = [] ↔ writesHost authority = false)
    (followed : locations.foldlM resolveReference base = .ok target) :
    target.WellFormed ∧
      (target.host = [] ↔
        writesHost ((locations.filterMap namedAuthority).getLast?.getD authority) = false) := by
  induction locations generalizing base authority with
  | nil =>
    cases followed
    exact ⟨wellFormed, host⟩
  | cons location rest ih =>
    rw [List.foldlM_cons] at followed
    rcases exists_of_bind_ok followed with ⟨next, resolved, continued⟩
    rcases resolveReference_step wellFormed resolved with
      ⟨nextFormed, ⟨named, found, nextHost⟩ | ⟨inherits, same⟩⟩
    · rw [List.filterMap_cons_some found, List.getLast?_cons, Option.getD_some]
      exact ih nextFormed nextHost continued
    · rw [List.filterMap_cons_none inherits]
      exact ih nextFormed (by rw [same]; exact host) continued

/-! ### Stability -/

/-- A URI that is well formed and stays what it is when it is written and parsed again. -/
structure Uri.Stable (uri : Uri) : Prop where
  host_named : uri.host ≠ []
  rooted : uri.path.head? = some slash
  undotted : ∀ segment ∈ Resolver.segmentsOf uri.path, segment ≠ bytes "." ∧ segment ≠ bytes ".."
  port_range : uri.port = 0 ∨ 1 ≤ uri.port ∧ uri.port ≤ 65535
  parses : ∃ again, parseUri uri.toText = .ok again ∧ again.scheme = uri.scheme ∧
    again.userinfo = uri.userinfo ∧ again.host = uri.host ∧
    again.effectivePort = uri.effectivePort ∧ again.path = uri.path ∧ again.query = uri.query ∧
    again.hasQuery = uri.hasQuery ∧ again.toText = uri.toText
  identity : ∃ again, parseUri uri.toIdentity = .ok again ∧ again.toIdentity = uri.toIdentity
  anonymous : ∀ userinfo, { uri with userinfo }.toIdentity = uri.toIdentity

theorem compose_writtenPort (uri : Uri) (includeUserinfo : Bool) :
    { uri with port := uri.writtenPort }.compose includeUserinfo = uri.compose includeUserinfo := by
  have sameDefault : { uri with port := uri.writtenPort }.defaultPort = uri.defaultPort := rfl
  simp only [Uri.compose, sameDefault]
  by_cases written : uri.port ≠ 0 ∧ uri.port ≠ uri.defaultPort
  · simp only [Uri.writtenPort, if_pos written]
  · simp only [Uri.writtenPort, if_neg written]
    simp

theorem effectivePort_writtenPort (uri : Uri) :
    { uri with port := uri.writtenPort }.effectivePort = uri.effectivePort := by
  change (if uri.writtenPort ≠ 0 then uri.writtenPort else uri.defaultPort) =
    if uri.port ≠ 0 then uri.port else uri.defaultPort
  simp only [Uri.writtenPort]
  split_ifs <;> omega

theorem toIdentity_eq_toText (uri : Uri) : uri.toIdentity = { uri with userinfo := [] }.toText := by
  simp [Uri.toIdentity, Uri.toText, Uri.compose, Uri.defaultPort, Uri.isSecure]

theorem Uri.WellFormed.undotted {uri : Uri} (wellFormed : uri.WellFormed) :
    ∀ segment ∈ Resolver.segmentsOf uri.path, segment ≠ bytes "." ∧ segment ≠ bytes ".." := by
  rcases exists_kept_segments wellFormed.rooted with ⟨kept, present, plain, eq⟩
  rw [wellFormed.settled] at eq
  have segments : Resolver.segmentsOf uri.path = kept := by
    rw [eq]
    exact Segments.splitOn_tail_render present fun segment segmentMem =>
      (plain segment segmentMem).1.1
  rw [segments]
  exact fun segment segmentMem => (plain segment segmentMem).1.2

theorem Uri.WellFormed.stable {uri : Uri} (wellFormed : uri.WellFormed) (named : uri.host ≠ []) :
    uri.Stable := by
  have anonymous : { uri with userinfo := [] }.WellFormed :=
    { wellFormed with userinfo_plain := nofun }
  have bounded := wellFormed.port_le
  refine ⟨named, wellFormed.rooted, wellFormed.undotted, by omega, ?_, ?_, fun _ => rfl⟩
  · exact ⟨_, wellFormed.parseUri_toText named, rfl, rfl, rfl, effectivePort_writtenPort uri, rfl,
      rfl, rfl, compose_writtenPort uri true⟩
  · rw [toIdentity_eq_toText]
    exact ⟨_, anonymous.parseUri_toText named, compose_writtenPort _ false⟩

/--
A URI that a text and any chain of `Location`s after it lead to is well formed and stable,
unless the last authority they name is a port without a host.
-/
theorem uri_stable_iff {text : Bytes} {locations : List Bytes} {uri : Uri}
    (followed : follow text locations = .ok uri) :
    uri.Stable ↔ ∀ authority ∈ authorityInForce text locations, writesHost authority = true := by
  rcases exists_of_bind_ok followed with ⟨first, parsed, continued⟩
  rcases namedAuthority_of_parseUri parsed with ⟨authority, named, firstHost⟩
  rcases foldlM_resolveReference (wellFormed_of_parseUri parsed) firstHost continued with
    ⟨wellFormed, host⟩
  have inForce : authorityInForce text locations =
      some ((locations.filterMap namedAuthority).getLast?.getD authority) := by
    rw [authorityInForce, List.filterMap_cons_some named, List.getLast?_cons]
  rw [inForce]
  constructor
  · rintro stable _ ⟨⟩
    rw [← Bool.not_eq_false]
    exact fun unnamed => stable.host_named (host.mpr unnamed)
  · intro writes
    refine wellFormed.stable fun empty => ?_
    have unnamed := host.mp empty
    rw [writes _ rfl] at unnamed
    cases unnamed

theorem uri_stable_iff_sample :
    ∃ uri, follow (bytes "https://u:p@Example.org:8443") [bytes "/a/../b?x", bytes "?y"] = .ok uri ∧
      uri.Stable ∧ uri.toText = bytes "https://u:p@example.org:8443/b?y" := by
  have followed : follow (bytes "https://u:p@Example.org:8443") [bytes "/a/../b?x", bytes "?y"] =
      .ok { scheme := bytes "https", userinfo := bytes "u:p", host := bytes "example.org"
            port := 8443, path := bytes "/b", query := bytes "y", hasQuery := true } := by
    decide +kernel
  refine ⟨_, followed, (uri_stable_iff followed).mpr ?_, by decide +kernel⟩
  decide +kernel

/-- A port without a host is taken, and what is written of it is not. -/
theorem parses_port_without_host :
    ∃ uri, follow (bytes "http://:80/a") [] = .ok uri ∧ uri.host = [] ∧ ¬uri.Stable ∧
      uri.toText = bytes "http:///a" ∧ parseUri uri.toText = .error (bytes "URI has no host") := by
  refine ⟨{ scheme := bytes "http", port := 80, path := bytes "/a" }, by decide +kernel, rfl, ?_,
    by decide +kernel, by decide +kernel⟩
  exact fun stable => stable.host_named rfl

end UsdAsset.Http
