import UsdAsset.Http.Lifetime
import UsdAsset.Resolver.Idempotence

/-!
# The resolver and the backend agree on names

An identifier goes to the backend, which parses it again and names the asset after
what it parsed.  The two readings agree on scheme, path and query.  They agree on
the authority exactly where its port is not zero and a colon the backend would split
at is the one the resolver split at.
-/

namespace UsdAsset.Resolver

open ByteString Http Segments

/-! ### Ports -/

theorem parsePort_fold (text : Bytes) (start : ℕ) :
    (text.foldlM (fun port byte =>
      if isDigit byte then
        let next := port * 10 + (byte - '0').toNat
        if next > 65535 then (.error (bytes "URI port is out of range") : Except Bytes ℕ)
        else .ok next
      else .error (bytes "URI port is not a number")) start).toOption =
      text.foldlM portDigit start := by
  induction text generalizing start with
  | nil => rfl
  | cons byte rest ih =>
    rw [List.foldlM_cons, List.foldlM_cons, portDigit]
    split
    · dsimp only
      split
      · rfl
      · exact ih _
    · rfl

/-- The backend reads the ports the resolver reads, but for zero. -/
theorem parsePort_eq_ok_iff (text : Bytes) (value : ℕ) :
    parsePort text = .ok value ↔ portValue text = some value ∧ value ≠ 0 := by
  have same := parsePort_fold text 0
  rw [parsePort, portValue, ← same]
  cases text.foldlM (fun port byte =>
      if isDigit byte then
        let next := port * 10 + (byte - '0').toNat
        if next > 65535 then (.error (bytes "URI port is out of range") : Except Bytes ℕ)
        else .ok next
      else .error (bytes "URI port is not a number")) 0 with
  | error failure => simp [Except.toOption, bind, Except.bind]
  | ok read =>
    by_cases zero : read = 0
    · subst zero
      simp [Except.toOption, bind, Except.bind]
      omega
    · simp [Except.toOption, bind, Except.bind, zero]
      rintro rfl
      exact zero

/-! ### Names -/

theorem toIdentity_eq_compose (uri : Uri) :
    uri.toIdentity = compose uri.scheme uri.authority uri.path uri.query uri.hasQuery := by
  simp [Uri.toIdentity, Uri.compose, Uri.authority, compose]

theorem toIdentity_within (uri : Uri) (path query : Bytes) (hasQuery : Bool) :
    { uri with path, query := if hasQuery then query else [], hasQuery : Uri }.toIdentity =
      compose uri.scheme uri.authority path query hasQuery := by
  rw [toIdentity_eq_compose]
  cases hasQuery <;> rfl

theorem toText_eq_toIdentity {uri : Uri} (anonymous : uri.userinfo = []) :
    uri.toText = uri.toIdentity := by
  simp [Uri.toText, Uri.toIdentity, Uri.compose, anonymous]

section

variable {scheme authority path query : Bytes} {segments : List Bytes} (hasQuery : Bool)

theorem parseUri_compose (claimed : isClaimed scheme = true) (plain : IsNormalAuthority authority)
    (normal : IsNormalPath path segments) (noFragment : (('#' : Char) : UInt8) ∉ query) :
    parseUri (compose scheme authority path query hasQuery) =
      (parseAuthority authority { scheme }).map fun uri =>
        { uri with path, query := if hasQuery then query else [], hasQuery } := by
  have schemes := isClaimed_cases claimed
  have tail : ∃ rest, compose scheme authority path query hasQuery =
      scheme ++ bytes "://" ++ (authority ++ (path ++ rest)) ∧
        rest = if hasQuery then bytes "?" ++ query else [] := by
    exact ⟨_, by simp [compose], rfl⟩
  rcases tail with ⟨rest, shape, rest_eq⟩
  have unstripped := stripFragment_compose hasQuery claimed plain normal noFragment
  have found : splitFirst colon (compose scheme authority path query hasQuery) =
      some (scheme, bytes "//" ++ (authority ++ (path ++ rest))) := by
    rw [shape]
    rcases schemes with rfl | rfl
    · rfl
    · rfl
  have supported : ¬(scheme.map lowerAscii ≠ bytes "http" ∧
      scheme.map lowerAscii ≠ bytes "https") := by
    rcases schemes with rfl | rfl <;> decide
  have lowered : scheme.map lowerAscii = scheme := by
    rcases schemes with rfl | rfl <;> decide
  have slashes : (!(bytes "//").isPrefixOf (bytes "//" ++ (authority ++ (path ++ rest)))) = false := by
    simp [bytes, List.isPrefixOf]
  have behind : (bytes "//" ++ (authority ++ (path ++ rest))).drop 2 = authority ++ (path ++ rest) :=
    rfl
  have inside : ∀ byte ∈ authority, (!endsUriAuthority byte) = true := by
    intro byte byteMem
    simp only [endsUriAuthority, Bool.not_eq_true', Bool.or_eq_false_iff, beq_eq_false_iff_ne]
    constructor
    · rintro rfl
      exact plain.slash byteMem
    · rintro rfl
      exact plain.questionMark byteMem
  have rooted : ∃ after, path = slash :: after :=
    ⟨_, normal.rendered.trans (render_eq_intercalate normal.present)⟩
  have taken : ((authority ++ (path ++ rest)).takeWhile fun byte => !endsUriAuthority byte) =
      authority := by
    rcases rooted with ⟨after, rfl⟩
    rw [List.takeWhile_append_of_pos inside]
    exact List.append_nil authority
  have dropped : ((authority ++ (path ++ rest)).dropWhile fun byte => !endsUriAuthority byte) =
      path ++ rest := by
    rcases rooted with ⟨after, rfl⟩
    rw [List.dropWhile_append_of_pos inside]
    rfl
  simp only [colon] at found
  simp only [parseUri, unstripped, found]
  rw [if_neg supported, lowered, slashes]
  simp only [Bool.false_eq_true, if_false, behind, taken, dropped]
  cases parseAuthority authority { scheme } with
  | error failure => rfl
  | ok uri =>
    have filled : splitPathAndQuery (path ++ rest) uri =
        { uri with path, query := if hasQuery then query else [], hasQuery } := by
      have noQuery : questionMark ∉ path := normal.notMem (by decide) (by decide)
      have present : path ≠ [] := by
        rcases rooted with ⟨after, rfl⟩
        simp
      subst rest_eq
      cases hasQuery with
      | false =>
        have missing := splitFirst_eq_none noQuery
        simp only [questionMark] at missing
        simp [splitPathAndQuery, missing, present]
      | true =>
        have split := splitFirst_append query noQuery
        simp only [questionMark] at split
        simp [splitPathAndQuery, bytes, split, present]
    have removed : Http.removeDotSegments path = path := by
      rw [normal.rendered, http_removeDotSegments_plain normal.present normal.plain]
    simp only [bind, Except.bind, filled, removed]
    rfl

end

/-! ### Authorities -/

theorem lowerAscii_of_mem_normalizeHost {host : Bytes} {byte : UInt8}
    (byteMem : byte ∈ normalizeHost host) : lowerAscii byte = byte := by
  rcases List.mem_map.mp byteMem with ⟨original, _, rfl⟩
  exact lowerAscii_lowerAscii original

theorem parseAuthority_of_splitHostPort {authority scheme host : Bytes} {portText : Option Bytes}
    (noUserinfo : atSign ∉ authority) (split : splitHostPort authority = .ok (host, portText)) :
    parseAuthority authority { scheme } =
      (parseOptionalPort portText).map fun port =>
        { scheme, host := host.map lowerAscii, port } := by
  have missing := splitLast_eq_none noUserinfo
  simp only [atSign] at missing
  simp only [parseAuthority, missing, split, bind, Except.bind]
  cases parseOptionalPort portText with
  | error failure => rfl
  | ok port => rfl

theorem splitHostPort_bracketed {inside : Bytes} (opened : inside.head? = some openBracket)
    (unclosed : closeBracket ∉ inside) (written : Bytes) :
    splitHostPort (inside ++ closeBracket :: written) =
      match written with
      | [] => .ok (inside ++ bytes "]", none)
      | next :: portText =>
        if next = colon then .ok (inside ++ bytes "]", some portText)
        else .error (bytes "URI has trailing junk after an IPv6 literal") := by
  have found := splitFirst_append written unclosed
  cases inside with
  | nil => cases opened
  | cons first inside =>
    cases opened
    simp only [closeBracket] at found
    simp only [splitHostPort, List.cons_append, closeBracket]
    rw [if_pos (show openBracket = (('[' : Char) : UInt8) from rfl)]
    simp only [List.cons_append] at found
    rw [found]
    cases written with
    | nil => rfl
    | cons next portText => rfl

theorem splitHostPort_named {name : Bytes} (present : name ≠ [])
    (unbracketed : name.head? ≠ some openBracket) :
    splitHostPort name =
      match splitFirst colon name with
      | none => .ok (name, none)
      | some (host, portText) => .ok (host, some portText) :=
  splitHostPort_plain present unbracketed

theorem isDigit_of_portValue {port : Bytes} {start value : ℕ}
    (read : port.foldlM portDigit start = some value) : ∀ byte ∈ port, isDigit byte = true := by
  induction port generalizing start with
  | nil => simp
  | cons byte rest ih =>
    simp only [List.foldlM_cons, Option.bind_eq_bind, Option.bind_eq_some_iff] at read
    rcases read with ⟨next, step, later⟩
    intro other otherMem
    rcases List.mem_cons.mp otherMem with rfl | inRest
    · simp only [portDigit] at step
      split at step
      · assumption
      · cases step
    · exact ih later other inRest

/-- A port the backend reads, and writes again as it was. -/
def isParsedPort (secure : Bool) (port : Bytes) : Bool :=
  isWrittenPort secure port && port != bytes "0"

theorem isParsedPort_iff (secure : Bool) (port : Bytes) :
    isParsedPort secure port = true ↔
      ∃ value, parsePort port = .ok value ∧ value ≠ defaultPort secure ∧ port = decimal value := by
  simp only [isParsedPort, isWrittenPort, parsePort_eq_ok_iff, Bool.and_eq_true, bne_iff_ne]
  constructor
  · rintro ⟨written, notZero⟩
    split at written
    · cases written
    · rename_i value read
      simp only [Bool.and_eq_true, bne_iff_ne, beq_iff_eq] at written
      refine ⟨value, ⟨read, ?_⟩, written⟩
      rintro rfl
      exact notZero written.2
  · rintro ⟨value, ⟨read, notZero⟩, other, written⟩
    rw [read]
    refine ⟨by simpa using ⟨other, written⟩, ?_⟩
    rintro rfl
    cases read
    exact notZero rfl

section

variable {scheme host port : Bytes}

theorem authority_mk (value : ℕ) :
    ({ scheme, host, port := value } : Uri).authority =
      host ++ if value ≠ 0 ∧ value ≠ defaultPort (scheme == bytes "https")
        then bytes ":" ++ decimal value else [] := rfl

theorem parseAuthority_port_iff (noUserinfo : atSign ∉ host ++ colon :: port)
    (split : splitHostPort (host ++ colon :: port) = .ok (host, some port))
    (lowered : host.map lowerAscii = host) :
    (∃ uri, parseAuthority (host ++ colon :: port) { scheme } = .ok uri ∧
        uri.authority = host ++ colon :: port) ↔
      isParsedPort (scheme == bytes "https") port = true := by
  rw [parseAuthority_of_splitHostPort noUserinfo split, lowered]
  by_cases empty : port = []
  · subst empty
    simp [parseOptionalPort, Except.map, Uri.authority, isParsedPort, isWrittenPort, portValue,
      decimal_ne_nil]
  · rw [isParsedPort_iff]
    have reading : parseOptionalPort (some port) = parsePort port := by
      cases port with
      | nil => exact absurd rfl empty
      | cons first rest => rfl
    rw [reading]
    cases read : parsePort port with
    | error failure => simp [Except.map]
    | ok value =>
      have notZero := ((parsePort_eq_ok_iff port value).mp read).2
      have written : bytes ":" ++ decimal value = colon :: decimal value := rfl
      simp only [Except.map, Except.ok.injEq, exists_eq_left', authority_mk]
      by_cases isDefault : value = defaultPort (scheme == bytes "https")
      · simp [isDefault]
      · rw [if_pos ⟨notZero, isDefault⟩, written]
        simp [isDefault, eq_comm]

theorem parseAuthority_bare (noUserinfo : atSign ∉ host)
    (split : splitHostPort host = .ok (host, none)) (lowered : host.map lowerAscii = host) :
    ∃ uri, parseAuthority host { scheme } = .ok uri ∧ uri.authority = host := by
  rw [parseAuthority_of_splitHostPort noUserinfo split, lowered]
  exact ⟨_, rfl, by simp [Uri.authority]⟩

end

/--
The backend splits at the first colon of a name.  It finds the resolver's split where
there is none in the host, or where no port follows and the rest is one.
-/
def isParsedName (secure : Bool) (name written : Bytes) : Bool :=
  match splitFirst ':' name with
  | none => true
  | some (_, rest) => written == [] && isParsedPort secure rest

/-- Whether the backend reads the authority of an identifier as the resolver wrote it. -/
def agrees (authority : Bytes) (secure : Bool) : Bool :=
  match splitAuthority authority with
  | none => true
  | some (host, port) =>
      match normalizePort secure port with
      | none => true
      | some written =>
          host == [] || (written != bytes ":0" &&
            (host.head? == some openBracket || isParsedName secure (normalizeHost host) written))

theorem isParsedPort_decimal {secure : Bool} {value : ℕ} (within : value ≤ 65535)
    (other : value ≠ defaultPort secure) :
    isParsedPort secure (decimal value) = (bytes ":" ++ decimal value != bytes ":0") := by
  have zero : bytes ":0" = bytes ":" ++ bytes "0" := rfl
  have written : isWrittenPort secure (decimal value) = true := by
    simp [isWrittenPort, portValue_decimal within, other]
  rw [isParsedPort, written, zero, Bool.true_and, Bool.eq_iff_iff]
  simp

theorem splitHostPort_whole {name : Bytes} (isHost : IsHost name) (present : name ≠ [])
    (whole : name.head? = some openBracket ∨ colon ∉ name) :
    splitHostPort name = .ok (name, none) ∧
      ∀ port, splitHostPort (name ++ colon :: port) = .ok (name, some port) := by
  cases isHost with
  | @bracketed inside opened unclosed =>
    have bare := splitHostPort_bracketed opened unclosed []
    refine ⟨bare, fun port => ?_⟩
    have ported := splitHostPort_bracketed opened unclosed (colon :: port)
    have shape : inside ++ bytes "]" ++ colon :: port =
        inside ++ closeBracket :: (colon :: port) := by
      rw [List.append_assoc]
      rfl
    rw [shape, ported]
    simp
  | named unbracketed =>
    have absent := whole.resolve_left unbracketed
    refine ⟨?_, fun port => ?_⟩
    · rw [splitHostPort_named present unbracketed, splitFirst_eq_none absent]
    · have portedHead : (name ++ colon :: port).head? ≠ some openBracket := by
        cases name with
        | nil => exact absurd rfl present
        | cons first name => exact unbracketed
      rw [splitHostPort_named (by simp) portedHead, splitFirst_append port absent]

section

variable {name port written scheme : Bytes}

theorem parseAuthority_whole_iff (isHost : IsHost name) (present : name ≠ [])
    (whole : name.head? = some openBracket ∨ colon ∉ name)
    (noUserinfo : atSign ∉ name ++ written) (lowered : name.map lowerAscii = name)
    (port_eq : normalizePort (scheme == bytes "https") port = some written) :
    (∃ uri, parseAuthority (name ++ written) { scheme } = .ok uri ∧
        uri.authority = name ++ written) ↔ written ≠ bytes ":0" := by
  rcases splitHostPort_whole isHost present whole with ⟨bare, ported⟩
  rcases normalizePort_cases port_eq with rfl | ⟨value, within, other, rfl⟩
  · rw [List.append_nil] at noUserinfo ⊢
    exact iff_of_true (parseAuthority_bare noUserinfo bare lowered) (by decide)
  · have shape : bytes ":" ++ decimal value = colon :: decimal value := rfl
    have written := isParsedPort_decimal within other
    rw [shape] at noUserinfo written ⊢
    rw [parseAuthority_port_iff noUserinfo (ported _) lowered, written, bne_iff_ne]

theorem parseAuthority_colon_iff {first rest : Bytes} (absent : colon ∉ first)
    (unbracketed : (first ++ colon :: rest).head? ≠ some openBracket)
    (noUserinfo : atSign ∉ first ++ colon :: rest ++ written)
    (lowered : first.map lowerAscii = first)
    (port_eq : normalizePort (scheme == bytes "https") port = some written) :
    (∃ uri, parseAuthority (first ++ colon :: rest ++ written) { scheme } = .ok uri ∧
        uri.authority = first ++ colon :: rest ++ written) ↔
      written = [] ∧ isParsedPort (scheme == bytes "https") rest = true := by
  have shape : first ++ colon :: rest ++ written = first ++ colon :: (rest ++ written) := by
    simp
  have head : (first ++ colon :: (rest ++ written)).head? ≠ some openBracket := by
    cases first with
    | nil => exact unbracketed
    | cons byte first => exact unbracketed
  have split : splitHostPort (first ++ colon :: (rest ++ written)) =
      .ok (first, some (rest ++ written)) := by
    rw [splitHostPort_named (by simp) head, splitFirst_append _ absent]
  rw [shape] at noUserinfo ⊢
  rw [parseAuthority_port_iff noUserinfo split lowered]
  rcases normalizePort_cases port_eq with rfl | ⟨value, _, _, rfl⟩
  · simp
  · -- A second colon is no digit of a port.
    have unread : portValue (rest ++ (bytes ":" ++ decimal value)) = none := by
      cases read : portValue (rest ++ (bytes ":" ++ decimal value)) with
      | none => rfl
      | some value =>
        have digit := isDigit_of_portValue read colon (by simp [bytes, colon])
        cases digit
    have present : bytes ":" ++ decimal value ≠ [] := by simp [bytes]
    rw [isParsedPort, isWrittenPort, unread]
    simp [present]

end

theorem parseAuthority_agrees_iff {authority normalized scheme : Bytes}
    (found : normalizeAuthority authority (scheme == bytes "https") = some normalized) :
    (∃ uri, parseAuthority normalized { scheme } = .ok uri ∧ uri.authority = normalized) ↔
      agrees authority (scheme == bytes "https") = true := by
  rcases exists_of_normalizeAuthority found with
    ⟨host, port, written, split, present, port_eq, rfl⟩
  rcases isHost_of_splitAuthority split with ⟨isHost, noUserinfo, _⟩
  have hostAgain := isHost_normalizeHost isHost
  have presentAgain := normalizeHost_ne_nil present
  have noUserinfoAgain : atSign ∉ normalizeHost host ++ written := by
    rw [List.mem_append, not_or]
    exact ⟨fun made => noUserinfo (mem_of_mem_normalizeHost (by decide) (by decide) made),
      notMem_written port_eq (by decide) (by decide)⟩
  have lowered : ∀ part : Bytes, part <+: normalizeHost host → part.map lowerAscii = part := by
    intro part isPrefix
    conv_rhs => rw [← List.map_id part]
    refine List.map_congr_left ?_
    intro byte byteMem
    exact lowerAscii_of_mem_normalizeHost (isPrefix.subset byteMem)
  have condition : agrees authority (scheme == bytes "https") = true ↔
      written ≠ bytes ":0" ∧ (host.head? = some openBracket ∨
        isParsedName (scheme == bytes "https") (normalizeHost host) written = true) := by
    simp [agrees, split, port_eq, present]
  rw [condition]
  by_cases opened : host.head? = some openBracket
  · have openedAgain := head_normalizeHost_of_bracket opened
    rw [parseAuthority_whole_iff hostAgain presentAgain (Or.inl openedAgain) noUserinfoAgain
      (lowered _ (List.prefix_refl _)) port_eq]
    simp [opened]
  · have unbracketed : (normalizeHost host).head? ≠ some openBracket :=
      fun made => opened (head_normalizeHost made)
    by_cases colons : colon ∈ normalizeHost host
    · rcases List.eq_append_cons_of_mem colons with ⟨first, rest, shape, absent⟩
      have isPrefix : first <+: normalizeHost host := by
        rw [shape]
        exact List.prefix_append _ _
      have firstColon := splitFirst_append rest absent
      simp only [colon] at firstColon
      rw [shape] at noUserinfoAgain unbracketed ⊢
      rw [parseAuthority_colon_iff absent unbracketed noUserinfoAgain (lowered _ isPrefix) port_eq]
      simp only [isParsedName, colon, firstColon]
      simp only [opened, false_or, Bool.and_eq_true, beq_iff_eq]
      exact ⟨fun both => ⟨by rw [both.1]; decide, both⟩, fun both => both.2⟩
    · rw [parseAuthority_whole_iff hostAgain presentAgain (Or.inr colons) noUserinfoAgain
        (lowered _ (List.prefix_refl _)) port_eq]
      have missing := splitFirst_eq_none colons
      simp only [colon] at missing
      simp [isParsedName, missing]

theorem agrees_of_none {authority : Bytes} {secure : Bool}
    (refused : normalizeAuthority authority secure = none) : agrees authority secure = true := by
  simp only [normalizeAuthority] at refused
  simp only [agrees]
  split
  · rfl
  · rename_i host port split
    rw [split] at refused
    dsimp only at refused
    split at refused
    · rename_i absent
      subst absent
      split
      · rfl
      · simp
    · rw [Option.map_eq_none_iff.mp refused]

/-! ### Opened assets -/

/-- Without a redirect, an asset is named after the URL it was opened at. -/
theorem resolvedIdentifier_of_httpOpen {url : Bytes} {uri : Uri} (parsed : parseUri url = .ok uri)
    {options : HttpOptions} {transport : Transport} {wire after : Wire} {reader : HttpAssetReader}
    (opened : httpOpen url options (some transport) wire = (.ok reader, after))
    (direct : ∀ request ∈ after.trace.drop wire.trace.length,
      isRedirect request.response.status = false) :
    reader.metadata.resolvedIdentifier = uri.toIdentity := by
  rcases (openArgs transport options uri).performExchange_run uri options.retryBudget wire with
    ⟨sent, run⟩
  rcases exchanged : (openArgs transport options uri).performExchange uri options.retryBudget wire
    with ⟨exchange, left, final⟩
  rw [exchanged] at run
  simp only [httpOpen, parsed, exchanged] at opened
  split at opened
  · cases opened
  · simp only [Prod.mk.injEq] at opened
    rcases opened with ⟨described, rfl⟩
    rcases run.final with ⟨locations, followed, _, redirected⟩
    have trace : final.trace.drop wire.trace.length = sent := by
      rw [run.trace_eq]
      simp
    rw [trace] at direct
    have stayed : locations = [] := by
      by_contra moved
      rcases List.exists_mem_of_ne_nil locations moved with ⟨location, locationMem⟩
      rcases redirected location locationMem with ⟨request, requestMem, isRedirected, _⟩
      rw [direct request requestMem] at isRedirected
      cases isRedirected
    subst stayed
    have stays : exchange.finalUri = uri := by
      generalize exchange.finalUri = final at followed
      cases followed
      rfl
    rw [(describeAsset_metadata described).1, stays]

/-- The backend names an asset by its identifier. -/
structure NamedAlike (identifier : Bytes) : Prop where
  parsed : ∃ uri, parseUri identifier = .ok uri ∧ uri.toText = identifier ∧
    uri.toIdentity = identifier
  opened : ∀ options transport wire reader after,
    httpOpen identifier options (some transport) wire = (.ok reader, after) →
      (∀ request ∈ after.trace.drop wire.trace.length,
        isRedirect request.response.status = false) →
      reader.metadata.resolvedIdentifier = identifier

/-- Whether the backend reads the authority an asset path stands for, if it is a remote one. -/
def identifierAgrees (assetPath anchorAssetPath : Bytes) : Bool :=
  onAuthority agrees assetPath anchorAssetPath

/--
The backend parses every identifier, writes it again as it was and names the asset it
opens by it, exactly where it reads the authority as the resolver wrote it.
-/
theorem createIdentifier_namedAlike_iff (assetPath anchorAssetPath : Bytes) :
    (createIdentifier assetPath anchorAssetPath ≠ [] →
        NamedAlike (createIdentifier assetPath anchorAssetPath)) ↔
      identifierAgrees assetPath anchorAssetPath = true := by
  rcases composed_or_refused assetPath anchorAssetPath with
    refused | ⟨parts, authority, path, composed⟩
  · exact ⟨fun _ => refused.onAuthority fun _ _ => agrees_of_none,
      fun _ present => absurd refused.empty present⟩
  · have identifier := composed.createIdentifier_eq
    have present : createIdentifier assetPath anchorAssetPath ≠ [] := by
      rw [identifier]
      exact compose_ne_nil _ _ _ _ _
    rcases composed.exists_segments with ⟨segments, normal⟩
    have reading := parseUri_compose parts.hasQuery composed.claimed composed.isNormalAuthority
      normal (wellSplit_of_target composed.found).query
    rw [identifierAgrees, composed.onAuthority, Parts.secure,
      ← parseAuthority_agrees_iff composed.normalized]
    rw [← identifier] at reading
    constructor
    · intro alike
      rcases (alike present).parsed with ⟨_, parsed, _, identity⟩
      rw [reading] at parsed
      cases read : parseAuthority authority { scheme := parts.scheme } with
      | error failure => simp [read, Except.map] at parsed
      | ok uri =>
          simp only [read, Except.map, Except.ok.injEq] at parsed
          rw [← parsed, toIdentity_within, (parseAuthority_ok read).1, identifier] at identity
          exact ⟨uri, rfl, compose_injective identity⟩
    · rintro ⟨uri, read, written⟩ _
      simp only [read, Except.map] at reading
      have identity := toIdentity_within uri path parts.query parts.hasQuery
      have again := identity.trans (by rw [written, (parseAuthority_ok read).1, ← identifier])
      have anonymous : uri.userinfo = [] := by
        rw [(parseAuthority_ok read).2, authorityUserinfo,
          splitLast_eq_none composed.isNormalAuthority.atSign]
      refine ⟨⟨_, reading, ?_, again⟩, ?_⟩
      · rw [← again]
        exact toText_eq_toIdentity anonymous
      · intro options transport wire reader after opened direct
        exact (resolvedIdentifier_of_httpOpen reading opened direct).trans again

/-- A port of zero is kept in the identifier, and the backend parses no such port. -/
theorem createIdentifier_portZero :
    createIdentifier (bytes "http://host:0/a") [] = bytes "http://host:0/a" ∧
      ¬NamedAlike (createIdentifier (bytes "http://host:0/a") []) := by
  have identifier : createIdentifier (bytes "http://host:0/a") [] = bytes "http://host:0/a" := by
    decide +kernel
  refine ⟨identifier, ?_⟩
  intro alike
  rcases alike.parsed with ⟨uri, parsed, _⟩
  have rejected : (parseUri (bytes "http://host:0/a")).toOption.isSome = false := by
    decide +kernel
  rw [identifier] at parsed
  simp [parsed, Except.toOption] at rejected

end UsdAsset.Resolver
