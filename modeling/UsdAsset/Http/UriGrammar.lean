import UsdAsset.Http.Numerals
import UsdAsset.Lib.Rfc3986
import UsdAsset.Resolver.DotRule
import UsdAsset.Resolver.PercentEncoding

/-!
# The URIs the backend takes

What `ParseUri` accepts is what the grammar of RFC 3986 splits into a served scheme and an
authority with a host, a closed literal and a port one can connect to.  The parsed URI has
these parts, with scheme and host in lower case and an empty path read as `/`.
-/

namespace UsdAsset.Http

open ByteString Rfc3986

variable {host text scheme path : Bytes} {portText : Option Bytes} {port : ℕ} {uri : Uri}

/-! ### Authorities -/

/-- What an authority is made of; a zero port stands for the scheme's default. -/
structure AuthorityParts where
  userinfo : Bytes
  host : Bytes
  port : ℕ

/-- A host as it is written: a bracketed literal, or a text without colons. -/
def IsHost (host : Bytes) : Prop :=
  (∃ inside, host = bytes "[" ++ inside ++ bytes "]" ∧ ((']' : Char) : UInt8) ∉ inside) ∨
    ((':' : Char) : UInt8) ∉ host ∧ host.head? ≠ some (('[' : Char) : UInt8)

/-- What may follow a host: nothing, a colon, or a colon and a port that is not zero. -/
def WritesPort (text : Bytes) (port : ℕ) : Prop :=
  (text = [] ∨ text = bytes ":") ∧ port = 0 ∨
    ∃ digits, text = bytes ":" ++ digits ∧ IsDecimal digits port ∧ 1 ≤ port ∧ port ≤ 65535

/-- The text reads `[userinfo@]host[:port]`; the last `@` ends the userinfo. -/
def WritesAuthority (text : Bytes) (parts : AuthorityParts) : Prop :=
  ∃ before after, text = before ++ (parts.host ++ after) ∧
    (before = [] ∧ parts.userinfo = [] ∨ before = parts.userinfo ++ bytes "@") ∧
    (('@' : Char) : UInt8) ∉ parts.host ++ after ∧ parts.host ++ after ≠ [] ∧
    IsHost parts.host ∧ WritesPort after parts.port

theorem splitHostPort_bracketed {inside : Bytes} (closed : rightBracket ∉ inside)
    (after : Bytes) :
    splitHostPort (bytes "[" ++ inside ++ bytes "]" ++ after) =
      match after with
      | [] => .ok (bytes "[" ++ inside ++ bytes "]", none)
      | next :: portText =>
        if next = ':' then .ok (bytes "[" ++ inside ++ bytes "]", some portText)
        else .error (bytes "URI has trailing junk after an IPv6 literal") := by
  have opened : rightBracket ∉ bytes "[" ++ inside := by
    rw [List.mem_append, not_or]
    exact ⟨by decide, closed⟩
  have found := splitFirst_append after opened
  have shape : bytes "[" ++ inside ++ bytes "]" ++ after =
      leftBracket :: (inside ++ rightBracket :: after) := by
    simp [bytes]
  have led : leftBracket :: (inside ++ rightBracket :: after) =
      bytes "[" ++ inside ++ rightBracket :: after := rfl
  rw [shape, splitHostPort, if_pos rfl, led, found]
  cases after <;> rfl

theorem splitHostPort_of_isHost (isHost : IsHost host)
    (present : (host ++ portText.elim [] fun digits => bytes ":" ++ digits) ≠ []) :
    splitHostPort (host ++ portText.elim [] fun digits => bytes ":" ++ digits) =
      .ok (host, portText) := by
  rcases isHost with ⟨inside, rfl, closed⟩ | ⟨uncoloned, plain⟩
  · rw [splitHostPort_bracketed closed]
    cases portText with
    | none => rfl
    | some digits => exact if_pos rfl
  · cases portText with
    | none =>
      simp only [Option.elim_none, List.append_nil] at present ⊢
      rw [splitHostPort_plain present plain, splitFirst_eq_none uncoloned]
    | some digits =>
      have found : splitFirst colon (host ++ (bytes ":" ++ digits)) =
          some (host, digits) := splitFirst_append digits uncoloned
      rw [Option.elim_some, splitHostPort_plain (by simp [bytes]), found]
      cases host with
      | nil => exact (by decide : some colon ≠ some leftBracket)
      | cons first rest => exact plain

theorem isHost_of_splitHostPort {hostPort : Bytes}
    (split : splitHostPort hostPort = .ok (host, portText)) :
    IsHost host ∧ hostPort = host ++ portText.elim [] fun digits => bytes ":" ++ digits := by
  by_cases present : hostPort = []
  · subst present
    cases split
  by_cases opened : hostPort.head? = some leftBracket
  · rcases List.head?_eq_some_iff.mp opened with ⟨rest, rfl⟩
    by_cases closed : rightBracket ∈ rest
    · rcases List.eq_append_cons_of_mem closed with ⟨inside, after, rfl, literal⟩
      have shape : leftBracket :: (inside ++ rightBracket :: after) =
          bytes "[" ++ inside ++ bytes "]" ++ after := by
        simp [bytes]
      rw [shape] at split ⊢
      rw [splitHostPort_bracketed literal] at split
      split at split
      · cases split
        exact ⟨Or.inl ⟨inside, rfl, literal⟩, rfl⟩
      · split at split
        · rename_i coloned
          cases split
          rw [coloned]
          exact ⟨Or.inl ⟨inside, rfl, literal⟩, rfl⟩
        · cases split
    · have unclosed : splitFirst rightBracket (leftBracket :: rest) = none := by
        refine splitFirst_eq_none ?_
        rw [List.mem_cons, not_or]
        exact ⟨by decide, closed⟩
      rw [splitHostPort, if_pos rfl, unclosed] at split
      cases split
  · rw [splitHostPort_plain present opened] at split
    split at split
    · rename_i absent
      cases split
      exact ⟨Or.inr ⟨notMem_of_splitFirst absent, opened⟩, by simp⟩
    · rename_i found
      cases split
      rcases eq_append_of_splitFirst found with ⟨shape, absent⟩
      refine ⟨Or.inr ⟨absent, ?_⟩, shape⟩
      rw [shape] at opened
      cases host with
      | nil => nofun
      | cons first rest => exact opened

theorem parseOptionalPort_eq_ok_iff :
    parseOptionalPort portText = .ok port ↔
      WritesPort (portText.elim [] fun digits => bytes ":" ++ digits) port := by
  have colon : bytes ":" = [colon] := rfl
  rcases portText with _ | _ | ⟨digit, digits⟩
  · simp [parseOptionalPort, WritesPort, colon, eq_comm (a := 0)]
  · simp [parseOptionalPort, WritesPort, colon, IsDecimal, eq_comm (a := 0)]
  · simp [parseOptionalPort, WritesPort, colon, parsePort_eq_ok_iff]

theorem WritesPort.exists_portText (writes : WritesPort text port) :
    ∃ portText : Option Bytes, text = portText.elim [] fun digits => bytes ":" ++ digits := by
  rcases writes with ⟨rfl | rfl, _⟩ | ⟨digits, rfl, _⟩
  · exact ⟨none, rfl⟩
  · exact ⟨some [], rfl⟩
  · exact ⟨some digits, rfl⟩

/-- What an authority has after its userinfo. -/
def authorityHostPort (authority : Bytes) : Bytes :=
  match splitLast '@' authority with
  | none => authority
  | some (_, hostPort) => hostPort

theorem authority_shape (authority : Bytes) :
    ∃ before, authority = before ++ authorityHostPort authority ∧
      (before = [] ∧ authorityUserinfo authority = [] ∨
        before = authorityUserinfo authority ++ bytes "@") ∧
      atSign ∉ authorityHostPort authority := by
  simp only [authorityHostPort, authorityUserinfo]
  cases ended : splitLast atSign authority with
  | none => exact ⟨[], rfl, Or.inl ⟨rfl, rfl⟩, notMem_of_splitLast ended⟩
  | some halves =>
    rcases eq_append_of_splitLast ended with ⟨whole, last⟩
    refine ⟨halves.1 ++ bytes "@", ?_, Or.inr rfl, last⟩
    rw [whole]
    simp [bytes]

theorem authority_of_shape {before userinfo hostPort : Bytes}
    (ended : before = [] ∧ userinfo = [] ∨ before = userinfo ++ bytes "@")
    (last : atSign ∉ hostPort) :
    authorityUserinfo (before ++ hostPort) = userinfo ∧
      authorityHostPort (before ++ hostPort) = hostPort := by
  rcases ended with ⟨rfl, rfl⟩ | rfl
  · rw [List.nil_append, authorityUserinfo, authorityHostPort, splitLast_eq_none last]
    exact ⟨rfl, rfl⟩
  · have found : splitLast atSign (userinfo ++ bytes "@" ++ hostPort) =
        some (userinfo, hostPort) := by
      rw [List.append_assoc]
      exact splitLast_append userinfo last
    rw [authorityUserinfo, authorityHostPort, found]
    exact ⟨rfl, rfl⟩

theorem parseAuthority_eq (authority scheme : Bytes) :
    parseAuthority authority { scheme } = splitHostPort (authorityHostPort authority) >>= fun split =>
      parseOptionalPort split.2 >>= fun port =>
        .ok { scheme, userinfo := authorityUserinfo authority, host := split.1.map lowerAscii, port } := by
  simp only [parseAuthority, authorityHostPort, authorityUserinfo]
  cases splitLast atSign authority <;> rfl

theorem parseAuthority_eq_ok_iff {authority : Bytes} :
    parseAuthority authority { scheme } = .ok uri ↔
      ∃ parts, WritesAuthority authority parts ∧
        uri = { scheme, userinfo := parts.userinfo, host := parts.host.map lowerAscii
                port := parts.port } := by
  simp only [parseAuthority_eq, bind_eq_ok_iff, Prod.exists]
  constructor
  · rintro ⟨host, portText, split, port, read, made⟩
    cases made
    rcases isHost_of_splitHostPort split with ⟨isHost, shape⟩
    rcases authority_shape authority with ⟨before, whole, ended, last⟩
    rw [shape] at whole last
    refine ⟨⟨authorityUserinfo authority, host, port⟩, ⟨before, _, whole, ended, last, ?_, isHost,
      parseOptionalPort_eq_ok_iff.mp read⟩, rfl⟩
    rw [← shape]
    intro empty
    rw [empty] at split
    cases split
  · rintro ⟨parts, ⟨before, after, rfl, ended, last, present, isHost, written⟩, rfl⟩
    rcases written.exists_portText with ⟨portText, rfl⟩
    rcases authority_of_shape ended last with ⟨userinfo, hostPort⟩
    rw [userinfo, hostPort]
    exact ⟨parts.host, portText, splitHostPort_of_isHost isHost present, parts.port,
      parseOptionalPort_eq_ok_iff.mpr written, rfl⟩

/-! ### Absolute URIs -/

def orRoot (path : Bytes) : Bytes := if path = [] then bytes "/" else path

/-- The URI that parts make, if they have a scheme and an authority. -/
def Uri.ofParts (parts : Rfc3986.Parts AuthorityParts) : Option Uri :=
  match parts.scheme, parts.authority with
  | some scheme, some authority =>
      some
        { scheme := scheme.map lowerAscii
          userinfo := authority.userinfo
          host := authority.host.map lowerAscii
          port := authority.port
          path := orRoot parts.path
          query := parts.query.getD []
          hasQuery := parts.query.isSome }
  | _, _ => none

def Uri.parts (uri : Uri) : Rfc3986.Parts AuthorityParts where
  scheme := some uri.scheme
  authority := some ⟨uri.userinfo, uri.host, uri.port⟩
  path := uri.path
  query := if uri.hasQuery then some uri.query else none

/-- The parts that a reference is written from. -/
structure Denotes (reference : Bytes) (parts : Rfc3986.Parts AuthorityParts) : Prop where
  scheme : parts.scheme = (Rfc3986.split reference).scheme
  authority : Option.Rel WritesAuthority (Rfc3986.split reference).authority parts.authority
  path : parts.path = (Rfc3986.split reference).path
  query : parts.query = (Rfc3986.split reference).query

def IsServedScheme (scheme : Bytes) : Prop :=
  scheme.map lowerAscii = bytes "http" ∨ scheme.map lowerAscii = bytes "https"

theorem removeDots_eq (fuel : ℕ) (input output : Bytes) :
    removeDots fuel input output = Resolver.removeDotSegmentsFrom fuel input output := by
  induction fuel generalizing input output with
  | zero => rfl
  | succ fuel ih =>
    have segment : leadingSegment input = Resolver.firstSegment input := by
      cases input <;> rfl
    have dropped : withoutLastSegment output = Resolver.dropLastSegment output := rfl
    simp only [removeDots, Resolver.removeDotSegmentsFrom, ih, segment, dropped]

section

variable (rooted : path.head? = some slash)

include rooted

/-- The stack of segments leaves of a rooted path what the rewriting of the RFC does. -/
theorem removeDotSegments_eq_rfc : removeDotSegments path = Rfc3986.removeDotSegments path := by
  rw [← Resolver.removeDotSegments_eq rooted, Resolver.removeDotSegments, Rfc3986.removeDotSegments,
    removeDots_eq]

theorem exists_kept_segments :
    ∃ kept, kept ≠ [] ∧ (∀ segment ∈ kept, Resolver.IsPlain segment ∧ segment ⊆ path) ∧
      removeDotSegments path = Segments.render slash kept := by
  rcases List.head?_eq_some_iff.mp rooted with ⟨rest, rfl⟩
  have whole := @Segments.notMem_of_mem_splitOn _ slash _ _ rest
  have inside : ∀ segment ∈ rest.splitOn slash, segment ⊆ slash :: rest := by
    intro segment segmentMem byte byteMem
    rw [← Segments.render_splitOn rest, Segments.render, List.mem_flatMap]
    exact ⟨segment, segmentMem, List.mem_cons_of_mem _ byteMem⟩
  rcases Resolver.exists_kept_of_removeDotSegments (List.splitOn_ne_nil _ _) whole with
    ⟨kept, present, plain, eq⟩
  refine ⟨kept, present, ?_, ?_⟩
  · intro segment segmentMem
    rcases plain segment segmentMem with ⟨isPlain, rfl | known⟩
    · exact ⟨isPlain, List.nil_subset _⟩
    · exact ⟨isPlain, inside segment known⟩
  · rw [← eq, Segments.render_splitOn, Resolver.removeDotSegments_eq rfl]

theorem head?_removeDotSegments : (removeDotSegments path).head? = some slash := by
  rcases exists_kept_segments rooted with ⟨kept, present, _, eq⟩
  rw [eq, Segments.render_eq_intercalate present, List.head?_cons]

theorem removeDotSegments_removeDotSegments :
    removeDotSegments (removeDotSegments path) = removeDotSegments path := by
  rcases exists_kept_segments rooted with ⟨kept, present, plain, eq⟩
  rw [eq, Resolver.http_removeDotSegments_plain present fun segment segmentMem =>
    (plain segment segmentMem).1]

theorem mem_of_mem_removeDotSegments : removeDotSegments path ⊆ path := by
  rcases exists_kept_segments rooted with ⟨kept, _, plain, eq⟩
  rw [eq, Segments.render]
  intro byte byteMem
  rcases List.mem_flatMap.mp byteMem with ⟨segment, segmentMem, byteMem⟩
  rcases List.mem_cons.mp byteMem with rfl | inside
  · exact List.mem_of_mem_head? rooted
  · exact (plain segment segmentMem).2 inside

end

theorem removeDotSegments_orRoot (shape : path = [] ∨ path.head? = some slash) :
    removeDotSegments (orRoot path) = orRoot (Rfc3986.removeDotSegments path) := by
  rcases shape with rfl | rooted
  · decide
  · have present : path ≠ [] := by
      rintro rfl
      cases rooted
    have kept := head?_removeDotSegments rooted
    rw [orRoot, if_neg present, ← removeDotSegments_eq_rfc rooted, orRoot, if_neg]
    intro empty
    rw [empty] at kept
    cases kept

theorem inScheme_of_lowerAscii : ∀ byte : UInt8, lowerAscii byte ∈ bytes "https" →
    inScheme byte = true := by
  decide +kernel

theorem IsServedScheme.inScheme (served : IsServedScheme scheme) :
    scheme ≠ [] ∧ ∀ byte ∈ scheme, inScheme byte = true := by
  have letters : ∀ byte ∈ scheme.map lowerAscii, byte ∈ bytes "https" := by
    rcases served with same | same <;> rw [same] <;> decide +kernel
  constructor
  · rintro rfl
    rcases served with same | same <;> cases same
  · intro byte byteMem
    exact inScheme_of_lowerAscii byte (letters _ (List.mem_map_of_mem byteMem))

theorem not_endsUriAuthority_eq : (fun byte => !endsUriAuthority byte) = Rfc3986.inAuthority := by
  funext byte
  simp only [endsUriAuthority, Rfc3986.inAuthority, Bool.not_or]
  rfl

theorem splitPathAndQuery_eq (rest : Bytes) (uri : Uri) :
    splitPathAndQuery rest uri =
      { uri with
        path := orRoot (splitQuery rest).1
        query := (splitQuery rest).2.getD []
        hasQuery := (splitQuery rest).2.isSome } := by
  simp only [splitPathAndQuery, splitQuery]
  cases splitFirst (('?' : Char) : UInt8) rest <;> rfl

theorem splitFirst_of_scheme (served : IsServedScheme scheme) (rest : Bytes) :
    splitFirst ':' (scheme ++ bytes ":" ++ rest) = some (scheme, rest) := by
  have unambiguous : colon ∉ scheme := by
    intro colonMem
    cases served.inScheme.2 _ colonMem
  rw [List.append_assoc]
  exact splitFirst_append rest unambiguous

theorem parseUri_of_scheme {rest : Bytes} (served : IsServedScheme scheme)
    (shape : stripFragment text = scheme ++ bytes ":" ++ rest) :
    parseUri text =
      match (splitAuthority rest).1 with
      | none => .error (bytes "URI has no authority")
      | some authority =>
        parseAuthority authority { scheme := scheme.map lowerAscii } >>= fun uri =>
          .ok
            { uri with
              path :=
                removeDotSegments (orRoot (splitQuery (splitAuthority rest).2).1)
              query := (splitQuery (splitAuthority rest).2).2.getD []
              hasQuery := (splitQuery (splitAuthority rest).2).2.isSome } := by
  have found := splitFirst_of_scheme served rest
  have allowed : ¬(scheme.map lowerAscii ≠ bytes "http" ∧ scheme.map lowerAscii ≠ bytes "https") := by
    rw [not_and_or, not_not, not_not]
    exact served
  simp only [parseUri, shape, found, if_neg allowed, splitAuthority,
    not_endsUriAuthority_eq, splitPathAndQuery_eq]
  split
  · rename_i missing
    rw [Bool.not_eq_true'] at missing
    rw [if_neg (by rw [missing]; simp)]
  · rename_i present
    rw [Bool.not_eq_true', Bool.not_eq_false] at present
    rw [if_pos present]

theorem split_of_scheme {rest : Bytes} (named : scheme ≠ [])
    (plain : ∀ byte ∈ scheme, inScheme byte = true)
    (shape : stripFragment text = scheme ++ bytes ":" ++ rest) :
    split text =
      ⟨some scheme, (splitAuthority rest).1,
        (splitQuery (splitAuthority rest).2).1,
        (splitQuery (splitAuthority rest).2).2⟩ := by
  have whole : withoutFragment text = scheme ++ bytes ":" ++ rest := shape
  simp only [split, whole, splitScheme_append named plain]

theorem exists_scheme_of_parseUri (parsed : parseUri text = .ok uri) :
    ∃ scheme rest, IsServedScheme scheme ∧ stripFragment text = scheme ++ bytes ":" ++ rest := by
  simp only [parseUri] at parsed
  split at parsed
  · cases parsed
  · rename_i scheme rest found
    split at parsed
    · cases parsed
    · rename_i allowed
      rw [not_and_or, not_not, not_not] at allowed
      refine ⟨scheme, rest, allowed, ?_⟩
      rw [(eq_append_of_splitFirst found).1, List.append_assoc]
      rfl

/-- What is parsed as a URI are the parts it is written from. -/
theorem parseUri_eq_ok_iff :
    parseUri text = .ok uri ↔
      ∃ parts scheme, Denotes text parts ∧ parts.scheme = some scheme ∧ IsServedScheme scheme ∧
        Uri.ofParts { parts with path := Rfc3986.removeDotSegments parts.path } = some uri := by
  constructor
  · intro parsed
    rcases exists_scheme_of_parseUri parsed with ⟨scheme, rest, served, shape⟩
    have split := split_of_scheme served.inScheme.1 served.inScheme.2 shape
    rw [parseUri_of_scheme served shape] at parsed
    split at parsed
    · cases parsed
    · rename_i authority found
      rcases bind_eq_ok_iff.mp parsed with ⟨_, parsedAuthority, assembled⟩
      rcases parseAuthority_eq_ok_iff.mp parsedAuthority with ⟨parts, writes, rfl⟩
      cases assembled
      refine ⟨⟨some scheme, some parts, (Rfc3986.split text).path, (Rfc3986.split text).query⟩,
        scheme, ⟨by rw [split], ?_, rfl, rfl⟩, rfl, served, ?_⟩
      · rw [split, found]
        exact .some writes
      · rw [split, removeDotSegments_orRoot (path_rooted_of_authority found)]
        rfl
  · rintro ⟨parts, scheme, denotes, named, served, made⟩
    have shape : ∃ rest, stripFragment text = scheme ++ bytes ":" ++ rest := by
      refine ⟨(splitScheme (stripFragment text)).2, ?_⟩
      refine (eq_append_of_splitScheme (Prod.ext ?_ rfl)).1
      rw [← named, denotes.scheme]
      rfl
    rcases shape with ⟨rest, shape⟩
    have split := split_of_scheme served.inScheme.1 served.inScheme.2 shape
    rcases denotes with ⟨_, authorityRel, path, query⟩
    rw [split] at authorityRel path query
    rcases parts with ⟨_, authority, _, _⟩
    cases named
    cases path
    cases query
    rw [parseUri_of_scheme served shape]
    generalize found : (splitAuthority rest).1 = written at authorityRel
    cases authorityRel with
    | none => cases made
    | some writes =>
      cases made
      refine bind_eq_ok_iff.mpr ⟨_, parseAuthority_eq_ok_iff.mpr ⟨_, writes, rfl⟩, ?_⟩
      rw [removeDotSegments_orRoot (path_rooted_of_authority found)]

/-! ### What every URI of the backend is like -/

/-- What holds of a URI that was parsed, or made from one by following a `Location`. -/
structure Uri.WellFormed (uri : Uri) : Prop where
  served : uri.scheme = bytes "http" ∨ uri.scheme = bytes "https"
  userinfo_plain : ∀ byte ∈ uri.userinfo,
    Rfc3986.inAuthority byte = true ∧ byte ≠ (('#' : Char) : UInt8)
  host_plain : ∀ byte ∈ uri.host, Rfc3986.inAuthority byte = true ∧
    byte ≠ (('#' : Char) : UInt8) ∧ byte ≠ (('@' : Char) : UInt8)
  host_lower : uri.host.map lowerAscii = uri.host
  isHost : IsHost uri.host
  port_le : uri.port ≤ 65535
  rooted : uri.path.head? = some slash
  path_plain : (('?' : Char) : UInt8) ∉ uri.path ∧ (('#' : Char) : UInt8) ∉ uri.path
  settled : removeDotSegments uri.path = uri.path
  query_plain : (('#' : Char) : UInt8) ∉ uri.query
  query_absent : uri.hasQuery = false → uri.query = []

theorem lowerAscii_of_reserved : ∀ byte : UInt8, Resolver.isUnreserved byte = false →
    lowerAscii byte = byte := by
  decide +kernel

/-- Lower case leaves the bytes alone that separate the parts of a URI. -/
theorem lowerAscii_eq_iff {byte mark : UInt8} (reserved : Resolver.isUnreserved mark = false) :
    lowerAscii byte = mark ↔ byte = mark := by
  constructor
  · rintro rfl
    exact (Resolver.lowerAscii_eq_of_reserved byte reserved).symm
  · rintro rfl
    exact lowerAscii_of_reserved byte reserved

theorem mem_map_lowerAscii {mark : UInt8} (reserved : Resolver.isUnreserved mark = false) :
    mark ∈ text.map lowerAscii ↔ mark ∈ text := by
  simp only [List.mem_map, lowerAscii_eq_iff reserved, exists_eq_right]

theorem IsHost.map_lowerAscii (isHost : IsHost host) :
    IsHost (host.map lowerAscii) := by
  rcases isHost with ⟨inside, rfl, closed⟩ | ⟨uncoloned, plain⟩
  · refine Or.inl ⟨inside.map lowerAscii, ?_, ?_⟩
    · rw [List.map_append, List.map_append]
      rfl
    · rwa [mem_map_lowerAscii rfl]
  · refine Or.inr ⟨by rwa [mem_map_lowerAscii rfl], ?_⟩
    cases host with
    | nil => nofun
    | cons first rest =>
      intro opened
      refine plain ?_
      rw [List.map_cons, List.head?_cons, Option.some.injEq,
        lowerAscii_eq_iff rfl] at opened
      rw [opened, List.head?_cons]

theorem WritesPort.le (writes : WritesPort text port) : port ≤ 65535 := by
  rcases writes with ⟨_, rfl⟩ | ⟨_, _, _, _, bounded⟩
  · exact Nat.zero_le _
  · exact bounded

theorem WritesAuthority.subset {parts : AuthorityParts} (writes : WritesAuthority text parts) :
    parts.userinfo ⊆ text ∧ parts.host ⊆ text ∧ atSign ∉ parts.host := by
  rcases writes with ⟨before, after, rfl, ended, last, _, _, _⟩
  refine ⟨?_, ?_, fun mem => last (List.mem_append_left _ mem)⟩
  · rcases ended with ⟨_, empty⟩ | rfl
    · rw [empty]
      exact List.nil_subset _
    · rw [List.append_assoc]
      exact List.subset_append_left _ _
  · exact List.Subset.trans (List.subset_append_left _ _) (List.subset_append_right _ _)

theorem orRoot_rooted (shape : path = [] ∨ path.head? = some slash) :
    (orRoot path).head? = some slash := by
  rcases shape with rfl | rooted
  · rfl
  · rw [orRoot, if_neg]
    · exact rooted
    · rintro rfl
      cases rooted

theorem settled_path (rooted : path.head? = some slash)
    (plain : (('?' : Char) : UInt8) ∉ path ∧ numberSign ∉ path) :
    (removeDotSegments path).head? = some slash ∧
      ((('?' : Char) : UInt8) ∉ removeDotSegments path ∧
        numberSign ∉ removeDotSegments path) ∧
      removeDotSegments (removeDotSegments path) = removeDotSegments path := by
  have inside := mem_of_mem_removeDotSegments rooted
  exact ⟨head?_removeDotSegments rooted,
    ⟨fun mem => plain.1 (inside mem), fun mem => plain.2 (inside mem)⟩,
    removeDotSegments_removeDotSegments rooted⟩

theorem wellFormed_of_parseUri (parsed : parseUri text = .ok uri) :
    uri.WellFormed := by
  rcases parseUri_eq_ok_iff.mp parsed with
    ⟨⟨_, authority, path, query⟩, scheme, ⟨_, authorityRel, pathEq, queryEq⟩, ⟨⟩, served, made⟩
  rcases split_bytes text with ⟨authorityBytes, noQuestion, noHash, queryBytes⟩
  have written : ∃ parts text', authority = some parts ∧
      (split text).authority = some text' ∧ WritesAuthority text' parts := by
    generalize (split text).authority = found at authorityRel
    cases authorityRel with
    | none => cases made
    | some writes => exact ⟨_, _, rfl, rfl, writes⟩
  rcases written with ⟨parts, authorityText, rfl, found, writes⟩
  cases made
  dsimp only at pathEq queryEq
  subst pathEq queryEq
  have bytes_ := authorityBytes authorityText found
  rcases writes.subset with ⟨userinfoInside, hostInside, unended⟩
  have shape := path_rooted_of_authority found
  have plain : (('?' : Char) : UInt8) ∉ orRoot (split text).path ∧
      numberSign ∉ orRoot (split text).path := by
    simp only [orRoot]
    split
    · decide
    · exact ⟨noQuestion, noHash⟩
  rcases settled_path (orRoot_rooted shape) plain with ⟨rooted, pathPlain, settled⟩
  rw [removeDotSegments_orRoot shape] at rooted pathPlain settled
  rcases writes with ⟨_, _, _, _, _, _, isHost, writesPort⟩
  refine ⟨served, fun byte byteMem => bytes_ byte (userinfoInside byteMem), ?_, ?_,
    isHost.map_lowerAscii, writesPort.le, rooted, pathPlain, settled, ?_, ?_⟩
  · intro byte byteMem
    -- No byte that separates parts comes from another one in lower case.
    have differs : ∀ {mark : UInt8}, Resolver.isUnreserved mark = false → mark ∉ parts.host →
        byte ≠ mark := by
      rintro mark reserved absent rfl
      exact absent ((mem_map_lowerAscii reserved).mp byteMem)
    have noSlash : (('/' : Char) : UInt8) ∉ parts.host := fun mem => by
      cases (bytes_ _ (hostInside mem)).1
    have noQuestionMark : (('?' : Char) : UInt8) ∉ parts.host := fun mem => by
      cases (bytes_ _ (hostInside mem)).1
    have noHashMark : numberSign ∉ parts.host := fun mem =>
      (bytes_ _ (hostInside mem)).2 rfl
    refine ⟨?_, differs rfl noHashMark, differs rfl unended⟩
    simp only [Rfc3986.inAuthority, Bool.and_eq_true, bne_iff_ne]
    exact ⟨differs rfl noSlash, differs rfl noQuestionMark⟩
  · simp [Resolver.lowerAscii_lowerAscii]
  · cases asked : (split text).query with
    | none => simp
    | some query => exact queryBytes query asked
  · intro unasked
    cases asked : (split text).query with
    | none => rfl
    | some query => simp [asked] at unasked

end UsdAsset.Http
