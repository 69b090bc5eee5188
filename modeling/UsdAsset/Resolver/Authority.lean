import UsdAsset.Resolver.Normalization

/-!
# Authorities

What the splitting of an authority can give, and what its normalization makes of
it: a normalized host, followed by a port that is neither empty nor the default.
-/

namespace UsdAsset.Resolver

open ByteString Http

variable {port authority inside host normalized : Bytes} {value : ℕ} {secure : Bool}

def colon : UInt8 := ':'

def openBracket : UInt8 := '['

def closeBracket : UInt8 := ']'

def atSign : UInt8 := '@'

/-! ### Ports -/

theorem foldlM_portDigit_le {start : ℕ} (read : port.foldlM portDigit start = some value)
    (within : start ≤ 65535) : value ≤ 65535 := by
  induction port generalizing start with
  | nil =>
    cases read
    exact within
  | cons byte rest ih =>
    simp only [List.foldlM_cons, Option.bind_eq_bind, Option.bind_eq_some_iff] at read
    rcases read with ⟨next, step, later⟩
    refine ih later ?_
    simp only [portDigit] at step
    split at step
    · split at step
      · cases step
      · cases step
        omega
    · cases step

theorem portValue_le (read : portValue port = some value) :
    value ≤ 65535 :=
  foldlM_portDigit_le read (by omega)

theorem portValue_decimal (within : value ≤ 65535) :
    portValue (decimal value) = some value := by
  refine foldlM_decimal ?_ within
  intro value last isDigit fits
  simp only [portDigit, isDigit_digit last isDigit, toNat_digit_sub_zero last isDigit, if_true]
  exact if_neg (by omega)

theorem normalizePort_cases {written : Bytes}
    (normalized : normalizePort secure port = some written) :
    written = [] ∨ ∃ value ≤ 65535, value ≠ defaultPort secure ∧
      written = bytes ":" ++ decimal value := by
  simp only [normalizePort] at normalized
  split at normalized
  · exact Or.inl (Option.some.inj normalized).symm
  · split at normalized
    · cases normalized
    · rename_i value read
      cases normalized
      split
      · rename_i other
        exact Or.inr ⟨value, portValue_le read, other, rfl⟩
      · exact Or.inl rfl

theorem normalizePort_decimal (within : value ≤ 65535) (other : value ≠ defaultPort secure) :
    normalizePort secure (decimal value) = some (bytes ":" ++ decimal value) := by
  rw [normalizePort, if_neg (decimal_ne_nil value), portValue_decimal within]
  simp [other]

/-! ### Splitting -/

theorem splitAuthority_unfold (absent : atSign ∉ authority) :
    splitAuthority authority =
      if authority.head? = some openBracket then
        match splitFirst closeBracket authority with
        | none => none
        | some (inside, []) => some (inside ++ bytes "]", [])
        | some (inside, next :: port) =>
          if next = colon then some (inside ++ bytes "]", port) else none
      else
        match splitLast colon authority with
        | none => some (authority, [])
        | some halves => some halves := by
  have missing := splitLast_eq_none absent
  simp only [atSign] at missing
  simp only [splitAuthority, missing]
  rfl

theorem splitAuthority_userinfo (authority : Bytes) :
    ∃ hostPort, atSign ∉ hostPort ∧ hostPort <:+ authority ∧
      splitAuthority authority = splitAuthority hostPort := by
  by_cases present : atSign ∈ authority
  · rcases List.eq_append_cons_of_mem (List.mem_reverse.mpr present) with
      ⟨host, userinfo, shape, last⟩
    have reversed : authority = userinfo.reverse ++ atSign :: host.reverse := by
      simpa using congrArg List.reverse shape
    have absent : atSign ∉ host.reverse := by simpa using last
    refine ⟨host.reverse, absent, ?_, ?_⟩
    · rw [reversed]
      exact (List.suffix_cons _ _).trans (List.suffix_append _ _)
    · have found := splitLast_append userinfo.reverse absent
      have missing := splitLast_eq_none absent
      rw [← reversed] at found
      simp only [atSign] at found missing
      simp only [splitAuthority, found, missing]
  · exact ⟨authority, present, List.suffix_refl _, rfl⟩

/-- A host: a bracketed literal, or a name that does not begin with a bracket. -/
inductive IsHost : Bytes → Prop where
  | bracketed {inside : Bytes} (opened : inside.head? = some openBracket)
      (unclosed : closeBracket ∉ inside) : IsHost (inside ++ bytes "]")
  | named {name : Bytes} (unbracketed : name.head? ≠ some openBracket) : IsHost name

theorem head_of_bracketed {rest : Bytes}
    (opened : (inside ++ closeBracket :: rest).head? = some openBracket) :
    inside.head? = some openBracket := by
  cases inside with
  | nil => cases opened
  | cons first inside => exact opened

theorem isHost_of_splitAuthority (found : splitAuthority authority = some (host, port)) :
    IsHost host ∧ atSign ∉ host ∧ ∀ byte ∈ host, byte ∈ authority := by
  rcases splitAuthority_userinfo authority with ⟨hostPort, absent, isSuffix, same⟩
  -- Whatever the case, the host is a prefix of what follows the userinfo.
  have bounded : host <+: hostPort → atSign ∉ host ∧ ∀ byte ∈ host, byte ∈ authority :=
    fun isPrefix => ⟨fun found => absent (isPrefix.subset found),
      fun _ byteMem => isSuffix.subset (isPrefix.subset byteMem)⟩
  rw [same, splitAuthority_unfold absent] at found
  split at found
  · rename_i opened
    cases closed : splitFirst closeBracket hostPort with
    | none => simp [closed] at found
    | some halves =>
      rcases halves with ⟨inside, rest⟩
      rcases eq_append_of_splitFirst closed with ⟨rfl, unclosed⟩
      have isHost : IsHost (inside ++ bytes "]") := .bracketed (head_of_bracketed opened) unclosed
      have isPrefix : inside ++ bytes "]" <+: inside ++ closeBracket :: rest :=
        ⟨rest, by simp [bytes, closeBracket]⟩
      rw [closed] at found
      cases rest with
      | nil =>
        cases found
        exact ⟨isHost, bounded isPrefix⟩
      | cons next rest =>
        dsimp only at found
        split at found
        · cases found
          exact ⟨isHost, bounded isPrefix⟩
        · cases found
  · rename_i unbracketed
    cases split : splitLast colon hostPort with
    | none =>
      rw [split] at found
      cases found
      exact ⟨.named unbracketed, bounded (List.prefix_refl _)⟩
    | some halves =>
      rw [split] at found
      cases found
      rcases eq_append_of_splitLast split with ⟨rfl, _⟩
      refine ⟨.named ?_, bounded (List.prefix_append _ _)⟩
      cases host with
      | nil => simp
      | cons first host => exact unbracketed

section

theorem splitAuthority_bracketed (opened : inside.head? = some openBracket)
    (unclosed : closeBracket ∉ inside) (absent : atSign ∉ inside ++ bytes "]") :
    splitAuthority (inside ++ bytes "]") = some (inside ++ bytes "]", []) := by
  have found := splitFirst_append [] unclosed
  have head : (inside ++ bytes "]").head? = some openBracket := by
    rw [List.head?_append, opened]
    rfl
  rw [splitAuthority_unfold absent, if_pos head]
  simp only [bytes, closeBracket] at found ⊢
  simp [found]

theorem splitAuthority_port (isHost : IsHost host) (absent : atSign ∉ host ++ bytes ":" ++ port)
    (present : host ≠ []) (last : colon ∉ port) :
    splitAuthority (host ++ bytes ":" ++ port) = some (host, port) := by
  have shape : host ++ bytes ":" ++ port = host ++ colon :: port := by
    rw [List.append_assoc]
    rfl
  rw [splitAuthority_unfold absent]
  cases isHost with
  | @bracketed inside opened unclosed =>
    have found := splitFirst_append (colon :: port) unclosed
    have head : (inside ++ bytes "]" ++ bytes ":" ++ port).head? = some openBracket := by
      rw [List.append_assoc, List.append_assoc, List.head?_append, opened]
      rfl
    have split : splitFirst closeBracket (inside ++ bytes "]" ++ bytes ":" ++ port) =
        some (inside, colon :: port) := by
      rw [← found]
      congr 1
      simp [bytes, closeBracket, colon]
    rw [if_pos head, split]
    simp
  | named unbracketed =>
    have head : (host ++ bytes ":" ++ port).head? ≠ some openBracket := by
      cases host with
      | nil => exact absurd rfl present
      | cons first host => exact unbracketed
    rw [if_neg head, shape, splitLast_append host last]

theorem splitAuthority_bare (unbracketed : host.head? ≠ some openBracket) (absent : atSign ∉ host) :
    splitAuthority host =
      match splitLast colon host with
      | none => some (host, [])
      | some halves => some halves := by
  rw [splitAuthority_unfold absent, if_neg unbracketed]

end

/-! ### Normalizing -/

theorem exists_of_normalizeAuthority
    (found : normalizeAuthority authority secure = some normalized) :
    ∃ host port written, splitAuthority authority = some (host, port) ∧ host ≠ [] ∧
      normalizePort secure port = some written ∧ normalized = normalizeHost host ++ written := by
  simp only [normalizeAuthority] at found
  split at found
  · cases found
  · rename_i host port split
    split at found
    · cases found
    · rename_i present
      rcases Option.map_eq_some_iff.mp found with ⟨written, port_eq, rfl⟩
      exact ⟨host, port, written, split, present, port_eq, rfl⟩

theorem normalizeAuthority_of_splitAuthority
    (split : splitAuthority authority = some (host, port)) (present : host ≠ []) (secure : Bool) :
    normalizeAuthority authority secure =
      (normalizePort secure port).map fun written => normalizeHost host ++ written := by
  simp [normalizeAuthority, split, present]

theorem head_normalizeHost_of_bracket (opened : host.head? = some openBracket) :
    (normalizeHost host).head? = some openBracket := by
  cases host with
  | nil => cases opened
  | cons first rest =>
    cases opened
    have separated := normalizeHost_append [] rest (by decide : isHex openBracket = false)
      (by decide) (by decide)
    rw [List.nil_append] at separated
    rw [separated]
    rfl

theorem isHost_normalizeHost (isHost : IsHost host) : IsHost (normalizeHost host) := by
  cases isHost with
  | @bracketed inside opened unclosed =>
    have closed : normalizeHost (inside ++ bytes "]") = normalizeHost inside ++ bytes "]" :=
      normalizeHost_append inside [] (by decide) (by decide) (by decide)
    rw [closed]
    exact .bracketed (head_normalizeHost_of_bracket opened) fun made =>
      unclosed (mem_of_mem_normalizeHost (by decide) (by decide) made)
  | named unbracketed => exact .named fun made => unbracketed (head_normalizeHost made)

theorem notMem_written {written : Bytes} (normalized : normalizePort secure port = some written)
    {byte : UInt8} (notDigit : isDigit byte = false) (notColon : byte ≠ colon) :
    byte ∉ written := by
  rcases normalizePort_cases normalized with rfl | ⟨value, _, _, rfl⟩
  · simp
  · rw [List.mem_append, not_or]
    refine ⟨?_, not_mem_decimal value notDigit⟩
    simpa [bytes, colon] using notColon

theorem isNormalAuthority_of_normalizeAuthority
    (found : normalizeAuthority authority secure = some normalized) (whole : slash ∉ authority) :
    IsNormalAuthority normalized := by
  rcases exists_of_normalizeAuthority found with ⟨host, port, written, split, _, port_eq, rfl⟩
  rcases isHost_of_splitAuthority split with ⟨_, noUserinfo, inside⟩
  have both : ∀ {byte : UInt8}, byte ∉ normalizeHost host → isDigit byte = false → byte ≠ colon →
      byte ∉ normalizeHost host ++ written := by
    intro byte inHost notDigit notColon
    rw [List.mem_append, not_or]
    exact ⟨inHost, notMem_written port_eq notDigit notColon⟩
  refine ⟨both ?_ (by decide) (by decide), both ?_ (by decide) (by decide),
    both ?_ (by decide) (by decide), both ?_ (by decide) (by decide)⟩
  · exact fun made => whole (inside _ (mem_of_mem_normalizeHost (by decide) (by decide) made))
  · exact notMem_normalizeHost (by decide) (by decide) host
  · exact notMem_normalizeHost (by decide) (by decide) host
  · exact fun made => noUserinfo (mem_of_mem_normalizeHost (by decide) (by decide) made)

/-! ### Normalizing again -/

section

theorem normalizeAuthority_kept (isHost : IsHost host) (noUserinfo : atSign ∉ host)
    (present : host ≠ []) (normal : normalizeHost host = host) (within : value ≤ 65535)
    (other : value ≠ defaultPort secure) :
    normalizeAuthority (host ++ bytes ":" ++ decimal value) secure =
      some (host ++ bytes ":" ++ decimal value) := by
  have absent : atSign ∉ host ++ bytes ":" ++ decimal value := by
    rw [List.mem_append, List.mem_append, not_or, not_or]
    exact ⟨⟨noUserinfo, by decide⟩, not_mem_decimal value (by decide)⟩
  have split := splitAuthority_port isHost absent present (not_mem_decimal value (by decide))
  rw [normalizeAuthority_of_splitAuthority split present, normalizePort_decimal within other, normal]
  simp

theorem normalizeAuthority_bracketed (opened : inside.head? = some openBracket)
    (unclosed : closeBracket ∉ inside) (noUserinfo : atSign ∉ inside ++ bytes "]")
    (normal : normalizeHost (inside ++ bytes "]") = inside ++ bytes "]") :
    normalizeAuthority (inside ++ bytes "]") secure = some (inside ++ bytes "]") := by
  have split := splitAuthority_bracketed opened unclosed noUserinfo
  have present : inside ++ bytes "]" ≠ [] := by simp [bytes]
  rw [normalizeAuthority_of_splitAuthority split present, normal]
  simp [normalizePort]

/-- A port as normalization writes it. -/
def isWrittenPort (secure : Bool) (port : Bytes) : Bool :=
  match portValue port with
  | none => false
  | some value => value != defaultPort secure && port == decimal value

theorem normalizePort_eq_self_iff (secure : Bool) (port : Bytes) :
    normalizePort secure port = some (colon :: port) ↔ isWrittenPort secure port = true := by
  by_cases empty : port = []
  · subst empty
    simp [normalizePort, isWrittenPort, portValue, decimal_ne_nil]
  · rw [normalizePort, if_neg empty, isWrittenPort]
    cases portValue port with
    | none => simp
    | some value =>
      by_cases isDefault : value = defaultPort secure
      · simp [isDefault]
      · have written : bytes ":" ++ decimal value = colon :: decimal value := rfl
        dsimp only
        rw [if_pos isDefault, written]
        simp only [Option.some.injEq, List.cons.injEq, true_and, Bool.and_eq_true, bne_iff_ne,
          beq_iff_eq]
        exact ⟨fun same => ⟨isDefault, same.symm⟩, fun same => same.2.symm⟩

/-- A name without a port is not changed unless it holds a colon. -/
def isSettledName (secure : Bool) (name : Bytes) : Bool :=
  match splitLast ':' name with
  | none => true
  | some (host, port) => host != [] && isWrittenPort secure port

theorem normalizeHost_eq_of_append {name : Bytes} (last : colon ∉ port)
    (normal : normalizeHost (name ++ colon :: port) = name ++ colon :: port) :
    normalizeHost name = name := by
  rw [normalizeHost_append name port (by decide) (by decide) (by decide)] at normal
  have lastAgain : colon ∉ normalizeHost port :=
    fun made => last (mem_of_mem_normalizeHost (by decide) (by decide) made)
  have split := splitLast_append (normalizeHost name) lastAgain
  rw [normal, splitLast_append name last] at split
  exact (congrArg Prod.fst (Option.some.inj split)).symm

theorem normalizeAuthority_bare_iff (unbracketed : host.head? ≠ some openBracket)
    (noUserinfo : atSign ∉ host) (present : host ≠ []) (normal : normalizeHost host = host) :
    normalizeAuthority host secure = some host ↔ isSettledName secure host = true := by
  have bare := splitAuthority_bare unbracketed noUserinfo
  cases split : splitLast colon host with
  | none =>
    rw [split] at bare
    rw [normalizeAuthority_of_splitAuthority bare present, normal]
    simp only [colon] at split
    simp [normalizePort, isSettledName, split]
  | some halves =>
    rcases halves with ⟨name, port⟩
    rcases eq_append_of_splitLast split with ⟨rfl, last⟩
    rw [split] at bare
    have settled : isSettledName secure (name ++ colon :: port) =
        (name != [] && isWrittenPort secure port) := by
      simp only [colon] at split ⊢
      simp [isSettledName, split]
    have nameNormal := normalizeHost_eq_of_append last normal
    rw [settled]
    by_cases named : name = []
    · subst named
      rw [normalizeAuthority, bare]
      simp
    · rw [normalizeAuthority_of_splitAuthority bare named, nameNormal, Option.map_eq_some_iff]
      simp only [List.append_cancel_left_eq, exists_eq_right, normalizePort_eq_self_iff]
      simp [named]

end

/-! ### When an identifier is its own -/

/--
The authority of an identifier is its own normalization: it is a bracketed literal,
or it keeps its port, or no colon is left once the port is dropped, save that of a
port as normalization writes it.
-/
def settles (authority : Bytes) (secure : Bool) : Bool :=
  match splitAuthority authority with
  | none => true
  | some (host, port) =>
      host.head? == some openBracket || normalizePort secure port != some [] ||
        isSettledName secure (normalizeHost host)

theorem normalizeAuthority_fixpoint_iff
    (found : normalizeAuthority authority secure = some normalized) :
    normalizeAuthority normalized secure = some normalized ↔ settles authority secure = true := by
  rcases exists_of_normalizeAuthority found with
    ⟨host, port, written, split, present, port_eq, rfl⟩
  rcases isHost_of_splitAuthority split with ⟨isHost, noUserinfo, _⟩
  have hostAgain := isHost_normalizeHost isHost
  have presentAgain := normalizeHost_ne_nil present
  have normal := normalizeHost_normalizeHost host
  have noUserinfoAgain : atSign ∉ normalizeHost host :=
    fun made => noUserinfo (mem_of_mem_normalizeHost (by decide) (by decide) made)
  simp only [settles, split, port_eq]
  rcases normalizePort_cases port_eq with rfl | ⟨value, within, other, rfl⟩
  · rw [List.append_nil]
    by_cases opened : host.head? = some openBracket
    · have openedAgain := head_normalizeHost_of_bracket opened
      generalize normalizeHost host = name at hostAgain normal noUserinfoAgain openedAgain ⊢
      cases hostAgain with
      | bracketed insideOpened unclosed =>
        rw [normalizeAuthority_bracketed insideOpened unclosed noUserinfoAgain normal]
        simp [opened]
      | named unbracketed => exact absurd openedAgain unbracketed
    · have unbracketed : (normalizeHost host).head? ≠ some openBracket :=
        fun made => opened (head_normalizeHost made)
      rw [normalizeAuthority_bare_iff unbracketed noUserinfoAgain presentAgain normal]
      simp [opened]
  · have kept := normalizeAuthority_kept hostAgain noUserinfoAgain presentAgain normal within other
    rw [List.append_assoc] at kept
    rw [kept]
    simp [bytes]

end UsdAsset.Resolver
