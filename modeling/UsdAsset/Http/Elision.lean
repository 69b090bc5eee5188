import Mathlib.Data.FinEnum
import UsdAsset.Http.Secrets
import UsdAsset.Lib.Rfc3986

/-!
# What elision hides and what it keeps

The query is cut before the userinfo is looked for, so no `@` and no `://` of a query is
taken for one of an authority.  What is written in the place of a secret holds neither a
`?` nor anything that ends an authority, and is found again by a second elision.
-/

namespace UsdAsset.Http

open ByteString

/-! ### Schemes -/

theorem isSchemeByte_eq : ∀ byte : UInt8, isSchemeByte byte =
    (Rfc3986.isLetter byte || isDigit byte || (bytes "+-.").contains byte) := by
  decide +kernel

theorem beforeColon_of_isSchemeByte : ∀ byte : UInt8, isSchemeByte byte = true →
    beforeColon byte = true := by
  decide +kernel

theorem isSchemeByte_of_isLetter : ∀ byte : UInt8, Rfc3986.isLetter byte = true →
    isSchemeByte byte = true := by
  decide +kernel

theorem isScheme_iff (scheme : Bytes) : isScheme scheme = true ↔ Rfc3986.IsScheme scheme := by
  cases scheme with
  | nil =>
    refine ⟨nofun, ?_⟩
    rintro ⟨_, _, shape, _⟩
    cases shape
  | cons first rest =>
    have shape : isScheme (first :: rest) =
        (Rfc3986.isLetter first && (isSchemeByte first && rest.all isSchemeByte)) := rfl
    rw [shape]
    simp only [Bool.and_eq_true, List.all_eq_true]
    constructor
    · rintro ⟨letter, _, others⟩
      exact ⟨first, rest, rfl, letter, fun byte byteMem =>
        (isSchemeByte_eq byte).symm.trans (others byte byteMem)⟩
    · rintro ⟨_, _, ⟨rfl, rfl⟩, letter, others⟩
      exact ⟨letter, isSchemeByte_of_isLetter first letter, fun byte byteMem =>
        (isSchemeByte_eq byte).trans (others byte byteMem)⟩

theorem beforeColon_of_isScheme {scheme : Bytes} (legal : isScheme scheme = true) :
    ∀ byte ∈ scheme, beforeColon byte = true := by
  cases scheme with
  | nil => exact nofun
  | cons first rest =>
    intro byte byteMem
    have all := (Bool.and_eq_true_iff.mp legal).2
    exact beforeColon_of_isSchemeByte byte (List.all_eq_true.mp all byte byteMem)

/-! ### Identifiers with secrets -/

/-- An identifier with a userinfo and a query. -/
def identifierOf (scheme userinfo host path query : Bytes) : Bytes :=
  scheme ++ bytes "://" ++ userinfo ++ bytes "@" ++ host ++ path ++ bytes "?" ++ query

/-- The parts of an identifier that are no secrets. -/
structure ArePublic (scheme host path : Bytes) : Prop where
  scheme : Rfc3986.IsScheme scheme
  host : ∀ byte ∈ host, byte ∉ bytes "/?#@"
  rooted : path = [] ∨ path.head? = some (('/' : Char) : UInt8)
  path : questionMark ∉ path

/-- The bytes a userinfo cannot have. -/
def IsUserinfo (userinfo : Bytes) : Prop := ∀ byte ∈ userinfo, byte ∉ bytes "/?#"

theorem inAuthority_iff : ∀ byte : UInt8, inAuthority byte = true ↔ byte ∉ bytes "/?#" := by
  decide +kernel

theorem inAuthority_of_host : ∀ byte : UInt8, byte ∉ bytes "/?#@" →
    inAuthority byte = true ∧ byte ≠ '@' := by
  decide +kernel

theorem elideSecrets_identifierOf {scheme userinfo host path : Bytes}
    (shown : ArePublic scheme host path) (within : IsUserinfo userinfo) (query : Bytes) :
    elideSecrets (identifierOf scheme userinfo host path query) =
      scheme ++ bytes "://<elided>@" ++ host ++ path ++ bytes "?<elided>" := by
  have legal := (isScheme_iff scheme).mpr shown.scheme
  have present : scheme ≠ [] := by
    rintro rfl
    cases legal
  have inHost : ∀ byte ∈ host, inAuthority byte = true :=
    fun byte byteMem => (inAuthority_of_host byte (shown.host byte byteMem)).1
  -- the authority ends where the path or the query begins
  have stops : ∀ byte ∈ (path ++ bytes "?" ++ query).head?, inAuthority byte = false := by
    rcases shown.rooted with rfl | rooted
    · rintro byte ⟨⟩
      rfl
    · cases path with
      | nil => cases rooted
      | cons first rest =>
        cases rooted
        rintro byte ⟨⟩
        rfl
  have authority := (takeWhile_append_of_head inHost stops).1
  have last : atSign ∉
      (host ++ (path ++ bytes "?" ++ query)).takeWhile inAuthority := by
    rw [authority]
    exact fun byteMem => (inAuthority_of_host _ (shown.host _ byteMem)).2 rfl
  have unquestioned : questionMark ∉ host ++ path := by
    rw [List.mem_append, not_or]
    exact ⟨notMem_of_inAuthority inHost rfl, shown.path⟩
  have elided := elideSecrets_userinfo (beforeColon_of_isScheme legal) (Or.inr legal)
    (fun byte byteMem => (inAuthority_iff byte).mpr (within byte byteMem)) last
  have cut := elideQuery_cut query unquestioned
  simp only [authorityLead, if_neg present, ← List.append_assoc] at elided
  rw [append_questionMark (host ++ path), cut] at elided
  rw [identifierOf, elided]
  simp [bytes]

/-! ### Twice -/

theorem elideQuery_idempotent (text : Bytes) : elideQuery (elideQuery text) = elideQuery text := by
  by_cases questioned : questionMark ∈ text
  · rcases List.eq_append_cons_of_mem questioned with ⟨before, after, rfl, absent⟩
    rw [elideQuery_cut _ absent]
    exact elideQuery_cut (bytes "<elided>") absent
  · rw [elideQuery_whole questioned, elideQuery_whole questioned]

theorem exists_lead_of_findAuthority {text : Bytes} {start : ℕ}
    (found : findAuthority text = some start) :
    ∃ scheme tail, (scheme = [] ∨ isScheme scheme = true) ∧
      text = authorityLead scheme ++ tail ∧ start = (authorityLead scheme).length := by
  simp only [findAuthority] at found
  split at found
  · rename_i leads
    cases found
    rcases List.isPrefixOf_iff_prefix.mp leads with ⟨tail, rfl⟩
    exact ⟨[], tail, Or.inl rfl, rfl, rfl⟩
  · split at found
    · cases found
    · rename_i separator separated
      split at found
      · rename_i legal
        cases found
        have shape := eq_append_of_find separated
        have present : text.take separator ≠ [] := by
          intro none
          rw [none] at legal
          cases legal
        have position : (text.take separator).length = separator := by
          have lengths := congrArg List.length shape
          rw [List.length_append, List.length_append, List.length_take, List.length_drop] at lengths
          rw [List.length_take]
          have three : (bytes "://").length = 3 := rfl
          omega
        refine ⟨text.take separator, text.drop (separator + 3), Or.inr legal, ?_, ?_⟩
        · rw [authorityLead, if_neg present]
          exact shape
        · rw [authorityLead, if_neg present, List.length_append, position]
          rfl
      · cases found

theorem elideUserinfo_cases (text : Bytes) :
    elideUserinfo text = text ∨ ∃ scheme secret rest, (scheme = [] ∨ isScheme scheme = true) ∧
      (∀ byte ∈ secret, inAuthority byte = true) ∧
      atSign ∉ rest.takeWhile inAuthority ∧
      text = authorityLead scheme ++ secret ++ bytes "@" ++ rest := by
  cases found : findAuthority text with
  | none => simp [elideUserinfo, found]
  | some start =>
    rcases exists_lead_of_findAuthority found with ⟨scheme, tail, legal, rfl, rfl⟩
    cases split : splitLast '@' (tail.takeWhile inAuthority) with
    | none =>
      left
      simp only [elideUserinfo, found, List.drop_left, split]
    | some halves =>
      rcases halves with ⟨secret, host⟩
      rcases eq_append_of_splitLast split with ⟨shape, absent⟩
      have inside : ∀ byte ∈ secret ++ atSign :: host,
          inAuthority byte = true := by
        rw [← shape]
        exact fun _ => List.mem_takeWhile_imp
      rcases List.forall_mem_append.mp inside with ⟨inSecret, inHost⟩
      have stops : ∀ byte ∈ (tail.dropWhile inAuthority).head?, inAuthority byte = false := by
        have first := List.head?_dropWhile_not inAuthority tail
        rintro byte behind
        rw [Option.mem_def.mp behind] at first
        exact first
      have authority :=
        (takeWhile_append_of_head (List.forall_mem_cons.mp inHost).2 stops).1
      refine Or.inr ⟨scheme, secret, host ++ tail.dropWhile inAuthority, legal, inSecret,
        by rwa [authority], ?_⟩
      calc authorityLead scheme ++ tail
          = authorityLead scheme ++
              (tail.takeWhile inAuthority ++ tail.dropWhile inAuthority) := by
            rw [List.takeWhile_append_dropWhile]
        _ = authorityLead scheme ++ secret ++ bytes "@" ++
              (host ++ tail.dropWhile inAuthority) := by
            rw [shape]
            simp [bytes]

theorem elideSecrets_idempotent (text : Bytes) :
    elideSecrets (elideSecrets text) = elideSecrets text := by
  rcases elideUserinfo_cases (elideQuery text) with
    same | ⟨scheme, secret, rest, legal, inSecret, last, shape⟩
  · have once : elideSecrets text = elideQuery text := same
    rw [once, elideSecrets, elideQuery_idempotent, same]
  · have named : ∀ byte ∈ scheme, beforeColon byte = true := by
      rcases legal with rfl | legal
      · simp
      · exact beforeColon_of_isScheme legal
    have once : elideSecrets text =
        authorityLead scheme ++ bytes "<elided>" ++ bytes "@" ++ elideQuery rest := by
      have cut : elideSecrets text = elideSecrets (elideQuery text) := by
        rw [elideSecrets, elideSecrets, elideQuery_idempotent]
      rw [cut, shape, elideSecrets_userinfo named legal inSecret last]
      simp [bytes]
    rw [once, elideSecrets_userinfo named legal (by decide +kernel) (by rwa [takeWhile_elideQuery]),
      elideQuery_idempotent]
    simp [bytes]

/-! ### No authority -/

/-- A `//` at the very start, or a legal scheme followed by `://`. -/
def HasAuthority (text : Bytes) : Prop :=
  bytes "//" <+: text ∨ ∃ scheme rest, Rfc3986.IsScheme scheme ∧
    text = scheme ++ bytes "://" ++ rest

theorem elideSecrets_of_no_authority {text : Bytes} (unquestioned : questionMark ∉ text)
    (without : ¬HasAuthority text) : elideSecrets text = text := by
  have none : findAuthority text = none := by
    by_contra present
    rcases Option.ne_none_iff_exists'.mp present with ⟨start, found⟩
    rcases exists_lead_of_findAuthority found with ⟨scheme, tail, legal, rfl, _⟩
    refine without ?_
    by_cases empty : scheme = []
    · rw [authorityLead, if_pos empty]
      exact Or.inl (List.prefix_append _ _)
    · rw [authorityLead, if_neg empty]
      exact Or.inr ⟨scheme, tail, (isScheme_iff scheme).mp (legal.resolve_left empty), rfl⟩
  rw [elideSecrets, elideQuery_whole unquestioned, elideUserinfo, none]

theorem elideSecrets_hides_secrets :
    (∀ {scheme host path : Bytes}, ArePublic scheme host path →
      ∀ {userinfo other : Bytes}, IsUserinfo userinfo → IsUserinfo other → ∀ query otherQuery,
        elideSecrets (identifierOf scheme userinfo host path query) =
            elideSecrets (identifierOf scheme other host path otherQuery) ∧
          host <:+: elideSecrets (identifierOf scheme userinfo host path query) ∧
          path <:+: elideSecrets (identifierOf scheme userinfo host path query)) ∧
      (∀ text, elideSecrets (elideSecrets text) = elideSecrets text) ∧
      ∀ text, questionMark ∉ text → ¬HasAuthority text → elideSecrets text = text := by
  refine ⟨?_, elideSecrets_idempotent, fun _ => elideSecrets_of_no_authority⟩
  intro scheme host path shown userinfo other within otherWithin query otherQuery
  rw [elideSecrets_identifierOf shown within, elideSecrets_identifierOf shown otherWithin]
  refine ⟨rfl, ⟨scheme ++ bytes "://<elided>@", path ++ bytes "?<elided>", ?_⟩,
    ⟨scheme ++ bytes "://<elided>@" ++ host, bytes "?<elided>", rfl⟩⟩
  simp only [List.append_assoc]

theorem elideSecrets_hides_signature :
    elideSecrets (identifierOf (bytes "https") (bytes "user:token") (bytes "host") (bytes "/a@2x")
        (bytes "signature=1")) =
      elideSecrets (identifierOf (bytes "https") [] (bytes "host") (bytes "/a@2x")
        (bytes "b://c@d")) := by
  have shown : ArePublic (bytes "https") (bytes "host") (bytes "/a@2x") :=
    ⟨(isScheme_iff _).mp (by decide +kernel), by decide +kernel, Or.inr rfl, by decide +kernel⟩
  have within : IsUserinfo (bytes "user:token") := by
    simp only [IsUserinfo]
    decide +kernel
  exact (elideSecrets_hides_secrets.1 shown within (by simp [IsUserinfo]) _ _).1

end UsdAsset.Http
